import DroidVnc.Input.Events
import DroidVnc.Lib.PrefixCode

/-! Typing. Each printable character is one group of events: its key goes down and
up, between the shift key going down and up where the tables say so. No group
begins another one, so the groups of a text can be told apart in its stream, and a
group gives its character back, but for one pair: `+` and `=` share theirs. -/

namespace DroidVnc

open Event Transition PrefixCode

/-! ### The groups -/

/-- A key typed without `alt`. -/
def Keysym.Typed : Keysym → Prop
  | .scancode code _ alt => code ≠ 0 ∧ code ≠ 42 ∧ alt = 0
  | _ => False

instance : DecidablePred Keysym.Typed := fun k => by
  cases k <;> unfold Keysym.Typed <;> infer_instance

def Keysym.events : Keysym → List Event
  | .scancode code sh alt => if code ≠ 0 then Input.typed code sh alt else []
  | _ => []

/-- The scancode, and whether it is shifted. -/
def Keysym.stroke : Keysym → ℕ × Bool
  | .scancode code sh _ => (code, sh != 0)
  | _ => (0, false)

def group (p : ℕ × Bool) : List Event :=
  if p.2 then [press 42, press p.1, release p.1, release 42] else [press p.1, release p.1]

theorem Keysym.events_eq_group {k : Keysym} (h : k.Typed) : k.events = group k.stroke := by
  cases k with
  | scancode code sh alt =>
    obtain ⟨hcode, -, rfl⟩ := h
    by_cases hsh : sh = 0
    · simp [events, stroke, group, Input.typed, hcode, hsh]
    · simp [events, stroke, group, Input.typed, hcode, hsh]
  | _ => exact absurd h (by simp [Typed])

theorem Keysym.stroke_fst_ne {k : Keysym} (h : k.Typed) : k.stroke.1 ≠ 42 := by
  cases k with
  | scancode => exact h.2.1
  | _ => exact absurd h (by simp [Typed])

/-- The groups of all keys but the shift key. -/
def groups : Set (List Event) := {u | ∃ p : ℕ × Bool, p.1 ≠ 42 ∧ u = group p}

theorem press_inj {a b : ℕ} : press a = press b ↔ a = b := by simp [press]

theorem group_inj {p q : ℕ × Bool} (h : group p = group q) : p = q := by
  obtain ⟨a, s⟩ := p
  obtain ⟨b, t⟩ := q
  cases s <;> cases t <;> simp [group, press_inj] at h
  · rw [h.1]
  · rw [h.1]

/-- Where shift is held the group begins with it, and nowhere else. -/
theorem prefixFree_groups : PrefixFree groups := by
  rintro _ ⟨⟨a, s⟩, ha, rfl⟩ _ ⟨⟨b, t⟩, hb, rfl⟩ h
  cases s <;> cases t <;> simp [group, press_inj] at h ha hb ⊢
  · exact ⟨h.1, h.2⟩
  · exact absurd h.1 ha
  · exact ⟨h.1, h.2⟩

theorem nil_notMem_groups : [] ∉ groups := by
  rintro ⟨⟨a, s⟩, -, h⟩
  cases s <;> simp [group] at h

/-! ### The characters -/

def Printable (c : ℕ) : Prop := 32 ≤ c ∧ c ≤ 126

/-- `+` and `=` are typed alike. -/
def folded (c : ℕ) : ℕ := if c = 61 then 43 else c

def charOf (p : ℕ × Bool) : Option ℕ :=
  (List.range' 32 95).find? fun c => (keysym2scancode c).stroke = p

theorem mem_range_of_printable {c : ℕ} (h : Printable c) : c ∈ List.range' 32 95 := by
  rw [List.mem_range'_1]
  exact ⟨h.1, by have := h.2; omega⟩

theorem typed_of_printable {c : ℕ} (h : Printable c) : (keysym2scancode c).Typed := by
  have hall : ∀ c ∈ List.range' 32 95, (keysym2scancode c).Typed := by decide +kernel
  exact hall c (mem_range_of_printable h)

theorem charOf_stroke {c : ℕ} (h : Printable c) :
    charOf (keysym2scancode c).stroke = some (folded c) := by
  have hall : ∀ c ∈ List.range' 32 95,
      charOf (keysym2scancode c).stroke = some (folded c) := by decide +kernel
  exact hall c (mem_range_of_printable h)

theorem stroke_folded (c : ℕ) :
    (keysym2scancode (folded c)).stroke = (keysym2scancode c).stroke := by
  unfold folded
  split_ifs with hc
  · rw [hc]
    decide
  · rfl

theorem stroke_eq_iff {c d : ℕ} (hc : Printable c) (hd : Printable d) :
    (keysym2scancode c).stroke = (keysym2scancode d).stroke ↔ folded c = folded d := by
  constructor
  · intro h
    have hsome := charOf_stroke hc
    rw [h, charOf_stroke hd] at hsome
    exact (Option.some.inj hsome).symm
  · intro h
    rw [← stroke_folded c, h, stroke_folded d]

theorem events_mem_groups {c : ℕ} (h : Printable c) : (keysym2scancode c).events ∈ groups :=
  ⟨_, Keysym.stroke_fst_ne (typed_of_printable h), Keysym.events_eq_group (typed_of_printable h)⟩

theorem events_eq_iff {c d : ℕ} (hc : Printable c) (hd : Printable d) :
    (keysym2scancode c).events = (keysym2scancode d).events ↔ folded c = folded d := by
  rw [Keysym.events_eq_group (typed_of_printable hc),
    Keysym.events_eq_group (typed_of_printable hd), ← stroke_eq_iff hc hd]
  exact ⟨group_inj, congrArg group⟩

/-- Two texts have the same stream of events exactly when they agree up to folding. -/
theorem stream_eq_iff {text text' : List ℕ} (h : ∀ c ∈ text, Printable c)
    (h' : ∀ c ∈ text', Printable c) :
    text.flatMap (fun c => (keysym2scancode c).events) =
        text'.flatMap (fun c => (keysym2scancode c).events) ↔
      text.map folded = text'.map folded := by
  rw [flatMap_eq_iff prefixFree_groups nil_notMem_groups
    (fun c hc => events_mem_groups (h c hc)) fun c hc => events_mem_groups (h' c hc)]
  induction text generalizing text' with
  | nil => cases text' <;> simp
  | cons c text ih =>
    cases text' with
    | nil => simp
    | cons d text' =>
      rw [List.map_cons, List.map_cons, List.map_cons, List.map_cons, List.cons.injEq,
        List.cons.injEq, events_eq_iff (h c (by simp)) (h' d (by simp)),
        ih (fun c hc => h c (by simp [hc])) fun c hc => h' c (by simp [hc])]

/-! ### The calls -/

namespace Input

/-- Each character is sent as a key that goes down and then up. -/
def typing (text : List ℕ) : List Op :=
  text.flatMap fun c => [.keyEvent true c, .keyEvent false c]

theorem keyEvent_down {fmt : ScreenFormat} {c : ℕ} (h : Printable c) (s : Input) :
    s.keyEvent fmt true c = some (write (keysym2scancode c).events { s with idle := false }) := by
  have htyped := typed_of_printable h
  have hc : c ≠ 0 := by have := h.1; omega
  unfold keyEvent
  cases hk : keysym2scancode c with
  | scancode code sh alt =>
    rw [hk] at htyped
    simp [Keysym.events, htyped.1, hc]
  | _ => exact absurd htyped (by simp [hk, Keysym.Typed])

theorem keyEvent_up {fmt : ScreenFormat} {c : ℕ} (h : Printable c) (s : Input) :
    s.keyEvent fmt false c = some { s with idle := false } := by
  have htyped := typed_of_printable h
  unfold keyEvent
  cases hk : keysym2scancode c with
  | scancode code sh alt => simp
  | _ => exact absurd htyped (by simp [hk, Keysym.Typed])

/-- Typing a text writes the groups of its characters, one after the other. -/
theorem run_typing (fmt : ScreenFormat) {text : List ℕ} (h : ∀ c ∈ text, Printable c)
    (s : Input) :
    ∃ t, run (step fmt) s (typing text) = some t ∧
      t.written = s.written ++ text.flatMap fun c => (keysym2scancode c).events := by
  induction text generalizing s with
  | nil => exact ⟨s, rfl, by simp⟩
  | cons c text ih =>
    have hc := h c (by simp)
    obtain ⟨t, ht, hwritten⟩ := ih (fun d hd => h d (by simp [hd]))
      (write (keysym2scancode c).events { s with idle := false })
    refine ⟨t, ?_, by simp [hwritten, write]⟩
    show ((s.keyEvent fmt true c).bind fun u =>
      (u.keyEvent fmt false c).bind fun v => run (step fmt) v (typing text)) = some t
    rw [keyEvent_down hc, Option.bind_some, keyEvent_up hc, Option.bind_some]
    exact ht

/-- Different texts are typed as different streams unless they differ only by `=`
for `+`. -/
theorem typing_lossless_iff (fmt : ScreenFormat) (s : Input) {text text' : List ℕ}
    (h : ∀ c ∈ text, Printable c) (h' : ∀ c ∈ text', Printable c) :
    ∃ t t', run (step fmt) s (typing text) = some t ∧
      run (step fmt) s (typing text') = some t' ∧
      (t.written ≠ t'.written ↔ text.map folded ≠ text'.map folded) := by
  obtain ⟨t, ht, hwritten⟩ := run_typing fmt h s
  obtain ⟨t', ht', hwritten'⟩ := run_typing fmt h' s
  refine ⟨t, t', ht, ht', not_congr ?_⟩
  rw [hwritten, hwritten', List.append_cancel_left_eq, stream_eq_iff h h']

/-- `a+b` and `a-b` can be told apart. -/
theorem typing_lossless_minus :
    ∃ t t', run (step ⟨480, 800, 16⟩) (start ⟨0, 480, 800, 960⟩) (typing [97, 43, 98]) = some t ∧
      run (step ⟨480, 800, 16⟩) (start ⟨0, 480, 800, 960⟩) (typing [97, 45, 98]) = some t' ∧
      (t.written ≠ t'.written ↔
        [97, 43, 98].map folded ≠ [97, 45, 98].map folded) :=
  typing_lossless_iff _ _ (by simp [Printable]) (by simp [Printable])

/-- `a+b` and `a=b` cannot. -/
theorem typing_loses_equals :
    ¬ ∀ (fmt : ScreenFormat) (s : Input) (text text' : List ℕ), (∀ c ∈ text, Printable c) →
      (∀ c ∈ text', Printable c) → text ≠ text' →
      ∀ t t', run (step fmt) s (typing text) = some t →
        run (step fmt) s (typing text') = some t' → t.written ≠ t'.written := by
  intro h
  exact h ⟨480, 800, 16⟩ (start ⟨0, 480, 800, 960⟩) [97, 43, 98] [97, 61, 98]
    (by simp [Printable]) (by simp [Printable]) (by decide) _ _ rfl rfl (by decide)

end Input

end DroidVnc
