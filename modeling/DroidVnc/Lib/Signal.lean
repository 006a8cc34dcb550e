import Mathlib.Data.List.Basic

/-! Signals in an event stream. A partial reading `f` picks the events that set
the signal, with the value they set it to. The level after a stream is the value
set last; a stream alternates between two values, or settles on one of them when
every event that sets the other is followed by one that sets it back. -/

namespace Signal

variable {α β : Type*} {f : α → Option β} {a b : β} {l m : List α}

/-- The value of the signal after the stream, `b` before it. -/
def level (f : α → Option β) (b : β) (l : List α) : β := l.foldl (fun v e => (f e).getD v) b

/-- The values `a, b, a, b, …`, stopping anywhere. -/
def Alternates (a b : β) : List β → Prop
  | [] => True
  | x :: l => x = a ∧ Alternates b a l

/-- Every event that sets `a` is followed by one that sets `b`. -/
def Settles (f : α → Option β) (a b : β) (l : List α) : Prop :=
  ∀ pre e post, l = pre ++ e :: post → f e = some a → ∃ e' ∈ post, f e' = some b

@[simp] theorem level_nil : level f b [] = b := rfl

@[simp] theorem level_cons (e : α) : level f b (e :: l) = level f ((f e).getD b) l := rfl

@[simp] theorem level_append : level f b (l ++ m) = level f (level f b l) m := List.foldl_append

theorem level_of_silent (h : ∀ e ∈ l, f e = none) : level f b l = b := by
  induction l with
  | nil => rfl
  | cons e l ih =>
    rw [level_cons, h e (by simp), Option.getD_none, ih fun x hx => h x (by simp [hx])]

/-! ### Alternation -/

/-- A stream that has stopped at either value can be continued with the other. -/
theorem Alternates.append (hab : a ≠ b) (h : Alternates a b (l.filterMap f))
    (hm : level f b l = b ∧ Alternates a b (m.filterMap f) ∨
      level f b l = a ∧ Alternates b a (m.filterMap f)) :
    Alternates a b ((l ++ m).filterMap f) := by
  induction l generalizing a b with
  | nil =>
    cases hm with
    | inl hm => exact hm.2
    | inr hm => exact absurd hm.1.symm hab
  | cons e l ih =>
    cases he : f e with
    | none =>
      rw [List.filterMap_cons_none he] at h
      rw [level_cons, he, Option.getD_none] at hm
      rw [List.cons_append, List.filterMap_cons_none he]
      exact ih hab h hm
    | some v =>
      rw [List.filterMap_cons_some he] at h
      rw [level_cons, he, Option.getD_some] at hm
      rw [List.cons_append, List.filterMap_cons_some he]
      obtain ⟨rfl, h⟩ := h
      exact ⟨rfl, ih hab.symm h hm.symm⟩

/-! ### Settling -/

theorem settles_nil : Settles f a b ([] : List α) := by
  intro pre e post h
  simp at h

theorem settles_cons {e : α} :
    Settles f a b (e :: l) ↔ (f e = some a → ∃ e' ∈ l, f e' = some b) ∧ Settles f a b l := by
  constructor
  · intro h
    exact ⟨fun he => h [] e l rfl he, fun pre e' post hl => h (e :: pre) e' post (by simp [hl])⟩
  · rintro ⟨he, h⟩ pre e' post hl hset
    cases pre with
    | nil =>
      obtain ⟨rfl, rfl⟩ := List.cons.inj hl
      exact he hset
    | cons x pre => exact h pre e' post (List.cons.inj hl).2 hset

/-- Both starting levels at once, so that the induction goes through. -/
theorem settles_iff_levels (hab : a ≠ b)
    (hbin : ∀ e ∈ l, ∀ v, f e = some v → v = a ∨ v = b) :
    (Settles f a b l ↔ level f b l = b) ∧
      ((∃ e ∈ l, f e = some b) ∧ Settles f a b l ↔ level f a l = b) := by
  induction l with
  | nil => exact ⟨by simp [settles_nil], by simp [hab]⟩
  | cons e l ih =>
    obtain ⟨ihb, iha⟩ := ih fun x hx => hbin x (by simp [hx])
    rw [settles_cons, level_cons, level_cons]
    cases he : f e with
    | none => simpa [he] using ⟨ihb, iha⟩
    | some v =>
      rcases hbin e (by simp) v he with rfl | rfl
      · simp [he, hab, ← iha]
      · simp [he, hab.symm, ← ihb]

/-- A signal with two values has settled on `b` exactly when its level is `b`. -/
theorem settles_iff_level (hab : a ≠ b)
    (hbin : ∀ e ∈ l, ∀ v, f e = some v → v = a ∨ v = b) :
    Settles f a b l ↔ level f b l = b := (settles_iff_levels hab hbin).1

end Signal
