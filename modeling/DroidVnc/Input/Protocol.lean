import DroidVnc.Input.Events

/-! The protocol on the uinput device. One invariant ties the click flags to the
levels of the keys in the stream written so far: the touch button is down exactly
while the left flag is set, the back and end keys are only down while their flags
are, and every other key is up. From it follow the shape of every gesture and,
for a client that has gone, exactly what stays pressed. -/

namespace DroidVnc

open Signal Transition Event

namespace Input

/-! ### Levels after one call -/

theorem level_leftEvents (k : ℕ) (v : ℤ) (pressed clicked : Bool) (p : ℤ × ℤ) (i : ℤ) :
    level (keyValue k) v (leftEvents pressed clicked p i) =
      if k = BTN_TOUCH ∧ pressed ≠ clicked then (if pressed then 1 else 0) else v := by
  cases pressed <;> cases clicked <;> by_cases hk : k = BTN_TOUCH <;>
    simp [leftEvents, position, hk] <;> split_ifs <;> simp

theorem level_holdKey (k code : ℕ) (v : ℤ) (pressed clicked : Bool) :
    level (keyValue k) v (holdKey code pressed clicked).2 =
      if k = code then (if pressed then 1 else if clicked then 0 else v) else v := by
  cases pressed <;> cases clicked <;> by_cases hk : k = code <;> simp [holdKey, hk]

/-- A modifier held while other keys are typed is up afterwards. -/
theorem level_around (k modifier code : ℕ) (v : ℤ) (events : List Event) :
    level (keyValue k) v ((if modifier ≠ 0 then [press code] else []) ++ events ++
        (if modifier ≠ 0 then [release code] else [])) =
      if modifier ≠ 0 ∧ k = code then 0 else level (keyValue k) v events := by
  by_cases hm : modifier = 0
  · simp [hm]
  · by_cases hk : k = code <;> simp [hm, hk]

/-- A key that has been typed is up, and so are the modifiers used for it. -/
theorem level_typed (k code sh alt : ℕ) (v : ℤ) :
    level (keyValue k) v (typed code sh alt) =
      if k = code ∨ sh ≠ 0 ∧ k = 42 ∨ alt ≠ 0 ∧ k = 56 then 0 else v := by
  have hnested : typed code sh alt =
      (if sh ≠ 0 then [press 42] else []) ++
        ((if alt ≠ 0 then [press 56] else []) ++ [press code, release code] ++
          (if alt ≠ 0 then [release 56] else [])) ++
        (if sh ≠ 0 then [release 42] else []) := by
    simp only [typed, List.append_assoc]
  have hcode : level (keyValue k) v [press code, release code] = if k = code then 0 else v := by
    by_cases hk : k = code <;> simp [hk]
  rw [hnested, level_around, level_around, hcode]
  grind

theorem touch_ne_back : BTN_TOUCH ≠ 158 := by decide

theorem touch_ne_end : BTN_TOUCH ≠ KEY_END := by decide

theorem end_ne_back : KEY_END ≠ 158 := by decide

/-- The level of the key `code` after all that has been written, 1 for held. -/
def key (code : ℕ) (s : Input) : ℤ := level (keyValue code) 0 s.written

theorem flags_ptrEvent {mask : BitVec 32} {x y : ℤ} {s t : Input}
    (h : s.ptrEvent mask x y = some t) :
    t.leftClicked = mask.getLsbD 0 ∧ t.rightClicked = mask.getLsbD 2 ∧
      t.middleClicked = mask.getLsbD 1 ∧ t.i = counted (mask.getLsbD 0) s.leftClicked s.i := by
  obtain ⟨p, -, rfl⟩ := ptrEvent_eq h
  exact ⟨rfl, rfl, rfl, rfl⟩

theorem key_touch_ptrEvent {mask : BitVec 32} {x y : ℤ} {s t : Input}
    (h : s.ptrEvent mask x y = some t) :
    t.key BTN_TOUCH = if mask.getLsbD 0 ≠ s.leftClicked then (if mask.getLsbD 0 then 1 else 0)
      else s.key BTN_TOUCH := by
  obtain ⟨p, -, rfl⟩ := ptrEvent_eq h
  simp [key, level_leftEvents, level_holdKey, touch_ne_back, touch_ne_end]

theorem key_back_ptrEvent {mask : BitVec 32} {x y : ℤ} {s t : Input}
    (h : s.ptrEvent mask x y = some t) :
    t.key 158 = if mask.getLsbD 2 then 1 else if s.rightClicked then 0 else s.key 158 := by
  obtain ⟨p, -, rfl⟩ := ptrEvent_eq h
  simp [key, level_leftEvents, level_holdKey, touch_ne_back.symm, end_ne_back.symm]

theorem key_end_ptrEvent {mask : BitVec 32} {x y : ℤ} {s t : Input}
    (h : s.ptrEvent mask x y = some t) :
    t.key KEY_END =
      if mask.getLsbD 1 then 1 else if s.middleClicked then 0 else s.key KEY_END := by
  obtain ⟨p, -, rfl⟩ := ptrEvent_eq h
  simp [key, level_leftEvents, level_holdKey, touch_ne_end.symm, end_ne_back]

theorem key_other_ptrEvent {mask : BitVec 32} {x y : ℤ} {s t : Input}
    (h : s.ptrEvent mask x y = some t) {code : ℕ} (h0 : code ≠ BTN_TOUCH) (h1 : code ≠ KEY_END)
    (h2 : code ≠ 158) : t.key code = s.key code := by
  obtain ⟨p, -, rfl⟩ := ptrEvent_eq h
  simp [key, level_leftEvents, level_holdKey, h0, h1, h2]

/-! ### The invariant -/

def Binary (events : List Event) : Prop :=
  ∀ e ∈ events, ∀ code v, keyValue code e = some v → v = 1 ∨ v = 0

/-- The stream written so far, the click flags and the move counter belong together. -/
structure Inv (s : Input) : Prop where
  binary : Binary s.written
  touch : s.key BTN_TOUCH = if s.leftClicked then 1 else 0
  alternates : Alternates 1 0 (s.written.filterMap (keyValue BTN_TOUCH))
  back : s.rightClicked = false → s.key 158 = 0
  endKey : s.middleClicked = false → s.key KEY_END = 0
  other : ∀ code, code ≠ BTN_TOUCH → code ≠ KEY_END → code ≠ 158 → s.key code = 0
  count : 0 ≤ s.i

theorem inv_start (screen : Screen) : (start screen).Inv where
  binary e he := by simp [start] at he
  touch := rfl
  alternates := trivial
  back _ := rfl
  endKey _ := rfl
  other _ _ _ _ := rfl
  count := le_refl 0

theorem Binary.append {l m : List Event} (hl : Binary l) (hm : Binary m) : Binary (l ++ m) := by
  intro e he
  cases List.mem_append.mp he with
  | inl he => exact hl e he
  | inr he => exact hm e he

theorem binary_leftEvents (pressed clicked : Bool) (p : ℤ × ℤ) (i : ℤ) :
    Binary (leftEvents pressed clicked p i) := by
  intro e he code v hv
  cases pressed <;> cases clicked <;> simp [leftEvents, position] at he
  · rcases he with rfl | rfl | rfl | rfl <;> simp at hv
    exact Or.inr hv.2.symm
  · rcases he with rfl | rfl | rfl | rfl <;> simp at hv
    exact Or.inl hv.2.symm
  · obtain ⟨-, rfl | rfl | rfl⟩ := he <;> simp at hv

theorem binary_holdKey (code : ℕ) (pressed clicked : Bool) :
    Binary (holdKey code pressed clicked).2 := by
  intro e he k v hv
  cases pressed <;> cases clicked <;> simp [holdKey] at he <;> subst he <;> simp at hv
  · exact Or.inr hv.2.symm
  · exact Or.inl hv.2.symm
  · exact Or.inl hv.2.symm

theorem mem_typed {code sh alt : ℕ} {e : Event} (he : e ∈ typed code sh alt) :
    ∃ k, (k = code ∨ k = 42 ∨ k = 56) ∧ (e = press k ∨ e = release k) := by
  simp only [typed, List.mem_append, List.mem_ite_nil_right, List.mem_cons, List.not_mem_nil,
    or_false] at he
  rcases he with (((⟨-, rfl⟩ | ⟨-, rfl⟩) | rfl | rfl) | ⟨-, rfl⟩) | ⟨-, rfl⟩
  · exact ⟨42, by simp, Or.inl rfl⟩
  · exact ⟨56, by simp, Or.inl rfl⟩
  · exact ⟨code, by simp, Or.inl rfl⟩
  · exact ⟨code, by simp, Or.inr rfl⟩
  · exact ⟨56, by simp, Or.inr rfl⟩
  · exact ⟨42, by simp, Or.inr rfl⟩

theorem binary_typed (code sh alt : ℕ) : Binary (typed code sh alt) := by
  intro e he k v hv
  obtain ⟨c, -, rfl | rfl⟩ := mem_typed he
  · rw [keyValue_press, Option.ite_none_right_eq_some, Option.some.injEq] at hv
    exact Or.inl hv.2.symm
  · rw [keyValue_release, Option.ite_none_right_eq_some, Option.some.injEq] at hv
    exact Or.inr hv.2.symm

theorem silent_holdKey {k code : ℕ} (hk : k ≠ code) (pressed clicked : Bool) :
    ∀ e ∈ (holdKey code pressed clicked).2, keyValue k e = none := by
  intro e he
  cases pressed <;> cases clicked <;> simp [holdKey] at he <;> subst he <;> simp [hk]

theorem silent_typed {code : ℕ} (hcode : code ≠ BTN_TOUCH) (sh alt : ℕ) :
    ∀ e ∈ typed code sh alt, keyValue BTN_TOUCH e = none := by
  intro e he
  obtain ⟨k, hk, he⟩ := mem_typed he
  have hne : BTN_TOUCH ≠ k := by
    rcases hk with rfl | rfl | rfl
    · exact hcode.symm
    · decide
    · decide
  rcases he with rfl | rfl
  · rw [keyValue_press, if_neg hne]
  · rw [keyValue_release, if_neg hne]

theorem touchValues_leftEvents (pressed clicked : Bool) (p : ℤ × ℤ) (i : ℤ) :
    (leftEvents pressed clicked p i).filterMap (keyValue BTN_TOUCH) =
      if pressed = clicked then [] else [if pressed then 1 else 0] := by
  cases pressed <;> cases clicked <;> simp [leftEvents, position]
  rintro e - (rfl | rfl | rfl) <;> simp

theorem alternates_ptrEvent {mask : BitVec 32} {x y : ℤ} {s t : Input} (hs : s.Inv)
    (h : s.ptrEvent mask x y = some t) :
    Alternates 1 0 (t.written.filterMap (keyValue BTN_TOUCH)) := by
  have htouch := hs.touch
  obtain ⟨p, -, rfl⟩ := ptrEvent_eq h
  apply Alternates.append (by decide) hs.alternates
  rw [List.filterMap_append, List.filterMap_append, touchValues_leftEvents,
    List.filterMap_eq_nil_iff.mpr (silent_holdKey touch_ne_back _ _),
    List.filterMap_eq_nil_iff.mpr (silent_holdKey touch_ne_end _ _), List.append_nil,
    List.append_nil]
  unfold key at htouch
  cases hm : mask.getLsbD 0 <;> cases hc : s.leftClicked <;> simp [hc] at htouch <;>
    simp [htouch, Alternates]

theorem inv_ptrEvent {mask : BitVec 32} {x y : ℤ} {s t : Input} (hs : s.Inv)
    (h : s.ptrEvent mask x y = some t) : t.Inv where
  binary := by
    obtain ⟨p, -, rfl⟩ := ptrEvent_eq h
    exact hs.binary.append (((binary_leftEvents _ _ _ _).append (binary_holdKey _ _ _)).append
      (binary_holdKey _ _ _))
  touch := by
    obtain ⟨hleft, -⟩ := flags_ptrEvent h
    rw [key_touch_ptrEvent h, hs.touch, hleft]
    cases mask.getLsbD 0 <;> cases s.leftClicked <;> rfl
  alternates := alternates_ptrEvent hs h
  back hflag := by
    have hbit : mask.getLsbD 2 = false := (flags_ptrEvent h).2.1 ▸ hflag
    rw [key_back_ptrEvent h, hbit, if_neg Bool.false_ne_true]
    split_ifs with hc
    · rfl
    · exact hs.back (by simpa using hc)
  endKey hflag := by
    have hbit : mask.getLsbD 1 = false := (flags_ptrEvent h).2.2.1 ▸ hflag
    rw [key_end_ptrEvent h, hbit, if_neg Bool.false_ne_true]
    split_ifs with hc
    · rfl
    · exact hs.endKey (by simpa using hc)
  other code h0 h1 h2 := (key_other_ptrEvent h h0 h1 h2).trans (hs.other code h0 h1 h2)
  count := by
    have := hs.count
    rw [(flags_ptrEvent h).2.2.2, counted]
    split_ifs <;> omega

theorem key_keyEvent {fmt : ScreenFormat} {down : Bool} {k : ℕ} {s t : Input}
    (h : s.keyEvent fmt down k = some t) (code : ℕ) :
    t.key code = s.key code ∨ t.key code = 0 := by
  obtain ⟨screen, events, rfl, ⟨rfl, -⟩ | ⟨c, sh, alt, -, -, -, rfl⟩⟩ := keyEvent_cases h
  · exact Or.inl (by simp [key])
  · simp only [key, level_append, level_typed]
    split_ifs
    · exact Or.inr rfl
    · exact Or.inl rfl

theorem key_touch_keyEvent {fmt : ScreenFormat} {down : Bool} {k : ℕ} {s t : Input}
    (h : s.keyEvent fmt down k = some t) :
    t.written.filterMap (keyValue BTN_TOUCH) = s.written.filterMap (keyValue BTN_TOUCH) ∧
      t.key BTN_TOUCH = s.key BTN_TOUCH := by
  obtain ⟨screen, events, rfl, hevents⟩ := keyEvent_cases h
  have hsilent : ∀ e ∈ events, keyValue BTN_TOUCH e = none := by
    rcases hevents with ⟨rfl, -⟩ | ⟨code, sh, alt, hkey, -, -, rfl⟩
    · simp
    · refine silent_typed ?_ sh alt
      have hne := keysym2scancode_code_ne k
      rwa [hkey] at hne
  constructor
  · rw [List.filterMap_append, List.filterMap_eq_nil_iff.mpr hsilent, List.append_nil]
  · rw [key, level_append, level_of_silent hsilent]
    rfl

theorem inv_keyEvent {fmt : ScreenFormat} {down : Bool} {k : ℕ} {s t : Input} (hs : s.Inv)
    (h : s.keyEvent fmt down k = some t) : t.Inv := by
  have hkey := key_keyEvent h
  obtain ⟨hvalues, htouch⟩ := key_touch_keyEvent h
  obtain ⟨screen, events, rfl, hevents⟩ := keyEvent_cases h
  have hbin : Binary events := by
    rcases hevents with ⟨rfl, -⟩ | ⟨code, sh, alt, -, -, -, rfl⟩
    · simp [Binary]
    · exact binary_typed code sh alt
  have hzero {code : ℕ} (h0 : s.key code = 0) := (hkey code).elim (fun h => h.trans h0) id
  exact {
    binary := hs.binary.append hbin
    touch := htouch.trans hs.touch
    alternates := hvalues ▸ hs.alternates
    back := fun hflag => hzero (hs.back hflag)
    endKey := fun hflag => hzero (hs.endKey hflag)
    other := fun code h0 h1 h2 => hzero (hs.other code h0 h1 h2)
    count := hs.count }

theorem inv_step {fmt : ScreenFormat} {op : Op} {s t : Input} (hs : s.Inv)
    (h : s.step fmt op = some t) : t.Inv := by
  cases op with
  | connect => obtain rfl := Option.some.inj h; exact ⟨hs.1, hs.2, hs.3, hs.4, hs.5, hs.6, hs.7⟩
  | disconnect => obtain rfl := Option.some.inj h; exact ⟨hs.1, hs.2, hs.3, hs.4, hs.5, hs.6, hs.7⟩
  | ptrEvent mask x y => exact inv_ptrEvent hs h
  | keyEvent down key => exact inv_keyEvent hs h

theorem inv_run {fmt : ScreenFormat} {screen : Screen} {l : List Op} {s : Input}
    (h : run (step fmt) (start screen) l = some s) : s.Inv :=
  run_invariant (V := fun _ => True) (fun _ _ _ _ hJ hs => inv_step hJ hs) (fun _ _ => trivial)
    (inv_start screen) h

/-! ### The shape of a gesture -/

/-- Every touch event directly follows the report of the position `p` and is
directly followed by a synchronisation. -/
def Framed (p : ℤ × ℤ) (events : List Event) : Prop :=
  ∀ pre e post v, events = pre ++ e :: post → keyValue BTN_TOUCH e = some v →
    ∃ pre' post', pre = pre' ++ position p ∧ post = syn :: post'

theorem framed_of_silent {p : ℤ × ℤ} {events : List Event}
    (h : ∀ e ∈ events, keyValue BTN_TOUCH e = none) : Framed p events := by
  intro pre e post v hsplit hv
  have hnone := h e (by simp [hsplit])
  simp [hnone] at hv

theorem framed_touch (p : ℤ × ℤ) (e : Event) : Framed p (position p ++ [e, syn]) := by
  intro pre x post v hsplit hv
  simp only [position, List.cons_append, List.nil_append] at hsplit
  match pre, hsplit with
  | [], hsplit =>
    obtain ⟨rfl, -⟩ := List.cons.inj hsplit
    simp at hv
  | [_], hsplit =>
    obtain ⟨-, hsplit⟩ := List.cons.inj hsplit
    obtain ⟨rfl, -⟩ := List.cons.inj hsplit
    simp at hv
  | [a, b], hsplit =>
    simp only [List.cons_append, List.nil_append, List.cons.injEq] at hsplit
    obtain ⟨rfl, rfl, rfl, rfl⟩ := hsplit
    exact ⟨[], [], rfl, rfl⟩
  | [_, _, _], hsplit =>
    simp only [List.cons_append, List.nil_append, List.cons.injEq] at hsplit
    obtain ⟨-, -, -, rfl, -⟩ := hsplit
    simp at hv
  | _ :: _ :: _ :: _ :: pre, hsplit => simp at hsplit

/-- What is written afterwards does not come between. -/
theorem Framed.append_silent {p : ℤ × ℤ} {l m : List Event} (h : Framed p l)
    (hm : ∀ e ∈ m, keyValue BTN_TOUCH e = none) : Framed p (l ++ m) := by
  intro pre e post v hsplit hv
  have hmem : e ∉ m := fun he => by simp [hm e he] at hv
  rcases List.append_eq_append_iff.mp hsplit with ⟨c, rfl, rfl⟩ | ⟨c, rfl, hc⟩
  · exact absurd (by simp) hmem
  · cases c with
    | nil =>
      rw [List.nil_append] at hc
      exact absurd (by simp [← hc]) hmem
    | cons x c =>
      obtain ⟨rfl, rfl⟩ := List.cons.inj hc
      obtain ⟨pre', post', hpre, rfl⟩ := h pre e c v rfl hv
      exact ⟨pre', post' ++ m, hpre, rfl⟩

theorem framed_leftEvents (pressed clicked : Bool) (p : ℤ × ℤ) (i : ℤ) :
    Framed p (leftEvents pressed clicked p i) := by
  cases pressed <;> cases clicked
  · exact framed_of_silent (by simp [leftEvents])
  · exact framed_touch p (release BTN_TOUCH)
  · exact framed_touch p (press BTN_TOUCH)
  · apply framed_of_silent
    intro e he
    simp only [leftEvents, position, List.mem_ite_nil_right, List.mem_append, List.mem_cons,
      List.not_mem_nil, or_false] at he
    obtain ⟨-, (rfl | rfl) | rfl⟩ := he <;> simp

/-! ### Moves of a drag -/

/-- The call is a move: the left button was down before and stays down. -/
def DragMove (s : Input) : Op → Prop
  | .ptrEvent mask _ _ => mask.getLsbD 0 = true ∧ s.leftClicked = true
  | _ => False

instance (s : Input) (op : Op) : Decidable (s.DragMove op) := by
  cases op <;> unfold DragMove <;> infer_instance

/-- The call writes the position it was given, as its first events. -/
def Reports (fmt : ScreenFormat) (s : Input) (op : Op) : Prop :=
  ∃ mask x y p t rest, op = .ptrEvent mask x y ∧ s.touched x y = some p ∧
    s.step fmt op = some t ∧ t.written = s.written ++ (position p ++ rest)

/-- The number of moves among the calls, from state `s` on. -/
def moves (fmt : ScreenFormat) : Input → List Op → ℕ
  | _, [] => 0
  | s, op :: l =>
    (if s.DragMove op then 1 else 0) + ((s.step fmt op).map fun t => moves fmt t l).getD 0

theorem i_step {fmt : ScreenFormat} {op : Op} {s t : Input} (h : s.step fmt op = some t) :
    t.i = s.i + if s.DragMove op then 1 else 0 := by
  cases op with
  | connect => obtain rfl := Option.some.inj h; simp [DragMove]
  | disconnect => obtain rfl := Option.some.inj h; simp [DragMove]
  | ptrEvent mask x y =>
    have hi : t.i = counted (mask.getLsbD 0) s.leftClicked s.i := (flags_ptrEvent h).2.2.2
    rw [hi, counted]
    by_cases hmove : s.DragMove (.ptrEvent mask x y)
    · rw [if_pos hmove, if_pos (Bool.and_eq_true_iff.mpr hmove)]
    · rw [if_neg hmove, if_neg fun hand => hmove (Bool.and_eq_true_iff.mp hand), add_zero]
  | keyEvent down key =>
    obtain ⟨screen, events, rfl, -⟩ := keyEvent_cases h
    simp [DragMove]

theorem intAdd_of_lt {a b : ℤ} (h0 : 0 ≤ a + b) (h : a + b < 2 ^ 31) :
    intAdd a b = some (a + b) := by
  rw [intAdd, if_pos]; omega

/-- The position of a pointer event can be scaled in `int`s, whatever its mask. -/
def Touches (s : Input) : Op → Prop
  | .ptrEvent _ x y => TouchInReach s.screen.rotation s.screen.width s.screen.height (x, y)
  | _ => True

theorem touched_isSome_iff {s : Input} {mask : BitVec 32} {x y : ℤ} :
    (s.touched x y).isSome ↔ s.Touches (.ptrEvent mask x y) := transformInt_isSome_iff

/-- A call that does not end the process and is not one move too many returns exactly when
its position can be scaled. -/
theorem step_isSome_iff {fmt : ScreenFormat} {op : Op} {s : Input} (hs : 0 ≤ s.i)
    (hexit : ∀ down k, op = .keyEvent down k → keysym2scancode k ≠ .exit)
    (hmove : s.DragMove op → s.i + 1 < 2 ^ 31) : (s.step fmt op).isSome ↔ s.Touches op := by
  cases op with
  | connect => exact iff_of_true rfl trivial
  | disconnect => exact iff_of_true rfl trivial
  | ptrEvent mask x y =>
    have htouch : (s.touched x y).isSome ↔ s.Touches (.ptrEvent mask x y) := touched_isSome_iff
    rw [← htouch, Option.isSome_iff_exists, Option.isSome_iff_exists]
    constructor
    · rintro ⟨t, ht⟩
      obtain ⟨p, hp, -⟩ := ptrEvent_eq ht
      exact ⟨p, hp⟩
    · rintro ⟨p, hp⟩
      suffices hleft : ∃ t, leftButton (mask.getLsbD 0) p { s with idle := false } = some t by
        obtain ⟨t, ht⟩ := hleft
        exact ⟨_, Option.bind_eq_some_iff.mpr ⟨p, hp, Option.bind_eq_some_iff.mpr ⟨t, ht, rfl⟩⟩⟩
      unfold leftButton
      split_ifs with hdrag
      · rw [intAdd_of_lt (by omega) (hmove hdrag)]
        exact ⟨_, rfl⟩
      · exact ⟨_, rfl⟩
      · exact ⟨_, rfl⟩
      · exact ⟨_, rfl⟩
  | keyEvent down k =>
    have hne := hexit down k rfl
    refine iff_of_true ?_ trivial
    simp only [step, keyEvent]
    split
    · next hk => exact absurd hk hne
    · rfl
    · rfl
    · split_ifs <;> rfl

/-- With fewer than `2 ^ 31` moves and no call that ends the process, a run goes through
exactly when every position on the way can be scaled. -/
theorem isSome_run_iff {fmt : ScreenFormat} {s : Input} {l : List Op} (hs : 0 ≤ s.i)
    (hexit : ∀ down k, .keyEvent down k ∈ l → keysym2scancode k ≠ .exit)
    (hmoves : s.i + moves fmt s l < 2 ^ 31) :
    (run (step fmt) s l).isSome ↔ Along (step fmt) Touches s l := by
  induction l generalizing s with
  | nil => exact iff_of_true rfl trivial
  | cons op l ih =>
    have hmove : s.DragMove op → s.i + 1 < 2 ^ 31 := by
      intro hdrag
      simp only [moves, if_pos hdrag] at hmoves
      push_cast at hmoves
      omega
    have hstep : (s.step fmt op).isSome ↔ s.Touches op :=
      step_isSome_iff hs (fun down k hop => hexit down k (by simp [hop])) hmove
    rw [Along, ← hstep, run_cons]
    cases ht : s.step fmt op with
    | none => simp
    | some t =>
      have hi := i_step ht
      simp only [moves, ht, Option.map_some, Option.getD_some] at hmoves
      have ht0 : 0 ≤ t.i := by split_ifs at hi <;> omega
      have hrest : t.i + moves fmt t l < 2 ^ 31 := by
        split_ifs at hi hmoves <;> push_cast at hmoves <;> omega
      rw [Option.bind_some, ih ht0 (fun down k hop => hexit down k (by simp [hop])) hrest]
      simp

/-- A move is reported when its number ends in 1. -/
theorem reports_of_move {fmt : ScreenFormat} {op : Op} {s t : Input}
    (h : s.step fmt op = some t) (hmove : s.DragMove op) (hten : t.i.tmod 10 = 1) :
    s.Reports fmt op := by
  cases op with
  | ptrEvent mask x y =>
    have hi : t.i = counted (mask.getLsbD 0) s.leftClicked s.i := (flags_ptrEvent h).2.2.2
    obtain ⟨p, hp, ht⟩ := ptrEvent_eq h
    have hw := congrArg Input.written ht
    dsimp only at hw
    rw [← hi, hmove.1, hmove.2, leftEvents, if_pos hten] at hw
    simp only [List.append_assoc] at hw
    exact ⟨mask, x, y, p, t, _, rfl, hp, h, hw⟩
  | connect => exact absurd hmove id
  | disconnect => exact absurd hmove id
  | keyEvent down key => exact absurd hmove id

/-- In a run without a reported move the counter passes no number that ends in 1. -/
theorem counter_run {fmt : ScreenFormat} {s u : Input} {l : List Op} (hs : 0 ≤ s.i)
    (h : run (step fmt) s l = some u)
    (hsilent : Along (step fmt) (fun s op => s.DragMove op → ¬ s.Reports fmt op) s l) :
    u.i = s.i + moves fmt s l ∧ ∀ k, s.i < k → k ≤ u.i → k % 10 ≠ 1 := by
  induction l generalizing s with
  | nil =>
    obtain rfl := Option.some.inj h
    exact ⟨by simp [moves], fun k h1 h2 => by omega⟩
  | cons op l ih =>
    obtain ⟨t, ht, hrun⟩ := Option.bind_eq_some_iff.mp h
    have hi := i_step ht
    have ht0 : 0 ≤ t.i := by split_ifs at hi <;> omega
    obtain ⟨hcount, hskip⟩ := ih ht0 hrun (hsilent.2 t ht)
    constructor
    · simp only [moves, ht, Option.map_some, Option.getD_some, hcount, hi]
      split_ifs <;> push_cast <;> ring
    · intro k hk hku
      by_cases hkt : t.i < k
      · exact hskip k hkt hku
      · split_ifs at hi with hmove
        · obtain rfl : k = t.i := by omega
          intro hten
          refine hsilent.1 hmove (reports_of_move ht hmove ?_)
          rwa [Int.tmod_eq_emod_of_nonneg ht0]
        · omega

/-! ### The protocol -/

/-- After a pointer event the three keys are as the button mask says. -/
theorem key_ptrEvent {mask : BitVec 32} {x y : ℤ} {s t : Input} (hs : s.Inv)
    (h : s.ptrEvent mask x y = some t) :
    t.key BTN_TOUCH = (if mask.getLsbD 0 then 1 else 0) ∧
      t.key KEY_END = (if mask.getLsbD 1 then 1 else 0) ∧
      t.key 158 = (if mask.getLsbD 2 then 1 else 0) := by
  have ht := inv_ptrEvent hs h
  have hleft : t.leftClicked = mask.getLsbD 0 := (flags_ptrEvent h).1
  refine ⟨hleft ▸ ht.touch, ?_, ?_⟩
  · cases hbit : mask.getLsbD 1 with
    | true => rw [key_end_ptrEvent h, hbit, if_pos rfl, if_pos rfl]
    | false => exact ht.endKey ((flags_ptrEvent h).2.2.1.trans hbit)
  · cases hbit : mask.getLsbD 2 with
    | true => rw [key_back_ptrEvent h, hbit, if_pos rfl, if_pos rfl]
    | false => exact ht.back ((flags_ptrEvent h).2.1.trans hbit)

theorem settles_typed (code sh alt k : ℕ) : Settles (keyValue k) 1 0 (typed code sh alt) := by
  apply (settles_iff_level (by decide) fun e he => binary_typed code sh alt e he k).mpr
  rw [level_typed]
  split_ifs <;> rfl

/-- What the protocol asks of one call and of the events it writes. -/
def CallProtocol (s t : Input) (events : List Event) : Op → Prop
  | .ptrEvent mask x y =>
    (∃ p, s.touched x y = some p ∧ Framed p events) ∧
      t.key BTN_TOUCH = (if mask.getLsbD 0 then 1 else 0) ∧
      t.key KEY_END = (if mask.getLsbD 1 then 1 else 0) ∧
      t.key 158 = (if mask.getLsbD 2 then 1 else 0)
  | .keyEvent _ _ =>
    (∀ e ∈ events, e.type ≠ EV_ABS ∧ keyValue BTN_TOUCH e = none) ∧
      ∀ code, Settles (keyValue code) 1 0 events
  | .connect => events = []
  | .disconnect => events = []

theorem framed_ptrEvent {mask : BitVec 32} {x y : ℤ} {s t : Input}
    (h : s.ptrEvent mask x y = some t) :
    ∃ events, t.written = s.written ++ events ∧
      ∃ p, s.touched x y = some p ∧ Framed p events := by
  obtain ⟨p, hp, rfl⟩ := ptrEvent_eq h
  refine ⟨_, rfl, p, hp, ?_⟩
  exact ((framed_leftEvents _ _ _ _).append_silent (silent_holdKey touch_ne_back _ _)).append_silent
    (silent_holdKey touch_ne_end _ _)

theorem callProtocol_keyEvent {fmt : ScreenFormat} {down : Bool} {k : ℕ} {s t : Input}
    (h : s.keyEvent fmt down k = some t) :
    ∃ events, t.written = s.written ++ events ∧ CallProtocol s t events (.keyEvent down k) := by
  obtain ⟨screen, events, rfl, ⟨rfl, -⟩ | ⟨code, sh, alt, hkey, -, -, rfl⟩⟩ := keyEvent_cases h
  · exact ⟨[], rfl, by simp, fun _ => settles_nil⟩
  · refine ⟨_, rfl, fun e he => ⟨?_, silent_typed ?_ sh alt e he⟩, settles_typed code sh alt⟩
    · have hne : EV_KEY ≠ EV_ABS := by decide
      obtain ⟨c, -, rfl | rfl⟩ := mem_typed he <;> exact hne
    · have hne := keysym2scancode_code_ne k
      rwa [hkey] at hne

theorem callProtocol_step {fmt : ScreenFormat} {op : Op} {s t : Input} (hs : s.Inv)
    (h : s.step fmt op = some t) :
    ∃ events, t.written = s.written ++ events ∧ CallProtocol s t events op := by
  cases op with
  | connect =>
    obtain rfl := Option.some.inj h
    exact ⟨[], by simp, rfl⟩
  | disconnect =>
    obtain rfl := Option.some.inj h
    exact ⟨[], by simp, rfl⟩
  | ptrEvent mask x y =>
    obtain ⟨events, hwritten, hframed⟩ := framed_ptrEvent h
    exact ⟨events, hwritten, hframed, key_ptrEvent hs h⟩
  | keyEvent down k => exact callProtocol_keyEvent h

/-- Of ten moves in a row one is reported. -/
theorem moves_le_nine {fmt : ScreenFormat} {s u : Input} {l : List Op} (hs : 0 ≤ s.i)
    (h : run (step fmt) s l = some u)
    (hsilent : Along (step fmt) (fun s op => s.DragMove op → ¬ s.Reports fmt op) s l) :
    moves fmt s l ≤ 9 := by
  obtain ⟨hcount, hskip⟩ := counter_run hs h hsilent
  by_contra hmany
  have hten := hskip (s.i + 1 + (10 - s.i % 10) % 10) (by omega) (by omega)
  omega

/-- The run goes through; after it the touch values alternate, the next call keeps the
protocol, and however the run goes on, at most nine moves pass without one that is reported. -/
def Protocol (fmt : ScreenFormat) (screen : Screen) (l : List Op) : Prop :=
  ∃ s, run (step fmt) (start screen) l = some s ∧
    Alternates 1 0 (s.written.filterMap (keyValue BTN_TOUCH)) ∧
    (∀ op t, s.step fmt op = some t →
      ∃ events, t.written = s.written ++ events ∧ CallProtocol s t events op) ∧
    ∀ m u, run (step fmt) s m = some u →
      Along (step fmt) (fun s op => s.DragMove op → ¬ s.Reports fmt op) s m → moves fmt s m ≤ 9

/-- Whatever run goes through keeps the protocol. -/
theorem protocol_of_run {fmt : ScreenFormat} {screen : Screen} {l : List Op} {s : Input}
    (h : run (step fmt) (start screen) l = some s) : Protocol fmt screen l := by
  have hs := inv_run h
  exact ⟨s, h, hs.alternates, fun op t ht => callProtocol_step hs ht,
    fun m u hm hsilent => moves_le_nine hs.count hm hsilent⟩

/-- With fewer than `2 ^ 31` moves and no call that ends the process, a run keeps the protocol
exactly when every position on the way can be scaled to the axes in `int`s. -/
theorem input_protocol_iff (fmt : ScreenFormat) (screen : Screen) {l : List Op}
    (hexit : ∀ down k, .keyEvent down k ∈ l → keysym2scancode k ≠ .exit)
    (hmoves : moves fmt (start screen) l < 2 ^ 31) :
    Protocol fmt screen l ↔ Along (step fmt) Touches (start screen) l := by
  have hcount : (start screen).i + moves fmt (start screen) l < 2 ^ 31 := by
    rw [show (start screen).i = 0 from rfl, zero_add]
    exact_mod_cast hmoves
  rw [← isSome_run_iff (le_refl 0) hexit hcount, Option.isSome_iff_exists]
  constructor
  · rintro ⟨s, h, -⟩
    exact ⟨s, h⟩
  · rintro ⟨s, h⟩
    exact protocol_of_run h

def drag : List Op :=
  [.connect, .ptrEvent 1 240 400, .keyEvent true 97, .ptrEvent 1 240 405, .ptrEvent 0 240 410]

theorem input_protocol_drag : Protocol ⟨480, 800, 16⟩ ⟨0, 480, 800, 960⟩ drag := by
  have hexit : ∀ down k, .keyEvent down k ∈ drag → keysym2scancode k ≠ .exit := by
    intro down k hmem
    obtain ⟨-, rfl⟩ : down = true ∧ k = 97 := by simpa [drag] using hmem
    decide
  have halong : Along (step ⟨480, 800, 16⟩) Touches (start ⟨0, 480, 800, 960⟩) drag :=
    (isSome_run_iff (le_refl 0) hexit (by decide)).mp (by decide)
  exact (input_protocol_iff ⟨480, 800, 16⟩ ⟨0, 480, 800, 960⟩ hexit (by decide)).mpr halong

/-- A client of a screen at 5 per cent touches its far right. -/
theorem not_input_protocol_far :
    ¬ ∀ (fmt : ScreenFormat) (screen : Screen) (l : List Op),
      (∀ down k, .keyEvent down k ∈ l → keysym2scancode k ≠ .exit) →
      moves fmt (start screen) l < 2 ^ 31 → Protocol fmt screen l := by
  intro h
  obtain ⟨s, hrun, -⟩ := h ⟨480, 800, 16⟩ ⟨0, 480, 800, 960⟩ [.ptrEvent 1 1310700 0] (by simp)
    (by decide)
  exact absurd (Option.isSome_iff_exists.mpr ⟨s, hrun⟩) (by decide)

/-! ### Clients that have gone -/

/-- Nothing is held: every press has been followed by its release. -/
def Released (s : Input) : Prop := ∀ code, Settles (keyValue code) 1 0 s.written

/-- The bits of the button mask and the keys they hold. -/
def buttons : List (ℕ × ℕ) := [(0, BTN_TOUCH), (1, KEY_END), (2, 158)]

/-- Whether a button is still down after one more call: a pointer event says so,
and a key event that types its key lets it go. -/
def nextDown (b : ℕ × ℕ) (down : Bool) : Op → Bool
  | .ptrEvent mask _ _ => mask.getLsbD b.1
  | .keyEvent true k => if (keysym2scancode k).code = b.2 then false else down
  | _ => down

def stillDown (b : ℕ × ℕ) (l : List Op) : Bool := l.foldl (nextDown b) false

theorem stillDown_concat (b : ℕ × ℕ) (l : List Op) (op : Op) :
    stillDown b (l ++ [op]) = nextDown b (stillDown b l) op := List.foldl_concat ..

def AllUp (l : List Op) : Prop := ∀ b ∈ buttons, stillDown b l = false

instance (l : List Op) : Decidable (AllUp l) := by unfold AllUp; infer_instance

/-- A key event acts on the keys of the buttons as `nextDown` says. -/
theorem key_button_keyEvent {fmt : ScreenFormat} {down : Bool} {k : ℕ} {s t : Input}
    (h : s.keyEvent fmt down k = some t) {b : ℕ × ℕ} (hb : b ∈ buttons) :
    t.key b.2 = if down ∧ (keysym2scancode k).code = b.2 then 0 else s.key b.2 := by
  have hplain : b.2 ≠ 42 ∧ b.2 ≠ 56 ∧ b.2 ≠ 0 := by
    revert b
    decide
  obtain ⟨screen, events, rfl, ⟨rfl, hnone⟩ | ⟨code, sh, alt, hkey, hd, -, rfl⟩⟩ := keyEvent_cases h
  · rw [if_neg, key, List.append_nil]
    · rfl
    · rintro ⟨hd, hcode⟩
      rcases hnone hd with h0 | rfl
      · exact hplain.2.2 (hcode.symm.trans h0)
      · exact hplain.2.2 hcode.symm
  · simp only [key, level_append, level_typed, hkey, hd, Keysym.code, true_and, hplain.1,
      hplain.2.1, and_false, or_false, eq_comm]

/-- The level of each of the three keys in terms of the calls alone. -/
theorem key_button_run {fmt : ScreenFormat} {screen : Screen} {l : List Op} {s : Input}
    (h : run (step fmt) (start screen) l = some s) :
    ∀ b ∈ buttons, s.key b.2 = if stillDown b l then 1 else 0 := by
  refine run_induction (M := fun l s => ∀ b ∈ buttons, s.key b.2 = if stillDown b l then 1 else 0)
    (fun _ _ => rfl) ?_ h
  intro l op s t hrun ih hstep b hb
  rw [stillDown_concat]
  cases op with
  | connect => obtain rfl := Option.some.inj hstep; exact ih b hb
  | disconnect => obtain rfl := Option.some.inj hstep; exact ih b hb
  | ptrEvent mask x y =>
    obtain ⟨h0, h1, h2⟩ := key_ptrEvent (inv_run hrun) hstep
    simp only [buttons, List.mem_cons, List.not_mem_nil, or_false] at hb
    rcases hb with rfl | rfl | rfl
    · exact h0
    · exact h1
    · exact h2
  | keyEvent down k =>
    rw [key_button_keyEvent hstep hb, ih b hb]
    cases down with
    | false => rw [if_neg fun hd => Bool.false_ne_true hd.1]; rfl
    | true =>
      by_cases hcode : (keysym2scancode k).code = b.2
      · rw [if_pos ⟨rfl, hcode⟩, nextDown, if_pos hcode, if_neg Bool.false_ne_true]
      · rw [if_neg fun hd => hcode hd.2, nextDown, if_neg hcode]

/-- Nothing is held exactly when the keys of the three buttons are up. -/
theorem released_iff_buttons {s : Input} (hs : s.Inv) :
    s.Released ↔ ∀ b ∈ buttons, s.key b.2 = 0 := by
  have hlevel : ∀ code, Settles (keyValue code) 1 0 s.written ↔ s.key code = 0 := fun code =>
    settles_iff_level (by decide) fun e he => hs.binary e he code
  simp only [Released, hlevel, buttons, List.forall_mem_cons, List.not_mem_nil, false_imp_iff,
    implies_true, and_true]
  constructor
  · intro h
    exact ⟨h _, h _, h _⟩
  · rintro ⟨h0, h1, h2⟩ code
    by_cases hc0 : code = BTN_TOUCH
    · rwa [hc0]
    · by_cases hc1 : code = KEY_END
      · rwa [hc1]
      · by_cases hc2 : code = 158
        · rwa [hc2]
        · exact hs.other code hc0 hc1 hc2

theorem released_iff_allUp {fmt : ScreenFormat} {screen : Screen} {l : List Op} {s : Input}
    (h : run (step fmt) (start screen) l = some s) : s.Released ↔ AllUp l := by
  rw [released_iff_buttons (inv_run h)]
  refine forall₂_congr fun b hb => ?_
  rw [key_button_run h b hb]
  cases stillDown b l <;> simp

/-- When a client disconnects, and it was the last one, nothing is held exactly
when the calls so far leave every button up. -/
theorem released_after_disconnect (fmt : ScreenFormat) (screen : Screen) {l : List Op} {s : Input}
    (h : run (step fmt) (start screen) (l ++ [.disconnect]) = some s) :
    (s.clients = 0 → s.Released) ↔ (s.clients = 0 → AllUp l) := by
  have hall : AllUp (l ++ [.disconnect]) ↔ AllUp l := by
    simp [AllUp, stillDown_concat, nextDown]
  rw [released_iff_allUp h, hall]

theorem released_after_drag :
    ∃ s, run (step ⟨480, 800, 16⟩) (start ⟨0, 480, 800, 960⟩) (drag ++ [.disconnect]) = some s ∧
      s.clients = 0 ∧ s.Released := by
  have hrun : (run (step ⟨480, 800, 16⟩) (start ⟨0, 480, 800, 960⟩)
    (drag ++ [.disconnect])).isSome := by decide
  have hgone : ∀ s, run (step ⟨480, 800, 16⟩) (start ⟨0, 480, 800, 960⟩)
      (drag ++ [.disconnect]) = some s → s.clients = 0 := by
    rintro s hs
    obtain rfl := Option.some.inj hs
    rfl
  obtain ⟨s, hs⟩ := Option.isSome_iff_exists.mp hrun
  have hup : AllUp drag := by decide
  exact ⟨s, hs, hgone s hs, (released_after_disconnect _ _ hs).mpr (fun _ => hup) (hgone s hs)⟩

/-- A client that vanishes in the middle of a drag leaves the touch down. -/
theorem not_released_after_vanishing :
    ∃ s, run (step ⟨480, 800, 16⟩) (start ⟨0, 480, 800, 960⟩)
        [.connect, .ptrEvent 1 240 400, .disconnect] = some s ∧ s.clients = 0 ∧ ¬ s.Released := by
  refine ⟨_, rfl, rfl, fun h => ?_⟩
  obtain ⟨e, he, hrelease⟩ := h BTN_TOUCH (position (touchAxis 240 480, touchAxis 400 800))
    (press BTN_TOUCH) [syn] rfl (by simp)
  obtain rfl := List.mem_singleton.mp he
  simp at hrelease

end Input

end DroidVnc
