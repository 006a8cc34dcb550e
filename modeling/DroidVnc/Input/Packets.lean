import DroidVnc.Input.Events

/-! Input packets. The kernel collects the events of a device into packets, which
`SYN_REPORT` closes. The left button closes its packets; `suinput_press` and
`suinput_release` write a key event alone, so a call that types a key, or that
presses or releases one of the other two buttons, leaves its packet open. -/

namespace DroidVnc

namespace Input

open Event Transition

/-- No packet is left open after the events. -/
def Closing (events : List Event) : Prop := events = [] ∨ events.getLast? = some syn

/-- What the call wrote, if anything, ends with `SYN_REPORT`. -/
def Closed (s t : Input) : Prop := ∃ events, t.written = s.written ++ events ∧ Closing events

theorem closed_iff {s t : Input} {events : List Event} (h : t.written = s.written ++ events) :
    Closed s t ↔ Closing events := by
  constructor
  · rintro ⟨events', h', hclosing⟩
    rw [h] at h'
    rwa [List.append_cancel_left h']
  · intro hclosing
    exact ⟨events, h, hclosing⟩

theorem closing_leftEvents (pressed clicked : Bool) (p : ℤ × ℤ) (i : ℤ) :
    Closing (leftEvents pressed clicked p i) := by
  unfold leftEvents
  split
  · split_ifs
    · exact Or.inr (by simp)
    · exact Or.inl rfl
  · exact Or.inr (by simp)
  · exact Or.inr (by simp)
  · exact Or.inl rfl

/-- The other buttons write a key event and no more. -/
theorem holdKey_snd_cases (code : ℕ) (pressed clicked : Bool) :
    (holdKey code pressed clicked).2 = [] ∧ pressed = false ∧ clicked = false ∨
      ∃ v, (holdKey code pressed clicked).2 = [⟨EV_KEY, code, v⟩] ∧
        (pressed = true ∨ clicked = true) := by
  cases pressed <;> cases clicked
  · exact Or.inl ⟨rfl, rfl, rfl⟩
  · exact Or.inr ⟨0, rfl, Or.inr rfl⟩
  · exact Or.inr ⟨1, rfl, Or.inl rfl⟩
  · exact Or.inr ⟨1, rfl, Or.inl rfl⟩

theorem not_closing_key (l : List Event) (code : ℕ) (v : ℤ) :
    ¬ Closing (l ++ [⟨EV_KEY, code, v⟩]) := by
  simp [Closing, syn, EV_KEY, EV_SYN]

/-- A pointer event closes its packet when neither other button is or was down. -/
theorem closed_ptrEvent_iff {mask : BitVec 32} {x y : ℤ} {s t : Input}
    (h : s.ptrEvent mask x y = some t) :
    Closed s t ↔ (mask.getLsbD 1 = false ∧ s.middleClicked = false) ∧
      mask.getLsbD 2 = false ∧ s.rightClicked = false := by
  obtain ⟨p, -, ht⟩ := ptrEvent_eq h
  have hwritten := congrArg written ht
  rw [closed_iff hwritten]
  rcases holdKey_snd_cases KEY_END (mask.getLsbD 1) s.middleClicked with
    ⟨hmid, hup⟩ | ⟨v, hmid, hdown⟩
  · rcases holdKey_snd_cases 158 (mask.getLsbD 2) s.rightClicked with
      ⟨hright, hup'⟩ | ⟨v, hright, hdown⟩
    · rw [hmid, hright, List.append_nil, List.append_nil]
      exact iff_of_true (closing_leftEvents _ _ _ _) ⟨hup, hup'⟩
    · rw [hmid, hright, List.append_nil]
      refine iff_of_false (not_closing_key _ _ _) fun hq => ?_
      rcases hdown with hd | hd
      · exact absurd (hq.2.1.symm.trans hd) (by decide)
      · exact absurd (hq.2.2.symm.trans hd) (by decide)
  · rw [hmid]
    refine iff_of_false (not_closing_key _ _ _) fun hq => ?_
    rcases hdown with hd | hd
    · exact absurd (hq.1.1.symm.trans hd) (by decide)
    · exact absurd (hq.1.2.symm.trans hd) (by decide)

/-- A key that is typed ends with a release, of itself or of a modifier. -/
theorem not_closing_typed (code sh alt : ℕ) : ¬ Closing (typed code sh alt) := by
  unfold typed
  split_ifs <;> simp [Closing, release, press, syn, EV_KEY, EV_SYN]

theorem closed_keyEvent_iff {fmt : ScreenFormat} {down : Bool} {k : ℕ} {s t : Input}
    (h : s.keyEvent fmt down k = some t) :
    Closed s t ↔ (down = true → (keysym2scancode k).code = 0) := by
  obtain ⟨screen, events, rfl, hevents⟩ := keyEvent_cases h
  rw [closed_iff (show _ = s.written ++ events from rfl)]
  rcases hevents with ⟨rfl, hsilent⟩ | ⟨code, sh, alt, hk, hdown, hcode, rfl⟩
  · refine iff_of_true (Or.inl rfl) fun hdown => ?_
    rcases hsilent hdown with hcode | rfl
    · exact hcode
    · rfl
  · exact iff_of_false (not_closing_typed code sh alt) fun hq =>
      hcode (by simpa [hk, Keysym.code] using hq hdown)

/-- The calls that type no key and press neither of the other two buttons. -/
def Quiet : Op → Prop
  | .ptrEvent buttonMask _ _ =>
    buttonMask.getLsbD 1 = false ∧ buttonMask.getLsbD 2 = false
  | .keyEvent down key => down = true → (keysym2scancode key).code = 0
  | _ => True

instance : (op : Op) → Decidable (Quiet op)
  | .ptrEvent _ _ _ => inferInstanceAs (Decidable (_ ∧ _))
  | .keyEvent _ _ => inferInstanceAs (Decidable (_ → _))
  | .connect => instDecidableTrue
  | .disconnect => instDecidableTrue

def Unheld (s : Input) : Prop := s.middleClicked = false ∧ s.rightClicked = false

theorem closed_step_iff {fmt : ScreenFormat} {op : Op} {s t : Input} (hs : s.Unheld)
    (h : s.step fmt op = some t) : Closed s t ↔ Quiet op := by
  cases op with
  | connect =>
    obtain rfl := Option.some.inj h
    exact iff_of_true ⟨[], by simp, Or.inl rfl⟩ trivial
  | disconnect =>
    obtain rfl := Option.some.inj h
    exact iff_of_true ⟨[], by simp, Or.inl rfl⟩ trivial
  | ptrEvent mask x y =>
    rw [closed_ptrEvent_iff h, hs.1, hs.2]
    simp only [and_true, Quiet]
  | keyEvent down key => exact closed_keyEvent_iff h

theorem unheld_step {fmt : ScreenFormat} {op : Op} {s t : Input} (hs : s.Unheld)
    (hop : Quiet op) (h : s.step fmt op = some t) : t.Unheld := by
  cases op with
  | connect => exact Option.some.inj h ▸ hs
  | disconnect => exact Option.some.inj h ▸ hs
  | ptrEvent mask x y =>
    obtain ⟨p, -, rfl⟩ := ptrEvent_eq h
    exact hop
  | keyEvent down key =>
    obtain ⟨screen, events, rfl, -⟩ := keyEvent_cases h
    exact hs

/-- The calls of a run all close their packets exactly when all are quiet: the first
that is not leaves its packet open. -/
theorem packets_closed_of_unheld {fmt : ScreenFormat} {s u : Input} {l : List Op}
    (hs : s.Unheld) (h : run (step fmt) s l = some u) :
    Along (step fmt) (fun s op => ∀ t, s.step fmt op = some t → Closed s t) s l ↔
      ∀ op ∈ l, Quiet op := by
  induction l generalizing s with
  | nil => exact iff_of_true trivial (by simp)
  | cons op l ih =>
    obtain ⟨t, ht, hu⟩ := Option.bind_eq_some_iff.mp h
    have hstep : (∀ t, s.step fmt op = some t → Closed s t) ↔ Quiet op := by
      rw [← closed_step_iff hs ht]
      exact ⟨fun hall => hall t ht, fun hc v hv => Option.some.inj (ht.symm.trans hv) ▸ hc⟩
    rw [List.forall_mem_cons, Along, hstep]
    refine and_congr_right fun hop => ?_
    rw [← ih (unheld_step hs hop ht) hu]
    exact ⟨fun hall => hall t ht, fun hc v hv => Option.some.inj (ht.symm.trans hv) ▸ hc⟩

/-- In every sequence of calls since the daemon started, every call that writes
events ends them with `SYN_REPORT` exactly when no call types a key or presses one
of the other two buttons. -/
theorem packets_closed_iff {fmt : ScreenFormat} {screen : Screen} {l : List Op} {u : Input}
    (h : run (step fmt) (start screen) l = some u) :
    Along (step fmt) (fun s op => ∀ t, s.step fmt op = some t → Closed s t) (start screen) l ↔
      ∀ op ∈ l, Quiet op :=
  packets_closed_of_unheld ⟨rfl, rfl⟩ h

/-- Dragging with the left button closes every packet. -/
theorem packets_closed_drag :
    Along (step ⟨480, 800, 16⟩)
        (fun s op => ∀ t, s.step ⟨480, 800, 16⟩ op = some t → Closed s t)
        (start ⟨0, 480, 800, 960⟩) [.ptrEvent 1 10 10, .ptrEvent 1 12 10, .ptrEvent 0 12 10] ↔
      ∀ op ∈ [Op.ptrEvent 1 10 10, .ptrEvent 1 12 10, .ptrEvent 0 12 10], Quiet op :=
  packets_closed_iff rfl

/-- Typing `a` leaves a packet open. -/
theorem packets_open_typing :
    ¬ ∀ (fmt : ScreenFormat) (screen : Screen) (l : List Op),
      Along (step fmt) (fun s op => ∀ t, s.step fmt op = some t → Closed s t)
        (start screen) l := by
  intro h
  obtain ⟨t, ht⟩ : ∃ t, (start ⟨0, 480, 800, 960⟩).keyEvent ⟨480, 800, 16⟩ true 97 = some t :=
    ⟨_, rfl⟩
  have hcall := (h ⟨480, 800, 16⟩ ⟨0, 480, 800, 960⟩ [.keyEvent true 97]).1 t ht
  exact absurd ((closed_keyEvent_iff ht).mp hcall rfl) (by decide)

end Input

end DroidVnc
