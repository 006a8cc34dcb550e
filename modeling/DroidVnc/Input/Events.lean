import DroidVnc.Input.Keysym
import DroidVnc.Input.TouchRange
import DroidVnc.Lib.Signal
import DroidVnc.Lib.Transition

/-! The input path: pointer and key events of the VNC clients become events
written to the uinput device. The click flags of `ptrEvent` and its move counter
are static variables; they and the orientation of the screen carry over from
call to call and from client to client. The device is open and its writes
succeed. -/

namespace DroidVnc

/-! ### Events of the device -/

def EV_SYN : ℕ := 0

def EV_KEY : ℕ := 1

def EV_ABS : ℕ := 3

def SYN_REPORT : ℕ := 0

def ABS_X : ℕ := 0

def ABS_Y : ℕ := 1

/-- `struct input_event`, without its time. -/
structure Event where
  type : ℕ
  code : ℕ
  value : ℤ
  deriving DecidableEq, Repr

namespace Event

def press (code : ℕ) : Event := ⟨EV_KEY, code, 1⟩

def release (code : ℕ) : Event := ⟨EV_KEY, code, 0⟩

def syn : Event := ⟨EV_SYN, SYN_REPORT, 0⟩

def position (p : ℤ × ℤ) : List Event := [⟨EV_ABS, ABS_X, p.1⟩, ⟨EV_ABS, ABS_Y, p.2⟩]

/-- The value to which an event sets the key `code`. -/
def keyValue (code : ℕ) (e : Event) : Option ℤ :=
  if e.type = EV_KEY ∧ e.code = code then some e.value else none

@[simp] theorem keyValue_press (k code : ℕ) :
    keyValue k (press code) = if k = code then some 1 else none := by
  simp [keyValue, press, eq_comm]

@[simp] theorem keyValue_release (k code : ℕ) :
    keyValue k (release code) = if k = code then some 0 else none := by
  simp [keyValue, release, eq_comm]

@[simp] theorem keyValue_syn (k : ℕ) : keyValue k syn = none := by
  simp [keyValue, syn, EV_SYN, EV_KEY]

@[simp] theorem keyValue_abs (k axis : ℕ) (v : ℤ) : keyValue k ⟨EV_ABS, axis, v⟩ = none := by
  simp [keyValue, EV_ABS, EV_KEY]

end Event

/-! ### The handlers -/

/-- A sum of two C `int`s. Overflow is undefined behaviour: no result. -/
def intAdd (a b : ℤ) : Option ℤ :=
  if -2 ^ 31 ≤ a + b ∧ a + b < 2 ^ 31 then some (a + b) else none

/-- What the handlers read and write, and the number of connected clients. -/
structure Input where
  screen : Screen
  idle : Bool
  leftClicked : Bool
  rightClicked : Bool
  middleClicked : Bool
  i : ℤ
  clients : ℕ
  written : List Event

namespace Input

def start (screen : Screen) : Input where
  screen := screen
  idle := false
  leftClicked := false
  rightClicked := false
  middleClicked := false
  i := 0
  clients := 0
  written := []

def write (events : List Event) (s : Input) : Input := { s with written := s.written ++ events }

/-- The first part of `ptrEvent`, with `p` the transformed position. -/
def leftButton (pressed : Bool) (p : ℤ × ℤ) (s : Input) : Option Input :=
  if pressed ∧ s.leftClicked then
    -- clicked and moving: of ten moves one is reported
    (intAdd s.i 1).map fun i =>
      if i.tmod 10 = 1 then write (Event.position p ++ [.syn]) { s with i := i }
      else { s with i := i }
  else if pressed then
    some (write (Event.position p ++ [.press BTN_TOUCH, .syn]) { s with leftClicked := true })
  else if s.leftClicked then
    some (write (Event.position p ++ [.release BTN_TOUCH, .syn]) { s with leftClicked := false })
  else some s

/-- The other two parts of `ptrEvent`: the key `code` is held as long as the
button is. The new flag of the button, and what is written. -/
def holdKey (code : ℕ) (pressed clicked : Bool) : Bool × List Event :=
  if pressed then (true, [.press code])
  else if clicked then (false, [.release code])
  else (clicked, [])

/-- The back key, 158. -/
def rightButton (pressed : Bool) (s : Input) : Input :=
  let (clicked, events) := holdKey 158 pressed s.rightClicked
  write events { s with rightClicked := clicked }

def middleButton (pressed : Bool) (s : Input) : Input :=
  let (clicked, events) := holdKey KEY_END pressed s.middleClicked
  write events { s with middleClicked := clicked }

def touched (s : Input) (x y : ℤ) : Option (ℤ × ℤ) :=
  transformTouchCoordinatesInt s.screen.rotation s.screen.width s.screen.height (x, y)

/-- `ptrEvent(buttonMask, x, y, cl)`. The position is transformed whatever the mask says. -/
def ptrEvent (buttonMask : BitVec 32) (x y : ℤ) (s : Input) : Option Input := do
  let s := { s with idle := false }
  let p ← s.touched x y
  let s ← s.leftButton (buttonMask.getLsbD 0) p
  return (s.rightButton (buttonMask.getLsbD 2)).middleButton (buttonMask.getLsbD 1)

def typed (code sh alt : ℕ) : List Event :=
  (if sh ≠ 0 then [.press 42] else []) ++ (if alt ≠ 0 then [.press 56] else []) ++
    [.press code, .release code] ++
    (if alt ≠ 0 then [.release 56] else []) ++ (if sh ≠ 0 then [.release 42] else [])

/-- `keyEvent(down, key, cl)`. There is no result when the process exits. -/
def keyEvent (fmt : ScreenFormat) (down : Bool) (key : ℕ) (s : Input) : Option Input :=
  let s := { s with idle := false }
  match keysym2scancode key with
  | .exit => none
  | .shutdown => some s
  | .rotate => some (if down then { s with screen := s.screen.rotate fmt (-1) } else s)
  | .scancode code sh alt =>
    if code ≠ 0 then some (if key ≠ 0 ∧ down then s.write (typed code sh alt) else s) else some s

/-- One call into the input path, or a client that comes or goes. -/
inductive Op
  | connect
  | disconnect
  | ptrEvent (buttonMask : BitVec 32) (x y : ℤ)
  | keyEvent (down : Bool) (key : ℕ)

/-- `clientHook` and `clientGone` only tell the user interface. -/
def step (fmt : ScreenFormat) (s : Input) : Op → Option Input
  | .connect => some { s with clients := s.clients + 1 }
  | .disconnect => some { s with clients := s.clients - 1 }
  | .ptrEvent buttonMask x y => s.ptrEvent buttonMask x y
  | .keyEvent down key => s.keyEvent fmt down key

/-! ### What one call does -/

/-- What the left button writes; `i` is the move counter after the call. -/
def leftEvents (pressed clicked : Bool) (p : ℤ × ℤ) (i : ℤ) : List Event :=
  match pressed, clicked with
  | true, true => if i.tmod 10 = 1 then Event.position p ++ [.syn] else []
  | true, false => Event.position p ++ [.press BTN_TOUCH, .syn]
  | false, true => Event.position p ++ [.release BTN_TOUCH, .syn]
  | false, false => []

def counted (pressed clicked : Bool) (i : ℤ) : ℤ := if pressed && clicked then i + 1 else i

theorem intAdd_eq_some {a b c : ℤ} (h : intAdd a b = some c) : c = a + b := by
  unfold intAdd at h
  split_ifs at h
  exact (Option.some.inj h).symm

theorem leftButton_eq {pressed : Bool} {p : ℤ × ℤ} {s t : Input}
    (h : s.leftButton pressed p = some t) :
    t = { s with
      leftClicked := pressed
      i := counted pressed s.leftClicked s.i
      written := s.written ++
        leftEvents pressed s.leftClicked p (counted pressed s.leftClicked s.i) } := by
  unfold leftButton at h
  cases pressed <;> cases hc : s.leftClicked <;> simp [hc, counted, leftEvents] at h ⊢
  · rw [← h, ← hc]
  · rw [← h]
    rfl
  · rw [← h]
    rfl
  · obtain ⟨i, hi, rfl⟩ := h
    obtain rfl := intAdd_eq_some hi
    split_ifs with hten
    · rw [← hc]
      rfl
    · rw [List.append_nil, ← hc]

/-- After a call the flag of a button says whether it is pressed. -/
@[simp] theorem holdKey_fst (code : ℕ) (pressed clicked : Bool) :
    (holdKey code pressed clicked).1 = pressed := by
  cases pressed <;> cases clicked <;> rfl

/-- All that a pointer event does, with `p` the transformed position. -/
theorem ptrEvent_eq {mask : BitVec 32} {x y : ℤ} {s t : Input} (h : s.ptrEvent mask x y = some t) :
    ∃ p, s.touched x y = some p ∧ t = { s with
      idle := false
      leftClicked := mask.getLsbD 0
      rightClicked := mask.getLsbD 2
      middleClicked := mask.getLsbD 1
      i := counted (mask.getLsbD 0) s.leftClicked s.i
      written := s.written ++
        (leftEvents (mask.getLsbD 0) s.leftClicked p
            (counted (mask.getLsbD 0) s.leftClicked s.i) ++
          (holdKey 158 (mask.getLsbD 2) s.rightClicked).2 ++
          (holdKey KEY_END (mask.getLsbD 1) s.middleClicked).2) } := by
  obtain ⟨p, hp, h⟩ := Option.bind_eq_some_iff.mp h
  obtain ⟨u, hu, h⟩ := Option.bind_eq_some_iff.mp h
  obtain rfl := Option.some.inj h
  obtain rfl := leftButton_eq hu
  exact ⟨p, hp, by simp [rightButton, middleButton, write, List.append_assoc]⟩

/-- All that a key event does: it writes nothing, or types a key. -/
theorem keyEvent_cases {fmt : ScreenFormat} {down : Bool} {key : ℕ} {s t : Input}
    (h : s.keyEvent fmt down key = some t) :
    ∃ screen events,
      t = { s with screen := screen, idle := false, written := s.written ++ events } ∧
      (events = [] ∧ (down = true → (keysym2scancode key).code = 0 ∨ key = 0) ∨
        ∃ code sh alt, keysym2scancode key = .scancode code sh alt ∧ down = true ∧ code ≠ 0 ∧
          events = typed code sh alt) := by
  unfold keyEvent at h
  split at h
  · exact absurd h (by simp)
  · next hk =>
    obtain rfl := Option.some.inj h
    exact ⟨s.screen, [], by simp, Or.inl ⟨rfl, fun _ => Or.inl (by simp [hk, Keysym.code])⟩⟩
  · next hk =>
    obtain rfl := Option.some.inj h
    refine ⟨if down then s.screen.rotate fmt (-1) else s.screen, [], ?_,
      Or.inl ⟨rfl, fun _ => Or.inl (by simp [hk, Keysym.code])⟩⟩
    split_ifs <;> simp
  · next code sh alt hk =>
    split_ifs at h with hcode htyped <;> obtain rfl := Option.some.inj h
    · exact ⟨s.screen, typed code sh alt, rfl, Or.inr ⟨code, sh, alt, hk, htyped.2, hcode, rfl⟩⟩
    · refine ⟨s.screen, [], by simp, Or.inl ⟨rfl, fun hd => Or.inr ?_⟩⟩
      by_contra hkey
      exact htyped ⟨hkey, hd⟩
    · exact ⟨s.screen, [], by simp,
        Or.inl ⟨rfl, fun _ => Or.inl (by simpa [hk, Keysym.code] using hcode)⟩⟩

end Input

end DroidVnc
