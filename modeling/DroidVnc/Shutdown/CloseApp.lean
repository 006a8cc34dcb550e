import DroidVnc.Input.Keysym
import DroidVnc.Ipc.Control
import DroidVnc.Lib.Script
import DroidVnc.Lib.Transition
import DroidVnc.Startup.Options

/-! How the daemon ends. `close_app` runs as a signal handler on either thread, or on the
thread of the control datagrams; while it runs the other thread goes on. Two more ways
out are in the main loop, a key and a failing ioctl, and these just call `exit`. So the
cleaning up is done, and done once, exactly when a single `close_app` gets to do it and
has told the user interface before the main loop finds a way out. -/

namespace DroidVnc.Shutdown

open Transition Script Startup Ipc

inductive Thread
  | main
  | ipc
  deriving DecidableEq, Repr

/-- The signals that `close_app` is the handler of; the one of `SIGKILL` is never called. -/
inductive Signal
  | SIGINT
  | SIGILL
  deriving DecidableEq, Repr

inductive Effect
  | closeFB
  | closeADB
  | closeGralloc
  | closeFlinger
  | suinputClose
  | sendServerStopped
  | unbindIPCserver
  deriving DecidableEq, Repr

/-- What start-up has left: the selected method, and whether `inputfd` is not `-1`. -/
structure Setup where
  method : Method
  inputfd : Bool

namespace Setup

def closeGrabber (u : Setup) : List Effect :=
  match u.method with
  -- a server with this method has started, so that the device is open
  | .framebuffer => [.closeFB]
  | .adb => [.closeADB]
  | .gralloc => [.closeGralloc]
  | .flinger => [.closeFlinger]
  | .auto => []

def cleanupInput (u : Setup) : List Effect := if u.inputfd then [.suinputClose] else []

/-- `close_app`, up to the call of `exit`. -/
def closeApp (u : Setup) : List Effect :=
  u.closeGrabber ++ u.cleanupInput ++ [.sendServerStopped, .unbindIPCserver]

/-- The part of it that cleans up and tells the user interface. -/
def cleanup (u : Setup) : List Effect := u.closeGrabber ++ u.cleanupInput ++ [.sendServerStopped]

end Setup

/-- The process: how far each thread is in `close_app`, if it is there at all, and what
has been done; the signals that each thread is handling; and `pBuffer`. -/
structure Process where
  work : State Thread Effect := {}
  handling : Thread → List Signal := fun _ => []
  buffer : List UInt8 := pBuffer
  exited : Bool := false

/-- What happens next: the main loop handles a key, or copies the screen, where the ioctl
of the framebuffer comes to `ioctl`; the other thread receives a datagram; a thread gets
a signal, or goes on with `close_app`. -/
inductive Event
  | key (c : ℕ)
  | updateScreen (ioctl : Bool)
  | datagram (datagram : List UInt8)
  | signal (signal : Signal) (t : Thread)
  | advance (t : Thread)

namespace Process

def exit (s : Process) : Process := { s with exited := true }

/-- `keyEvent`; of the keys only F12 matters here. -/
def keyEvent (u : Setup) (c : ℕ) (s : Process) : Process :=
  if !u.inputfd then s
  else if keysym2scancode c = .exit then s.exit
  else s

/-- `update_fb_info`; the ioctl fails when the device has been closed. -/
def updateFbInfo (ioctl : Bool) (s : Process) : Process :=
  if ioctl ∧ .closeFB ∉ s.work.trace then s else s.exit

/-- `update_screen`; the other grabbers end the process only by crashing. -/
def updateScreen (u : Setup) (ioctl : Bool) (s : Process) : Process :=
  if u.method = .framebuffer then s.updateFbInfo ioctl else s

/-- A call of `close_app`. It does not return, so that what it interrupts is lost. -/
def closeApp (u : Setup) (t : Thread) (s : Process) : Process :=
  { s with work := s.work.start u.closeApp t }

def handleConnections (u : Setup) (datagram : List UInt8) (s : Process) : Option Process :=
  let s := { s with buffer := recvfrom datagram s.buffer }
  (react s.buffer).map fun r => if r = .closeApp then s.closeApp u .ipc else s

/-- A signal is blocked while the thread handles it. -/
def deliver (u : Setup) (signal : Signal) (t : Thread) (s : Process) : Option Process :=
  if signal ∈ s.handling t then none
  else some ({ s with handling := Function.update s.handling t (signal :: s.handling t) }.closeApp
    u t)

/-- The next step of `close_app`, or `exit` at its end. -/
def advance (t : Thread) (s : Process) : Option Process :=
  (s.work.rest t).map fun
    | [] => s.exit
    | e :: l => { s with work := s.work.act t e l }

end Process

/-- A thread is in its own loop while it is not in `close_app`. The socket of the datagrams
is closed by the last step of that. -/
def step (u : Setup) (s : Process) (e : Event) : Option Process :=
  if s.exited then none
  else match e with
    | .key c => if (s.work.rest .main).isSome then none else some (s.keyEvent u c)
    | .updateScreen ioctl =>
      if (s.work.rest .main).isSome then none else some (s.updateScreen u ioctl)
    | .datagram datagram =>
      if (s.work.rest .ipc).isSome ∨ .unbindIPCserver ∈ s.work.trace then none
      else s.handleConnections u datagram
    | .signal signal t => s.deliver u signal t
    | .advance t => s.advance t

/-- No step of the cleaning up is done twice, and when the process exits, all have been done. -/
def CleansUp (u : Setup) (s : Process) : Prop :=
  ∀ e ∈ u.cleanup, s.work.trace.count e ≤ 1 ∧ (s.exited → s.work.trace.count e = 1)

/-- The main loop finds a way out: F12 with an input device, or an ioctl that fails, as it
does once the device has been closed. -/
def Leaves (u : Setup) (s : Process) : Event → Prop
  | .key c => s.work.rest .main = none ∧ u.inputfd ∧ keysym2scancode c = .exit
  | .updateScreen ioctl => s.work.rest .main = none ∧ u.method = .framebuffer ∧
      ¬ (ioctl ∧ .closeFB ∉ s.work.trace)
  | _ => False

/-- A thread sets about `close_app` when something has been done of it already. -/
def Repeats (u : Setup) (s : Process) : Event → Prop
  | .advance t => s.work.rest t = some u.closeApp ∧ s.work.trace ≠ []
  | _ => False

/-- While the process runs, the main loop leaves only after the user interface has been
told, and nobody repeats `close_app`. -/
def Orderly (u : Setup) (s : Process) (e : Event) : Prop :=
  s.exited = false → (Leaves u s e → .sendServerStopped ∈ s.work.trace) ∧ ¬ Repeats u s e

variable {u : Setup} {s t : Process}

/-! ### The steps of `close_app` -/

theorem nodup_closeApp (u : Setup) : u.closeApp.Nodup := by
  obtain ⟨method, inputfd⟩ := u
  cases method <;> cases inputfd <;> decide

theorem sendServerStopped_notMem (u : Setup) :
    .sendServerStopped ∉ u.closeGrabber ++ u.cleanupInput := by
  obtain ⟨method, inputfd⟩ := u
  cases method <;> cases inputfd <;> decide

/-- The first step belongs to the cleaning up. -/
theorem exists_closeApp_eq (u : Setup) : ∃ e l, u.closeApp = e :: l ∧ e ∈ u.cleanup := by
  unfold Setup.closeApp Setup.cleanup
  cases u.closeGrabber ++ u.cleanupInput with
  | nil => exact ⟨_, _, rfl, by simp⟩
  | cons e l => exact ⟨e, _, rfl, by simp⟩

theorem mem_trace_of_told (h : Single u.closeApp s.work)
    (htold : .sendServerStopped ∈ s.work.trace) {e : Effect} (he : e ∈ u.cleanup) :
    e ∈ s.work.trace :=
  (prefix_of_mem h.trace_prefix htold (sendServerStopped_notMem u)).subset he

/-! ### Runs -/

/-- The invariant: a single `close_app` has been begun with, and it has told the user
interface when the process exits. -/
structure Keeps (u : Setup) (s : Process) : Prop where
  single : Single u.closeApp s.work
  told : s.exited → .sendServerStopped ∈ s.work.trace

theorem Keeps.cleansUp (h : Keeps u s) : CleansUp u s := by
  intro e he
  have hle := h.single.count_le_one (nodup_closeApp u) e
  refine ⟨hle, fun hexited => le_antisymm hle ?_⟩
  exact List.one_le_count_iff.mpr (mem_trace_of_told h.single (h.told hexited) he)

theorem not_cleansUp_exit (htold : .sendServerStopped ∉ s.work.trace) :
    ¬ CleansUp u s.exit := by
  intro hclean
  have hone := (hclean .sendServerStopped (by simp [Setup.cleanup])).2 rfl
  rw [Process.exit, List.count_eq_zero_of_not_mem htold] at hone
  exact absurd hone (by decide)

theorem step_of_leaves {e : Event} (hruns : s.exited = false) (h : Leaves u s e) :
    step u s e = some s.exit := by
  cases e with
  | key c =>
    obtain ⟨hmain, hfd, hkey⟩ := h
    simp [step, hruns, hmain, Process.keyEvent, hfd, hkey]
  | updateScreen ioctl =>
    obtain ⟨hmain, hmethod, hfails⟩ := h
    rw [step, hruns]
    simp only [hmain, Process.updateScreen, if_pos hmethod, Process.updateFbInfo, if_neg hfails]
    rfl
  | _ => exact absurd h id

theorem exited_of_step {e : Event} (h : step u s e = some t) : s.exited = false := by
  cases hexited : s.exited with
  | false => rfl
  | true => simp [step, hexited] at h

/-- What a step can do: leave the work alone, start `close_app` on a thread, take its next
step, or exit. -/
theorem step_cases {e : Event} (h : step u s e = some t) :
    (t.work = s.work ∧ t.exited = s.exited) ∨
    (∃ i, t.work = s.work.start u.closeApp i ∧ t.exited = s.exited) ∨
    (∃ i f l, e = .advance i ∧ s.work.rest i = some (f :: l) ∧ t.work = s.work.act i f l ∧
      t.exited = s.exited) ∨
    t.work = s.work ∧ (Leaves u s e ∨ ∃ i, s.work.rest i = some []) := by
  have hruns := exited_of_step h
  unfold step at h
  simp only [hruns, Bool.false_eq_true, if_false] at h
  cases e with
  | key c =>
    dsimp only at h
    split_ifs at h with hmain
    obtain rfl := Option.some.inj h
    have hnone := Option.not_isSome_iff_eq_none.mp hmain
    by_cases hkey : u.inputfd = true ∧ keysym2scancode c = .exit
    · simp [Process.keyEvent, hkey, Process.exit, Leaves, hnone]
    · left
      unfold Process.keyEvent
      split_ifs <;> simp_all
  | updateScreen ioctl =>
    dsimp only at h
    split_ifs at h with hmain
    obtain rfl := Option.some.inj h
    have hnone := Option.not_isSome_iff_eq_none.mp hmain
    unfold Process.updateScreen Process.updateFbInfo
    split_ifs with hmethod hok
    · exact Or.inl ⟨rfl, rfl⟩
    · exact Or.inr (Or.inr (Or.inr ⟨rfl, Or.inl ⟨hnone, hmethod, hok⟩⟩))
    · exact Or.inl ⟨rfl, rfl⟩
  | datagram datagram =>
    dsimp only at h
    split_ifs at h
    obtain ⟨r, -, rfl⟩ := Option.map_eq_some_iff.mp h
    split_ifs
    · exact Or.inr (Or.inl ⟨.ipc, rfl, rfl⟩)
    · exact Or.inl ⟨rfl, rfl⟩
  | signal signal i =>
    simp only [Process.deliver] at h
    split_ifs at h
    obtain rfl := Option.some.inj h
    exact Or.inr (Or.inl ⟨i, rfl, rfl⟩)
  | advance i =>
    obtain ⟨l, hl, rfl⟩ := Option.map_eq_some_iff.mp h
    cases l with
    | nil => exact Or.inr (Or.inr (Or.inr ⟨rfl, Or.inr ⟨i, hl⟩⟩))
    | cons f l => exact Or.inr (Or.inr (Or.inl ⟨i, f, l, rfl, hl, rfl, rfl⟩))

theorem keeps_step {e : Event} (hs : Keeps u s) (hg : Orderly u s e) (h : step u s e = some t) :
    Keeps u t := by
  have hruns := exited_of_step h
  obtain ⟨htold, hrepeats⟩ := hg hruns
  have hstill : t.exited = s.exited → ¬ t.exited = true := by
    intro heq
    rw [heq, hruns]
    decide
  rcases step_cases h with ⟨hwork, hex⟩ | ⟨i, hwork, hex⟩ | ⟨i, f, l, rfl, hi, hwork, hex⟩ |
    ⟨hwork, hend⟩
  · exact ⟨hwork ▸ hs.single, fun hexited => absurd hexited (hstill hex)⟩
  · exact ⟨hwork ▸ hs.single.start i, fun hexited => absurd hexited (hstill hex)⟩
  · refine ⟨hwork ▸ hs.single.act hi fun hbegin => ?_, fun hexited => absurd hexited (hstill hex)⟩
    by_contra hbegun
    exact hrepeats ⟨hbegin ▸ hi, hbegun⟩
  · refine ⟨hwork ▸ hs.single, fun _ => ?_⟩
    rw [hwork]
    rcases hend with hleaves | ⟨i, hdone⟩
    · exact htold hleaves
    · rw [hs.single.trace_eq hdone]
      simp [Setup.closeApp]

theorem not_cleansUp_step {e : Event} (hs : Keeps u s) (hg : ¬ Orderly u s e) :
    ∃ t, step u s e = some t ∧ ¬ CleansUp u t := by
  simp only [Orderly, Classical.not_imp] at hg
  obtain ⟨hruns, hbad⟩ := hg
  by_cases hleaves : Leaves u s e ∧ .sendServerStopped ∉ s.work.trace
  · exact ⟨_, step_of_leaves hruns hleaves.1, not_cleansUp_exit hleaves.2⟩
  · have hrepeats : Repeats u s e := by tauto
    cases e with
    | advance i =>
      obtain ⟨hi, hbegun⟩ := hrepeats
      obtain ⟨f, l, hscript, hf⟩ := exists_closeApp_eq u
      rw [hscript] at hi
      refine ⟨{ s with work := s.work.act i f l }, ?_, fun hclean => ?_⟩
      · simp [step, hruns, Process.advance, hi]
      · have hmem := (hscript ▸ hs.single : Single (f :: l) s.work).head_mem_trace hbegun
        have hone := (hclean f hf).1
        have hpos := List.one_le_count_iff.mpr hmem
        simp only [State.act, List.count_append, List.count_singleton_self] at hone
        omega
    | _ => exact absurd hrepeats id

/-- A server that copies the framebuffer and has an input device. -/
def server : Setup := ⟨.framebuffer, true⟩

end DroidVnc.Shutdown
