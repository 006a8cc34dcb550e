import DroidVnc.Ipc.Messages
import DroidVnc.Lib.Transition

/-! What the service does for connected clients: a status notification, and a wake lock
for each client that connects. Of the wake locks only the last is referred to, and the
clients are not counted. The server is always shared, so they may overlap; the service
keeps up exactly as long as a client that goes is the only one. -/

namespace DroidVnc.Ipc

open Transition

/-- The state of the service: for each wake lock that was made whether it is held, the
number of the one that the static `wakeLock` refers to, and whether the notification
`APP_ID` is shown. -/
structure ServerManager where
  held : List Bool := []
  wakeLock : Option ℕ := none
  notification : Bool := false
  deriving DecidableEq, Repr

namespace ServerManager

def newWakeLock (s : ServerManager) : ServerManager :=
  { s with held := s.held ++ [false], wakeLock := some s.held.length }

def setHeld (value : Bool) (s : ServerManager) : ServerManager :=
  match s.wakeLock with
  | some k => { s with held := s.held.set k value }
  | none => s

def isHeld (s : ServerManager) : Bool :=
  match s.wakeLock with
  | some k => s.held.getD k false
  | none => false

def showClientConnected (screenturnoff : Bool) (s : ServerManager) : ServerManager :=
  let s := { s with notification := true }
  if screenturnoff then s.newWakeLock.setHeld true else s

def showClientDisconnected (s : ServerManager) : ServerManager :=
  let s := { s with notification := false }
  if s.isHeld then s.setHeld false else s

/-- The calls that concern this state. -/
def perform (screenturnoff : Bool) (s : ServerManager) : Action → ServerManager
  | .showClientConnected _ => s.showClientConnected screenturnoff
  | .showClientDisconnected => s.showClientDisconnected
  | _ => s

theorem showClientConnected_eq (s : ServerManager) :
    s.showClientConnected true =
      { held := s.held ++ [true], wakeLock := some s.held.length, notification := true } := by
  simp [showClientConnected, newWakeLock, setHeld]

/-- A lock that is not held may as well be released. -/
theorem set_eq_self_of_getD {l : List Bool} {k : ℕ} (h : l[k]?.getD false = false) :
    l.set k false = l := by
  induction l generalizing k with
  | nil => rfl
  | cons b l ih =>
    cases k with
    | zero =>
      have hb : b = false := h
      rw [List.set_cons_zero, hb]
    | succ k => rw [List.set_cons_succ, ih h]

/-- The locks when the one that `wakeLock` refers to has been released. -/
def released (s : ServerManager) : List Bool :=
  match s.wakeLock with
  | some k => s.held.set k false
  | none => s.held

theorem showClientDisconnected_eq (s : ServerManager) :
    s.showClientDisconnected = { s with held := s.released, notification := false } := by
  obtain ⟨held, wakeLock, notification⟩ := s
  cases wakeLock with
  | none => rfl
  | some k =>
    simp only [showClientDisconnected, isHeld, setHeld, released, List.getD_eq_getElem?_getD]
    split_ifs with hheld
    · rfl
    · rw [set_eq_self_of_getD (Bool.eq_false_iff.mpr hheld)]

end ServerManager

/-- A client's `host`: the numeric address of its socket as `getnameinfo` writes it into
a buffer of 1024 bytes, or the empty string. -/
structure Host where
  text : List UInt8
  ascii : Utf8.Ascii text
  noNul : 0 ∉ text
  short : text.length < 1024

inductive Hook
  | clientHook (host : Host)
  | clientGone

/-- The service, and beside it the number of clients that are connected. -/
structure Session where
  manager : ServerManager := {}
  clients : ℕ := 0

/-- A hook runs and the service gets its message, both preferences being on. Only a client
that is connected can go. -/
def step (charset : Charset) (s : Session) : Hook → Option Session
  | .clientHook host =>
    (delivered charset (.clientHook host.text)).map fun a =>
      { manager := s.manager.perform true a, clients := s.clients + 1 }
  | .clientGone =>
    if s.clients = 0 then none
    else (delivered charset .clientGone).map fun a =>
      { manager := s.manager.perform true a, clients := s.clients - 1 }

/-- Some wake lock is held, and the notification is shown, when there is a client. -/
def Tracks (s : Session) : Prop :=
  (true ∈ s.manager.held ↔ 0 < s.clients) ∧ (s.manager.notification = true ↔ 0 < s.clients)

/-- Nobody goes while others stay. -/
def Alone (s : Session) (hook : Hook) : Prop :=
  match hook with
  | .clientHook _ => True
  | .clientGone => s.clients ≤ 1

variable {charset : Charset} {s t : Session}

theorem step_clientHook (charset : Charset) (s : Session) (host : Host) :
    step charset s (.clientHook host) = some
      { manager :=
          { held := s.manager.held ++ [true]
            wakeLock := some s.manager.held.length
            notification := true }
        clients := s.clients + 1 } := by
  have hlen : host.text.length ≤ 65495 := host.short.le.trans (by decide)
  rw [step, delivered_clientHook charset host.ascii host.noNul hlen, Option.map_some,
    ServerManager.perform, ServerManager.showClientConnected_eq]

theorem step_clientGone (charset : Charset) (h : s.clients ≠ 0) :
    step charset s .clientGone = some
      { manager := { s.manager with held := s.manager.released, notification := false }
        clients := s.clients - 1 } := by
  rw [step, if_neg h, delivered_clientGone, Option.map_some, ServerManager.perform,
    ServerManager.showClientDisconnected_eq]

theorem eq_of_step_clientGone (h : step charset s .clientGone = some t) :
    s.clients ≠ 0 ∧ t =
      { manager := { s.manager with held := s.manager.released, notification := false }
        clients := s.clients - 1 } := by
  have hne : s.clients ≠ 0 := fun hzero => by simp [step, hzero] at h
  exact ⟨hne, Option.some.inj (h.symm.trans (step_clientGone charset hne))⟩

/-- The invariant: the service keeps up, and when one client is left, the lock that
`wakeLock` refers to is the only one that is held. -/
structure KeepsUp (s : Session) : Prop where
  tracks : Tracks s
  last : s.clients = 1 → true ∉ s.manager.released

theorem keepsUp_step {hook : Hook} (hs : KeepsUp s) (halone : Alone s hook)
    (h : step charset s hook = some t) : KeepsUp t := by
  cases hook with
  | clientHook host =>
    obtain rfl := Option.some.inj ((step_clientHook charset s host).symm.trans h)
    refine ⟨by simp [Tracks], fun hone => ?_⟩
    have hzero : s.clients = 0 := Nat.succ.inj hone
    have hnone : true ∉ s.manager.held := fun hmem => by
      have := hs.tracks.1.mp hmem
      omega
    simpa [ServerManager.released] using hnone
  | clientGone =>
    obtain ⟨hne, rfl⟩ := eq_of_step_clientGone h
    have hone : s.clients = 1 := le_antisymm halone (Nat.pos_of_ne_zero hne)
    refine ⟨?_, fun hlast => ?_⟩
    · simp [Tracks, hone, hs.last hone]
    · simp [hone] at hlast

/-- The notification goes with the first client that leaves others behind. -/
theorem not_tracks_step {hook : Hook} (halone : ¬ Alone s hook) :
    ∃ t, step charset s hook = some t ∧ ¬ Tracks t := by
  cases hook with
  | clientHook host => exact absurd trivial halone
  | clientGone =>
    have hmany : 1 < s.clients := not_le.mp halone
    refine ⟨_, step_clientGone charset (by omega), fun htracks => ?_⟩
    have hshown := htracks.2.mpr (Nat.sub_pos_of_lt hmany)
    exact absurd hshown (by simp)

/-- After every message of a run the wake locks and the notification follow the clients,
exactly when each client that goes is the only one at that time. -/
theorem tracks_run (charset : Charset) (l : List Hook) :
    Always (step charset) Tracks {} l ↔ Along (step charset) Alone {} l := by
  have hstart : KeepsUp {} := ⟨by simp [Tracks], by simp⟩
  exact always_iff_along (V := fun _ => True) (fun _ h => h.tracks)
    (fun _ _ _ _ hs ha h => keepsUp_step hs ha h) (fun _ _ _ _ ha => not_tracks_step ha)
    (fun _ _ => trivial) hstart

/-- A lock that is held and no longer referred to stays held: no later message releases it. -/
theorem leaked_run {k : ℕ} {l : List Hook} (hheld : s.manager.held[k]? = some true)
    (hlost : s.manager.wakeLock ≠ some k) (hrun : run (step charset) s l = some t) :
    t.manager.held[k]? = some true ∧ t.manager.wakeLock ≠ some k := by
  refine run_invariant (V := fun _ => True)
    (J := fun s => s.manager.held[k]? = some true ∧ s.manager.wakeLock ≠ some k)
    (fun s hook t _ hs h => ?_) (fun _ _ => trivial) ⟨hheld, hlost⟩ hrun
  obtain ⟨hk, hne⟩ := hs
  have hlt : k < s.manager.held.length := by
    rw [List.getElem?_eq_some_iff] at hk
    exact hk.1
  cases hook with
  | clientHook host =>
    obtain rfl := Option.some.inj ((step_clientHook charset s host).symm.trans h)
    refine ⟨by rw [List.getElem?_append_left hlt, hk], fun heq => ?_⟩
    exact hlt.ne' (Option.some.inj heq)
  | clientGone =>
    obtain ⟨-, rfl⟩ := eq_of_step_clientGone h
    refine ⟨?_, hne⟩
    show s.manager.released[k]? = some true
    unfold ServerManager.released
    cases hj : s.manager.wakeLock with
    | none => exact hk
    | some j =>
      have hjk : j ≠ k := fun heq => hne (heq ▸ hj)
      rw [List.getElem?_set_ne hjk, hk]

def neighbour : Host where
  text := bytes "10.0.0.2"
  ascii := by decide
  noNul := by decide
  short := by decide

/-- The service when `clients` of two clients that have come are left. -/
def overlap (held : List Bool) (notification : Bool) (clients : ℕ) : Session :=
  { manager := { held, wakeLock := some 1, notification }, clients }

/-- Of two clients that are connected at a time, the first that goes takes the notification
along, and when both are gone the wake lock of the first is still held. -/
theorem not_tracks_overlap :
    ¬ Always (step utf8) Tracks {}
        [.clientHook neighbour, .clientHook neighbour, .clientGone] ∧
      run (step utf8) {} [.clientHook neighbour, .clientHook neighbour, .clientGone,
        .clientGone] = some (overlap [true, false] false 0) := by
  have hcome : run (step utf8) {} [.clientHook neighbour, .clientHook neighbour] =
      some (overlap [true, true] true 2) := by
    simp only [run_cons, step_clientHook, Option.bind_some, run_nil]
    rfl
  have hfirst : step utf8 (overlap [true, true] true 2) .clientGone =
      some (overlap [true, false] false 1) := step_clientGone utf8 (by decide)
  have hsecond : step utf8 (overlap [true, false] false 1) .clientGone =
      some (overlap [true, false] false 0) := step_clientGone utf8 (by decide)
  constructor
  · rintro ⟨-, hone⟩
    have htwo := (hone _ (step_clientHook utf8 _ neighbour)).2 _ (step_clientHook utf8 _ neighbour)
    have htracks : Tracks (overlap [true, false] false 1) := htwo.2 _ hfirst
    exact absurd (htracks.2.mpr (by decide)) (by decide)
  · have hsplit : [Hook.clientHook neighbour, .clientHook neighbour, .clientGone, .clientGone] =
        [.clientHook neighbour, .clientHook neighbour] ++ [.clientGone, .clientGone] := rfl
    rw [hsplit, run_append, hcome, Option.bind_some, run_cons, hfirst, Option.bind_some, run_cons,
      hsecond, Option.bind_some, run_nil]

end DroidVnc.Ipc
