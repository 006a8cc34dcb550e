import DroidVnc.Screen.Image

/-! The event loop of `main`. Each turn waits for events, adjusts `standby` to whether
the screen was idle, and copies the screen. What the copy finds is seen only by the
adjustment of the next turn, which comes after its wait: a change that follows an idle
turn is sent after a wait that has grown, not after the active one. -/

namespace DroidVnc

open Transition

/-- An event in `rfbProcessEvents`: a client comes, goes, chooses encodings or is
served, `rotate` is called, or an input handler calls `setIdle(0)`. -/
inductive LoopEvent (fmt : ScreenFormat)
  | connect (picture : ℤ × ℤ → fmt.Pixel)
  | disconnect (c : ℕ)
  | setEncodings (c : ℕ) (newFBSize cursorShapes : Bool)
  | send (c : ℕ) (requested : Region) (background : fmt.Pixel)
  | rotate (value : ℤ)
  | input

structure MainLoop (fmt : ScreenFormat) where
  daemon : Daemon fmt
  standby : BitVec 32

def deferUpdateTime : BitVec 32 := 5

/-- `(vncscr->deferUpdateTime+standby)*1000`, unsigned. -/
def usec (standby : BitVec 32) : BitVec 32 := (deferUpdateTime + standby) * 1000

namespace LoopEvent

variable {fmt : ScreenFormat}

def perform (d : Daemon fmt) : LoopEvent fmt → Daemon fmt
  | connect picture => d.connect picture
  | disconnect c => d.disconnect c
  | setEncodings c newFBSize cursorShapes => d.setEncodings c newFBSize cursorShapes
  | send c requested background => d.send c requested background
  | rotate value => d.rotate value
  | input => { d with idle := false }

/-- `rotate` is called with `-1` or one of the four rotations. -/
def Valid : LoopEvent fmt → Prop
  | rotate value => Screen.RotateArg value
  | _ => True

end LoopEvent

namespace MainLoop

variable {fmt : ScreenFormat}

/-- The loop is entered with a server that has started, and with the client of a
reverse connection if there is one. -/
def start (fmt : ScreenFormat) (o : Options) (scrinfo : FbVarScreeninfo)
    (reverse : Option (ℤ × ℤ → fmt.Pixel)) : MainLoop fmt where
  daemon :=
    match reverse with
    | some picture => (Daemon.started fmt o scrinfo).connect picture
    | none => Daemon.started fmt o scrinfo
  standby := 1

def processEvents (events : List (LoopEvent fmt)) (d : Daemon fmt) : Daemon fmt :=
  events.foldl LoopEvent.perform d

def adjust (idle : Bool) (standby : BitVec 32) : BitVec 32 := if idle then standby + 2 else 2

/-- One turn of the loop: the events while it waits, and what reading the frame yields. -/
def step (s : MainLoop fmt) (turn : List (LoopEvent fmt) × Grab fmt.Pixel) :
    Option (MainLoop fmt) :=
  let d := processEvents turn.1 s.daemon
  let standby := adjust d.idle s.standby
  if d.clients = [] then some { daemon := { d with idle := true }, standby := 50 }
  else (d.updateScreen turn.2).map fun e => { daemon := e, standby := standby }

/-! ### The wait -/

/-- The wait after the copy has found a change is the active one. -/
def Wakes (s : MainLoop fmt) : Prop := s.daemon.idle = false → usec s.standby = usec 2

theorem toNat_usec (standby : BitVec 32) :
    (usec standby).toNat = (5 + standby.toNat) % 2 ^ 32 * 1000 % 2 ^ 32 := by
  simp only [usec, deferUpdateTime, BitVec.toNat_mul, BitVec.toNat_add, BitVec.ofNat_eq_ofNat,
    BitVec.toNat_ofNat]

/-- `standby` is multiplied by 1000, a multiple of 8: its top three bits do not matter. -/
theorem usec_eq_iff (standby : BitVec 32) : usec standby = usec 2 ↔ standby.toNat % 2 ^ 29 = 2 := by
  have hactive : (usec 2).toNat = 7 * 1000 % 2 ^ 32 := by decide
  have hgcd : 2 ^ 32 / Nat.gcd (2 ^ 32) 1000 = 2 ^ 29 := rfl
  have hcancel (n : ℕ) : n * 1000 % 2 ^ 32 = 7 * 1000 % 2 ^ 32 ↔ n % 2 ^ 29 = 7 := by
    constructor
    · intro h
      have hmod := Nat.ModEq.cancel_right_div_gcd (by decide)
        (show n * 1000 ≡ 7 * 1000 [MOD 2 ^ 32] from h)
      rw [hgcd] at hmod
      exact hmod
    · intro h
      have hmod := Nat.ModEq.mul_right' 1000 (show n ≡ 7 [MOD 2 ^ 29] from h)
      exact hmod.of_dvd (by decide)
  rw [← BitVec.toNat_inj, hactive, toNat_usec, hcancel]
  omega

theorem usec_add_two_eq_iff (standby : BitVec 32) :
    usec (standby + 2) = usec 2 ↔ standby.toNat % 2 ^ 29 = 0 := by
  have hadd : (standby + 2).toNat = (standby.toNat + 2) % 2 ^ 32 := BitVec.toNat_add _ _
  have hlt := standby.isLt
  rw [usec_eq_iff, hadd]
  omega

/-! ### The events -/

theorem idle_perform (d : Daemon fmt) (ev : LoopEvent fmt) :
    (ev.perform d).idle = false ↔ d.idle = false ∨ ev = .input := by
  cases ev with
  | input => exact iff_of_true rfl (Or.inr rfl)
  | _ => exact (or_iff_left nofun).symm

/-- The screen is active after the events if it was before, or if there was input. -/
theorem idle_processEvents (events : List (LoopEvent fmt)) (d : Daemon fmt) :
    (processEvents events d).idle = false ↔ d.idle = false ∨ .input ∈ events := by
  induction events generalizing d with
  | nil => simp [processEvents]
  | cons ev events ih =>
    show (processEvents events (ev.perform d)).idle = false ↔ _
    rw [ih, idle_perform, List.mem_cons, or_assoc, @eq_comm _ ev]

theorem sound_perform {d : Daemon fmt} (hd : d.Sound) {ev : LoopEvent fmt} (hev : ev.Valid) :
    (ev.perform d).Sound := by
  cases ev with
  | connect picture =>
    exact Daemon.sound_step (show Daemon.Op.Valid (.connect picture) from trivial) hd rfl
  | disconnect c =>
    exact Daemon.sound_step (show Daemon.Op.Valid (.disconnect c) from trivial) hd rfl
  | setEncodings c newFBSize cursorShapes =>
    exact Daemon.sound_step
      (show Daemon.Op.Valid (.setEncodings c newFBSize cursorShapes) from trivial) hd rfl
  | send c requested background =>
    exact Daemon.sound_step (show Daemon.Op.Valid (.send c requested background) from trivial) hd
      rfl
  | rotate value =>
    exact Daemon.sound_step (show Daemon.Op.Valid (.rotate value) from hev) hd rfl
  | input => exact ⟨hd.supported, hd.area_lt, hd.fits, hd.buffers⟩

theorem sound_processEvents {events : List (LoopEvent fmt)} (hev : ∀ ev ∈ events, ev.Valid)
    {d : Daemon fmt} (hd : d.Sound) : (processEvents events d).Sound := by
  induction events generalizing d with
  | nil => exact hd
  | cons ev events ih =>
    exact ih (fun e he => hev e (List.mem_cons_of_mem _ he))
      (sound_perform hd (hev ev List.mem_cons_self))

/-! ### The turns -/

/-- A turn that finds a change has seen activity before its adjustment: the turn before
it has found one, or there was input while it waited. Or `standby` has gone round. -/
def Timely (s : MainLoop fmt) (turn : List (LoopEvent fmt) × Grab fmt.Pixel) : Prop :=
  let d := processEvents turn.1 s.daemon
  d.clients ≠ [] → d.changed turn.2 ≠ [] → fmt.sw * fmt.sh * fmt.bpp < 2 ^ 31 →
    (s.daemon.idle = false ∨ .input ∈ turn.1) ∨ s.standby.toNat % 2 ^ 29 = 0

def ValidTurn (turn : List (LoopEvent fmt) × Grab fmt.Pixel) : Prop := ∀ ev ∈ turn.1, ev.Valid

theorem sound_step {s t : MainLoop fmt} {turn : List (LoopEvent fmt) × Grab fmt.Pixel}
    (hturn : ValidTurn turn) (hs : s.daemon.Sound) (h : s.step turn = some t) : t.daemon.Sound := by
  have hd := sound_processEvents hturn hs
  unfold step at h
  dsimp only at h
  split_ifs at h
  · obtain rfl := Option.some.inj h
    exact ⟨hd.supported, hd.area_lt, hd.fits, hd.buffers⟩
  · obtain ⟨e, he, rfl⟩ := Option.map_eq_some_iff.mp h
    exact Daemon.sound_step (show Daemon.Op.Valid (.updateScreen turn.2) from trivial) hd he

/-- The copy reports a change exactly when it finds one. -/
theorem idle_updateScreen {d e : Daemon fmt} (hd : d.Sound) {g : Grab fmt.Pixel}
    (h : d.updateScreen g = some e) : e.idle = false ↔ d.changed g ≠ [] := by
  rw [ne_eq, ← Daemon.idle_iff hd.fits]
  cases hi : (d.scanResult g).2.2 with
  | true =>
    obtain rfl := Option.some.inj ((Daemon.updateScreen_idle hi).symm.trans h)
    simp
  | false =>
    obtain ⟨bits, -, rfl⟩ :=
      Option.map_eq_some_iff.mp ((Daemon.updateScreen_change hi).symm.trans h)
    simp

/-- A copy that returns on frames too large has found nothing. -/
theorem changed_of_large {d e : Daemon fmt} (hd : d.Sound) {g : Grab fmt.Pixel}
    (hb : 2 ^ 31 ≤ fmt.sw * fmt.sh * fmt.bpp) (h : d.updateScreen g = some e) :
    d.changed g = [] := by
  by_contra hchanged
  rw [(Daemon.updateScreen_eq_none hd.supported hd.fits).mpr ⟨hchanged, hb⟩] at h
  cases h

theorem usec_adjusted_iff (s : MainLoop fmt) (events : List (LoopEvent fmt)) :
    usec (adjust (processEvents events s.daemon).idle s.standby) = usec 2 ↔
      (s.daemon.idle = false ∨ .input ∈ events) ∨ s.standby.toNat % 2 ^ 29 = 0 := by
  rw [← idle_processEvents]
  cases (processEvents events s.daemon).idle with
  | true =>
    rw [adjust, if_pos rfl, usec_add_two_eq_iff]
    simp
  | false => simp [adjust]

/-- After a turn the wait is right exactly when the turn was timely. -/
theorem wakes_step_iff {s : MainLoop fmt} (hs : s.daemon.Sound)
    {turn : List (LoopEvent fmt) × Grab fmt.Pixel} (hturn : ValidTurn turn) :
    (∀ t, s.step turn = some t → t.Wakes) ↔ s.Timely turn := by
  have hd := sound_processEvents hturn hs
  unfold step Timely
  dsimp only
  by_cases hc : (processEvents turn.1 s.daemon).clients = []
  · rw [if_pos hc]
    refine iff_of_true ?_ fun hne => absurd hc hne
    intro t ht
    obtain rfl := Option.some.inj ht
    exact nofun
  · rw [if_neg hc, ← usec_adjusted_iff]
    by_cases hb : fmt.sw * fmt.sh * fmt.bpp < 2 ^ 31
    · obtain ⟨e, he⟩ := Daemon.updateScreen_defined hd hb turn.2
      rw [he, Option.map_some]
      have hidle := idle_updateScreen hd he
      constructor
      · intro h _ hchanged _
        have hwakes := h _ rfl
        dsimp only [Wakes] at hwakes
        exact hwakes (hidle.mpr hchanged)
      · intro h t ht
        obtain rfl := Option.some.inj ht
        dsimp only [Wakes]
        intro hactive
        exact h hc (hidle.mp hactive) hb
    · refine iff_of_true ?_ fun _ _ hlt => absurd hlt hb
      intro t ht
      obtain ⟨e, he, rfl⟩ := Option.map_eq_some_iff.mp ht
      intro hactive
      exact absurd (changed_of_large hd (not_lt.mp hb) he) ((idle_updateScreen hd he).mp hactive)

/-- In every run of the loop, each change that a turn finds is sent after the active
wait if and only if every turn that finds a change is timely. -/
theorem wakes_run {o : Options} (ho : Upright o.rotation) (hf : fmt.Supported)
    (ha : fmt.sw * fmt.sh < 2 ^ 31) (scrinfo : FbVarScreeninfo)
    (reverse : Option (ℤ × ℤ → fmt.Pixel)) {l : List (List (LoopEvent fmt) × Grab fmt.Pixel)}
    (hl : ∀ turn ∈ l, ValidTurn turn) :
    Along step (fun s turn => ∀ t, s.step turn = some t → t.Wakes)
        (start fmt o scrinfo reverse) l ↔
      Along step Timely (start fmt o scrinfo reverse) l := by
  have hstart : (start fmt o scrinfo reverse).daemon.Sound := by
    have hsound := Daemon.sound_started hf ha ho scrinfo
    cases reverse with
    | none => exact hsound
    | some picture =>
      exact Daemon.sound_step (show Daemon.Op.Valid (.connect picture) from trivial) hsound rfl
  exact along_congr (J := fun s => s.daemon.Sound)
    (fun s turn t hturn hs hst => sound_step hturn hs hst)
    (fun s turn hturn hs => wakes_step_iff hs hturn) hl hstart

/-- A client that is there from the start and a first frame. -/
theorem wakes_firstFrame :
    Along step (fun s turn => ∀ t, s.step turn = some t → t.Wakes)
        (start ⟨480, 800, 16⟩ { rotation := 0, scaling := 100, displayRotate180 := false }
          ⟨480, 800, 480, 1600, 0, 0⟩ (some Daemon.blank)) [([], .buffer fun _ => 1)] ↔
      Along step Timely
        (start ⟨480, 800, 16⟩ { rotation := 0, scaling := 100, displayRotate180 := false }
          ⟨480, 800, 480, 1600, 0, 0⟩ (some Daemon.blank)) [([], .buffer fun _ => 1)] :=
  wakes_run (by decide) (by decide) (by decide) _ _ (by simp [ValidTurn])

/-- A frame of ones is a change for a server that has shown nothing. -/
theorem changed_ones {d : Daemon ⟨480, 800, 16⟩} (hd : d.Sound) (hz : d.displayRotate180 = false)
    (hblank : d.cmpbuf = fun _ => 0) : d.changed (.buffer fun _ => 1) ≠ [] := by
  rw [Daemon.changed, Daemon.scanned_of_upright hz, ne_eq, changed_eq_nil_iff hd.fits,
    hblank]
  exact Daemon.not_holdsFrame_ones (by decide) (by decide) (by decide) _ _

/-- After a turn without clients, the first frame of a client that connects is sent
after a wait of 57 milliseconds. -/
theorem not_wakes_connect :
    ¬ ∀ (fmt : ScreenFormat) (o : Options) (scrinfo : FbVarScreeninfo)
      (reverse : Option (ℤ × ℤ → fmt.Pixel))
      (l : List (List (LoopEvent fmt) × Grab fmt.Pixel)), Upright o.rotation → fmt.Supported →
      fmt.sw * fmt.sh < 2 ^ 31 → (∀ turn ∈ l, ValidTurn turn) →
      Along step (fun s turn => ∀ t, s.step turn = some t → t.Wakes)
        (start fmt o scrinfo reverse) l := by
  intro h
  have hrun := h ⟨480, 800, 16⟩ { rotation := 0, scaling := 100, displayRotate180 := false }
    ⟨480, 800, 480, 1600, 0, 0⟩ none
    [([], .buffer fun _ => 0), ([.connect Daemon.blank], .buffer fun _ => 1)] (by decide)
    (by decide) (by decide) (by simp [ValidTurn, LoopEvent.Valid])
  have hsound : (Daemon.portrait 0 100).Sound :=
    Daemon.sound_started (by decide) (by decide) (by decide) _
  have hidle : ({ Daemon.portrait 0 100 with idle := true } : Daemon ⟨480, 800, 16⟩).Sound :=
    ⟨hsound.supported, hsound.area_lt, hsound.fits, hsound.buffers⟩
  have hsecond := (hrun.2 ⟨{ Daemon.portrait 0 100 with idle := true }, 50⟩ rfl).1
  have htimely := (wakes_step_iff hidle (by simp [ValidTurn, LoopEvent.Valid])).mp hsecond
  have hconnected := sound_perform hidle (show LoopEvent.Valid (.connect Daemon.blank) from trivial)
  have hchanged := changed_ones hconnected rfl rfl
  rcases htimely nofun hchanged (by decide) with (hactive | hinput) | hround
  · exact absurd hactive (by decide)
  · simp at hinput
  · exact absurd hround (by decide)

end MainLoop

end DroidVnc
