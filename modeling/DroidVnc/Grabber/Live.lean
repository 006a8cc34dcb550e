import DroidVnc.Grabber.Probe
import DroidVnc.Screen.Image

/-! What the main loop reads from. The loop does not look at what the probes have
returned, and `update_screen` does not look at what the reader returns: the first
pixel that is read of a frame which is `NULL` ends the process. Frames come from a
live grabber exactly when the probe of the requested method has succeeded, and a
failed read is harmless exactly when no pixel loop runs. -/

namespace DroidVnc.Grabber

open Transition Startup

variable {fmt : ScreenFormat} {d e : Daemon fmt}

/-- A call into the daemon, or a call of `update_screen` whose read yields `NULL`. -/
inductive Op (fmt : ScreenFormat)
  | call (op : Daemon.Op fmt)
  | failedRead

def Op.Valid : Op fmt → Prop
  | .call op => op.Valid
  | .failedRead => True

def Op.Updates : Op fmt → Prop
  | .call (.updateScreen _) => True
  | .call _ => False
  | .failedRead => True

/-- With a frame that is `NULL`, `update_screen` either reads no pixel or dies of the
first one. -/
def failedUpdate (d : Daemon fmt) : Option (Daemon fmt) :=
  match d.scanned.loopNest.sites with
  | [] => some { d with idle := true }
  | _ :: _ => none

def step (d : Daemon fmt) : Op fmt → Option (Daemon fmt)
  | .call op => d.step op
  | .failedRead => failedUpdate d

/-- What `update_screen` may rely on, and what a failed read has to leave alone. -/
def Sane (device : Device) (g : Globals) (d : Daemon fmt) (op : Op fmt) : Prop :=
  (op.Updates → g.Live device) ∧ (op = .failedRead → ∃ e, step d op = some e ∧
    e.cmpbuf = d.cmpbuf ∧ e.vncbuf = d.vncbuf ∧ e.screen = d.screen ∧ e.clients = d.clients)

/-- There is no pixel to read, or no loop for the rotation, as with `-z` from 180
degrees on. -/
def NoLoop (d : Daemon fmt) : Prop :=
  fmt.sw = 0 ∨ fmt.sh = 0 ∨
    d.displayRotate180 ∧ (d.screen.rotation = 180 ∨ d.screen.rotation = 270)

/-- The request is one that the device can serve, and a read fails only when no loop runs. -/
def Served (device : Device) (requested : Method) (d : Daemon fmt) (op : Op fmt) : Prop :=
  (op.Updates → device.Works requested) ∧ (op = .failedRead → NoLoop d)

theorem failedUpdate_eq_some : failedUpdate d = some e ↔
    d.scanned.loopNest.sites = [] ∧ { d with idle := true } = e := by
  unfold failedUpdate
  cases d.scanned.loopNest.sites with
  | nil => simp
  | cons p l => simp

/-- The loops visit the first pixel, if there is one. -/
theorem sites_eq_nil_of_fits {s : Screen} (h : s.Fits fmt) :
    s.loopNest.sites = [] ↔ fmt.sw = 0 ∨ fmt.sh = 0 := by
  have hw := fmt.sw_nonneg
  have hh := fmt.sh_nonneg
  rw [List.eq_nil_iff_forall_not_mem]
  constructor
  · intro hnone
    by_contra hpos
    push Not at hpos
    refine hnone (0, 0) ((mem_sites h).mpr ?_)
    unfold Grid.Inside
    omega
  · intro hempty p hp
    obtain ⟨⟨hi, hiw⟩, hj, hjh⟩ := (mem_sites h).mp hp
    omega

/-- Outside the rotations that `-z` has no loop for, the loops work with an orientation
that fits. -/
theorem fits_scanned (h : d.screen.Fits fmt)
    (hz : ¬ (d.displayRotate180 = true ∧ (d.screen.rotation = 180 ∨ d.screen.rotation = 270))) :
    d.scanned.Fits fmt := by
  cases hrotate : d.displayRotate180 with
  | false =>
    rw [Daemon.scanned_of_upright hrotate]
    exact h
  | true =>
    have hr : d.screen.rotation = 0 ∨ d.screen.rotation = 90 := by
      have hupright := h.upright
      unfold Upright at hupright
      rw [hrotate] at hz
      tauto
    rw [Daemon.scanned_eq_halfTurned hrotate hr]
    exact Daemon.fits_halfTurned h

theorem sites_eq_nil_iff (h : d.screen.Fits fmt) :
    d.scanned.loopNest.sites = [] ↔ NoLoop d := by
  unfold NoLoop
  by_cases hz : d.displayRotate180 = true ∧ (d.screen.rotation = 180 ∨ d.screen.rotation = 270)
  · exact iff_of_true (Daemon.sites_of_halfTurn hz.1 hz.2) (Or.inr (Or.inr hz))
  · rw [sites_eq_nil_of_fits (fits_scanned h hz), ← or_assoc, or_iff_left hz]

/-- A failed read is survived only where it changes nothing but `idle`. -/
theorem failedRead_iff (h : d.screen.Fits fmt) :
    (∃ e, step d .failedRead = some e ∧ e.cmpbuf = d.cmpbuf ∧ e.vncbuf = d.vncbuf ∧
      e.screen = d.screen ∧ e.clients = d.clients) ↔ NoLoop d := by
  rw [← sites_eq_nil_iff h]
  constructor
  · rintro ⟨e, he, -⟩
    exact (failedUpdate_eq_some.mp he).1
  · intro hnone
    exact ⟨_, failedUpdate_eq_some.mpr ⟨hnone, rfl⟩, rfl, rfl, rfl, rfl⟩

theorem sound_step {op : Op fmt} (hop : op.Valid) (hd : d.Sound) (h : step d op = some e) :
    e.Sound := by
  cases op with
  | call op => exact Daemon.sound_step hop hd h
  | failedRead =>
    obtain ⟨-, rfl⟩ := failedUpdate_eq_some.mp h
    exact ⟨hd.supported, hd.area_lt, hd.fits, hd.buffers⟩

/-- In a run of the server that start-up has left, every `update_screen` reads a live
grabber and survives what it reads, exactly when the probe of the requested method has
succeeded before the first of them and no loop runs on a frame that is `NULL`. -/
theorem sane_run {device : Device} {requested : Method} {g : Globals}
    (hprobed : probed device requested = some g) {o : DroidVnc.Options}
    (ho : Upright o.rotation) {d : Daemon g.screenformat}
    (hinit : Daemon.initVncServer g.screenformat o g.scrinfo = some d)
    {l : List (Op g.screenformat)} (hl : ∀ op ∈ l, op.Valid) :
    Along step (Sane device g) d l ↔ Along step (Served device requested) d l := by
  obtain ⟨harea, hsupported, rfl⟩ := Daemon.initVncServer_eq_some.mp hinit
  refine along_congr (J := Daemon.Sound) (fun _ _ _ hv hJ hs => sound_step hv hJ hs) ?_ hl
    (Daemon.sound_started hsupported harea ho g.scrinfo)
  intro d op _ hd
  unfold Sane Served
  rw [live_probed_iff hprobed]
  refine and_congr Iff.rfl (forall_congr' fun hop => ?_)
  subst hop
  exact failedRead_iff hd.fits

/-- The settings of a daemon that is started without arguments. -/
def plain : DroidVnc.Options := { rotation := 0, scaling := 100, displayRotate180 := false }

/-- A library that cannot be opened. -/
def missing : Library where
  dlopen := false
  initSym := false
  closeSym := false
  readfbSym := false
  getscreenformatSym := false
  init := 0
  format := ⟨0, 0, 0⟩
  firstRead := false

/-- A library for a screen of 480 by 800 pixels of 16 bits. -/
def present (firstRead : Bool) : Library where
  dlopen := true
  initSym := true
  closeSym := true
  readfbSym := true
  getscreenformatSym := true
  init := 0
  format := ⟨480, 800, 16⟩
  firstRead := firstRead

/-- A device without a usable framebuffer and `gralloc`. Its first `flinger` library
loads, the second does not. -/
def handset (firstRead : Bool) : Device where
  flinger := fun k => if k = 10 then present firstRead else missing
  gralloc := fun _ => missing
  fb := ⟨false, false, false, false, ⟨0, 0, 0⟩, ⟨0, 0, 0, 0, 0, 0⟩⟩

/-- The globals when `flinger` has been tried on the handset, `lib` being the library that
is loaded. -/
def tried (lib : Option ℕ) (initialised : Bool) : Globals where
  method := .flinger
  screenformat := ⟨480, 800, 16⟩
  flinger := ⟨lib, some 10, some 10, some 10⟩
  initialised := initialised

theorem initVncServer_plain (scrinfo : FbVarScreeninfo) :
    Daemon.initVncServer ⟨480, 800, 16⟩ plain scrinfo =
      some (Daemon.started ⟨480, 800, 16⟩ plain scrinfo) :=
  Daemon.initVncServer_eq_some.mpr ⟨by decide, by decide, rfl⟩

theorem sane_handset :
    ∃ g, probed (handset true) .auto = some g ∧ ∃ d : Daemon g.screenformat,
      Daemon.initVncServer g.screenformat plain g.scrinfo = some d ∧
        Along step (Sane (handset true) g) d
          [.call (.connect Daemon.blank), .call (.updateScreen (.buffer fun _ => 0))] := by
  have hprobed : probed (handset true) .auto = some (tried (some 10) true) := rfl
  have hinit := initVncServer_plain (tried (some 10) true).scrinfo
  have hworks : (handset true).Works .auto := by
    refine Or.inl ⟨10, by decide, ?_⟩
    simp [Library.Works, handset, present]
  have hupright : Upright plain.rotation := by decide
  refine ⟨_, hprobed, _, hinit, (sane_run hprobed hupright hinit ?_).mpr ?_⟩
  · simp [Op.Valid, Daemon.Op.Valid]
  · simp [Along, Served, hworks]

/-- The only library that loads yields no first frame, and has been unloaded again when
the main loop calls its reader. -/
theorem not_sane_handset :
    ∃ g, probed (handset false) .flinger = some g ∧
      g.flinger.lib = none ∧ g.flinger.readfb = some 10 ∧ ∃ d : Daemon g.screenformat,
        Daemon.initVncServer g.screenformat plain g.scrinfo = some d ∧
          ¬ Along step (Sane (handset false) g) d
            [.call (.connect Daemon.blank), .call (.updateScreen (.buffer fun _ => 0))] := by
  have hprobed : probed (handset false) .flinger = some (tried none false) := rfl
  refine ⟨_, hprobed, rfl, rfl, _, initVncServer_plain (tried none false).scrinfo, ?_⟩
  rintro ⟨-, hupdate⟩
  have hlive := ((hupdate _ rfl).1.1 trivial).1
  exact absurd hlive (by decide)

end DroidVnc.Grabber
