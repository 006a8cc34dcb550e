import DroidVnc.Screen.Format
import DroidVnc.Startup.Options

/-! Choosing a grabber. Two of the screen methods load libraries, one for each Android
version they were compiled for, and take the first that passes all checks. What a
failed attempt leaves in the globals stays there. -/

namespace DroidVnc.Grabber

open Startup (Method)

def compiledSdks : List ℕ := [10, 14]

/-- What probing one library comes to: whether `dlopen` and each `dlsym` succeed, what
its init returns, the screen format that it then reports, and whether its first read
yields a frame. -/
structure Library where
  dlopen : Bool
  initSym : Bool
  closeSym : Bool
  readfbSym : Bool
  getscreenformatSym : Bool
  init : ℤ
  format : ScreenFormat
  firstRead : Bool

/-- The globals of a screen method with libraries: the version of the library that is
loaded, and of the ones that the function pointers point into. -/
structure Loaded where
  lib : Option ℕ := none
  close : Option ℕ := none
  readfb : Option ℕ := none
  getscreenformat : Option ℕ := none

/-- What an attempt leaves, and whether it was successful. -/
structure Probed where
  loaded : Loaded
  screenformat : ScreenFormat
  ok : Bool

/-- One turn of the loop in `initFlinger` and `initGralloc`, for the library `l` of
version `k`; only the former asks for a first frame. The library of the turn before is
closed, whatever becomes of this one. -/
def tryLibrary (firstFrame : Bool) (k : ℕ) (l : Library) (s : Loaded) (fmt : ScreenFormat) :
    Probed :=
  let s := { s with lib := if l.dlopen then some k else none }
  if !l.dlopen then ⟨s, fmt, false⟩
  else if !l.initSym then ⟨s, fmt, false⟩
  else
    let s := { s with close := if l.closeSym then some k else none }
    if !l.closeSym then ⟨s, fmt, false⟩
    else
      let s := { s with readfb := if l.readfbSym then some k else none }
      if !l.readfbSym then ⟨s, fmt, false⟩
      else
        let s := { s with getscreenformat := if l.getscreenformatSym then some k else none }
        if !l.getscreenformatSym then ⟨s, fmt, false⟩
        else if l.init = -1 then ⟨s, fmt, false⟩
        else if l.format.width ≤ 0 then ⟨s, l.format, false⟩
        else if firstFrame && !l.firstRead then ⟨s, l.format, false⟩
        else ⟨s, l.format, true⟩

def initLibrary (firstFrame : Bool) (library : ℕ → Library) :
    List ℕ → Loaded → ScreenFormat → Probed
  | [], s, fmt => ⟨s, fmt, false⟩
  | k :: l, s, fmt =>
    let r := tryLibrary firstFrame k (library k) s fmt
    if r.ok then r else initLibrary firstFrame library l r.loaded r.screenformat

/-- What `initFB` comes to: whether the device opens, its two ioctls and the mapping
succeed, and the format and the panning state that it reports. -/
structure Framebuffer where
  opens : Bool
  vscreeninfo : Bool
  fscreeninfo : Bool
  mmap : Bool
  format : ScreenFormat
  scrinfo : FbVarScreeninfo

structure Device where
  flinger : ℕ → Library
  gralloc : ℕ → Library
  fb : Framebuffer

/-- The globals that the probes set. The last field is not in the code: whether the init
of the chosen method has returned success. -/
structure Globals where
  method : Method
  screenformat : ScreenFormat := ⟨0, 0, 0⟩
  flinger : Loaded := {}
  gralloc : Loaded := {}
  fbmmap : Bool := false
  scrinfo : FbVarScreeninfo := ⟨0, 0, 0, 0, 0, 0⟩
  initialised : Bool := false

def initFlinger (device : Device) (g : Globals) : Globals :=
  let r := initLibrary true device.flinger compiledSdks g.flinger g.screenformat
  { g with flinger := r.loaded, screenformat := r.screenformat, initialised := r.ok }

def initGralloc (device : Device) (g : Globals) : Globals :=
  let r := initLibrary false device.gralloc compiledSdks g.gralloc g.screenformat
  { g with gralloc := r.loaded, screenformat := r.screenformat, initialised := r.ok }

/-- `initFB`; the process ends when `update_fb_info` fails. -/
def initFB (device : Device) (g : Globals) : Option Globals :=
  let g := { g with fbmmap := false, initialised := false }
  if !device.fb.opens then some g
  else if !device.fb.vscreeninfo then none
  else
    let g := { g with scrinfo := device.fb.scrinfo }
    if !device.fb.fscreeninfo then some g
    else if !device.fb.mmap then some g
    else some { g with fbmmap := true, screenformat := device.fb.format, initialised := true }

def Globals.select (m : Method) (g : Globals) : Globals :=
  if g.initialised then { g with method := m } else g

/-- `initGrabberMethod`. Only the automatic choice looks at what the inits return. -/
def initGrabberMethod (device : Device) (g : Globals) : Option Globals :=
  match g.method with
  | .auto =>
    let g := (initFlinger device g).select .flinger
    if g.initialised then some g
    else
      let g := (initGralloc device g).select .gralloc
      if g.initialised then some g
      else (initFB device g).map (Globals.select .framebuffer)
  | .framebuffer => initFB device g
  | .gralloc => some (initGralloc device g)
  | .flinger => some (initFlinger device g)
  | .adb => some g

def probed (device : Device) (requested : Method) : Option Globals :=
  initGrabberMethod device { method := requested }

/-! ### Success of the probes -/

def Library.Works (firstFrame : Bool) (l : Library) : Prop :=
  l.dlopen ∧ l.initSym ∧ l.closeSym ∧ l.readfbSym ∧ l.getscreenformatSym ∧ l.init ≠ -1 ∧
    ¬ l.format.width ≤ 0 ∧ (firstFrame → l.firstRead)

def Framebuffer.Works (fb : Framebuffer) : Prop :=
  fb.opens ∧ fb.vscreeninfo ∧ fb.fscreeninfo ∧ fb.mmap

/-- The probe of the method succeeds; for the automatic choice, one of the three. -/
def Device.Works (device : Device) : Method → Prop
  | .flinger => ∃ k ∈ compiledSdks, (device.flinger k).Works true
  | .gralloc => ∃ k ∈ compiledSdks, (device.gralloc k).Works false
  | .framebuffer => device.fb.Works
  | .auto => (∃ k ∈ compiledSdks, (device.flinger k).Works true) ∨
      (∃ k ∈ compiledSdks, (device.gralloc k).Works false) ∨ device.fb.Works
  | .adb => False

/-- The reader points into the library that is loaded, and the format is that library's. -/
def Loaded.Reads (s : Loaded) (library : ℕ → Library) (fmt : ScreenFormat) : Prop :=
  ∃ k, s.lib = some k ∧ s.readfb = some k ∧ fmt = (library k).format

/-- The chosen method has been initialised, its reader is there, and the format is the one
that it reported. -/
def Globals.Live (device : Device) (g : Globals) : Prop :=
  g.initialised ∧ match g.method with
    | .flinger => g.flinger.Reads device.flinger g.screenformat
    | .gralloc => g.gralloc.Reads device.gralloc g.screenformat
    | .framebuffer => g.fbmmap ∧ g.screenformat = device.fb.format
    | .auto | .adb => False

theorem tryLibrary_of_works {firstFrame : Bool} {k : ℕ} {l : Library} (h : l.Works firstFrame)
    (s : Loaded) (fmt : ScreenFormat) :
    tryLibrary firstFrame k l s fmt =
      ⟨⟨some k, some k, some k, some k⟩, l.format, true⟩ := by
  obtain ⟨hopen, hinit, hclose, hread, hformat, hrv, hwidth, hfirst⟩ := h
  have hframe : (firstFrame && !l.firstRead) = false := by
    cases firstFrame with
    | false => rfl
    | true => simp [hfirst rfl]
  unfold tryLibrary
  simp only [hopen, hinit, hclose, hread, hformat, hframe, Bool.not_true, Bool.false_eq_true,
    if_false, if_true, if_neg hrv, if_neg hwidth]

/-- A library is taken only if it passes every check; the checks come in this order. -/
theorem works_of_tryLibrary_ok {firstFrame : Bool} {k : ℕ} {l : Library} {s : Loaded}
    {fmt : ScreenFormat} (h : (tryLibrary firstFrame k l s fmt).ok) : l.Works firstFrame := by
  revert h
  unfold tryLibrary Library.Works
  cases l.dlopen
  · simp
  cases l.initSym
  · simp
  cases l.closeSym
  · simp
  cases l.readfbSym
  · simp
  cases l.getscreenformatSym
  · simp
  simp only [Bool.not_true, Bool.false_eq_true, if_false]
  split_ifs with hrv hwidth hframe
  · simp
  · simp
  · simp
  · refine fun _ => ⟨trivial, trivial, trivial, trivial, trivial, hrv, hwidth, fun hf => ?_⟩
    simpa [hf] using hframe

theorem initLibrary_ok_iff (firstFrame : Bool) (library : ℕ → Library) (l : List ℕ) (s : Loaded)
    (fmt : ScreenFormat) :
    (initLibrary firstFrame library l s fmt).ok ↔ ∃ k ∈ l, (library k).Works firstFrame := by
  induction l generalizing s fmt with
  | nil => simp [initLibrary]
  | cons k l ih =>
    rw [initLibrary, List.exists_mem_cons_iff]
    split_ifs with hk
    · exact iff_of_true hk (Or.inl (works_of_tryLibrary_ok hk))
    · have hfails : ¬ (library k).Works firstFrame := by
        intro hworks
        rw [tryLibrary_of_works hworks] at hk
        exact hk rfl
      rw [ih, or_iff_right hfails]

theorem initLibrary_reads {firstFrame : Bool} {library : ℕ → Library} {l : List ℕ} {s : Loaded}
    {fmt : ScreenFormat} (h : (initLibrary firstFrame library l s fmt).ok) :
    (initLibrary firstFrame library l s fmt).loaded.Reads library
      (initLibrary firstFrame library l s fmt).screenformat := by
  induction l generalizing s fmt with
  | nil => simp [initLibrary] at h
  | cons k l ih =>
    rw [initLibrary] at h ⊢
    split_ifs at h ⊢ with hk
    · rw [tryLibrary_of_works (works_of_tryLibrary_ok hk)]
      exact ⟨k, rfl, rfl, rfl⟩
    · exact ih h

theorem initFlinger_initialised_iff (device : Device) (g : Globals) :
    (initFlinger device g).initialised ↔ device.Works .flinger :=
  initLibrary_ok_iff true device.flinger compiledSdks g.flinger g.screenformat

theorem initGralloc_initialised_iff (device : Device) (g : Globals) :
    (initGralloc device g).initialised ↔ device.Works .gralloc :=
  initLibrary_ok_iff false device.gralloc compiledSdks g.gralloc g.screenformat

/-- A method that is set only after success is as live as if it were set anyway. -/
theorem live_select_iff (device : Device) (g : Globals) (m : Method) :
    (g.select m).Live device ↔ ({ g with method := m } : Globals).Live device := by
  unfold Globals.select
  split_ifs with h
  · exact Iff.rfl
  · exact iff_of_false (fun hl => h hl.1) fun hl => h hl.1

theorem select_initialised (g : Globals) (m : Method) :
    (g.select m).initialised = g.initialised := by
  unfold Globals.select
  split_ifs <;> rfl

theorem live_flinger_iff (device : Device) (g : Globals) :
    ({ initFlinger device g with method := .flinger } : Globals).Live device ↔
      device.Works .flinger := by
  rw [← initFlinger_initialised_iff device g]
  exact and_iff_left_of_imp fun h => initLibrary_reads h

theorem live_gralloc_iff (device : Device) (g : Globals) :
    ({ initGralloc device g with method := .gralloc } : Globals).Live device ↔
      device.Works .gralloc := by
  rw [← initGralloc_initialised_iff device g]
  exact and_iff_left_of_imp fun h => initLibrary_reads h

theorem initFB_method {device : Device} {g g' : Globals} (h : initFB device g = some g') :
    g'.method = g.method := by
  unfold initFB at h
  split_ifs at h <;> cases h <;> rfl

theorem live_framebuffer_iff {device : Device} {g g' : Globals} (h : initFB device g = some g') :
    ({ g' with method := .framebuffer } : Globals).Live device ↔ device.Works .framebuffer := by
  unfold initFB at h
  unfold Globals.Live Device.Works Framebuffer.Works
  split_ifs at h <;> cases h <;> simp_all

/-- After start-up the chosen grabber is live exactly when the probe of the requested
method succeeds. -/
theorem live_probed_iff {device : Device} {requested : Method} {g : Globals}
    (h : probed device requested = some g) : g.Live device ↔ device.Works requested := by
  unfold probed initGrabberMethod at h
  cases requested with
  | flinger =>
    obtain rfl := Option.some.inj h
    exact live_flinger_iff device _
  | gralloc =>
    obtain rfl := Option.some.inj h
    exact live_gralloc_iff device _
  | adb =>
    obtain rfl := Option.some.inj h
    exact iff_of_false (fun hl => absurd hl.1 (by decide)) id
  | framebuffer =>
    have hmethod : g.method = .framebuffer := initFB_method h
    have hself : { g with method := .framebuffer } = g := by rw [← hmethod]
    exact hself ▸ live_framebuffer_iff h
  | auto =>
    simp only [select_initialised] at h
    by_cases hf : device.Works .flinger
    · rw [if_pos ((initFlinger_initialised_iff device _).mpr hf)] at h
      obtain rfl := Option.some.inj h
      rw [live_select_iff, live_flinger_iff]
      exact iff_of_true hf (Or.inl hf)
    · rw [if_neg (mt (initFlinger_initialised_iff device _).mp hf)] at h
      by_cases hg : device.Works .gralloc
      · rw [if_pos ((initGralloc_initialised_iff device _).mpr hg)] at h
        obtain rfl := Option.some.inj h
        rw [live_select_iff, live_gralloc_iff]
        exact iff_of_true hg (Or.inr (Or.inl hg))
      · rw [if_neg (mt (initGralloc_initialised_iff device _).mp hg)] at h
        obtain ⟨g', hfb, rfl⟩ := Option.map_eq_some_iff.mp h
        rw [live_select_iff, live_framebuffer_iff hfb]
        exact ((or_iff_right hf).trans (or_iff_right hg)).symm

end DroidVnc.Grabber
