import DroidVnc.Lib.Transition
import DroidVnc.Screen.UpdateScreen

/-! Runs of the daemon: any interleaving of screen copies, rotations, and clients
that come, go, choose encodings and are sent updates. Between any two calls the
orientation fits the format and the two buffers are equal; that `vncbuf` equals
`cmpbuf` is what lets the copy compare with the one and publish the other. -/

namespace DroidVnc

open Transition

namespace Daemon

variable {fmt : ScreenFormat}

inductive Op (fmt : ScreenFormat)
  | connect (picture : ℤ × ℤ → fmt.Pixel)
  | disconnect (c : ℕ)
  | setEncodings (c : ℕ) (newFBSize cursorShapes : Bool)
  | send (c : ℕ) (requested : Region) (background : fmt.Pixel)
  | rotate (value : ℤ)
  | updateScreen (g : Grab fmt.Pixel)

/-- `rotate` is called with `-1` or one of the four rotations. -/
def Op.Valid : Op fmt → Prop
  | .rotate value => Screen.RotateArg value
  | _ => True

def step (d : Daemon fmt) : Op fmt → Option (Daemon fmt)
  | .connect picture => some (d.connect picture)
  | .disconnect c => some (d.disconnect c)
  | .setEncodings c newFBSize cursorShapes => some (d.setEncodings c newFBSize cursorShapes)
  | .send c requested background => some (d.send c requested background)
  | .rotate value => some (d.rotate value)
  | .updateScreen g => d.updateScreen g

/-- The daemon after start-up and a list of calls. -/
def runFrom (fmt : ScreenFormat) (o : Options) (scrinfo : FbVarScreeninfo) (l : List (Op fmt)) :
    Option (Daemon fmt) :=
  (initVncServer fmt o scrinfo).bind fun d => run step d l

theorem runFrom_eq_some {o : Options} {scrinfo : FbVarScreeninfo} {l : List (Op fmt)}
    {d : Daemon fmt} :
    runFrom fmt o scrinfo l = some d ↔
      fmt.sw * fmt.sh < 2 ^ 31 ∧ fmt.Supported ∧ run step (started fmt o scrinfo) l = some d := by
  simp only [runFrom, Option.bind_eq_some_iff, initVncServer_eq_some]
  constructor
  · rintro ⟨_, ⟨ha, hf, rfl⟩, hrun⟩
    exact ⟨ha, hf, hrun⟩
  · rintro ⟨ha, hf, hrun⟩
    exact ⟨_, ⟨ha, hf, rfl⟩, hrun⟩

theorem settings_step {d e : Daemon fmt} {op : Op fmt} (h : d.step op = some e) :
    e.scaling = d.scaling ∧ e.displayRotate180 = d.displayRotate180 := by
  cases op with
  | updateScreen g =>
    obtain ⟨-, hs, hz, -⟩ := updateScreen_frame h
    exact ⟨hs, hz⟩
  | _ => obtain rfl := Option.some.inj h; exact ⟨rfl, rfl⟩

/-- What holds between any two calls. -/
structure Sound (d : Daemon fmt) : Prop where
  supported : fmt.Supported
  area_lt : fmt.sw * fmt.sh < 2 ^ 31
  fits : d.screen.Fits fmt
  buffers : d.vncbuf = d.cmpbuf

/-! ### The copy keeps the buffers equal -/

/-- With `-z` the loops of two rotations are missing; else the orientation the
loops work with fits the format. -/
theorem scanned_cases {d : Daemon fmt} (h : d.screen.Fits fmt) :
    d.scanned.Fits fmt ∨ d.scanned.loopNest.sites = [] := by
  unfold scanned
  split_ifs with hz
  · have hdims := h.dims
    rcases h.upright with hr | hr | hr | hr
    · exact Or.inl ⟨by simp [hr, Upright], by simpa [Screen.Turned, hr] using hdims, h.padded⟩
    · exact Or.inl ⟨by simp [hr, Upright], by simpa [Screen.Turned, hr] using hdims, h.padded⟩
    · exact Or.inr (by simp [hr, Screen.loopNest, LoopNest.sites, CompareStore.nest, Int.range])
    · exact Or.inr (by simp [hr, Screen.loopNest, LoopNest.sites, CompareStore.nest, Int.range])
  · exact Or.inl h

/-- `idle` stays set exactly when no source pixel has changed. -/
theorem idle_iff {d : Daemon fmt} (h : d.screen.Fits fmt) (g : Grab fmt.Pixel) :
    (d.scanResult g).2.2 = true ↔ d.changed g = [] := by
  rcases scanned_cases h with hs | hs
  · rw [scanResult, Screen.scan_snd hs, List.isEmpty_iff]
    rfl
  · simp [scanResult, changed, Screen.scan, Screen.changed, CompareStore.differing, hs, Found.init]

theorem scanResult_of_idle {d : Daemon fmt} (h : d.screen.Fits fmt) {g : Grab fmt.Pixel}
    (hi : (d.scanResult g).2.2 = true) : (d.scanResult g).1 = d.cmpbuf := by
  rw [scanResult, Screen.scan_of_changed_nil ((idle_iff h g).mp hi)]

theorem fits_of_change {d : Daemon fmt} (h : d.screen.Fits fmt) {g : Grab fmt.Pixel}
    (hc : d.changed g ≠ []) : d.scanned.Fits fmt := by
  rcases scanned_cases h with hs | hs
  · exact hs
  · exact absurd (by simp [changed, Screen.changed, CompareStore.differing, hs]) hc

theorem memcpy_frame (hf : fmt.Supported) {bits : ℤ} (hb : fmt.frameBits = some bits)
    (dst src : Mem fmt.Pixel) (k : ℤ) :
    memcpy dst src (fmt.bpp / 8) (bits / 8) k =
      if 0 ≤ k ∧ k < fmt.sw * fmt.sh then src k else dst k := by
  have hlt : fmt.sw * fmt.sh * fmt.bpp < 2 ^ 31 := by
    by_contra hlt
    simp [ScreenFormat.frameBits_of_le (not_lt.mp hlt)] at hb
  rw [ScreenFormat.frameBits_of_lt hf hlt, Option.some.injEq] at hb
  have hcond : (k + 1) * ((fmt.bpp : ℤ) / 8) ≤ bits / 8 ↔ k < fmt.sw * fmt.sh := by
    subst hb
    rcases hf with h | h | h <;> rw [h] <;> norm_num <;> omega
  simp only [memcpy, hcond]

/-- After a call that returns, both buffers are what the loops have made of `cmpbuf`. -/
theorem updateScreen_buffers {d d' : Daemon fmt} (hd : d.Sound) {g : Grab fmt.Pixel}
    (h : d.updateScreen g = some d') :
    d'.cmpbuf = (d.scanResult g).1 ∧ d'.vncbuf = (d.scanResult g).1 := by
  cases hi : (d.scanResult g).2.2 with
  | true =>
    obtain rfl := Option.some.inj ((updateScreen_idle hi).symm.trans h)
    exact ⟨rfl, hd.buffers.trans (scanResult_of_idle hd.fits hi).symm⟩
  | false =>
    obtain ⟨bits, hb, rfl⟩ := Option.map_eq_some_iff.mp ((updateScreen_change hi).symm.trans h)
    refine ⟨rfl, funext fun k => ?_⟩
    have hc : d.changed g ≠ [] := fun hc => by simp [(idle_iff hd.fits g).mpr hc] at hi
    have hs := fits_of_change hd.fits hc
    simp only [memcpy_frame hd.supported hb]
    split_ifs with hk
    · rfl
    · rw [hd.buffers, scanResult, Screen.scan_fst_outside hs hk]

/-! ### Every call keeps the invariant -/

theorem sound_started (hf : fmt.Supported) (ha : fmt.sw * fmt.sh < 2 ^ 31) {o : Options}
    (ho : Upright o.rotation) (scrinfo : FbVarScreeninfo) : (started fmt o scrinfo).Sound :=
  ⟨hf, ha, Screen.fits_init hf ho, rfl⟩

theorem sound_step {d d' : Daemon fmt} {op : Op fmt} (hop : op.Valid) (hd : d.Sound)
    (h : d.step op = some d') : d'.Sound := by
  cases op with
  | connect picture => obtain rfl := Option.some.inj h; exact ⟨hd.1, hd.2, hd.3, hd.4⟩
  | disconnect c => obtain rfl := Option.some.inj h; exact ⟨hd.1, hd.2, hd.3, hd.4⟩
  | setEncodings c b shapes => obtain rfl := Option.some.inj h; exact ⟨hd.1, hd.2, hd.3, hd.4⟩
  | send c r background => obtain rfl := Option.some.inj h; exact ⟨hd.1, hd.2, hd.3, hd.4⟩
  | rotate value =>
    obtain rfl := Option.some.inj h
    exact ⟨hd.supported, hd.area_lt, hd.fits.rotate hop, hd.buffers⟩
  | updateScreen g =>
    obtain ⟨hcmp, hvnc⟩ := updateScreen_buffers hd h
    exact ⟨hd.supported, hd.area_lt, (updateScreen_frame h).1 ▸ hd.fits, hvnc.trans hcmp.symm⟩

theorem sound_runFrom {o : Options} (ho : Upright o.rotation) {scrinfo : FbVarScreeninfo}
    {l : List (Op fmt)} (hl : ∀ op ∈ l, op.Valid) {d : Daemon fmt}
    (h : runFrom fmt o scrinfo l = some d) : d.Sound := by
  obtain ⟨ha, hf, hrun⟩ := runFrom_eq_some.mp h
  exact run_invariant (fun _ _ _ hv hJ hs => sound_step hv hJ hs) hl
    (sound_started hf ha ho scrinfo) hrun

/-- What a client shows before it is sent anything. -/
def blank : ℤ × ℤ → fmt.Pixel := fun _ => 0

/-- A screen of 480 by 800 pixels of 16 bits, just started. -/
def portrait (rotation : ℕ) (scaling : ℤ) : Daemon ⟨480, 800, 16⟩ :=
  started ⟨480, 800, 16⟩ { rotation, scaling, displayRotate180 := false }
    ⟨480, 800, 480, 1600, 0, 0⟩

theorem initVncServer_portrait (rotation : ℕ) (scaling : ℤ) :
    initVncServer ⟨480, 800, 16⟩ { rotation, scaling, displayRotate180 := false }
      ⟨480, 800, 480, 1600, 0, 0⟩ = some (portrait rotation scaling) :=
  initVncServer_eq_some.mpr ⟨by decide, by decide, rfl⟩

end Daemon

end DroidVnc
