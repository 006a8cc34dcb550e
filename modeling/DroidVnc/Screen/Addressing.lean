import DroidVnc.Screen.Run

/-! Every index that `update_screen` uses stays in its memory. For `cmpbuf` and
for the frames of a buffer this follows from the geometry alone. A frame of the
framebuffer device is addressed by an offset computed in unsigned 32-bit
arithmetic and stored in an `int`: there the offset of the last visible pixel
must be below `2 ^ 31`. -/

namespace DroidVnc

variable {fmt : ScreenFormat}

/-! ### Offsets into the framebuffer -/

/-- The offset of source pixel `p` in the framebuffer, without any bound. -/
def FbVarScreeninfo.offset (scrinfo : FbVarScreeninfo) (p : ℤ × ℤ) : ℤ :=
  (p.2 + scrinfo.yoffset.toNat) * scrinfo.xresVirtual.toNat + p.1 + scrinfo.xoffset.toNat

theorem pixelToVirtualPixelFb_eq_bmod (scrinfo : FbVarScreeninfo) (p : ℤ × ℤ) :
    pixelToVirtualPixelFb scrinfo p.1 p.2 = (scrinfo.offset p).bmod (2 ^ 32) := by
  have hx : ∀ x : BitVec 32, x = BitVec.ofInt 32 x.toNat := by simp
  rw [← BitVec.toInt_ofInt, pixelToVirtualPixelFb, FbVarScreeninfo.offset]
  congr 1
  rw [BitVec.ofInt_add, BitVec.ofInt_add, BitVec.ofInt_mul, BitVec.ofInt_add, ← hx, ← hx, ← hx]

/-- What the driver may report: the visible area is that of the format and lies
within the `xv` by `yv` cells of the framebuffer. -/
structure FbVarScreeninfo.Reported (fmt : ScreenFormat) (xv yv : ℕ) (scrinfo : FbVarScreeninfo) :
    Prop where
  xres : (scrinfo.xres.toNat : ℤ) = fmt.sw
  yres : (scrinfo.yres.toNat : ℤ) = fmt.sh
  xresVirtual : scrinfo.xresVirtual.toNat = xv
  yresVirtual : scrinfo.yresVirtual.toNat = yv
  xoffset : scrinfo.xoffset.toNat + scrinfo.xres.toNat ≤ xv
  yoffset : scrinfo.yoffset.toNat + scrinfo.yres.toNat ≤ yv

section Offset

variable {scrinfo : FbVarScreeninfo} {xv yv : ℕ} {p : ℤ × ℤ}

theorem offset_bounds (h : scrinfo.Reported fmt xv yv) (hp : Grid.Inside fmt.sw fmt.sh p) :
    0 ≤ scrinfo.offset p ∧ scrinfo.offset p < (xv : ℤ) * yv := by
  obtain ⟨⟨hi, hiw⟩, hj, hjh⟩ := hp
  have hx := h.xoffset
  have hy := h.yoffset
  have hsw := h.xres
  have hsh := h.yres
  have hcell : Grid.Inside xv yv (p.1 + scrinfo.xoffset.toNat, p.2 + scrinfo.yoffset.toNat) := by
    simp only [Grid.Inside]
    omega
  have hindex : scrinfo.offset p =
      Grid.index xv (p.1 + scrinfo.xoffset.toNat, p.2 + scrinfo.yoffset.toNat) := by
    simp only [FbVarScreeninfo.offset, Grid.index, h.xresVirtual]
    ring
  rw [hindex]
  exact ⟨Grid.index_nonneg hcell, Grid.index_lt hcell⟩

/-- The last visible pixel has the largest offset. -/
theorem offset_le_last (scrinfo : FbVarScreeninfo) (hp : Grid.Inside fmt.sw fmt.sh p) :
    scrinfo.offset p ≤ scrinfo.offset (fmt.sw - 1, fmt.sh - 1) := by
  obtain ⟨⟨-, hiw⟩, -, hjh⟩ := hp
  have hrow : (p.2 + scrinfo.yoffset.toNat) * scrinfo.xresVirtual.toNat ≤
      (fmt.sh - 1 + scrinfo.yoffset.toNat) * scrinfo.xresVirtual.toNat :=
    mul_le_mul_of_nonneg_right (by omega) (by omega)
  simp only [FbVarScreeninfo.offset]
  omega

/-- Below `2 ^ 31` the index is the offset, up to `2 ^ 32` it is negative. -/
theorem pixelToVirtualPixelFb_nonneg_iff (h0 : 0 ≤ scrinfo.offset p)
    (h32 : scrinfo.offset p < 2 ^ 32) :
    0 ≤ pixelToVirtualPixelFb scrinfo p.1 p.2 ↔ scrinfo.offset p < 2 ^ 31 := by
  rw [pixelToVirtualPixelFb_eq_bmod, Int.bmod_def, Int.emod_eq_of_lt h0 (by omega)]
  split_ifs <;> omega

theorem pixelToVirtualPixelFb_eq (h0 : 0 ≤ scrinfo.offset p) (h : scrinfo.offset p < 2 ^ 31) :
    pixelToVirtualPixelFb scrinfo p.1 p.2 = scrinfo.offset p := by
  rw [pixelToVirtualPixelFb_eq_bmod, Int.bmod_def, Int.emod_eq_of_lt h0 (by omega)]
  split_ifs <;> omega

end Offset

namespace Daemon

/-! ### Runs -/

/-- Every read of the framebuffer on the way reports a panning state that fits. -/
def Op.Reports (xv yv : ℕ) : Op fmt → Prop
  | .updateScreen (.framebuffer report _) => report.Reported fmt xv yv
  | _ => True

/-- All indices into the framebuffer that the next call uses lie in it. -/
def FramebufferSafe (xv yv : ℕ) (d : Daemon fmt) : Prop :=
  ∀ p ∈ d.scanned.loopNest.sites, 0 ≤ pixelToVirtualPixelFb d.scrinfo p.1 p.2 ∧
    pixelToVirtualPixelFb d.scrinfo p.1 p.2 < (xv : ℤ) * yv

variable {d : Daemon fmt} {xv yv : ℕ}

theorem inside_of_mem_sites (h : d.screen.Fits fmt) {p : ℤ × ℤ}
    (hp : p ∈ d.scanned.loopNest.sites) : Grid.Inside fmt.sw fmt.sh p := by
  rcases scanned_cases h with hs | hs
  · exact (mem_sites hs).mp hp
  · simp [hs] at hp

theorem dest_scanned_bounds (h : d.screen.Fits fmt) {p : ℤ × ℤ}
    (hp : p ∈ d.scanned.loopNest.sites) :
    0 ≤ d.scanned.loopNest.dest p ∧ d.scanned.loopNest.dest p < fmt.sw * fmt.sh := by
  rcases scanned_cases h with hs | hs
  · exact dest_bounds hs hp
  · simp [hs] at hp

theorem pixelToVirtualPixel_bounds {p : ℤ × ℤ} (hp : Grid.Inside fmt.sw fmt.sh p) :
    0 ≤ pixelToVirtualPixel fmt p.1 p.2 ∧ pixelToVirtualPixel fmt p.1 p.2 < fmt.sw * fmt.sh :=
  ⟨Grid.index_nonneg hp, Grid.index_lt hp⟩

theorem framebufferSafe_of_lt (h : d.screen.Fits fmt) (hr : d.scrinfo.Reported fmt xv yv)
    (hlast : d.scrinfo.offset (fmt.sw - 1, fmt.sh - 1) < 2 ^ 31) : d.FramebufferSafe xv yv := by
  intro p hp
  have hin := inside_of_mem_sites h hp
  obtain ⟨h0, hlt⟩ := offset_bounds hr hin
  have hle := offset_le_last d.scrinfo hin
  rw [pixelToVirtualPixelFb_eq h0 (by omega)]
  exact ⟨h0, hlt⟩

/-- In a framebuffer of at most `2 ^ 32` cells the condition is also necessary,
if the loops run at all. -/
theorem lt_of_framebufferSafe (h : d.screen.Fits fmt) (hr : d.scrinfo.Reported fmt xv yv)
    (hsize : (xv : ℤ) * yv ≤ 2 ^ 32) (hne : d.scanned.loopNest.sites ≠ [])
    (hsafe : d.FramebufferSafe xv yv) :
    d.scrinfo.offset (fmt.sw - 1, fmt.sh - 1) < 2 ^ 31 := by
  rcases scanned_cases h with hs | hs
  · obtain ⟨p, hp⟩ := List.exists_mem_of_ne_nil _ hne
    obtain ⟨⟨hi, hiw⟩, hj, hjh⟩ := (mem_sites hs).mp hp
    have hlast : Grid.Inside fmt.sw fmt.sh (fmt.sw - 1, fmt.sh - 1) := by
      simp only [Grid.Inside]
      omega
    obtain ⟨h0, hlt⟩ := offset_bounds hr hlast
    exact (pixelToVirtualPixelFb_nonneg_iff h0 (by omega)).mp
      (hsafe _ ((mem_sites hs).mpr hlast)).1
  · exact absurd hs hne

theorem reported_step {e : Daemon fmt} {op : Op fmt} (hop : op.Reports xv yv)
    (hr : d.scrinfo.Reported fmt xv yv) (h : d.step op = some e) :
    e.scrinfo.Reported fmt xv yv := by
  cases op with
  | updateScreen g =>
    rw [(updateScreen_frame h).2.2.2]
    cases g with
    | framebuffer report mem => exact hop
    | buffer mem => exact hr
  | _ => obtain rfl := Option.some.inj h; exact hr

/-- Between any two calls of a run the geometry fits, a call leaves it alone, and
the indices into `cmpbuf` and into the frame of a buffer are in range; those into
the framebuffer are when the offset of the last visible pixel fits an `int`, and
in a framebuffer of at most `2 ^ 32` cells only then. -/
theorem addressing_run (fmt : ScreenFormat) {o : Options} (ho : Upright o.rotation) {xv yv : ℕ}
    {scrinfo : FbVarScreeninfo} (hr : scrinfo.Reported fmt xv yv) {l : List (Op fmt)}
    (hl : ∀ op ∈ l, op.Valid ∧ op.Reports xv yv) {d : Daemon fmt}
    (hrun : runFrom fmt o scrinfo l = some d) :
    d.screen.Fits fmt ∧
    (∀ g e, d.updateScreen g = some e → e.screen = d.screen) ∧
    (∀ p ∈ d.scanned.loopNest.sites,
      (0 ≤ d.scanned.loopNest.dest p ∧ d.scanned.loopNest.dest p < fmt.sw * fmt.sh) ∧
      0 ≤ pixelToVirtualPixel fmt p.1 p.2 ∧ pixelToVirtualPixel fmt p.1 p.2 < fmt.sw * fmt.sh) ∧
    (d.scrinfo.offset (fmt.sw - 1, fmt.sh - 1) < 2 ^ 31 → d.FramebufferSafe xv yv) ∧
    ((xv : ℤ) * yv ≤ 2 ^ 32 → d.scanned.loopNest.sites ≠ [] → d.FramebufferSafe xv yv →
      d.scrinfo.offset (fmt.sw - 1, fmt.sh - 1) < 2 ^ 31) := by
  have hfits := (sound_runFrom ho (fun op hop => (hl op hop).1) hrun).fits
  have hrep : d.scrinfo.Reported fmt xv yv := by
    obtain ⟨-, -, hsteps⟩ := runFrom_eq_some.mp hrun
    exact Transition.run_invariant (V := Op.Reports xv yv)
      (J := fun d : Daemon fmt => d.scrinfo.Reported fmt xv yv)
      (fun _ _ _ hv hJ hs => reported_step hv hJ hs) (fun op hop => (hl op hop).2) hr hsteps
  refine ⟨hfits, fun g e he => (updateScreen_frame he).1, fun p hp => ?_,
    framebufferSafe_of_lt hfits hrep, lt_of_framebufferSafe hfits hrep⟩
  exact ⟨dest_scanned_bounds hfits hp, pixelToVirtualPixel_bounds (inside_of_mem_sites hfits hp)⟩

/-- A screen of 480 by 800 pixels of 8 bits on a framebuffer of 65536 by 40960
cells, panned to row `yoffset`. -/
def panned (yoffset : BitVec 32) : FbVarScreeninfo := ⟨480, 800, 65536, 40960, 0, yoffset⟩

def pannedOptions : Options := { rotation := 0, scaling := 100, displayRotate180 := false }

theorem runFrom_panned (yoffset : BitVec 32) :
    runFrom ⟨480, 800, 8⟩ pannedOptions (panned yoffset) [] =
      some (started ⟨480, 800, 8⟩ pannedOptions (panned yoffset)) :=
  runFrom_eq_some.mpr ⟨by decide, by decide, rfl⟩

theorem addressing_panned :
    (started ⟨480, 800, 8⟩ pannedOptions (panned 800)).FramebufferSafe 65536 40960 :=
  (addressing_run ⟨480, 800, 8⟩ (by decide) ⟨rfl, rfl, rfl, rfl, by decide, by decide⟩ (by simp)
    (runFrom_panned 800)).2.2.2.1 (by decide)

/-- Panned to row 40000 already the first index is negative. -/
theorem not_framebufferSafe_panned :
    (panned 40000).Reported ⟨480, 800, 8⟩ 65536 40960 ∧
      ¬ (started ⟨480, 800, 8⟩ pannedOptions (panned 40000)).FramebufferSafe 65536 40960 := by
  refine ⟨⟨rfl, rfl, rfl, rfl, by decide, by decide⟩, fun hsafe => ?_⟩
  have hfits : (Screen.init ⟨480, 800, 8⟩ 0).Fits ⟨480, 800, 8⟩ :=
    Screen.fits_init (by decide) (by decide)
  have hsite : ((0, 0) : ℤ × ℤ) ∈ (Screen.init ⟨480, 800, 8⟩ 0).loopNest.sites :=
    (mem_sites hfits).mpr (by decide)
  exact absurd (hsafe (0, 0) hsite).1 (by decide)

end Daemon

end DroidVnc
