import Mathlib.Data.BitVec
import DroidVnc.Screen.Image

/-! Which bytes of a frame `update_screen` reads. A frame of the framebuffer device
has a page, the one that the panning state selects, and every frame has a row pitch
that its grabber knows. The call addresses the page of the report before the one
that it asks for itself, and takes the pitch to be the row of visible or virtual
pixels; both are right exactly when the two pages, and the two pitches, agree. -/

namespace DroidVnc

variable {fmt : ScreenFormat}

/-! ### Pages of the framebuffer -/

/-- The offset of the first visible pixel, in the arithmetic of the driver's fields. -/
def FbVarScreeninfo.page (scrinfo : FbVarScreeninfo) : BitVec 32 :=
  scrinfo.yoffset * scrinfo.xresVirtual + scrinfo.xoffset

theorem pixelToVirtualPixelFb_eq_page (scrinfo : FbVarScreeninfo) (i j : ℤ) :
    pixelToVirtualPixelFb scrinfo i j =
      (BitVec.ofInt 32 j * scrinfo.xresVirtual + BitVec.ofInt 32 i + scrinfo.page).toInt := by
  rw [pixelToVirtualPixelFb, FbVarScreeninfo.page]
  congr 1
  ring

/-- With rows of one length, a pixel has the same index under two panning states
exactly when they select the same page. -/
theorem pixelToVirtualPixelFb_eq_iff {old new : FbVarScreeninfo}
    (hx : old.xresVirtual = new.xresVirtual) (i j : ℤ) :
    pixelToVirtualPixelFb old i j = pixelToVirtualPixelFb new i j ↔ old.page = new.page := by
  rw [pixelToVirtualPixelFb_eq_page, pixelToVirtualPixelFb_eq_page, BitVec.toInt_inj, hx,
    BitVec.add_right_inj]

theorem offset_nonneg (scrinfo : FbVarScreeninfo) {p : ℤ × ℤ}
    (hp : Grid.Inside fmt.sw fmt.sh p) : 0 ≤ scrinfo.offset p := by
  obtain ⟨⟨hi, -⟩, hj, -⟩ := hp
  have hrow : 0 ≤ (p.2 + scrinfo.yoffset.toNat) * (scrinfo.xresVirtual.toNat : ℤ) :=
    mul_nonneg (by omega) (by omega)
  unfold FbVarScreeninfo.offset
  omega

namespace Daemon

variable {d : Daemon fmt}

/-- The index that the call reads source pixel `p` at. -/
def frameIndex (g : Grab fmt.Pixel) (d : Daemon fmt) (p : ℤ × ℤ) : ℤ :=
  g.pixelToVirtual fmt d.scrinfo p.1 p.2

/-- The call reads every source pixel it visits from the page that the driver
reports during the call. -/
def ReadsFresh (report : FbVarScreeninfo) (mem : Mem fmt.Pixel) (d : Daemon fmt) : Prop :=
  ∀ p ∈ d.scanned.loopNest.sites, d.frameIndex (.framebuffer report mem) p = report.offset p

theorem last_mem_sites (h : d.screen.Fits fmt) (hne : d.scanned.loopNest.sites ≠ []) :
    (fmt.sw - 1, fmt.sh - 1) ∈ d.scanned.loopNest.sites := by
  rcases scanned_cases h with hs | hs
  · obtain ⟨p, hp⟩ := List.exists_mem_of_ne_nil _ hne
    obtain ⟨⟨hi, hiw⟩, hj, hjh⟩ := (mem_sites hs).mp hp
    apply (mem_sites hs).mpr
    simp only [Grid.Inside]
    omega
  · exact absurd hs hne

theorem readsFresh_iff (h : d.screen.Fits fmt) {report : FbVarScreeninfo}
    (hx : d.scrinfo.xresVirtual = report.xresVirtual) (mem : Mem fmt.Pixel) :
    d.ReadsFresh report mem ↔ (d.scanned.loopNest.sites ≠ [] →
      d.scrinfo.page = report.page ∧ report.offset (fmt.sw - 1, fmt.sh - 1) < 2 ^ 31) := by
  constructor
  · intro hfresh hne
    have hmem := last_mem_sites h hne
    have hlast := hfresh _ hmem
    simp only [frameIndex, Grab.pixelToVirtual] at hlast
    have hlt : report.offset (fmt.sw - 1, fmt.sh - 1) < 2 ^ 31 := by
      rw [← hlast, pixelToVirtualPixelFb]
      exact BitVec.toInt_lt
    refine ⟨(pixelToVirtualPixelFb_eq_iff hx (fmt.sw - 1) (fmt.sh - 1)).mp ?_, hlt⟩
    rw [hlast]
    exact (pixelToVirtualPixelFb_eq (offset_nonneg report (inside_of_mem_sites h hmem)) hlt).symm
  · intro hpage p hp
    obtain ⟨heq, hlt⟩ := hpage (List.ne_nil_of_mem hp)
    have hin := inside_of_mem_sites h hp
    have hle := offset_le_last report hin
    rw [frameIndex, Grab.pixelToVirtual, (pixelToVirtualPixelFb_eq_iff hx p.1 p.2).mpr heq]
    exact pixelToVirtualPixelFb_eq (offset_nonneg report hin) (by omega)

/-- The panning state after a call: a read of the framebuffer leaves its report. -/
def Op.report (scrinfo : FbVarScreeninfo) : Op fmt → FbVarScreeninfo
  | .updateScreen g => g.scrinfo scrinfo
  | _ => scrinfo

/-- The last report of the driver, the first of all being the one at initialisation. -/
def lastReport (scrinfo : FbVarScreeninfo) (l : List (Op fmt)) : FbVarScreeninfo :=
  l.foldl Op.report scrinfo

theorem scrinfo_step {e : Daemon fmt} {op : Op fmt} (h : d.step op = some e) :
    e.scrinfo = op.report d.scrinfo := by
  cases op with
  | updateScreen g => exact (updateScreen_frame h).2.2.2
  | _ => obtain rfl := Option.some.inj h; rfl

/-- Between two calls `scrinfo` is the last report. -/
theorem scrinfo_runFrom {o : Options} {scrinfo : FbVarScreeninfo} {l : List (Op fmt)}
    (hrun : runFrom fmt o scrinfo l = some d) : d.scrinfo = lastReport scrinfo l := by
  obtain ⟨-, -, hsteps⟩ := runFrom_eq_some.mp hrun
  refine Transition.run_induction (M := fun l (d : Daemon fmt) => d.scrinfo = lastReport scrinfo l)
    rfl ?_ hsteps
  intro l op s t _ ih hstep
  rw [scrinfo_step hstep, ih, lastReport, lastReport, List.foldl_concat]

def Op.KeepsRows (xv : BitVec 32) : Op fmt → Prop
  | .updateScreen (.framebuffer report _) => report.xresVirtual = xv
  | _ => True

theorem xresVirtual_lastReport {xv : BitVec 32} {scrinfo : FbVarScreeninfo}
    (hx : scrinfo.xresVirtual = xv) {l : List (Op fmt)} (hl : ∀ op ∈ l, op.KeepsRows xv) :
    (lastReport scrinfo l).xresVirtual = xv := by
  induction l generalizing scrinfo with
  | nil => exact hx
  | cons op l ih =>
    have hop := hl op (by simp)
    refine ih ?_ fun op hmem => hl op (by simp [hmem])
    cases op with
    | updateScreen g =>
      cases g with
      | framebuffer report mem => exact hop
      | buffer mem => exact hx
    | _ => exact hx

/-- In every run a call reads the page reported during the call exactly when the
report before it selects the same page and the last pixel's offset fits an `int`. -/
theorem readsFresh_run (fmt : ScreenFormat) {o : Options} (ho : Upright o.rotation)
    {xv : BitVec 32} {scrinfo : FbVarScreeninfo} (hx : scrinfo.xresVirtual = xv)
    {l : List (Op fmt)} (hl : ∀ op ∈ l, op.Valid ∧ op.KeepsRows xv) {d : Daemon fmt}
    (hrun : runFrom fmt o scrinfo l = some d) {report : FbVarScreeninfo}
    (hr : report.xresVirtual = xv) (mem : Mem fmt.Pixel) :
    d.ReadsFresh report mem ↔ (d.scanned.loopNest.sites ≠ [] →
      (lastReport scrinfo l).page = report.page ∧
        report.offset (fmt.sw - 1, fmt.sh - 1) < 2 ^ 31) := by
  have hlast := scrinfo_runFrom hrun
  have hrows := xresVirtual_lastReport hx fun op hop => (hl op hop).2
  rw [← hlast] at hrows ⊢
  exact readsFresh_iff (sound_runFrom ho (fun op hop => (hl op hop).1) hrun).fits
    (hrows.trans hr.symm) mem

/-- A double buffer of two pages of 480 by 800 pixels, panned to row `yoffset`. -/
def doubleBuffer (yoffset : BitVec 32) : FbVarScreeninfo := ⟨480, 800, 480, 1600, 0, yoffset⟩

/-- A server on the double buffer after one copy, made while the second page was shown. -/
theorem runFrom_doubleBuffer :
    ∃ d, runFrom ⟨480, 800, 16⟩ { rotation := 0, scaling := 100, displayRotate180 := false }
        (doubleBuffer 0) [.updateScreen (.framebuffer (doubleBuffer 800) fun _ => 0)] = some d :=
  (runFrom_defined (by decide) (by decide) (by decide) _ (by simp [Op.Valid])).imp fun _ h => h.1

theorem readsFresh_doubleBuffer :
    ∃ d, runFrom ⟨480, 800, 16⟩ { rotation := 0, scaling := 100, displayRotate180 := false }
        (doubleBuffer 0) [.updateScreen (.framebuffer (doubleBuffer 800) fun _ => 0)] = some d ∧
      d.ReadsFresh (doubleBuffer 800) fun _ => 0 := by
  obtain ⟨d, hrun⟩ := runFrom_doubleBuffer
  have hrows : (doubleBuffer 0).xresVirtual = 480 := rfl
  refine ⟨d, hrun, (readsFresh_run ⟨480, 800, 16⟩ (by decide) hrows ?_ hrun rfl _).mpr
    fun _ => ⟨rfl, by decide⟩⟩
  simp [Op.Valid, Op.KeepsRows, doubleBuffer]

/-- The first copy after the display has flipped reads the page that is not shown. -/
theorem not_readsFresh_doubleBuffer :
    ¬ (started ⟨480, 800, 16⟩ { rotation := 0, scaling := 100, displayRotate180 := false }
      (doubleBuffer 0)).ReadsFresh (doubleBuffer 800) fun _ => 0 := by
  intro hfresh
  have hfits : (Screen.init ⟨480, 800, 16⟩ 0).Fits ⟨480, 800, 16⟩ :=
    Screen.fits_init (by decide) (by decide)
  have hsite : ((0, 0) : ℤ × ℤ) ∈ (Screen.init ⟨480, 800, 16⟩ 0).loopNest.sites :=
    (mem_sites hfits).mpr (by decide)
  exact absurd (hfresh (0, 0) hsite) (by decide)

/-! ### Row pitch -/

variable {g : Grab fmt.Pixel}

/-- The bytes of a pixel, `screenformat.bitsPerPixel >> 3`. -/
def bytesPerPixel (fmt : ScreenFormat) : ℤ := fmt.bpp / 8

/-- The row pitch that `init_gralloc` gets to know: `alloc` returns the stride in
pixels, `stride *= (screenformat.bitsPerPixel >> 3)` turns it into bytes. -/
def grallocPitch (fmt : ScreenFormat) (stride : ℤ) : ℤ := stride * bytesPerPixel fmt

/-- The byte of the mapped memory that source pixel `p` is read at. -/
def byteRead (g : Grab fmt.Pixel) (d : Daemon fmt) (p : ℤ × ℤ) : ℤ :=
  d.frameIndex g p * bytesPerPixel fmt

/-- The byte at which memory with rows of `pitch` bytes holds source pixel `p`. -/
def byteHeld (pitch : ℤ) (d : Daemon fmt) (p : ℤ × ℤ) : Grab fmt.Pixel → ℤ
  | .framebuffer _ _ => (p.2 + d.scrinfo.yoffset.toNat) * pitch +
      (p.1 + d.scrinfo.xoffset.toNat) * bytesPerPixel fmt
  | .buffer _ => p.2 * pitch + p.1 * bytesPerPixel fmt

/-- The call reads every source pixel it visits where the memory holds it. -/
def ReadsAtPitch (g : Grab fmt.Pixel) (pitch : ℤ) (d : Daemon fmt) : Prop :=
  ∀ p ∈ d.scanned.loopNest.sites, d.byteRead g p = d.byteHeld pitch p g

theorem bytesPerPixel_pos (hf : fmt.Supported) : 0 < bytesPerPixel fmt := by
  unfold bytesPerPixel
  rcases hf with h | h | h <;> rw [h] <;> decide

/-- Two pitches place the pixels of a row alike exactly when they are equal or the
row is the first. -/
theorem row_eq_iff {row a b c : ℤ} : row * a + c = row * b + c ↔ row = 0 ∨ a = b := by
  rw [add_left_inj, mul_eq_mul_left_iff, or_comm]

theorem byteRead_buffer (mem : Mem fmt.Pixel) (p : ℤ × ℤ) :
    d.byteRead (.buffer mem) p =
      p.2 * (fmt.sw * bytesPerPixel fmt) + p.1 * bytesPerPixel fmt := by
  simp only [byteRead, frameIndex, Grab.pixelToVirtual, pixelToVirtualPixel]
  ring

/-- The frame of a buffer is read at its pitch exactly when the stride is the
width, or there is no second row. -/
theorem readsAtPitch_buffer_iff (hf : fmt.Supported) (h : d.screen.Fits fmt)
    (mem : Mem fmt.Pixel) (stride : ℤ) :
    d.ReadsAtPitch (.buffer mem) (grallocPitch fmt stride) ↔
      (d.scanned.loopNest.sites ≠ [] → stride = fmt.sw ∨ fmt.sh = 1) := by
  have hpos := bytesPerPixel_pos hf
  have hrow : ∀ p : ℤ × ℤ, d.byteRead (.buffer mem) p =
      d.byteHeld (grallocPitch fmt stride) p (.buffer mem) ↔ p.2 = 0 ∨ stride = fmt.sw := by
    intro p
    rw [byteRead_buffer, byteHeld, row_eq_iff, grallocPitch, mul_left_inj' hpos.ne',
      eq_comm (a := fmt.sw)]
  simp only [ReadsAtPitch, hrow]
  constructor
  · intro hall hne
    rcases hall _ (last_mem_sites h hne) with h0 | hs
    · exact Or.inr (by omega)
    · exact Or.inl hs
  · intro hcond p hp
    obtain ⟨-, hj, hjh⟩ := inside_of_mem_sites h hp
    rcases hcond (List.ne_nil_of_mem hp) with hs | h1
    · exact Or.inr hs
    · exact Or.inl (by omega)

/-- One pixel of the framebuffer. A pixel whose offset does not fit is read before
the place where the memory holds it. -/
theorem byteRead_framebuffer_iff (hf : fmt.Supported) (report : FbVarScreeninfo)
    (mem : Mem fmt.Pixel) {lineLength : ℤ}
    (hl : d.scrinfo.xresVirtual.toNat * bytesPerPixel fmt ≤ lineLength) {p : ℤ × ℤ}
    (hp : Grid.Inside fmt.sw fmt.sh p) :
    d.byteRead (.framebuffer report mem) p = d.byteHeld lineLength p (.framebuffer report mem) ↔
      d.scrinfo.offset p < 2 ^ 31 ∧ (p.2 + d.scrinfo.yoffset.toNat = 0 ∨
        d.scrinfo.xresVirtual.toNat * bytesPerPixel fmt = lineLength) := by
  have hpos := bytesPerPixel_pos hf
  have h0 := offset_nonneg d.scrinfo hp
  have hrow : (0 : ℤ) ≤ p.2 + d.scrinfo.yoffset.toNat := by
    have := hp.2.1
    omega
  have hoffset : d.scrinfo.offset p * bytesPerPixel fmt =
      (p.2 + d.scrinfo.yoffset.toNat) * (d.scrinfo.xresVirtual.toNat * bytesPerPixel fmt) +
        (p.1 + d.scrinfo.xoffset.toNat) * bytesPerPixel fmt := by
    unfold FbVarScreeninfo.offset
    ring
  simp only [byteRead, frameIndex, Grab.pixelToVirtual, byteHeld]
  by_cases hlt : d.scrinfo.offset p < 2 ^ 31
  · rw [pixelToVirtualPixelFb_eq h0 hlt, hoffset, row_eq_iff, and_iff_right hlt]
  · have hindex : pixelToVirtualPixelFb d.scrinfo p.1 p.2 < d.scrinfo.offset p := by
      have hmax : pixelToVirtualPixelFb d.scrinfo p.1 p.2 < 2 ^ 31 := BitVec.toInt_lt
      omega
    have hbyte := mul_lt_mul_of_pos_right hindex hpos
    have hheld := mul_le_mul_of_nonneg_left hl hrow
    constructor
    · intro heq
      omega
    · intro hc
      exact absurd hc.1 hlt

/-- A frame of the framebuffer is read at its pitch exactly when its rows have no
padding, or only the first row of the memory is visible, and the last pixel's
offset fits an `int`. -/
theorem readsAtPitch_framebuffer_iff (hf : fmt.Supported) (h : d.screen.Fits fmt)
    (report : FbVarScreeninfo) (mem : Mem fmt.Pixel) {lineLength : ℤ}
    (hl : d.scrinfo.xresVirtual.toNat * bytesPerPixel fmt ≤ lineLength) :
    d.ReadsAtPitch (.framebuffer report mem) lineLength ↔
      (d.scanned.loopNest.sites ≠ [] →
        d.scrinfo.offset (fmt.sw - 1, fmt.sh - 1) < 2 ^ 31 ∧
          (lineLength = d.scrinfo.xresVirtual.toNat * bytesPerPixel fmt ∨
            fmt.sh = 1 ∧ d.scrinfo.yoffset.toNat = 0)) := by
  constructor
  · intro hall hne
    have hmem := last_mem_sites h hne
    have hin := inside_of_mem_sites h hmem
    obtain ⟨hlt, hrow⟩ := (byteRead_framebuffer_iff hf report mem hl hin).mp (hall _ hmem)
    have hsh := hin.2.1
    refine ⟨hlt, ?_⟩
    rcases hrow with hrow | hpitch
    · dsimp only at hrow hsh
      exact Or.inr (by omega)
    · exact Or.inl hpitch.symm
  · intro hcond p hp
    have hin := inside_of_mem_sites h hp
    obtain ⟨hlt, hpitch⟩ := hcond (List.ne_nil_of_mem hp)
    have hle := offset_le_last d.scrinfo hin
    refine (byteRead_framebuffer_iff hf report mem hl hin).mpr ⟨by omega, ?_⟩
    rcases hpitch with hpitch | ⟨h1, hy⟩
    · exact Or.inr hpitch.symm
    · obtain ⟨-, hj, hjh⟩ := hin
      exact Or.inl (by omega)

/-- In every state that a run reaches, a call reads each pixel at the pitch of its
memory exactly when the pitch is the one that the addressing takes it to be, or a
single row makes it irrelevant. -/
theorem readsAtPitch_run (fmt : ScreenFormat) {o : Options} (ho : Upright o.rotation)
    {scrinfo : FbVarScreeninfo} {l : List (Op fmt)} (hl : ∀ op ∈ l, op.Valid) {d : Daemon fmt}
    (hrun : runFrom fmt o scrinfo l = some d) :
    (∀ mem (stride : ℤ), fmt.sw ≤ stride →
      (d.ReadsAtPitch (.buffer mem) (grallocPitch fmt stride) ↔
        (d.scanned.loopNest.sites ≠ [] → stride = fmt.sw ∨ fmt.sh = 1))) ∧
    ∀ report mem (lineLength : ℤ), d.scrinfo.xresVirtual.toNat * bytesPerPixel fmt ≤ lineLength →
      (d.ReadsAtPitch (.framebuffer report mem) lineLength ↔
        (d.scanned.loopNest.sites ≠ [] →
          d.scrinfo.offset (fmt.sw - 1, fmt.sh - 1) < 2 ^ 31 ∧
            (lineLength = d.scrinfo.xresVirtual.toNat * bytesPerPixel fmt ∨
              fmt.sh = 1 ∧ d.scrinfo.yoffset.toNat = 0))) := by
  have hd := sound_runFrom ho hl hrun
  exact ⟨fun mem stride _ => readsAtPitch_buffer_iff hd.supported hd.fits mem stride,
    fun report mem _ hle => readsAtPitch_framebuffer_iff hd.supported hd.fits report mem hle⟩

/-- A server on a display of 540 by 960 pixels, just started. -/
def qhd : Daemon ⟨540, 960, 16⟩ :=
  started ⟨540, 960, 16⟩ { rotation := 0, scaling := 100, displayRotate180 := false }
    ⟨540, 960, 544, 1920, 0, 0⟩

theorem readsAtPitch_qhd :
    qhd.ReadsAtPitch (.framebuffer qhd.scrinfo fun _ => 0) 1088 := by
  have hrun : runFrom ⟨540, 960, 16⟩ { rotation := 0, scaling := 100, displayRotate180 := false }
      ⟨540, 960, 544, 1920, 0, 0⟩ [] = some qhd := runFrom_eq_some.mpr ⟨by decide, by decide, rfl⟩
  refine ((readsAtPitch_run ⟨540, 960, 16⟩ (by decide) (by simp) hrun).2 _ _ 1088 ?_).mpr ?_
  · decide
  · exact fun _ => ⟨by decide, Or.inl (by decide)⟩

/-- A buffer whose rows are padded to 544 pixels is read skewed from the second row on. -/
theorem not_readsAtPitch_qhd :
    ¬ qhd.ReadsAtPitch (.buffer fun _ => 0) (grallocPitch ⟨540, 960, 16⟩ 544) := by
  intro hall
  have hfits : (Screen.init ⟨540, 960, 16⟩ 0).Fits ⟨540, 960, 16⟩ :=
    Screen.fits_init (by decide) (by decide)
  have hsite : ((0, 1) : ℤ × ℤ) ∈ (Screen.init ⟨540, 960, 16⟩ 0).loopNest.sites :=
    (mem_sites hfits).mpr (by decide)
  exact absurd (hall (0, 1) hsite) (by decide)

end Daemon

end DroidVnc
