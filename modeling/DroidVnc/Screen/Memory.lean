import DroidVnc.Screen.Addressing

/-! The frames of a run and the memory they are read from. A frame has addresses of its
own: rows of the visible width in a buffer, the page that the driver reports in the
framebuffer. The screen copy reads by its macros instead, and a read outside of the
memory ends the process. The two agree where the page that the call addresses is within
the reach of an `int` and holds the frame. -/

namespace DroidVnc

variable {fmt : ScreenFormat} {α : Type}

/-- Pixel `p` of the frame, at its own address. -/
def Grab.frame (fmt : ScreenFormat) (g : Grab α) (p : ℤ × ℤ) : α :=
  match g with
  | framebuffer report mem => mem (report.offset p)
  | buffer mem => mem (p.2 * fmt.sw + p.1)

/-- The panning state `scrinfo`, which the call addresses with, selects a page whose
offsets fit an `int` and whose pixels are those of the frame. -/
def Grab.Addressed (fmt : ScreenFormat) (scrinfo : FbVarScreeninfo) : Grab α → Prop
  | framebuffer report mem => ∀ p, Grid.Inside fmt.sw fmt.sh p →
      scrinfo.offset p < 2 ^ 31 ∧ mem (scrinfo.offset p) = mem (report.offset p)
  | buffer _ => True

/-- The memory that a run reads its frames from: the framebuffer with its `xv` by `yv`
cells, or buffers of the size of the screen. -/
inductive FrameMemory
  | framebuffer (xv yv : ℕ)
  | buffers

namespace FrameMemory

def cells (fmt : ScreenFormat) : FrameMemory → ℤ
  | framebuffer xv yv => xv * yv
  | buffers => fmt.sw * fmt.sh

/-- The framebuffer has at most `2 ^ 32` cells, as it must to be mapped by a process
with 32-bit addresses. -/
def Small : FrameMemory → Prop
  | framebuffer xv yv => (xv : ℤ) * yv ≤ 2 ^ 32
  | buffers => True

/-- The panning state between two calls is one that the driver may report. -/
def Reported (fmt : ScreenFormat) (scrinfo : FbVarScreeninfo) : FrameMemory → Prop
  | framebuffer xv yv => scrinfo.Reported fmt xv yv
  | buffers => True

def Yields (fmt : ScreenFormat) : FrameMemory → Grab α → Prop
  | framebuffer xv yv, .framebuffer report _ => report.Reported fmt xv yv
  | buffers, .buffer _ => True
  | _, _ => False

end FrameMemory

section Reads

variable {m : FrameMemory} {scrinfo : FbVarScreeninfo} {g : Grab α} {p : ℤ × ℤ}

/-- The macro's index for pixel `p` lies in the memory. -/
def Grab.InMemory (fmt : ScreenFormat) (m : FrameMemory) (scrinfo : FbVarScreeninfo) (g : Grab α)
    (p : ℤ × ℤ) : Prop :=
  0 ≤ g.pixelToVirtual fmt scrinfo p.1 p.2 ∧ g.pixelToVirtual fmt scrinfo p.1 p.2 < m.cells fmt

instance (m : FrameMemory) (scrinfo : FbVarScreeninfo) (g : Grab α) (p : ℤ × ℤ) :
    Decidable (g.InMemory fmt m scrinfo p) := inferInstanceAs (Decidable (_ ∧ _))

/-- Where the frame is addressed rightly it is read rightly. -/
theorem reads_of_addressed (hr : m.Reported fmt scrinfo) (hg : m.Yields fmt g)
    (h : g.Addressed fmt scrinfo) (hp : Grid.Inside fmt.sw fmt.sh p) :
    g.InMemory fmt m scrinfo p ∧ g.pixel fmt scrinfo p = g.frame fmt p := by
  cases m with
  | framebuffer xv yv =>
    cases g with
    | framebuffer report mem =>
      obtain ⟨h0, hlt⟩ := offset_bounds hr hp
      obtain ⟨h31, hmem⟩ := h p hp
      have hindex := pixelToVirtualPixelFb_eq h0 h31
      refine ⟨?_, ?_⟩
      · simp only [Grab.InMemory, Grab.pixelToVirtual, hindex]
        exact ⟨h0, hlt⟩
      · simp only [Grab.pixel, Grab.mem, Grab.pixelToVirtual, hindex]
        exact hmem
    | buffer mem => exact hg.elim
  | buffers =>
    cases g with
    | framebuffer report mem => exact hg.elim
    | buffer mem => exact ⟨⟨Grid.index_nonneg hp, Grid.index_lt hp⟩, rfl⟩

/-- In a framebuffer of at most `2 ^ 32` cells an index in the memory is the offset. -/
theorem offset_lt_of_inMemory {xv yv : ℕ} {report : FbVarScreeninfo} {mem : Mem α}
    (hm : (FrameMemory.framebuffer xv yv).Small) (hr : scrinfo.Reported fmt xv yv)
    (h : (Grab.framebuffer report mem).InMemory fmt (.framebuffer xv yv) scrinfo p)
    (hp : Grid.Inside fmt.sw fmt.sh p) : scrinfo.offset p < 2 ^ 31 := by
  obtain ⟨h0, hlt⟩ := offset_bounds hr hp
  exact (pixelToVirtualPixelFb_nonneg_iff h0 (hlt.trans_le hm)).mp h.1

theorem addressed_of_reads (hm : m.Small) (hr : m.Reported fmt scrinfo) (hg : m.Yields fmt g)
    (h : ∀ p, Grid.Inside fmt.sw fmt.sh p → g.InMemory fmt m scrinfo p)
    (hf : ∀ p, Grid.Inside fmt.sw fmt.sh p → g.pixel fmt scrinfo p = g.frame fmt p) :
    g.Addressed fmt scrinfo := by
  cases g with
  | framebuffer report mem =>
    cases m with
    | framebuffer xv yv =>
      intro p hp
      have h31 := offset_lt_of_inMemory hm hr (h p hp) hp
      have hpixel := hf p hp
      simp only [Grab.pixel, Grab.mem, Grab.pixelToVirtual, Grab.frame,
        pixelToVirtualPixelFb_eq (offset_bounds hr hp).1 h31] at hpixel
      exact ⟨h31, hpixel⟩
    | buffers => exact hg.elim
  | buffer mem => trivial

/-- A frame that is read by its own panning state is read rightly if it is read at all. -/
theorem addressed_own_of_inMemory (hm : m.Small) (hg : m.Yields fmt g)
    (h : ∀ p, Grid.Inside fmt.sw fmt.sh p → g.InMemory fmt m (g.scrinfo scrinfo) p) :
    g.Addressed fmt (g.scrinfo scrinfo) := by
  cases g with
  | framebuffer report mem =>
    cases m with
    | framebuffer xv yv => exact fun p hp => ⟨offset_lt_of_inMemory hm hg (h p hp) hp, rfl⟩
    | buffers => exact hg.elim
  | buffer mem => trivial

end Reads

namespace Daemon

/-! ### The copy on mapped memory -/

variable {m : FrameMemory} {g : Grab fmt.Pixel} {d e : Daemon fmt}

/-- All the reads of the loops are in the memory. -/
def ReadsMapped (m : FrameMemory) (g : Grab fmt.Pixel) (d : Daemon fmt) : Prop :=
  ∀ p ∈ d.scanned.loopNest.sites, g.InMemory fmt m d.scrinfo p

instance (m : FrameMemory) (g : Grab fmt.Pixel) (d : Daemon fmt) : Decidable (d.ReadsMapped m g) :=
  inferInstanceAs (Decidable (∀ p ∈ d.scanned.loopNest.sites, g.InMemory fmt m d.scrinfo p))

/-- `update_screen`, with no result where a read is outside of the memory. -/
def updateScreenMapped (m : FrameMemory) (g : Grab fmt.Pixel) (d : Daemon fmt) :
    Option (Daemon fmt) :=
  if d.ReadsMapped m g then d.updateScreen g else none

def mappedStep (m : FrameMemory) (d : Daemon fmt) : Op fmt → Option (Daemon fmt)
  | .updateScreen g => d.updateScreenMapped m g
  | op => d.step op

def mappedRunFrom (fmt : ScreenFormat) (o : Options) (scrinfo : FbVarScreeninfo) (m : FrameMemory)
    (l : List (Op fmt)) : Option (Daemon fmt) :=
  (initVncServer fmt o scrinfo).bind fun d => Transition.run (mappedStep m) d l

def Op.Yields (m : FrameMemory) : Op fmt → Prop
  | .updateScreen g => m.Yields fmt g
  | _ => True

theorem updateScreenMapped_eq_some :
    d.updateScreenMapped m g = some e ↔ d.ReadsMapped m g ∧ d.updateScreen g = some e := by
  unfold updateScreenMapped
  split_ifs with h
  · exact (and_iff_right h).symm
  · exact iff_of_false (by simp) fun hc => h hc.1

theorem readsMapped_iff (hs : d.scanned.Fits fmt) :
    d.ReadsMapped m g ↔ ∀ p, Grid.Inside fmt.sw fmt.sh p → g.InMemory fmt m d.scrinfo p :=
  forall_congr' fun _ => imp_congr_left (mem_sites hs)

theorem readsMapped_of_sites_nil (hs : d.scanned.loopNest.sites = []) : d.ReadsMapped m g := by
  intro p hp
  simp [hs] at hp

theorem step_of_mappedStep {op : Op fmt} (h : d.mappedStep m op = some e) :
    d.step op = some e := by
  cases op with
  | updateScreen g => exact (updateScreenMapped_eq_some.mp h).2
  | _ => exact h

/-- What holds between two calls on mapped memory. -/
structure Mapped (m : FrameMemory) (d : Daemon fmt) : Prop where
  sound : d.Sound
  reported : m.Reported fmt d.scrinfo

theorem mapped_step {op : Op fmt} (hop : op.Valid) (hm : op.Yields m) (hd : d.Mapped m)
    (h : d.step op = some e) : e.Mapped m := by
  refine ⟨sound_step hop hd.sound h, ?_⟩
  cases op with
  | updateScreen g =>
    rw [(updateScreen_frame h).2.2.2]
    cases g with
    | framebuffer report mem =>
      cases m with
      | framebuffer xv yv => exact hm
      | buffers => exact hm.elim
    | buffer mem => exact hd.reported
  | _ => obtain rfl := Option.some.inj h; exact hd.reported

/-- Every run on mapped memory ends in a sound state, with the settings it began with. -/
theorem mapped_runFrom {o : Options} (ho : Upright o.rotation) {scrinfo : FbVarScreeninfo}
    (hr : m.Reported fmt scrinfo) {l : List (Op fmt)} (hl : ∀ op ∈ l, op.Valid ∧ op.Yields m)
    (h : mappedRunFrom fmt o scrinfo m l = some d) :
    d.Mapped m ∧ d.displayRotate180 = o.displayRotate180 := by
  obtain ⟨d0, h0, hrun⟩ := Option.bind_eq_some_iff.mp h
  obtain ⟨ha, hf, rfl⟩ := initVncServer_eq_some.mp h0
  refine Transition.run_invariant (V := fun op : Op fmt => op.Valid ∧ op.Yields m)
    (J := fun d => d.Mapped m ∧ d.displayRotate180 = o.displayRotate180) ?_ hl
    ⟨⟨sound_started hf ha ho scrinfo, hr⟩, rfl⟩ hrun
  intro s op t hop hs hst
  have hstep := step_of_mappedStep hst
  exact ⟨mapped_step hop.1 hop.2 hs.1 hstep, (settings_step hstep).2.trans hs.2⟩

end Daemon

end DroidVnc
