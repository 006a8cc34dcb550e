import DroidVnc.Screen.Memory

/-! What a client is shown: after `update_screen` both buffers hold the frame,
turned by the rotation. Two defects of the call are tied to their exact
conditions: the byte count of the `memcpy` is an `int` product, and with `-z`
the rotation is not reduced below 360 before it selects a loop nest. -/

namespace DroidVnc

variable {fmt : ScreenFormat}

/-- `m` holds the frame `b` turned by `rotation`, in rows of length `width`. -/
def HoldsFrame (fmt : ScreenFormat) (m : Mem fmt.Pixel) (width : ℤ) (rotation : ℕ)
    (b : ℤ × ℤ → fmt.Pixel) : Prop :=
  ∀ p, Grid.Inside fmt.sw fmt.sh p → m (Grid.index width (place rotation fmt.sw fmt.sh p)) = b p

theorem HoldsFrame.congr {m : Mem fmt.Pixel} {width : ℤ} {rotation : ℕ}
    {b b' : ℤ × ℤ → fmt.Pixel} (hb : ∀ p, Grid.Inside fmt.sw fmt.sh p → b p = b' p) :
    HoldsFrame fmt m width rotation b ↔ HoldsFrame fmt m width rotation b' :=
  forall₂_congr fun p hp => by rw [hb p hp]

theorem HoldsFrame.unique {m : Mem fmt.Pixel} {width : ℤ} {rotation : ℕ}
    {b b' : ℤ × ℤ → fmt.Pixel} (h : HoldsFrame fmt m width rotation b)
    (h' : HoldsFrame fmt m width rotation b') {p : ℤ × ℤ} (hp : Grid.Inside fmt.sw fmt.sh p) :
    b p = b' p := (h p hp).symm.trans (h' p hp)

theorem changed_eq_nil_iff {s : Screen} (h : s.Fits fmt) {a : Mem fmt.Pixel}
    {b : ℤ × ℤ → fmt.Pixel} :
    s.changed a b = [] ↔ HoldsFrame fmt a s.width s.rotation b := by
  constructor
  · intro hc p hp
    by_contra hne
    have hmem : p ∈ s.changed a b :=
      Screen.mem_changed.mpr ⟨(mem_sites h).mpr hp, by rwa [dest_eq_index h]⟩
    simp [hc] at hmem
  · intro hm
    apply List.eq_nil_iff_forall_not_mem.mpr
    intro p hp
    obtain ⟨hsite, hne⟩ := Screen.mem_changed.mp hp
    rw [dest_eq_index h] at hne
    exact hne (hm p ((mem_sites h).mp hsite))

namespace Daemon

/-- Both buffers show the frame `b` turned by `rotation`: every source pixel is
in its place on the screen, and there is nothing else on the screen. -/
structure Shows (d : Daemon fmt) (rotation : ℕ) (b : ℤ × ℤ → fmt.Pixel) : Prop where
  cmpbuf : HoldsFrame fmt d.cmpbuf d.screen.width rotation b
  vncbuf : HoldsFrame fmt d.vncbuf d.screen.width rotation b
  onScreen : ∀ p, Grid.Inside fmt.sw fmt.sh p →
    Grid.Inside d.screen.width d.screen.height (place rotation fmt.sw fmt.sh p)
  nothingElse : ∀ q, Grid.Inside d.screen.width d.screen.height q →
    ∃ p, Grid.Inside fmt.sw fmt.sh p ∧ place rotation fmt.sw fmt.sh p = q ∧ d.shown q = b p

variable {d e : Daemon fmt} {g : Grab fmt.Pixel}

/-- Buffers that hold the frame, turned by an orientation that fits, show it. -/
theorem shows_of_holdsFrame {s : Screen} (hs : s.Fits fmt) (hw : s.width = d.screen.width)
    (hh : s.height = d.screen.height) {b : ℤ × ℤ → fmt.Pixel}
    (hcmp : HoldsFrame fmt d.cmpbuf d.screen.width s.rotation b)
    (hvnc : HoldsFrame fmt d.vncbuf d.screen.width s.rotation b) : d.Shows s.rotation b := by
  refine ⟨hcmp, hvnc, fun p hp => hw ▸ hh ▸ inside_place hs hp, fun q hq => ?_⟩
  obtain ⟨p, hp, rfl⟩ := exists_place hs (hw ▸ hh ▸ hq)
  exact ⟨p, hp, rfl, hvnc p hp⟩

/-- A call whose loops run leaves the frame in both buffers, turned by the
orientation of the loops. -/
theorem updateScreen_shows (hd : d.Sound) (hs : d.scanned.Fits fmt)
    (h : d.updateScreen g = some e) : e.Shows d.scanned.rotation (g.pixel fmt d.scrinfo) := by
  obtain ⟨hcmp, hvnc⟩ := updateScreen_buffers hd h
  have hscreen := (updateScreen_frame h).1
  have hm : HoldsFrame fmt (d.scanResult g).1 e.screen.width d.scanned.rotation
      (g.pixel fmt d.scrinfo) := by
    intro p hp
    rw [hscreen, ← scanned_width]
    exact Screen.scan_fst_place hs hp
  exact shows_of_holdsFrame hs (by simp [hscreen]) (by simp [hscreen]) (hcmp ▸ hm) (hvnc ▸ hm)

/-! ### The byte count -/

/-- A call fails exactly when it has something to publish and the size of a
frame in bits does not fit an `int`. -/
theorem updateScreen_eq_none (hf : fmt.Supported) (h : d.screen.Fits fmt) :
    d.updateScreen g = none ↔ d.changed g ≠ [] ∧ 2 ^ 31 ≤ fmt.sw * fmt.sh * fmt.bpp := by
  rw [ne_eq, ← idle_iff h]
  cases hi : (d.scanResult g).2.2 with
  | true => simp [updateScreen_idle hi]
  | false =>
    rw [updateScreen_change hi, Option.map_eq_none_iff]
    by_cases hb : fmt.sw * fmt.sh * fmt.bpp < 2 ^ 31
    · simp only [ScreenFormat.frameBits_of_lt hf hb, reduceCtorEq, false_iff]
      omega
    · simp only [ScreenFormat.frameBits_of_le (not_lt.mp hb), true_iff]
      exact ⟨by simp, not_lt.mp hb⟩

/-- With frames that fit a call returns. -/
theorem updateScreen_defined (hd : d.Sound) (hb : fmt.sw * fmt.sh * fmt.bpp < 2 ^ 31)
    (g : Grab fmt.Pixel) : ∃ e, d.updateScreen g = some e := by
  apply Option.ne_none_iff_exists'.mp
  intro hnone
  have := ((updateScreen_eq_none hd.supported hd.fits).mp hnone).2
  omega

theorem step_defined (hd : d.Sound) (hb : fmt.sw * fmt.sh * fmt.bpp < 2 ^ 31) {op : Op fmt}
    (hop : op.Valid) : ∃ e, d.step op = some e ∧ e.Sound := by
  have hdef : ∃ e, d.step op = some e := by
    cases op with
    | updateScreen g => exact updateScreen_defined hd hb g
    | _ => exact ⟨_, rfl⟩
  obtain ⟨e, he⟩ := hdef
  exact ⟨e, he, sound_step hop hd he⟩

theorem runFrom_defined (hf : fmt.Supported) (hb : fmt.sw * fmt.sh * fmt.bpp < 2 ^ 31)
    {o : Options} (ho : Upright o.rotation) (scrinfo : FbVarScreeninfo) {l : List (Op fmt)}
    (hl : ∀ op ∈ l, op.Valid) : ∃ d, runFrom fmt o scrinfo l = some d ∧ d.Sound := by
  have ha := (ScreenFormat.area_le_bits hf).trans_lt hb
  obtain ⟨d, hrun, hd⟩ := Transition.run_defined (J := Sound) (V := Op.Valid)
    (fun _ _ hv hJ => step_defined hJ hb hv) hl (sound_started hf ha ho scrinfo)
  exact ⟨d, runFrom_eq_some.mpr ⟨ha, hf, hrun⟩, hd⟩

theorem scanned_of_upright (h : d.displayRotate180 = false) : d.scanned = d.screen := by
  simp [scanned, h]

/-- A frame of ones differs from the empty buffers of a server that has started. -/
theorem not_holdsFrame_ones (hf : fmt.Supported) (hw : 0 < fmt.sw) (hh : 0 < fmt.sh)
    (width : ℤ) (rotation : ℕ) :
    ¬ HoldsFrame fmt (fun _ => 0) width rotation fun _ => 1 := by
  intro hm
  have hbits : (0 : fmt.Pixel).toNat = (1 : fmt.Pixel).toNat :=
    congrArg BitVec.toNat (hm (0, 0) ⟨⟨le_refl 0, hw⟩, le_refl 0, hh⟩)
  simp [hf.pos.ne'] at hbits

/-! ### Runs without `-z` -/

theorem Shows.congr {rotation : ℕ} {b b' : ℤ × ℤ → fmt.Pixel}
    (hb : ∀ p, Grid.Inside fmt.sw fmt.sh p → b p = b' p) (h : d.Shows rotation b) :
    d.Shows rotation b' where
  cmpbuf := (HoldsFrame.congr hb).mp h.cmpbuf
  vncbuf := (HoldsFrame.congr hb).mp h.vncbuf
  onScreen := h.onScreen
  nothingElse q hq := by
    obtain ⟨p, hp, hplace, hshown⟩ := h.nothingElse q hq
    exact ⟨p, hp, hplace, hshown.trans (hb p hp)⟩

/-- The call returns, and both buffers show its frame, turned by the rotation. -/
def ShowsFrame (m : FrameMemory) (g : Grab fmt.Pixel) (d : Daemon fmt) : Prop :=
  ∃ e, d.updateScreenMapped m g = some e ∧ e.Shows e.screen.rotation (g.frame fmt)

def ShowsStep (m : FrameMemory) (d : Daemon fmt) : Op fmt → Prop
  | .updateScreen g => d.ShowsFrame m g
  | _ => True

/-- The server starts, and every call of `update_screen` in the run returns and shows its
frame. -/
def ImageCorrect (fmt : ScreenFormat) (o : Options) (scrinfo : FbVarScreeninfo) (m : FrameMemory)
    (l : List (Op fmt)) : Prop :=
  ∃ d, initVncServer fmt o scrinfo = some d ∧ Transition.Along (mappedStep m) (ShowsStep m) d l

/-- The frame fits an `int`, or is on display, and it is addressed rightly. -/
def Copies (g : Grab fmt.Pixel) (d : Daemon fmt) : Prop :=
  (fmt.sw * fmt.sh * fmt.bpp < 2 ^ 31 ∨
      HoldsFrame fmt d.vncbuf d.screen.width d.screen.rotation (g.frame fmt)) ∧
    g.Addressed fmt d.scrinfo

def CopiesStep (d : Daemon fmt) : Op fmt → Prop
  | .updateScreen g => d.Copies g
  | _ => True

/-- A call that reads its frame rightly returns exactly when the frame fits or is on display. -/
theorem updateScreen_defined_iff (hd : d.Sound) (hz : d.displayRotate180 = false)
    {b : ℤ × ℤ → fmt.Pixel}
    (hb : ∀ p, Grid.Inside fmt.sw fmt.sh p → g.pixel fmt d.scrinfo p = b p) :
    (∃ e, d.updateScreen g = some e) ↔ fmt.sw * fmt.sh * fmt.bpp < 2 ^ 31 ∨
      HoldsFrame fmt d.vncbuf d.screen.width d.screen.rotation b := by
  have hc : d.changed g = [] ↔ HoldsFrame fmt d.vncbuf d.screen.width d.screen.rotation b := by
    rw [changed, scanned_of_upright hz, changed_eq_nil_iff hd.fits, HoldsFrame.congr hb, hd.buffers]
  rw [← Option.ne_none_iff_exists', ne_eq, updateScreen_eq_none hd.supported hd.fits, not_and_or,
    not_ne_iff, hc, not_le, or_comm]

theorem showsFrame_of_copies {m : FrameMemory} (hd : d.Mapped m) (hz : d.displayRotate180 = false)
    (hg : m.Yields fmt g) (h : d.Copies g) : d.ShowsFrame m g := by
  have hscanned := scanned_of_upright hz
  have hfits : d.scanned.Fits fmt := hscanned ▸ hd.sound.fits
  have hreads := fun p => reads_of_addressed (p := p) hd.reported hg h.2
  obtain ⟨e, he⟩ :=
    (updateScreen_defined_iff hd.sound hz fun p hp => (hreads p hp).2).mpr h.1
  have hmapped : d.ReadsMapped m g := (readsMapped_iff hfits).mpr fun p hp => (hreads p hp).1
  refine ⟨e, updateScreenMapped_eq_some.mpr ⟨hmapped, he⟩, ?_⟩
  rw [(updateScreen_frame he).1, ← hscanned]
  exact (updateScreen_shows hd.sound hfits he).congr fun p hp => (hreads p hp).2

theorem copies_of_showsFrame {m : FrameMemory} (hm : m.Small) (hd : d.Mapped m)
    (hz : d.displayRotate180 = false) (hg : m.Yields fmt g) (h : d.ShowsFrame m g) :
    d.Copies g := by
  have hscanned := scanned_of_upright hz
  have hfits : d.scanned.Fits fmt := hscanned ▸ hd.sound.fits
  obtain ⟨e, hmapped, hshows⟩ := h
  obtain ⟨hreads, he⟩ := updateScreenMapped_eq_some.mp hmapped
  have hread := updateScreen_shows hd.sound hfits he
  rw [(updateScreen_frame he).1, ← hscanned] at hshows
  have hframe : ∀ p, Grid.Inside fmt.sw fmt.sh p → g.pixel fmt d.scrinfo p = g.frame fmt p :=
    fun p hp => hread.vncbuf.unique hshows.vncbuf hp
  exact ⟨(updateScreen_defined_iff hd.sound hz hframe).mp ⟨e, he⟩,
    addressed_of_reads hm hd.reported hg ((readsMapped_iff hfits).mp hreads) hframe⟩

/-- In every run from every start rotation: if the byte counts fit and each frame is addressed
rightly, every call shows its frame; and in a framebuffer of at most `2 ^ 32` cells only then. -/
theorem imageCorrect_iff (fmt : ScreenFormat) (hf : fmt.Supported) {rotation : ℕ}
    (hr : Upright rotation) (scaling : ℤ) {m : FrameMemory} {scrinfo : FbVarScreeninfo}
    (hs : m.Reported fmt scrinfo) {l : List (Op fmt)} (hl : ∀ op ∈ l, op.Valid ∧ op.Yields m) :
    (fmt.sw * fmt.sh < 2 ^ 31 ∧ Transition.Along (mappedStep m) CopiesStep
        (started fmt { rotation, scaling, displayRotate180 := false } scrinfo) l →
      ImageCorrect fmt { rotation, scaling, displayRotate180 := false } scrinfo m l) ∧
    (m.Small → ImageCorrect fmt { rotation, scaling, displayRotate180 := false } scrinfo m l →
      fmt.sw * fmt.sh < 2 ^ 31 ∧ Transition.Along (mappedStep m) CopiesStep
        (started fmt { rotation, scaling, displayRotate180 := false } scrinfo) l) := by
  have hkeep : ∀ (s : Daemon fmt) op t, op.Valid ∧ op.Yields m →
      s.Mapped m ∧ s.displayRotate180 = false → s.mappedStep m op = some t →
      t.Mapped m ∧ t.displayRotate180 = false := by
    intro s op t hop hs hst
    have hstep := step_of_mappedStep hst
    exact ⟨mapped_step hop.1 hop.2 hs.1 hstep, (settings_step hstep).2.trans hs.2⟩
  constructor
  · rintro ⟨ha, hcopies⟩
    refine ⟨_, initVncServer_eq_some.mpr ⟨ha, hf, rfl⟩, ?_⟩
    refine Transition.along_imp hkeep (fun s op hop hs hG => ?_) hl
      ⟨⟨sound_started hf ha hr scrinfo, hs⟩, rfl⟩ hcopies
    cases op with
    | updateScreen g => exact showsFrame_of_copies hs.1 hs.2 hop.2 hG
    | _ => trivial
  · rintro hm ⟨d, h0, hshows⟩
    obtain ⟨ha, -, rfl⟩ := initVncServer_eq_some.mp h0
    refine ⟨ha, Transition.along_imp hkeep (fun s op hop hs hG => ?_) hl
      ⟨⟨sound_started hf ha hr scrinfo, hs⟩, rfl⟩ hshows⟩
    cases op with
    | updateScreen g => exact copies_of_showsFrame hm hs.1 hs.2 hop.2 hG
    | _ => trivial

/-- The framebuffer of a display of one page: a frame of ones, a quarter turn, and a frame of
zeros. -/
theorem imageCorrect_480x800 :
    ImageCorrect ⟨480, 800, 16⟩ { rotation := 90, scaling := 100, displayRotate180 := false }
      ⟨480, 800, 480, 800, 0, 0⟩ (.framebuffer 480 800)
      [.updateScreen (.framebuffer ⟨480, 800, 480, 800, 0, 0⟩ fun _ => 1), .rotate (-1),
        .updateScreen (.framebuffer ⟨480, 800, 480, 800, 0, 0⟩ fun _ => 0)] := by
  have hreported : FbVarScreeninfo.Reported ⟨480, 800, 16⟩ 480 800 ⟨480, 800, 480, 800, 0, 0⟩ :=
    ⟨rfl, rfl, rfl, rfl, by decide, by decide⟩
  have haddressed : ∀ p, Grid.Inside (ScreenFormat.sw ⟨480, 800, 16⟩)
      (ScreenFormat.sh ⟨480, 800, 16⟩) p →
      FbVarScreeninfo.offset ⟨480, 800, 480, 800, 0, 0⟩ p < 2 ^ 31 :=
    fun p hp => (offset_bounds hreported hp).2.trans (by decide)
  refine (imageCorrect_iff ⟨480, 800, 16⟩ (by decide) (by decide) 100
    (m := .framebuffer 480 800) hreported ?_).1 ⟨by decide, ?_⟩
  · simpa [Op.Valid, Op.Yields, FrameMemory.Yields, Screen.RotateArg] using hreported
  · refine ⟨⟨Or.inl (by decide), fun p hp => ⟨haddressed p hp, rfl⟩⟩, fun d hd =>
      ⟨trivial, fun e he => ⟨⟨Or.inl (by decide), fun p hp => ⟨?_, rfl⟩⟩, fun _ _ => trivial⟩⟩⟩
    obtain rfl := Option.some.inj he
    have hscrinfo := (updateScreen_frame (updateScreenMapped_eq_some.mp hd).2).2.2.2
    change d.scrinfo.offset p < 2 ^ 31
    rw [hscrinfo]
    exact haddressed p hp

/-- At 8192 by 8192 pixels of 32 bits the first copy of a frame does not return. -/
theorem not_imageCorrect_8192x8192 :
    ¬ ImageCorrect ⟨8192, 8192, 32⟩ { rotation := 0, scaling := 100, displayRotate180 := false }
      ⟨0, 0, 0, 0, 0, 0⟩ .buffers [.updateScreen (.buffer fun _ => 1)] := by
  rintro ⟨d, h0, hshows, -⟩
  obtain ⟨ha, hf, rfl⟩ := initVncServer_eq_some.mp h0
  have hsound := sound_started (o := { rotation := 0, scaling := 100, displayRotate180 := false })
    hf ha (by decide) ⟨0, 0, 0, 0, 0, 0⟩
  have hcopies := copies_of_showsFrame (m := .buffers) (g := .buffer fun _ => 1) trivial
    ⟨hsound, trivial⟩ rfl trivial hshows
  rcases hcopies.1 with hb | hm
  · exact absurd hb (by decide)
  · exact not_holdsFrame_ones hf (by decide) (by decide) _ _ hm

/-! ### Half-turn mode -/

/-- The same buffers without `-z`, half a turn further. -/
def halfTurned (d : Daemon fmt) : Daemon fmt :=
  { d with
    displayRotate180 := false
    screen := { d.screen with rotation := (d.screen.rotation + 180) % 360 } }

@[simp] theorem halfTurned_cmpbuf (d : Daemon fmt) : d.halfTurned.cmpbuf = d.cmpbuf := rfl

@[simp] theorem halfTurned_vncbuf (d : Daemon fmt) : d.halfTurned.vncbuf = d.vncbuf := rfl

@[simp] theorem halfTurned_scrinfo (d : Daemon fmt) : d.halfTurned.scrinfo = d.scrinfo := rfl

/-- A call with `-z` and a call without it, half a turn further, both return, with the same
buffers, and the first leaves the rotation alone. -/
def HalfTurnComposes (m : FrameMemory) (g : Grab fmt.Pixel) (d : Daemon fmt) : Prop :=
  ∃ e e', d.updateScreenMapped m g = some e ∧ d.halfTurned.updateScreenMapped m g = some e' ∧
    (e.cmpbuf = e'.cmpbuf ∧ e.vncbuf = e'.vncbuf) ∧ e.screen.rotation = d.screen.rotation

/-- The buffer holds `b`, half a turn further; or the loops of that orientation are run, and
the frame fits an `int`. -/
def HalfTurnReaches (b : ℤ × ℤ → fmt.Pixel) (d : Daemon fmt) : Prop :=
  HoldsFrame fmt d.cmpbuf d.screen.width ((d.screen.rotation + 180) % 360) b ∨
    (d.screen.rotation = 0 ∨ d.screen.rotation = 90) ∧ fmt.sw * fmt.sh * fmt.bpp < 2 ^ 31

theorem fits_halfTurned (h : d.screen.Fits fmt) : d.halfTurned.screen.Fits fmt := by
  have hdims := h.dims
  refine ⟨?_, ?_, h.padded⟩
  · rcases h.upright with hr | hr | hr | hr <;> simp [halfTurned, hr, Upright]
  · rcases h.upright with hr | hr | hr | hr <;> simpa [Screen.Turned, halfTurned, hr] using hdims

/-- Up to 90 degrees the sum needs no reduction: the loops are the same. -/
theorem scanned_eq_halfTurned (hz : d.displayRotate180 = true)
    (hr : d.screen.rotation = 0 ∨ d.screen.rotation = 90) :
    d.scanned = d.halfTurned.screen := by
  rcases hr with hr | hr <;> simp [scanned, halfTurned, hz, hr]

/-- From 180 degrees on the sum selects no loop nest. -/
theorem sites_of_halfTurn (hz : d.displayRotate180 = true)
    (hr : d.screen.rotation = 180 ∨ d.screen.rotation = 270) :
    d.scanned.loopNest.sites = [] := by
  rcases hr with hr | hr <;>
    simp [scanned, hz, hr, Screen.loopNest, LoopNest.sites, CompareStore.nest, Int.range]

theorem updateScreen_of_sites_nil (hd : d.screen.Fits fmt) (hs : d.scanned.loopNest.sites = []) :
    (d.updateScreen g).map (fun e => (e.cmpbuf, e.vncbuf)) = some (d.cmpbuf, d.vncbuf) := by
  have hi : (d.scanResult g).2.2 = true :=
    (idle_iff hd g).mpr (by simp [changed, Screen.changed, CompareStore.differing, hs])
  simp [updateScreen_idle hi, scanResult_of_idle hd hi]

/-- The buffers a call leaves are determined by the loops and the frame. -/
theorem updateScreen_map_buffers (d : Daemon fmt) (g : Grab fmt.Pixel) :
    (d.updateScreen g).map (fun e => (e.cmpbuf, e.vncbuf)) =
      if (d.scanResult g).2.2 then some ((d.scanResult g).1, d.vncbuf)
      else fmt.frameBits.map fun bits =>
        ((d.scanResult g).1, memcpy d.vncbuf (d.scanResult g).1 (fmt.bpp / 8) (bits / 8)) := by
  cases hi : (d.scanResult g).2.2 with
  | true => simp [updateScreen_idle hi]
  | false => simp [updateScreen_change hi, Function.comp_def]

theorem updateScreen_cmpbuf (h : d.updateScreen g = some e) : e.cmpbuf = (d.scanResult g).1 := by
  have hmap := updateScreen_map_buffers d g
  rw [h] at hmap
  split_ifs at hmap
  · exact congrArg Prod.fst (Option.some.inj hmap)
  · obtain ⟨bits, -, heq⟩ := Option.map_eq_some_iff.mp hmap.symm
    exact (congrArg Prod.fst heq).symm

/-- A call leaves `cmpbuf` as it was only if it already held the frame. -/
theorem holdsFrame_of_updateScreen (hs : d.scanned.Fits fmt)
    (h : d.updateScreen g = some e) (hcmp : e.cmpbuf = d.cmpbuf) :
    HoldsFrame fmt d.cmpbuf d.screen.width d.scanned.rotation (g.pixel fmt d.scrinfo) := by
  intro p hp
  rw [← hcmp, updateScreen_cmpbuf h, ← scanned_width]
  exact Screen.scan_fst_place hs hp

/-- Where the loops run, a call returns exactly when the buffer holds the frame or the frame
fits an `int`. -/
theorem updateScreen_defined_of_fits (hf : fmt.Supported) (h : d.screen.Fits fmt)
    (hs : d.scanned.Fits fmt) :
    (∃ e, d.updateScreen g = some e) ↔
      HoldsFrame fmt d.cmpbuf d.screen.width d.scanned.rotation (g.pixel fmt d.scrinfo) ∨
        fmt.sw * fmt.sh * fmt.bpp < 2 ^ 31 := by
  have hc : d.changed g = [] ↔
      HoldsFrame fmt d.cmpbuf d.screen.width d.scanned.rotation (g.pixel fmt d.scrinfo) := by
    rw [changed, changed_eq_nil_iff hs, scanned_width]
  rw [← Option.ne_none_iff_exists', ne_eq, updateScreen_eq_none hf h, not_and_or, not_ne_iff, hc,
    not_le]

section HalfTurn

variable {m : FrameMemory}

/-- Up to 90 degrees both calls run the same loops on the same buffers. -/
theorem halfTurnComposes_low (hf : fmt.Supported) (h : d.screen.Fits fmt)
    (hz : d.displayRotate180 = true) (hr : d.screen.rotation = 0 ∨ d.screen.rotation = 90) :
    d.HalfTurnComposes m g ↔
      (∀ p, Grid.Inside fmt.sw fmt.sh p → g.InMemory fmt m d.scrinfo p) ∧
        d.HalfTurnReaches (g.pixel fmt d.scrinfo) := by
  have hscan := scanned_eq_halfTurned hz hr
  have hplain : d.halfTurned.scanned = d.halfTurned.screen := scanned_of_upright rfl
  have hfits : d.scanned.Fits fmt := hscan ▸ fits_halfTurned h
  have hreturns : (∃ e, d.updateScreen g = some e) ↔
      d.HalfTurnReaches (g.pixel fmt d.scrinfo) := by
    rw [updateScreen_defined_of_fits hf h hfits, HalfTurnReaches, hscan, and_iff_right hr]
    rfl
  have hreads : d.halfTurned.ReadsMapped m g ↔ d.ReadsMapped m g := by
    rw [ReadsMapped, ReadsMapped, hplain, hscan, halfTurned_scrinfo]
  have hsame : (d.updateScreen g).map (fun e => (e.cmpbuf, e.vncbuf)) =
      (d.halfTurned.updateScreen g).map fun e => (e.cmpbuf, e.vncbuf) := by
    rw [updateScreen_map_buffers, updateScreen_map_buffers]
    simp only [scanResult, hscan, hplain, halfTurned_cmpbuf, halfTurned_vncbuf,
      halfTurned_scrinfo]
  rw [← readsMapped_iff hfits, ← hreturns]
  constructor
  · rintro ⟨e, -, he, -⟩
    obtain ⟨hmapped, he⟩ := updateScreenMapped_eq_some.mp he
    exact ⟨hmapped, e, he⟩
  · rintro ⟨hmapped, e, he⟩
    rw [he, Option.map_some] at hsame
    obtain ⟨e', he', hbuf⟩ := Option.map_eq_some_iff.mp hsame.symm
    obtain ⟨hcmp, hvnc⟩ := Prod.mk.inj hbuf
    exact ⟨e, e', updateScreenMapped_eq_some.mpr ⟨hmapped, he⟩,
      updateScreenMapped_eq_some.mpr ⟨hreads.mpr hmapped, he'⟩, ⟨hcmp.symm, hvnc.symm⟩,
      congrArg Screen.rotation (updateScreen_frame he).1⟩

/-- From 180 degrees on a call runs no loop, against the loops of the right orientation. -/
theorem halfTurnComposes_high (h : d.screen.Fits fmt) (hz : d.displayRotate180 = true)
    (hr : d.screen.rotation = 180 ∨ d.screen.rotation = 270) :
    d.HalfTurnComposes m g ↔
      (∀ p, Grid.Inside fmt.sw fmt.sh p → g.InMemory fmt m d.scrinfo p) ∧
        d.HalfTurnReaches (g.pixel fmt d.scrinfo) := by
  have hplain : d.halfTurned.scanned = d.halfTurned.screen := scanned_of_upright rfl
  have hhalf := fits_halfTurned h
  have hfits : d.halfTurned.scanned.Fits fmt := hplain ▸ hhalf
  have hnil := sites_of_halfTurn hz hr
  have hsame := updateScreen_of_sites_nil (g := g) h hnil
  obtain ⟨e, he, hbuf⟩ := Option.map_eq_some_iff.mp hsame
  obtain ⟨hcmp, hvnc⟩ := Prod.mk.inj hbuf
  have hlow : ¬ (d.screen.rotation = 0 ∨ d.screen.rotation = 90) := by omega
  have hreads := readsMapped_iff (m := m) (g := g) hfits
  rw [halfTurned_scrinfo] at hreads
  rw [← hreads, HalfTurnReaches, or_iff_left fun hc => hlow hc.1]
  constructor
  · rintro ⟨e₁, e', he₁, he', ⟨hcmp', -⟩, -⟩
    obtain rfl := Option.some.inj (he.symm.trans (updateScreenMapped_eq_some.mp he₁).2)
    obtain ⟨hmapped, he'⟩ := updateScreenMapped_eq_some.mp he'
    have hm := holdsFrame_of_updateScreen hfits he' (hcmp'.symm.trans hcmp)
    rw [hplain] at hm
    exact ⟨hmapped, hm⟩
  · rintro ⟨hmapped, hm⟩
    have hi : (d.halfTurned.scanResult g).2.2 = true := by
      rw [idle_iff hhalf, changed, hplain]
      exact (changed_eq_nil_iff hhalf).mpr hm
    refine ⟨e, _, updateScreenMapped_eq_some.mpr ⟨readsMapped_of_sites_nil hnil, he⟩,
      updateScreenMapped_eq_some.mpr ⟨hmapped, updateScreen_idle hi⟩, ⟨?_, hvnc⟩,
      congrArg Screen.rotation (updateScreen_frame he).1⟩
    rw [hcmp, scanResult_of_idle hhalf hi, halfTurned_cmpbuf]

/-- The frame is addressed rightly if any loop runs, and half a turn on it gets to the screen. -/
def HalfTurnFollows (g : Grab fmt.Pixel) (d : Daemon fmt) : Prop :=
  (d.screen.rotation = 0 ∨ d.screen.rotation = 90 → g.Addressed fmt d.scrinfo) ∧
    d.HalfTurnReaches (g.frame fmt)

/-- A call with `-z` returns and shows its frame, half a turn further. -/
def ShowsHalfTurned (m : FrameMemory) (g : Grab fmt.Pixel) (d : Daemon fmt) : Prop :=
  ∃ e, d.updateScreenMapped m g = some e ∧
    e.Shows ((d.screen.rotation + 180) % 360) (g.frame fmt)

theorem HalfTurnReaches.congr {b b' : ℤ × ℤ → fmt.Pixel}
    (hb : ∀ p, Grid.Inside fmt.sw fmt.sh p → b p = b' p) :
    d.HalfTurnReaches b ↔ d.HalfTurnReaches b' :=
  or_congr_left (HoldsFrame.congr hb)

theorem showsHalfTurned_low (hd : d.Mapped m) (hz : d.displayRotate180 = true)
    (hg : m.Yields fmt g) (hr : d.screen.rotation = 0 ∨ d.screen.rotation = 90) :
    (d.HalfTurnFollows g → d.ShowsHalfTurned m g) ∧
      (m.Small → d.ShowsHalfTurned m g → d.HalfTurnFollows g) := by
  have hscan := scanned_eq_halfTurned hz hr
  have hfits : d.scanned.Fits fmt := hscan ▸ fits_halfTurned hd.sound.fits
  have hrotation : d.scanned.rotation = (d.screen.rotation + 180) % 360 := by rw [hscan]; rfl
  have hreturns : (∃ e, d.updateScreen g = some e) ↔
      d.HalfTurnReaches (g.pixel fmt d.scrinfo) := by
    rw [updateScreen_defined_of_fits hd.sound.supported hd.sound.fits hfits, HalfTurnReaches,
      hrotation, and_iff_right hr]
  constructor
  · rintro ⟨haddressed, hreaches⟩
    have hreads := fun p => reads_of_addressed (p := p) hd.reported hg (haddressed hr)
    obtain ⟨e, he⟩ :=
      hreturns.mpr ((HalfTurnReaches.congr fun p hp => (hreads p hp).2).mpr hreaches)
    have hshows := updateScreen_shows hd.sound hfits he
    rw [hrotation] at hshows
    refine ⟨e, updateScreenMapped_eq_some.mpr ⟨?_, he⟩, hshows.congr fun p hp => (hreads p hp).2⟩
    exact (readsMapped_iff hfits).mpr fun p hp => (hreads p hp).1
  · rintro hm ⟨e, he, hshows⟩
    obtain ⟨hmapped, he⟩ := updateScreenMapped_eq_some.mp he
    have hread := updateScreen_shows hd.sound hfits he
    rw [hrotation] at hread
    have hframe : ∀ p, Grid.Inside fmt.sw fmt.sh p → g.pixel fmt d.scrinfo p = g.frame fmt p :=
      fun p hp => hread.vncbuf.unique hshows.vncbuf hp
    exact ⟨fun _ =>
        addressed_of_reads hm hd.reported hg ((readsMapped_iff hfits).mp hmapped) hframe,
      (HalfTurnReaches.congr hframe).mp (hreturns.mp ⟨e, he⟩)⟩

/-- From 180 degrees on the picture is the one that was there. -/
theorem showsHalfTurned_high (hd : d.Sound) (hz : d.displayRotate180 = true)
    (hr : d.screen.rotation = 180 ∨ d.screen.rotation = 270) :
    d.ShowsHalfTurned m g ↔ d.HalfTurnFollows g := by
  have hnil := sites_of_halfTurn hz hr
  obtain ⟨e, he, hbuf⟩ :=
    Option.map_eq_some_iff.mp (updateScreen_of_sites_nil (g := g) hd.fits hnil)
  obtain ⟨hcmp, hvnc⟩ := Prod.mk.inj hbuf
  have hscreen := (updateScreen_frame he).1
  have hlow : ¬ (d.screen.rotation = 0 ∨ d.screen.rotation = 90) := by omega
  rw [HalfTurnFollows, and_iff_right fun hc => absurd hc hlow, HalfTurnReaches,
    or_iff_left fun hc => hlow hc.1]
  constructor
  · rintro ⟨e₁, he₁, hshows⟩
    obtain rfl := Option.some.inj (he.symm.trans (updateScreenMapped_eq_some.mp he₁).2)
    have hm := hshows.cmpbuf
    rwa [hcmp, hscreen] at hm
  · intro hm
    refine ⟨e, updateScreenMapped_eq_some.mpr ⟨readsMapped_of_sites_nil hnil, he⟩, ?_⟩
    apply shows_of_holdsFrame (fits_halfTurned hd.fits) (by rw [hscreen]; rfl)
      (by rw [hscreen]; rfl)
    · rwa [hcmp, hscreen]
    · rwa [hvnc, hd.buffers, hscreen]

end HalfTurn

/-- Half-turn mode composes with the rotation of a call, from whatever buffers, exactly when
what the loops read is in the memory, and the buffer already holds it, or the rotation is
below 180 degrees and the frame fits an `int`; and in a run the picture follows the device
on the same condition. -/
theorem halfTurnComposes_iff (fmt : ScreenFormat) (hf : fmt.Supported) (m : FrameMemory) :
    (∀ d : Daemon fmt, d.screen.Fits fmt → d.displayRotate180 = true → ∀ g,
      (d.HalfTurnComposes m g ↔
        (∀ p, Grid.Inside fmt.sw fmt.sh p → g.InMemory fmt m d.scrinfo p) ∧
          d.HalfTurnReaches (g.pixel fmt d.scrinfo))) ∧
    ∀ (o : Options) (scrinfo : FbVarScreeninfo) (l : List (Op fmt)) (d : Daemon fmt) g,
      Upright o.rotation → o.displayRotate180 = true → m.Reported fmt scrinfo →
      (∀ op ∈ l, op.Valid ∧ op.Yields m) → mappedRunFrom fmt o scrinfo m l = some d →
      m.Yields fmt g →
      (d.HalfTurnFollows g → d.ShowsHalfTurned m g) ∧
        (m.Small → d.ShowsHalfTurned m g → d.HalfTurnFollows g) := by
  refine ⟨fun d h hz g => ?_, ?_⟩
  · rcases or_assoc.mpr h.upright with hr | hr
    · exact halfTurnComposes_low hf h hz hr
    · exact halfTurnComposes_high h hz hr
  · intro o scrinfo l d g ho hz hs hl hrun hg
    obtain ⟨hd, hset⟩ := mapped_runFrom ho hs hl hrun
    have hz := hset.trans hz
    rcases or_assoc.mpr hd.sound.fits.upright with hr | hr
    · exact showsHalfTurned_low hd hz hg hr
    · have hiff := showsHalfTurned_high (m := m) (g := g) hd.sound hz hr
      exact ⟨hiff.mpr, fun _ => hiff.mp⟩

/-- A server of one pixel, started with `-z` at `rotation`. -/
def onePixel (rotation : ℕ) : Daemon ⟨1, 1, 8⟩ :=
  started ⟨1, 1, 8⟩ { rotation, scaling := 100, displayRotate180 := true } ⟨1, 1, 1, 1, 0, 0⟩

theorem fits_onePixel {rotation : ℕ} (hr : Upright rotation) :
    (onePixel rotation).screen.Fits ⟨1, 1, 8⟩ := Screen.fits_init (by decide) hr

theorem halfTurnComposes_onePixel :
    (onePixel 90).HalfTurnComposes .buffers (.buffer fun _ => 1) ∧
      (onePixel 90).ShowsHalfTurned .buffers (.buffer fun _ => 1) := by
  have h := halfTurnComposes_iff ⟨1, 1, 8⟩ (by decide) .buffers
  have hreaches : ∀ b, (onePixel 90).HalfTurnReaches b :=
    fun b => Or.inr ⟨Or.inr rfl, by decide⟩
  constructor
  · refine (h.1 (onePixel 90) (fits_onePixel (by decide)) rfl _).mpr ⟨fun p hp => ?_, hreaches _⟩
    exact pixelToVirtualPixel_bounds hp
  · have hrun : mappedRunFrom ⟨1, 1, 8⟩ { rotation := 90, scaling := 100, displayRotate180 := true }
        ⟨1, 1, 1, 1, 0, 0⟩ .buffers [] = some (onePixel 90) :=
      Option.bind_eq_some_iff.mpr ⟨_, initVncServer_eq_some.mpr ⟨by decide, by decide, rfl⟩, rfl⟩
    exact (h.2 _ _ [] (onePixel 90) (.buffer fun _ => 1) (by decide) rfl trivial (by simp) hrun
      trivial).1 ⟨fun _ => trivial, hreaches _⟩

/-- At 180 degrees with `-z` the first frame is lost. -/
theorem not_halfTurnComposes_onePixel :
    (onePixel 180).screen.Fits ⟨1, 1, 8⟩ ∧ (onePixel 180).displayRotate180 = true ∧
      ¬ (onePixel 180).HalfTurnComposes .buffers (.buffer fun _ => 1) := by
  refine ⟨fits_onePixel (by decide), rfl, fun hc => ?_⟩
  have hcond := (halfTurnComposes_high (fits_onePixel (by decide)) rfl (Or.inl rfl)).mp hc
  rcases hcond.2 with hm | ⟨hr, -⟩
  · exact not_holdsFrame_ones (by decide) (by decide) (by decide) _ _ hm
  · exact absurd hr (by decide)

end Daemon

end DroidVnc
