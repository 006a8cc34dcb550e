import DroidVnc.Screen.Image

/-! Change detection. The copy compares a frame with the buffer while it overwrites
it; that it sees a change exactly when there is one rests on the loops visiting no
cell twice and on the scanned buffer being the published one. What a call hands to
`rfbMarkRectAsModified` is logged. The one call that goes wrong finds a change in a
frame whose size in bits overflows. -/

namespace DroidVnc

namespace Daemon

open Transition

variable {fmt : ScreenFormat}

structure MarkCall where
  x1 : ℤ
  y1 : ℤ
  x2 : ℤ
  y2 : ℤ
  deriving DecidableEq, Repr

/-- `update_screen` with the list of the calls of `rfbMarkRectAsModified` it makes. -/
def updateScreenLogged (g : Grab fmt.Pixel) (d : Daemon fmt) :
    Option (Daemon fmt × List MarkCall) :=
  let r := d.screen.rotation
  let b := g.pixel fmt d.scrinfo
  let d := { d with screen := d.scanned, scrinfo := g.scrinfo d.scrinfo }
  let (a, extent, idle) := d.screen.scan d.cmpbuf b
  let d := { d with cmpbuf := a, idle := idle }
  let result :=
    if idle then some (d, [])
    else fmt.frameBits.map fun bits =>
      ({ d with vncbuf := memcpy d.vncbuf a (fmt.bpp / 8) (bits / 8) }.markRectAsModified
          (extent.minX - 1 - 1) extent.minY (extent.maxX + 1) (extent.maxY + 1),
        [⟨extent.minX - 1 - 1, extent.minY, extent.maxX + 1, extent.maxY + 1⟩])
  result.map fun (d, calls) =>
    (if d.displayRotate180 then { d with screen := { d.screen with rotation := r } } else d, calls)

variable {g : Grab fmt.Pixel} {d e : Daemon fmt} {calls : List MarkCall}

/-- The log adds nothing to the call, and has one entry when a change was found. -/
theorem updateScreenLogged_eq (g : Grab fmt.Pixel) (d : Daemon fmt) :
    d.updateScreenLogged g = (d.updateScreen g).map fun e =>
      (e, if (d.scanResult g).2.2 then []
        else
          [⟨(d.scanResult g).2.1.minX - 1 - 1, (d.scanResult g).2.1.minY,
            (d.scanResult g).2.1.maxX + 1, (d.scanResult g).2.1.maxY + 1⟩]) := by
  cases hi : (d.scanResult g).2.2 with
  | true =>
    unfold scanResult at hi
    simp only [updateScreenLogged, updateScreen, hi, if_true, Option.map_some]
  | false =>
    unfold scanResult at hi ⊢
    simp only [updateScreenLogged, updateScreen, hi, Bool.false_eq_true, if_false,
      Option.map_map]
    rfl

/-! ### One call -/

/-- Some pixel of the frame, turned by the current rotation, is not the one on display. -/
def Differs (d : Daemon fmt) (b : ℤ × ℤ → fmt.Pixel) : Prop :=
  ∃ p, Grid.Inside fmt.sw fmt.sh p ∧
    d.vncbuf (Grid.index d.screen.width (place d.screen.rotation fmt.sw fmt.sh p)) ≠ b p

theorem not_differs_iff {b : ℤ × ℤ → fmt.Pixel} :
    ¬ d.Differs b ↔ HoldsFrame fmt d.vncbuf d.screen.width d.screen.rotation b := by
  unfold Differs HoldsFrame
  push Not
  rfl

/-- The call from `d` to `e` reports a change exactly when the frame differs, and
does nothing when it does not. -/
structure Detects (d e : Daemon fmt) (calls : List MarkCall) (b : ℤ × ℤ → fmt.Pixel) :
    Prop where
  found : e.idle = false ∧ calls.length = 1 ↔ d.Differs b
  nothing : ¬ d.Differs b →
    e.idle = true ∧ calls = [] ∧ e.cmpbuf = d.cmpbuf ∧ e.vncbuf = d.vncbuf

/-- Without `-z` the loops find a change exactly when the frame differs. -/
theorem idle_iff_not_differs (hd : d.Sound) (hz : d.displayRotate180 = false) :
    (d.scanResult g).2.2 = true ↔ ¬ d.Differs (g.pixel fmt d.scrinfo) := by
  rw [idle_iff hd.fits, not_differs_iff, changed, scanned_of_upright hz,
    changed_eq_nil_iff hd.fits, hd.buffers]

theorem detects_of_logged (hd : d.Sound) (hz : d.displayRotate180 = false)
    (h : d.updateScreenLogged g = some (e, calls)) :
    Detects d e calls (g.pixel fmt d.scrinfo) := by
  rw [updateScreenLogged_eq] at h
  obtain ⟨e, he, heq⟩ := Option.map_eq_some_iff.mp h
  obtain ⟨rfl, rfl⟩ := Prod.mk.inj heq
  have hidle := idle_iff_not_differs (g := g) hd hz
  cases hi : (d.scanResult g).2.2 with
  | true =>
    have hsame := hidle.mp hi
    obtain rfl := Option.some.inj ((updateScreen_idle hi).symm.trans he)
    refine ⟨iff_of_false (by simp) hsame, fun _ => ?_⟩
    exact ⟨rfl, rfl, scanResult_of_idle hd.fits hi, rfl⟩
  | false =>
    have hdiffers : d.Differs (g.pixel fmt d.scrinfo) := by
      by_contra hsame
      exact absurd ((hidle.mpr hsame).symm.trans hi) (by decide)
    obtain ⟨bits, -, rfl⟩ := Option.map_eq_some_iff.mp ((updateScreen_change hi).symm.trans he)
    exact ⟨iff_of_true ⟨rfl, rfl⟩ hdiffers, fun hsame => absurd hdiffers hsame⟩

theorem differs_congr {b b' : ℤ × ℤ → fmt.Pixel}
    (hb : ∀ p, Grid.Inside fmt.sw fmt.sh p → b p = b' p) : d.Differs b ↔ d.Differs b' :=
  exists_congr fun p => and_congr_right fun hp => by rw [hb p hp]

theorem Detects.congr {b b' : ℤ × ℤ → fmt.Pixel}
    (hb : ∀ p, Grid.Inside fmt.sw fmt.sh p → b p = b' p) (h : Detects d e calls b) :
    Detects d e calls b' :=
  ⟨h.found.trans (differs_congr hb), fun hsame => h.nothing ((differs_congr hb).not.mpr hsame)⟩

def updateScreenLoggedMapped (m : FrameMemory) (g : Grab fmt.Pixel) (d : Daemon fmt) :
    Option (Daemon fmt × List MarkCall) :=
  if d.ReadsMapped m g then d.updateScreenLogged g else none

theorem loggedMapped_eq_some {m : FrameMemory} {r : Daemon fmt × List MarkCall} :
    d.updateScreenLoggedMapped m g = some r ↔
      d.ReadsMapped m g ∧ d.updateScreenLogged g = some r := by
  unfold updateScreenLoggedMapped
  split_ifs with h
  · exact (and_iff_right h).symm
  · exact iff_of_false (by simp) fun hc => h hc.1

/-! ### The same frame again -/

/-- A client comes, goes, chooses encodings or is served. -/
def Op.Serves : Op fmt → Prop
  | .rotate _ => False
  | .updateScreen _ => False
  | _ => True

/-- Serving the clients changes nothing the copy works on. -/
theorem serves_step {op : Op fmt} (hop : op.Serves) (h : d.step op = some e) :
    e.vncbuf = d.vncbuf ∧ e.screen = d.screen ∧ e.scrinfo = d.scrinfo := by
  cases op with
  | rotate value => exact absurd hop id
  | updateScreen g => exact absurd hop id
  | _ => obtain rfl := Option.some.inj h; exact ⟨rfl, rfl, rfl⟩

theorem Op.Serves.valid {op : Op fmt} (hop : op.Serves) : op.Valid := by
  cases op with
  | rotate value => exact absurd hop id
  | _ => trivial

theorem Op.Serves.yields {m : FrameMemory} {op : Op fmt} (hop : op.Serves) : op.Yields m := by
  cases op with
  | updateScreen g => exact absurd hop id
  | _ => trivial

/-- `g'` shows the pixels of `g`, and leaves the same panning state. -/
structure SameFrame (fmt : ScreenFormat) (g g' : Grab fmt.Pixel) : Prop where
  frame : ∀ p, Grid.Inside fmt.sw fmt.sh p → g'.frame fmt p = g.frame fmt p
  scrinfo : ∀ old, g'.scrinfo old = g.scrinfo old

/-- However the clients are served meanwhile, a call on the frame `g` does nothing. -/
def Settled (m : FrameMemory) (g : Grab fmt.Pixel) (d : Daemon fmt) : Prop :=
  ∀ (l : List (Op fmt)) (e : Daemon fmt) (g' : Grab fmt.Pixel), (∀ op ∈ l, op.Serves) →
    run (mappedStep m) d l = some e → m.Yields fmt g' → SameFrame fmt g g' →
    e.updateScreenLoggedMapped m g' =
      some ({ e with idle := true, scrinfo := g'.scrinfo e.scrinfo }, [])

/-- A call that finds the frame on display does nothing. -/
theorem logged_of_not_differs (hd : d.Sound) (hz : d.displayRotate180 = false)
    (h : ¬ d.Differs (g.pixel fmt d.scrinfo)) :
    d.updateScreenLogged g =
      some ({ d with idle := true, scrinfo := g.scrinfo d.scrinfo }, []) := by
  have hi := (idle_iff_not_differs hd hz).mpr h
  rw [updateScreenLogged_eq, updateScreen_idle hi, scanResult_of_idle hd.fits hi, hi]
  rfl

/-- What a run of calls that serve clients keeps. -/
structure SameDisplay (m : FrameMemory) (d e : Daemon fmt) : Prop where
  mapped : e.Mapped m
  upright : e.displayRotate180 = false
  vncbuf : e.vncbuf = d.vncbuf
  screen : e.screen = d.screen
  scrinfo : e.scrinfo = d.scrinfo

variable {m : FrameMemory}

theorem sameDisplay_run (hd : d.Mapped m) (hz : d.displayRotate180 = false) {l : List (Op fmt)}
    (hl : ∀ op ∈ l, op.Serves) (h : run (mappedStep m) d l = some e) : SameDisplay m d e := by
  refine run_invariant (J := SameDisplay m d) (V := Op.Serves) ?_ hl ⟨hd, hz, rfl, rfl, rfl⟩ h
  intro s op t hop hs hst
  have hstep := step_of_mappedStep hst
  obtain ⟨hvnc, hscreen, hscrinfo⟩ := serves_step hop hstep
  exact ⟨mapped_step hop.valid hop.yields hs.mapped hstep,
    (settings_step hstep).2.trans hs.upright, hvnc.trans hs.vncbuf, hscreen.trans hs.screen,
    hscrinfo.trans hs.scrinfo⟩

/-- A panning state that addresses its own page serves every frame with that state. -/
theorem SameFrame.addressed {g g' : Grab fmt.Pixel} (h : SameFrame fmt g g')
    (hg : m.Yields fmt g) (hg' : m.Yields fmt g') {old old' : FbVarScreeninfo}
    (ha : g.Addressed fmt (g.scrinfo old)) : g'.Addressed fmt (g.scrinfo old') := by
  cases g' with
  | buffer mem => trivial
  | framebuffer report mem =>
    cases g with
    | buffer mem' =>
      cases m with
      | framebuffer xv yv => exact hg.elim
      | buffers => exact hg'.elim
    | framebuffer report' mem' =>
      obtain rfl : report = report' := h.scrinfo old
      exact fun p hp => ⟨(ha p hp).1, rfl⟩

/-- A frame that is on display, and whose own panning state is within reach, is settled. -/
theorem settled_of_not_differs (hd : d.Mapped m) (hz : d.displayRotate180 = false)
    (hg : m.Yields fmt g) {old : FbVarScreeninfo} (hs : d.scrinfo = g.scrinfo old)
    (ha : g.Addressed fmt (g.scrinfo old)) (h : ¬ d.Differs (g.frame fmt)) : d.Settled m g := by
  intro l e g' hl hrun hg' hframe
  have hsame := sameDisplay_run hd hz hl hrun
  have haddressed : g'.Addressed fmt e.scrinfo := by
    rw [hsame.scrinfo, hs]
    exact hframe.addressed hg hg' ha
  have hreads := fun p => reads_of_addressed (p := p) hsame.mapped.reported hg' haddressed
  have hfits : e.scanned.Fits fmt :=
    (scanned_of_upright hsame.upright).symm ▸ hsame.mapped.sound.fits
  refine loggedMapped_eq_some.mpr ⟨?_, ?_⟩
  · exact (readsMapped_iff hfits).mpr fun p hp => (hreads p hp).1
  · apply logged_of_not_differs hsame.mapped.sound hsame.upright
    rw [differs_congr fun p hp => (hreads p hp).2.trans (hframe.frame p hp), Differs, hsame.vncbuf,
      hsame.screen]
    exact h

/-- After a call that returns, what it has read is on display. -/
theorem not_differs_updateScreen (hd : d.Sound) (hz : d.displayRotate180 = false)
    (h : d.updateScreen g = some e) : ¬ e.Differs (g.pixel fmt d.scrinfo) := by
  have hscanned := scanned_of_upright hz
  have hshows := updateScreen_shows hd (hscanned ▸ hd.fits) h
  have hvnc := hshows.vncbuf
  rw [(updateScreen_frame h).1, hscanned] at hvnc
  rwa [not_differs_iff, (updateScreen_frame h).1]

/-! ### Every reachable state -/

/-- The call returns, reports exactly what there is, and leaves its frame settled. -/
def DetectsExactly (m : FrameMemory) (g : Grab fmt.Pixel) (d : Daemon fmt) : Prop :=
  ∃ e calls, d.updateScreenLoggedMapped m g = some (e, calls) ∧
    Detects d e calls (g.frame fmt) ∧ e.Settled m g

/-- The frame fits an `int` or is on display, and it is addressed rightly, both by the
panning state of the call and by the one that it reports. -/
def Detectable (g : Grab fmt.Pixel) (d : Daemon fmt) : Prop :=
  (fmt.sw * fmt.sh * fmt.bpp < 2 ^ 31 ∨ ¬ d.Differs (g.frame fmt)) ∧
    g.Addressed fmt d.scrinfo ∧ g.Addressed fmt (g.scrinfo d.scrinfo)

theorem detectsExactly_of_detectable (hd : d.Mapped m) (hz : d.displayRotate180 = false)
    (hg : m.Yields fmt g) (h : d.Detectable g) : d.DetectsExactly m g := by
  obtain ⟨hfit, hold, hnew⟩ := h
  have hreads := fun p => reads_of_addressed (p := p) hd.reported hg hold
  have hframe := fun p hp => (hreads p hp).2
  have hfits : d.scanned.Fits fmt := (scanned_of_upright hz).symm ▸ hd.sound.fits
  rw [not_differs_iff] at hfit
  obtain ⟨e, he⟩ := (updateScreen_defined_iff hd.sound hz hframe).mpr hfit
  have hlogged := updateScreenLogged_eq g d
  rw [he, Option.map_some] at hlogged
  have hmapped : d.ReadsMapped m g := (readsMapped_iff hfits).mpr fun p hp => (hreads p hp).1
  refine ⟨e, _, loggedMapped_eq_some.mpr ⟨hmapped, hlogged⟩,
    (detects_of_logged hd.sound hz hlogged).congr hframe, ?_⟩
  have hstep : d.step (.updateScreen g) = some e := he
  have hsound := mapped_step (show Op.Valid (.updateScreen g) from trivial) hg hd hstep
  refine settled_of_not_differs hsound ((settings_step hstep).2.trans hz) hg
    (updateScreen_frame he).2.2.2 hnew ?_
  rw [← differs_congr hframe]
  exact not_differs_updateScreen hd.sound hz he

/-- A logged call that marks nothing has found the frame on display. -/
theorem not_differs_of_logged (hd : d.Sound) (hz : d.displayRotate180 = false)
    (h : d.updateScreenLogged g = some (e, [])) : ¬ d.Differs (g.pixel fmt d.scrinfo) := by
  rw [← idle_iff_not_differs hd hz]
  by_contra hi
  rw [updateScreenLogged_eq, if_neg hi] at h
  obtain ⟨e', -, heq⟩ := Option.map_eq_some_iff.mp h
  exact absurd (Prod.mk.inj heq).2 (by simp)

theorem detectable_of_detectsExactly (hm : m.Small) (hd : d.Mapped m)
    (hz : d.displayRotate180 = false) (hg : m.Yields fmt g) (h : d.DetectsExactly m g) :
    d.Detectable g := by
  obtain ⟨e, calls, hlogged, -, hsettled⟩ := h
  obtain ⟨hmapped, hlogged⟩ := loggedMapped_eq_some.mp hlogged
  rw [updateScreenLogged_eq] at hlogged
  obtain ⟨e, he, heq⟩ := Option.map_eq_some_iff.mp hlogged
  obtain ⟨rfl, rfl⟩ := Prod.mk.inj heq
  have hstep : d.step (.updateScreen g) = some e := he
  have hmap := mapped_step (show Op.Valid (.updateScreen g) from trivial) hg hd hstep
  have hzero := (settings_step hstep).2.trans hz
  have hfits : d.scanned.Fits fmt := (scanned_of_upright hz).symm ▸ hd.sound.fits
  have hfits' : e.scanned.Fits fmt := (scanned_of_upright hzero).symm ▸ hmap.sound.fits
  -- the same frame once more is read by its own panning state, and found on display
  obtain ⟨hmapped', hlogged'⟩ := loggedMapped_eq_some.mp
    (hsettled [] e g (by simp) rfl hg ⟨fun _ _ => rfl, fun _ => rfl⟩)
  have hinMemory := (readsMapped_iff hfits').mp hmapped'
  rw [(updateScreen_frame he).2.2.2] at hinMemory
  have hnew := addressed_own_of_inMemory hm hg hinMemory
  have hreads := fun p => reads_of_addressed (p := p) hmap.reported hg
    ((updateScreen_frame he).2.2.2.symm ▸ hnew)
  have hdisplay := not_differs_of_logged hmap.sound hzero hlogged'
  rw [differs_congr fun p hp => (hreads p hp).2, not_differs_iff] at hdisplay
  have hread := not_differs_iff.mp (not_differs_updateScreen hd.sound hz he)
  have hframe : ∀ p, Grid.Inside fmt.sw fmt.sh p → g.pixel fmt d.scrinfo p = g.frame fmt p :=
    fun p hp => hread.unique hdisplay hp
  refine ⟨?_, addressed_of_reads hm hd.reported hg ((readsMapped_iff hfits).mp hmapped) hframe,
    hnew⟩
  rw [not_differs_iff]
  exact (updateScreen_defined_iff hd.sound hz hframe).mp ⟨e, he⟩

/-- In every state that a run without `-z` reaches, change detection is exact on a frame if the
frame fits an `int` or is on display, and is addressed rightly; and in a framebuffer of at
most `2 ^ 32` cells only then. -/
theorem detectsExactly_iff {o : Options} (ho : Upright o.rotation)
    (hz : o.displayRotate180 = false) {scrinfo : FbVarScreeninfo} (hs : m.Reported fmt scrinfo)
    {l : List (Op fmt)} (hl : ∀ op ∈ l, op.Valid ∧ op.Yields m)
    (hrun : mappedRunFrom fmt o scrinfo m l = some d) (hg : m.Yields fmt g) :
    (d.Detectable g → d.DetectsExactly m g) ∧
      (m.Small → d.DetectsExactly m g → d.Detectable g) := by
  obtain ⟨hd, hset⟩ := mapped_runFrom ho hs hl hrun
  exact ⟨detectsExactly_of_detectable hd (hset.trans hz) hg,
    fun hm => detectable_of_detectsExactly hm hd (hset.trans hz) hg⟩

theorem detectsExactly_portrait :
    (portrait 90 100).DetectsExactly .buffers (.buffer fun _ => 1) :=
  (detectsExactly_iff (m := .buffers) (g := .buffer fun _ => 1)
    (o := { rotation := 90, scaling := 100, displayRotate180 := false }) (by decide) rfl trivial
    (l := []) (by simp)
    (Option.bind_eq_some_iff.mpr ⟨_, initVncServer_portrait 90 100, rfl⟩) trivial).1
    ⟨Or.inl (by decide), trivial, trivial⟩

/-- The first frame of 8192 by 8192 pixels of 32 bits is not detected. -/
theorem not_detectsExactly_8192x8192 :
    ¬ ∀ (fmt : ScreenFormat) (o : Options) (scrinfo : FbVarScreeninfo) (l : List (Op fmt))
      (d : Daemon fmt) (g : Grab fmt.Pixel), Upright o.rotation → o.displayRotate180 = false →
      (∀ op ∈ l, op.Valid ∧ op.Yields .buffers) → mappedRunFrom fmt o scrinfo .buffers l = some d →
      FrameMemory.Yields fmt .buffers g → d.DetectsExactly .buffers g := by
  intro h
  have hfmt : ScreenFormat.Supported ⟨8192, 8192, 32⟩ := by decide
  have hlarge := h ⟨8192, 8192, 32⟩ { rotation := 0, scaling := 100, displayRotate180 := false }
    ⟨0, 0, 0, 0, 0, 0⟩ [] _ (.buffer fun _ => 1) (by decide) rfl (by simp)
    (Option.bind_eq_some_iff.mpr ⟨_, initVncServer_eq_some.mpr ⟨by decide, hfmt, rfl⟩, rfl⟩) trivial
  have hd := sound_started hfmt (by decide)
    (show Upright { rotation := 0, scaling := 100, displayRotate180 := false : Options }.rotation
      by decide) ⟨0, 0, 0, 0, 0, 0⟩
  have hdetectable := detectable_of_detectsExactly (m := .buffers) (g := .buffer fun _ => 1)
    trivial ⟨hd, trivial⟩ rfl trivial hlarge
  rcases hdetectable.1 with hb | hsame
  · exact absurd hb (by decide)
  · exact not_holdsFrame_ones hfmt (by decide) (by decide) _ _ (not_differs_iff.mp hsame)

end Daemon

end DroidVnc
