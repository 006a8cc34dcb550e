import DroidVnc.Lib.CompareStore
import DroidVnc.Screen.Daemon

/-! The screen copy `update_screen`. One of four loop nests, chosen by the
rotation, compares every source pixel with the cell of `cmpbuf` it belongs to,
stores it where it differs and keeps the extent of what it has stored. If
anything was stored, `cmpbuf` is copied to `vncbuf` and the extent, padded, is
marked as modified. The indices of the four nests are those of `place`; that and
the exactness of the comparison are what the results on the copy rest on. -/

namespace DroidVnc

open CompareStore

/-- A loop nest `for (j = 0; j < outer; j++) for (i = 0; i < inner; i++)`. -/
structure LoopNest where
  outer : ℤ
  inner : ℤ
  /-- The index into `a` for `(i, j)`. -/
  dest : ℤ × ℤ → ℤ
  /-- The coordinates that a change at `(i, j)` enters into the extent. -/
  mark : ℤ × ℤ → ℤ × ℤ

def Screen.loopNest (s : Screen) : LoopNest :=
  if s.rotation = 0 then
    { outer := s.height
      inner := s.width
      dest := fun (i, j) => i + j * s.width
      mark := fun (i, j) => (i, j) }
  else if s.rotation = 90 then
    { outer := s.width
      inner := s.height
      dest := fun (i, j) => s.width - 1 - j + i * s.width
      mark := fun (i, j) => (s.width - j, i) }
  else if s.rotation = 180 then
    { outer := s.height
      inner := s.width
      dest := fun (i, j) => (s.width - 1 - i) + (s.height - 1 - j) * s.width
      mark := fun (i, j) => (i, s.height - j) }
  else if s.rotation = 270 then
    { outer := s.width
      inner := s.height
      dest := fun (i, j) => j + (s.height - 1 - i) * s.width
      mark := fun (i, j) => (j, i) }
  else
    -- no branch for this rotation: no loop runs
    { outer := 0, inner := 0, dest := fun _ => 0, mark := fun p => p }

def LoopNest.sites (n : LoopNest) : List (ℤ × ℤ) := nest n.outer n.inner

/-- What the loops accumulate besides `a`: the extent and `idle`. -/
abbrev Found := Region.Extent × Bool

/-- `min_x`, `max_x`, `min_y`, `max_y` and `idle` before the loops. -/
def Found.init : Found := ({ minX := 99999, maxX := -1, minY := 99999, maxY := -1 }, true)

/-- A change at `p` enters the extent and clears `idle`. -/
def LoopNest.note (n : LoopNest) (f : Found) (p : ℤ × ℤ) : Found := (f.1.add (n.mark p), false)

/-- The loops on `a = cmpbuf` for the frame with pixels `b`. -/
def Screen.scan {α : Type} [DecidableEq α] (s : Screen) (a : Mem α) (b : ℤ × ℤ → α) :
    Mem α × Found :=
  CompareStore.scan s.loopNest.dest b s.loopNest.note s.loopNest.sites (a, Found.init)

namespace Daemon

variable {fmt : ScreenFormat}

/-- The orientation the loops work with: half a turn further with `-z`. -/
def scanned (d : Daemon fmt) : Screen :=
  if d.displayRotate180 then { d.screen with rotation := (d.screen.rotation + 180) % 65536 }
  else d.screen

/-- `update_screen`, with `g` what reading the frame yields. There is no result
where the byte count of the `memcpy` overflows. -/
def updateScreen (g : Grab fmt.Pixel) (d : Daemon fmt) : Option (Daemon fmt) :=
  let r := d.screen.rotation
  let b := g.pixel fmt d.scrinfo
  let d := { d with screen := d.scanned, scrinfo := g.scrinfo d.scrinfo }
  let (a, extent, idle) := d.screen.scan d.cmpbuf b
  let d := { d with cmpbuf := a, idle := idle }
  let result :=
    if idle then some d
    else fmt.frameBits.map fun bits =>
      { d with vncbuf := memcpy d.vncbuf a (fmt.bpp / 8) (bits / 8) }.markRectAsModified
        (extent.minX - 1 - 1) extent.minY (extent.maxX + 1) (extent.maxY + 1)
  result.map fun d =>
    if d.displayRotate180 then { d with screen := { d.screen with rotation := r } } else d

end Daemon

/-! ### The indices of the loops -/

section Indices

variable {fmt : ScreenFormat} {s : Screen}

theorem mem_sites (h : s.Fits fmt) {p : ℤ × ℤ} :
    p ∈ s.loopNest.sites ↔ Grid.Inside fmt.sw fmt.sh p := by
  have hdims := h.dims
  unfold Screen.Turned at hdims
  unfold LoopNest.sites Screen.loopNest
  rcases h.upright with h | h | h | h <;> simp_all [Grid.Inside]

omit fmt in
/-- The cell the nest stores a source pixel in is the row-major cell of its place,
for frames of any size. -/
theorem dest_eq_index_of_turned {sw sh : ℤ} (hr : Upright s.rotation) (hs : s.Turned sw sh)
    (p : ℤ × ℤ) : s.loopNest.dest p = Grid.index s.width (place s.rotation sw sh p) := by
  unfold Screen.Turned at hs
  unfold Screen.loopNest place Grid.index
  rcases hr with h | h | h | h <;> simp_all <;> ring

theorem dest_eq_index (h : s.Fits fmt) (p : ℤ × ℤ) :
    s.loopNest.dest p = Grid.index s.width (place s.rotation fmt.sw fmt.sh p) :=
  dest_eq_index_of_turned h.upright h.dims p

theorem dest_inj (h : s.Fits fmt) {p q : ℤ × ℤ} (hp : p ∈ s.loopNest.sites)
    (hq : q ∈ s.loopNest.sites) (heq : s.loopNest.dest p = s.loopNest.dest q) : p = q := by
  have hp := inside_place h ((mem_sites h).mp hp)
  have hq := inside_place h ((mem_sites h).mp hq)
  rw [dest_eq_index h, dest_eq_index h] at heq
  exact place_injective h.upright _ _ (Grid.index_inj hp.1 hq.1 heq)

theorem pairwise_dest (h : s.Fits fmt) :
    s.loopNest.sites.Pairwise fun p q => s.loopNest.dest p ≠ s.loopNest.dest q :=
  pairwise_nest fun _ hp _ hq => dest_inj h hp hq

theorem Screen.Fits.area (h : s.Fits fmt) : s.width * s.height = fmt.sw * fmt.sh := by
  have hdims := h.dims
  unfold Turned at hdims
  split_ifs at hdims
  · rw [hdims.1, hdims.2]
  · rw [hdims.1, hdims.2, mul_comm]

theorem Screen.Fits.width_nonneg (h : s.Fits fmt) : 0 ≤ s.width := by
  have hdims := h.dims
  unfold Turned at hdims
  have := fmt.sw_nonneg
  have := fmt.sh_nonneg
  split_ifs at hdims <;> omega

theorem Screen.Fits.height_nonneg (h : s.Fits fmt) : 0 ≤ s.height := by
  have hdims := h.dims
  unfold Turned at hdims
  have := fmt.sw_nonneg
  have := fmt.sh_nonneg
  split_ifs at hdims <;> omega

theorem dest_bounds (h : s.Fits fmt) {p : ℤ × ℤ} (hp : p ∈ s.loopNest.sites) :
    0 ≤ s.loopNest.dest p ∧ s.loopNest.dest p < fmt.sw * fmt.sh := by
  have hin := inside_place h ((mem_sites h).mp hp)
  rw [dest_eq_index h, ← h.area]
  exact ⟨Grid.index_nonneg hin, Grid.index_lt hin⟩

end Indices

/-! ### The result of the loops -/

namespace Screen

variable {fmt : ScreenFormat} {α : Type} [DecidableEq α] {s : Screen} {a : Mem α} {b : ℤ × ℤ → α}

/-- The source pixels that differ from what `a` holds for them. -/
def changed (s : Screen) (a : Mem α) (b : ℤ × ℤ → α) : List (ℤ × ℤ) :=
  differing s.loopNest.dest b s.loopNest.sites a

theorem mem_changed {p : ℤ × ℤ} :
    p ∈ s.changed a b ↔ p ∈ s.loopNest.sites ∧ a (s.loopNest.dest p) ≠ b p := mem_differing

theorem scan_fst_place (h : s.Fits fmt) {p : ℤ × ℤ} (hp : Grid.Inside fmt.sw fmt.sh p) :
    (s.scan a b).1 (Grid.index s.width (place s.rotation fmt.sw fmt.sh p)) = b p := by
  rw [← dest_eq_index h]
  exact scan_fst_of_mem (pairwise_dest h) ((mem_sites h).mpr hp)

theorem scan_fst_outside (h : s.Fits fmt) {k : ℤ} (hk : ¬ (0 ≤ k ∧ k < fmt.sw * fmt.sh)) :
    (s.scan a b).1 k = a k :=
  scan_fst_of_forall_ne fun _ hp heq => hk (heq ▸ dest_bounds h hp)

theorem foldl_note (n : LoopNest) (l : List (ℤ × ℤ)) (f : Found) :
    l.foldl n.note f = (f.1.addAll (l.map n.mark), f.2 && l.isEmpty) := by
  induction l generalizing f with
  | nil => simp [Region.Extent.addAll]
  | cons p l ih => simp [ih, LoopNest.note, Region.Extent.addAll]

/-- The extent found is that of the changed pixels, and `idle` stays exactly
when there are none. -/
theorem scan_snd (h : s.Fits fmt) :
    (s.scan a b).2 =
      (Found.init.1.addAll ((s.changed a b).map s.loopNest.mark), (s.changed a b).isEmpty) := by
  rw [scan, CompareStore.scan_snd (pairwise_dest h), foldl_note]
  rfl

theorem scan_of_changed_nil (h : s.changed a b = []) : s.scan a b = (a, Found.init) :=
  scan_of_differing_nil h

end Screen

/-! ### The call as a whole -/

namespace Daemon

variable {fmt : ScreenFormat} {g : Grab fmt.Pixel} {d d' : Daemon fmt}

def scanResult (g : Grab fmt.Pixel) (d : Daemon fmt) : Mem fmt.Pixel × Found :=
  d.scanned.scan d.cmpbuf (g.pixel fmt d.scrinfo)

def changed (g : Grab fmt.Pixel) (d : Daemon fmt) : List (ℤ × ℤ) :=
  d.scanned.changed d.cmpbuf (g.pixel fmt d.scrinfo)

/-- The region that a call which finds a change marks. -/
def handedRegion (g : Grab fmt.Pixel) (d : Daemon fmt) : Region :=
  let extent := (d.scanResult g).2.1
  markedRegion d.screen (extent.minX - 1 - 1) extent.minY (extent.maxX + 1) (extent.maxY + 1)

@[simp] theorem scanned_width (d : Daemon fmt) : d.scanned.width = d.screen.width := by
  unfold scanned; split_ifs <;> rfl

@[simp] theorem scanned_height (d : Daemon fmt) : d.scanned.height = d.screen.height := by
  unfold scanned; split_ifs <;> rfl

theorem markedRegion_scanned (d : Daemon fmt) (x1 y1 x2 y2 : ℤ) :
    markedRegion d.scanned x1 y1 x2 y2 = markedRegion d.screen x1 y1 x2 y2 := by
  simp [markedRegion]

theorem restore_scanned (d : Daemon fmt) :
    (if d.displayRotate180 then { d.scanned with rotation := d.screen.rotation } else d.scanned) =
      d.screen := by
  unfold scanned; split_ifs <;> rfl

/-- A call that finds nothing changes neither buffer and marks nothing. -/
theorem updateScreen_idle (h : (d.scanResult g).2.2 = true) :
    d.updateScreen g = some { d with
      cmpbuf := (d.scanResult g).1
      idle := true
      scrinfo := g.scrinfo d.scrinfo } := by
  have hr := restore_scanned d
  unfold scanResult at h ⊢
  simp only [updateScreen, h, if_true, Option.map_some, Option.some.injEq]
  split_ifs at hr ⊢ with hz <;> simp only [hr]

/-- A call that finds a change publishes the buffer and marks the padded extent,
if the byte count fits. -/
theorem updateScreen_change (h : (d.scanResult g).2.2 = false) :
    d.updateScreen g = fmt.frameBits.map fun bits => { d with
      cmpbuf := (d.scanResult g).1
      vncbuf := memcpy d.vncbuf (d.scanResult g).1 (fmt.bpp / 8) (bits / 8)
      idle := false
      scrinfo := g.scrinfo d.scrinfo
      clients := d.clients.map (Client.mark (d.handedRegion g)) } := by
  have hr := restore_scanned d
  unfold handedRegion scanResult at *
  simp only [updateScreen, h, Bool.false_eq_true, if_false, Option.map_map]
  congr 1
  funext bits
  simp only [Function.comp, markRectAsModified, markedRegion_scanned]
  split_ifs at hr ⊢ with hz <;> simp only [hr]

/-- What a call that returns leaves as it was. -/
theorem updateScreen_frame (h : d.updateScreen g = some d') :
    d'.screen = d.screen ∧ d'.scaling = d.scaling ∧ d'.displayRotate180 = d.displayRotate180 ∧
      d'.scrinfo = g.scrinfo d.scrinfo := by
  cases hi : (d.scanResult g).2.2 with
  | true =>
    obtain rfl := Option.some.inj ((updateScreen_idle hi).symm.trans h)
    exact ⟨rfl, rfl, rfl, rfl⟩
  | false =>
    obtain ⟨bits, -, rfl⟩ := Option.map_eq_some_iff.mp ((updateScreen_change hi).symm.trans h)
    exact ⟨rfl, rfl, rfl, rfl⟩

/-- The clients after a call: at most the handed region is added to what was
pending, and nothing else changes. -/
theorem mem_updateScreen_clients (h : d.updateScreen g = some d') {cl : Client fmt.Pixel}
    (hcl : cl ∈ d'.clients) :
    ∃ old ∈ d.clients, cl = old ∧ (d.scanResult g).2.2 = true ∨
      cl = old.mark (d.handedRegion g) ∧ (d.scanResult g).2.2 = false := by
  cases hi : (d.scanResult g).2.2 with
  | true =>
    obtain rfl := Option.some.inj ((updateScreen_idle hi).symm.trans h)
    exact ⟨cl, hcl, Or.inl ⟨rfl, rfl⟩⟩
  | false =>
    obtain ⟨bits, -, rfl⟩ := Option.map_eq_some_iff.mp ((updateScreen_change hi).symm.trans h)
    obtain ⟨old, hold, rfl⟩ := List.mem_map.mp hcl
    exact ⟨old, hold, Or.inr ⟨rfl, rfl⟩⟩

end Daemon

end DroidVnc
