import Mathlib.Data.Int.Range
import Mathlib.Data.List.Basic
import DroidVnc.Lib.Grid
import DroidVnc.Lib.Move
import DroidVnc.Rfb.Iterator

/-! Copies within a picture. `rfbSendCopyRegion` sends a region as CopyRects, which the
viewer carries out one by one; `rfbDoCopyRegion` moves the server's own pixels. Both go
through the rectangles of a region, but not in the same order. -/

namespace DroidVnc.Rfb

open Move

/-- The pixel that a copy by `dx`, `dy` takes a pixel from. -/
def copySource (dx dy : ℤ) (p : ℤ × ℤ) : ℤ × ℤ := (p.1 - dx, p.2 - dy)

/-- The order of a loop from `a` on, short of `b`, that moves things by `d`. -/
def axisOrder (d a b : ℤ) : List ℤ := towards (decide (0 ≤ d)) (Int.range a b)

variable {α : Type}

def copyRectangleFromRectangle (srcX srcY w h destX destY : ℤ) (buffer : ℤ × ℤ → α) :
    ℤ × ℤ → α :=
  (axisOrder (destY - srcY) destY (destY + h)).foldl (fun buffer j =>
    (axisOrder (destX - srcX) destX (destX + w)).foldl (fun buffer i =>
      Function.update buffer (i, j) (buffer (i + (srcX - destX), j + (srcY - destY))))
      buffer) buffer

/-- One CopyRect of an update: its rectangle and `rfbCopyRect`, in 16 bits each. -/
structure CopyRect where
  x : ℤ
  y : ℤ
  w : ℤ
  h : ℤ
  srcX : ℤ
  srcY : ℤ
  deriving DecidableEq, Repr

/-- `uint16_t`. -/
def u16 (z : ℤ) : ℤ := z % 2 ^ 16

def updateBufSize : ℕ := 30000

def copyRects (reg : SraRegion) (dx dy : ℤ) : List CopyRect :=
  (rgnRects reg (decide (0 < dx)) (decide (0 < dy))).map fun r =>
    ⟨u16 r.x1, u16 r.y1, u16 (r.x2 - r.x1), u16 (r.y2 - r.y1), u16 (r.x1 - dx), u16 (r.y1 - dy)⟩

/-- `rfbSendCopyRegion` of a client that is not scaled, with `ublen` bytes in the update
buffer. Each CopyRect takes 16 more, and nothing checks that they fit. -/
def sendCopyRegion (ublen : ℕ) (reg : SraRegion) (dx dy : ℤ) : Option (List CopyRect) :=
  let copies := copyRects reg dx dy
  if ublen + 16 * copies.length ≤ updateBufSize then some copies else none

def handleCopyRect (buffer : ℤ × ℤ → α) (c : CopyRect) : ℤ × ℤ → α :=
  copyRectangleFromRectangle c.srcX c.srcY c.w c.h c.x c.y buffer

def HasRow (x1 x2 j : ℤ) (p : ℤ × ℤ) : Prop := (x1 ≤ p.1 ∧ p.1 < x2) ∧ p.2 = j

instance (x1 x2 j : ℤ) : DecidablePred (HasRow x1 x2 j) := fun _ =>
  inferInstanceAs (Decidable (_ ∧ _))

/-- `rfbDoCopyRegion`: the rectangles one by one, their rows with `memmove`. -/
def doCopyRegion (copyRegion : SraRegion) (dx dy : ℤ) (frameBuffer : ℤ × ℤ → α) : ℤ × ℤ → α :=
  (rgnRects copyRegion (decide (dx < 0)) (decide (dy < 0))).foldl (fun frameBuffer r =>
    moveAll (copySource dx dy) (HasRow r.x1 r.x2) (axisOrder dy r.y1 r.y2) frameBuffer) frameBuffer

/-! ### One rectangle -/

theorem pairwise_int_range (a b : ℤ) : (Int.range a b).Pairwise (· < ·) := by
  unfold Int.range
  rw [List.pairwise_map]
  exact List.pairwise_lt_range.imp fun h => by omega

/-- A loop that goes against the movement reads nothing that it has written. -/
theorem inOrder_axisOrder {src : ℤ × ℤ → ℤ × ℤ} {has : ℤ → ℤ × ℤ → Prop} (axis : ℤ × ℤ → ℤ)
    {d a b : ℤ} (hhas : ∀ i p, has i p → axis p = i) (hsrc : ∀ p, axis (src p) = axis p - d) :
    InOrder src has (axisOrder d a b) := by
  refine (pairwise_towards (pairwise_int_range a b)).imp fun {i j} hij p hjp hip => ?_
  have hj := hhas j p hjp
  have hi := hhas i _ hip
  rw [hsrc] at hi
  split_ifs at hij with hd
  · have hd' := of_decide_eq_true hd
    omega
  · have hd' : ¬0 ≤ d := fun h => hd (decide_eq_true h)
    omega

theorem mem_axisOrder {d a b i : ℤ} : i ∈ axisOrder d a b ↔ a ≤ i ∧ i < b := by
  rw [axisOrder, mem_towards, Int.mem_range_iff]

theorem moveAll_rows (r : SraRect) (dx dy : ℤ) (m : ℤ × ℤ → α) :
    moveAll (copySource dx dy) (HasRow r.x1 r.x2) (axisOrder dy r.y1 r.y2) m =
      moveAt (copySource dx dy) r.Has m := by
  apply moveAll_eq_moveAt
  · exact inOrder_axisOrder Prod.snd (fun _ _ h => h.2) fun _ => rfl
  · intro p
    constructor
    · intro hp
      exact ⟨p.2, mem_axisOrder.mpr hp.2, hp.1, rfl⟩
    · rintro ⟨j, hj, hp⟩
      have hj' := mem_axisOrder.mp hj
      exact ⟨hp.1, hp.2 ▸ hj'⟩

def HasCell (j i : ℤ) (p : ℤ × ℤ) : Prop := p = (i, j)

instance (j i : ℤ) : DecidablePred (HasCell j i) := fun p =>
  inferInstanceAs (Decidable (p = (i, j)))

/-- A row of the viewer's loops. -/
theorem foldl_cells (dx dy x w j : ℤ) (m : ℤ × ℤ → α) :
    (axisOrder dx x (x + w)).foldl (fun m i =>
      Function.update m (i, j) (m (i + -dx, j + -dy))) m =
      moveAt (copySource dx dy) (HasRow x (x + w) j) m := by
  have hcell : (fun (m : ℤ × ℤ → α) i => Function.update m (i, j) (m (i + -dx, j + -dy))) =
      fun m i => moveAt (copySource dx dy) (HasCell j i) m := by
    funext m i p
    unfold moveAt
    split_ifs with hp
    · rw [show p = (i, j) from hp, Function.update_self]
      rfl
    · exact Function.update_of_ne hp _ _
  rw [hcell]
  apply moveAll_eq_moveAt
  · refine inOrder_axisOrder Prod.fst (fun i p h => ?_) fun _ => rfl
    rw [show p = (i, j) from h]
  · intro p
    constructor
    · rintro ⟨hx, hj⟩
      exact ⟨p.1, mem_axisOrder.mpr hx, Prod.ext rfl hj⟩
    · rintro ⟨i, hi, hp⟩
      rw [show p = (i, j) from hp]
      exact ⟨mem_axisOrder.mp hi, rfl⟩

/-- The viewer's loops move a rectangle as if all at once. -/
theorem copyRectangleFromRectangle_eq (srcX srcY w h destX destY : ℤ) (m : ℤ × ℤ → α) :
    copyRectangleFromRectangle srcX srcY w h destX destY m =
      moveAt (copySource (destX - srcX) (destY - srcY))
        (SraRect.Has ⟨destX, destY, destX + w, destY + h⟩) m := by
  rw [← moveAll_rows]
  unfold copyRectangleFromRectangle moveAll
  congr 1
  funext m j
  rw [← foldl_cells, neg_sub, neg_sub]

/-! ### Regions -/

theorem inOrder_rgnRects {δ dx dy : ℤ} {s : SraRegion} (hδ : 0 ≤ δ) (h : RgnGood δ s) :
    InOrder (copySource dx dy) SraRect.Has
      (rgnRects s (decide (0 < dx)) (decide (0 < dy))) := by
  refine (pairwise_rgnRects hδ h).imp fun {r t} hrt p htp hrp => ?_
  obtain ⟨⟨hx1, hx2⟩, hy1, hy2⟩ := htp
  obtain ⟨⟨hx3, hx4⟩, hy3, hy4⟩ := hrp
  unfold copySource at hx3 hx4 hy3 hy4
  unfold SraRect.Before at hrt
  simp only [decide_eq_true_eq] at hrt
  split_ifs at hrt <;> omega

theorem moveAt_of_empty {r : SraRect} {src : ℤ × ℤ → ℤ × ℤ} (h : ∀ p, ¬r.Has p)
    (m : ℤ × ℤ → α) : moveAt src r.Has m = m :=
  funext fun p => if_neg (h p)

/-- A rectangle of a picture that 16 bits can address goes over the wire unchanged, and an
empty one does nothing. -/
theorem handleCopyRect_eq {W H dx dy : ℤ} (hW : W < 2 ^ 16) (hH : H < 2 ^ 16) {r : SraRect}
    (hx : r.x1 ≤ r.x2) (hy : r.y1 ≤ r.y2)
    (hin : ∀ p, r.Has p → Grid.Inside W H p ∧ Grid.Inside W H (copySource dx dy p))
    (m : ℤ × ℤ → α) :
    handleCopyRect m ⟨u16 r.x1, u16 r.y1, u16 (r.x2 - r.x1), u16 (r.y2 - r.y1), u16 (r.x1 - dx),
      u16 (r.y1 - dy)⟩ = moveAt (copySource dx dy) r.Has m := by
  unfold handleCopyRect
  rw [copyRectangleFromRectangle_eq]
  dsimp only
  by_cases hempty : r.x1 = r.x2 ∨ r.y1 = r.y2
  · rw [moveAt_of_empty, moveAt_of_empty]
    · rintro p ⟨⟨hx1, hx2⟩, hy1, hy2⟩
      omega
    · rintro p ⟨⟨hx1, hx2⟩, hy1, hy2⟩
      dsimp only at hx1 hx2 hy1 hy2
      rcases hempty with h | h
      · have hw : u16 (r.x2 - r.x1) = 0 := by rw [h, sub_self]; rfl
        omega
      · have hh : u16 (r.y2 - r.y1) = 0 := by rw [h, sub_self]; rfl
        omega
  · have hfirst := hin (r.x1, r.y1) ⟨⟨le_rfl, by dsimp only; omega⟩, le_rfl, by dsimp only; omega⟩
    have hlast := hin (r.x2 - 1, r.y2 - 1) ⟨by dsimp only; omega, by dsimp only; omega⟩
    unfold Grid.Inside copySource at hfirst hlast
    dsimp only at hfirst hlast
    have hu (z : ℤ) (hz : 0 ≤ z) (hz' : z < 2 ^ 16) : u16 z = z := Int.emod_eq_of_lt hz hz'
    rw [hu r.x1 (by omega) (by omega), hu r.y1 (by omega) (by omega),
      hu (r.x2 - r.x1) (by omega) (by omega), hu (r.y2 - r.y1) (by omega) (by omega),
      hu (r.x1 - dx) (by omega) (by omega), hu (r.y1 - dy) (by omega) (by omega),
      sub_sub_cancel, sub_sub_cancel, add_sub_cancel, add_sub_cancel]

/-- What the viewer makes of the CopyRects, one after the other, is the whole region copied
at once: no CopyRect reads what one before it has written. -/
theorem foldl_handleCopyRect {δ W H dx dy : ℤ} (hδ : 0 ≤ δ) (hW : W < 2 ^ 16) (hH : H < 2 ^ 16)
    {s : SraRegion} (h : RgnGood δ s)
    (hin : ∀ p ∈ pixels s, Grid.Inside W H p ∧ Grid.Inside W H (copySource dx dy p))
    (m : ℤ × ℤ → α) (p : ℤ × ℤ) :
    (p ∈ pixels s → (copyRects s dx dy).foldl handleCopyRect m p = m (copySource dx dy p)) ∧
      (p ∉ pixels s → (copyRects s dx dy).foldl handleCopyRect m p = m p) := by
  have hall : (copyRects s dx dy).foldl handleCopyRect m =
      moveAll (copySource dx dy) SraRect.Has
        (rgnRects s (decide (0 < dx)) (decide (0 < dy))) m := by
    unfold copyRects moveAll
    rw [List.foldl_map]
    refine List.foldl_ext _ _ _ fun m r hr => ?_
    have hsides := sides_of_mem_rgnRects h hr
    refine handleCopyRect_eq hW hH (by omega) (by omega) (fun p hp => hin p ?_) m
    exact (exists_mem_rgnRects h).mp ⟨r, hr, hp⟩
  rw [hall]
  constructor
  · intro hp
    exact moveAll_of_mem (inOrder_rgnRects hδ h) ((exists_mem_rgnRects h).mpr hp)
  · intro hp
    exact moveAll_of_not_mem fun r hr hrp => hp ((exists_mem_rgnRects h).mp ⟨r, hr, hrp⟩)

theorem length_copyRects {δ : ℤ} {s : SraRegion} (h : RgnGood δ s) (dx dy : ℤ) :
    (copyRects s dx dy).length = rgnCountRects s := by
  rw [copyRects, List.length_map, length_rgnRects h]

theorem sendCopyRegion_eq_some {ublen : ℕ} {s : SraRegion} {dx dy : ℤ} {copies : List CopyRect} :
    sendCopyRegion ublen s dx dy = some copies ↔
      ublen + 16 * copies.length ≤ updateBufSize ∧ copyRects s dx dy = copies := by
  unfold sendCopyRegion
  dsimp only
  split_ifs with hroom
  · rw [Option.some.injEq]
    exact ⟨fun h => ⟨h ▸ hroom, h⟩, fun h => h.2⟩
  · exact ⟨fun h => absurd h (by simp), fun h => absurd h.1 (h.2 ▸ hroom)⟩

/-- One after the other, the CopyRects move a region as if all at once. -/
def MovesRegion (s : Set (ℤ × ℤ)) (dx dy : ℤ) (copies : List CopyRect) : Prop :=
  ∀ (α : Type) (picture : ℤ × ℤ → α) (p : ℤ × ℤ),
    (p ∈ s → copies.foldl handleCopyRect picture p = picture (copySource dx dy p)) ∧
      (p ∉ s → copies.foldl handleCopyRect picture p = picture p)

/-- A region, however it was made, is sent and moved by the viewer exactly when its CopyRects
fit in the update buffer. -/
theorem sendCopyRegion_iff {W H dx dy : ℤ} (hW : W < 2 ^ 16) (hH : H < 2 ^ 16) (e : RegionTerm)
    (h : e.Sides 0)
    (hin : ∀ p ∈ e.meaning, Grid.Inside W H p ∧ Grid.Inside W H (copySource dx dy p))
    (ublen : ℕ) :
    (∃ copies, sendCopyRegion ublen e.rgn dx dy = some copies ∧
        MovesRegion e.meaning dx dy copies) ↔
      ublen + 16 * rgnCountRects e.rgn ≤ updateBufSize := by
  obtain ⟨hgood, hpixels⟩ := RegionTerm.rgn_spec le_rfl zero_le_one e h
  rw [← length_copyRects hgood dx dy]
  constructor
  · rintro ⟨copies, hsend, -⟩
    obtain ⟨hroom, rfl⟩ := sendCopyRegion_eq_some.mp hsend
    exact hroom
  · intro hroom
    refine ⟨_, sendCopyRegion_eq_some.mpr ⟨hroom, rfl⟩, fun α picture p => ?_⟩
    rw [← hpixels] at hin ⊢
    exact foldl_handleCopyRect le_rfl hW hH hgood hin picture p

/-- An area in the shape of an L moves one pixel down. -/
theorem sendCopyRegion_down :
    let e : RegionTerm := .or (.createRect 0 1 2 2) (.createRect 0 2 1 3)
    ∃ copies, sendCopyRegion 4 e.rgn 0 1 = some copies ∧ MovesRegion e.meaning 0 1 copies := by
  refine (sendCopyRegion_iff (W := 8) (H := 8) (by omega) (by omega) _
    (by simp [RegionTerm.Sides]) (fun p hp => ?_) 4).mpr ?_
  · unfold Grid.Inside copySource
    rcases hp with ⟨⟨hx, hx'⟩, hy, hy'⟩ | ⟨⟨hx, hx'⟩, hy, hy'⟩ <;> omega
  · have hrgn : (RegionTerm.or (.createRect 0 1 2 2) (.createRect 0 2 1 3)).rgn =
        [⟨1, 2, [⟨0, 2, ()⟩]⟩, ⟨2, 3, [⟨0, 1, ()⟩]⟩] := by
      simp [RegionTerm.rgn, rgnCreateRect, rgnOr, spanListOr, orLoop]
    rw [hrgn]
    decide

/-! ### The server's own pixels -/

theorem doCopyRegion_eq_moveAll (rgn : SraRegion) (dx dy : ℤ) (m : ℤ × ℤ → α) :
    doCopyRegion rgn dx dy m = moveAll (copySource dx dy) SraRect.Has
      (rgnRects rgn (decide (dx < 0)) (decide (dy < 0))) m := by
  unfold doCopyRegion moveAll
  congr 1
  funext m r
  exact moveAll_rows r dx dy m

theorem copySource_iterate (dx dy : ℤ) (k : ℕ) (p : ℤ × ℤ) :
    (copySource dx dy)^[k] p = (p.1 - k * dx, p.2 - k * dy) := by
  induction k generalizing p with
  | zero => simp
  | succ k ih =>
    rw [Function.iterate_succ_apply, ih, copySource, Nat.cast_succ]
    ext <;> dsimp only <;> ring

theorem copySource_free {dx dy : ℤ} (hd : dx ≠ 0 ∨ dy ≠ 0) (p : ℤ × ℤ) (k : ℕ)
    (h : (copySource dx dy)^[k] p = p) : k = 0 := by
  rw [copySource_iterate] at h
  have hx : (k : ℤ) * dx = 0 := by have := congrArg Prod.fst h; dsimp only at this; omega
  have hy : (k : ℤ) * dy = 0 := by have := congrArg Prod.snd h; dsimp only at this; omega
  rcases hd with hd | hd
  · exact_mod_cast (mul_eq_zero.mp hx).resolve_right hd
  · exact_mod_cast (mul_eq_zero.mp hy).resolve_right hd

/-- `rfbDoCopyRegion` moves a region right, whatever the pixels are, if and only if, of the
rectangles in the order in which it takes them, none is read after it has been written. -/
theorem doCopyRegion_right_iff [Nontrivial α] {dx dy : ℤ} (hd : dx ≠ 0 ∨ dy ≠ 0)
    (e : RegionTerm) (h : e.Sides 1) :
    (∀ frameBuffer : ℤ × ℤ → α, ∀ p ∈ e.meaning,
        doCopyRegion e.rgn dx dy frameBuffer p = frameBuffer (copySource dx dy p)) ↔
      (rgnRects e.rgn (decide (dx < 0)) (decide (dy < 0))).Pairwise fun r s =>
        ∀ p, s.Has p → ¬r.Has (copySource dx dy p) := by
  obtain ⟨hgood, hpixels⟩ := RegionTerm.rgn_spec zero_le_one le_rfl e h
  have hmem (p : ℤ × ℤ) : p ∈ e.meaning ↔
      ∃ r ∈ rgnRects e.rgn (decide (dx < 0)) (decide (dy < 0)), r.Has p := by
    rw [← hpixels, exists_mem_rgnRects hgood]
  simp only [doCopyRegion_eq_moveAll, hmem]
  constructor
  · intro hright
    exact inOrder_of_moveAll (copySource_free hd)
      ((pairwise_rgnRects zero_le_one hgood).imp SraRect.Before.disjoint) hright
  · intro horder m p hp
    exact moveAll_of_mem horder hp

/-- The area in the shape of an L, moved down, is not: the row below is taken from the row
above it, which has been written already. -/
theorem doCopyRegion_right_iff_down :
    ¬∀ frameBuffer : ℤ × ℤ → Bool,
      ∀ p ∈ (RegionTerm.or (.createRect 0 1 2 2) (.createRect 0 2 1 3)).meaning,
        doCopyRegion (RegionTerm.or (.createRect 0 1 2 2) (.createRect 0 2 1 3)).rgn 0 1
          frameBuffer p = frameBuffer (copySource 0 1 p) := by
  rw [doCopyRegion_right_iff (.inr one_ne_zero) _ (by simp [RegionTerm.Sides])]
  have hrgn : (RegionTerm.or (.createRect 0 1 2 2) (.createRect 0 2 1 3)).rgn =
      [⟨1, 2, [⟨0, 2, ()⟩]⟩, ⟨2, 3, [⟨0, 1, ()⟩]⟩] := by
    simp [RegionTerm.rgn, rgnCreateRect, rgnOr, spanListOr, orLoop]
  rw [hrgn, rgnRects_eq (by simp)]
  intro h
  have hpair : ∀ p, SraRect.Has ⟨0, 2, 1, 3⟩ p → ¬SraRect.Has ⟨0, 1, 2, 2⟩ (copySource 0 1 p) :=
    (List.pairwise_cons.mp h).1 _ List.mem_cons_self
  exact hpair (0, 2) (by decide) (by decide)

end DroidVnc.Rfb
