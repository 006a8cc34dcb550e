import DroidVnc.Lib.Grid

/-! The cursor that the server draws. While an update goes to a client that takes no cursor
shapes, the cursor is in the framebuffer, and so in what the client is sent; afterwards it is
taken out again. -/

namespace DroidVnc.Rfb

/-- `rfbCursor`. `paint` is what a pixel of the cursor does to the pixel under it. -/
structure RfbCursor (α : Type) where
  xhot : ℤ
  yhot : ℤ
  width : ℕ
  height : ℕ
  paint : ℤ × ℤ → α → α

/-- The ends of the cursor on one axis, as `rfbShowCursor` cuts them off. -/
def shownAxis (at_ hot : ℤ) (size : ℕ) (n : ℤ) : ℤ × ℤ :=
  (max (at_ - hot) 0, if n ≤ at_ - hot + size then n - 1 else at_ - hot + size)

namespace RfbCursor

variable {α : Type} {c : RfbCursor α} {width height x y : ℤ} {p : ℤ × ℤ}

/-- On a screen of this size, the cursor at `x`, `y` is drawn over this pixel. -/
def Covers (c : RfbCursor α) (width height x y : ℤ) (p : ℤ × ℤ) : Prop :=
  ((shownAxis x c.xhot c.width width).1 ≤ p.1 ∧ p.1 < (shownAxis x c.xhot c.width width).2) ∧
    (shownAxis y c.yhot c.height height).1 ≤ p.2 ∧
      p.2 < (shownAxis y c.yhot c.height height).2

instance (c : RfbCursor α) (width height x y : ℤ) (p : ℤ × ℤ) :
    Decidable (c.Covers width height x y p) := inferInstanceAs (Decidable (_ ∧ _))

/-- `rfbShowCursor`: the framebuffer with the cursor at `x`, `y` in it. -/
def showCursor (c : RfbCursor α) (width height x y : ℤ) (frameBuffer : ℤ × ℤ → α) (p : ℤ × ℤ) :
    α :=
  if c.Covers width height x y p then
    c.paint (p.1 - (x - c.xhot), p.2 - (y - c.yhot)) (frameBuffer p)
  else frameBuffer p

theorem bounds_shownAxis {at_ hot n z : ℤ} {size : ℕ} (h1 : (shownAxis at_ hot size n).1 ≤ z)
    (h2 : z < (shownAxis at_ hot size n).2) :
    (at_ - hot ≤ z ∧ z < at_ - hot + size) ∧ 0 ≤ z ∧ z < n := by
  unfold shownAxis at h1 h2
  dsimp only at h1 h2
  split_ifs at h2 <;> omega

theorem Covers.bounds (h : c.Covers width height x y p) :
    ((x - c.xhot ≤ p.1 ∧ p.1 < x - c.xhot + c.width) ∧
        y - c.yhot ≤ p.2 ∧ p.2 < y - c.yhot + c.height) ∧ Grid.Inside width height p := by
  obtain ⟨⟨hx1, hx2⟩, hy1, hy2⟩ := h
  obtain ⟨hx, hxs⟩ := bounds_shownAxis hx1 hx2
  obtain ⟨hy, hys⟩ := bounds_shownAxis hy1 hy2
  exact ⟨⟨hx, hy⟩, hxs, hys⟩

/-- The cursor changes one pixel at a time. -/
theorem showCursor_congr {frameBuffer frameBuffer' : ℤ × ℤ → α}
    (h : frameBuffer p = frameBuffer' p) :
    c.showCursor width height x y frameBuffer p = c.showCursor width height x y frameBuffer' p := by
  unfold showCursor
  rw [h]

theorem covers_of_showCursor_ne {frameBuffer : ℤ × ℤ → α}
    (h : c.showCursor width height x y frameBuffer p ≠ frameBuffer p) :
    c.Covers width height x y p := by
  by_contra hc
  exact h (if_neg hc)

end RfbCursor

/-! ### The default cursor -/

namespace MyCursor

/-- A byte for each row, the leftmost pixel in the highest bit. -/
def source : List (BitVec 8) := [0o000, 0o102, 0o044, 0o030, 0o044, 0o102, 0o000]

def mask : List (BitVec 8) := [0o347, 0o347, 0o176, 0o074, 0o176, 0o347, 0o347]

def bit (rows : List (BitVec 8)) (q : ℤ × ℤ) : Bool :=
  ((rows[q.2.toNat]?).getD 0).getMsbD q.1.toNat

end MyCursor

/-- `myCursor`, as `rfbMakeRichCursorFromXCursor` colours it in the server's format: the
foreground is black, and `background` is what its white comes to. -/
def myCursor {α : Type} [Zero α] (background : α) : RfbCursor α where
  xhot := 3
  yhot := 3
  width := 8
  height := 7
  paint q under :=
    if MyCursor.bit MyCursor.mask q then
      if MyCursor.bit MyCursor.source q then 0 else background
    else under

/-- At 2, 0 the default cursor shows its background. -/
example : (myCursor (1 : ℕ)).showCursor 8 8 0 0 (fun _ => 5) (2, 0) = 1 := by decide

end DroidVnc.Rfb
