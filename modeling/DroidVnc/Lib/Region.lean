import Mathlib.Data.Finset.Prod
import Mathlib.Data.Int.Range

/-! Sets of cells of the plane: half-open rectangles, and the extent (smallest
and largest coordinates) of a list of cells as a running minimum and maximum. -/

abbrev Region := Finset (ℤ × ℤ)

namespace Region

/-- The cells of `[x1, x2) × [y1, y2)`; never to be enumerated, only spoken about. -/
@[irreducible] def rect (x1 y1 x2 y2 : ℤ) : Region :=
  (Int.range x1 x2).toFinset ×ˢ (Int.range y1 y2).toFinset

@[simp] theorem mem_rect {x1 y1 x2 y2 : ℤ} {p : ℤ × ℤ} :
    p ∈ rect x1 y1 x2 y2 ↔ (x1 ≤ p.1 ∧ p.1 < x2) ∧ y1 ≤ p.2 ∧ p.2 < y2 := by
  simp [rect, Int.mem_range_iff]

/-- A rectangle at the origin whose sides are exchanged sticks out of the
original one unless it is a square or empty. -/
theorem rect_swap_subset_iff {w h : ℤ} (hw : 0 ≤ w) (hh : 0 ≤ h) :
    rect 0 0 h w ⊆ rect 0 0 w h ↔ w = h ∨ w = 0 ∨ h = 0 := by
  constructor
  · intro hsub
    by_contra hne
    have hcorner : (h - 1, w - 1) ∈ rect 0 0 h w := by rw [mem_rect]; omega
    have := mem_rect.mp (hsub hcorner)
    omega
  · rintro h p hp
    rw [mem_rect] at hp ⊢
    omega

/-! ### Extents -/

/-- Running minimum and maximum of both coordinates. -/
structure Extent where
  minX : ℤ
  maxX : ℤ
  minY : ℤ
  maxY : ℤ
  deriving DecidableEq, Repr

namespace Extent

def add (e : Extent) (p : ℤ × ℤ) : Extent where
  minX := min e.minX p.1
  maxX := max e.maxX p.1
  minY := min e.minY p.2
  maxY := max e.maxY p.2

def addAll (e : Extent) (l : List (ℤ × ℤ)) : Extent := l.foldl add e

def Covers (e : Extent) (p : ℤ × ℤ) : Prop :=
  (e.minX ≤ p.1 ∧ p.1 ≤ e.maxX) ∧ e.minY ≤ p.2 ∧ p.2 ≤ e.maxY

theorem covers_add_self (e : Extent) (p : ℤ × ℤ) : (e.add p).Covers p := by
  simp [Covers, add]

theorem Covers.add {e : Extent} {p : ℤ × ℤ} (h : e.Covers p) (q : ℤ × ℤ) :
    (e.add q).Covers p := by
  obtain ⟨⟨hx1, hx2⟩, hy1, hy2⟩ := h
  exact ⟨⟨min_le_of_left_le hx1, le_max_of_le_left hx2⟩,
    min_le_of_left_le hy1, le_max_of_le_left hy2⟩

theorem Covers.addAll {e : Extent} {p : ℤ × ℤ} (h : e.Covers p) (l : List (ℤ × ℤ)) :
    (e.addAll l).Covers p := by
  induction l generalizing e with
  | nil => exact h
  | cons q l ih => exact ih (h.add q)

theorem covers_addAll {e : Extent} {l : List (ℤ × ℤ)} {p : ℤ × ℤ} (hp : p ∈ l) :
    (e.addAll l).Covers p := by
  induction l generalizing e with
  | nil => simp at hp
  | cons q l ih =>
    rcases List.mem_cons.mp hp with rfl | hp
    · exact (covers_add_self e p).addAll l
    · exact ih hp

/-- The smallest row is the start value or the row of a cell of the list. -/
theorem minY_addAll (e : Extent) (l : List (ℤ × ℤ)) :
    (e.addAll l).minY = e.minY ∨ ∃ p ∈ l, p.2 = (e.addAll l).minY := by
  induction l generalizing e with
  | nil => exact Or.inl rfl
  | cons q l ih =>
    rcases ih (e.add q) with h | ⟨p, hp, h⟩
    · rcases min_choice e.minY q.2 with hmin | hmin
      · exact Or.inl (h.trans hmin)
      · exact Or.inr ⟨q, by simp, (h.trans hmin).symm⟩
    · exact Or.inr ⟨p, by simp [hp], h⟩

/-- The largest row is the start value or the row of a cell of the list. -/
theorem maxY_addAll (e : Extent) (l : List (ℤ × ℤ)) :
    (e.addAll l).maxY = e.maxY ∨ ∃ p ∈ l, p.2 = (e.addAll l).maxY := by
  induction l generalizing e with
  | nil => exact Or.inl rfl
  | cons q l ih =>
    rcases ih (e.add q) with h | ⟨p, hp, h⟩
    · rcases max_choice e.maxY q.2 with hmax | hmax
      · exact Or.inl (h.trans hmax)
      · exact Or.inr ⟨q, by simp, (h.trans hmax).symm⟩
    · exact Or.inr ⟨p, by simp [hp], h⟩

end Extent

end Region
