import Mathlib.Algebra.Order.Ring.Int
import DroidVnc.Screen.UpdateScreen

/-! Where a touch lands. `transformTouchCoordinates` takes a pixel of the VNC
screen to the coordinates of the touch device, which run from -2048 to 2047 on
both axes. It undoes the placement of the screen copy: the touch for the pixel
that shows source pixel `(i, j)` lands on `(i, j)`, to within one pixel. -/

namespace DroidVnc

/-- `*x = n*scale/size - scale/2.0`: `int` division cuts towards zero. -/
def touchAxis (n size : ℤ) : ℤ := (n * 4096).tdiv size - 2048

def transformTouchCoordinates (rotation : ℕ) (width height : ℤ) (p : ℤ × ℤ) : ℤ × ℤ :=
  if rotation = 0 then (touchAxis p.1 width, touchAxis p.2 height)
  else if rotation = 90 then (touchAxis p.2 height, touchAxis (width - p.1) width)
  else if rotation = 180 then (touchAxis (width - p.1) width, touchAxis (height - p.2) height)
  else if rotation = 270 then (touchAxis (height - p.2) height, touchAxis p.1 width)
  else p

/-- Touch coordinate `t` lands on cell `i` of an axis of `size` cells, to within one. -/
def LandsOn (size i t : ℤ) : Prop :=
  4096 * i - size < size * (t + 2048) ∧ size * (t + 2048) ≤ 4096 * (i + 1)

theorem size_mul_touchAxis {n size : ℤ} (hn : 0 ≤ n) (hs : 0 < size) :
    n * 4096 - size < size * (touchAxis n size + 2048) ∧
      size * (touchAxis n size + 2048) ≤ n * 4096 := by
  have hdiv := Int.emod_add_mul_ediv (n * 4096) size
  have hlt := Int.emod_lt_of_pos (n * 4096) hs
  have hnonneg := Int.emod_nonneg (n * 4096) hs.ne'
  rw [touchAxis, Int.tdiv_eq_ediv_of_nonneg (by omega), sub_add_cancel]
  omega

/-- The near edge of a cell lands on it. -/
theorem landsOn_touchAxis {size i : ℤ} (hi : 0 ≤ i) (hs : 0 < size) :
    LandsOn size i (touchAxis i size) := by
  obtain ⟨hlo, hhi⟩ := size_mul_touchAxis hi hs
  exact ⟨by omega, by omega⟩

/-- So does the far edge. -/
theorem landsOn_touchAxis_succ {size i : ℤ} (hi : 0 ≤ i) (hs : 0 < size) :
    LandsOn size i (touchAxis (i + 1) size) := by
  obtain ⟨hlo, hhi⟩ := size_mul_touchAxis (n := i + 1) (by omega) hs
  exact ⟨by omega, by omega⟩

section Place

variable (sw sh : ℤ) (p : ℤ × ℤ)

/-! Along each axis of the source the transform sees the near or the far edge of
the cell, whatever the rotation. -/

theorem transform_place_zero : transformTouchCoordinates 0 sw sh (place 0 sw sh p) =
    (touchAxis p.1 sw, touchAxis p.2 sh) := rfl

theorem transform_place_ninety : transformTouchCoordinates 90 sh sw (place 90 sw sh p) =
    (touchAxis p.1 sw, touchAxis (p.2 + 1) sh) := by
  show (touchAxis p.1 sw, touchAxis (sh - (sh - 1 - p.2)) sh) = _
  rw [show sh - (sh - 1 - p.2) = p.2 + 1 by ring]

theorem transform_place_half : transformTouchCoordinates 180 sw sh (place 180 sw sh p) =
    (touchAxis (p.1 + 1) sw, touchAxis (p.2 + 1) sh) := by
  show (touchAxis (sw - (sw - 1 - p.1)) sw, touchAxis (sh - (sh - 1 - p.2)) sh) = _
  rw [show sw - (sw - 1 - p.1) = p.1 + 1 by ring, show sh - (sh - 1 - p.2) = p.2 + 1 by ring]

theorem transform_place_threeQuarters :
    transformTouchCoordinates 270 sh sw (place 270 sw sh p) =
      (touchAxis (p.1 + 1) sw, touchAxis p.2 sh) := by
  show (touchAxis (sw - (sw - 1 - p.1)) sw, touchAxis p.2 sh) = _
  rw [show sw - (sw - 1 - p.1) = p.1 + 1 by ring]

end Place

/-- The transform takes the place of a source pixel back to the pixel. -/
theorem landsOn_place {s : Screen} {sw sh : ℤ} (hr : Upright s.rotation) (hs : s.Turned sw sh)
    {p : ℤ × ℤ} (hp : Grid.Inside sw sh p) {t : ℤ × ℤ}
    (ht : t = transformTouchCoordinates s.rotation s.width s.height
      (place s.rotation sw sh p)) : LandsOn sw p.1 t.1 ∧ LandsOn sh p.2 t.2 := by
  obtain ⟨⟨hi, hiw⟩, hj, hjh⟩ := hp
  have hsw : 0 < sw := by omega
  have hsh : 0 < sh := by omega
  rcases hr with h | h | h | h <;> rw [h] at ht
  · obtain ⟨hw, hh⟩ := hs.of_upright (Or.inl h)
    rw [ht, hw, hh, transform_place_zero]
    exact ⟨landsOn_touchAxis hi hsw, landsOn_touchAxis hj hsh⟩
  · obtain ⟨hw, hh⟩ := hs.of_sideways (Or.inl h)
    rw [ht, hw, hh, transform_place_ninety]
    exact ⟨landsOn_touchAxis hi hsw, landsOn_touchAxis_succ hj hsh⟩
  · obtain ⟨hw, hh⟩ := hs.of_upright (Or.inr h)
    rw [ht, hw, hh, transform_place_half]
    exact ⟨landsOn_touchAxis_succ hi hsw, landsOn_touchAxis_succ hj hsh⟩
  · obtain ⟨hw, hh⟩ := hs.of_sideways (Or.inr h)
    rw [ht, hw, hh, transform_place_threeQuarters]
    exact ⟨landsOn_touchAxis_succ hi hsw, landsOn_touchAxis hj hsh⟩

/-- Touch agrees with display: if `update_screen` stores source pixel `p` at
column `x` of row `y`, the touch for `(x, y)` lands on `p`. -/
theorem touch_agrees_with_display {s : Screen} {sw sh : ℤ} (hr : Upright s.rotation)
    (hs : s.Turned sw sh) {p : ℤ × ℤ} (hp : Grid.Inside sw sh p) {x y : ℤ}
    (hx : 0 ≤ x ∧ x < s.width) (hdest : s.loopNest.dest p = y * s.width + x) :
    LandsOn sw p.1 (transformTouchCoordinates s.rotation s.width s.height (x, y)).1 ∧
      LandsOn sh p.2 (transformTouchCoordinates s.rotation s.width s.height (x, y)).2 := by
  rw [dest_eq_index_of_turned hr hs] at hdest
  have hplace : place s.rotation sw sh p = (x, y) :=
    Grid.index_inj (inside_place_of_turned hr hs hp).1 hx hdest
  exact landsOn_place hr hs hp (by rw [hplace])

/-- At 90 degrees pixel `(10, 20)` of a 480 by 800 screen is shown at `(779, 10)`. -/
theorem touch_agrees_480x800 :
    LandsOn 480 10 (transformTouchCoordinates 90 800 480 (779, 10)).1 ∧
      LandsOn 800 20 (transformTouchCoordinates 90 800 480 (779, 10)).2 :=
  touch_agrees_with_display (s := ⟨90, 800, 480, 1600⟩) (p := (10, 20)) (by decide)
    ⟨rfl, rfl⟩ (by decide) (by decide) rfl

end DroidVnc
