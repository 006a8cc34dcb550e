import DroidVnc.Input.Touch
import DroidVnc.Screen.Daemon

/-! The range of touch coordinates. `transformTouchCoordinates` computes with C
`int`s, so a value that does not fit 32 bits has no defined result. On a screen
position it gives a point of the axes that `suinput_open` declares, except in the
first column or row of an axis that it does not mirror, and on far positions of a
screen too large. Positions beyond the screen, which a client of a scaled screen
can send, are multiplied by 4096 all the same. -/

namespace DroidVnc

/-- The value of a C `int` expression; one outside 32 bits has none. -/
def intValue (v : ℤ) : Option ℤ := if -2 ^ 31 ≤ v ∧ v < 2 ^ 31 then some v else none

theorem intValue_eq_some {v w : ℤ} :
    intValue v = some w ↔ (-2 ^ 31 ≤ v ∧ v < 2 ^ 31) ∧ v = w := by
  unfold intValue
  split_ifs with h
  · rw [Option.some_inj, and_iff_right h]
  · exact iff_of_false (by simp) fun hw => h hw.1

/-- The quotient of two C `int`s. A division by zero has no result. -/
def intDiv (a b : ℤ) : Option ℤ := if b = 0 then none else intValue (a.tdiv b)

theorem intDiv_eq_some {a b w : ℤ} :
    intDiv a b = some w ↔ b ≠ 0 ∧ (-2 ^ 31 ≤ a.tdiv b ∧ a.tdiv b < 2 ^ 31) ∧ a.tdiv b = w := by
  unfold intDiv
  split_ifs with hb
  · exact iff_of_false (by simp) fun h => h.1 hb
  · rw [intValue_eq_some, and_iff_right hb]

/-- `n*scale/size - scale/2.0` in `int`s. -/
def touchAxisInt (n size : ℤ) : Option ℤ := do
  let product ← intValue (n * 4096)
  let quotient ← intDiv product size
  intValue (quotient - 2048)

/-- `(size - n)*scale/size - scale/2.0` in `int`s. -/
def mirroredAxisInt (n size : ℤ) : Option ℤ := do
  let difference ← intValue (size - n)
  touchAxisInt difference size

def transformTouchCoordinatesInt (rotation : ℕ) (width height : ℤ) (p : ℤ × ℤ) :
    Option (ℤ × ℤ) :=
  if rotation = 0 then do
    let x ← touchAxisInt p.1 width
    let y ← touchAxisInt p.2 height
    return (x, y)
  else if rotation = 90 then do
    let x ← touchAxisInt p.2 height
    let y ← mirroredAxisInt p.1 width
    return (x, y)
  else if rotation = 180 then do
    let x ← mirroredAxisInt p.1 width
    let y ← mirroredAxisInt p.2 height
    return (x, y)
  else if rotation = 270 then do
    let y ← touchAxisInt p.1 width
    let x ← mirroredAxisInt p.2 height
    return (x, y)
  else some p

/-! ### One axis -/

/-- A quotient of `int`s by a size of two or more leaves room to recentre it, and
so does one that is not negative. -/
theorem tdiv_fits {v size : ℤ} (hs : 0 < size) (hv : -2 ^ 31 ≤ v ∧ v < 2 ^ 31)
    (h : 0 ≤ v ∨ 2 ≤ size) : -2 ^ 30 ≤ v.tdiv size ∧ v.tdiv size < 2 ^ 31 := by
  rcases le_total 0 v with hnonneg | hneg
  · have hle := Int.tdiv_le_self size hnonneg
    have hquot := Int.tdiv_nonneg hnonneg hs.le
    omega
  · rcases hneg.eq_or_lt with rfl | hlt
    · simp
    have htwo : 2 ≤ size := by omega
    have hflip : v.tdiv size = -((-v) / size) := by
      rw [← Int.tdiv_eq_ediv_of_nonneg (neg_nonneg.mpr hneg), Int.neg_tdiv, neg_neg]
    have hle : (-v) / size ≤ 2 ^ 30 :=
      Int.ediv_le_of_le_mul hs (by nlinarith)
    have hquot := Int.ediv_nonneg (neg_nonneg.mpr hneg) hs.le
    omega

/-- An axis is defined when the product fits: it is what overflows first. -/
theorem touchAxisInt_eq_some {n size t : ℤ} (hs : 0 < size) (h : 0 ≤ n ∨ 2 ≤ size) :
    touchAxisInt n size = some t ↔ (-524288 ≤ n ∧ n < 524288) ∧ touchAxis n size = t := by
  simp only [touchAxisInt, touchAxis, Option.bind_eq_bind, Option.bind_eq_some_iff,
    intValue_eq_some, intDiv_eq_some]
  constructor
  · rintro ⟨_, ⟨hp, rfl⟩, _, ⟨-, -, rfl⟩, -, ht⟩
    exact ⟨by omega, ht⟩
  · rintro ⟨hn, ht⟩
    have hp : -2 ^ 31 ≤ n * 4096 ∧ n * 4096 < 2 ^ 31 := by omega
    have hq := tdiv_fits hs hp (by omega)
    exact ⟨_, ⟨hp, rfl⟩, _, ⟨hs.ne', by omega, rfl⟩, by omega, ht⟩

theorem mirroredAxisInt_eq_some {n size t : ℤ} (hs : 0 < size) (h : n ≤ size ∨ 2 ≤ size) :
    mirroredAxisInt n size = some t ↔
      (-524288 ≤ size - n ∧ size - n < 524288) ∧ touchAxis (size - n) size = t := by
  simp only [mirroredAxisInt, Option.bind_eq_bind, Option.bind_eq_some_iff, intValue_eq_some]
  constructor
  · rintro ⟨_, ⟨-, rfl⟩, ht⟩
    exact (touchAxisInt_eq_some hs (by omega)).mp ht
  · intro ht
    exact ⟨_, ⟨by omega, rfl⟩, (touchAxisInt_eq_some hs (by omega)).mpr ht⟩

theorem touchAxis_of_int {n size t : ℤ} (h : touchAxisInt n size = some t) :
    touchAxis n size = t := by
  simp only [touchAxisInt, Option.bind_eq_bind, Option.bind_eq_some_iff, intValue_eq_some,
    intDiv_eq_some] at h
  obtain ⟨_, ⟨-, rfl⟩, _, ⟨-, -, rfl⟩, -, ht⟩ := h
  exact ht

theorem touchAxis_of_mirroredInt {n size t : ℤ} (h : mirroredAxisInt n size = some t) :
    touchAxis (size - n) size = t := by
  simp only [mirroredAxisInt, Option.bind_eq_bind, Option.bind_eq_some_iff,
    intValue_eq_some] at h
  obtain ⟨_, ⟨-, rfl⟩, ht⟩ := h
  exact touchAxis_of_int ht

/-! ### Both axes -/

/-- Where it is defined, the transform is the one of unbounded integers. -/
theorem transform_of_int {rotation : ℕ} {width height : ℤ} {p t : ℤ × ℤ}
    (h : transformTouchCoordinatesInt rotation width height p = some t) :
    transformTouchCoordinates rotation width height p = t := by
  unfold transformTouchCoordinatesInt at h
  unfold transformTouchCoordinates
  split_ifs at h ⊢
  · obtain ⟨x, hx, y, hy, rfl⟩ : ∃ x, touchAxisInt p.1 width = some x ∧
        ∃ y, touchAxisInt p.2 height = some y ∧ (x, y) = t := by
      simpa [Option.bind_eq_some_iff] using h
    rw [touchAxis_of_int hx, touchAxis_of_int hy]
  · obtain ⟨x, hx, y, hy, rfl⟩ : ∃ x, touchAxisInt p.2 height = some x ∧
        ∃ y, mirroredAxisInt p.1 width = some y ∧ (x, y) = t := by
      simpa [Option.bind_eq_some_iff] using h
    rw [touchAxis_of_int hx, touchAxis_of_mirroredInt hy]
  · obtain ⟨x, hx, y, hy, rfl⟩ : ∃ x, mirroredAxisInt p.1 width = some x ∧
        ∃ y, mirroredAxisInt p.2 height = some y ∧ (x, y) = t := by
      simpa [Option.bind_eq_some_iff] using h
    rw [touchAxis_of_mirroredInt hx, touchAxis_of_mirroredInt hy]
  · obtain ⟨y, hy, x, hx, rfl⟩ : ∃ y, touchAxisInt p.1 width = some y ∧
        ∃ x, mirroredAxisInt p.2 height = some x ∧ (x, y) = t := by
      simpa [Option.bind_eq_some_iff] using h
    rw [touchAxis_of_mirroredInt hx, touchAxis_of_int hy]
  · exact Option.some.inj h

/-- The rotations at which the horizontal axis of the screen is mirrored. -/
def MirrorsWidth (rotation : ℕ) : Prop := rotation = 90 ∨ rotation = 180

/-- The rotations at which its vertical axis is. -/
def MirrorsHeight (rotation : ℕ) : Prop := rotation = 180 ∨ rotation = 270

instance (r : ℕ) : Decidable (MirrorsWidth r) := by unfold MirrorsWidth; infer_instance

instance (r : ℕ) : Decidable (MirrorsHeight r) := by unfold MirrorsHeight; infer_instance

/-- How far along its axis a touch at `n` is, from the end where the axis starts. -/
def along (mirrored : Prop) [Decidable mirrored] (size n : ℤ) : ℤ :=
  if mirrored then size - n else n

def axisInt (mirrored : Prop) [Decidable mirrored] (n size : ℤ) : Option ℤ :=
  if mirrored then mirroredAxisInt n size else touchAxisInt n size

theorem axisInt_eq_some {mirrored : Prop} [Decidable mirrored] {n size t : ℤ} (hs : 0 < size)
    (h : 0 ≤ along mirrored size n ∨ 2 ≤ size) :
    axisInt mirrored n size = some t ↔
      (-524288 ≤ along mirrored size n ∧ along mirrored size n < 524288) ∧
        touchAxis (along mirrored size n) size = t := by
  unfold along at h
  unfold axisInt along
  split_ifs at h ⊢ with hm
  · exact mirroredAxisInt_eq_some hs (by omega)
  · exact touchAxisInt_eq_some hs h

/-- Both coordinates of a pair, in the order of their computation. -/
theorem exists_bind_pair (a b : Option ℤ) (P : ℤ → Prop) :
    (∃ t : ℤ × ℤ, (do let x ← a; let y ← b; return (x, y)) = some t ∧ P t.1 ∧ P t.2) ↔
      (∃ t, a = some t ∧ P t) ∧ ∃ t, b = some t ∧ P t := by
  cases a <;> cases b <;> simp

theorem exists_bind_pair_swap (a b : Option ℤ) (P : ℤ → Prop) :
    (∃ t : ℤ × ℤ, (do let y ← a; let x ← b; return (x, y)) = some t ∧ P t.1 ∧ P t.2) ↔
      (∃ t, a = some t ∧ P t) ∧ ∃ t, b = some t ∧ P t := by
  cases a <;> cases b <;> simp [and_comm]

/-- The transform is defined with a property of both coordinates when each axis is. -/
theorem transformInt_iff {rotation : ℕ} (hr : Upright rotation) (width height : ℤ) (p : ℤ × ℤ)
    (P : ℤ → Prop) :
    (∃ t, transformTouchCoordinatesInt rotation width height p = some t ∧ P t.1 ∧ P t.2) ↔
      (∃ t, axisInt (MirrorsWidth rotation) p.1 width = some t ∧ P t) ∧
        ∃ t, axisInt (MirrorsHeight rotation) p.2 height = some t ∧ P t := by
  rcases hr with rfl | rfl | rfl | rfl
  · exact exists_bind_pair _ _ P
  · exact (exists_bind_pair _ _ P).trans and_comm
  · exact exists_bind_pair _ _ P
  · exact exists_bind_pair_swap _ _ P

/-! ### Where the transform is defined -/

/-- A coordinate `n` along an axis of `size` pixels can be scaled in `int`s. -/
def InReach (size n : ℤ) : Prop :=
  size ≠ 0 ∧ (-524288 ≤ n ∧ n < 524288) ∧ (size = 1 ∨ size = -1 → n ≠ -524288)

instance (size n : ℤ) : Decidable (InReach size n) := by unfold InReach; infer_instance

/-- A quotient by a size other than 0, 1 and -1 is at most half of what is divided. -/
theorem natAbs_tdiv_le_half {v size : ℤ} (hs : 2 ≤ size.natAbs) :
    2 * (v.tdiv size).natAbs ≤ v.natAbs := by
  rw [Int.natAbs_tdiv]
  calc 2 * (v.natAbs / size.natAbs) ≤ size.natAbs * (v.natAbs / size.natAbs) :=
        Nat.mul_le_mul_right _ hs
    _ ≤ v.natAbs := Nat.mul_div_le _ _

theorem touchAxisInt_isSome_iff {n size : ℤ} : (touchAxisInt n size).isSome ↔ InReach size n := by
  simp only [Option.isSome_iff_exists, touchAxisInt, Option.bind_eq_bind, Option.bind_eq_some_iff,
    intValue_eq_some, intDiv_eq_some, InReach]
  constructor
  · rintro ⟨_, _, ⟨hp, rfl⟩, _, ⟨hs, hq, rfl⟩, ht, -⟩
    refine ⟨hs, by omega, ?_⟩
    rintro (rfl | rfl) rfl
    · rw [Int.tdiv_one] at ht
      omega
    · rw [Int.tdiv_neg, Int.tdiv_one] at hq
      omega
  · rintro ⟨hs, hn, hone⟩
    suffices hq : -2 ^ 31 + 2048 ≤ (n * 4096).tdiv size ∧ (n * 4096).tdiv size < 2 ^ 31 by
      exact ⟨_, _, ⟨by omega, rfl⟩, _, ⟨hs, by omega, rfl⟩, by omega, rfl⟩
    by_cases htwo : 2 ≤ size.natAbs
    · have hhalf := natAbs_tdiv_le_half (v := n * 4096) htwo
      omega
    · have hn' := hone (by omega)
      obtain rfl | rfl : size = 1 ∨ size = -1 := by omega
      · rw [Int.tdiv_one]
        omega
      · rw [Int.tdiv_neg, Int.tdiv_one]
        omega

theorem mirroredAxisInt_isSome_iff {n size : ℤ} :
    (mirroredAxisInt n size).isSome ↔ InReach size (size - n) := by
  rw [← touchAxisInt_isSome_iff, mirroredAxisInt]
  simp only [Option.bind_eq_bind, Option.isSome_iff_exists, Option.bind_eq_some_iff,
    intValue_eq_some]
  constructor
  · rintro ⟨t, _, ⟨-, rfl⟩, ht⟩
    exact ⟨t, ht⟩
  · rintro ⟨t, ht⟩
    have hreach := touchAxisInt_isSome_iff.mp (Option.isSome_iff_exists.mpr ⟨t, ht⟩)
    exact ⟨t, _, ⟨⟨by have := hreach.2.1; omega, by have := hreach.2.1; omega⟩, rfl⟩, ht⟩

theorem axisInt_isSome_iff {mirrored : Prop} [Decidable mirrored] {n size : ℤ} :
    (axisInt mirrored n size).isSome ↔ InReach size (along mirrored size n) := by
  unfold axisInt along
  split_ifs
  · exact mirroredAxisInt_isSome_iff
  · exact touchAxisInt_isSome_iff

def TouchInReach (rotation : ℕ) (width height : ℤ) (p : ℤ × ℤ) : Prop :=
  Upright rotation → InReach width (along (MirrorsWidth rotation) width p.1) ∧
    InReach height (along (MirrorsHeight rotation) height p.2)

instance (rotation : ℕ) (width height : ℤ) (p : ℤ × ℤ) :
    Decidable (TouchInReach rotation width height p) := by
  unfold TouchInReach; infer_instance

theorem transformInt_isSome_iff {rotation : ℕ} {width height : ℤ} {p : ℤ × ℤ} :
    (transformTouchCoordinatesInt rotation width height p).isSome ↔
      TouchInReach rotation width height p := by
  unfold TouchInReach
  by_cases hr : Upright rotation
  · have hboth := transformInt_iff hr width height p fun _ => True
    simp only [and_true, ← Option.isSome_iff_exists, axisInt_isSome_iff] at hboth
    rw [hboth, forall_prop_of_true hr]
  · refine iff_of_true ?_ fun h => absurd h hr
    obtain ⟨h0, h90, h180, h270⟩ := not_or.mp hr |>.imp_right not_or.mp |>.imp_right
      (And.imp_right not_or.mp)
    rw [transformTouchCoordinatesInt, if_neg h0, if_neg h90, if_neg h180, if_neg h270]
    rfl

/-! ### Positions on the screen -/

/-- `user_dev.absmin` of both axes. -/
def absmin : ℤ := -2047

/-- `user_dev.absmax` of both axes. -/
def absmax : ℤ := 2048

def OnAxis (t : ℤ) : Prop := absmin ≤ t ∧ t ≤ absmax

/-- A touch less than a step along its axis is at -2048, just below `absmin`. -/
theorem onAxis_touchAxis_iff {m size : ℤ} (hm : 0 ≤ m ∧ m ≤ size) (hs : 0 < size) :
    OnAxis (touchAxis m size) ↔ size ≤ m * 4096 := by
  have hmul := size_mul_touchAxis hm.1 hs
  have hle : touchAxis m size ≤ 2048 := by
    by_contra hgt
    nlinarith
  constructor
  · intro h
    have hmin : -2047 ≤ touchAxis m size := h.1
    nlinarith
  · intro h
    refine ⟨?_, hle⟩
    show -2047 ≤ touchAxis m size
    by_contra hlt
    nlinarith

/-- The touch is at least one step along its axis, and near enough for the product. -/
def Reaches (mirrored : Prop) [Decidable mirrored] (size n : ℤ) : Prop :=
  size ≤ along mirrored size n * 4096 ∧ along mirrored size n < 524288

instance (mirrored : Prop) [Decidable mirrored] (size n : ℤ) :
    Decidable (Reaches mirrored size n) := by
  unfold Reaches; infer_instance

theorem onAxis_axisInt_iff {mirrored : Prop} [Decidable mirrored] {size n : ℤ}
    (hn : 0 ≤ n ∧ n < size) :
    (∃ t, axisInt mirrored n size = some t ∧ OnAxis t) ↔ Reaches mirrored size n := by
  have halong : 0 ≤ along mirrored size n ∧ along mirrored size n ≤ size := by
    unfold along
    split_ifs <;> omega
  have hs : 0 < size := by omega
  simp only [axisInt_eq_some hs (Or.inl halong.1), Reaches]
  constructor
  · rintro ⟨t, ⟨hfit, rfl⟩, ht⟩
    exact ⟨(onAxis_touchAxis_iff halong hs).mp ht, hfit.2⟩
  · rintro ⟨hstep, hfit⟩
    exact ⟨_, ⟨⟨by omega, hfit⟩, rfl⟩, (onAxis_touchAxis_iff halong hs).mpr hstep⟩

/-- A screen position gives a touch on the declared axes exactly when it is a step
along each of them. -/
theorem touch_on_axes_iff {rotation : ℕ} (hr : Upright rotation) {width height x y : ℤ}
    (hx : 0 ≤ x ∧ x < width) (hy : 0 ≤ y ∧ y < height) :
    (∃ t, transformTouchCoordinatesInt rotation width height (x, y) = some t ∧
        OnAxis t.1 ∧ OnAxis t.2) ↔
      Reaches (MirrorsWidth rotation) width x ∧ Reaches (MirrorsHeight rotation) height y := by
  rw [transformInt_iff hr width height (x, y) OnAxis]
  exact and_congr (onAxis_axisInt_iff hx) (onAxis_axisInt_iff hy)

/-- The second column and row of a 480 by 800 screen are on the axes. -/
theorem touch_on_axes_480x800 :
    (∃ t, transformTouchCoordinatesInt 0 480 800 (1, 1) = some t ∧ OnAxis t.1 ∧ OnAxis t.2) ↔
      Reaches (MirrorsWidth 0) 480 1 ∧ Reaches (MirrorsHeight 0) 800 1 :=
  touch_on_axes_iff (by decide) (by decide) (by decide)

/-- The first column is not: its touch is at -2048. -/
theorem touch_off_axis_480x800 :
    ¬ ∀ (rotation : ℕ) (width height x y : ℤ), Upright rotation → 0 ≤ x ∧ x < width →
      0 ≤ y ∧ y < height →
      ∃ t, transformTouchCoordinatesInt rotation width height (x, y) = some t ∧
        OnAxis t.1 ∧ OnAxis t.2 := by
  intro h
  obtain ⟨t, ht, hx, -⟩ := h 0 480 800 0 400 (by decide) (by decide) (by decide)
  obtain rfl : (-2048, 0) = t := Option.some.inj ht
  exact absurd hx.1 (by decide)

/-! ### Positions that a client sends -/

/-- `ScaleX` and `ScaleY`: the main-screen position of a client's position on its scaled
screen, as the exact quotient that they compute in `double`s. -/
def toScreen (size scaledSize n : ℤ) : ℤ := n * size / scaledSize

def Multiplies (mirrored : Prop) [Decidable mirrored] (scaling size n : ℤ) : Prop :=
  n * size < (if mirrored then size + 524289 else 524288) * Daemon.scaled scaling size

instance (mirrored : Prop) [Decidable mirrored] (scaling size n : ℤ) :
    Decidable (Multiplies mirrored scaling size n) := by
  unfold Multiplies; infer_instance

/-- A scaled screen is never empty. -/
theorem scaled_pos {scaling size : ℤ} (hscaling : 1 ≤ scaling) (hsize : 100 ≤ size) :
    0 < Daemon.scaled scaling size := by
  have hmul : 100 ≤ size * scaling := by nlinarith
  unfold Daemon.scaled
  omega

theorem axisInt_toScreen_iff {mirrored : Prop} [Decidable mirrored] {scaling size n : ℤ}
    (hscaling : 1 ≤ scaling) (hsize : 100 ≤ size ∧ size ≤ 65535) (hn : 0 ≤ n) :
    (∃ t, axisInt mirrored (toScreen size (Daemon.scaled scaling size) n) size = some t ∧ True) ↔
      Multiplies mirrored scaling size n := by
  have hpos := scaled_pos hscaling hsize.1
  have hnonneg : 0 ≤ toScreen size (Daemon.scaled scaling size) n :=
    Int.ediv_nonneg (by nlinarith) hpos.le
  have hlt : ∀ b, toScreen size (Daemon.scaled scaling size) n < b ↔
      n * size < b * Daemon.scaled scaling size := fun b => Int.ediv_lt_iff_lt_mul hpos
  simp only [and_true, axisInt_eq_some (show (0 : ℤ) < size by omega)
    (Or.inr (show 2 ≤ size by omega)), exists_and_left, exists_eq', Multiplies, ← hlt]
  unfold along
  split_ifs <;> omega

/-- The transform of a position that a client sends is defined, every intermediate
value included, exactly when both axes can be multiplied. -/
theorem touch_defined_iff {rotation : ℕ} (hr : Upright rotation) {scaling width height x y : ℤ}
    (hscaling : 1 ≤ scaling ∧ scaling ≤ 150) (hwidth : 100 ≤ width ∧ width ≤ 65535)
    (hheight : 100 ≤ height ∧ height ≤ 65535) (hx : 0 ≤ x ∧ x < 65536) (hy : 0 ≤ y ∧ y < 65536) :
    (transformTouchCoordinatesInt rotation width height
        (toScreen width (Daemon.scaled scaling width) x,
          toScreen height (Daemon.scaled scaling height) y)).isSome ↔
      Multiplies (MirrorsWidth rotation) scaling width x ∧
        Multiplies (MirrorsHeight rotation) scaling height y := by
  have hboth := transformInt_iff hr width height (toScreen width (Daemon.scaled scaling width) x,
    toScreen height (Daemon.scaled scaling height) y) fun _ => True
  rw [axisInt_toScreen_iff hscaling.1 hwidth hx.1,
    axisInt_toScreen_iff hscaling.1 hheight hy.1] at hboth
  rw [← hboth, Option.isSome_iff_exists]
  simp only [and_true]

/-- At 20 per cent the far corner of the 16-bit range can still be multiplied. -/
theorem touch_defined_twenty :
    (transformTouchCoordinatesInt 0 480 800
        (toScreen 480 (Daemon.scaled 20 480) 65535,
          toScreen 800 (Daemon.scaled 20 800) 65535)).isSome ↔
      Multiplies (MirrorsWidth 0) 20 480 65535 ∧ Multiplies (MirrorsHeight 0) 20 800 65535 :=
  touch_defined_iff (by decide) (by decide) (by decide) (by decide) (by decide) (by decide)

/-- At 5 per cent it cannot. -/
theorem touch_undefined_five :
    ¬ ∀ (rotation : ℕ) (scaling width height x y : ℤ), Upright rotation →
      1 ≤ scaling ∧ scaling ≤ 150 → 100 ≤ width ∧ width ≤ 65535 →
      100 ≤ height ∧ height ≤ 65535 → 0 ≤ x ∧ x < 65536 → 0 ≤ y ∧ y < 65536 →
      (transformTouchCoordinatesInt rotation width height
        (toScreen width (Daemon.scaled scaling width) x,
          toScreen height (Daemon.scaled scaling height) y)).isSome := by
  intro h
  have hfar := h 0 5 480 800 65535 0 (by decide) (by decide) (by decide) (by decide)
    (by decide) (by decide)
  exact absurd hfar (by decide)

end DroidVnc
