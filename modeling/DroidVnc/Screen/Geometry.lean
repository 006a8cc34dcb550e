import DroidVnc.Lib.Grid
import DroidVnc.Screen.Format

/-! The orientation of the screen: the global `rotation` and the dimensions of
`vncscr`, which `initVncServer` sets, `rotate` changes together, and the screen
copy reads. `Fits` is the invariant that ties them to the screen format, and
`place` says where a source pixel belongs on the turned screen. -/

namespace DroidVnc

/-- The global `rotation` and the fields of `vncscr` that `rotate` keeps. -/
structure Screen where
  rotation : ℕ
  width : ℤ
  height : ℤ
  paddedWidthInBytes : ℤ
  deriving DecidableEq, Repr

/-- A rotation that `main` accepts and `rotate` is called with. -/
def Upright (r : ℕ) : Prop := r = 0 ∨ r = 90 ∨ r = 180 ∨ r = 270

instance (r : ℕ) : Decidable (Upright r) := by unfold Upright; infer_instance

namespace Screen

/-- The screen that `initVncServer` gets from `rfbGetScreen`. -/
def init (fmt : ScreenFormat) (rotation : ℕ) : Screen :=
  if rotation = 0 ∨ rotation = 180 then
    { rotation, width := fmt.sw, height := fmt.sh, paddedWidthInBytes := fmt.sw * (fmt.bpp / 8) }
  else
    { rotation, width := fmt.sh, height := fmt.sw, paddedWidthInBytes := fmt.sh * (fmt.bpp / 8) }

/-- The condition under which `rotate(value)` exchanges width and height. -/
def Swaps (s : Screen) (value : ℤ) : Prop :=
  value = -1 ∨
    ((value = 90 ∨ value = 270) ∧ (s.rotation = 0 ∨ s.rotation = 180)) ∨
    ((value = 0 ∨ value = 180) ∧ (s.rotation = 90 ∨ s.rotation = 270))

instance (s : Screen) (value : ℤ) : Decidable (s.Swaps value) := by unfold Swaps; infer_instance

def swap (fmt : ScreenFormat) (s : Screen) : Screen :=
  { s with
    width := s.height
    height := s.width
    paddedWidthInBytes := s.height * fmt.bpp / 8 }

/-- What `rotate(value)` does to the orientation; `rotation` is a `uint16_t`. -/
def rotate (fmt : ScreenFormat) (value : ℤ) (s : Screen) : Screen :=
  let s := if s.Swaps value then s.swap fmt else s
  if value = -1 then { s with rotation := (s.rotation + 90) % 65536 % 360 }
  else { s with rotation := (value % 65536).toNat }

def RotateArg (value : ℤ) : Prop :=
  value = -1 ∨ value = 0 ∨ value = 90 ∨ value = 180 ∨ value = 270

instance (value : ℤ) : Decidable (RotateArg value) := by unfold RotateArg; infer_instance

/-- Width and height are those of a source of `sw` by `sh` pixels, turned. -/
def Turned (sw sh : ℤ) (s : Screen) : Prop :=
  if s.rotation = 0 ∨ s.rotation = 180 then s.width = sw ∧ s.height = sh
  else s.width = sh ∧ s.height = sw

theorem Turned.of_upright {sw sh : ℤ} {s : Screen} (h : s.Turned sw sh)
    (hr : s.rotation = 0 ∨ s.rotation = 180) : s.width = sw ∧ s.height = sh := by
  rwa [Turned, if_pos hr] at h

theorem Turned.of_sideways {sw sh : ℤ} {s : Screen} (h : s.Turned sw sh)
    (hr : s.rotation = 90 ∨ s.rotation = 270) : s.width = sh ∧ s.height = sw := by
  rwa [Turned, if_neg (by omega)] at h

/-- The orientation belongs to the format: one of the four rotations, with the
width and height that go with it. -/
structure Fits (fmt : ScreenFormat) (s : Screen) : Prop where
  upright : Upright s.rotation
  dims : s.Turned fmt.sw fmt.sh
  padded : s.paddedWidthInBytes = s.width * fmt.bpp / 8

theorem fits_init {fmt : ScreenFormat} (hf : fmt.Supported) {r : ℕ} (hr : Upright r) :
    (init fmt r).Fits fmt := by
  have hpad : ∀ n : ℤ, n * ((fmt.bpp : ℤ) / 8) = n * fmt.bpp / 8 := fun n =>
    (Int.mul_ediv_assoc n (by unfold ScreenFormat.Supported at hf; omega)).symm
  unfold init
  split_ifs with h
  · exact ⟨hr, by simp [Turned, h], hpad _⟩
  · exact ⟨hr, by simp [Turned, h], hpad _⟩

@[simp] theorem rotate_rotation_neg_one (fmt : ScreenFormat) (s : Screen) :
    (s.rotate fmt (-1)).rotation = (s.rotation + 90) % 65536 % 360 := by
  simp [rotate, Swaps, swap]

theorem rotate_rotation {value : ℤ} (fmt : ScreenFormat) (s : Screen) (hv : value ≠ -1) :
    (s.rotate fmt value).rotation = (value % 65536).toNat := by
  simp [rotate, hv]

/-- Width, height and padding depend on the exchange alone. -/
theorem rotate_dims (fmt : ScreenFormat) (s : Screen) (value : ℤ) :
    (s.rotate fmt value).width = (if s.Swaps value then s.height else s.width) ∧
      (s.rotate fmt value).height = (if s.Swaps value then s.width else s.height) ∧
      (s.rotate fmt value).paddedWidthInBytes =
        (if s.Swaps value then s.height * fmt.bpp / 8 else s.paddedWidthInBytes) := by
  unfold rotate
  by_cases hs : s.Swaps value
  · simp only [hs, if_true]
    split_ifs <;> exact ⟨rfl, rfl, rfl⟩
  · simp only [hs, if_false]
    split_ifs <;> exact ⟨rfl, rfl, rfl⟩

/-- Every call of `rotate` keeps the orientation tied to the format. -/
theorem Fits.rotate {fmt : ScreenFormat} {s : Screen} (h : s.Fits fmt) {value : ℤ}
    (hv : RotateArg value) : (s.rotate fmt value).Fits fmt := by
  obtain ⟨hw, hh, hp⟩ := rotate_dims fmt s value
  have hrot : (s.rotate fmt value).rotation =
      if value = -1 then (s.rotation + 90) % 65536 % 360 else (value % 65536).toNat := by
    split_ifs with h1
    · rw [h1, rotate_rotation_neg_one]
    · exact rotate_rotation fmt s h1
  have hdims := h.dims
  unfold Turned at hdims
  constructor
  · rw [hrot]
    rcases hv with rfl | rfl | rfl | rfl | rfl <;> rcases h.upright with h | h | h | h <;>
      simp [h, Upright]
  · rw [Turned, hw, hh, hrot]
    rcases hv with rfl | rfl | rfl | rfl | rfl <;> rcases h.upright with h | h | h | h <;>
      simp_all [Swaps]
  · rw [hp, hw]
    split_ifs with hs
    · rfl
    · exact h.padded

/-! ### Placement -/

end Screen

/-- Where the screen turned by `rotation` shows source pixel `p = (i, j)`. -/
def place (rotation : ℕ) (sw sh : ℤ) (p : ℤ × ℤ) : ℤ × ℤ :=
  if rotation = 90 then (sh - 1 - p.2, p.1)
  else if rotation = 180 then (sw - 1 - p.1, sh - 1 - p.2)
  else if rotation = 270 then (p.2, sw - 1 - p.1)
  else p

/-- The placement is the quarter turn, repeated once for every 90 degrees. -/
theorem place_eq_turns {r : ℕ} (hr : Upright r) (sw sh : ℤ) (p : ℤ × ℤ) :
    place r sw sh p = Grid.turns (r / 90) sw sh p := by
  rcases hr with rfl | rfl | rfl | rfl <;> simp [place, Grid.turns, Grid.turn]

theorem turnsSize_of_turned {s : Screen} {sw sh : ℤ} (hr : Upright s.rotation)
    (hs : s.Turned sw sh) : Grid.turnsSize (s.rotation / 90) sw sh = (s.width, s.height) := by
  unfold Screen.Turned at hs
  rcases hr with h | h | h | h <;> simp_all [Grid.turnsSize]

theorem inside_place_of_turned {s : Screen} {sw sh : ℤ} (hr : Upright s.rotation)
    (hs : s.Turned sw sh) {p : ℤ × ℤ} (hp : Grid.Inside sw sh p) :
    Grid.Inside s.width s.height (place s.rotation sw sh p) := by
  have hin := Grid.inside_turns (n := s.rotation / 90) hp
  rw [turnsSize_of_turned hr hs] at hin
  rwa [place_eq_turns hr]

theorem inside_place {fmt : ScreenFormat} {s : Screen} (h : s.Fits fmt) {p : ℤ × ℤ}
    (hp : Grid.Inside fmt.sw fmt.sh p) :
    Grid.Inside s.width s.height (place s.rotation fmt.sw fmt.sh p) :=
  inside_place_of_turned h.upright h.dims hp

/-- Different source pixels are shown in different places. -/
theorem place_injective {r : ℕ} (hr : Upright r) (sw sh : ℤ) :
    Function.Injective (place r sw sh) := by
  rw [show place r sw sh = Grid.turns (r / 90) sw sh from funext fun p => place_eq_turns hr sw sh p]
  exact Grid.turns_injective _ _ _

theorem exists_place {fmt : ScreenFormat} {s : Screen} (h : s.Fits fmt) {q : ℤ × ℤ}
    (hq : Grid.Inside s.width s.height q) :
    ∃ p, Grid.Inside fmt.sw fmt.sh p ∧ place s.rotation fmt.sw fmt.sh p = q := by
  rw [show place s.rotation fmt.sw fmt.sh = Grid.turns (s.rotation / 90) fmt.sw fmt.sh from
    funext fun p => place_eq_turns h.upright _ _ p]
  apply Grid.exists_turns
  rwa [turnsSize_of_turned h.upright h.dims]

end DroidVnc
