import Mathlib.Tactic.Linarith
import Mathlib.Tactic.Ring
import Mathlib.Algebra.Order.Ring.Int

/-! Grids of cells, their row-major numbering, and their quarter turns. The
numbering is a bijection between the cells of a `w` by `h` grid and the numbers
below `w * h`. A quarter turn carries a `w` by `h` grid onto an `h` by `w` grid;
`turns n` repeats it, so that bijectivity is proved once, by induction on `n`,
for all four orientations. -/

namespace Grid

/-- The cell `p` lies in the grid of width `w` and height `h`. -/
def Inside (w h : ℤ) (p : ℤ × ℤ) : Prop := (0 ≤ p.1 ∧ p.1 < w) ∧ 0 ≤ p.2 ∧ p.2 < h

instance (w h : ℤ) (p : ℤ × ℤ) : Decidable (Inside w h p) := by
  unfold Inside; infer_instance

/-! ### Row-major numbering -/

/-- The number of a cell when rows of length `w` are stored one after another. -/
def index (w : ℤ) (p : ℤ × ℤ) : ℤ := p.2 * w + p.1

theorem index_nonneg {w h : ℤ} {p : ℤ × ℤ} (hp : Inside w h p) : 0 ≤ index w p := by
  obtain ⟨⟨hx, hxw⟩, hy, -⟩ := hp
  have : 0 ≤ p.2 * w := mul_nonneg hy (by omega)
  unfold index; omega

theorem index_lt {w h : ℤ} {p : ℤ × ℤ} (hp : Inside w h p) : index w p < w * h := by
  obtain ⟨⟨hx, hxw⟩, hy, hyh⟩ := hp
  have : (p.2 + 1) * w ≤ h * w := mul_le_mul_of_nonneg_right (by omega) (by omega)
  unfold index; linarith [mul_comm h w, add_mul p.2 1 w]

/-- Two cells with columns in range and one number are the same cell. -/
theorem index_inj {w : ℤ} {p q : ℤ × ℤ} (hp : 0 ≤ p.1 ∧ p.1 < w) (hq : 0 ≤ q.1 ∧ q.1 < w)
    (h : index w p = index w q) : p = q := by
  have hd : (p.2 - q.2) * w = q.1 - p.1 := by unfold index at h; linarith [sub_mul p.2 q.2 w]
  have hrow : p.2 = q.2 := by
    rcases lt_trichotomy p.2 q.2 with hlt | heq | hgt
    · have : (p.2 - q.2) * w ≤ -1 * w := mul_le_mul_of_nonneg_right (by omega) (by omega)
      omega
    · exact heq
    · have : 1 * w ≤ (p.2 - q.2) * w := mul_le_mul_of_nonneg_right (by omega) (by omega)
      omega
  refine Prod.ext ?_ hrow
  unfold index at h; rw [hrow] at h; omega

/-! ### Quarter turns -/

/-- A quarter turn of a grid of height `h`: rows become columns, the first row
the last column. -/
def turn (h : ℤ) (p : ℤ × ℤ) : ℤ × ℤ := (h - 1 - p.2, p.1)

/-- `n` quarter turns of a `w` by `h` grid. -/
def turns : ℕ → ℤ → ℤ → ℤ × ℤ → ℤ × ℤ
  | 0, _, _, p => p
  | n + 1, w, h, p => turns n h w (turn h p)

def turnsSize : ℕ → ℤ → ℤ → ℤ × ℤ
  | 0, w, h => (w, h)
  | n + 1, w, h => turnsSize n h w

theorem inside_turn {w h : ℤ} {p : ℤ × ℤ} : Inside h w (turn h p) ↔ Inside w h p := by
  simp only [Inside, turn]; omega

theorem inside_turns {n : ℕ} {w h : ℤ} {p : ℤ × ℤ} (hp : Inside w h p) :
    Inside (turnsSize n w h).1 (turnsSize n w h).2 (turns n w h p) := by
  induction n generalizing w h p with
  | zero => exact hp
  | succ n ih => exact ih (inside_turn.mpr hp)

theorem turn_injective (h : ℤ) : Function.Injective (turn h) := by
  intro p q hpq
  simp only [turn, Prod.mk.injEq] at hpq
  exact Prod.ext hpq.2 (by omega)

theorem turns_injective (n : ℕ) (w h : ℤ) : Function.Injective (turns n w h) := by
  induction n generalizing w h with
  | zero => exact fun _ _ hpq => hpq
  | succ n ih => exact (ih h w).comp (turn_injective h)

/-- Every cell of the turned grid is the image of a cell. -/
theorem exists_turns {n : ℕ} {w h : ℤ} {q : ℤ × ℤ}
    (hq : Inside (turnsSize n w h).1 (turnsSize n w h).2 q) :
    ∃ p, Inside w h p ∧ turns n w h p = q := by
  induction n generalizing w h with
  | zero => exact ⟨q, hq, rfl⟩
  | succ n ih =>
    obtain ⟨p, hp, rfl⟩ := ih hq
    have hback : turn h (p.2, h - 1 - p.1) = p := by
      simp only [turn]; exact Prod.ext (by simp) rfl
    refine ⟨(p.2, h - 1 - p.1), inside_turn.mp (by rwa [hback]), ?_⟩
    rw [turns, hback]

end Grid
