import Mathlib.Data.Set.Basic
import Mathlib.Data.Set.Lattice
import Mathlib.Algebra.Order.Ring.Int

/-! Lists of spans of whole numbers, with something on each span, that stand for sets of
cells: a number and a point of what is on the span that it lies in. A list is taken
apart at a cursor, what is before the cursor backwards. `δ` is the least length of a
span: with `1` no span is empty, with `0` some may be. -/

/-- The numbers from `start` on, short of `stop`, and what is on them. -/
structure Span (σ : Type*) where
  start : ℤ
  stop : ℤ
  subspan : σ
  deriving DecidableEq, Repr

namespace Span

variable {σ β : Type*}

def Has (s : Span σ) (a : ℤ) : Prop := s.start ≤ a ∧ a < s.stop

/-- At least `δ` numbers, with something good on them. -/
def Proper (δ : ℤ) (good : σ → Prop) (s : Span σ) : Prop :=
  s.start + δ ≤ s.stop ∧ good s.subspan

/-- Spans in order, none before `lo`. -/
def From (δ : ℤ) (good : σ → Prop) (lo : ℤ) : List (Span σ) → Prop
  | [] => True
  | s :: l => lo ≤ s.start ∧ s.Proper δ good ∧ From δ good s.stop l

/-- Spans in order, the last one first, none beyond `hi`. -/
def UpTo (δ : ℤ) (good : σ → Prop) (hi : ℤ) : List (Span σ) → Prop
  | [] => True
  | s :: l => s.stop ≤ hi ∧ s.Proper δ good ∧ UpTo δ good s.start l

def Ordered (δ : ℤ) (good : σ → Prop) : List (Span σ) → Prop
  | [] => True
  | s :: l => s.Proper δ good ∧ From δ good s.stop l

/-- The cells of a span, `d` being those of what is on it. -/
def cell (d : σ → Set β) (s : Span σ) : Set (ℤ × β) := {c | s.Has c.1 ∧ c.2 ∈ d s.subspan}

def cells (d : σ → Set β) : List (Span σ) → Set (ℤ × β)
  | [] => ∅
  | s :: l => s.cell d ∪ cells d l

variable {δ lo hi : ℤ} {good : σ → Prop} {d : σ → Set β} {s t : Span σ} {l m : List (Span σ)}
  {c : ℤ × β}

@[simp] theorem mem_cell : c ∈ s.cell d ↔ (s.start ≤ c.1 ∧ c.1 < s.stop) ∧ c.2 ∈ d s.subspan :=
  Iff.rfl

@[simp] theorem cells_nil : cells d [] = ∅ := rfl

@[simp] theorem cells_cons : cells d (s :: l) = s.cell d ∪ cells d l := rfl

theorem cells_append : cells d (l ++ m) = cells d l ∪ cells d m := by
  induction l with
  | nil => rw [List.nil_append, cells_nil, Set.empty_union]
  | cons s l ih => rw [List.cons_append, cells_cons, cells_cons, ih, Set.union_assoc]

theorem cells_reverse : cells d l.reverse = cells d l := by
  induction l with
  | nil => rfl
  | cons s l ih =>
    rw [List.reverse_cons, cells_append, ih, cells_cons, cells_nil, Set.union_empty, cells_cons,
      Set.union_comm]

theorem mem_cells : c ∈ cells d l ↔ ∃ s ∈ l, c ∈ s.cell d := by
  induction l with
  | nil => simp
  | cons s l ih =>
    rw [cells_cons, Set.mem_union, ih]
    simp only [List.mem_cons, exists_eq_or_imp]

/-! ### Order -/

theorem From.mono (h : From δ good lo l) (hle : hi ≤ lo) : From δ good hi l := by
  cases l with
  | nil => trivial
  | cons s l => exact ⟨hle.trans h.1, h.2⟩

theorem UpTo.mono (h : UpTo δ good lo l) (hle : lo ≤ hi) : UpTo δ good hi l := by
  cases l with
  | nil => trivial
  | cons s l => exact ⟨h.1.trans hle, h.2⟩

theorem From.ordered (h : From δ good lo l) : Ordered δ good l := by
  cases l with
  | nil => trivial
  | cons s l => exact h.2

theorem Ordered.exists_from (h : Ordered δ good l) : ∃ lo, From δ good lo l := by
  cases l with
  | nil => exact ⟨0, trivial⟩
  | cons s l => exact ⟨s.start, le_rfl, h⟩

theorem From.ordered_reverse_append (h : UpTo δ good lo m) (hl : From δ good lo l) :
    Ordered δ good (m.reverse ++ l) := by
  induction m generalizing lo l with
  | nil => exact hl.ordered
  | cons s m ih =>
    rw [List.reverse_cons, List.append_assoc]
    exact ih h.2.2 ⟨le_rfl, h.2.1, hl.mono h.1⟩

theorem UpTo.ordered_reverse (h : UpTo δ good hi m) : Ordered δ good m.reverse := by
  rw [← List.append_nil m.reverse]
  exact From.ordered_reverse_append h (trivial : From δ good hi [])

theorem From.proper (h : From δ good lo l) (hs : s ∈ l) : s.Proper δ good := by
  induction l generalizing lo with
  | nil => cases hs
  | cons t l ih =>
    rcases List.mem_cons.mp hs with rfl | hs
    · exact h.2.1
    · exact ih h.2.2 hs

theorem Ordered.proper (h : Ordered δ good l) (hs : s ∈ l) : s.Proper δ good := by
  obtain ⟨lo, hl⟩ := h.exists_from
  exact hl.proper hs

theorem From.le_start (hδ : 0 ≤ δ) (h : From δ good lo l) (hs : s ∈ l) : lo ≤ s.start := by
  induction l generalizing lo with
  | nil => cases hs
  | cons t l ih =>
    rcases List.mem_cons.mp hs with rfl | hs
    · exact h.1
    · have hlen := h.2.1.1
      have hlo := h.1
      have hstart := ih h.2.2 hs
      omega

/-- Of two spans, the one that comes first ends before the other starts. -/
theorem Ordered.pairwise (hδ : 0 ≤ δ) (h : Ordered δ good l) :
    l.Pairwise fun s t => s.stop ≤ t.start := by
  induction l with
  | nil => exact List.Pairwise.nil
  | cons s l ih => exact List.pairwise_cons.mpr ⟨fun t ht => h.2.le_start hδ ht, ih h.2.ordered⟩

/-- No cell comes before the bound. -/
theorem From.le_of_mem (hδ : 0 ≤ δ) (h : From δ good lo l) (hc : c ∈ cells d l) : lo ≤ c.1 := by
  induction l generalizing lo with
  | nil => cases hc
  | cons s l ih =>
    have hlen := h.2.1.1
    rcases hc with hc | hc
    · exact h.1.trans hc.1.1
    · have hstop := ih h.2.2 hc
      have hstart := h.1
      omega

theorem Ordered.start_le_of_mem (hδ : 0 ≤ δ) (h : Ordered δ good (s :: l))
    (hc : c ∈ cells d (s :: l)) : s.start ≤ c.1 :=
  From.le_of_mem hδ (show From δ good s.start (s :: l) from ⟨le_rfl, h⟩) hc

theorem UpTo.lt_of_mem (hδ : 0 ≤ δ) (h : UpTo δ good hi l) (hc : c ∈ cells d l) : c.1 < hi := by
  induction l generalizing hi with
  | nil => cases hc
  | cons s l ih =>
    have hlen := h.2.1.1
    rcases hc with hc | hc
    · exact hc.1.2.trans_le h.1
    · have hstart := ih h.2.2 hc
      have hstop := h.1
      omega

/-! ### Cells of spans that are cut or joined -/

/-- A span cut in two. -/
theorem cell_cut {a : ℤ} (hlo : s.start ≤ a) (hhi : a ≤ s.stop) :
    cell d { s with stop := a } ∪ cell d { s with start := a } = s.cell d := by
  ext c
  simp only [Set.mem_union, mem_cell]
  by_cases hc : c.2 ∈ d s.subspan <;> simp only [hc, and_true, and_false, or_self]
  omega

/-- Neighbours with the same on them are one span. -/
theorem cell_join (h : s.stop = t.start) (hsub : s.subspan = t.subspan) (hs : s.start ≤ s.stop)
    (ht : t.start ≤ t.stop) : cell d { t with start := s.start } = s.cell d ∪ t.cell d := by
  ext c
  simp only [Set.mem_union, mem_cell, hsub]
  by_cases hc : c.2 ∈ d t.subspan <;> simp only [hc, and_true, and_false, or_self]
  omega

/-- Spans that are not empty, with cells on each, have cells. -/
theorem Ordered.cells_nonempty (h : Ordered 1 good l) (hgood : ∀ x, good x → (d x).Nonempty)
    (hl : l ≠ []) : (cells d l).Nonempty := by
  cases l with
  | nil => exact absurd rfl hl
  | cons s l =>
    obtain ⟨b, hb⟩ := hgood _ h.1.2
    have hlen := h.1.1
    exact ⟨(s.start, b), .inl ⟨⟨le_rfl, by dsimp only; omega⟩, hb⟩⟩

/-! ### Spans that are moved -/

/-- The span is moved by `a`, what is on it changed by `f`. -/
def offset {τ : Type*} (a : ℤ) (f : σ → τ) (s : Span σ) : Span τ :=
  ⟨s.start + a, s.stop + a, f s.subspan⟩

theorem From.offset {τ : Type*} {a : ℤ} {f : σ → τ} {good' : τ → Prop}
    (hf : ∀ x, good x → good' (f x)) (h : From δ good lo l) :
    From δ good' (lo + a) (l.map (Span.offset a f)) := by
  induction l generalizing lo with
  | nil => trivial
  | cons s l ih =>
    refine ⟨Int.add_le_add_right h.1 a, ⟨?_, hf _ h.2.1.2⟩, ih h.2.2⟩
    have hlen := h.2.1.1
    show s.start + a + δ ≤ s.stop + a
    omega

theorem Ordered.offset {τ : Type*} {a : ℤ} {f : σ → τ} {good' : τ → Prop}
    (hf : ∀ x, good x → good' (f x)) (h : Ordered δ good l) :
    Ordered δ good' (l.map (Span.offset a f)) := by
  obtain ⟨lo, hl⟩ := h.exists_from
  exact (hl.offset hf).ordered

end Span
