import Mathlib.Data.Int.Range
import Mathlib.Data.List.Nodup
import Mathlib.Data.List.ProdSigma
import Mathlib.Logic.Function.Basic

/-! Compare-and-store loops. A loop visits a list of sites, compares the cell
of each site with the new value for it, and on a difference stores the value
and notes the site. Detection happens while the memory is being overwritten;
when no two sites share a cell it is nevertheless exact: the cells visited hold
the new values, the others are untouched, and the sites noted are those whose
cell differed before the loop. -/

namespace CompareStore

variable {ι κ α β : Type*} [DecidableEq κ] [DecidableEq α]

/-- The body of the loop at one site. -/
def visit (dst : ι → κ) (val : ι → α) (note : β → ι → β) (s : (κ → α) × β) (p : ι) :
    (κ → α) × β :=
  if s.1 (dst p) ≠ val p then (Function.update s.1 (dst p) (val p), note s.2 p) else s

def scan (dst : ι → κ) (val : ι → α) (note : β → ι → β) (sites : List ι) (s : (κ → α) × β) :
    (κ → α) × β :=
  sites.foldl (visit dst val note) s

/-- The sites whose cell differs from its new value. -/
def differing (dst : ι → κ) (val : ι → α) (sites : List ι) (m : κ → α) : List ι :=
  sites.filter fun p => m (dst p) ≠ val p

variable {dst : ι → κ} {val : ι → α} {note : β → ι → β} {sites : List ι} {s : (κ → α) × β}

@[simp] theorem scan_nil : scan dst val note [] s = s := rfl

@[simp] theorem scan_cons (p : ι) :
    scan dst val note (p :: sites) s = scan dst val note sites (visit dst val note s p) := rfl

omit [DecidableEq κ] in
theorem mem_differing {m : κ → α} {p : ι} :
    p ∈ differing dst val sites m ↔ p ∈ sites ∧ m (dst p) ≠ val p := by
  simp [differing]

theorem visit_fst (p : ι) :
    (visit dst val note s p).1 = Function.update s.1 (dst p) (val p) := by
  unfold visit
  split_ifs with h
  · rfl
  · rw [← not_ne_iff.mp h, Function.update_eq_self]

theorem scan_fst_of_forall_ne {k : κ} (hk : ∀ p ∈ sites, dst p ≠ k) :
    (scan dst val note sites s).1 k = s.1 k := by
  induction sites generalizing s with
  | nil => rfl
  | cons p sites ih =>
    rw [scan_cons, ih fun q hq => hk q (by simp [hq]), visit_fst,
      Function.update_of_ne (hk p (by simp)).symm]

theorem scan_fst_of_mem (hd : sites.Pairwise fun p q => dst p ≠ dst q) {p : ι} (hp : p ∈ sites) :
    (scan dst val note sites s).1 (dst p) = val p := by
  induction sites generalizing s with
  | nil => simp at hp
  | cons q sites ih =>
    obtain ⟨hq, hd⟩ := List.pairwise_cons.mp hd
    rcases List.mem_cons.mp hp with rfl | hp
    · rw [scan_cons, scan_fst_of_forall_ne fun r hr => (hq r hr).symm, visit_fst,
        Function.update_self]
    · exact ih hd hp

theorem differing_update {m : κ → α} {k : κ} (hk : ∀ p ∈ sites, dst p ≠ k) (v : α) :
    differing dst val sites (Function.update m k v) = differing dst val sites m :=
  List.filter_congr fun p hp => by rw [Function.update_of_ne (hk p hp)]

/-- Distinct cells: the notes are taken at the sites that differed before the
loop, in the order of the loop. -/
theorem scan_snd (hd : sites.Pairwise fun p q => dst p ≠ dst q) :
    (scan dst val note sites s).2 = (differing dst val sites s.1).foldl note s.2 := by
  induction sites generalizing s with
  | nil => rfl
  | cons p sites ih =>
    obtain ⟨hp, hd⟩ := List.pairwise_cons.mp hd
    rw [scan_cons, ih hd, visit_fst, differing_update fun q hq => (hp q hq).symm]
    by_cases h : s.1 (dst p) = val p <;> simp [visit, differing, h]

/-- Where nothing differs the loop changes nothing. -/
theorem scan_of_differing_nil (h : differing dst val sites s.1 = []) :
    scan dst val note sites s = s := by
  induction sites generalizing s with
  | nil => rfl
  | cons p sites ih =>
    have hp : s.1 (dst p) = val p := by
      by_contra hp
      have hmem : p ∈ differing dst val (p :: sites) s.1 := mem_differing.mpr ⟨by simp, hp⟩
      simp [h] at hmem
    have hv : visit dst val note s p = s := by simp [visit, hp]
    rw [scan_cons, hv]
    exact ih (by simpa [differing, hp] using h)

/-! ### Loop nests -/

/-- The pairs `(i, j)` in the order in which
`for (j = 0; j < outer; j++) for (i = 0; i < inner; i++)` visits them. -/
def nest (outer inner : ℤ) : List (ℤ × ℤ) :=
  (Int.range 0 outer ×ˢ Int.range 0 inner).map Prod.swap

@[simp] theorem mem_nest {outer inner : ℤ} {p : ℤ × ℤ} :
    p ∈ nest outer inner ↔ (0 ≤ p.1 ∧ p.1 < inner) ∧ 0 ≤ p.2 ∧ p.2 < outer := by
  obtain ⟨i, j⟩ := p
  rw [nest, List.mem_map_of_involutive Prod.swap_swap, Prod.swap_prod_mk, List.mem_product,
    Int.mem_range_iff, Int.mem_range_iff]
  exact and_comm

theorem nodup_range (n : ℤ) : (Int.range 0 n).Nodup := by
  unfold Int.range
  apply List.nodup_range.map
  intro a b h
  have h' : (0 : ℤ) + a = 0 + b := h
  omega

theorem nodup_nest (outer inner : ℤ) : (nest outer inner).Nodup :=
  ((nodup_range outer).product (nodup_range inner)).map Prod.swap_injective

omit [DecidableEq κ] in
/-- A loop nest with an injective destination names every cell at most once. -/
theorem pairwise_nest {outer inner : ℤ} {dst : ℤ × ℤ → κ}
    (hinj : ∀ p ∈ nest outer inner, ∀ q ∈ nest outer inner, dst p = dst q → p = q) :
    (nest outer inner).Pairwise fun p q => dst p ≠ dst q :=
  (nodup_nest outer inner).imp_of_mem fun hp hq hne heq => hne (hinj _ hp _ hq heq)

end CompareStore
