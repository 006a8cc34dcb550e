import Mathlib.Data.List.Induction
import Mathlib.Data.List.Pairwise
import Mathlib.Logic.Function.Iterate
import Mathlib.Logic.Nontrivial.Defs
import Mathlib.Tactic.Common

/-! Moving contents about in place: what is at some places becomes what was at the places
that `src` says. When parts are moved one after the other, the outcome is that of moving
them all at once as long as no part is read that has been written before. -/

namespace Move

variable {P ι α : Type*}

/-- The places of `R` are written. -/
def moveAt (src : P → P) (R : P → Prop) [DecidablePred R] (m : P → α) : P → α :=
  fun p => if R p then m (src p) else m p

/-- Parts are moved one after the other. -/
def moveAll (src : P → P) (has : ι → P → Prop) [∀ i, DecidablePred (has i)] (l : List ι)
    (m : P → α) : P → α :=
  l.foldl (fun m i => moveAt src (has i) m) m

/-- No part is read that has been written. -/
def InOrder (src : P → P) (has : ι → P → Prop) (l : List ι) : Prop :=
  l.Pairwise fun i j => ∀ p, has j p → ¬has i (src p)

variable {src : P → P} {has : ι → P → Prop} [∀ i, DecidablePred (has i)] {l : List ι} {i : ι}
  {m : P → α} {p : P}

theorem moveAll_cons :
    moveAll src has (i :: l) m = moveAll src has l (moveAt src (has i) m) := rfl

theorem moveAll_append_singleton :
    moveAll src has (l ++ [i]) m = moveAt src (has i) (moveAll src has l m) := by
  unfold moveAll
  rw [List.foldl_append]
  rfl

theorem moveAll_of_not_mem (hp : ∀ i ∈ l, ¬has i p) : moveAll src has l m p = m p := by
  induction l generalizing m with
  | nil => rfl
  | cons i l ih =>
    rw [moveAll_cons, ih fun j hj => hp j (List.mem_cons_of_mem _ hj), moveAt,
      if_neg (hp i List.mem_cons_self)]

/-- In order, the parts are moved as if all at once. -/
theorem moveAll_of_mem (h : InOrder src has l) (hp : ∃ i ∈ l, has i p) :
    moveAll src has l m p = m (src p) := by
  induction l generalizing m with
  | nil =>
    obtain ⟨i, hi, -⟩ := hp
    cases hi
  | cons i l ih =>
    obtain ⟨hi, hl⟩ := List.pairwise_cons.mp h
    rw [moveAll_cons]
    by_cases hlater : ∃ j ∈ l, has j p
    · obtain ⟨j, hj, hjp⟩ := hlater
      rw [ih hl ⟨j, hj, hjp⟩, moveAt, if_neg (hi j hj p hjp)]
    · rw [moveAll_of_not_mem fun j hj hjp => hlater ⟨j, hj, hjp⟩, moveAt, if_pos]
      obtain ⟨j, hj, hjp⟩ := hp
      rcases List.mem_cons.mp hj with rfl | hj
      · exact hjp
      · exact absurd ⟨j, hj, hjp⟩ hlater

/-- In order, parts that make up `R` are moved as `R` is. -/
theorem moveAll_eq_moveAt (h : InOrder src has l) (R : P → Prop) [DecidablePred R]
    (hR : ∀ p, R p ↔ ∃ i ∈ l, has i p) : moveAll src has l m = moveAt src R m := by
  funext p
  unfold moveAt
  split_ifs with hp
  · exact moveAll_of_mem h ((hR p).mp hp)
  · exact moveAll_of_not_mem fun i hi hip => hp ((hR p).mpr ⟨i, hi, hip⟩)

/-! ### Why the order is needed -/

/-- Contents are moved, whatever they are. -/
theorem moveAll_apply : moveAll src has l m p = m (moveAll src has l id p) := by
  induction l using List.reverseRecOn generalizing p with
  | nil => rfl
  | append_singleton l i ih =>
    rw [moveAll_append_singleton, moveAll_append_singleton, moveAt, moveAt]
    split_ifs
    · exact ih
    · exact ih

/-- What is at a place comes from further up the way that `src` goes. -/
theorem moveAll_id_eq_iterate : ∃ k, moveAll src has l id p = src^[k] p ∧
    (k = 0 ↔ ∀ i ∈ l, ¬has i p) := by
  induction l using List.reverseRecOn generalizing p with
  | nil => exact ⟨0, rfl, by simp⟩
  | append_singleton l i ih =>
    rw [moveAll_append_singleton, moveAt]
    split_ifs with hi
    · obtain ⟨k, hk, -⟩ := ih (p := src p)
      refine ⟨k + 1, by rw [hk, Function.iterate_succ_apply], iff_of_false (Nat.succ_ne_zero k) ?_⟩
      exact fun h => h i (List.mem_append_right _ List.mem_cons_self) hi
    · obtain ⟨k, hk, hzero⟩ := ih (p := p)
      refine ⟨k, hk, hzero.trans ⟨fun h j hj => ?_, fun h j hj => h j (List.mem_append_left _ hj)⟩⟩
      rcases List.mem_append.mp hj with hj | hj
      · exact h j hj
      · rw [List.mem_singleton.mp hj]
        exact hi

/-- Parts that do not overlap are moved as if all at once, whatever their contents, only if
they are in order. -/
theorem inOrder_of_moveAll [Nontrivial α] (hfree : ∀ p k, src^[k] p = p → k = 0)
    (hdisj : l.Pairwise fun i j => ∀ p, ¬(has i p ∧ has j p))
    (h : ∀ (m : P → α) (p : P), (∃ i ∈ l, has i p) → moveAll src has l m p = m (src p)) :
    InOrder src has l := by
  classical
  -- contents that tell the right place from all others
  have horigin : ∀ p, (∃ i ∈ l, has i p) → moveAll src has l id p = src p := by
    intro p hp
    obtain ⟨a, b, hab⟩ := exists_pair_ne α
    have hm := h (fun q => if q = src p then a else b) p hp
    rw [moveAll_apply, if_pos rfl] at hm
    by_contra hne
    rw [if_neg hne] at hm
    exact hab hm.symm
  clear h
  induction l using List.reverseRecOn with
  | nil => exact List.Pairwise.nil
  | append_singleton l i ih =>
    obtain ⟨hl, -, hli⟩ := List.pairwise_append.mp hdisj
    refine List.pairwise_append.mpr ⟨ih hl fun p hp => ?_, List.pairwise_singleton _ _, ?_⟩
    · obtain ⟨j, hj, hjp⟩ := hp
      have hip : ¬has i p := fun hip => hli j hj i List.mem_cons_self p ⟨hjp, hip⟩
      have hmoved := horigin p ⟨j, List.mem_append_left _ hj, hjp⟩
      rwa [moveAll_append_singleton, moveAt, if_neg hip] at hmoved
    · intro j hj i' hi' p hip hjp
      rw [List.mem_singleton.mp hi'] at hip
      have hmoved := horigin p ⟨i, List.mem_append_right _ List.mem_cons_self, hip⟩
      rw [moveAll_append_singleton, moveAt, if_pos hip] at hmoved
      obtain ⟨k, hk, hzero⟩ : ∃ k, moveAll src has l id (src p) = src^[k] (src p) ∧
        (k = 0 ↔ ∀ i ∈ l, ¬has i (src p)) := moveAll_id_eq_iterate
      have hk0 := hfree (src p) k (hk.symm.trans hmoved)
      exact hzero.mp hk0 j hj hjp

end Move
