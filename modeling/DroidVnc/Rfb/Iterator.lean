import DroidVnc.Rfb.Region

/-! The rectangle iterator of `rfbregion.c`. Whichever way it goes, it gives every
rectangle of a region once, and in an order in which no rectangle lies behind one that
comes later. -/

namespace DroidVnc.Rfb

open Span

structure SraRect where
  x1 : ℤ
  y1 : ℤ
  x2 : ℤ
  y2 : ℤ
  deriving DecidableEq, Repr

def SraRect.Has (r : SraRect) (p : ℤ × ℤ) : Prop :=
  (r.x1 ≤ p.1 ∧ p.1 < r.x2) ∧ r.y1 ≤ p.2 ∧ p.2 < r.y2

instance (r : SraRect) (p : ℤ × ℤ) : Decidable (r.Has p) :=
  inferInstanceAs (Decidable (_ ∧ _))

/-- The rectangle of a horizontal span on a vertical one. -/
def spanRect (v : Span (List (Span Unit))) (h : Span Unit) : SraRect :=
  ⟨h.start, v.start, h.stop, v.stop⟩

/-- `sraRectangleIterator`: what is ahead of `sPtrs[0]` and, while `ptrPos` is 2, the span
there and what is ahead of `sPtrs[2]`. -/
structure RectangleIterator where
  reverseX : Bool
  reverseY : Bool
  rows : SraRegion
  row : Option (Span (List (Span Unit)) × List (Span Unit))

/-- A list in the direction in which it is gone through. -/
def towards {σ : Type} (reverse : Bool) (l : List σ) : List σ := if reverse then l.reverse else l

def rgnGetReverseIterator (s : SraRegion) (reverseX reverseY : Bool) : RectangleIterator :=
  ⟨reverseX, reverseY, towards reverseY s, none⟩

def rgnGetIterator (s : SraRegion) : RectangleIterator := rgnGetReverseIterator s false false

/-- The next span of the first level, and the first one on it. -/
def nextRow (i : RectangleIterator) : Option (SraRect × RectangleIterator) :=
  match i.rows with
  | [] => none
  | v :: rows =>
    match towards i.reverseX v.subspan with
    | [] => none
    | h :: row => some (spanRect v h, { i with rows, row := some (v, row) })

def rgnIteratorNext (i : RectangleIterator) : Option (SraRect × RectangleIterator) :=
  match i.row with
  | some (v, h :: row) => some (spanRect v h, { i with row := some (v, row) })
  | some (_, []) => nextRow i
  | none => nextRow i

/-- How many spans of the second level are ahead. -/
def RectangleIterator.ahead (i : RectangleIterator) : ℕ :=
  match i.row with
  | some (_, row) => row.length
  | none => 0

theorem rows_nextRow {i j : RectangleIterator} {r : SraRect} (h : nextRow i = some (r, j)) :
    j.rows.length < i.rows.length := by
  unfold nextRow at h
  split at h
  · cases h
  · rename_i hrows
    split at h
    · cases h
    · cases h
      rw [hrows]
      exact Nat.lt_succ_self _

theorem rgnIteratorNext_lt {i j : RectangleIterator} {r : SraRect}
    (h : rgnIteratorNext i = some (r, j)) :
    Prod.Lex (· < ·) (· < ·) (j.rows.length, j.ahead) (i.rows.length, i.ahead) := by
  unfold rgnIteratorNext at h
  split at h
  · rename_i hrow
    cases h
    refine Prod.Lex.right _ ?_
    unfold RectangleIterator.ahead
    rw [hrow]
    exact Nat.lt_succ_self _
  · exact Prod.Lex.left _ _ (rows_nextRow h)
  · exact Prod.Lex.left _ _ (rows_nextRow h)

/-- All that `while(sraRgnIteratorNext(i,&rect))` gets. -/
def RectangleIterator.rects (i : RectangleIterator) : List SraRect :=
  match _h : rgnIteratorNext i with
  | none => []
  | some (r, j) => r :: j.rects
termination_by (i.rows.length, i.ahead)
decreasing_by exact rgnIteratorNext_lt _h

/-- The rectangles of a region, in the order in which the iterator gives them. -/
def rgnRects (s : SraRegion) (reverseX reverseY : Bool) : List SraRect :=
  (rgnGetReverseIterator s reverseX reverseY).rects

/-! ### What the iterator gives -/

variable {σ : Type}

@[simp] theorem mem_towards {reverse : Bool} {l : List σ} {a : σ} :
    a ∈ towards reverse l ↔ a ∈ l := by
  cases reverse
  · exact Iff.rfl
  · exact List.mem_reverse

theorem towards_eq_nil {reverse : Bool} {l : List σ} : towards reverse l = [] ↔ l = [] := by
  cases reverse
  · exact Iff.rfl
  · exact List.reverse_eq_nil_iff

@[simp] theorem length_towards (reverse : Bool) (l : List σ) :
    (towards reverse l).length = l.length := by
  cases reverse
  · rfl
  · exact List.length_reverse

theorem pairwise_towards {reverse : Bool} {l : List σ} {R : σ → σ → Prop} (h : l.Pairwise R) :
    (towards reverse l).Pairwise fun a b => if reverse then R b a else R a b := by
  cases reverse
  · exact h
  · exact List.pairwise_reverse.mpr h

def rowRects (reverseX : Bool) (v : Span (List (Span Unit))) : List SraRect :=
  (towards reverseX v.subspan).map (spanRect v)

/-- What the iterator has yet to give: the rest of its row, then the rows ahead. -/
def RectangleIterator.todo (i : RectangleIterator) : List SraRect :=
  (match i.row with
    | some (v, row) => row.map (spanRect v)
    | none => []) ++ i.rows.flatMap (rowRects i.reverseX)

theorem nextRow_spec {i : RectangleIterator} (h : ∀ v ∈ i.rows, v.subspan ≠ []) :
    match nextRow i with
    | none => i.rows = []
    | some (r, j) => i.rows.flatMap (rowRects i.reverseX) = r :: j.todo ∧ j.rows ⊆ i.rows := by
  unfold nextRow
  split
  · rename_i hnone
    split at hnone
    · assumption
    · rename_i v rows hrows
      split at hnone
      · rename_i hnil
        exact absurd (towards_eq_nil.mp hnil) (h v (by rw [hrows]; exact List.mem_cons_self))
      · cases hnone
  · rename_i r j hsome
    split at hsome
    · cases hsome
    · rename_i v rows hrows
      split at hsome
      · cases hsome
      · rename_i a row hrow
        cases hsome
        rw [hrows]
        refine ⟨?_, List.subset_cons_self _ _⟩
        rw [List.flatMap_cons, rowRects, hrow]
        rfl

theorem nextRow_todo {i : RectangleIterator} (h : ∀ v ∈ i.rows, v.subspan ≠ [])
    (htodo : i.todo = i.rows.flatMap (rowRects i.reverseX)) :
    match nextRow i with
    | none => i.todo = []
    | some (r, j) => i.todo = r :: j.todo ∧ j.rows ⊆ i.rows := by
  have hnext := nextRow_spec h
  rw [htodo]
  cases hrow : nextRow i with
  | none =>
    rw [hrow] at hnext
    dsimp only at hnext ⊢
    rw [hnext]
    rfl
  | some r =>
    rw [hrow] at hnext
    exact hnext

theorem rgnIteratorNext_spec {i : RectangleIterator} (h : ∀ v ∈ i.rows, v.subspan ≠ []) :
    match rgnIteratorNext i with
    | none => i.todo = []
    | some (r, j) => i.todo = r :: j.todo ∧ j.rows ⊆ i.rows := by
  have htodo : i.todo = (match i.row with
      | some (v, row) => row.map (spanRect v)
      | none => []) ++ i.rows.flatMap (rowRects i.reverseX) := rfl
  unfold rgnIteratorNext
  cases hrow : i.row with
  | none =>
    rw [hrow] at htodo
    exact nextRow_todo h htodo
  | some r =>
    obtain ⟨v, row⟩ := r
    rw [hrow] at htodo
    cases row with
    | nil => exact nextRow_todo h htodo
    | cons a row => exact ⟨htodo, List.Subset.refl _⟩

theorem RectangleIterator.rects_eq_todo (i : RectangleIterator)
    (h : ∀ v ∈ i.rows, v.subspan ≠ []) : i.rects = i.todo := by
  induction i using RectangleIterator.rects.induct with
  | case1 i hnone =>
    have hspec := rgnIteratorNext_spec h
    rw [hnone] at hspec
    rw [rects, hspec]
    split
    · rfl
    · rename_i hsome
      rw [hnone] at hsome
      cases hsome
  | case2 i r j hsome ih =>
    have hspec := rgnIteratorNext_spec h
    rw [hsome] at hspec
    rw [rects, hspec.1, ← ih fun v hv => h v (hspec.2 hv)]
    split
    · rename_i hnone
      rw [hsome] at hnone
      cases hnone
    · rename_i hsome'
      rw [hsome] at hsome'
      cases hsome'
      rfl

theorem rgnRects_eq {s : SraRegion} {reverseX reverseY : Bool} (h : ∀ v ∈ s, v.subspan ≠ []) :
    rgnRects s reverseX reverseY = (towards reverseY s).flatMap (rowRects reverseX) :=
  RectangleIterator.rects_eq_todo _ fun v hv => h v (mem_towards.mp hv)

/-- `r` comes before `s` whichever way the rows and the spans on them are gone through. -/
def SraRect.Before (reverseX reverseY : Bool) (r s : SraRect) : Prop :=
  (if reverseY then s.y2 ≤ r.y1 else r.y2 ≤ s.y1) ∨
    (r.y1 = s.y1 ∧ r.y2 = s.y2) ∧ if reverseX then s.x2 ≤ r.x1 else r.x2 ≤ s.x1

theorem SraRect.Before.disjoint {reverseX reverseY : Bool} {r s : SraRect}
    (h : r.Before reverseX reverseY s) (p : ℤ × ℤ) : ¬(r.Has p ∧ s.Has p) := by
  rintro ⟨⟨hrx, hry⟩, hsx, hsy⟩
  unfold SraRect.Before at h
  split_ifs at h <;> omega

variable {δ : ℤ} {s : SraRegion} {reverseX reverseY : Bool}

theorem subspan_ne_nil (h : RgnGood δ s) : ∀ v ∈ s, v.subspan ≠ [] := fun _ hv => (h.proper hv).2.2

theorem pairwise_rgnRects (hδ : 0 ≤ δ) (h : RgnGood δ s) :
    (rgnRects s reverseX reverseY).Pairwise (SraRect.Before reverseX reverseY) := by
  rw [rgnRects_eq (subspan_ne_nil h), List.pairwise_flatMap]
  constructor
  · intro v hv
    have hrow := (h.proper (mem_towards.mp hv)).2.1
    rw [rowRects, List.pairwise_map]
    refine (pairwise_towards (hrow.pairwise hδ)).imp fun hab => .inr ⟨⟨rfl, rfl⟩, hab⟩
  · refine (pairwise_towards (h.pairwise hδ)).imp fun {v w} hvw r hr s hs => .inl ?_
    obtain ⟨a, -, rfl⟩ := List.mem_map.mp hr
    obtain ⟨b, -, rfl⟩ := List.mem_map.mp hs
    exact hvw

theorem mem_rgnRects (h : RgnGood δ s) {r : SraRect} :
    r ∈ rgnRects s reverseX reverseY ↔ ∃ v ∈ s, ∃ a ∈ v.subspan, spanRect v a = r := by
  rw [rgnRects_eq (subspan_ne_nil h), List.mem_flatMap]
  simp only [mem_towards, rowRects, List.mem_map]

theorem length_rgnRects (h : RgnGood δ s) :
    (rgnRects s reverseX reverseY).length = rgnCountRects s := by
  rw [rgnRects_eq (subspan_ne_nil h), List.length_flatMap, rgnCountRects]
  have hrow : (fun v => (rowRects reverseX v).length) = fun v : Span (List (Span Unit)) =>
      v.subspan.length := by
    funext v
    rw [rowRects, List.length_map, length_towards]
  rw [hrow]
  cases reverseY
  · rfl
  · rw [towards, if_pos rfl, List.map_reverse, List.sum_reverse]

theorem exists_mem_rgnRects (h : RgnGood δ s) {p : ℤ × ℤ} :
    (∃ r ∈ rgnRects s reverseX reverseY, r.Has p) ↔ p ∈ pixels s := by
  rw [mem_pixels]
  simp only [mem_rgnRects h]
  constructor
  · rintro ⟨r, ⟨v, hv, a, ha, rfl⟩, hp⟩
    exact ⟨v, hv, hp.2, a, ha, hp.1⟩
  · rintro ⟨v, hv, hy, a, ha, hx⟩
    exact ⟨_, ⟨v, hv, a, ha, rfl⟩, hx, hy⟩

theorem sides_of_mem_rgnRects (h : RgnGood δ s) {r : SraRect}
    (hr : r ∈ rgnRects s reverseX reverseY) : r.x1 + δ ≤ r.x2 ∧ r.y1 + δ ≤ r.y2 := by
  obtain ⟨v, hv, a, ha, rfl⟩ := (mem_rgnRects h).mp hr
  exact ⟨((h.proper hv).2.1.proper ha).1, (h.proper hv).1⟩

/-- The iterator gives as many rectangles as are counted, none of them empty, each pixel of
what the region means in one of them and in no other. -/
theorem rgnRects_partition (e : RegionTerm) (h : e.Sides 1) (reverseX reverseY : Bool) :
    let rects := rgnRects e.rgn reverseX reverseY
    rects.length = rgnCountRects e.rgn ∧ (∀ r ∈ rects, r.x1 < r.x2 ∧ r.y1 < r.y2) ∧
      rects.Pairwise (fun r s => ∀ p, ¬(r.Has p ∧ s.Has p)) ∧
      ∀ p, (∃ r ∈ rects, r.Has p) ↔ p ∈ e.meaning := by
  obtain ⟨hgood, hpixels⟩ := RegionTerm.rgn_spec zero_le_one le_rfl e h
  refine ⟨length_rgnRects hgood, fun r hr => ?_,
    (pairwise_rgnRects zero_le_one hgood).imp SraRect.Before.disjoint, fun p => ?_⟩
  · have hsides := sides_of_mem_rgnRects hgood hr
    omega
  · rw [exists_mem_rgnRects hgood, hpixels]

/-- Two rectangles that overlap, from the right below. -/
theorem rgnRects_partition_overlap :
    let e := RegionTerm.or (.createRect 0 0 4 4) (.createRect 2 2 6 6)
    ∀ p, (∃ r ∈ rgnRects e.rgn true true, r.Has p) ↔ p ∈ e.meaning :=
  (rgnRects_partition _ (by simp [RegionTerm.Sides]) true true).2.2.2

end DroidVnc.Rfb
