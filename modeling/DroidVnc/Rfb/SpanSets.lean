import DroidVnc.Rfb.SpanList

/-! What the loops on span lists do to the sets that the lists stand for. A level of
lists keeps the laws of the level below, so they hold on every level. Spans of at least
`δ` numbers stay so long: with `1` a list that is not empty has cells, with `0` the
rectangles of a client's request may be empty. -/

namespace DroidVnc.Rfb

open Span

/-- `subspan`s stand for sets: `Good` for those that the routines are given and leave. -/
class LawfulSubspan (σ : Type) (β : outParam Type) [Subspan σ] where
  cells : σ → Set β
  Good : ℤ → σ → Prop
  cells_nonempty : ∀ x, Good 1 x → (cells x).Nonempty
  eq_of_equal : ∀ x y : σ, Subspan.equal x y = true → x = y
  or_spec : ∀ δ x y, 0 ≤ δ → δ ≤ 1 → Good δ x → Good δ y →
    Good δ (Subspan.or x y) ∧ cells (Subspan.or x y) = cells x ∪ cells y
  and_spec : ∀ δ x y, 0 ≤ δ → δ ≤ 1 → Good δ x → Good δ y →
    if (Subspan.and x y).2 then
      Good δ (Subspan.and x y).1 ∧ cells (Subspan.and x y).1 = cells x ∩ cells y
    else cells x ∩ cells y = ∅
  subtract_spec : ∀ δ x y, 0 ≤ δ → δ ≤ 1 → Good δ x → Good δ y →
    if (Subspan.subtract x y).2 then
      Good δ (Subspan.subtract x y).1 ∧ cells (Subspan.subtract x y).1 = cells x \ cells y
    else cells x \ cells y = ∅

/-- `NULL` stands for the one point there is. -/
instance : LawfulSubspan Unit Unit where
  cells _ := Set.univ
  Good _ _ := True
  cells_nonempty _ _ := ⟨(), trivial⟩
  eq_of_equal _ _ _ := rfl
  or_spec _ _ _ _ _ _ _ := ⟨trivial, (Set.union_self _).symm⟩
  and_spec _ _ _ _ _ _ _ := ⟨trivial, (Set.inter_self _).symm⟩
  subtract_spec _ _ _ _ _ _ _ := Set.sdiff_self

variable {σ β : Type} [Subspan σ] [LawfulSubspan σ β]

abbrev listCells (l : List (Span σ)) : Set (ℤ × β) := Span.cells LawfulSubspan.cells l

/-- The list is in order, its spans have at least `δ` numbers, and so on. -/
abbrev ListGood (δ : ℤ) (l : List (Span σ)) : Prop :=
  Span.Ordered δ (LawfulSubspan.Good δ) l

theorem mem_listCells_cons {s : Span σ} {l : List (Span σ)} {x : ℤ × β} :
    x ∈ listCells (s :: l) ↔ x ∈ s.cell LawfulSubspan.cells ∨ x ∈ listCells l := Iff.rfl

theorem mem_listCells_nil {x : ℤ × β} : x ∈ listCells ([] : List (Span σ)) ↔ False := Iff.rfl

namespace Cursor

/-- A list in order, what is before the cursor none beyond `hi`. -/
structure Good (δ hi : ℤ) (c : Cursor σ) : Prop where
  prev : UpTo δ (LawfulSubspan.Good δ) hi c.prev
  le_start : hi ≤ c.curr.start
  curr : c.curr.Proper δ (LawfulSubspan.Good δ)
  next : From δ (LawfulSubspan.Good δ) c.curr.stop c.next

def cells (c : Cursor σ) : Set (ℤ × β) :=
  listCells c.prev ∪ (c.curr.cell LawfulSubspan.cells ∪ listCells c.next)

variable {δ hi a : ℤ} {c : Cursor σ} {s : Span σ}

theorem Good.mono {lo : ℤ} (h : c.Good δ hi) (hle : hi ≤ lo) (hlo : lo ≤ c.curr.start) :
    c.Good δ lo :=
  ⟨h.prev.mono hle, hlo, h.curr, h.next⟩

theorem good_insertBefore (h : c.Good δ hi) (hs : s.Proper δ (LawfulSubspan.Good δ))
    (hstart : hi ≤ s.start) (hstop : s.stop ≤ c.curr.start) :
    (c.insertBefore s).Good δ s.stop :=
  ⟨⟨le_rfl, hs, h.prev.mono hstart⟩, hstop, h.curr, h.next⟩

theorem cells_insertBefore :
    (c.insertBefore s).cells = s.cell LawfulSubspan.cells ∪ c.cells := by
  show s.cell _ ∪ listCells c.prev ∪ _ = _
  rw [Set.union_assoc]
  rfl

theorem good_splitAfter (h : c.Good δ hi) (ha : c.curr.start + δ ≤ a) (hδ : δ ≤ 1) :
    (c.splitAfter a).Good δ hi := by
  unfold splitAfter
  split_ifs with hcut
  · refine ⟨h.prev, h.le_start, ⟨ha, h.curr.2⟩, ⟨le_rfl, ⟨?_, h.curr.2⟩, h.next⟩⟩
    show a + δ ≤ c.curr.stop
    omega
  · exact h

theorem cells_splitAfter (ha : c.curr.start ≤ a) : (c.splitAfter a).cells = c.cells := by
  unfold splitAfter
  split_ifs with hcut
  · unfold cells
    rw [listCells, listCells, cells_cons, ← Set.union_assoc (cell _ _), cell_cut ha hcut.le]
  · rfl

theorem good_splitBefore (h : c.Good δ hi) (ha : a + δ ≤ c.curr.stop) (hδ : δ ≤ 1) :
    (c.splitBefore a).Good δ (c.splitBefore a).curr.start := by
  have hle := h.le_start
  unfold splitBefore
  split_ifs with hcut
  · refine ⟨⟨le_rfl, ⟨?_, h.curr.2⟩, h.prev.mono hle⟩, le_rfl, ⟨ha, h.curr.2⟩, h.next⟩
    show c.curr.start + δ ≤ a
    omega
  · exact h.mono hle le_rfl

theorem cells_splitBefore (ha : a ≤ c.curr.stop) : (c.splitBefore a).cells = c.cells := by
  unfold splitBefore
  split_ifs with hcut
  · unfold cells
    rw [listCells, cells_cons, Set.union_comm (cell _ _), Set.union_assoc,
      ← Set.union_assoc (cell _ _), cell_cut hcut.le ha]
  · rfl

/-! ### Merging -/

theorem mergePreviousLoop_spec {l : List (Span σ)} {dest : Span σ} (hδ : 0 ≤ δ)
    (hl : UpTo δ (LawfulSubspan.Good δ) hi l) (hhi : hi ≤ dest.start)
    (hdest : dest.Proper δ (LawfulSubspan.Good δ)) :
    let r := mergePreviousLoop l dest
    UpTo δ (LawfulSubspan.Good δ) (min hi r.2.start) r.1 ∧
      r.2.Proper δ (LawfulSubspan.Good δ) ∧ r.2.start ≤ dest.start ∧
      r.2.subspan = dest.subspan ∧
      listCells r.1 ∪ r.2.cell LawfulSubspan.cells =
        listCells l ∪ dest.cell LawfulSubspan.cells := by
  induction l generalizing hi dest with
  | nil => exact ⟨trivial, hdest, le_rfl, rfl, rfl⟩
  | cons p l ih =>
    obtain ⟨hp, hproper, hl⟩ := hl
    unfold mergePreviousLoop
    split_ifs with hm
    · obtain ⟨hstop, hequal⟩ := hm
      have hsub := LawfulSubspan.eq_of_equal _ _ hequal
      have hlen := hproper.1
      have hlen' := hdest.1
      have hjoined : Proper δ (LawfulSubspan.Good δ) { dest with start := p.start } :=
        ⟨by dsimp only; omega, hdest.2⟩
      have hle : p.start ≤ Span.start { dest with start := p.start } := le_rfl
      obtain ⟨hup, hproper', hstart, hsubspan, hcells⟩ := ih hl hle hjoined
      refine ⟨hup.mono ?_, hproper', ?_, hsubspan, ?_⟩
      · dsimp only at hstart ⊢
        omega
      · dsimp only at hstart ⊢
        omega
      · rw [hcells, cell_join hstop hsub (by omega) (by omega), listCells, listCells, cells_cons,
          Set.union_comm (cell _ p) (Span.cells _ l), Set.union_assoc]
    · exact ⟨⟨by dsimp only; omega, hproper, hl⟩, hdest, le_rfl, rfl, rfl⟩

theorem mergePrevious_spec (hδ : 0 ≤ δ) (h : c.Good δ hi) :
    c.mergePrevious.Good δ (min hi c.mergePrevious.curr.start) ∧
      c.mergePrevious.curr.start ≤ c.curr.start ∧
      c.mergePrevious.curr.subspan = c.curr.subspan ∧ c.mergePrevious.cells = c.cells := by
  obtain ⟨hup, hproper, hstart, hsub, hcells⟩ :=
    mergePreviousLoop_spec hδ h.prev h.le_start h.curr
  refine ⟨⟨hup, min_le_right _ _, hproper, ?_⟩, hstart, hsub, ?_⟩
  · rw [mergePrevious_stop]
    exact h.next
  · unfold cells
    rw [← Set.union_assoc, ← Set.union_assoc]
    exact congrArg (· ∪ listCells c.next) hcells

theorem mem_mergePrevious {x : ℤ × β} (hδ : 0 ≤ δ) (h : c.Good δ hi) :
    x ∈ listCells (c.mergePrevious.curr :: c.mergePrevious.prev) ↔
      x ∈ listCells (c.curr :: c.prev) := by
  obtain ⟨-, -, -, -, hcells⟩ := mergePreviousLoop_spec hδ h.prev h.le_start h.curr
  rw [mem_listCells_cons, mem_listCells_cons, or_comm, or_comm (a := x ∈ cell _ c.curr)]
  exact Set.ext_iff.mp hcells x

theorem mergeNextLoop_spec {l : List (Span σ)} {dest : Span σ} (hδ : 0 ≤ δ)
    (hl : From δ (LawfulSubspan.Good δ) dest.stop l)
    (hdest : dest.Proper δ (LawfulSubspan.Good δ)) :
    let r := mergeNextLoop l dest
    From δ (LawfulSubspan.Good δ) r.2.stop r.1 ∧ r.2.Proper δ (LawfulSubspan.Good δ) ∧
      r.2.start = dest.start ∧ dest.stop ≤ r.2.stop ∧ r.2.subspan = dest.subspan ∧
      r.2.cell LawfulSubspan.cells ∪ listCells r.1 =
        dest.cell LawfulSubspan.cells ∪ listCells l := by
  induction l generalizing dest with
  | nil => exact ⟨trivial, hdest, rfl, le_rfl, rfl, rfl⟩
  | cons n l ih =>
    obtain ⟨hn, hproper, hl⟩ := hl
    unfold mergeNextLoop
    split_ifs with hm
    · obtain ⟨hstart, hequal⟩ := hm
      have hsub := LawfulSubspan.eq_of_equal _ _ hequal
      have hlen := hproper.1
      have hlen' := hdest.1
      have hjoined : Proper δ (LawfulSubspan.Good δ) { dest with stop := n.stop } :=
        ⟨by dsimp only; omega, hdest.2⟩
      have hl' : From δ (LawfulSubspan.Good δ) (Span.stop { dest with stop := n.stop }) l := hl
      obtain ⟨hfrom, hproper', hstart', hstop, hsubspan, hcells⟩ := ih hl' hjoined
      refine ⟨hfrom, hproper', hstart', ?_, hsubspan, ?_⟩
      · dsimp only at hstop ⊢
        omega
      · have hjoin : cell LawfulSubspan.cells { dest with stop := n.stop } =
            dest.cell LawfulSubspan.cells ∪ n.cell LawfulSubspan.cells := by
          rw [← cell_join hstart.symm hsub.symm (by omega) (by omega), hsub]
        rw [hcells, hjoin, listCells, listCells, cells_cons, Set.union_assoc]
    · exact ⟨⟨hn, hproper, hl⟩, hdest, rfl, le_rfl, rfl, rfl⟩

theorem mergeNext_spec (hδ : 0 ≤ δ) (h : c.Good δ hi) :
    c.mergeNext.Good δ hi ∧ c.mergeNext.curr.start = c.curr.start ∧
      c.curr.stop ≤ c.mergeNext.curr.stop ∧ c.mergeNext.curr.subspan = c.curr.subspan ∧
      c.mergeNext.cells = c.cells := by
  obtain ⟨hfrom, hproper, hstart, hstop, hsub, hcells⟩ := mergeNextLoop_spec hδ h.next h.curr
  exact ⟨⟨h.prev, h.le_start.trans hstart.ge, hproper, hfrom⟩, hstart, hstop, hsub,
    congrArg (listCells c.prev ∪ ·) hcells⟩

/-! ### Where the cursor's span is cut -/

omit [Subspan σ] [LawfulSubspan σ β] in
@[simp] theorem splitAfter_start : (c.splitAfter a).curr.start = c.curr.start := by
  unfold splitAfter; split_ifs <;> rfl

omit [Subspan σ] [LawfulSubspan σ β] in
theorem splitAfter_stop : (c.splitAfter a).curr.stop = min c.curr.stop a := by
  unfold splitAfter
  split_ifs with h
  · exact (min_eq_right h.le).symm
  · exact (min_eq_left (not_lt.mp h)).symm

omit [Subspan σ] [LawfulSubspan σ β] in
@[simp] theorem splitAfter_subspan : (c.splitAfter a).curr.subspan = c.curr.subspan := by
  unfold splitAfter; split_ifs <;> rfl

omit [Subspan σ] [LawfulSubspan σ β] in
theorem splitBefore_start : (c.splitBefore a).curr.start = max c.curr.start a := by
  unfold splitBefore
  split_ifs with h
  · exact (max_eq_right h.le).symm
  · exact (max_eq_left (not_lt.mp h)).symm

omit [Subspan σ] [LawfulSubspan σ β] in
@[simp] theorem splitBefore_subspan : (c.splitBefore a).curr.subspan = c.curr.subspan := by
  unfold splitBefore; split_ifs <;> rfl

theorem mem_splitAfter_next {x : ℤ × β} (ha : c.curr.start ≤ a) :
    x ∈ listCells (c.splitAfter a).next ↔
      (x ∈ c.curr.cell LawfulSubspan.cells ∧ a ≤ x.1) ∨ x ∈ listCells c.next := by
  unfold splitAfter
  split_ifs with hcut
  · rw [listCells, cells_cons, Set.mem_union, mem_cell, mem_cell]
    dsimp only
    refine or_congr_left ⟨fun h => ⟨⟨⟨ha.trans h.1.1, h.1.2⟩, h.2⟩, h.1.1⟩,
      fun h => ⟨⟨h.2, h.1.1.2⟩, h.1.2⟩⟩
  · rw [or_iff_right]
    rintro ⟨⟨⟨-, hx⟩, -⟩, hx'⟩
    omega

theorem mem_splitBefore_prev {x : ℤ × β} (ha : a ≤ c.curr.stop) :
    x ∈ listCells (c.splitBefore a).prev ↔
      (x ∈ c.curr.cell LawfulSubspan.cells ∧ x.1 < a) ∨ x ∈ listCells c.prev := by
  unfold splitBefore
  split_ifs with hcut
  · rw [listCells, cells_cons, Set.mem_union, mem_cell, mem_cell]
    dsimp only
    refine or_congr_left ⟨fun h => ⟨⟨⟨h.1.1, h.1.2.trans_le ha⟩, h.2⟩, h.1.2⟩,
      fun h => ⟨⟨h.1.1.1, h.2⟩, h.1.2⟩⟩
  · rw [or_iff_right]
    rintro ⟨⟨⟨hx, -⟩, -⟩, hx'⟩
    omega

theorem good_setSubspan {x : σ} (h : c.Good δ hi) (hx : LawfulSubspan.Good δ x) :
    (c.setSubspan x).Good δ hi :=
  ⟨h.prev, h.le_start, ⟨h.curr.1, hx⟩, h.next⟩

theorem mem_cells {x : ℤ × β} : x ∈ c.cells ↔
    x ∈ listCells c.prev ∨ x ∈ c.curr.cell LawfulSubspan.cells ∨ x ∈ listCells c.next :=
  Iff.rfl

end Cursor

variable {δ lo hi : ℤ} {c : Cursor σ} {s : Span σ}

/-! ### Union -/

theorem orBefore_spec (hδ : 0 ≤ δ) (hδ1 : δ ≤ 1) (h : c.Good δ hi)
    (hs : s.Proper δ (LawfulSubspan.Good δ)) (hlo : hi ≤ s.start) (hds : c.curr.start < s.stop) :
    (∃ hi', (orBefore c s).Good δ hi') ∧ (orBefore c s).curr.start ≤ c.curr.start ∧
      (orBefore c s).curr.stop = c.curr.stop ∧
      ∀ x, x ∈ (orBefore c s).cells ↔
        x ∈ c.cells ∨ (x ∈ s.cell LawfulSubspan.cells ∧ x.1 < c.curr.start) := by
  unfold orBefore
  split_ifs with hbefore
  · have hpart : Proper δ (LawfulSubspan.Good δ) { s with stop := c.curr.start } :=
      ⟨by dsimp only; omega, hs.2⟩
    obtain ⟨hgood, hstart, -, hcells⟩ :=
      Cursor.mergePrevious_spec hδ (Cursor.good_insertBefore h hpart hlo le_rfl)
    refine ⟨⟨_, hgood⟩, hstart, Cursor.mergePrevious_stop _, fun x => ?_⟩
    rw [hcells, Cursor.cells_insertBefore, Set.mem_union, or_comm, mem_cell, mem_cell]
    dsimp only
    refine or_congr_right ⟨fun hx => ⟨⟨⟨hx.1.1, hx.1.2.trans hds⟩, hx.2⟩, hx.1.2⟩,
      fun hx => ⟨⟨hx.1.1.1, hx.2⟩, hx.1.2⟩⟩
  · refine ⟨⟨hi, h⟩, le_rfl, rfl, fun x => ?_⟩
    rw [or_iff_left]
    rintro ⟨⟨⟨hx, -⟩, -⟩, hx'⟩
    omega

/-- The overlap has the cells of both spans, up to where the cursor's span ends. -/
theorem orOverlap_spec (hδ : 0 ≤ δ) (hδ1 : δ ≤ 1) (h : c.Good δ hi)
    (hs : s.Proper δ (LawfulSubspan.Good δ)) (hlo : hi ≤ s.start) (hsd : s.start < c.curr.stop)
    (hds : c.curr.start < s.stop) :
    (∃ hi', (orOverlap c s).Good δ hi') ∧ (orOverlap c s).curr.start ≤ s.stop ∧
      s.start ≤ (orOverlap c s).curr.stop ∧
      ∀ x, x ∈ (orOverlap c s).cells ↔
        x ∈ c.cells ∨ (x ∈ s.cell LawfulSubspan.cells ∧ x.1 < (orOverlap c s).curr.stop) := by
  obtain ⟨⟨hi₁, hgood₁⟩, hstart₁, hstop₁, hcells₁⟩ := orBefore_spec hδ hδ1 h hs hlo hds
  unfold orOverlap
  dsimp only
  set c₁ := orBefore c s
  have hslen := hs.1
  have hlen := h.curr.1
  -- what is cut off outside the overlap stays in the list
  have hgood₂ := Cursor.good_splitBefore (a := s.start)
    (Cursor.good_splitAfter (a := s.stop) hgood₁ (by omega) hδ1)
    (by rw [Cursor.splitAfter_stop]; omega) hδ1
  have hcells₂ : ((c₁.splitAfter s.stop).splitBefore s.start).cells = c₁.cells := by
    rw [Cursor.cells_splitBefore (by rw [Cursor.splitAfter_stop]; omega),
      Cursor.cells_splitAfter (by omega)]
  have hstart₂ : ((c₁.splitAfter s.stop).splitBefore s.start).curr.start =
      max c₁.curr.start s.start := by
    rw [Cursor.splitBefore_start, Cursor.splitAfter_start]
  have hstop₂ : ((c₁.splitAfter s.stop).splitBefore s.start).curr.stop =
      min c.curr.stop s.stop := by
    rw [Cursor.splitBefore_stop, Cursor.splitAfter_stop, hstop₁]
  set c₂ := (c₁.splitAfter s.stop).splitBefore s.start
  obtain ⟨hor, horcells⟩ :=
    LawfulSubspan.or_spec δ c₂.curr.subspan s.subspan hδ hδ1 hgood₂.curr.2 hs.2
  have hgood₃ := Cursor.good_setSubspan hgood₂ hor
  set c₃ := c₂.setSubspan (Subspan.or c₂.curr.subspan s.subspan) with hc₃
  have hcells₃ : ∀ x, x ∈ c₃.cells ↔
      x ∈ c₂.cells ∨ (c₂.curr.Has x.1 ∧ x.2 ∈ LawfulSubspan.cells s.subspan) := by
    intro x
    rw [Cursor.mem_cells, Cursor.mem_cells, hc₃]
    simp only [Cursor.setSubspan, mem_cell, horcells, Set.mem_union, Has]
    tauto
  obtain ⟨hgood₄, hstart₄, hsub₄, hcells₄⟩ := Cursor.mergePrevious_spec hδ hgood₃
  obtain ⟨hgood₅, hstart₅, hstop₅, hsub₅, hcells₅⟩ := Cursor.mergeNext_spec hδ hgood₄
  have hstart₃ : c₃.curr.start = c₂.curr.start := rfl
  have hstop₃ : c₃.mergePrevious.curr.stop = c₂.curr.stop := Cursor.mergePrevious_stop _
  set c₅ := c₃.mergePrevious.mergeNext
  refine ⟨⟨_, hgood₅⟩, by omega, by omega, fun x => ?_⟩
  have hx₅ : c₅.curr.Has x.1 → x.2 ∈ LawfulSubspan.cells s.subspan → x ∈ c₅.cells := by
    intro hhas hx
    refine .inr (.inl ⟨hhas, ?_⟩)
    rw [hsub₅, hsub₄]
    show x.2 ∈ LawfulSubspan.cells (Subspan.or _ _)
    rw [horcells]
    exact .inr hx
  have hx : x ∈ c₅.cells ↔ x ∈ c.cells ∨ (x ∈ s.cell LawfulSubspan.cells ∧ x.1 < c.curr.start) ∨
      (c₂.curr.Has x.1 ∧ x.2 ∈ LawfulSubspan.cells s.subspan) := by
    rw [hcells₅, hcells₄, hcells₃, hcells₂, hcells₁, or_assoc]
  constructor
  · intro hmem
    rcases hx.mp hmem with hmem | ⟨hxs, hlt⟩ | ⟨⟨hge, hlt⟩, hxs⟩
    · exact .inl hmem
    · exact .inr ⟨hxs, by omega⟩
    · exact .inr ⟨⟨⟨by omega, by omega⟩, hxs⟩, by omega⟩
  · rintro (hmem | ⟨⟨⟨hge, hlt⟩, hxs⟩, hlt₅⟩)
    · exact hx.mpr (.inl hmem)
    · by_cases hbefore : x.1 < c.curr.start
      · exact hx.mpr (.inr (.inl ⟨⟨⟨hge, hlt⟩, hxs⟩, hbefore⟩))
      · -- what the merging has added has the same on it
        exact hx₅ ⟨by omega, hlt₅⟩ hxs

/-- The loop joins what is before the cursor with both lists from it on. -/
theorem orLoop_spec {prev dest src : List (Span σ)} (hδ : 0 ≤ δ) (hδ1 : δ ≤ 1)
    (hprev : UpTo δ (LawfulSubspan.Good δ) lo prev)
    (hdest : From δ (LawfulSubspan.Good δ) lo dest)
    (hsrc : From δ (LawfulSubspan.Good δ) lo src) :
    ListGood δ (orLoop prev dest src) ∧ ∀ x, x ∈ listCells (orLoop prev dest src) ↔
      x ∈ listCells prev ∨ x ∈ listCells dest ∨ x ∈ listCells src := by
  induction prev, dest, src using orLoop.induct generalizing lo with
  | case1 prev dest =>
    rw [orLoop]
    refine ⟨From.ordered_reverse_append hprev hdest, fun x => ?_⟩
    rw [listCells, cells_append, cells_reverse, mem_listCells_nil, or_false]
    rfl
  | case2 prev s src ih =>
    obtain ⟨hgood, hcells⟩ := ih ⟨le_rfl, hsrc.2.1, hprev.mono hsrc.1⟩ trivial hsrc.2.2
    rw [orLoop]
    refine ⟨hgood, fun x => ?_⟩
    rw [hcells, mem_listCells_cons, mem_listCells_cons, mem_listCells_nil]
    tauto
  | case3 prev d dest s src hle c =>
    rename_i ih
    obtain ⟨hs, hsproper, hsrc⟩ := hsrc
    have hc : Cursor.Good δ s.stop ⟨s :: prev, d, dest⟩ :=
      ⟨⟨le_rfl, hsproper, hprev.mono hs⟩, hle, hdest.2.1, hdest.2.2⟩
    obtain ⟨hc', -, -, hcells'⟩ := Cursor.mergePrevious_spec hδ hc
    obtain ⟨hgood, hcells⟩ := ih hc'.prev ⟨min_le_right _ _, hc'.curr, hc'.next⟩
      (hsrc.mono (min_le_left _ _))
    rw [orLoop, if_pos hle]
    refine ⟨hgood, fun x => (hcells x).trans ?_⟩
    have hx := Set.ext_iff.mp hcells' x
    simp only [Cursor.mem_cells, mem_listCells_cons] at hx ⊢
    replace hx : _ ∨ _ ∨ x ∈ listCells dest ↔ _ := hx
    tauto
  | case4 prev d dest s src hle hover c hstop =>
    rename_i ih
    obtain ⟨hs, hsproper, hsrc⟩ := hsrc
    have hslen := hsproper.1
    have hc : Cursor.Good δ lo ⟨prev, d, dest⟩ := ⟨hprev, hdest.1, hdest.2.1, hdest.2.2⟩
    obtain ⟨⟨hi', hc'⟩, hstart, hstop', hcells'⟩ :=
      orOverlap_spec hδ hδ1 hc hsproper hs hover.1 hover.2
    have hrest : Proper δ (LawfulSubspan.Good δ) { s with start := c.curr.stop } :=
      ⟨by dsimp only; omega, hsproper.2⟩
    obtain ⟨hgood, hcells⟩ := ih ⟨le_rfl, hc'.curr, hc'.prev.mono hc'.le_start⟩ hc'.next
      ⟨le_rfl, hrest, hsrc⟩
    rw [orLoop, if_neg hle, if_pos hover, dif_pos hstop]
    refine ⟨hgood, fun x => (hcells x).trans ?_⟩
    have hx := hcells' x
    simp only [Cursor.mem_cells, mem_listCells_cons, mem_cell] at hx ⊢
    grind
  | case5 prev d dest s src hle hover c hstop =>
    rename_i ih
    obtain ⟨hs, hsproper, hsrc⟩ := hsrc
    have hc : Cursor.Good δ lo ⟨prev, d, dest⟩ := ⟨hprev, hdest.1, hdest.2.1, hdest.2.2⟩
    obtain ⟨⟨hi', hc'⟩, hstart, hstop', hcells'⟩ :=
      orOverlap_spec hδ hδ1 hc hsproper hs hover.1 hover.2
    obtain ⟨hgood, hcells⟩ := ih (hc'.prev.mono hc'.le_start) ⟨le_rfl, hc'.curr, hc'.next⟩
      (hsrc.mono hstart)
    rw [orLoop, if_neg hle, if_pos hover, dif_neg hstop]
    refine ⟨hgood, fun x => (hcells x).trans ?_⟩
    have hx := hcells' x
    simp only [Cursor.mem_cells, mem_listCells_cons, mem_cell] at hx ⊢
    grind
  | case6 prev d dest s src hle hover ih =>
    have hds : d.stop ≤ s.start := by
      have hlen := hsrc.2.1.1
      omega
    obtain ⟨hgood, hcells⟩ := ih ⟨le_rfl, hdest.2.1, hprev.mono hdest.1⟩ hdest.2.2
      ⟨hds, hsrc.2⟩
    rw [orLoop, if_neg hle, if_neg hover]
    refine ⟨hgood, fun x => (hcells x).trans ?_⟩
    simp only [mem_listCells_cons]
    tauto

/-! ### Intersection -/

/-- What is left of the cursor's span is what it shares with that of the source. -/
theorem andOverlap_spec (hδ : 0 ≤ δ) (hδ1 : δ ≤ 1) (h : c.Good δ hi)
    (hs : s.Proper δ (LawfulSubspan.Good δ)) (hsd : s.start < c.curr.stop)
    (hds : c.curr.start < s.stop) :
    let r := andOverlap c s
    r.1.prev = c.prev ∧ hi ≤ r.1.curr.start ∧ r.1.curr.stop = min c.curr.stop s.stop ∧
      From δ (LawfulSubspan.Good δ) r.1.curr.stop r.1.next ∧
      (∀ x, x ∈ listCells r.1.next ↔
        (x ∈ c.curr.cell LawfulSubspan.cells ∧ s.stop ≤ x.1) ∨ x ∈ listCells c.next) ∧
      if r.2 then
        r.1.curr.Proper δ (LawfulSubspan.Good δ) ∧ ∀ x, x ∈ r.1.curr.cell LawfulSubspan.cells ↔
          x ∈ c.curr.cell LawfulSubspan.cells ∧ x ∈ s.cell LawfulSubspan.cells
      else ∀ x, x ∈ c.curr.cell LawfulSubspan.cells → x ∉ s.cell LawfulSubspan.cells := by
  have hslen := hs.1
  have hlen := h.curr.1
  have htrim : (if c.curr.start < s.start then
      { c with curr := { c.curr with start := s.start } } else c) =
      { c with curr := { c.curr with start := max c.curr.start s.start } } := by
    split_ifs with hlt
    · rw [max_eq_right hlt.le]
    · rw [max_eq_left (not_lt.mp hlt)]
  unfold andOverlap
  rw [htrim]
  dsimp only
  set c₁ : Cursor σ := { c with curr := { c.curr with start := max c.curr.start s.start } } with hc₁
  have hgood₁ : c₁.Good δ hi :=
    ⟨h.prev, h.le_start.trans (le_max_left _ _), ⟨by rw [hc₁]; dsimp only; omega, h.curr.2⟩, h.next⟩
  have hgood₂ := Cursor.good_splitAfter (a := s.stop) hgood₁ (by rw [hc₁]; dsimp only; omega) hδ1
  have hand := LawfulSubspan.and_spec δ (c₁.splitAfter s.stop).curr.subspan s.subspan hδ hδ1
    hgood₂.curr.2 hs.2
  have hsub : (c₁.splitAfter s.stop).curr.subspan = c.curr.subspan := Cursor.splitAfter_subspan
  have hstop : (c₁.splitAfter s.stop).curr.stop = min c.curr.stop s.stop := Cursor.splitAfter_stop
  have hstart : (c₁.splitAfter s.stop).curr.start = max c.curr.start s.start :=
    Cursor.splitAfter_start
  rw [hsub] at hand ⊢
  refine ⟨Cursor.splitAfter_prev _ _, hgood₂.le_start, hstop, hgood₂.next, fun x => ?_, ?_⟩
  · refine (Cursor.mem_splitAfter_next (by rw [hc₁]; dsimp only; omega)).trans (or_congr_left ?_)
    rw [mem_cell, mem_cell, hc₁]
    dsimp only
    constructor <;> rintro ⟨⟨⟨_, _⟩, _⟩, _⟩ <;> refine ⟨⟨⟨?_, ?_⟩, ?_⟩, ?_⟩ <;>
      first | assumption | omega
  · split_ifs at hand ⊢ with hkept
    · refine ⟨⟨hgood₂.curr.1, hand.1⟩, fun x => ?_⟩
      have hx := Set.ext_iff.mp hand.2 x.2
      simp only [Cursor.setSubspan, mem_cell, hstart, hstop, hx, Set.mem_inter_iff, max_le_iff,
        lt_min_iff]
      tauto
    · intro x hxc hxs
      have hx : x.2 ∈ LawfulSubspan.cells c.curr.subspan ∩ LawfulSubspan.cells s.subspan :=
        ⟨hxc.2, hxs.2⟩
      rw [hand] at hx
      exact hx

/-- The loop leaves, of the list from the cursor on, what the source has as well. -/
theorem andLoop_spec {prev dest src : List (Span σ)} (hδ : 0 ≤ δ) (hδ1 : δ ≤ 1)
    (hprev : UpTo δ (LawfulSubspan.Good δ) lo prev)
    (hdest : From δ (LawfulSubspan.Good δ) lo dest) (hsrc : ListGood δ src) :
    ListGood δ (andLoop prev dest src) ∧ ∀ x, x ∈ listCells (andLoop prev dest src) ↔
      x ∈ listCells prev ∨ (x ∈ listCells dest ∧ x ∈ listCells src) := by
  induction prev, dest, src using andLoop.induct generalizing lo with
  | case1 prev src =>
    rw [andLoop]
    refine ⟨hprev.ordered_reverse, fun x => ?_⟩
    rw [listCells, cells_reverse, mem_listCells_nil, false_and, or_false]
  | case2 prev d dest =>
    rw [andLoop]
    refine ⟨hprev.ordered_reverse, fun x => ?_⟩
    rw [listCells, cells_reverse, mem_listCells_nil, and_false, or_false]
  | case3 prev d dest s src hle ih =>
    obtain ⟨hgood, hcells⟩ := ih hprev hdest hsrc.2.ordered
    rw [andLoop, if_pos hle]
    refine ⟨hgood, fun x => (hcells x).trans (or_congr_right (and_congr_right fun hx => ?_))⟩
    have hlow := Ordered.start_le_of_mem hδ hdest.2 hx
    rw [mem_listCells_cons, or_iff_right]
    intro hxs
    have hlt := hxs.1.2
    omega
  | case4 prev d dest s src hle hle' ih =>
    obtain ⟨hgood, hcells⟩ := ih (hprev.mono (hdest.1.trans (by have := hdest.2.1.1; omega)))
      hdest.2.2 hsrc
    rw [andLoop, if_neg hle, if_pos hle']
    refine ⟨hgood, fun x => (hcells x).trans (or_congr_right (and_congr_left fun hx => ?_))⟩
    have hlow := Ordered.start_le_of_mem hδ hsrc hx
    rw [mem_listCells_cons, or_iff_right]
    intro hxd
    have hlt := hxd.1.2
    omega
  | case5 prev d dest s src hle hle' r hkept c hstop =>
    rename_i ih
    have hslen := hsrc.1.1
    have hdlen := hdest.2.1.1
    have hc : Cursor.Good δ lo ⟨prev, d, dest⟩ := ⟨hprev, hdest.1, hdest.2.1, hdest.2.2⟩
    obtain ⟨hrprev, hrstart, hrstop, hrnext, hnext, hcurr⟩ :=
      andOverlap_spec hδ hδ1 hc hsrc.1 (not_le.mp hle') (not_le.mp hle)
    rw [if_pos hkept] at hcurr
    have hr : Cursor.Good δ lo r.1 := ⟨by rw [hrprev]; exact hprev, hrstart, hcurr.1, hrnext⟩
    obtain ⟨hc', -, -, hcells'⟩ := Cursor.mergePrevious_spec hδ hr
    have hsrc' : ListGood δ (if h : s.stop ≤ c.curr.stop then src else s :: src) := by
      split_ifs
      · exact hsrc.2.ordered
      · exact hsrc
    obtain ⟨hgood, hcells⟩ := ih ⟨le_rfl, hc'.curr, hc'.prev.mono hc'.le_start⟩ hc'.next hsrc'
    have hcstop : c.curr.stop = min d.stop s.stop := (Cursor.mergePrevious_stop _).trans hrstop
    rw [andLoop, if_neg hle, if_neg hle', if_pos hkept, dif_pos hstop]
    refine ⟨hgood, fun x => (hcells x).trans ?_⟩
    have hx := hnext x
    have hxdest (h : x ∈ listCells dest) : d.stop ≤ x.1 := From.le_of_mem hδ hdest.2.2 h
    have hxsrc (h : x ∈ listCells src) : s.stop ≤ x.1 := From.le_of_mem hδ hsrc.2 h
    rw [Cursor.mem_mergePrevious hδ hr, mem_listCells_cons, hcurr.2, hrprev,
      Cursor.mergePrevious_next, hx]
    split_ifs with hs
    · simp only [mem_listCells_cons, mem_cell] at hx ⊢
      grind
    · simp only [mem_listCells_cons, mem_cell] at hx ⊢
      grind
  | case6 prev d dest s src hle hle' r hkept c hstop =>
    exact absurd (by rw [Cursor.mergePrevious_stop]; exact (andOverlap_cases _ _).1) hstop
  | case7 prev d dest s src hle hle' r hkept =>
    rename_i ih
    have hslen := hsrc.1.1
    have hdlen := hdest.2.1.1
    have hc : Cursor.Good δ lo ⟨prev, d, dest⟩ := ⟨hprev, hdest.1, hdest.2.1, hdest.2.2⟩
    obtain ⟨-, hrstart, hrstop, hrnext, hnext, hcurr⟩ :=
      andOverlap_spec hδ hδ1 hc hsrc.1 (not_le.mp hle') (not_le.mp hle)
    rw [if_neg hkept] at hcurr
    have hlo := hdest.1
    obtain ⟨hgood, hcells⟩ := ih hprev (hrnext.mono (by dsimp only at hrstop; omega)) hsrc
    rw [andLoop, if_neg hle, if_neg hle', if_neg hkept]
    refine ⟨hgood, fun x => (hcells x).trans (or_congr_right (and_congr_left fun hx => ?_))⟩
    rw [hnext x, mem_listCells_cons]
    refine or_congr_left ⟨fun h => h.1, fun hxd => ⟨hxd, ?_⟩⟩
    rcases hx with hxs | hxs
    · exact absurd hxs (hcurr x hxd)
    · exact From.le_of_mem hδ hsrc.2 hxs

/-! ### Difference -/

/-- What the source's span does not reach is cut off, and that span taken from the rest. -/
theorem subtractOverlap_spec (hδ : 0 ≤ δ) (hδ1 : δ ≤ 1) (h : c.Good δ hi)
    (hs : s.Proper δ (LawfulSubspan.Good δ)) (hsd : s.start < c.curr.stop)
    (hds : c.curr.start < s.stop) :
    let r := subtractOverlap c s
    r.1.curr.start = max c.curr.start s.start ∧ r.1.curr.stop = min c.curr.stop s.stop ∧
      UpTo δ (LawfulSubspan.Good δ) r.1.curr.start r.1.prev ∧
      From δ (LawfulSubspan.Good δ) r.1.curr.stop r.1.next ∧
      (∀ x, x ∈ listCells r.1.prev ↔
        (x ∈ c.curr.cell LawfulSubspan.cells ∧ x.1 < s.start) ∨ x ∈ listCells c.prev) ∧
      (∀ x, x ∈ listCells r.1.next ↔
        (x ∈ c.curr.cell LawfulSubspan.cells ∧ s.stop ≤ x.1) ∨ x ∈ listCells c.next) ∧
      if r.2 then
        r.1.Good δ r.1.curr.start ∧ ∀ b, b ∈ LawfulSubspan.cells r.1.curr.subspan ↔
          b ∈ LawfulSubspan.cells c.curr.subspan ∧ b ∉ LawfulSubspan.cells s.subspan
      else ∀ b, b ∈ LawfulSubspan.cells c.curr.subspan → b ∈ LawfulSubspan.cells s.subspan := by
  have hslen := hs.1
  have hlen := h.curr.1
  unfold subtractOverlap
  dsimp only
  have hgood₁ := Cursor.good_splitBefore (a := s.start) h (by omega) hδ1
  have hstart₁ : (c.splitBefore s.start).curr.start = max c.curr.start s.start :=
    Cursor.splitBefore_start
  have hstop₁ : (c.splitBefore s.start).curr.stop = c.curr.stop := Cursor.splitBefore_stop _ _
  have hsub₁ : (c.splitBefore s.start).curr.subspan = c.curr.subspan :=
    Cursor.splitBefore_subspan
  have hprev₁ (x : ℤ × β) := Cursor.mem_splitBefore_prev (c := c) (a := s.start) (x := x) hsd.le
  have hnext₁ : (c.splitBefore s.start).next = c.next := Cursor.splitBefore_next _ _
  set c₁ := c.splitBefore s.start
  have hgood₂ := Cursor.good_splitAfter (a := s.stop) hgood₁ (by omega) hδ1
  have hsub : (c₁.splitAfter s.stop).curr.subspan = c.curr.subspan :=
    Cursor.splitAfter_subspan.trans hsub₁
  have hsubtract := LawfulSubspan.subtract_spec δ (c₁.splitAfter s.stop).curr.subspan s.subspan
    hδ hδ1 hgood₂.curr.2 hs.2
  rw [hsub] at hsubtract ⊢
  have hstart : (c₁.splitAfter s.stop).curr.start = max c.curr.start s.start :=
    Cursor.splitAfter_start.trans hstart₁
  have hstop : (c₁.splitAfter s.stop).curr.stop = min c.curr.stop s.stop := by
    rw [Cursor.splitAfter_stop, hstop₁]
  refine ⟨hstart, hstop, hgood₂.prev.mono hgood₂.le_start, hgood₂.next, fun x => ?_,
    fun x => ?_, ?_⟩
  · show x ∈ listCells (c₁.splitAfter s.stop).prev ↔ _
    rw [Cursor.splitAfter_prev]
    exact hprev₁ x
  · refine (Cursor.mem_splitAfter_next (by omega)).trans ?_
    rw [hnext₁, mem_cell, mem_cell, hstart₁, hstop₁, hsub₁]
    have hge : s.stop ≤ x.1 → s.start ≤ x.1 := by omega
    simp only [max_le_iff]
    tauto
  · split_ifs at hsubtract ⊢ with hkept
    · refine ⟨Cursor.good_setSubspan (hgood₂.mono ?_ le_rfl) hsubtract.1, fun b => ?_⟩
      · exact hgood₂.le_start
      · show b ∈ LawfulSubspan.cells (Subspan.subtract _ _).1 ↔ _
        rw [hsubtract.2]
        exact Iff.rfl
    · exact fun b hb => Set.sdiff_eq_empty.mp hsubtract hb

/-- Merged, what is left of the cursor's span has nothing of the source's on it. -/
theorem subtractOverlap_merged (hδ : 0 ≤ δ) (hδ1 : δ ≤ 1) (h : c.Good δ hi)
    (hs : s.Proper δ (LawfulSubspan.Good δ)) (hsd : s.start < c.curr.stop)
    (hds : c.curr.start < s.stop) (hkept : (subtractOverlap c s).2 = true) :
    let m := (subtractOverlap c s).1.mergePrevious.mergeNext
    m.Good δ m.curr.start ∧ m.curr.start ≤ max c.curr.start s.start ∧
      min c.curr.stop s.stop ≤ m.curr.stop ∧
      (∀ x, x ∈ m.curr.cell LawfulSubspan.cells → x.2 ∉ LawfulSubspan.cells s.subspan) ∧
      ∀ x, x ∈ m.cells ↔ x ∈ listCells c.prev ∨ (x ∈ c.curr.cell LawfulSubspan.cells ∧
        x ∉ s.cell LawfulSubspan.cells) ∨ x ∈ listCells c.next := by
  obtain ⟨hstart, hstop, -, -, hprev, hnext, hcurr⟩ := subtractOverlap_spec hδ hδ1 h hs hsd hds
  rw [if_pos hkept] at hcurr
  set r := subtractOverlap c s
  obtain ⟨hgood₁, hstart₁, hsub₁, hcells₁⟩ := Cursor.mergePrevious_spec hδ hcurr.1
  obtain ⟨hgood₂, hstart₂, hstop₂, hsub₂, hcells₂⟩ := Cursor.mergeNext_spec hδ hgood₁
  rw [Cursor.mergePrevious_stop] at hstop₂
  dsimp only
  refine ⟨hgood₂.mono hgood₂.le_start le_rfl, by omega, by omega, fun x hx => ?_, fun x => ?_⟩
  · have hb := hx.2
    rw [hsub₂, hsub₁, hcurr.2] at hb
    exact hb.2
  · rw [hcells₂, hcells₁, Cursor.mem_cells, hprev, hnext, mem_cell, mem_cell, mem_cell, hstart,
      hstop, hcurr.2, max_le_iff, lt_min_iff]
    grind

/-- The loop takes the source from the list from the cursor on. -/
theorem subtractLoop_spec {prev dest src : List (Span σ)} (hδ : 0 ≤ δ) (hδ1 : δ ≤ 1)
    (hprev : UpTo δ (LawfulSubspan.Good δ) lo prev)
    (hdest : From δ (LawfulSubspan.Good δ) lo dest) (hsrc : ListGood δ src) :
    ListGood δ (subtractLoop prev dest src) ∧ ∀ x, x ∈ listCells (subtractLoop prev dest src) ↔
      x ∈ listCells prev ∨ (x ∈ listCells dest ∧ x ∉ listCells src) := by
  induction prev, dest, src using subtractLoop.induct generalizing lo with
  | case1 prev dest =>
    rw [subtractLoop]
    refine ⟨From.ordered_reverse_append hprev hdest, fun x => ?_⟩
    rw [listCells, cells_append, cells_reverse, mem_listCells_nil, not_false_eq_true, and_true]
    rfl
  | case2 prev s src =>
    rw [subtractLoop]
    refine ⟨hprev.ordered_reverse, fun x => ?_⟩
    rw [listCells, cells_reverse, mem_listCells_nil, false_and, or_false]
  | case3 prev d dest s src hle ih =>
    obtain ⟨hgood, hcells⟩ := ih hprev hdest hsrc.2.ordered
    rw [subtractLoop, if_pos hle]
    refine ⟨hgood, fun x => (hcells x).trans (or_congr_right (and_congr_right fun hx => ?_))⟩
    have hlow := Ordered.start_le_of_mem hδ hdest.2 hx
    rw [mem_listCells_cons, or_iff_right]
    intro hxs
    have hlt := hxs.1.2
    omega
  | case4 prev d dest s src hle hle' ih =>
    obtain ⟨hgood, hcells⟩ := ih ⟨le_rfl, hdest.2.1, hprev.mono hdest.1⟩ hdest.2.2 hsrc
    rw [subtractLoop, if_neg hle, if_pos hle']
    refine ⟨hgood, fun x => (hcells x).trans ?_⟩
    have hxd (h : x ∈ d.cell LawfulSubspan.cells) : x ∉ listCells (s :: src) := fun hxs => by
      have hlow := Ordered.start_le_of_mem hδ hsrc hxs
      have hlt := h.1.2
      omega
    simp only [mem_listCells_cons] at hxd ⊢
    tauto
  | case5 prev d dest s src hle hle' r hkept c hstop =>
    rename_i ih
    have hc : Cursor.Good δ lo ⟨prev, d, dest⟩ := ⟨hprev, hdest.1, hdest.2.1, hdest.2.2⟩
    obtain ⟨hm, hmstart, hmstop, hmcurr, hmcells⟩ :=
      subtractOverlap_merged hδ hδ1 hc hsrc.1 (not_le.mp hle') (not_le.mp hle) hkept
    obtain ⟨hgood, hcells⟩ := ih ⟨le_rfl, hm.curr, hm.prev⟩ hm.next hsrc
    rw [subtractLoop, if_neg hle, if_neg hle', if_pos hkept, dif_pos hstop]
    refine ⟨hgood, fun x => (hcells x).trans ?_⟩
    have hx := hmcells x
    have hxcurr := hmcurr x
    have hlo := hdest.1
    have hdlen := hdest.2.1.1
    have hslen := hsrc.1.1
    have hprev_lt (h : x ∈ listCells prev) : x.1 < lo := UpTo.lt_of_mem hδ hprev h
    have hprev_lt' (h : x ∈ listCells c.prev) : x.1 < c.curr.start := UpTo.lt_of_mem hδ hm.prev h
    have hnext_le (h : x ∈ listCells c.next) : c.curr.stop ≤ x.1 := From.le_of_mem hδ hm.next h
    have hdest_le (h : x ∈ listCells dest) : d.stop ≤ x.1 := From.le_of_mem hδ hdest.2.2 h
    have hsrc_le (h : x ∈ listCells src) : s.stop ≤ x.1 := From.le_of_mem hδ hsrc.2 h
    replace hmstart : c.curr.start ≤ max d.start s.start := hmstart
    replace hmstop : min d.stop s.stop ≤ c.curr.stop := hmstop
    replace hx : x ∈ listCells c.prev ∨ x ∈ c.curr.cell LawfulSubspan.cells ∨
      x ∈ listCells c.next ↔ _ := hx
    simp only [mem_listCells_cons, mem_cell] at hx hxcurr ⊢
    grind
  | case6 prev d dest s src hle hle' r hkept c hstop =>
    rename_i ih
    have hc : Cursor.Good δ lo ⟨prev, d, dest⟩ := ⟨hprev, hdest.1, hdest.2.1, hdest.2.2⟩
    obtain ⟨hm, hmstart, hmstop, hmcurr, hmcells⟩ :=
      subtractOverlap_merged hδ hδ1 hc hsrc.1 (not_le.mp hle') (not_le.mp hle) hkept
    obtain ⟨hgood, hcells⟩ := ih hm.prev ⟨le_rfl, hm.curr, hm.next⟩ hsrc.2.ordered
    rw [subtractLoop, if_neg hle, if_neg hle', if_pos hkept, dif_neg hstop]
    refine ⟨hgood, fun x => (hcells x).trans ?_⟩
    have hx := hmcells x
    have hxcurr := hmcurr x
    have hlo := hdest.1
    have hdlen := hdest.2.1.1
    have hslen := hsrc.1.1
    have hprev_lt (h : x ∈ listCells prev) : x.1 < lo := UpTo.lt_of_mem hδ hprev h
    have hprev_lt' (h : x ∈ listCells c.prev) : x.1 < c.curr.start := UpTo.lt_of_mem hδ hm.prev h
    have hnext_le (h : x ∈ listCells c.next) : c.curr.stop ≤ x.1 := From.le_of_mem hδ hm.next h
    have hdest_le (h : x ∈ listCells dest) : d.stop ≤ x.1 := From.le_of_mem hδ hdest.2.2 h
    have hsrc_le (h : x ∈ listCells src) : s.stop ≤ x.1 := From.le_of_mem hδ hsrc.2 h
    replace hmstart : c.curr.start ≤ max d.start s.start := hmstart
    replace hmstop : min d.stop s.stop ≤ c.curr.stop := hmstop
    replace hx : x ∈ listCells c.prev ∨ x ∈ c.curr.cell LawfulSubspan.cells ∨
      x ∈ listCells c.next ↔ _ := hx
    simp only [mem_listCells_cons, mem_cell] at hx hxcurr ⊢
    grind
  | case7 prev d dest s src hle hle' r hkept =>
    rename_i ih
    have hc : Cursor.Good δ lo ⟨prev, d, dest⟩ := ⟨hprev, hdest.1, hdest.2.1, hdest.2.2⟩
    obtain ⟨hrstart, hrstop, hrprev, hrnext, hrprev', hrnext', hcurr⟩ :=
      subtractOverlap_spec hδ hδ1 hc hsrc.1 (not_le.mp hle') (not_le.mp hle)
    rw [if_neg hkept] at hcurr
    have hdlen := hdest.2.1.1
    have hslen := hsrc.1.1
    obtain ⟨hgood, hcells⟩ := ih hrprev (hrnext.mono (by dsimp only at hrstart hrstop; omega)) hsrc
    rw [subtractLoop, if_neg hle, if_neg hle', if_neg hkept]
    refine ⟨hgood, fun x => (hcells x).trans ?_⟩
    have hxcurr := hcurr x.2
    have hsrc_le (h : x ∈ listCells src) : s.stop ≤ x.1 := From.le_of_mem hδ hsrc.2 h
    rw [hrprev' x, hrnext' x]
    simp only [mem_listCells_cons, mem_cell]
    grind

/-! ### The routines -/

theorem spanListOr_spec {l m : List (Span σ)} (hδ : 0 ≤ δ) (hδ1 : δ ≤ 1) (hl : ListGood δ l)
    (hm : ListGood δ m) :
    ListGood δ (spanListOr l m) ∧ listCells (spanListOr l m) = listCells l ∪ listCells m := by
  obtain ⟨a, ha⟩ := hl.exists_from
  obtain ⟨b, hb⟩ := hm.exists_from
  have hnil : UpTo δ (LawfulSubspan.Good δ) (min a b) ([] : List (Span σ)) := trivial
  obtain ⟨hgood, hcells⟩ := orLoop_spec hδ hδ1 hnil (ha.mono (min_le_left a b))
    (hb.mono (min_le_right a b))
  refine ⟨hgood, Set.ext fun x => (hcells x).trans ?_⟩
  rw [mem_listCells_nil, false_or]
  rfl

theorem spanListAnd_spec {l m : List (Span σ)} (hδ : 0 ≤ δ) (hδ1 : δ ≤ 1) (hl : ListGood δ l)
    (hm : ListGood δ m) :
    ListGood δ (spanListAnd l m).1 ∧
      listCells (spanListAnd l m).1 = listCells l ∩ listCells m := by
  obtain ⟨a, ha⟩ := hl.exists_from
  have hnil : UpTo δ (LawfulSubspan.Good δ) a ([] : List (Span σ)) := trivial
  obtain ⟨hgood, hcells⟩ := andLoop_spec hδ hδ1 hnil ha hm
  refine ⟨hgood, Set.ext fun x => (hcells x).trans ?_⟩
  rw [mem_listCells_nil, false_or]
  rfl

theorem spanListSubtract_spec {l m : List (Span σ)} (hδ : 0 ≤ δ) (hδ1 : δ ≤ 1)
    (hl : ListGood δ l) (hm : ListGood δ m) :
    ListGood δ (spanListSubtract l m).1 ∧
      listCells (spanListSubtract l m).1 = listCells l \ listCells m := by
  obtain ⟨a, ha⟩ := hl.exists_from
  have hnil : UpTo δ (LawfulSubspan.Good δ) a ([] : List (Span σ)) := trivial
  obtain ⟨hgood, hcells⟩ := subtractLoop_spec hδ hδ1 hnil ha hm
  refine ⟨hgood, Set.ext fun x => (hcells x).trans ?_⟩
  rw [mem_listCells_nil, false_or]
  rfl

omit [LawfulSubspan σ β] in
theorem eq_of_spanListEqual (hequal : ∀ x y : σ, Subspan.equal x y = true → x = y)
    {l m : List (Span σ)} (h : spanListEqual l m = true) : l = m := by
  induction l, m using spanListEqual.induct with
  | case1 => rfl
  | case2 => cases h
  | case3 => cases h
  | case4 s l t m hne =>
    rw [spanListEqual, if_pos hne] at h
    cases h
  | case5 s l t m hne ih =>
    rw [spanListEqual, if_neg hne] at h
    simp only [ne_eq, not_or, not_not, Bool.not_eq_false] at hne
    obtain ⟨hstart, hstop, hsub⟩ := hne
    have hst : s = t := by
      cases s
      cases t
      cases hstart
      cases hstop
      cases hequal _ _ hsub
      rfl
    rw [hst, ih h]

omit [LawfulSubspan σ β] in
/-- A union is empty only if both lists are. -/
theorem orLoop_ne_nil {prev dest src : List (Span σ)} (h : prev ≠ [] ∨ dest ≠ [] ∨ src ≠ []) :
    orLoop prev dest src ≠ [] := by
  induction prev, dest, src using orLoop.induct with
  | case1 prev dest =>
    rw [orLoop]
    simpa [imp_iff_not_or] using h
  | case2 prev s src ih =>
    rw [orLoop]
    exact ih (.inl (List.cons_ne_nil _ _))
  | case3 prev d dest s src hle c =>
    rename_i ih
    rw [orLoop, if_pos hle]
    exact ih (.inr (.inl (List.cons_ne_nil _ _)))
  | case4 prev d dest s src hle hover c hstop =>
    rename_i ih
    rw [orLoop, if_neg hle, if_pos hover, dif_pos hstop]
    exact ih (.inl (List.cons_ne_nil _ _))
  | case5 prev d dest s src hle hover c hstop =>
    rename_i ih
    rw [orLoop, if_neg hle, if_pos hover, dif_neg hstop]
    exact ih (.inr (.inl (List.cons_ne_nil _ _)))
  | case6 prev d dest s src hle hover ih =>
    rw [orLoop, if_neg hle, if_neg hover]
    exact ih (.inl (List.cons_ne_nil _ _))

omit [Subspan σ] [LawfulSubspan σ β] in
theorem not_isEmpty_iff {l : List (Span σ)} : (!l.isEmpty) = true ↔ l ≠ [] := by
  cases l <;> simp

/-- Lists keep the laws of what is on their spans. As a `subspan`, a list is not empty. -/
instance : LawfulSubspan (List (Span σ)) (ℤ × β) where
  cells := listCells
  Good δ l := ListGood δ l ∧ l ≠ []
  cells_nonempty l h := h.1.cells_nonempty LawfulSubspan.cells_nonempty h.2
  eq_of_equal _ _ := eq_of_spanListEqual LawfulSubspan.eq_of_equal
  or_spec δ l m hδ hδ1 hl hm :=
    have hor := spanListOr_spec hδ hδ1 hl.1 hm.1
    ⟨⟨hor.1, orLoop_ne_nil (.inr (.inl hl.2))⟩, hor.2⟩
  and_spec δ l m hδ hδ1 hl hm := by
    have hand := spanListAnd_spec hδ hδ1 hl.1 hm.1
    split_ifs with hkept
    · exact ⟨⟨hand.1, not_isEmpty_iff.mp hkept⟩, hand.2⟩
    · have hnil : (spanListAnd l m).1 = [] := not_not.mp (mt not_isEmpty_iff.mpr hkept)
      rw [← hand.2, hnil]
      rfl
  subtract_spec δ l m hδ hδ1 hl hm := by
    have hsub := spanListSubtract_spec hδ hδ1 hl.1 hm.1
    split_ifs with hkept
    · exact ⟨⟨hsub.1, not_isEmpty_iff.mp hkept⟩, hsub.2⟩
    · have hnil : (spanListSubtract l m).1 = [] := not_not.mp (mt not_isEmpty_iff.mpr hkept)
      rw [← hsub.2, hnil]
      rfl

end DroidVnc.Rfb
