import DroidVnc.Lib.Span

/-! The span lists of `rfbregion.c`. A list is worked on at a cursor, `d_curr`, with the
spans before it backwards; `subspan` is another list or, on the last level, `NULL`. What
a loop does with `subspan` is all it needs to know about it: the three loops are given
for any kind of `subspan`, and every level of a region is an instance of them. -/

namespace DroidVnc.Rfb

/-- What the routines do with `subspan`: the results are what becomes of the first
operand and, of the last two, whether it is kept. -/
class Subspan (σ : Type) where
  equal : σ → σ → Bool
  or : σ → σ → σ
  and : σ → σ → σ × Bool
  subtract : σ → σ → σ × Bool

/-- `NULL`. -/
instance : Subspan Unit where
  equal _ _ := true
  or _ _ := ()
  and _ _ := ((), true)
  subtract _ _ := ((), false)

/-- The place of `d_curr` in a list. -/
structure Cursor (σ : Type) where
  prev : List (Span σ)
  curr : Span σ
  next : List (Span σ)
  deriving DecidableEq, Repr

variable {σ : Type}

namespace Cursor

def insertBefore (c : Cursor σ) (span : Span σ) : Cursor σ := { c with prev := span :: c.prev }

/-- The span is cut at `stop`, the rest goes behind it. -/
def splitAfter (c : Cursor σ) (stop : ℤ) : Cursor σ :=
  if stop < c.curr.stop then
    { c with curr := { c.curr with stop }, next := { c.curr with start := stop } :: c.next }
  else c

/-- The span is cut at `start`, what is before that goes before it. -/
def splitBefore (c : Cursor σ) (start : ℤ) : Cursor σ :=
  if c.curr.start < start then
    { c with prev := { c.curr with stop := start } :: c.prev, curr := { c.curr with start } }
  else c

variable [Subspan σ]

def mergePreviousLoop : List (Span σ) → Span σ → List (Span σ) × Span σ
  | [], dest => ([], dest)
  | prev :: l, dest =>
    if prev.stop = dest.start ∧ Subspan.equal prev.subspan dest.subspan = true then
      mergePreviousLoop l { dest with start := prev.start }
    else (prev :: l, dest)

def mergePrevious (c : Cursor σ) : Cursor σ :=
  let r := mergePreviousLoop c.prev c.curr
  ⟨r.1, r.2, c.next⟩

def mergeNextLoop : List (Span σ) → Span σ → List (Span σ) × Span σ
  | [], dest => ([], dest)
  | next :: l, dest =>
    if next.start = dest.stop ∧ Subspan.equal next.subspan dest.subspan = true then
      mergeNextLoop l { dest with stop := next.stop }
    else (next :: l, dest)

def mergeNext (c : Cursor σ) : Cursor σ :=
  let r := mergeNextLoop c.next c.curr
  ⟨c.prev, r.2, r.1⟩

/-- `d_curr->subspan` is replaced by what has become of it. -/
def setSubspan (c : Cursor σ) (subspan : σ) : Cursor σ :=
  { c with curr := { c.curr with subspan } }

omit [Subspan σ] in
@[simp] theorem splitAfter_prev (c : Cursor σ) (a : ℤ) : (c.splitAfter a).prev = c.prev := by
  unfold splitAfter; split_ifs <;> rfl

omit [Subspan σ] in
@[simp] theorem splitBefore_next (c : Cursor σ) (a : ℤ) : (c.splitBefore a).next = c.next := by
  unfold splitBefore; split_ifs <;> rfl

omit [Subspan σ] in
@[simp] theorem splitBefore_stop (c : Cursor σ) (a : ℤ) :
    (c.splitBefore a).curr.stop = c.curr.stop := by
  unfold splitBefore; split_ifs <;> rfl

omit [Subspan σ] in
/-- The span ends at `a` at the latest, and what was cut off it begins there. -/
theorem splitAfter_cases (c : Cursor σ) (a : ℤ) :
    (c.splitAfter a).curr.stop ≤ a ∧ ((c.splitAfter a).next = c.next ∨
      (c.splitAfter a).curr.stop = a ∧ ∃ rest, (c.splitAfter a).next = rest :: c.next ∧
        rest.start = a) := by
  unfold splitAfter
  split_ifs with h
  · exact ⟨le_rfl, .inr ⟨rfl, _, rfl, rfl⟩⟩
  · exact ⟨Int.not_lt.mp h, .inl rfl⟩

theorem mergePreviousLoop_stop (l : List (Span σ)) (dest : Span σ) :
    (mergePreviousLoop l dest).2.stop = dest.stop := by
  induction l generalizing dest with
  | nil => rfl
  | cons p l ih =>
    unfold mergePreviousLoop
    split_ifs
    · exact ih _
    · rfl

@[simp] theorem mergePrevious_stop (c : Cursor σ) : c.mergePrevious.curr.stop = c.curr.stop :=
  mergePreviousLoop_stop _ _

@[simp] theorem mergePrevious_next (c : Cursor σ) : c.mergePrevious.next = c.next := rfl

theorem length_mergeNextLoop_le (l : List (Span σ)) (dest : Span σ) :
    (mergeNextLoop l dest).1.length ≤ l.length := by
  induction l generalizing dest with
  | nil => exact le_rfl
  | cons n l ih =>
    unfold mergeNextLoop
    split_ifs
    · exact (ih _).trans (Nat.le_succ _)
    · exact le_rfl

/-- What is merged from behind makes the span longer, or leaves what is behind it. -/
theorem mergeNextLoop_cases (l : List (Span σ)) (dest : Span σ) :
    mergeNextLoop l dest = (l, dest) ∨ (mergeNextLoop l dest).1.length < l.length := by
  cases l with
  | nil => exact .inl rfl
  | cons n l =>
    unfold mergeNextLoop
    split_ifs
    · exact .inr (Nat.lt_succ_of_le (length_mergeNextLoop_le _ _))
    · exact .inl rfl

/-- Where the span ends short of `a` in the end, nothing was cut off it at `a`, or it was
merged again. -/
theorem mergeNext_next_le {b c : Cursor σ} {a : ℤ} (hnext : c.next = (b.splitAfter a).next)
    (hstop : c.curr.stop = (b.splitAfter a).curr.stop) (h : c.mergeNext.curr.stop < a) :
    c.mergeNext.next.length ≤ b.next.length := by
  unfold mergeNext splitAfter at *
  dsimp only at h ⊢
  split_ifs at hnext hstop with hcut
  · rcases mergeNextLoop_cases c.next c.curr with hm | hm
    · rw [hm, hstop] at h
      exact absurd h (lt_irrefl a)
    · rw [hnext, List.length_cons] at hm
      rw [hnext]
      exact Nat.le_of_lt_succ hm
  · rw [← hnext]
    exact length_mergeNextLoop_le _ _

end Cursor

variable [Subspan σ]

/-- What a span of the source has before `d_curr` is put there. -/
def orBefore (c : Cursor σ) (s : Span σ) : Cursor σ :=
  if s.start < c.curr.start then
    (c.insertBefore { s with stop := c.curr.start }).mergePrevious
  else c

/-- `d_curr` and a span of the source that overlap: what only one of them has is cut off,
what both have is joined. -/
def orOverlap (c : Cursor σ) (s : Span σ) : Cursor σ :=
  let c := orBefore c s
  let c := (c.splitAfter s.stop).splitBefore s.start
  let c := c.setSubspan (Subspan.or c.curr.subspan s.subspan)
  c.mergePrevious.mergeNext

theorem orOverlap_next {c : Cursor σ} {s : Span σ} (h : (orOverlap c s).curr.stop < s.stop) :
    (orOverlap c s).next.length ≤ c.next.length := by
  have hnext : (orBefore c s).next = c.next := by
    unfold orBefore
    split_ifs <;> rfl
  rw [← hnext]
  apply Cursor.mergeNext_next_le (b := orBefore c s) _ _ h
  · rw [Cursor.mergePrevious_next]
    exact Cursor.splitBefore_next _ _
  · rw [Cursor.mergePrevious_stop]
    exact Cursor.splitBefore_stop _ _

/-- The loop of `sraSpanListOr`. `s_start` is the start of the first span of the source. -/
def orLoop (prev : List (Span σ)) : List (Span σ) → List (Span σ) → List (Span σ)
  | dest, [] => prev.reverse ++ dest
  | [], s :: src => orLoop (s :: prev) [] src
  | d :: dest, s :: src =>
    if s.stop ≤ d.start then
      let c := (Cursor.mk (s :: prev) d dest).mergePrevious
      orLoop c.prev (c.curr :: dest) src
    else if s.start < d.stop ∧ d.start < s.stop then
      let c := orOverlap ⟨prev, d, dest⟩ s
      if _h : c.curr.stop < s.stop then
        orLoop (c.curr :: c.prev) c.next ({ s with start := c.curr.stop } :: src)
      else orLoop c.prev (c.curr :: c.next) src
    else orLoop (d :: prev) dest (s :: src)
termination_by dest src => (src.length, dest.length)
decreasing_by
  · exact Prod.Lex.left _ _ (Nat.lt_succ_self _)
  · exact Prod.Lex.left _ _ (Nat.lt_succ_self _)
  · exact Prod.Lex.right _ (Nat.lt_succ_of_le (orOverlap_next _h))
  · exact Prod.Lex.left _ _ (Nat.lt_succ_self _)
  · exact Prod.Lex.right _ (Nat.lt_succ_self _)

/-- `d_curr` is cut down to what overlaps a span of the source; `false` if nothing of that
is left. -/
def andOverlap (c : Cursor σ) (s : Span σ) : Cursor σ × Bool :=
  let c := if c.curr.start < s.start then { c with curr := { c.curr with start := s.start } } else c
  let c := c.splitAfter s.stop
  let r := Subspan.and c.curr.subspan s.subspan
  (c.setSubspan r.1, r.2)

theorem andOverlap_cases (c : Cursor σ) (s : Span σ) :
    (andOverlap c s).1.curr.stop ≤ s.stop ∧ ((andOverlap c s).1.next = c.next ∨
      (andOverlap c s).1.curr.stop = s.stop ∧ ∃ rest, (andOverlap c s).1.next = rest :: c.next ∧
        rest.start = s.stop) := by
  unfold andOverlap
  dsimp only
  split_ifs <;> exact Cursor.splitAfter_cases _ _

/-- Whether the first spans of two lists may still overlap. -/
def ahead : List (Span σ) → List (Span σ) → ℕ
  | d :: _, s :: _ => if s.stop ≤ d.start then 0 else 1
  | _, _ => 0

omit [Subspan σ] in
theorem ahead_cons (d s : Span σ) (dest src : List (Span σ)) :
    ahead (d :: dest) (s :: src) = if s.stop ≤ d.start then 0 else 1 := rfl

/-- The loop of `sraSpanListAnd`. -/
def andLoop (prev : List (Span σ)) : List (Span σ) → List (Span σ) → List (Span σ)
  | [], _ => prev.reverse
  | _ :: _, [] => prev.reverse
  | d :: dest, s :: src =>
    if s.stop ≤ d.start then andLoop prev (d :: dest) src
    else if d.stop ≤ s.start then andLoop prev dest (s :: src)
    else
      let r := andOverlap ⟨prev, d, dest⟩ s
      if r.2 then
        let c := r.1.mergePrevious
        if _h : c.curr.stop ≤ s.stop then
          andLoop (c.curr :: c.prev) c.next (if s.stop ≤ c.curr.stop then src else s :: src)
        else
          andLoop c.prev (c.curr :: c.next) (if s.stop ≤ c.curr.stop then src else s :: src)
      else andLoop prev r.1.next (s :: src)
termination_by dest src => (src.length, dest.length, ahead dest src)
decreasing_by
  · exact Prod.Lex.left _ _ (Nat.lt_succ_self _)
  · exact Prod.Lex.right _ (Prod.Lex.left _ _ (Nat.lt_succ_self _))
  · split_ifs with hs
    · exact Prod.Lex.left _ _ (Nat.lt_succ_self _)
    · -- the span ends short of that of the source, so nothing was cut off it
      obtain hnext | ⟨hstop, -⟩ := (andOverlap_cases ⟨prev, d, dest⟩ s).2
      · refine Prod.Lex.right _ (Prod.Lex.left _ _ ?_)
        show (andOverlap ⟨prev, d, dest⟩ s).1.next.length < _
        rw [hnext]
        exact Nat.lt_succ_self _
      · exact absurd ((Cursor.mergePrevious_stop _).trans hstop).ge hs
  · rw [dif_pos (not_le.mp _h).le]
    exact Prod.Lex.left _ _ (Nat.lt_succ_self _)
  · refine Prod.Lex.right _ ?_
    obtain hnext | ⟨-, rest, hnext, hstart⟩ := (andOverlap_cases ⟨prev, d, dest⟩ s).2
    · rw [hnext]
      exact Prod.Lex.left _ _ (Nat.lt_succ_self _)
    · -- what was cut off comes behind the span of the source
      rw [hnext]
      refine Prod.Lex.right _ ?_
      rw [ahead_cons, ahead_cons, if_pos hstart.ge, if_neg (by assumption)]
      exact Nat.one_pos

/-- The parts of `d_curr` outside a span of the source are cut off, and that span is taken
from the rest; `false` if nothing of it is left. -/
def subtractOverlap (c : Cursor σ) (s : Span σ) : Cursor σ × Bool :=
  let c := (c.splitBefore s.start).splitAfter s.stop
  let r := Subspan.subtract c.curr.subspan s.subspan
  (c.setSubspan r.1, r.2)

theorem subtractOverlap_cases (c : Cursor σ) (s : Span σ) :
    (subtractOverlap c s).1.next = c.next ∨
      ∃ rest, (subtractOverlap c s).1.next = rest :: c.next ∧ rest.start = s.stop := by
  rw [← Cursor.splitBefore_next c s.start]
  obtain h | ⟨-, h⟩ := (Cursor.splitAfter_cases (c.splitBefore s.start) s.stop).2
  · exact .inl h
  · exact .inr h

theorem subtractOverlap_next {c : Cursor σ} {s : Span σ}
    (h : (subtractOverlap c s).1.mergePrevious.mergeNext.curr.stop < s.stop) :
    (subtractOverlap c s).1.mergePrevious.mergeNext.next.length ≤ c.next.length := by
  rw [← Cursor.splitBefore_next c s.start]
  apply Cursor.mergeNext_next_le (b := c.splitBefore s.start) _ _ h
  · rw [Cursor.mergePrevious_next]
    rfl
  · rw [Cursor.mergePrevious_stop]
    rfl

/-- The loop of `sraSpanListSubtract`. -/
def subtractLoop (prev : List (Span σ)) : List (Span σ) → List (Span σ) → List (Span σ)
  | dest, [] => prev.reverse ++ dest
  | [], _ :: _ => prev.reverse
  | d :: dest, s :: src =>
    if s.stop ≤ d.start then subtractLoop prev (d :: dest) src
    else if d.stop ≤ s.start then subtractLoop (d :: prev) dest (s :: src)
    else
      let r := subtractOverlap ⟨prev, d, dest⟩ s
      if r.2 then
        let c := r.1.mergePrevious.mergeNext
        if _h : c.curr.stop < s.stop then subtractLoop (c.curr :: c.prev) c.next (s :: src)
        else subtractLoop c.prev (c.curr :: c.next) src
      else subtractLoop r.1.prev r.1.next (s :: src)
termination_by dest src => (src.length, dest.length, ahead dest src)
decreasing_by
  · exact Prod.Lex.left _ _ (Nat.lt_succ_self _)
  · exact Prod.Lex.right _ (Prod.Lex.left _ _ (Nat.lt_succ_self _))
  · exact Prod.Lex.right _
      (Prod.Lex.left _ _ (Nat.lt_succ_of_le (subtractOverlap_next _h)))
  · exact Prod.Lex.left _ _ (Nat.lt_succ_self _)
  · refine Prod.Lex.right _ ?_
    obtain hnext | ⟨rest, hnext, hstart⟩ := subtractOverlap_cases ⟨prev, d, dest⟩ s
    · rw [hnext]
      exact Prod.Lex.left _ _ (Nat.lt_succ_self _)
    · rw [hnext]
      refine Prod.Lex.right _ ?_
      rw [ahead_cons, ahead_cons, if_pos hstart.ge, if_neg (by assumption)]
      exact Nat.one_pos

/-! ### The routines on lists -/

def spanListEqual : List (Span σ) → List (Span σ) → Bool
  | [], [] => true
  | [], _ :: _ => false
  | _ :: _, [] => false
  | s :: l, t :: m =>
    if s.start ≠ t.start ∨ s.stop ≠ t.stop ∨ Subspan.equal s.subspan t.subspan = false then false
    else spanListEqual l m

def spanListOr (dest src : List (Span σ)) : List (Span σ) := orLoop [] dest src

/-- The Boolean of this one and of the next: whether the list is not empty. -/
def spanListAnd (dest src : List (Span σ)) : List (Span σ) × Bool :=
  let dest := andLoop [] dest src
  (dest, !dest.isEmpty)

def spanListSubtract (dest src : List (Span σ)) : List (Span σ) × Bool :=
  let dest := subtractLoop [] dest src
  (dest, !dest.isEmpty)

/-- A list of spans is a `subspan` of the level above. -/
instance : Subspan (List (Span σ)) where
  equal := spanListEqual
  or := spanListOr
  and := spanListAnd
  subtract := spanListSubtract

/-! ### Short lists -/

theorem orLoop_nil (prev src : List (Span σ)) : orLoop prev [] src = prev.reverse ++ src := by
  induction src generalizing prev with
  | nil => rw [orLoop]
  | cons s src ih =>
    rw [orLoop, ih, List.reverse_cons, List.append_assoc]
    rfl

theorem spanListOr_nil_left (src : List (Span σ)) : spanListOr [] src = src := orLoop_nil [] src

theorem spanListOr_nil_right (dest : List (Span σ)) : spanListOr dest [] = dest := by
  rw [spanListOr, orLoop]
  rfl

theorem spanListSubtract_nil_right (dest : List (Span σ)) :
    (spanListSubtract dest []).1 = dest := by
  rw [spanListSubtract, subtractLoop]
  rfl

theorem spanListSubtract_nil_left (src : List (Span σ)) : (spanListSubtract [] src).1 = [] := by
  cases src <;>
  · rw [spanListSubtract, subtractLoop]
    rfl

theorem spanListAnd_nil_left (src : List (Span σ)) : (spanListAnd [] src).1 = [] := by
  rw [spanListAnd, andLoop]
  rfl

theorem spanListOr_singleton {d s : Span σ} (hstart : d.start ≤ s.start) (hstop : s.stop ≤ d.stop)
    (hds : d.start < s.stop) (hsd : s.start < d.stop)
    (hor : Subspan.or d.subspan s.subspan = d.subspan)
    (hequal : Subspan.equal d.subspan d.subspan = true) : spanListOr [d] [s] = [d] := by
  have hoverlap : orOverlap ⟨[], d, []⟩ s = ⟨[], d, []⟩ := by
    unfold orOverlap orBefore
    rw [if_neg (not_lt.mpr hstart)]
    -- what is cut off at either end is merged again
    unfold Cursor.splitAfter Cursor.splitBefore Cursor.setSubspan Cursor.mergePrevious
      Cursor.mergeNext
    dsimp only
    rcases hstop.lt_or_eq with hafter | hafter <;> rcases hstart.lt_or_eq' with hbefore | hbefore
    · simp [hafter, hbefore, hor, hequal, Cursor.mergePreviousLoop, Cursor.mergeNextLoop]
    · simp [hafter, hbefore, hor, hequal, Cursor.mergePreviousLoop, Cursor.mergeNextLoop]
    · simp [hafter, hbefore, hor, hequal, Cursor.mergePreviousLoop, Cursor.mergeNextLoop]
    · simp [hafter, hbefore, hor, Cursor.mergePreviousLoop, Cursor.mergeNextLoop]
  have hloop : orLoop [] [d] [s] = [d] := by
    rw [orLoop, if_neg (by omega), if_pos ⟨hsd, hds⟩, hoverlap]
    dsimp only
    rw [dif_neg (not_lt.mpr hstop), orLoop]
    rfl
  exact hloop

theorem spanListAnd_singleton {d s : Span σ} (hds : d.start < s.stop) (hsd : s.start < d.stop)
    (hand : (Subspan.and d.subspan s.subspan).2 = true) :
    spanListAnd [d] [s] = ([⟨max d.start s.start, min d.stop s.stop,
      (Subspan.and d.subspan s.subspan).1⟩], true) := by
  have hloop : andLoop [] [d] [s] = [⟨max d.start s.start, min d.stop s.stop,
      (Subspan.and d.subspan s.subspan).1⟩] := by
    rw [andLoop, if_neg (by omega), if_neg (by omega)]
    have hr : andOverlap ⟨[], d, []⟩ s =
        (⟨[], ⟨max d.start s.start, min d.stop s.stop, (Subspan.and d.subspan s.subspan).1⟩,
          if s.stop < d.stop then [⟨s.stop, d.stop, d.subspan⟩] else []⟩,
          (Subspan.and d.subspan s.subspan).2) := by
      unfold andOverlap Cursor.splitAfter Cursor.setSubspan
      dsimp only
      split_ifs <;> grind
    rw [hr]
    dsimp only
    rw [if_pos hand]
    unfold Cursor.mergePrevious Cursor.mergePreviousLoop
    dsimp only
    rw [dif_pos (min_le_right _ _)]
    split_ifs <;> first | omega | (rw [andLoop]; rfl)
  unfold spanListAnd
  rw [hloop]
  rfl

end DroidVnc.Rfb
