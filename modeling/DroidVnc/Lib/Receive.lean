import Mathlib.Algebra.Order.Ring.Int
import Mathlib.Data.List.Basic

/-! Receiving bytes in pieces. A reader takes what a connection delivers and logs
where it directs each read; it has no result while bytes are awaited, and none after
a read that is directed outside its object. -/

namespace Receive

/-- A read of `count` bytes to an `offset` of an object of `size` bytes. -/
structure Read where
  size : ℕ
  offset : ℤ
  count : ℕ
  deriving DecidableEq, Repr

def Read.Inside (r : Read) : Prop := 0 ≤ r.offset ∧ r.offset + r.count ≤ r.size

instance (r : Read) : Decidable r.Inside := inferInstanceAs (Decidable (_ ∧ _))

/-- What the reads of a connection find, in order: bytes that have arrived, of which a
read takes as many as it wants, or a failure. -/
abbrev Arrivals (β : Type) := List (Option (List β))

/-- The reads directed, and the result with what is left. -/
abbrev Outcome (β α : Type) := List Read × Option (α × Arrivals β)

def Reader (β α : Type) := Arrivals β → Outcome β α

variable {β α γ : Type} {r : Read} {s s' : Arrivals β}

/-- A read comes first; outside its object it is the last. -/
def after (r : Read) (o : Outcome β α) : Outcome β α :=
  if r.Inside then (r :: o.1, o.2) else ([r], none)

theorem after_eq {o : Outcome β α} (h : r.Inside) : after r o = (r :: o.1, o.2) := if_pos h

theorem inside_zero {n k : ℕ} (h : n ≤ k) : (Read.mk k 0 n).Inside := by
  refine ⟨le_rfl, ?_⟩
  dsimp only
  omega

namespace Reader

instance : Monad (Reader β) where
  pure a := fun s => ([], some (a, s))
  bind p f := fun s =>
    match p s with
    | (reads, none) => (reads, none)
    | (reads, some (a, s')) => (reads ++ (f a s').1, (f a s').2)

def waiting : Reader β α := fun _ => ([], none)

variable {p : Reader β α} {f : α → Reader β γ} {a : α}

/-- The reader ends with `a` and leaves `s'`. -/
def Yields (p : Reader β α) (s : Arrivals β) (a : α) (s' : Arrivals β) : Prop :=
  (p s).2 = some (a, s')

/-- Every read is directed inside its object. -/
def Safe (p : Reader β α) (s : Arrivals β) : Prop := ∀ r ∈ (p s).1, r.Inside

instance (p : Reader β α) (s : Arrivals β) : Decidable (p.Safe s) :=
  inferInstanceAs (Decidable (∀ r ∈ (p s).1, r.Inside))

@[simp] theorem yields_pure {b : α} : (pure a : Reader β α).Yields s b s' ↔ a = b ∧ s = s' := by
  show some (a, s) = some (b, s') ↔ _
  rw [Option.some.injEq, Prod.mk.injEq]

@[simp] theorem safe_pure : (pure a : Reader β α).Safe s := by
  intro r hr
  exact absurd hr List.not_mem_nil

@[simp] theorem safe_waiting : (waiting : Reader β α).Safe s := by
  intro r hr
  exact absurd hr List.not_mem_nil

@[simp] theorem not_yields_waiting : ¬(waiting : Reader β α).Yields s a s' := by
  intro h
  cases show none = some (a, s') from h

theorem bind_eq (p : Reader β α) (f : α → Reader β γ) (s : Arrivals β) :
    (p >>= f) s = match p s with
      | (reads, none) => (reads, none)
      | (reads, some (a, s')) => (reads ++ (f a s').1, (f a s').2) := rfl

theorem bind_eq_of_none (h : (p s).2 = none) : (p >>= f) s = ((p s).1, none) := by
  rw [bind_eq, show p s = ((p s).1, none) from Prod.ext rfl h]

theorem bind_eq_of_yields (h : p.Yields s a s') :
    (p >>= f) s = ((p s).1 ++ (f a s').1, (f a s').2) := by
  rw [bind_eq, show p s = ((p s).1, some (a, s')) from Prod.ext rfl h]

theorem yields_bind {c : γ} {s'' : Arrivals β} :
    (p >>= f).Yields s c s'' ↔ ∃ a s', p.Yields s a s' ∧ (f a).Yields s' c s'' := by
  constructor
  · intro h
    cases hp : (p s).2 with
    | none =>
      rw [Yields, bind_eq_of_none hp] at h
      cases h
    | some x =>
      have hy : p.Yields s x.1 x.2 := hp
      rw [Yields, bind_eq_of_yields hy] at h
      exact ⟨x.1, x.2, hy, h⟩
  · rintro ⟨a, s', hy, hc⟩
    rw [Yields, bind_eq_of_yields hy]
    exact hc

theorem Yields.unique {b : α} {t : Arrivals β} (h : p.Yields s a s') (ht : p.Yields s b t) :
    a = b ∧ s' = t := by
  have heq : some (a, s') = some (b, t) := h.symm.trans ht
  simpa only [Option.some.injEq, Prod.mk.injEq] using heq

theorem Yields.yields_bind {c : γ} {s'' : Arrivals β} (h : p.Yields s a s') :
    (p >>= f).Yields s c s'' ↔ (f a).Yields s' c s'' := by
  rw [Yields, bind_eq_of_yields h]
  rfl

theorem Yields.safe_bind (h : p.Yields s a s') :
    (p >>= f).Safe s ↔ p.Safe s ∧ (f a).Safe s' := by
  rw [Safe, bind_eq_of_yields h, List.forall_mem_append]
  rfl

/-- A sequence is safe when its first part is and, with whatever that leaves, the rest. -/
theorem safe_bind :
    (p >>= f).Safe s ↔ p.Safe s ∧ ∀ a s', p.Yields s a s' → (f a).Safe s' := by
  cases hp : (p s).2 with
  | none =>
    rw [Safe, bind_eq_of_none hp]
    refine ⟨fun h => ⟨h, fun a s' hy => ?_⟩, And.left⟩
    cases hp.symm.trans hy
  | some x =>
    have hy : p.Yields s x.1 x.2 := hp
    rw [hy.safe_bind]
    refine and_congr_right fun _ => ⟨fun h a s' ha => ?_, fun h => h _ _ hy⟩
    obtain ⟨rfl, rfl⟩ := hy.unique ha
    exact h

/-- A result is reached by safe reads only. -/
def Guarded (p : Reader β α) : Prop := ∀ s a s', p.Yields s a s' → p.Safe s

theorem guarded_pure : (pure a : Reader β α).Guarded := fun _ _ _ _ => safe_pure

theorem guarded_waiting : (waiting : Reader β α).Guarded := fun _ _ _ _ => safe_waiting

theorem Guarded.bind (hp : p.Guarded) (hf : ∀ a, (f a).Guarded) : (p >>= f).Guarded := by
  intro s c s'' h
  obtain ⟨a, s', hy, hc⟩ := yields_bind.mp h
  refine safe_bind.mpr ⟨hp s a s' hy, fun b t hb => ?_⟩
  obtain ⟨rfl, rfl⟩ := hy.unique hb
  exact hf a s' c s'' hc

end Reader

/-! ### Arrivals without a failure -/

/-- The pieces in which `count` bytes arrive, and what is left. -/
def pieces : List (List β) → ℕ → Option (List (List β) × List (List β))
  | segs, 0 => some ([], segs)
  | [], _ + 1 => none
  | seg :: segs, n + 1 =>
    if seg.length < n + 1 then
      (pieces segs (n + 1 - seg.length)).map fun x => (seg :: x.1, x.2)
    else some ([seg.take (n + 1)], seg.drop (n + 1) :: segs)

@[simp] theorem pieces_zero (segs : List (List β)) : pieces segs 0 = some ([], segs) := by
  cases segs <;> rfl

/-- The bytes of a piece replace those of the object from `i` on. -/
def overlay (obj : List β) (i : ℕ) (piece : List β) : List β :=
  obj.take i ++ piece ++ obj.drop (i + piece.length)

variable {obj l m : List β} {i : ℕ}

@[simp] theorem overlay_nil : overlay obj i [] = obj := by
  rw [overlay, List.append_nil, List.length_nil, Nat.add_zero, List.take_append_drop]

theorem overlay_zero : overlay obj 0 l = l ++ obj.drop l.length := by
  rw [overlay, List.take_zero, List.nil_append, Nat.zero_add]

theorem length_overlay (h : i + l.length ≤ obj.length) : (overlay obj i l).length = obj.length := by
  simp only [overlay, List.length_append, List.length_take, List.length_drop]
  omega

theorem getElem?_overlay {j : ℕ} (hj : l.length ≤ j) : (overlay obj 0 l)[j]? = obj[j]? := by
  rw [overlay_zero, List.getElem?_append_right hj, List.getElem?_drop, Nat.add_sub_of_le hj]

/-- Two pieces side by side are one. -/
theorem overlay_overlay (h : i ≤ obj.length) :
    overlay (overlay obj i l) (i + l.length) m = overlay obj i (l ++ m) := by
  have hlen : (obj.take i ++ l).length = i + l.length := by
    rw [List.length_append, List.length_take, min_eq_left h]
  have hdrop : (overlay obj i l).drop (i + l.length + m.length) =
      obj.drop (i + (l ++ m).length) := by
    rw [overlay, ← hlen, List.drop_append, hlen, List.drop_eq_nil_of_le (by omega),
      List.nil_append, List.drop_drop, List.length_append]
    congr 1
    omega
  have htake : (overlay obj i l).take (i + l.length) = obj.take i ++ l := by
    rw [overlay, ← hlen, List.take_left]
  rw [overlay, hdrop, htake, overlay, List.append_assoc (obj.take i)]

/-- A piece that does not begin the object leaves its first byte. -/
theorem head?_overlay (hi : 0 < i) (h : i ≤ obj.length) :
    (overlay obj i l).head? = obj.head? := by
  obtain ⟨b, obj, rfl⟩ := List.exists_cons_of_length_pos (l := obj) (by omega)
  obtain ⟨i, rfl⟩ := Nat.exists_eq_succ_of_ne_zero hi.ne'
  rfl

/-- Bytes that have all arrived come in one piece, or in none. -/
theorem pieces_append {n : ℕ} (m : List β) (h : l.length = n) :
    ∃ ps, pieces [l ++ m] n = some (ps, [m]) ∧
      ∀ obj i, ps.foldl (fun b piece => overlay b i piece) obj = overlay obj i l := by
  cases n with
  | zero =>
    rw [List.length_eq_zero_iff.mp h, pieces_zero]
    exact ⟨_, rfl, fun _ _ => overlay_nil.symm⟩
  | succ n =>
    have hlt : ¬(l ++ m).length < n + 1 := by
      rw [List.length_append]
      omega
    rw [pieces, if_neg hlt, ← h, List.take_left, List.drop_left]
    exact ⟨_, rfl, fun _ _ => rfl⟩

end Receive
