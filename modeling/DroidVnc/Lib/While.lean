import Mathlib.Data.Stream.Init

/-! A `while` loop that takes an input in each turn. The inputs never run out, so the
loop either returns or turns for ever; `Returns` relates the state it is entered in to
the one it is left in. -/

namespace While

variable {σ α β : Type*}

/-- The state after `k` turns; a loop whose test has failed stands still. -/
def turns (test : σ → Bool) (body : σ → α → σ) : ℕ → Stream' α → σ → σ
  | 0, _, s => s
  | k + 1, xs, s => if test s then turns test body k xs.tail (body s xs.head) else s

def Returns (test : σ → Bool) (body : σ → α → σ) (xs : Stream' α) (s t : σ) : Prop :=
  test t = false ∧ ∃ k, turns test body k xs s = t

def Ends (test : σ → Bool) (body : σ → α → σ) (xs : Stream' α) (s : σ) : Prop :=
  ∃ t, Returns test body xs s t

/-- No turn makes `m` larger. -/
def NeverGrows [LE β] (m : σ → β) (test : σ → Bool) (body : σ → α → σ) (xs : Stream' α)
    (s : σ) : Prop :=
  ∀ k, m (turns test body (k + 1) xs s) ≤ m (turns test body k xs s)

variable {test : σ → Bool} {body : σ → α → σ} {xs : Stream' α} {s t : σ} {a : α}

theorem turns_of_stopped (h : test s = false) (k : ℕ) : turns test body k xs s = s := by
  cases k with
  | zero => rfl
  | succ k => rw [turns, h, if_neg Bool.false_ne_true]

theorem turns_succ_of_test (h : test s = true) (k : ℕ) :
    turns test body (k + 1) xs s = turns test body k xs.tail (body s xs.head) := by
  rw [turns, if_pos h]

/-- An input that changes nothing, over and over. -/
theorem turns_const (h : body s a = s) (k : ℕ) : turns test body k (Stream'.const a) s = s := by
  induction k with
  | zero => rfl
  | succ k ih =>
    rw [turns, Stream'.tail_const, show (Stream'.const a).head = a from rfl, h, ih, ite_self]

theorem returns_of_stopped (h : test s = false) : Returns test body xs s t ↔ t = s := by
  constructor
  · rintro ⟨-, k, rfl⟩
    exact turns_of_stopped h k
  · rintro rfl
    exact ⟨h, 0, rfl⟩

theorem returns_of_test (h : test s = true) :
    Returns test body xs s t ↔ Returns test body xs.tail (body s xs.head) t := by
  constructor
  · rintro ⟨ht, k, rfl⟩
    cases k with
    | zero =>
      rw [turns, h] at ht
      cases ht
    | succ k =>
      rw [turns_succ_of_test h] at ht ⊢
      exact ⟨ht, k, rfl⟩
  · rintro ⟨ht, k, rfl⟩
    exact ⟨ht, k + 1, turns_succ_of_test h k⟩

theorem Returns.unique {u : σ} (ht : Returns test body xs s t) (hu : Returns test body xs s u) :
    t = u := by
  obtain ⟨htest, k, rfl⟩ := ht
  induction k generalizing xs s with
  | zero => exact ((returns_of_stopped htest).mp hu).symm
  | succ k ih =>
    cases hs : test s with
    | false => rw [turns_of_stopped hs, (returns_of_stopped hs).mp hu]
    | true =>
      rw [turns_succ_of_test hs] at htest ⊢
      exact ih ((returns_of_test hs).mp hu) htest

/-- What holds where a loop is left, and before a turn if it holds after it, holds where
the loop is entered. -/
theorem Returns.induction {P : Stream' α → σ → Prop}
    (stopped : ∀ xs s, test s = false → P xs s)
    (turn : ∀ xs s, test s = true → P xs.tail (body s xs.head) → P xs s)
    (h : Returns test body xs s t) : P xs s := by
  obtain ⟨ht, k, rfl⟩ := h
  induction k generalizing xs s with
  | zero => exact stopped xs s ht
  | succ k ih =>
    cases hs : test s with
    | false => exact stopped xs s hs
    | true =>
      rw [turns_succ_of_test hs] at ht
      exact turn xs s hs (ih ht)

theorem ends_of_stopped (h : test s = false) : Ends test body xs s :=
  ⟨s, (returns_of_stopped h).mpr rfl⟩

theorem ends_of_test (h : test s = true) :
    Ends test body xs s ↔ Ends test body xs.tail (body s xs.head) :=
  exists_congr fun _ => returns_of_test h

section Grows

variable [Preorder β] {m : σ → β}

theorem neverGrows_of_stopped (h : test s = false) : NeverGrows m test body xs s := by
  intro k
  rw [turns_of_stopped h, turns_of_stopped h]

theorem neverGrows_of_test (h : test s = true) :
    NeverGrows m test body xs s ↔
      m (body s xs.head) ≤ m s ∧ NeverGrows m test body xs.tail (body s xs.head) := by
  constructor
  · intro hm
    refine ⟨?_, fun k => ?_⟩
    · have h0 := hm 0
      rwa [turns_succ_of_test h] at h0
    · have hk := hm (k + 1)
      rwa [turns_succ_of_test h, turns_succ_of_test h] at hk
  · rintro ⟨h0, hm⟩ k
    rw [turns_succ_of_test h]
    cases k with
    | zero => exact h0
    | succ k =>
      rw [turns_succ_of_test h]
      exact hm k

end Grows

end While
