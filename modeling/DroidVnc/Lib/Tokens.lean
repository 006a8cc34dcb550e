import Mathlib.Data.List.Basic

/-! The words of a text between separators. Separators at either end and several in a
row make no empty words. -/

namespace Tokens

variable {α : Type*} {p : α → Bool}

/-- The words of a text, in order. -/
def tokens (p : α → Bool) (l : List α) : List (List α) := (l.splitOnP p).filter fun t => !t.isEmpty

def Word (p : α → Bool) (l : List α) : Prop := l ≠ [] ∧ ∀ a ∈ l, p a = false

instance [DecidableEq α] (l : List α) : Decidable (Word p l) := by
  unfold Word
  infer_instance

theorem tokens_nil : tokens p [] = [] := by simp [tokens]

theorem tokens_word {l : List α} (h : Word p l) : tokens p l = [l] := by
  simp [tokens, List.splitOnP_eq_singleton h.2, h.1]

theorem tokens_append_cons (l m : List α) {sep : α} (hsep : p sep) :
    tokens p (l ++ sep :: m) = tokens p l ++ tokens p m := by
  rw [tokens, List.splitOnP_append_cons l m hsep, List.filter_append, tokens, tokens]

theorem forall_mem_tokens (l : List α) : ∀ t ∈ tokens p l, ∀ a ∈ t, p a = false := by
  suffices hsplit : ∀ t ∈ l.splitOnP p, ∀ a ∈ t, p a = false from
    fun t ht => hsplit t (List.mem_of_mem_filter ht)
  induction l with
  | nil => simp
  | cons b l ih =>
    rw [List.splitOnP_cons_eq_if_modifyHead]
    split_ifs with hb
    · simpa using ih
    · cases hs : l.splitOnP p with
      | nil => exact absurd hs (List.splitOnP_ne_nil p l)
      | cons t ts =>
        rw [hs] at ih
        simp only [List.modifyHead_cons, List.forall_mem_cons] at ih ⊢
        exact ⟨⟨by simpa using hb, ih.1⟩, ih.2⟩

end Tokens
