import Mathlib.Data.List.Range

/-! Writing strings to a buffer of fixed size. A buffer keeps the text that has been
put together and every index that was written on the way; nothing stops a write
beyond its end. -/

/-- A buffer of `size` elements. -/
structure TextBuffer (α : Type*) where
  size : ℕ
  text : List α
  written : List ℕ
  deriving Repr

namespace TextBuffer

variable {α : Type*} {i : ℕ} {s : List α} {b : TextBuffer α}

/-- A new buffer; what it holds is not a text yet. -/
def malloc (size : ℕ) : TextBuffer α := ⟨size, [], []⟩

def put (i : ℕ) (b : TextBuffer α) : TextBuffer α := { b with written := b.written ++ [i] }

/-- `b[0] = '\0'`. -/
def clear (b : TextBuffer α) : TextBuffer α := { b with text := [], written := b.written ++ [0] }

/-- `strcat(b, s)`, terminator included. -/
def strcat (s : List α) (b : TextBuffer α) : TextBuffer α :=
  { b with
    text := b.text ++ s
    written := b.written ++ List.range' b.text.length (s.length + 1) }

/-- `strcpy(b, s)`, or a `sprintf` of the text `s`. -/
def strcpy (s : List α) (b : TextBuffer α) : TextBuffer α :=
  { b with text := s, written := b.written ++ List.range' 0 (s.length + 1) }

def InBounds (b : TextBuffer α) : Prop := ∀ i ∈ b.written, i < b.size

theorem inBounds_malloc (size : ℕ) : (malloc size : TextBuffer α).InBounds := by
  simp [malloc, InBounds]

theorem forall_mem_append_range' {l : List ℕ} {k n m : ℕ} :
    (∀ i ∈ l ++ List.range' k (n + 1), i < m) ↔ (∀ i ∈ l, i < m) ∧ k + n < m := by
  rw [List.forall_mem_append]
  refine and_congr_right fun _ => ?_
  simp only [List.mem_range'_1]
  constructor
  · intro h
    exact h _ (by omega)
  · intro h i hi
    omega

theorem inBounds_put : (b.put i).InBounds ↔ b.InBounds ∧ i < b.size :=
  forall_mem_append_range' (n := 0)

theorem inBounds_clear : b.clear.InBounds ↔ b.InBounds ∧ 0 < b.size :=
  forall_mem_append_range' (k := 0) (n := 0)

/-- What is appended fits when its terminator does. -/
theorem inBounds_strcat :
    (b.strcat s).InBounds ↔ b.InBounds ∧ b.text.length + s.length < b.size :=
  forall_mem_append_range'

theorem inBounds_strcpy : (b.strcpy s).InBounds ↔ b.InBounds ∧ s.length < b.size := by
  have h := forall_mem_append_range' (l := b.written) (k := 0) (n := s.length) (m := b.size)
  rwa [Nat.zero_add] at h

end TextBuffer
