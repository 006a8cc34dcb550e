import Mathlib.Data.List.Infix
import Mathlib.InformationTheory.Coding.UniquelyDecodable

/-! Prefix-free codes. Where no code word begins another one, and none is empty, a
message can be read back from its encoding, word for word. Several symbols may
share a word: the words are what is read back. -/

namespace PrefixCode

open InformationTheory

variable {α β : Type*}

/-- No word of the set begins another word of it. -/
def PrefixFree (S : Set (List β)) : Prop := ∀ u ∈ S, ∀ v ∈ S, u <+: v → u = v

theorem PrefixFree.eq_of_append {S : Set (List β)} (h : PrefixFree S) {u v l m : List β}
    (hu : u ∈ S) (hv : v ∈ S) (heq : u ++ l = v ++ m) : u = v := by
  have hul : u <+: u ++ l := List.prefix_append u l
  have hvl : v <+: u ++ l := heq ▸ List.prefix_append v m
  rcases le_total u.length v.length with hle | hle
  · exact h u hu v hv (List.prefix_of_prefix_length_le hul hvl hle)
  · exact (h v hv u hu (List.prefix_of_prefix_length_le hvl hul hle)).symm

theorem PrefixFree.uniquelyDecodable {S : Set (List β)} (h : PrefixFree S) (hnil : [] ∉ S) :
    UniquelyDecodable S := by
  intro L M hL hM heq
  induction L generalizing M with
  | nil =>
    cases M with
    | nil => rfl
    | cons v M =>
      rw [List.flatten_nil, List.flatten_cons] at heq
      obtain rfl := (List.append_eq_nil_iff.mp heq.symm).1
      exact absurd (hM [] (by simp)) hnil
  | cons u L ih =>
    cases M with
    | nil =>
      rw [List.flatten_nil, List.flatten_cons] at heq
      obtain rfl := (List.append_eq_nil_iff.mp heq).1
      exact absurd (hL [] (by simp)) hnil
    | cons v M =>
      rw [List.flatten_cons, List.flatten_cons] at heq
      obtain rfl := h.eq_of_append (hL u (by simp)) (hM v (by simp)) heq
      have htail := ih M (fun w hw => hL w (by simp [hw])) (fun w hw => hM w (by simp [hw]))
        (List.append_cancel_left heq)
      rw [htail]

theorem flatMap_eq_iff {code : α → List β} {S : Set (List β)} (h : PrefixFree S)
    (hnil : [] ∉ S) {s t : List α} (hs : ∀ a ∈ s, code a ∈ S) (ht : ∀ a ∈ t, code a ∈ S) :
    s.flatMap code = t.flatMap code ↔ s.map code = t.map code := by
  rw [List.flatMap_def, List.flatMap_def]
  constructor
  · intro heq
    apply h.uniquelyDecodable hnil _ _ _ _ heq
    · simpa using hs
    · simpa using ht
  · intro heq
    rw [heq]

end PrefixCode
