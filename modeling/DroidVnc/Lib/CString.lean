import Mathlib.Data.List.Infix

/-! Zero-terminated strings in a piece of memory. The memory is given from the start
of the string to the end of the object it lies in; a search that comes to that end
without a match or a terminator has no result. -/

namespace CString

variable {α : Type*} [Zero α] [DecidableEq α]

/-- The string at the start of the memory, without its terminator. -/
def value (m : List α) : List α := m.takeWhile (· ≠ 0)

@[simp] theorem value_nil : value ([] : List α) = [] := rfl

@[simp] theorem value_cons (b : α) (m : List α) :
    value (b :: m) = if b = 0 then [] else b :: value m := by
  unfold value
  by_cases hb : b = 0 <;> simp [hb]

theorem value_append_of_notMem {l : List α} (h : 0 ∉ l) (m : List α) :
    value (l ++ m) = l ++ value m := by
  induction l with
  | nil => rfl
  | cons b l ih =>
    rw [List.mem_cons, not_or] at h
    rw [List.cons_append, value_cons, if_neg (Ne.symm h.1), ih h.2, List.cons_append]

theorem value_append_of_mem {l : List α} (h : 0 ∈ l) (m : List α) : value (l ++ m) = value l := by
  induction l with
  | nil => simp at h
  | cons b l ih =>
    rw [List.cons_append, value_cons, value_cons]
    by_cases hb : b = 0
    · rw [if_pos hb, if_pos hb]
    · have hl : 0 ∈ l := (List.mem_cons.mp h).resolve_left (Ne.symm hb)
      rw [if_neg hb, if_neg hb, ih hl]

theorem value_of_notMem {l : List α} (h : 0 ∉ l) : value l = l := by
  simpa using value_append_of_notMem h []

/-- A needle without a zero occurs at the start of the memory if it starts the string. -/
theorem prefix_value_iff {needle m : List α} (hz : 0 ∉ needle) :
    needle <+: value m ↔ needle <+: m := by
  constructor
  · exact fun h => h.trans (List.takeWhile_prefix _)
  · rintro ⟨t, rfl⟩
    rw [value_append_of_notMem hz]
    exact List.prefix_append _ _

/-- `strstr`: whether the needle occurs, looked for from the start of the memory on. -/
def strstr (needle : List α) : List α → Option Bool
  | [] => none
  | b :: m =>
    if b = 0 then some false
    else if needle <+: b :: m then some true
    else strstr needle m

/-- The search finds exactly what occurs in the string, and otherwise needs a terminator. -/
theorem strstr_eq {needle : List α} (hz : 0 ∉ needle) (hne : needle ≠ []) (m : List α) :
    strstr needle m =
      if needle <:+: value m then some true else if 0 ∈ m then some false else none := by
  induction m with
  | nil => simp [strstr, hne]
  | cons b m ih =>
    rw [strstr]
    by_cases hb : b = 0
    · simp [hb, hne]
    · have hstart : needle <+: b :: value m ↔ needle <+: b :: m := by
        have h := prefix_value_iff (m := b :: m) hz
        rwa [value_cons, if_neg hb] at h
      have hmem : 0 ∈ b :: m ↔ 0 ∈ m := by simp [Ne.symm hb]
      rw [if_neg hb, ih, value_cons, if_neg hb]
      simp only [List.infix_cons_iff, hstart, hmem]
      by_cases hp : needle <+: b :: m <;> simp [hp]

/-- `strrchr`: what stands before and behind the last occurrence of a character. -/
def strrchr (c : α) : List α → Option (List α × List α)
  | [] => none
  | b :: m =>
    match strrchr c m with
    | some (before, behind) => some (b :: before, behind)
    | none => if b = c then some ([], m) else none

omit [Zero α] in
theorem eq_of_strrchr {c : α} {m before behind : List α}
    (h : strrchr c m = some (before, behind)) : m = before ++ c :: behind := by
  induction m generalizing before with
  | nil => simp [strrchr] at h
  | cons b m ih =>
    rw [strrchr] at h
    cases hm : strrchr c m with
    | none =>
      rw [hm] at h
      split_ifs at h with hb
      simp_all
    | some r =>
      rw [hm] at h
      obtain ⟨rfl, rfl⟩ := Prod.mk.inj (Option.some.inj h)
      rw [ih hm, List.cons_append]

end CString
