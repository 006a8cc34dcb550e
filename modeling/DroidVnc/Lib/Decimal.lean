import Mathlib.Data.List.TakeWhile
import Mathlib.Data.Nat.Digits.Defs
import Mathlib.Data.UInt
import Mathlib.Tactic.IntervalCases

/-! Decimal notation of integers in ASCII, written and read back. -/

namespace Decimal

/-- The digits of a number, the most significant first. -/
def ofNat (n : ℕ) : List UInt8 :=
  if n = 0 then [48] else (Nat.digits 10 n).reverse.map fun d => (d + 48).toUInt8

def ofInt (n : ℤ) : List UInt8 := if n < 0 then 45 :: ofNat n.natAbs else ofNat n.natAbs

def isspace (b : UInt8) : Bool := b.toNat = 32 || 9 ≤ b.toNat && b.toNat ≤ 13

def isdigit (b : UInt8) : Bool := 48 ≤ b.toNat && b.toNat ≤ 57

theorem isspace_of_isdigit {b : UInt8} (h : isdigit b) : isspace b = false := by
  simp only [isdigit, isspace, Bool.and_eq_true, decide_eq_true_eq, Bool.or_eq_false_iff,
    decide_eq_false_iff_not, Bool.and_eq_false_iff] at h ⊢
  omega

def value (l : List UInt8) : ℕ := Nat.ofDigits 10 (l.map fun b => b.toNat - 48).reverse

def leading (l : List UInt8) : ℤ := value (l.takeWhile isdigit)

/-- The nearest value of an `int`. -/
def saturate (n : ℤ) : ℤ := max (-2 ^ 31) (min n (2 ^ 31 - 1))

/-- `atoi`: blanks, a sign, and as many digits as follow. -/
def atoi (s : List UInt8) : ℤ :=
  saturate <| match s.dropWhile isspace with
    | [] => 0
    | b :: l => if b = 45 then -leading l else if b = 43 then leading l else leading (b :: l)

theorem mem_ofNat {n : ℕ} {b : UInt8} (h : b ∈ ofNat n) : isdigit b := by
  unfold ofNat at h
  split_ifs at h with hn
  · rw [List.mem_singleton.mp h]
    decide
  · obtain ⟨d, hd, rfl⟩ := List.mem_map.mp h
    have hlt : d < 10 := Nat.digits_lt_base (by decide) (List.mem_reverse.mp hd)
    interval_cases d <;> decide

theorem ofNat_ne_nil (n : ℕ) : ofNat n ≠ [] := by
  unfold ofNat
  split_ifs with hn
  · exact List.cons_ne_nil _ _
  · simpa using Nat.digits_ne_nil_iff_ne_zero.mpr hn

theorem value_ofNat (n : ℕ) : value (ofNat n) = n := by
  unfold value ofNat
  split_ifs with hn
  · rw [hn]
    rfl
  · have hmap : (Nat.digits 10 n).map (fun d => (d + 48).toUInt8.toNat - 48) = Nat.digits 10 n := by
      rw [List.map_congr_left (g := id), List.map_id]
      intro d hd
      have hlt : d < 10 := Nat.digits_lt_base (by decide) hd
      simp only [Nat.toUInt8_eq, UInt8.toNat_ofNat', id]
      omega
    rw [List.map_reverse, List.map_reverse, List.map_map, List.reverse_reverse]
    exact (congrArg _ hmap).trans (Nat.ofDigits_digits 10 n)

theorem leading_ofNat (n : ℕ) : leading (ofNat n) = n := by
  rw [leading, List.takeWhile_eq_self_iff.mpr fun _ hb => mem_ofNat hb, value_ofNat]

theorem saturate_of_int {n : ℤ} (hlo : -2 ^ 31 ≤ n) (hhi : n < 2 ^ 31) : saturate n = n := by
  unfold saturate
  omega

theorem atoi_ofInt {n : ℤ} (hlo : -2 ^ 31 ≤ n) (hhi : n < 2 ^ 31) : atoi (ofInt n) = n := by
  unfold atoi ofInt
  split_ifs with hneg
  · rw [List.dropWhile_cons_of_neg (by decide)]
    simp only [if_true, leading_ofNat]
    rw [saturate_of_int (by omega) (by omega)]
    omega
  · cases hs : ofNat n.natAbs with
    | nil => exact absurd hs (ofNat_ne_nil _)
    | cons b l =>
      have hb : isdigit b := mem_ofNat (hs ▸ List.mem_cons_self)
      have hminus : b ≠ 45 := by
        rintro rfl
        exact absurd hb (by decide)
      have hplus : b ≠ 43 := by
        rintro rfl
        exact absurd hb (by decide)
      rw [List.dropWhile_cons_of_neg (by simp [isspace_of_isdigit hb])]
      simp only [if_neg hminus, if_neg hplus]
      rw [← hs, leading_ofNat, saturate_of_int (by omega) (by omega)]
      omega

theorem ofInt_ne_nil (n : ℤ) : ofInt n ≠ [] := by
  unfold ofInt
  split_ifs
  · exact List.cons_ne_nil _ _
  · exact ofNat_ne_nil _

theorem mem_ofInt {n : ℤ} {b : UInt8} (h : b ∈ ofInt n) : isdigit b ∨ b = 45 := by
  unfold ofInt at h
  split_ifs at h
  · exact (List.mem_cons.mp h).elim Or.inr fun h => Or.inl (mem_ofNat h)
  · exact Or.inl (mem_ofNat h)

end Decimal
