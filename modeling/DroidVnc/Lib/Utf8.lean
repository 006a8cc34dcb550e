import Mathlib.Data.List.Basic
import Mathlib.Data.UInt

/-! Decoding UTF-8 into UTF-16 code units, byte by byte. Between two bytes at most one
character is pending, with the range that its next byte must lie in. A byte out of
that range, a byte that starts no character and the end of the input each turn what
is pending into one replacement character. ASCII text comes through unchanged and
nothing else decodes to it. -/

namespace Utf8

/-- A character that has begun: how many bytes it needs after the next, the range
of the next, and the bits so far. They will amount to a code point beyond ASCII. -/
structure Pending where
  needed : ℕ
  lo : ℕ
  hi : ℕ
  bits : ℕ
  lo_ge : 0x80 ≤ lo
  bits_ge : 2 ≤ bits ∨ 1 ≤ needed ∧ (1 ≤ bits ∨ 0x90 ≤ lo)

/-- What the first byte of a character of several bytes announces. -/
def lead (b : ℕ) : Option Pending :=
  if h : 0xC2 ≤ b ∧ b ≤ 0xDF then some ⟨0, 0x80, 0xBF, b - 0xC0, by omega, by omega⟩
  else if b = 0xE0 then some ⟨1, 0xA0, 0xBF, 0, by omega, by omega⟩
  else if b = 0xED then some ⟨1, 0x80, 0x9F, 0xD, by omega, by omega⟩
  else if h : 0xE1 ≤ b ∧ b ≤ 0xEF then some ⟨1, 0x80, 0xBF, b - 0xE0, by omega, by omega⟩
  else if b = 0xF0 then some ⟨2, 0x90, 0xBF, 0, by omega, by omega⟩
  else if b = 0xF4 then some ⟨2, 0x80, 0x8F, 4, by omega, by omega⟩
  else if h : 0xF1 ≤ b ∧ b ≤ 0xF3 then some ⟨2, 0x80, 0xBF, b - 0xF0, by omega, by omega⟩
  else none

/-- The code units of a code point. -/
def units (c : ℕ) : List UInt16 :=
  if c < 0x10000 then [c.toUInt16]
  else [(0xD800 + (c - 0x10000) / 0x400 % 0x400).toUInt16, (0xDC00 + c % 0x400).toUInt16]

def replacement : UInt16 := 0xFFFD

def start (b : UInt8) : List UInt16 × Option Pending :=
  if b.toNat < 0x80 then ([b.toUInt16], none)
  else match lead b.toNat with
    | some p => ([], some p)
    | none => ([replacement], none)

/-- A byte in the range of what is pending. -/
def Pending.next (p : Pending) (b : ℕ) (h : p.lo ≤ b) : List UInt16 × Option Pending :=
  if hn : p.needed = 0 then (units (p.bits * 64 + (b - 0x80)), none)
  else
    have hbits := p.bits_ge
    ([], some ⟨p.needed - 1, 0x80, 0xBF, p.bits * 64 + (b - 0x80), by omega, by omega⟩)

/-- One byte: the code units that it completes, and what is pending afterwards. -/
def feed : Option Pending → UInt8 → List UInt16 × Option Pending
  | none, b => start b
  | some p, b =>
    if h : p.lo ≤ b.toNat ∧ b.toNat ≤ p.hi then p.next b.toNat h.1
    else (replacement :: (start b).1, (start b).2)

def decodeFrom : Option Pending → List UInt8 → List UInt16
  | none, [] => []
  | some _, [] => [replacement]
  | q, b :: l => (feed q b).1 ++ decodeFrom (feed q b).2 l

def decode (l : List UInt8) : List UInt16 := decodeFrom none l

def Ascii (l : List UInt8) : Prop := ∀ b ∈ l, b.toNat < 0x80

instance (l : List UInt8) : Decidable (Ascii l) :=
  List.decidableBAll (fun b : UInt8 => b.toNat < 0x80) l

theorem Ascii.append {l m : List UInt8} (hl : Ascii l) (hm : Ascii m) : Ascii (l ++ m) :=
  List.forall_mem_append.mpr ⟨hl, hm⟩

theorem Ascii.take {l : List UInt8} (h : Ascii l) (n : ℕ) : Ascii (l.take n) :=
  fun b hb => h b (List.mem_of_mem_take hb)

theorem ascii_replicate {b : UInt8} (hb : b.toNat < 0x80) (n : ℕ) : Ascii (List.replicate n b) := by
  intro c hc
  rwa [List.eq_of_mem_replicate hc]

def widen (l : List UInt8) : List UInt16 := l.map UInt8.toUInt16

@[simp] theorem decodeFrom_cons (q : Option Pending) (b : UInt8) (l : List UInt8) :
    decodeFrom q (b :: l) = (feed q b).1 ++ decodeFrom (feed q b).2 l := by
  cases q <;> rfl

theorem start_ascii {b : UInt8} (hb : b.toNat < 0x80) : start b = ([b.toUInt16], none) := by
  rw [start, if_pos hb]

theorem decodeFrom_ascii {b : UInt8} (hb : b.toNat < 0x80) (q : Option Pending) (l : List UInt8) :
    decodeFrom q (b :: l) = decodeFrom q [] ++ b.toUInt16 :: decodeFrom none l := by
  cases q with
  | none => simp [feed, start_ascii hb, decodeFrom]
  | some p =>
    have hlo := p.lo_ge
    have hout : ¬ (p.lo ≤ b.toNat ∧ b.toNat ≤ p.hi) := by omega
    simp [feed, hout, start_ascii hb, decodeFrom]

theorem decode_ascii {l : List UInt8} (h : Ascii l) : decode l = widen l := by
  induction l with
  | nil => rfl
  | cons b l ih =>
    have hl : decodeFrom none l = widen l := ih fun c hc => h c (by simp [hc])
    rw [decode, decodeFrom_ascii (h b (by simp)), hl]
    rfl

/-- ASCII text behind any bytes is decoded by itself. -/
theorem decodeFrom_append {m : List UInt8} (hm : Ascii m) (q : Option Pending) (l : List UInt8) :
    decodeFrom q (l ++ m) = decodeFrom q l ++ widen m := by
  induction l generalizing q with
  | nil =>
    cases m with
    | nil => simp [widen]
    | cons b m =>
      rw [List.nil_append, decodeFrom_ascii (hm b (by simp)), widen, List.map_cons]
      exact congrArg _ (congrArg _ (decode_ascii fun c hc => hm c (by simp [hc])))
  | cons b l ih => rw [List.cons_append, decodeFrom_cons, decodeFrom_cons, ih, List.append_assoc]

theorem decode_append {m : List UInt8} (hm : Ascii m) (l : List UInt8) :
    decode (l ++ m) = decode l ++ widen m := decodeFrom_append hm none l

/-- The first unit of a code point beyond ASCII is beyond ASCII. -/
theorem exists_units {c : ℕ} (hc : 0x80 ≤ c) :
    ∃ u rest, units c = u :: rest ∧ 0x80 ≤ u.toNat := by
  unfold units
  split_ifs with h
  · exact ⟨_, _, rfl, by simp; omega⟩
  · exact ⟨_, _, rfl, by simp; omega⟩

/-- What is pending never becomes an ASCII character. -/
theorem exists_decodeFrom_pending (p : Pending) (l : List UInt8) :
    ∃ u rest, decodeFrom (some p) l = u :: rest ∧ 0x80 ≤ u.toNat := by
  induction l generalizing p with
  | nil => exact ⟨_, _, rfl, by decide⟩
  | cons b l ih =>
    rw [decodeFrom_cons, feed]
    split_ifs with h
    · have hbits := p.bits_ge
      have hlo := p.lo_ge
      unfold Pending.next
      split_ifs with hn
      · obtain ⟨u, rest, hu, hge⟩ := exists_units (c := p.bits * 64 + (b.toNat - 0x80)) (by omega)
        exact ⟨u, rest ++ decodeFrom none l, by rw [hu]; rfl, hge⟩
      · exact ih _
    · exact ⟨_, _, rfl, by decide⟩

/-- A byte beyond ASCII decodes to nothing in ASCII. -/
theorem exists_decode_cons {b : UInt8} (hb : 0x80 ≤ b.toNat) (l : List UInt8) :
    ∃ u rest, decode (b :: l) = u :: rest ∧ 0x80 ≤ u.toNat := by
  rw [decode, decodeFrom_cons, feed, start, if_neg (by omega)]
  cases lead b.toNat with
  | none => exact ⟨_, _, rfl, by decide⟩
  | some p => exact exists_decodeFrom_pending p l

/-- The decoded text begins with an ASCII text exactly when the bytes do. -/
theorem prefix_decode_iff {t : List UInt8} (ht : Ascii t) (l : List UInt8) :
    widen t <+: decode l ↔ t <+: l := by
  induction t generalizing l with
  | nil => simp [widen]
  | cons a t ih =>
    have ha : a.toNat < 0x80 := ht a (by simp)
    cases l with
    | nil => simp [widen, decode, decodeFrom]
    | cons b l =>
      by_cases hb : b.toNat < 0x80
      · rw [decode, decodeFrom_ascii hb, widen, List.map_cons]
        have htail := ih (fun c hc => ht c (by simp [hc])) l
        simp only [decodeFrom, List.nil_append, List.cons_prefix_cons, UInt8.toUInt16_inj]
        exact and_congr_right fun _ => htail
      · obtain ⟨u, rest, hu, hge⟩ := exists_decode_cons (not_lt.mp hb) l
        rw [hu, widen, List.map_cons, List.cons_prefix_cons, List.cons_prefix_cons]
        refine iff_of_false (fun h => ?_) fun h => hb (h.1 ▸ ha)
        have hnat : a.toNat = u.toNat := by rw [← h.1, UInt8.toNat_toUInt16]
        omega

end Utf8
