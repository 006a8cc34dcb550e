import DroidVnc.Grabber.Adb
import DroidVnc.Lib.While

/-! `read_socket` turn by turn, with the `size_t` that counts down. What `read` returns is
taken off `count` even if it is zero or `-1`, and `buf` stays where it is: the bytes are
put together when they come in one piece. -/

namespace DroidVnc.Grabber.Adb

open Receive

/-- What a call of `read` finds: bytes that have arrived, none at the end of the file, or
an error. -/
abbrev Found := Option (List UInt8)

/-- The bytes that `read(fd, buf, count)` stores. -/
def stored (count : BitVec 32) : Found → List UInt8
  | none => []
  | some seg => seg.take count.toNat

def result (count : BitVec 32) : Found → ℤ
  | none => -1
  | some seg => (seg.take count.toNat).length

/-- `count`, the memory at `buf`, and the bytes that were taken from the peer. -/
structure ReadSocket where
  count : BitVec 32
  buf : List UInt8
  taken : List UInt8
  deriving DecidableEq, Repr

namespace ReadSocket

def test (s : ReadSocket) : Bool := decide (0 < s.count)

def turn (s : ReadSocket) (x : Found) : ReadSocket where
  count := s.count - BitVec.ofInt 32 (result s.count x)
  buf := overlay s.buf 0 (stored s.count x)
  taken := s.taken ++ stored s.count x

abbrev Returns (found : Stream' Found) (s t : ReadSocket) : Prop :=
  While.Returns test turn found s t

abbrev Ends (found : Stream' Found) (s : ReadSocket) : Prop := While.Ends test turn found s

abbrev NeverGrows (found : Stream' Found) (s : ReadSocket) : Prop :=
  While.NeverGrows (fun s => s.count.toNat) test turn found s

variable {s t : ReadSocket} {x : Found} {seg : List UInt8} {found later : Stream' Found}

theorem test_eq_false : s.test = false ↔ s.count.toNat = 0 := by
  rw [test, decide_eq_false_iff_not, BitVec.lt_def]
  exact Nat.pos_iff_ne_zero.not_left

theorem test_eq_true : s.test = true ↔ s.count.toNat ≠ 0 := by
  rw [Ne, ← test_eq_false, Bool.not_eq_false]

theorem returns_of_count (h : s.count.toNat = 0) : Returns found s t ↔ t = s :=
  While.returns_of_stopped (test_eq_false.mpr h)

theorem returns_cons (h : s.count.toNat ≠ 0) :
    Returns (Stream'.cons x found) s t ↔ Returns found (s.turn x) t :=
  While.returns_of_test (test_eq_true.mpr h)

theorem count_turn_some : (s.turn (some seg)).count.toNat = s.count.toNat - seg.length := by
  have hlt := s.count.isLt
  show (s.count - BitVec.ofInt 32 ((seg.take s.count.toNat).length : ℕ)).toNat = _
  rw [BitVec.ofInt_natCast, List.length_take, BitVec.toNat_sub, BitVec.toNat_ofNat]
  omega

/-- An error is a byte that is still to come. -/
theorem count_turn_none : (s.turn none).count = s.count + 1 := by
  show s.count - BitVec.ofInt 32 (-1) = s.count + 1
  rw [BitVec.sub_eq_add_neg]
  rfl

theorem toNat_turn_none : (s.turn none).count.toNat = (s.count.toNat + 1) % 2 ^ 32 := by
  rw [count_turn_none, BitVec.toNat_add]
  rfl

theorem turn_eof : s.turn (some []) = s := by
  have hcount : (s.turn (some [])).count = s.count := by
    apply BitVec.eq_of_toNat_eq
    rw [count_turn_some, List.length_nil, Nat.sub_zero]
  show (⟨(s.turn (some [])).count, overlay s.buf 0 ([].take _), s.taken ++ [].take _⟩ :
    ReadSocket) = s
  rw [hcount, List.take_nil, overlay_nil, List.append_nil]

/-! ### The end of the loop -/

theorem ends_of_count (h : s.count.toNat = 0) : Ends found s :=
  While.ends_of_stopped (test_eq_false.mpr h)

/-- At the end of the file `read_socket` waits for ever, unless it has nothing to wait for. -/
theorem ends_eof_iff : Ends (Stream'.const (some [])) s ↔ s.count.toNat = 0 := by
  constructor
  · rintro ⟨t, ht, k, hk⟩
    rw [While.turns_const turn_eof] at hk
    rw [← hk] at ht
    exact test_eq_false.mp ht
  · exact ends_of_count

/-- Bytes arrive, with no error before there are `n` of them; some calls may find none. -/
def Arrives (n : ℕ) (found : Stream' Found) : Prop :=
  ∃ segs later, found = List.map some segs ++ₛ later ∧ n ≤ segs.flatten.length

/-- The count is the largest there is, and an error is all that is found. -/
def Wraps (count : BitVec 32) (found : Stream' Found) : Prop :=
  count = BitVec.allOnes 32 ∧
    ∃ m later, found = List.replicate m (some []) ++ₛ Stream'.cons none later

theorem ends_and_neverGrows_of_count (h : s.count.toNat = 0) :
    Ends found s ∧ NeverGrows found s :=
  ⟨ends_of_count h, While.neverGrows_of_stopped (test_eq_false.mpr h)⟩

theorem ends_and_neverGrows_cons (h : s.count.toNat ≠ 0) :
    Ends (Stream'.cons x found) s ∧ NeverGrows (Stream'.cons x found) s ↔
      (s.turn x).count.toNat ≤ s.count.toNat ∧
        Ends found (s.turn x) ∧ NeverGrows found (s.turn x) := by
  rw [Ends, NeverGrows, While.ends_of_test (test_eq_true.mpr h),
    While.neverGrows_of_test (test_eq_true.mpr h), and_left_comm]
  rfl

theorem ends_and_neverGrows_of_arrives (h : Arrives s.count.toNat found) :
    Ends found s ∧ NeverGrows found s := by
  obtain ⟨segs, later, rfl, hle⟩ := h
  induction segs generalizing s with
  | nil => exact ends_and_neverGrows_of_count (Nat.le_zero.mp hle)
  | cons seg segs ih =>
    by_cases h0 : s.count.toNat = 0
    · exact ends_and_neverGrows_of_count h0
    · have hcount : (s.turn (some seg)).count.toNat = s.count.toNat - seg.length := count_turn_some
      rw [List.flatten_cons, List.length_append] at hle
      exact (ends_and_neverGrows_cons h0).mpr ⟨by omega, ih (by omega)⟩

theorem ends_and_neverGrows_of_wraps (h : Wraps s.count found) :
    Ends found s ∧ NeverGrows found s := by
  obtain ⟨hmax, m, later, rfl⟩ := h
  have h0 : s.count.toNat ≠ 0 := by
    rw [hmax]
    decide
  induction m with
  | zero =>
    have hzero : (s.turn none).count.toNat = 0 := by
      rw [count_turn_none, hmax]
      decide
    exact (ends_and_neverGrows_cons h0).mpr
      ⟨hzero.trans_le (Nat.zero_le _), ends_and_neverGrows_of_count hzero⟩
  | succ m ih =>
    apply (ends_and_neverGrows_cons h0).mpr
    rw [turn_eof]
    exact ⟨le_rfl, ih⟩

theorem arrives_cons {n : ℕ} (h : Arrives (n - seg.length) later) :
    Arrives n (Stream'.cons (some seg) later) := by
  obtain ⟨segs, rest, rfl, hle⟩ := h
  refine ⟨seg :: segs, rest, rfl, ?_⟩
  rw [List.flatten_cons, List.length_append]
  omega

/-- The loop ends with a count that never grew exactly when the bytes arrive, or when the
largest count is wrapped at once. -/
theorem ends_and_neverGrows_iff (found : Stream' Found) (s : ReadSocket) :
    Ends found s ∧ NeverGrows found s ↔ Arrives s.count.toNat found ∨ Wraps s.count found := by
  constructor
  · rintro ⟨⟨t, ht⟩, hgrows⟩
    revert hgrows
    refine While.Returns.induction (P := fun found s => NeverGrows found s →
      Arrives s.count.toNat found ∨ Wraps s.count found) ?_ ?_ ht
    · intro found s hs _
      exact .inl ⟨[], found, rfl, (test_eq_false.mp hs).le⟩
    · intro found s hs ih hgrows
      obtain ⟨hle, hgrows⟩ := (While.neverGrows_of_test hs).mp hgrows
      rw [← Stream'.eta found]
      generalize found.tail = later at *
      generalize found.head = x at *
      cases x with
      | none =>
        have hcount : (s.turn none).count.toNat = (s.count.toNat + 1) % 2 ^ 32 := toNat_turn_none
        have hle : (s.turn none).count.toNat ≤ s.count.toNat := hle
        have hlt := s.count.isLt
        refine .inr ⟨BitVec.eq_of_toNat_eq ?_, 0, later, rfl⟩
        rw [BitVec.toNat_allOnes]
        omega
      | some seg =>
        have hcount : (s.turn (some seg)).count.toNat = s.count.toNat - seg.length :=
          count_turn_some
        rcases ih hgrows with h | ⟨hmax, m, rest, rfl⟩
        · rw [hcount] at h
          exact .inl (arrives_cons h)
        · have hlt := s.count.isLt
          rw [hmax, BitVec.toNat_allOnes] at hcount
          obtain rfl : seg = [] := List.length_eq_zero_iff.mp (by omega)
          rw [turn_eof] at hmax
          exact .inr ⟨hmax, m + 1, rest, rfl⟩
  · rintro (h | h)
    · exact ends_and_neverGrows_of_arrives h
    · exact ends_and_neverGrows_of_wraps h

/-! ### What is put together -/

variable {segs : List (List UInt8)} {i : ℕ}

/-- However the bytes are split, as many as are wanted are taken, and no more. -/
theorem takes_exactly (h : s.count.toNat ≤ segs.flatten.length) :
    ∃ t, Returns (List.map some segs ++ₛ later) s t ∧
      t.taken = s.taken ++ segs.flatten.take s.count.toNat := by
  induction segs generalizing s with
  | nil =>
    have h0 : s.count.toNat = 0 := Nat.le_zero.mp h
    exact ⟨s, (returns_of_count h0).mpr rfl, by rw [h0, List.take_zero, List.append_nil]⟩
  | cons seg segs ih =>
    by_cases h0 : s.count.toNat = 0
    · exact ⟨s, (returns_of_count h0).mpr rfl, by rw [h0, List.take_zero, List.append_nil]⟩
    · rw [List.flatten_cons, List.length_append] at h
      obtain ⟨t, ht, htaken⟩ := @ih (s.turn (some seg)) (by rw [count_turn_some]; omega)
      refine ⟨t, (returns_cons h0).mpr ht, ?_⟩
      rw [htaken, count_turn_some, List.flatten_cons, List.take_append]
      exact List.append_assoc _ _ _

/-- The pieces all go to the start: beyond what is left to be read, nothing changes. -/
theorem getElem?_of_returns (h : s.count.toNat ≤ segs.flatten.length) (hi : s.count.toNat ≤ i)
    (ht : Returns (List.map some segs ++ₛ later) s t) : t.buf[i]? = s.buf[i]? := by
  induction segs generalizing s with
  | nil => rw [(returns_of_count (Nat.le_zero.mp h)).mp ht]
  | cons seg segs ih =>
    by_cases h0 : s.count.toNat = 0
    · rw [(returns_of_count h0).mp ht]
    · rw [List.flatten_cons, List.length_append] at h
      rw [ih (by rw [count_turn_some]; omega) (by rw [count_turn_some]; omega)
        ((returns_cons h0).mp ht)]
      exact getElem?_overlay ((List.length_take_le _ _).trans hi)

/-- A byte stream with at least `count` bytes, in the chunks in which it arrives. -/
structure Split (count : BitVec 32) where
  chunks : List (List UInt8)
  nil_notMem : [] ∉ chunks
  le_length : count.toNat ≤ chunks.flatten.length

variable {count : BitVec 32}

def Split.wanted (p : Split count) : List UInt8 := p.chunks.flatten.take count.toNat

/-- The call returns with the next bytes at `buf` and the rest of it as it was, and they
are all that it has taken from the stream, whatever comes later. -/
def Reassembles (p : Split count) (later : Stream' Found) : Prop :=
  ∀ buf : List UInt8, count.toNat ≤ buf.length →
    ∃ t, Returns (List.map some p.chunks ++ₛ later) ⟨count, buf, []⟩ t ∧
      t.buf = p.wanted ++ buf.drop count.toNat ∧ t.taken = p.wanted

/-- A first chunk that has all the bytes is the only one that is read. -/
theorem buf_of_first {c : List UInt8} (h : s.count.toNat ≤ c.length)
    (ht : Returns (List.map some (c :: segs) ++ₛ later) s t) :
    t.buf = overlay s.buf 0 (c.take s.count.toNat) := by
  by_cases h0 : s.count.toNat = 0
  · rw [(returns_of_count h0).mp ht, h0, List.take_zero, overlay_nil]
  · have hstop : (s.turn (some c)).count.toNat = 0 := by
      rw [count_turn_some, Nat.sub_eq_zero_of_le h]
    rw [(returns_of_count hstop).mp ((returns_cons h0).mp ht)]
    rfl

theorem Split.length_wanted (p : Split count) : p.wanted.length = count.toNat :=
  List.length_take_of_le p.le_length

theorem reassembles_of_first {p : Split count}
    (h : count.toNat ≤ (p.chunks.headD []).length) : Reassembles p later := by
  intro buf _
  have hlen : (ReadSocket.mk count buf []).count.toNat ≤ p.chunks.flatten.length := p.le_length
  obtain ⟨t, ht, htaken⟩ := takes_exactly hlen
  refine ⟨t, ht, ?_, htaken⟩
  have hbuf : t.buf = overlay buf 0 p.wanted := by
    rw [Split.wanted]
    cases hp : p.chunks with
    | nil =>
      rw [hp] at h
      rw [(returns_of_count (Nat.le_zero.mp h)).mp ht, List.flatten_nil, List.take_nil, overlay_nil]
    | cons c cs =>
      rw [hp] at h ht
      have hc : count.toNat ≤ c.length := h
      rw [buf_of_first h ht, List.flatten_cons, List.take_append_of_le_length hc]
  rw [hbuf, overlay_zero, p.length_wanted]

/-- Where the first chunk is short, the last byte is never stored. -/
theorem getElem?_of_short {c : List UInt8} (hc : c ≠ []) (hlt : c.length < s.count.toNat)
    (h : s.count.toNat ≤ (c :: segs).flatten.length)
    (ht : Returns (List.map some (c :: segs) ++ₛ later) s t) :
    t.buf[s.count.toNat - 1]? = s.buf[s.count.toNat - 1]? := by
  have hpos : 0 < c.length := List.length_pos_iff.mpr hc
  have h0 : s.count.toNat ≠ 0 := by omega
  rw [List.flatten_cons, List.length_append] at h
  rw [getElem?_of_returns (by rw [count_turn_some]; omega) (by rw [count_turn_some]; omega)
    ((returns_cons h0).mp ht)]
  apply getElem?_overlay
  calc (c.take s.count.toNat).length ≤ c.length := List.length_take_le' _ _
    _ ≤ s.count.toNat - 1 := by omega

/-- A split is put together exactly when the first chunk has all the bytes. -/
theorem reassembles_iff (p : Split count) (later : Stream' Found) :
    Reassembles p later ↔ count.toNat ≤ (p.chunks.headD []).length := by
  refine ⟨fun hp => ?_, reassembles_of_first⟩
  by_contra hlt
  obtain ⟨c, cs, hchunks⟩ : ∃ c cs, p.chunks = c :: cs := by
    refine List.exists_cons_of_ne_nil fun hnil => hlt ?_
    have hle := p.le_length
    rwa [hnil] at hle ⊢
  have hc : c ≠ [] := by
    rintro rfl
    exact p.nil_notMem (hchunks ▸ List.mem_cons_self)
  rw [hchunks] at hlt
  have hlt : c.length < count.toNat := Nat.lt_of_not_le hlt
  have hlast : count.toNat - 1 < p.wanted.length := by
    rw [p.length_wanted]
    omega
  -- the last byte that is wanted is not the one that was there
  let x := p.wanted[count.toNat - 1]
  obtain ⟨t, ht, hbuf, -⟩ := hp (List.replicate count.toNat (x + 1)) (by simp)
  have hget : t.buf[count.toNat - 1]? = some x := by
    rw [hbuf, List.getElem?_append_left hlast, List.getElem?_eq_getElem hlast]
  have hle := p.le_length
  rw [hchunks] at ht hle
  have hold : t.buf[count.toNat - 1]? = (List.replicate count.toNat (x + 1))[count.toNat - 1]? :=
    getElem?_of_short hc hlt hle ht
  rw [hget, List.getElem?_replicate_of_lt (by omega)] at hold
  have hx : x = x + 1 := Option.some.inj hold
  exact absurd hx (by simp)

/-- `read_socket` puts a stream together exactly when the first chunk has all the bytes,
and it ends with a count that never grew exactly when the bytes arrive before an error, or
when an error is the first that is found and makes the largest count zero. -/
theorem reassembles_and_ends_iff (p : Split count) (later found : Stream' Found)
    (s : ReadSocket) :
    (Reassembles p later ↔ count.toNat ≤ (p.chunks.headD []).length) ∧
      (Ends found s ∧ NeverGrows found s ↔ Arrives s.count.toNat found ∨ Wraps s.count found) :=
  ⟨reassembles_iff p later, ends_and_neverGrows_iff found s⟩

def halves : Split 4 := ⟨[[1, 2], [3, 4]], by decide, by decide⟩

/-- The second half is stored over the first; at the end of the file the loop goes on for
ever; and an error makes four bytes five. -/
theorem not_reassembles_and_ends :
    ¬Reassembles halves (Stream'.const (some [])) ∧
      ¬Ends (Stream'.const (some [])) ⟨4, [0, 0, 0, 0], []⟩ ∧
      ¬NeverGrows (Stream'.const none) ⟨4, [0, 0, 0, 0], []⟩ := by
  refine ⟨fun h => ?_, fun h => ?_, fun h => ?_⟩
  · obtain ⟨t, ht, hbuf, -⟩ := h [0, 0, 0, 0] (by decide)
    have hrun : Returns (List.map some halves.chunks ++ₛ Stream'.const (some []))
        ⟨4, [0, 0, 0, 0], []⟩ ⟨0, [3, 4, 0, 0], [1, 2, 3, 4]⟩ := ⟨rfl, 2, rfl⟩
    rw [ht.unique hrun] at hbuf
    exact absurd hbuf (by decide)
  · exact absurd (ends_eof_iff.mp h) (by decide)
  · have hgrown : 5 ≤ 4 := h 0
    omega

end ReadSocket

end DroidVnc.Grabber.Adb
