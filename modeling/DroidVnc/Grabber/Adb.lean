import DroidVnc.Lib.Receive

/-! Frames from the ADB daemon. `readBufferADB` asks for a frame and puts the payloads
that come back one after another into `adbbuf`, which the first frame allocates. The
lengths are the peer's: where they direct the reads is settled by what it announces. -/

namespace DroidVnc.Grabber.Adb

open Receive

def A_CNXN : ℕ := 0x4e584e43

def A_OKAY : ℕ := 0x59414b4f

def A_CLSE : ℕ := 0x45534c43

def A_WRTE : ℕ := 0x45545257

def sizeofMessage : ℕ := 24

def sizeofFbinfo : ℕ := 52

/-- The `i`th field of a packed structure of `unsigned int`s. -/
def field (obj : List UInt8) (i : ℕ) : ℕ :=
  (obj.getD (4 * i) 0).toNat + 256 * (obj.getD (4 * i + 1) 0).toNat +
    65536 * (obj.getD (4 * i + 2) 0).toNat + 16777216 * (obj.getD (4 * i + 3) 0).toNat

def command (message : List UInt8) : ℕ := field message 0

def dataLength (message : List UInt8) : ℕ := field message 3

def sizeField (displayInfo : List UInt8) : ℕ := field displayInfo 2

/-- `arg0` and `arg1` trade places. -/
def swapArgs (message : List UInt8) : List UInt8 :=
  message.take 4 ++ (message.drop 8).take 4 ++ (message.drop 4).take 4 ++ message.drop 12

/-- The loop of `read_socket`. Each piece goes to the start of `buf` again, and a
`read` that fails returns `-1`, by which `count` grows. -/
def readLoop (size : ℕ) (offset : ℤ) :
    Arrivals UInt8 → ℕ → List UInt8 → Outcome UInt8 (List UInt8)
  | s, 0, buf => ([], some (buf, s))
  | [], n + 1, _ => after ⟨size, offset, n + 1⟩ ([], none)
  | none :: s, n + 1, buf => after ⟨size, offset, n + 1⟩ (readLoop size offset s (n + 2) buf)
  | some seg :: s, n + 1, buf =>
    after ⟨size, offset, n + 1⟩ <|
      if seg.length < n + 1 then
        readLoop size offset s (n + 1 - seg.length) (overlay buf offset.toNat seg)
      else ([], some (overlay buf offset.toNat (seg.take (n + 1)), some (seg.drop (n + 1)) :: s))

/-- `read_socket(fd, buf, count)` with `buf` at an offset of an object that holds `obj`. -/
def readSocket (size : ℕ) (offset : ℤ) (count : ℕ) (obj : List UInt8) :
    Reader UInt8 (List UInt8) :=
  fun s => readLoop size offset s count obj

/-- The globals of `adb.c`, and the header that `screenformat` was filled in from. -/
structure Globals where
  message : List UInt8
  okayMessage : List UInt8
  displayInfo : List UInt8
  adbbuf : Option (List UInt8)
  deriving DecidableEq, Repr

/-- What a call of `readBufferADB` meets besides the peer: whether each write of
`okay_message` succeeds, up to one that never returns, and what the memory it takes
held before. -/
structure Call where
  sent : List Bool
  junk : ℕ → UInt8

/-- An object of `n` bytes, not yet written. -/
def malloc (junk : ℕ → UInt8) (n : ℕ) : List UInt8 := (List.range n).map junk

def sendConnectString (a : Globals) : Reader UInt8 Globals := do
  let message ← readSocket sizeofMessage 0 sizeofMessage a.message
  let message ← readSocket sizeofMessage 0 (dataLength message) message
  pure { a with message }

def initADB (junk : ℕ → UInt8) : Reader UInt8 Globals :=
  sendConnectString {
    message := malloc junk sizeofMessage
    okayMessage := malloc junk sizeofMessage
    displayInfo := []
    adbbuf := none }

/-- A command that is not the one expected is logged and nothing else. -/
def sendFramebufferString (junk : ℕ → UInt8) (a : Globals) : Reader UInt8 Globals := do
  let okay ← readSocket sizeofMessage 0 sizeofMessage a.okayMessage
  let message ← readSocket sizeofMessage 0 sizeofMessage a.message
  let displayInfo ← readSocket sizeofFbinfo 0 sizeofFbinfo (malloc junk sizeofFbinfo)
  pure {
    message
    okayMessage := swapArgs okay
    displayInfo
    adbbuf := some (a.adbbuf.getD (malloc junk (sizeField displayInfo))) }

/-- A turn of the loop of `readBufferADB`, up to the write of `okay_message`. -/
def nextMessage
    (written : ℤ → List UInt8 → List UInt8 → Reader UInt8 (List UInt8 × List UInt8))
    (count : ℤ) (message adbbuf : List UInt8) : Reader UInt8 (List UInt8 × List UInt8) :=
  if command message = A_CLSE then pure (message, adbbuf)
  else do
    let message ← readSocket sizeofMessage 0 sizeofMessage message
    if command message = A_CLSE then pure (message, adbbuf)
    else do
      -- a command other than `A_WRTE` is logged, and its data is read all the same
      let adbbuf ← readSocket adbbuf.length count (dataLength message) adbbuf
      written ((count + dataLength message).bmod (2 ^ 32)) message adbbuf

/-- The loop of `readBufferADB`, which a write that fails leaves. -/
def readMessages :
    List Bool → ℤ → List UInt8 → List UInt8 → Reader UInt8 (List UInt8 × List UInt8)
  | [] => nextMessage fun _ _ _ => Reader.waiting
  | false :: _ => nextMessage fun _ message adbbuf => pure (message, adbbuf)
  | true :: sent => nextMessage (readMessages sent)

def readBufferADB (c : Call) (a : Globals) : Reader UInt8 Globals := do
  let a ← sendFramebufferString c.junk a
  let r ← readMessages c.sent 0 a.message (a.adbbuf.getD [])
  pure { a with message := r.1, adbbuf := some r.2 }

/-- The method from its initialization through any number of frames. -/
def session (junk : ℕ → UInt8) (calls : List Call) : Reader UInt8 Globals := do
  let a ← initADB junk
  calls.foldlM (fun a c => readBufferADB c a) a

/-! ### What a read does -/

section ReadSocket

variable {size n : ℕ} {offset : ℤ} {obj obj' l m : List UInt8} {s s' : Arrivals UInt8}
  {segs : List (List UInt8)}

/-- A result goes back through the reads that led to it, each of them inside the object. -/
theorem readLoop_induction {P : Arrivals UInt8 → ℕ → List UInt8 → Prop} (done : P s' 0 obj')
    (failed : ∀ s n obj, (Read.mk size offset (n + 1)).Inside → P s (n + 2) obj →
      P (none :: s) (n + 1) obj)
    (short : ∀ s seg n obj, (Read.mk size offset (n + 1)).Inside → seg.length < n + 1 →
      P s (n + 1 - seg.length) (overlay obj offset.toNat seg) → P (some seg :: s) (n + 1) obj)
    (full : ∀ s seg n obj, (Read.mk size offset (n + 1)).Inside → n + 1 ≤ seg.length →
      obj' = overlay obj offset.toNat (seg.take (n + 1)) → s' = some (seg.drop (n + 1)) :: s →
      P (some seg :: s) (n + 1) obj)
    (h : (readLoop size offset s n obj).2 = some (obj', s')) : P s n obj := by
  induction s generalizing n obj with
  | nil =>
    cases n with
    | zero =>
      cases h
      exact done
    | succ n =>
      rw [readLoop, after] at h
      split_ifs at h
  | cons x s ih =>
    cases n with
    | zero =>
      cases h
      exact done
    | succ n =>
      have hin : (Read.mk size offset (n + 1)).Inside := by
        by_contra hout
        cases x <;> (rw [readLoop, after, if_neg hout] at h; cases h)
      cases x with
      | none =>
        rw [readLoop, after_eq hin] at h
        exact failed s n obj hin (ih h)
      | some seg =>
        rw [readLoop, after_eq hin] at h
        dsimp only at h
        split_ifs at h with hseg
        · exact short s seg n obj hin hseg (ih h)
        · cases h
          exact full s seg n obj hin (Nat.le_of_not_lt hseg) rfl rfl

/-- A result is reached by safe reads, and has what every piece that goes inside keeps. -/
theorem readLoop_yields {P : List UInt8 → Prop}
    (hstep : ∀ b piece, 0 ≤ offset → offset + piece.length ≤ size → P b →
      P (overlay b offset.toNat piece))
    (hobj : P obj) (h : (readLoop size offset s n obj).2 = some (obj', s')) :
    (∀ r ∈ (readLoop size offset s n obj).1, r.Inside) ∧ P obj' := by
  revert hobj
  refine readLoop_induction (P := fun s n obj => P obj →
    (∀ r ∈ (readLoop size offset s n obj).1, r.Inside) ∧ P obj') ?_ ?_ ?_ ?_ h
  · intro hobj
    exact ⟨by simp [readLoop], hobj⟩
  · intro s n obj hin ih hobj
    obtain ⟨hsafe, hP⟩ := ih hobj
    rw [readLoop, after_eq hin]
    exact ⟨List.forall_mem_cons.mpr ⟨hin, hsafe⟩, hP⟩
  · rintro s seg n obj ⟨h0, hle⟩ hseg ih hobj
    obtain ⟨hsafe, hP⟩ := ih (hstep obj seg h0 (by dsimp only at hle; omega) hobj)
    rw [readLoop, after_eq ⟨h0, hle⟩, if_pos hseg]
    exact ⟨List.forall_mem_cons.mpr ⟨⟨h0, hle⟩, hsafe⟩, hP⟩
  · rintro s seg n obj ⟨h0, hle⟩ hseg rfl - hobj
    have hlen : (seg.take (n + 1)).length = n + 1 := List.length_take_of_le hseg
    rw [readLoop, after_eq ⟨h0, hle⟩, if_neg hseg.not_gt]
    refine ⟨List.forall_mem_cons.mpr ⟨⟨h0, hle⟩, by simp⟩, hstep obj _ h0 ?_ hobj⟩
    rw [hlen]
    exact hle

theorem guarded_readSocket : (readSocket size offset n obj).Guarded := by
  intro s obj' s' h
  exact (readLoop_yields (P := fun _ => True) (fun _ _ _ _ _ => trivial) trivial h).1

theorem length_readSocket (hobj : obj.length = size)
    (h : (readSocket size offset n obj).Yields s obj' s') : obj'.length = size := by
  refine (readLoop_yields (P := fun b => b.length = size) ?_ hobj h).2
  intro b piece h0 hle hb
  rw [length_overlay (by omega), hb]

/-- Without failures the first read decides for all of them. -/
theorem readLoop_segs (h : n = 0 ∨ (Read.mk size offset n).Inside) :
    (∀ r ∈ (readLoop size offset (segs.map some) n obj).1, r.Inside) ∧
      (readLoop size offset (segs.map some) n obj).2 =
        (pieces segs n).map fun x =>
          (x.1.foldl (fun b piece => overlay b offset.toNat piece) obj, x.2.map some) := by
  induction segs generalizing n obj with
  | nil =>
    cases n with
    | zero => simp [readLoop]
    | succ n =>
      have hin := h.resolve_left n.succ_ne_zero
      rw [List.map_nil, readLoop, after_eq hin]
      simpa [pieces] using hin
  | cons seg segs ih =>
    cases n with
    | zero => simp [readLoop]
    | succ n =>
      have hin := h.resolve_left n.succ_ne_zero
      rw [List.map_cons, readLoop, after_eq hin, pieces]
      split_ifs with hseg
      · have hrest : (Read.mk size offset (n + 1 - seg.length)).Inside := by
          obtain ⟨h0, hle⟩ := id hin
          dsimp only at h0 hle
          refine ⟨h0, ?_⟩
          dsimp only
          omega
        obtain ⟨hsafe, hres⟩ := @ih _ (overlay obj offset.toNat seg) (.inr hrest)
        refine ⟨List.forall_mem_cons.mpr ⟨hin, hsafe⟩, ?_⟩
        dsimp only
        rw [hres, Option.map_map]
        rfl
      · refine ⟨List.forall_mem_cons.mpr ⟨hin, ?_⟩, rfl⟩
        intro r hr
        exact absurd hr List.not_mem_nil

/-- The loop begins with a read of all it wants. -/
theorem mem_readLoop (h : n ≠ 0) : Read.mk size offset n ∈ (readLoop size offset s n obj).1 := by
  obtain ⟨n, rfl⟩ := Nat.exists_eq_succ_of_ne_zero h
  rcases s with _ | ⟨_ | seg, s⟩ <;>
  · show _ ∈ (after _ _).1
    unfold after
    split_ifs <;> simp

theorem safe_readSocket :
    (readSocket size offset n obj).Safe (segs.map some) ↔
      n = 0 ∨ (Read.mk size offset n).Inside := by
  constructor
  · intro h
    by_cases hn : n = 0
    · exact .inl hn
    · exact .inr (h _ (mem_readLoop hn))
  · intro h
    exact (readLoop_segs h).1

theorem inside_of_yields (h : (readSocket size offset n obj).Yields s obj' s') :
    n = 0 ∨ (Read.mk size offset n).Inside := by
  by_cases hn : n = 0
  · exact .inl hn
  · exact .inr (guarded_readSocket s obj' s' h _ (mem_readLoop hn))

/-- After a failure the next read wants a byte more, and the object has none. -/
theorem not_safe_readSocket_failed (hn : n ≠ 0) (h : offset + n = size) :
    ¬(readSocket size offset n obj).Safe (none :: s) := by
  obtain ⟨n, rfl⟩ := Nat.exists_eq_succ_of_ne_zero hn
  intro hs
  have hin : (Read.mk size offset (n + 1)).Inside := hs _ (mem_readLoop hn)
  have hnext : (Read.mk size offset (n + 2)).Inside := by
    apply hs
    show _ ∈ (after _ _).1
    rw [after_eq hin]
    exact List.mem_cons_of_mem _ (mem_readLoop (by omega))
  have hle := hnext.2
  dsimp only at hle
  omega

/-- A result of a loop that may read. -/
theorem yields_readSocket (h : n = 0 ∨ (Read.mk size offset n).Inside) :
    (readSocket size offset n obj).Yields (segs.map some) obj' s' ↔
      ∃ x, pieces segs n = some x ∧
        x.1.foldl (fun b piece => overlay b offset.toNat piece) obj = obj' ∧
          x.2.map some = s' := by
  show (readLoop size offset (segs.map some) n obj).2 = _ ↔ _
  rw [(readLoop_segs h).2, Option.map_eq_some_iff]
  simp only [Prod.mk.injEq]

/-- Bytes that have all arrived are read at once. -/
theorem yields_readSocket_append (hn : l.length = n)
    (h : n = 0 ∨ (Read.mk size offset n).Inside) :
    (readSocket size offset n obj).Yields [some (l ++ m)] (overlay obj offset.toNat l)
      [some m] := by
  obtain ⟨ps, hps, hfold⟩ := pieces_append m hn
  show (readSocket size offset n obj).Yields ([l ++ m].map some) _ _
  rw [yields_readSocket h]
  exact ⟨_, hps, hfold obj _, rfl⟩

end ReadSocket

end DroidVnc.Grabber.Adb
