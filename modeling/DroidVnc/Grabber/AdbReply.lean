import DroidVnc.Grabber.AdbReads
import Mathlib.Data.List.GetD
import Mathlib.Data.List.SplitLengths

/-! The reply to `framebuffer:`. `adbd` sends the header and the pixels of a frame, cut
into messages where it likes. `send_framebuffer_string` takes the header from behind
the first message whatever the length of that, so the cut has to come there. -/

namespace DroidVnc.Grabber.Adb

open Receive

/-- An `unsigned int` as it is sent. -/
def encode32 (n : ℕ) : List UInt8 :=
  [UInt8.ofNat n, UInt8.ofNat (n / 256), UInt8.ofNat (n / 65536), UInt8.ofNat (n / 16777216)]

/-- The fields of a message that are the sender's own. -/
structure Args where
  arg0 : ℕ
  arg1 : ℕ
  dataCrc32 : ℕ

def encodeMessage (command : ℕ) (args : Args) (dataLength : ℕ) : List UInt8 :=
  encode32 command ++ encode32 args.arg0 ++ encode32 args.arg1 ++ encode32 dataLength ++
    encode32 args.dataCrc32 ++ encode32 (0xffffffff - command)

/-- An `A_WRTE` message. -/
structure Write where
  args : Args
  data : List UInt8

def Write.encode (w : Write) : List UInt8 :=
  encodeMessage A_WRTE w.args w.data.length ++ w.data

/-- A reply: `A_OKAY`, the payload in any number of messages, and `A_CLSE`. -/
structure Reply where
  okay : Args
  writes : List Write
  close : Args
  info : List UInt8
  pixels : List UInt8
  length_info : info.length = sizeofFbinfo
  size_info : sizeField info = pixels.length
  payload : (writes.map Write.data).flatten = info ++ pixels
  length_lt : ∀ w ∈ writes, w.data.length < 2 ^ 32

namespace Reply

def split (r : Reply) : List ℕ := r.writes.map fun w => w.data.length

/-- What comes after the data of the messages before `ws`. -/
def behind (ws : List Write) (close : Args) (rest : List UInt8) : List UInt8 :=
  ws.flatMap Write.encode ++ (encodeMessage A_CLSE close 0 ++ rest)

/-- The reply, and whatever the peer sends after it. -/
def encode (r : Reply) (rest : List UInt8) : List UInt8 :=
  encodeMessage A_OKAY r.okay 0 ++ behind r.writes r.close rest

end Reply

/-- On the reply `r`, all of which has arrived, the call takes its header, and `adbbuf`
holds its pixels in the end. -/
def Assembled (c : Call) (a : Globals) (r : Reply) (rest : List UInt8) : Prop :=
  ∃ a' s', (readBufferADB c a).Yields [some (r.encode rest)] a' s' ∧ a'.displayInfo = r.info ∧
    ∃ b ∈ a'.adbbuf, b.take r.pixels.length = r.pixels

/-- Every reply split like this is assembled, into an `adbbuf` of the size `room` or one
that is allocated for it, as long as `okay_message` can be written. -/
def SplitAssembled (split : List ℕ) (room : Option UInt32) : Prop :=
  ∀ (r : Reply) (junk : ℕ → UInt8) (k : ℕ) (a : Globals) (rest : List UInt8),
    r.split = split → split.length ≤ k →
      a.adbbuf.map List.length = room.map UInt32.toNat →
        Assembled ⟨List.replicate k true, junk⟩ a r rest

/-- The first message has the header and nothing else, and the rest fit. -/
def SplitFits (split : List ℕ) (room : Option UInt32) : Prop :=
  ∃ ns, split = sizeofFbinfo :: ns ∧ FitFrom ((room.map UInt32.toNat).getD ns.sum) 0 ns

section Encode

variable {n : ℕ} {args : Args} {l m : List UInt8}

theorem length_encodeMessage (command : ℕ) (args : Args) (n : ℕ) :
    (encodeMessage command args n).length = sizeofMessage := rfl

theorem field_encode32 {x : ℕ} (hx : x < 2 ^ 32) (h : l.drop (4 * n) = encode32 x ++ m) :
    field l n = x := by
  have hget (i : ℕ) : l.getD (4 * n + i) 0 = (encode32 x ++ m).getD i 0 := by
    rw [← h, List.getD_eq_getElem?_getD, List.getD_eq_getElem?_getD, List.getElem?_drop]
  have h0 := hget 0
  have h1 := hget 1
  have h2 := hget 2
  have h3 := hget 3
  unfold field
  rw [show l.getD (4 * n) 0 = _ from h0, h1, h2, h3]
  show (UInt8.ofNat x).toNat + 256 * (UInt8.ofNat (x / 256)).toNat +
    65536 * (UInt8.ofNat (x / 65536)).toNat + 16777216 * (UInt8.ofNat (x / 16777216)).toNat = x
  simp only [UInt8.toNat_ofNat']
  omega

theorem command_encodeMessage {x : ℕ} (hx : x < 2 ^ 32) :
    command (overlay l 0 (encodeMessage x args n)) = x := by
  rw [overlay_zero]
  exact field_encode32 hx rfl

theorem command_write : command (overlay l 0 (encodeMessage A_WRTE args n)) ≠ A_CLSE := by
  rw [command_encodeMessage (by decide)]
  decide

theorem command_close : command (overlay l 0 (encodeMessage A_CLSE args n)) = A_CLSE :=
  command_encodeMessage (by decide)

theorem dataLength_encodeMessage {x : ℕ} (hn : n < 2 ^ 32) :
    dataLength (overlay l 0 (encodeMessage x args n)) = n := by
  rw [overlay_zero]
  exact field_encode32 hn rfl

end Encode

/-! ### Behind the header -/

section Loop

variable {c k n : ℕ} {count : ℤ} {message adbbuf rest : List UInt8} {ws : List Write}
  {close : Args} {w : Write}
  {written : ℤ → List UInt8 → List UInt8 → Reader UInt8 (List UInt8 × List UInt8)}

theorem inside_message : sizeofMessage = 0 ∨ (Read.mk sizeofMessage 0 sizeofMessage).Inside :=
  .inr (inside_zero le_rfl)

theorem yields_message (args : Args) (x n : ℕ) :
    (readSocket sizeofMessage 0 sizeofMessage message).Yields
      [some (encodeMessage x args n ++ rest)] (overlay message 0 (encodeMessage x args n))
      [some rest] :=
  yields_readSocket_append (length_encodeMessage x args n) inside_message

theorem nextMessage_close {l : List UInt8} (hl : l.length = sizeofMessage)
    (hcmd : command message ≠ A_CLSE) (hclse : command (overlay message 0 l) = A_CLSE) :
    (nextMessage written count message adbbuf).Yields [some (l ++ rest)]
      (overlay message 0 l, adbbuf) [some rest] := by
  have hl : (readSocket sizeofMessage 0 sizeofMessage message).Yields [some (l ++ rest)]
      (overlay message 0 l) [some rest] := yields_readSocket_append hl inside_message
  unfold nextMessage
  rw [if_neg hcmd]
  apply hl.yields_bind.mpr
  rw [if_pos hclse]
  exact Reader.yields_pure.mpr ⟨rfl, rfl⟩

/-- A turn on a message that is not the last one. -/
theorem nextMessage_read {l : List UInt8} {r : List UInt8 × List UInt8} {s' : Arrivals UInt8}
    (hl : l.length = sizeofMessage) (hcmd : command message ≠ A_CLSE)
    (hne : command (overlay message 0 l) ≠ A_CLSE) :
    (nextMessage written count message adbbuf).Yields [some (l ++ rest)] r s' ↔
      ∃ b t, (readSocket adbbuf.length count (dataLength (overlay message 0 l)) adbbuf).Yields
          [some rest] b t ∧
        (written ((count + dataLength (overlay message 0 l)).bmod (2 ^ 32))
          (overlay message 0 l) b).Yields t r s' := by
  have hl : (readSocket sizeofMessage 0 sizeofMessage message).Yields [some (l ++ rest)]
      (overlay message 0 l) [some rest] := yields_readSocket_append hl inside_message
  unfold nextMessage
  rw [if_neg hcmd, hl.yields_bind, if_neg hne]
  exact Reader.yields_bind

theorem nextMessage_write {r : List UInt8 × List UInt8} {s' : Arrivals UInt8}
    (hcmd : command message ≠ A_CLSE) (hlen : w.data.length < 2 ^ 32)
    (hin : w.data.length = 0 ∨ (Read.mk adbbuf.length count w.data.length).Inside)
    (h : (written ((count + w.data.length).bmod (2 ^ 32))
        (overlay message 0 (encodeMessage A_WRTE w.args w.data.length))
        (overlay adbbuf count.toNat w.data)).Yields [some rest] r s') :
    (nextMessage written count message adbbuf).Yields [some (w.encode ++ rest)] r s' := by
  rw [Write.encode, List.append_assoc, nextMessage_read (length_encodeMessage _ _ _) hcmd
    command_write, dataLength_encodeMessage hlen]
  exact ⟨_, _, yields_readSocket_append rfl hin, h⟩

/-- The payloads that fit come one behind the other. -/
theorem yields_readMessages (halloc : adbbuf.length < 2 ^ 32)
    (hlt : ∀ w ∈ ws, w.data.length < 2 ^ 32) (hk : ws.length ≤ k)
    (hcmd : command message ≠ A_CLSE) (hc : c ≤ adbbuf.length)
    (hfit : FitFrom adbbuf.length c (ws.map fun w => w.data.length)) :
    ∃ m, (readMessages (List.replicate k true) ((c : ℤ).bmod (2 ^ 32)) message adbbuf).Yields
      [some (Reply.behind ws close rest)]
      (m, overlay adbbuf c (ws.map Write.data).flatten) [some rest] := by
  induction ws generalizing k c message adbbuf with
  | nil =>
    rw [List.map_nil, List.flatten_nil, overlay_nil]
    cases k with
    | zero => exact ⟨_, nextMessage_close rfl hcmd command_close⟩
    | succ k => exact ⟨_, nextMessage_close rfl hcmd command_close⟩
  | cons w ws ih =>
    obtain ⟨k, rfl⟩ := Nat.exists_eq_succ_of_ne_zero (show k ≠ 0 by
      rw [List.length_cons] at hk
      omega)
    obtain ⟨hw, hfit⟩ := hfit
    have hin := (inside_bmod_iff halloc hc).mpr hw
    have hle : c + w.data.length ≤ adbbuf.length := by
      by_cases h0 : w.data.length = 0
      · omega
      · exact (hw h0).2
    -- the offset is what `count` says, unless there is nothing to write
    have hplace : overlay adbbuf ((c : ℤ).bmod (2 ^ 32)).toNat w.data =
        overlay adbbuf c w.data := by
      by_cases h0 : w.data.length = 0
      · rw [List.length_eq_zero_iff.mp h0, overlay_nil, overlay_nil]
      · have hlow := (hw h0).1
        rw [Int.bmod_eq_of_le (by omega) (by omega), Int.toNat_natCast]
    have hlen : (overlay adbbuf c w.data).length = adbbuf.length := length_overlay hle
    obtain ⟨m, hm⟩ := @ih (c + w.data.length) k
      (overlay message 0 (encodeMessage A_WRTE w.args w.data.length)) (overlay adbbuf c w.data)
      (by rwa [hlen]) (fun v hv => hlt v (List.mem_cons_of_mem w hv)) (Nat.le_of_succ_le_succ hk)
      command_write (by rwa [hlen]) (by rwa [hlen])
    refine ⟨m, ?_⟩
    rw [Reply.behind, List.flatMap_cons, List.append_assoc]
    apply nextMessage_write hcmd (hlt w List.mem_cons_self) hin
    rw [hplace, Int.bmod_add_bmod, ← Nat.cast_add]
    rw [overlay_overlay hc] at hm
    exact hm

theorem refill_message (args : Args) (x n : ℕ) :
    refill message sizeofMessage [encodeMessage x args n ++ rest] =
      some (overlay message 0 (encodeMessage x args n), [rest]) := rfl

theorem nextLength_close {again : List UInt8 → List (List UInt8) → Announced}
    (hcmd : command message ≠ A_CLSE) :
    (nextLength again message [encodeMessage A_CLSE close 0 ++ rest]).1 = [] := by
  unfold nextLength
  rw [if_neg hcmd, refill_message]
  dsimp only
  rw [if_pos command_close]

theorem nextLength_write {again : List UInt8 → List (List UInt8) → Announced}
    (hcmd : command message ≠ A_CLSE) (hlen : w.data.length < 2 ^ 32) :
    (nextLength again message [w.encode ++ rest]).1 = w.data.length ::
      (again (overlay message 0 (encodeMessage A_WRTE w.args w.data.length)) [rest]).1 := by
  obtain ⟨ps, hps, -⟩ := pieces_append rest (show w.data.length = w.data.length from rfl)
  unfold nextLength Write.encode
  rw [if_neg hcmd, List.append_assoc, refill_message]
  dsimp only
  rw [if_neg command_write, dataLength_encodeMessage hlen, hps]

theorem lengths_behind (hlt : ∀ w ∈ ws, w.data.length < 2 ^ 32) (hk : ws.length ≤ k)
    (hcmd : command message ≠ A_CLSE) :
    (lengths (List.replicate k true) message [Reply.behind ws close rest]).1 =
      ws.map fun w => w.data.length := by
  induction ws generalizing k message with
  | nil =>
    cases k with
    | zero => exact nextLength_close hcmd
    | succ k => exact nextLength_close hcmd
  | cons w ws ih =>
    obtain ⟨k, rfl⟩ := Nat.exists_eq_succ_of_ne_zero (show k ≠ 0 by
      rw [List.length_cons] at hk
      omega)
    rw [Reply.behind, List.flatMap_cons, List.append_assoc, List.map_cons]
    show (nextLength (lengths (List.replicate k true)) message _).1 = _
    rw [nextLength_write hcmd (hlt w List.mem_cons_self)]
    congr 1
    exact ih (fun v hv => hlt v (List.mem_cons_of_mem w hv)) (Nat.le_of_succ_le_succ hk)
      command_write

end Loop

/-! ### A whole call -/

section Frame

variable {c : Call} {a a' : Globals} {s' : Arrivals UInt8} {tail : List UInt8} {args args' : Args}
  {n n' : ℕ}

/-- The message before the loop of a call. -/
def opening (a : Globals) (args : Args) (n : ℕ) : List UInt8 :=
  overlay a.message 0 (encodeMessage A_WRTE args n)

theorem command_opening : command (opening a args n) ≠ A_CLSE := command_write

/-- Behind the first message, 52 bytes are the header and the loop has the rest. -/
theorem yields_readBufferADB (h : sizeofFbinfo ≤ tail.length) :
    (readBufferADB c a).Yields
        [some (encodeMessage A_OKAY args' 0 ++ (encodeMessage A_WRTE args n ++ tail))] a' s' ↔
      ∃ m b, (readMessages c.sent 0 (opening a args n)
          (a.adbbuf.getD (malloc c.junk (sizeField (tail.take sizeofFbinfo))))).Yields
            [some (tail.drop sizeofFbinfo)] (m, b) s' ∧
        { message := m
          okayMessage := swapArgs (overlay a.okayMessage 0 (encodeMessage A_OKAY args' 0))
          displayInfo := tail.take sizeofFbinfo
          adbbuf := some b } = a' := by
  have hinfo : overlay (malloc c.junk sizeofFbinfo) 0 (tail.take sizeofFbinfo) =
      tail.take sizeofFbinfo := by
    rw [overlay_zero, List.drop_eq_nil_of_le, List.append_nil]
    rw [length_malloc, List.length_take, min_eq_left h]
  have hheader : (readSocket sizeofFbinfo 0 sizeofFbinfo (malloc c.junk sizeofFbinfo)).Yields
      [some tail] (tail.take sizeofFbinfo) [some (tail.drop sizeofFbinfo)] := by
    have hlen : (tail.take sizeofFbinfo).length = sizeofFbinfo := by
      rw [List.length_take, min_eq_left h]
    have hy : (readSocket sizeofFbinfo 0 sizeofFbinfo (malloc c.junk sizeofFbinfo)).Yields
        [some (tail.take sizeofFbinfo ++ tail.drop sizeofFbinfo)] _ _ :=
      yields_readSocket_append hlen (.inr (inside_zero le_rfl))
    rwa [List.take_append_drop, Int.toNat_zero, hinfo] at hy
  have hsend : (sendFramebufferString c.junk a).Yields
      [some (encodeMessage A_OKAY args' 0 ++ (encodeMessage A_WRTE args n ++ tail))]
      { message := opening a args n
        okayMessage := swapArgs (overlay a.okayMessage 0 (encodeMessage A_OKAY args' 0))
        displayInfo := tail.take sizeofFbinfo
        adbbuf := some
          (a.adbbuf.getD (malloc c.junk (sizeField (tail.take sizeofFbinfo)))) }
      [some (tail.drop sizeofFbinfo)] := by
    apply (yields_message args' A_OKAY 0).yields_bind.mpr
    apply (yields_message args A_WRTE n).yields_bind.mpr
    apply hheader.yields_bind.mpr
    exact Reader.yields_pure.mpr ⟨rfl, rfl⟩
  unfold readBufferADB
  rw [hsend.yields_bind, Reader.yields_bind]
  constructor
  · rintro ⟨⟨m, b⟩, t, hloop, hp⟩
    obtain ⟨rfl, rfl⟩ := Reader.yields_pure.mp hp
    exact ⟨m, b, hloop, rfl⟩
  · rintro ⟨m, b, hloop, rfl⟩
    exact ⟨(m, b), s', hloop, Reader.yields_pure.mpr ⟨rfl, rfl⟩⟩

theorem length_behind (ws : List Write) (close : Args) (rest : List UInt8) :
    (ws.map Write.data).flatten.length + sizeofMessage ≤ (Reply.behind ws close rest).length := by
  induction ws with
  | nil =>
    rw [Reply.behind, List.flatMap_nil, List.nil_append, List.length_append, length_encodeMessage]
    simp
  | cons w ws ih =>
    rw [Reply.behind] at ih ⊢
    rw [List.flatMap_cons, List.map_cons, List.flatten_cons, List.append_assoc, List.length_append,
      List.length_append, Write.encode, List.length_append]
    omega

variable {r : Reply} {w : Write} {ws : List Write} {rest : List UInt8}

theorem length_le_behind (hr : r.writes = w :: ws)
    (ht : w.data ++ Reply.behind ws r.close rest = tail) : sizeofFbinfo ≤ tail.length := by
  have hpayload := congrArg List.length r.payload
  have hle := length_behind ws r.close rest
  rw [hr, List.map_cons, List.flatten_cons, List.length_append, List.length_append,
    r.length_info] at hpayload
  rw [← ht, List.length_append]
  omega

/-- A reply as the call meets it. -/
theorem assembled_iff (hr : r.writes = w :: ws)
    (ht : w.data ++ Reply.behind ws r.close rest = tail) :
    Assembled c a r rest ↔ tail.take sizeofFbinfo = r.info ∧
      ∃ m b s', (readMessages c.sent 0 (opening a w.args w.data.length)
          (a.adbbuf.getD (malloc c.junk r.pixels.length))).Yields
            [some (tail.drop sizeofFbinfo)] (m, b) s' ∧
        b.take r.pixels.length = r.pixels := by
  have hencode : r.encode rest = encodeMessage A_OKAY r.okay 0 ++
      (encodeMessage A_WRTE w.args w.data.length ++ tail) := by
    rw [Reply.encode, hr, Reply.behind, List.flatMap_cons, Write.encode, ← ht, Reply.behind]
    simp only [List.append_assoc]
  unfold Assembled
  rw [hencode]
  simp only [yields_readBufferADB (length_le_behind hr ht)]
  constructor
  · rintro ⟨a', s', ⟨m, b, hloop, rfl⟩, hinfo, b', hb, hpixels⟩
    dsimp only at hinfo
    obtain rfl := Option.some.inj hb
    rw [hinfo, r.size_info] at hloop
    exact ⟨hinfo, m, b, s', hloop, hpixels⟩
  · rintro ⟨hinfo, m, b, s', hloop, hpixels⟩
    rw [← r.size_info, ← hinfo] at hloop
    exact ⟨_, s', ⟨m, b, hloop, rfl⟩, hinfo, b, rfl, hpixels⟩

theorem length_pixels_lt (r : Reply) : r.pixels.length < 2 ^ 32 := by
  rw [← r.size_info]
  exact field_lt r.info 2

variable {room : Option UInt32} {k : ℕ} {junk : ℕ → UInt8}

theorem length_room (hroom : a.adbbuf.map List.length = room.map UInt32.toNat) :
    (a.adbbuf.getD (malloc junk n)).length = (room.map UInt32.toNat).getD n := by
  rw [← hroom]
  cases a.adbbuf with
  | none => exact length_malloc junk n
  | some b => rfl

theorem room_lt (hn : n < 2 ^ 32) : (room.map UInt32.toNat).getD n < 2 ^ 32 := by
  cases room with
  | none => exact hn
  | some x => exact x.toNat_lt

/-- A reply whose first message is the header. -/
theorem payload_of_split (hr : r.writes = w :: ws) (hw : w.data.length = sizeofFbinfo) :
    w.data = r.info ∧ (ws.map Write.data).flatten = r.pixels := by
  have hpayload := r.payload
  rw [hr, List.map_cons, List.flatten_cons] at hpayload
  exact List.append_inj hpayload (hw.trans r.length_info.symm)

theorem sum_split (ws : List Write) :
    (ws.map fun w => w.data.length).sum = (ws.map Write.data).flatten.length := by
  rw [List.length_flatten, List.map_map]
  rfl

/-- A reply that is split behind its header is assembled where it fits. -/
theorem assembled_of_fits (hfit : SplitFits r.split room) (hk : r.split.length ≤ k)
    (hroom : a.adbbuf.map List.length = room.map UInt32.toNat) :
    Assembled ⟨List.replicate k true, junk⟩ a r rest := by
  obtain ⟨ns, hsplit, hfit⟩ := hfit
  unfold Reply.split at hsplit hk
  obtain ⟨w, ws, hr, hw, rfl⟩ := List.map_eq_cons_iff.mp hsplit
  obtain ⟨hinfo, hpixels⟩ := payload_of_split hr hw
  rw [assembled_iff hr rfl, List.take_left' hw, List.drop_left' hw]
  refine ⟨hinfo, ?_⟩
  have hlen : (a.adbbuf.getD (malloc junk r.pixels.length)).length =
      (room.map UInt32.toNat).getD r.pixels.length := length_room hroom
  rw [sum_split, hpixels, ← hlen] at hfit
  rw [List.length_map, hr, List.length_cons] at hk
  have hloop : ∃ m, (readMessages (List.replicate k true) 0 (opening a w.args w.data.length)
      (a.adbbuf.getD (malloc junk r.pixels.length))).Yields [some (Reply.behind ws r.close rest)]
        (m, _) _ :=
    yields_readMessages (c := 0) (by rw [hlen]; exact room_lt (length_pixels_lt r))
      (fun v hv => r.length_lt v (by rw [hr]; exact List.mem_cons_of_mem w hv)) (by omega)
      command_opening (Nat.zero_le _) hfit
  obtain ⟨m, hm⟩ := hloop
  refine ⟨m, _, _, hm, ?_⟩
  rw [hpixels, overlay_zero, List.take_left]

theorem guarded_nextMessage
    {written : ℤ → List UInt8 → List UInt8 → Reader UInt8 (List UInt8 × List UInt8)}
    (h : ∀ count m b, (written count m b).Guarded) (count : ℤ) (m b : List UInt8) :
    (nextMessage written count m b).Guarded := by
  unfold nextMessage
  split_ifs
  · exact Reader.guarded_pure
  · apply guarded_readSocket.bind
    intro m
    split_ifs
    · exact Reader.guarded_pure
    · apply guarded_readSocket.bind
      intro b
      exact h _ m b

theorem guarded_readMessages (sent : List Bool) :
    ∀ count m b, (readMessages sent count m b).Guarded := by
  induction sent with
  | nil => exact guarded_nextMessage fun _ _ _ => Reader.guarded_waiting
  | cons ok sent ih =>
    cases ok with
    | false => exact guarded_nextMessage fun _ _ _ => Reader.guarded_pure
    | true => exact guarded_nextMessage ih

/-- Where the first message is the header, what does not fit is not assembled. -/
theorem fits_of_assembled (hr : r.writes = w :: ws) (hw : w.data.length = sizeofFbinfo)
    (hk : r.split.length ≤ k) (hroom : a.adbbuf.map List.length = room.map UInt32.toNat)
    (h : Assembled ⟨List.replicate k true, junk⟩ a r rest) : SplitFits r.split room := by
  obtain ⟨-, m, b, s', hloop, -⟩ := (assembled_iff hr rfl).mp h
  rw [List.drop_left' hw] at hloop
  have hlen : (a.adbbuf.getD (malloc junk r.pixels.length)).length =
      (room.map UInt32.toNat).getD r.pixels.length := length_room hroom
  have hlt : (room.map UInt32.toNat).getD r.pixels.length < 2 ^ 32 := room_lt (length_pixels_lt r)
  have hfollows := follows_readMessages hlt (List.replicate k true) 0
    (opening a w.args w.data.length) _ [Reply.behind ws r.close rest] hlen (Nat.zero_le _)
  have hfit := hfollows.safe_iff.mp (guarded_readMessages _ _ _ _ _ _ _ hloop)
  unfold Reply.split at hk ⊢
  rw [List.length_map, hr, List.length_cons] at hk
  rw [lengths_behind (fun v hv => r.length_lt v (by rw [hr]; exact List.mem_cons_of_mem w hv))
    (by omega) command_opening] at hfit
  refine ⟨ws.map fun w => w.data.length, ?_, ?_⟩
  · rw [hr, List.map_cons, hw]
  · rw [sum_split, (payload_of_split hr hw).2]
    exact hfit

end Frame

/-! ### Other splits -/

section Probe

variable {n k : ℕ} {ns : List ℕ} {pixels : List UInt8} {r : Reply}

/-- Fields whose bytes show when they are taken for something else. -/
def probeArgs : Args := ⟨1, 0x01010101, 0⟩

/-- A header that is zero but for its size. -/
def probeInfo (size : ℕ) : List UInt8 :=
  List.replicate 8 0 ++ (encode32 size ++ List.replicate 40 0)

theorem sum_split_eq (r : Reply) : r.split.sum = sizeofFbinfo + r.pixels.length := by
  rw [Reply.split, sum_split, r.payload, List.length_append, r.length_info]

/-- A reply that is split like `r`, with other pixels. -/
def probe (r : Reply) (pixels : List UInt8) (h : pixels.length = r.pixels.length) : Reply where
  okay := probeArgs
  writes := (r.split.splitLengths (probeInfo r.pixels.length ++ pixels)).map fun d => ⟨probeArgs, d⟩
  close := probeArgs
  info := probeInfo r.pixels.length
  pixels := pixels
  length_info := rfl
  size_info := by
    rw [h]
    exact field_encode32 (length_pixels_lt r) rfl
  payload := by
    rw [List.map_map]
    show ((r.split.splitLengths _).map id).flatten = _
    rw [List.map_id, List.flatten_splitLengths]
    rw [sum_split_eq, List.length_append, h]
    rfl
  length_lt := by
    intro w hw
    obtain ⟨d, hd, rfl⟩ := List.mem_map.mp hw
    have hmem : d.length ∈ (r.split.splitLengths (probeInfo r.pixels.length ++ pixels)).map
        List.length := List.mem_map_of_mem hd
    rw [List.map_splitLengths_length _ _ (by rw [sum_split_eq, List.length_append, h]; rfl)] at hmem
    obtain ⟨v, hv, hlen⟩ := List.mem_map.mp hmem
    rw [← hlen]
    exact r.length_lt v hv

variable {h : pixels.length = r.pixels.length}

theorem split_probe : (probe r pixels h).split = r.split := by
  show (((r.split.splitLengths _).map fun d => (⟨probeArgs, d⟩ : Write)).map _) = _
  rw [List.map_map]
  exact List.map_splitLengths_length _ _ (by rw [sum_split_eq, List.length_append, h]; rfl)

/-- The messages of a probe begin with `n` bytes of its payload. -/
theorem writes_probe (hsplit : r.split = n :: ns) :
    (probe r pixels h).writes =
      ⟨probeArgs, (probeInfo r.pixels.length ++ pixels).take n⟩ ::
        (ns.splitLengths ((probeInfo r.pixels.length ++ pixels).drop n)).map
          fun d => ⟨probeArgs, d⟩ := by
  show (r.split.splitLengths _).map _ = _
  rw [hsplit, List.splitLengths_cons, List.map_cons]

def zeroed (room : Option UInt32) : Globals :=
  ⟨[], [], [], room.map fun x => List.replicate x.toNat 0⟩

theorem room_zeroed (room : Option UInt32) :
    (zeroed room).adbbuf.map List.length = room.map UInt32.toNat := by
  cases room with
  | none => rfl
  | some x => exact congrArg some List.length_replicate

theorem mem_zeroed {room : Option UInt32} {x : UInt8}
    (hx : x ∈ (zeroed room).adbbuf.getD (malloc (fun _ => 0) n)) : x = 0 := by
  cases room with
  | none =>
    obtain ⟨i, -, rfl⟩ := List.mem_map.mp (show x ∈ (List.range n).map fun _ => 0 from hx)
    rfl
  | some y => exact List.eq_of_mem_replicate hx

/-- What a split fails on, it fails on with memory that was zero. -/
theorem probe_assembled {room : Option UInt32} (ha : SplitAssembled r.split room)
    (pixels : List UInt8) (h : pixels.length = r.pixels.length) :
    Assembled ⟨List.replicate r.split.length true, fun _ => 0⟩ (zeroed room) (probe r pixels h)
      [] :=
  ha _ _ _ _ _ split_probe le_rfl (room_zeroed room)

theorem getD_zeros (k i : ℕ) : (List.replicate k (0 : UInt8)).getD i 0 = 0 := by
  rw [List.getD_eq_getElem?_getD, List.getElem?_getD_replicate_default_eq]

theorem getD_probeInfo {size i : ℕ} (hi : i < 8 ∨ 12 ≤ i) : (probeInfo size).getD i 0 = 0 := by
  rw [probeInfo]
  rcases hi with hi | hi
  · rw [List.getD_append _ _ _ _ (by rw [List.length_replicate]; exact hi)]
    exact getD_zeros 8 i
  · have hlen : (encode32 size).length ≤ i - 8 := by
      show 4 ≤ i - 8
      omega
    rw [List.getD_append_right _ _ _ _ (by rw [List.length_replicate]; omega),
      List.length_replicate, List.getD_append_right _ _ _ _ hlen]
    exact getD_zeros 40 _

theorem getD_take {l : List UInt8} {i : ℕ} (hi : i < k) : (l.take k).getD i 0 = l.getD i 0 := by
  rw [List.getD_eq_getElem?_getD, List.getD_eq_getElem?_getD, List.getElem?_take_of_lt hi]

theorem getD_encodeMessage_ne {i : ℕ} (hi : i ≤ 4) :
    (encodeMessage A_WRTE probeArgs n).getD i 0 ≠ 0 := by
  have hbytes : ∀ i ≤ 4, (encode32 A_WRTE ++ encode32 probeArgs.arg0).getD i 0 ≠ 0 := by decide
  have hlt : i < (encode32 A_WRTE ++ encode32 probeArgs.arg0).length :=
    Nat.lt_of_le_of_lt hi (by decide)
  rw [encodeMessage, List.append_assoc, List.append_assoc, List.append_assoc,
    List.append_assoc, ← List.append_assoc, List.getD_append _ _ _ _ hlt]
  exact hbytes i hi

/-- When the first message ends before the header does, a part of the next message is
taken for the header's. -/
theorem not_assembled_short {room : Option UInt32} (hsplit : r.split = n :: ns)
    (hn : n < sizeofFbinfo) : ¬SplitAssembled r.split room := by
  intro ha
  have hsum := sum_split_eq r
  rw [hsplit, List.sum_cons] at hsum
  obtain ⟨n', ns, rfl⟩ : ∃ n' ns', ns = n' :: ns' := by
    cases ns with
    | nil =>
      rw [List.sum_nil] at hsum
      omega
    | cons n' ns => exact ⟨n', ns, rfl⟩
  have hprobe := probe_assembled ha r.pixels rfl
  have hwrites := writes_probe (h := rfl) hsplit
  rw [List.splitLengths_cons, List.map_cons] at hwrites
  have htake := ((assembled_iff hwrites rfl).mp hprobe).1
  have hlen : ((probeInfo r.pixels.length ++ r.pixels).take n).length = n := by
    rw [List.length_take, List.length_append, show (probeInfo r.pixels.length).length = 52 from rfl]
    unfold sizeofFbinfo at hn
    omega
  -- the byte where the next message begins, or the one behind the field of the size
  have hat (i : ℕ) (hi : i ≤ 4) (hlt : n + i < sizeofFbinfo) :
      (probeInfo r.pixels.length).getD (n + i) 0 ≠ 0 := by
    have hget := congrArg (fun l => l.getD (n + i) 0) htake
    dsimp only at hget
    rw [getD_take hlt, List.getD_append_right _ _ _ _ (by omega), hlen, Nat.add_sub_cancel_left,
      Reply.behind, List.flatMap_cons, Write.encode, List.append_assoc, List.append_assoc,
      List.getD_append _ _ _ _ (by rw [length_encodeMessage]; unfold sizeofMessage; omega)] at hget
    intro hzero
    exact getD_encodeMessage_ne hi (hget.trans hzero)
  by_cases hfield : 8 ≤ n ∧ n < 12
  · have h12 := hat (12 - n) (by omega) (by unfold sizeofFbinfo; omega)
    exact h12 (getD_probeInfo (by omega))
  · exact hat 0 (by omega) hn (getD_probeInfo (by omega))

theorem drop_probe (hn : sizeofFbinfo ≤ n) (size : ℕ) (l : List UInt8) :
    ((probeInfo size ++ pixels).take n ++ l).drop sizeofFbinfo =
      pixels.take (n - sizeofFbinfo) ++ l := by
  have hlen : (probeInfo size).length = sizeofFbinfo := rfl
  rw [List.take_append, List.take_of_length_le (hlen.trans_le hn), hlen, List.append_assoc,
    List.drop_left' hlen]

/-- What a probe comes to where the first message has more than the header: the loop
meets pixels, with memory that is zero. -/
theorem loop_of_assembled {room : Option UInt32} (ha : SplitAssembled r.split room)
    (hsplit : r.split = n :: ns) (hn : sizeofFbinfo ≤ n) (h : pixels.length = r.pixels.length) :
    ∃ (k : ℕ) (message adbbuf : List UInt8) (data : List (List UInt8)) (m b : List UInt8)
      (s' : Arrivals UInt8),
      command message ≠ A_CLSE ∧ adbbuf.length < 2 ^ 32 ∧ (∀ x ∈ adbbuf, x = 0) ∧
        (nextMessage (readMessages (List.replicate k true)) 0 message adbbuf).Yields
          [some (pixels.take (n - sizeofFbinfo) ++
            Reply.behind (data.map fun d => ⟨probeArgs, d⟩) probeArgs [])] (m, b) s' ∧
        b.take pixels.length = pixels := by
  have hprobe := probe_assembled ha pixels h
  obtain ⟨-, m, b, s', hloop, hb⟩ := (assembled_iff (writes_probe hsplit) rfl).mp hprobe
  rw [drop_probe hn, hsplit] at hloop
  refine ⟨ns.length, _, _, _, m, b, s', ?_, ?_, ?_, hloop, hb⟩
  · exact command_opening
  · rw [length_room (room_zeroed room)]
    exact room_lt (length_pixels_lt (probe r pixels h))
  · intro x hx
    exact mem_zeroed hx

/-- When pixels of the first message are taken for a message, and look like the last one,
the rest is not read. -/
theorem not_assembled_long {room : Option UInt32} (hsplit : r.split = n :: ns)
    (hn : sizeofFbinfo + 4 ≤ n) : ¬SplitAssembled r.split room := by
  intro ha
  have hsum := sum_split_eq r
  rw [hsplit, List.sum_cons] at hsum
  set zeros : List UInt8 := List.replicate (r.pixels.length - 4) 0 with hzeros
  have hpixels : (encode32 A_CLSE ++ zeros).length = r.pixels.length := by
    rw [List.length_append, hzeros, List.length_replicate]
    show 4 + _ = _
    omega
  obtain ⟨k, message, adbbuf, data, m, b, s', hcmd, -, hzero, hloop, hb⟩ :=
    loop_of_assembled ha hsplit (by omega) hpixels
  have htake : (encode32 A_CLSE ++ zeros).take (n - sizeofFbinfo) =
      encode32 A_CLSE ++ zeros.take (n - sizeofFbinfo - 4) := by
    rw [List.take_append, List.take_of_length_le]
    · rfl
    · show 4 ≤ _
      omega
  rw [htake, List.append_assoc] at hloop
  set behind := Reply.behind (data.map fun d => ⟨probeArgs, d⟩) probeArgs [] with hbehind
  set l := encode32 A_CLSE ++ (zeros.take (n - sizeofFbinfo - 4) ++ behind) with hl
  have hlen : (l.take sizeofMessage).length = sizeofMessage := by
    have hle : _ ≤ behind.length := length_behind (data.map fun d => ⟨probeArgs, d⟩) probeArgs []
    rw [List.length_take, min_eq_left]
    rw [hl, List.length_append, List.length_append]
    omega
  have hclse : command (overlay message 0 (l.take sizeofMessage)) = A_CLSE := by
    rw [overlay_zero]
    exact field_encode32 (by decide) rfl
  have hclose : (nextMessage (readMessages (List.replicate k true)) 0 message adbbuf).Yields
      [some (l.take sizeofMessage ++ l.drop sizeofMessage)] (_, adbbuf) _ :=
    nextMessage_close hlen hcmd hclse
  rw [List.take_append_drop] at hclose
  obtain rfl : adbbuf = b := congrArg Prod.snd (hclose.unique hloop).1
  have hmem : UInt8.ofNat A_CLSE ∈ adbbuf := by
    apply List.mem_of_mem_take
    rw [hb]
    exact List.mem_cons_self
  exact absurd (hzero _ hmem) (by decide)

/-! A piece of the next message in the place of a length. -/

/-- What comes behind the data of a message begins with the fields of another. -/
theorem exists_behind (data : List (List UInt8)) (args : Args) (rest : List UInt8) :
    ∃ x m l, (x = A_WRTE ∨ x = A_CLSE) ∧
      Reply.behind (data.map fun d => ⟨args, d⟩) args rest = encodeMessage x args m ++ l := by
  cases data with
  | nil => exact ⟨A_CLSE, 0, rest, .inr rfl, rfl⟩
  | cons d data =>
    refine ⟨A_WRTE, d.length, d ++ Reply.behind (data.map fun d => ⟨args, d⟩) args rest,
      .inl rfl, ?_⟩
    rw [Reply.behind, List.map_cons, List.flatMap_cons, Write.encode, List.append_assoc,
      List.append_assoc]
    rfl

theorem head?_readSocket {size n : ℕ} {offset : ℤ} {obj obj' : List UInt8} {s s' : Arrivals UInt8}
    (hobj : obj.length = size) (hoff : offset ≠ 0)
    (h : (readSocket size offset n obj).Yields s obj' s') : obj'.head? = obj.head? := by
  refine (readLoop_yields (P := fun b => b.length = size ∧ b.head? = obj.head?) ?_
    ⟨hobj, rfl⟩ h).2.2
  rintro b piece h0 hle ⟨hlen, hhead⟩
  refine ⟨?_, ?_⟩
  · rw [length_overlay (by omega), hlen]
  · rw [head?_overlay (by omega) (by omega), hhead]

/-- What is read to the start begins with the next byte. -/
theorem head?_of_read {size n : ℕ} {obj obj' l : List UInt8} {x : UInt8} {s' : Arrivals UInt8}
    (hn : n ≠ 0) (h : (readSocket size 0 n obj).Yields [some (x :: l)] obj' s') :
    obj'.head? = some x := by
  obtain ⟨n, rfl⟩ := Nat.exists_eq_succ_of_ne_zero hn
  have hsegs : (readSocket size 0 (n + 1) obj).Yields ([x :: l].map some) obj' s' := h
  obtain ⟨y, hy, rfl, -⟩ := (yields_readSocket (inside_of_yields h)).mp hsegs
  rw [pieces] at hy
  split_ifs at hy with hlt
  · obtain ⟨j, hj⟩ := Nat.exists_eq_succ_of_ne_zero (Nat.sub_ne_zero_of_lt hlt)
    rw [hj] at hy
    cases hy
  · cases hy
    rfl

/-- Once data was read, the first byte stays. -/
theorem head?_nextMessage {c : ℕ} {message adbbuf : List UInt8} {s s' : Arrivals UInt8}
    {written : ℤ → List UInt8 → List UInt8 → Reader UInt8 (List UInt8 × List UInt8)}
    {r : List UInt8 × List UInt8}
    (h : ∀ (c : ℕ) m b s r s', b.length < 2 ^ 32 → 0 < c → c ≤ b.length →
      (written ((c : ℤ).bmod (2 ^ 32)) m b).Yields s r s' → r.2.head? = b.head?)
    (hlt : adbbuf.length < 2 ^ 32) (h0 : 0 < c) (hc : c ≤ adbbuf.length)
    (hy : (nextMessage written ((c : ℤ).bmod (2 ^ 32)) message adbbuf).Yields s r s') :
    r.2.head? = adbbuf.head? := by
  unfold nextMessage at hy
  split_ifs at hy with hclse
  · rw [← (Reader.yields_pure.mp hy).1]
  · obtain ⟨m, t, -, hy⟩ := Reader.yields_bind.mp hy
    split_ifs at hy with hclse'
    · rw [← (Reader.yields_pure.mp hy).1]
    · obtain ⟨b, u, hread, hy⟩ := Reader.yields_bind.mp hy
      have hoff : (c : ℤ).bmod (2 ^ 32) ≠ 0 := by
        rw [Int.bmod_def]
        split_ifs <;> omega
      have hfit := (inside_bmod_iff hlt hc).mp (inside_of_yields hread)
      have hlen := length_readSocket rfl hread
      have hle : c + dataLength m ≤ adbbuf.length := by
        by_cases hn : dataLength m = 0
        · omega
        · exact (hfit hn).2
      rw [Int.bmod_add_bmod, ← Nat.cast_add] at hy
      rw [h _ _ _ _ _ _ (by omega) (by omega) (by omega) hy, head?_readSocket rfl hoff hread]

theorem head?_readMessages (sent : List Bool) :
    ∀ (c : ℕ) (m b : List UInt8) (s : Arrivals UInt8) (r : List UInt8 × List UInt8)
      (s' : Arrivals UInt8), b.length < 2 ^ 32 → 0 < c → c ≤ b.length →
        (readMessages sent ((c : ℤ).bmod (2 ^ 32)) m b).Yields s r s' →
          r.2.head? = b.head? := by
  induction sent with
  | nil =>
    intro c m b s r s' hlt h0 hc
    apply head?_nextMessage _ hlt h0 hc
    intro c m b s r s' _ _ _ hy
    exact absurd hy Reader.not_yields_waiting
  | cons ok sent ih =>
    intro c m b s r s' hlt h0 hc
    cases ok with
    | false =>
      apply head?_nextMessage _ hlt h0 hc
      intro c m b s r s' _ _ _ hy
      rw [← (Reader.yields_pure.mp hy).1]
    | true => exact head?_nextMessage ih hlt h0 hc

/-- What the first data begins with is what `adbbuf` begins with in the end. -/
theorem head?_of_first {sent : List Bool} {message adbbuf l rest : List UInt8} {x : UInt8}
    {r : List UInt8 × List UInt8} {s' : Arrivals UInt8} (hlt : adbbuf.length < 2 ^ 32)
    (hl : l.length = sizeofMessage) (hcmd : command message ≠ A_CLSE)
    (hne : command (overlay message 0 l) ≠ A_CLSE) (hdata : dataLength (overlay message 0 l) ≠ 0)
    (h : (nextMessage (readMessages sent) 0 message adbbuf).Yields [some (l ++ x :: rest)] r s') :
    r.2.head? = some x := by
  obtain ⟨b, t, hread, hloop⟩ := (nextMessage_read hl hcmd hne).mp h
  have hle := ((inside_of_yields hread).resolve_left hdata).2
  dsimp only at hle
  have hlen := length_readSocket rfl hread
  rw [zero_add] at hloop
  rw [head?_readMessages sent _ _ _ _ _ _ (by omega) (Nat.pos_of_ne_zero hdata) (by omega) hloop]
  exact head?_of_read hdata hread

theorem field_ne {obj : List UInt8} {i v : ℕ} (h : (obj.getD (4 * i) 0).toNat ≠ v % 256) :
    field obj i ≠ v := by
  have hlt : (obj.getD (4 * i) 0).toNat < 256 := UInt8.toNat_lt _
  rintro rfl
  apply h
  unfold field
  omega

theorem getD_encode32_ne {x i : ℕ} (hx : x = A_WRTE ∨ x = A_CLSE) (hi : i < 4) :
    (encode32 (0xffffffff - x)).getD i 0 ≠ 0 := by
  have hwrte : ∀ i < 4, (encode32 (0xffffffff - A_WRTE)).getD i 0 ≠ 0 := by decide
  have hclse : ∀ i < 4, (encode32 (0xffffffff - A_CLSE)).getD i 0 ≠ 0 := by decide
  rcases hx with rfl | rfl
  · exact hwrte i hi
  · exact hclse i hi

/-- The bytes of a message that is taken to begin up to three bytes early. -/
theorem bytes_between {e x : ℕ} (hx : x = A_WRTE ∨ x = A_CLSE) (h0 : 0 < e) (he : e < 4) :
    (List.replicate e 0 ++ encodeMessage x probeArgs n).getD 0 0 = 0 ∧
      (List.replicate e 0 ++ encodeMessage x probeArgs n).getD 12 0 = 1 ∧
        (List.replicate e 0 ++ encodeMessage x probeArgs n).getD 24 0 ≠ 0 := by
  obtain rfl | rfl | rfl : e = 1 ∨ e = 2 ∨ e = 3 := by omega
  · exact ⟨rfl, rfl, @getD_encode32_ne x 3 hx (by decide)⟩
  · exact ⟨rfl, rfl, @getD_encode32_ne x 2 hx (by decide)⟩
  · exact ⟨rfl, rfl, @getD_encode32_ne x 1 hx (by decide)⟩

/-- When one to three pixels are left of the first message, the length that follows is
made of other fields, and what is read for it is no pixel. -/
theorem not_assembled_between {room : Option UInt32} (hsplit : r.split = n :: ns)
    (hlow : sizeofFbinfo < n) (hhigh : n < sizeofFbinfo + 4) : ¬SplitAssembled r.split room := by
  intro ha
  have hsum := sum_split_eq r
  rw [hsplit, List.sum_cons] at hsum
  obtain ⟨k, message, adbbuf, data, m, b, s', hcmd, hlt, -, hloop, hb⟩ :=
    loop_of_assembled ha hsplit hlow.le
      (List.length_replicate : (List.replicate r.pixels.length (0 : UInt8)).length = _)
  rw [List.length_replicate] at hb
  obtain ⟨x, dl, l, hx, hbehind⟩ := exists_behind data probeArgs []
  obtain ⟨e, rfl⟩ : ∃ e, n = sizeofFbinfo + e := ⟨n - sizeofFbinfo, by omega⟩
  rw [hbehind, Nat.add_sub_cancel_left, List.take_replicate, min_eq_left (by omega),
    ← List.append_assoc] at hloop
  obtain ⟨hfirst, hlength, hmagic⟩ := @bytes_between dl e x hx (by omega) (by omega)
  set bytes := List.replicate e 0 ++ encodeMessage x probeArgs dl with hbytes
  have hlen : bytes.length = e + sizeofMessage := by
    rw [hbytes, List.length_append, List.length_replicate, length_encodeMessage]
  have htake : (bytes.take sizeofMessage).length = sizeofMessage := by
    rw [List.length_take, hlen]
    omega
  have hget (i : ℕ) (hi : i < sizeofMessage) :
      (overlay message 0 (bytes.take sizeofMessage)).getD i 0 = bytes.getD i 0 := by
    rw [overlay_zero, List.getD_append _ _ _ _ (by omega), getD_take hi]
  have hcommand : command (overlay message 0 (bytes.take sizeofMessage)) ≠ A_CLSE := by
    apply field_ne
    rw [hget _ (by decide), hfirst]
    decide
  have hdata : dataLength (overlay message 0 (bytes.take sizeofMessage)) ≠ 0 := by
    apply field_ne
    rw [hget _ (by decide), hlength]
    decide
  have hdrop : bytes.drop sizeofMessage = bytes.getD 24 0 :: bytes.drop 25 := by
    rw [List.getD_eq_getElem _ _ (show 24 < bytes.length by rw [hlen]; unfold sizeofMessage; omega)]
    exact List.drop_eq_getElem_cons _
  -- the first byte is one of the magic number
  rw [← List.take_append_drop sizeofMessage bytes, hdrop, List.append_assoc,
    List.cons_append] at hloop
  have hhead := head?_of_first hlt htake hcmd hcommand hdata hloop
  have hzero : (b.take r.pixels.length).getD 0 0 = (List.replicate r.pixels.length 0).getD 0 0 :=
    congrArg (fun l => l.getD 0 0) hb
  rw [getD_take (by omega), getD_zeros, List.getD_eq_getElem?_getD, ← List.head?_eq_getElem?,
    show b.head? = _ from hhead] at hzero
  exact hmagic hzero

end Probe

/-- A split is assembled exactly where it fits. -/
theorem splitAssembled_iff (r : Reply) (room : Option UInt32) :
    SplitAssembled r.split room ↔ SplitFits r.split room := by
  constructor
  · intro ha
    obtain ⟨n, ns, hsplit⟩ : ∃ n ns, r.split = n :: ns := by
      cases h : r.split with
      | nil =>
        have hsum := sum_split_eq r
        rw [h, List.sum_nil] at hsum
        exact absurd hsum (by unfold sizeofFbinfo; omega)
      | cons n ns => exact ⟨n, ns, rfl⟩
    rcases lt_trichotomy n sizeofFbinfo with hlt | heq | hgt
    · exact absurd ha (not_assembled_short hsplit hlt)
    · have hprobe := probe_assembled ha r.pixels rfl
      rw [← split_probe (h := rfl)]
      apply fits_of_assembled (writes_probe hsplit) _ _ (room_zeroed room) hprobe
      · rw [List.length_take, min_eq_left]
        · exact heq
        · rw [List.length_append, heq]
          exact Nat.le_add_right _ _
      · rw [split_probe]
    · by_cases hlong : sizeofFbinfo + 4 ≤ n
      · exact absurd ha (not_assembled_long hsplit hlong)
      · exact absurd ha (not_assembled_between hsplit hgt (by omega))
  · intro hfit r' junk k a rest hsplit hk hroom
    rw [← hsplit] at hfit hk
    exact assembled_of_fits hfit hk hroom

/-- Replies are assembled when they are split behind their header and fit, and the reads
of a session stay inside when what the peer announces fits. -/
theorem frame_assembly_iff (r : Reply) (room : Option UInt32) (junk : ℕ → UInt8)
    (calls : List Call) (segs : List (List UInt8)) :
    (SplitAssembled r.split room ↔ SplitFits r.split room) ∧
      ((session junk calls).Safe (segs.map some) ↔ (announcement junk calls segs).Fits) :=
  ⟨splitAssembled_iff r room, safe_session junk calls segs⟩

/-- A frame of eight bytes in a single message. -/
def oneMessage : Reply where
  okay := probeArgs
  writes := [⟨probeArgs, probeInfo 8 ++ [1, 2, 3, 4, 5, 6, 7, 8]⟩]
  close := probeArgs
  info := probeInfo 8
  pixels := [1, 2, 3, 4, 5, 6, 7, 8]
  length_info := rfl
  size_info := by decide
  payload := rfl
  length_lt := by
    intro w hw
    rw [List.mem_singleton.mp hw]
    decide

/-- A frame of four bytes, and then one of eight. -/
def growing : List UInt8 :=
  encodeMessage A_CNXN probeArgs 0 ++
    (encodeMessage A_OKAY probeArgs 0 ++
      Reply.behind [⟨probeArgs, probeInfo 4⟩, ⟨probeArgs, [1, 2, 3, 4]⟩] probeArgs
        (encodeMessage A_OKAY probeArgs 0 ++
          Reply.behind [⟨probeArgs, probeInfo 8⟩, ⟨probeArgs, [1, 2, 3, 4, 5, 6, 7, 8]⟩]
            probeArgs []))

/-- The first is never assembled, and the second is written beyond the buffer of four. -/
theorem not_frame_assembly :
    (¬Assembled ⟨[true, true], fun _ => 0⟩ (zeroed none) oneMessage []) ∧
      ¬(session (fun _ => 0) [⟨[true, true], fun _ => 0⟩, ⟨[true, true], fun _ => 0⟩]).Safe
        [some growing] := by
  have hwaits : (readBufferADB ⟨[true, true], fun _ => 0⟩ (zeroed none)
      [some (oneMessage.encode [])]).2 = none := by decide +kernel
  refine ⟨?_, by decide +kernel⟩
  rintro ⟨a', s', hy, -⟩
  cases hwaits.symm.trans hy

end DroidVnc.Grabber.Adb
