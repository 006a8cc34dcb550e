import DroidVnc.Grabber.Adb

/-! The reads of `readBufferADB`. The framing of what arrives, told apart from the
memory that the data goes to, announces all lengths; a session is safe when what is
announced fits, and only then. -/

namespace DroidVnc.Grabber.Adb

open Receive

/-! ### What the peer announces -/

/-- An object after `n` bytes were read to its start, and what is left. -/
def refill (old : List UInt8) (n : ℕ) (segs : List (List UInt8)) :
    Option (List UInt8 × List (List UInt8)) :=
  (pieces segs n).map fun x => (x.1.foldl (fun b piece => overlay b 0 piece) old, x.2)

/-- The lengths that the messages of a frame announce, and the last message with what
is left after it. -/
abbrev Announced := List ℕ × Option (List UInt8 × List (List UInt8))

def nextLength (written : List UInt8 → List (List UInt8) → Announced)
    (message : List UInt8) (segs : List (List UInt8)) : Announced :=
  if command message = A_CLSE then ([], some (message, segs))
  else
    match refill message sizeofMessage segs with
    | none => ([], none)
    | some (message, segs) =>
      if command message = A_CLSE then ([], some (message, segs))
      else
        match pieces segs (dataLength message) with
        | none => ([dataLength message], none)
        | some (_, segs) =>
          (dataLength message :: (written message segs).1, (written message segs).2)

/-- The messages of a frame, whatever memory their data goes to. -/
def lengths : List Bool → List UInt8 → List (List UInt8) → Announced
  | [] => nextLength fun _ _ => ([], none)
  | false :: _ => nextLength fun message segs => ([], some (message, segs))
  | true :: sent => nextLength (lengths sent)

/-- A frame as it is announced: `displayInfo.size`, and the lengths of its messages. -/
structure Frame where
  size : ℕ
  lengths : List ℕ
  deriving DecidableEq, Repr

/-- `displayInfo` and the message before it. -/
def header (junk : ℕ → UInt8) (message : List UInt8) (segs : List (List UInt8)) :
    Option (List UInt8 × List UInt8 × List (List UInt8)) := do
  let okay ← pieces segs sizeofMessage
  let m ← refill message sizeofMessage okay.2
  let d ← refill (malloc junk sizeofFbinfo) sizeofFbinfo m.2
  return (d.1, m.1, d.2)

def frames : List Call → List UInt8 → List (List UInt8) → List Frame
  | [], _, _ => []
  | c :: calls, message, segs =>
    match header c.junk message segs with
    | none => []
    | some (displayInfo, message, segs) =>
      ⟨sizeField displayInfo, (lengths c.sent message segs).1⟩ ::
        match (lengths c.sent message segs).2 with
        | none => []
        | some (message, segs) => frames calls message segs

/-- What the peer announces in a session: the length in the reply to the connection,
and the frames. -/
structure Announcement where
  connect : Option ℕ
  frames : List Frame
  deriving DecidableEq, Repr

def announcement (junk : ℕ → UInt8) (calls : List Call) (segs : List (List UInt8)) :
    Announcement :=
  match refill (malloc junk sizeofMessage) sizeofMessage segs with
  | none => ⟨none, []⟩
  | some (reply, segs) =>
    match refill reply (dataLength reply) segs with
    | none => ⟨some (dataLength reply), []⟩
    | some (message, segs) => ⟨some (dataLength reply), frames calls message segs⟩

/-- From the offset `c` on, every message with data begins below 2 GiB, where an `int`
still counts, and ends inside `alloc` bytes. -/
def FitFrom (alloc : ℕ) : ℕ → List ℕ → Prop
  | _, [] => True
  | c, n :: ns => (n ≠ 0 → c < 2 ^ 31 ∧ c + n ≤ alloc) ∧ FitFrom alloc (c + n) ns

/-- The size of `adbbuf`: that of the first frame, unless it has one before. -/
def allocated (room : Option ℕ) (fs : List Frame) : ℕ :=
  room.getD ((fs.head?.map Frame.size).getD 0)

def FramesFit (room : Option ℕ) (fs : List Frame) : Prop :=
  ∀ f ∈ fs, FitFrom (allocated room fs) 0 f.lengths

/-- The reply to the connection fits in a message, and every frame in the first one. -/
def Announcement.Fits (x : Announcement) : Prop :=
  (∀ n ∈ x.connect, n ≤ sizeofMessage) ∧ FramesFit none x.frames

theorem field_lt (obj : List UInt8) (i : ℕ) : field obj i < 2 ^ 32 := by
  have h (k : ℕ) : (obj.getD k 0).toNat < 256 := UInt8.toNat_lt _
  have h0 := h (4 * i)
  have h1 := h (4 * i + 1)
  have h2 := h (4 * i + 2)
  have h3 := h (4 * i + 3)
  unfold field
  omega

@[simp] theorem length_malloc (junk : ℕ → UInt8) (n : ℕ) : (malloc junk n).length = n := by
  rw [malloc, List.length_map, List.length_range]

/-! ### The reads follow the announcement -/

section Safety

variable {alloc c n k : ℕ} {message adbbuf old m : List UInt8} {segs rest : List (List UInt8)}
  {s' : Arrivals UInt8}

theorem safe_readSocket_zero (h : n ≤ k) : (readSocket k 0 n old).Safe (segs.map some) :=
  safe_readSocket.mpr (.inr (inside_zero h))

theorem not_safe_readSocket_zero (h : k < n) :
    ¬(readSocket k 0 n old).Safe (segs.map some) := by
  intro hs
  rcases safe_readSocket.mp hs with h0 | ⟨-, hle⟩
  · omega
  · dsimp only at hle
    omega

theorem yields_refill (h : n ≤ k) :
    (readSocket k 0 n old).Yields (segs.map some) m s' ↔
      ∃ rest, refill old n segs = some (m, rest) ∧ rest.map some = s' := by
  rw [yields_readSocket (.inr (inside_zero h))]
  unfold refill
  simp only [Option.map_eq_some_iff, Prod.mk.injEq]
  constructor
  · rintro ⟨x, hx, hm, hs⟩
    exact ⟨x.2, ⟨x, hx, hm, rfl⟩, hs⟩
  · rintro ⟨rest, ⟨x, hx, hm, rfl⟩, hs⟩
    exact ⟨x, hx, hm, hs⟩

/-- Where `count`, an `int`, directs a read of data. -/
theorem inside_bmod_iff (halloc : alloc < 2 ^ 32) (hc : c ≤ alloc) :
    (n = 0 ∨ (Read.mk alloc ((c : ℤ).bmod (2 ^ 32)) n).Inside) ↔
      (n ≠ 0 → c < 2 ^ 31 ∧ c + n ≤ alloc) := by
  have hmod : (c : ℤ).bmod (2 ^ 32) = if c < 2 ^ 31 then (c : ℤ) else c - 2 ^ 32 := by
    rw [Int.bmod_def]
    split_ifs <;> omega
  unfold Read.Inside
  dsimp only
  rw [hmod]
  split_ifs with h
  · omega
  · omega

/-- A loop that reads as the announcement `q` of a frame says, from the offset `c` on. -/
structure Follows (alloc c : ℕ) (p : Reader UInt8 (List UInt8 × List UInt8))
    (segs : List (List UInt8)) (q : Announced) : Prop where
  safe_iff : p.Safe (segs.map some) ↔ FitFrom alloc c q.1
  of_yields : ∀ r s', p.Yields (segs.map some) r s' →
    r.2.length = alloc ∧ ∃ rest, q.2 = some (r.1, rest) ∧ rest.map some = s'
  yields : ∀ m rest, p.Safe (segs.map some) → q.2 = some (m, rest) →
    ∃ adbbuf, p.Yields (segs.map some) (m, adbbuf) (rest.map some)

theorem follows_pure (h : adbbuf.length = alloc) :
    Follows alloc c (pure (message, adbbuf)) segs ([], some (message, segs)) where
  safe_iff := iff_of_true Reader.safe_pure trivial
  of_yields := by
    intro r s' hr
    obtain ⟨rfl, rfl⟩ := Reader.yields_pure.mp hr
    exact ⟨h, segs, rfl, rfl⟩
  yields := by
    intro m rest _ hq
    cases hq
    exact ⟨adbbuf, Reader.yields_pure.mpr ⟨rfl, rfl⟩⟩

theorem follows_waiting : Follows alloc c Reader.waiting segs ([], none) where
  safe_iff := iff_of_true Reader.safe_waiting trivial
  of_yields := fun _ _ hr => absurd hr Reader.not_yields_waiting
  yields := by
    intro m rest _ hq
    cases hq

/-- A read that is safe and goes through is not seen in the announcement. -/
theorem Follows.bind {α : Type} {p : Reader UInt8 α}
    {f : α → Reader UInt8 (List UInt8 × List UInt8)} {a : α} {q : Announced}
    (hp : p.Safe (segs.map some)) (hy : p.Yields (segs.map some) a (rest.map some))
    (h : Follows alloc c (f a) rest q) : Follows alloc c (p >>= f) segs q where
  safe_iff := by
    rw [hy.safe_bind, h.safe_iff]
    exact and_iff_right hp
  of_yields := by
    intro r s' hr
    exact h.of_yields r s' (hy.yields_bind.mp hr)
  yields := by
    intro m rest' hs hq
    obtain ⟨adbbuf, hb⟩ := h.yields m rest' (hy.safe_bind.mp hs).2 hq
    exact ⟨adbbuf, hy.yields_bind.mpr hb⟩

/-- A read that is safe but still waits is the end of the announcement. -/
theorem follows_blocked {α : Type} {p : Reader UInt8 α}
    {f : α → Reader UInt8 (List UInt8 × List UInt8)} {ns : List ℕ}
    (hp : p.Safe (segs.map some)) (hnone : ∀ a s', ¬p.Yields (segs.map some) a s')
    (hfit : FitFrom alloc c ns) : Follows alloc c (p >>= f) segs (ns, none) where
  safe_iff := by
    refine iff_of_true (Reader.safe_bind.mpr ⟨hp, ?_⟩) hfit
    intro a s' ha
    exact absurd ha (hnone a s')
  of_yields := by
    intro r s' hr
    obtain ⟨a, t, ha, -⟩ := Reader.yields_bind.mp hr
    exact absurd ha (hnone a t)
  yields := by
    intro m rest _ hq
    cases hq

/-- A read that goes outside is the last, and no announcement that it follows fits. -/
theorem follows_outside {α : Type} {p : Reader UInt8 α}
    {f : α → Reader UInt8 (List UInt8 × List UInt8)} {q : Announced} (hguard : p.Guarded)
    (hout : ¬p.Safe (segs.map some)) (hfit : ¬FitFrom alloc c q.1) :
    Follows alloc c (p >>= f) segs q where
  safe_iff := iff_of_false (fun hs => hout (Reader.safe_bind.mp hs).1) hfit
  of_yields := by
    intro r s' hr
    obtain ⟨a, t, ha, -⟩ := Reader.yields_bind.mp hr
    exact absurd (hguard _ a t ha) hout
  yields := by
    intro m rest hs _
    exact absurd (Reader.safe_bind.mp hs).1 hout

/-- The data of one message. It is read where the lengths before it put it, and what
follows goes on behind it. -/
theorem follows_data
    {written : ℤ → List UInt8 → List UInt8 → Reader UInt8 (List UInt8 × List UInt8)}
    {again : List UInt8 → List (List UInt8) → Announced}
    (halloc : alloc < 2 ^ 32) (hbuf : adbbuf.length = alloc) (hc : c ≤ alloc)
    (h : ∀ c' m b segs, b.length = alloc → c' ≤ alloc →
      Follows alloc c' (written ((c' : ℤ).bmod (2 ^ 32)) m b) segs (again m segs)) :
    Follows alloc c
      (readSocket adbbuf.length ((c : ℤ).bmod (2 ^ 32)) n adbbuf >>= fun b =>
        written (((c : ℤ).bmod (2 ^ 32) + n).bmod (2 ^ 32)) message b)
      segs
      (match pieces segs n with
        | none => ([n], none)
        | some (_, segs) => (n :: (again message segs).1, (again message segs).2)) := by
  have hcount : ((c : ℤ).bmod (2 ^ 32) + n).bmod (2 ^ 32) = ((c + n : ℕ) : ℤ).bmod (2 ^ 32) := by
    rw [Int.bmod_add_bmod, Nat.cast_add]
  rw [hcount, hbuf]
  set p : Reader UInt8 (List UInt8) := readSocket alloc ((c : ℤ).bmod (2 ^ 32)) n adbbuf with hp
  have hsafe : p.Safe (segs.map some) ↔ (n ≠ 0 → c < 2 ^ 31 ∧ c + n ≤ alloc) := by
    rw [hp, safe_readSocket, inside_bmod_iff halloc hc]
  by_cases hfit : n ≠ 0 → c < 2 ^ 31 ∧ c + n ≤ alloc
  · have hin := (inside_bmod_iff halloc hc).mpr hfit
    cases hpieces : pieces segs n with
    | none =>
      refine follows_blocked (hsafe.mpr hfit) ?_ ⟨hfit, trivial⟩
      intro b s' hb
      obtain ⟨x, hx, -⟩ := (yields_readSocket hin).mp hb
      cases hpieces.symm.trans hx
    | some x =>
      have hy : p.Yields (segs.map some) _ _ := (yields_readSocket hin).mpr ⟨x, hpieces, rfl, rfl⟩
      have hlen := length_readSocket hbuf hy
      have hc' : c + n ≤ alloc := by
        by_cases h0 : n = 0
        · omega
        · exact (hfit h0).2
      have hnext := h (c + n) message _ x.2 hlen hc'
      refine ⟨?_, ?_, ?_⟩
      · rw [hy.safe_bind, hnext.safe_iff]
        exact and_congr_left fun _ => hsafe
      · intro r s' hr
        exact hnext.of_yields r s' (hy.yields_bind.mp hr)
      · intro m rest hs hq
        obtain ⟨b, hb⟩ := hnext.yields m rest (hy.safe_bind.mp hs).2 hq
        exact ⟨b, hy.yields_bind.mpr hb⟩
  · have hout : ¬p.Safe (segs.map some) := fun hs => hfit (hsafe.mp hs)
    apply follows_outside guarded_readSocket hout
    cases pieces segs n with
    | none => exact fun hq => hfit hq.1
    | some x => exact fun hq => hfit hq.1

theorem follows_nextMessage
    {written : ℤ → List UInt8 → List UInt8 → Reader UInt8 (List UInt8 × List UInt8)}
    {again : List UInt8 → List (List UInt8) → Announced}
    (halloc : alloc < 2 ^ 32) (hbuf : adbbuf.length = alloc) (hc : c ≤ alloc)
    (h : ∀ c' m b segs, b.length = alloc → c' ≤ alloc →
      Follows alloc c' (written ((c' : ℤ).bmod (2 ^ 32)) m b) segs (again m segs)) :
    Follows alloc c (nextMessage written ((c : ℤ).bmod (2 ^ 32)) message adbbuf) segs
      (nextLength again message segs) := by
  unfold nextMessage nextLength
  split_ifs with hclse
  · exact follows_pure hbuf
  · have hsafe : (readSocket sizeofMessage 0 sizeofMessage message).Safe (segs.map some) :=
      safe_readSocket_zero le_rfl
    cases hm : refill message sizeofMessage segs with
    | none =>
      refine follows_blocked hsafe ?_ trivial
      intro b s' hb
      obtain ⟨rest, hrest, -⟩ := (yields_refill le_rfl).mp hb
      cases hm.symm.trans hrest
    | some x =>
      have hy := (yields_refill (k := sizeofMessage) le_rfl).mpr ⟨x.2, hm, rfl⟩
      apply Follows.bind hsafe hy
      dsimp only
      split_ifs with hclse'
      · exact follows_pure hbuf
      · exact follows_data halloc hbuf hc h

/-- The loop directs its reads as announced. -/
theorem follows_readMessages (halloc : alloc < 2 ^ 32) (sent : List Bool) :
    ∀ (c : ℕ) (message adbbuf : List UInt8) (segs : List (List UInt8)),
      adbbuf.length = alloc → c ≤ alloc →
        Follows alloc c (readMessages sent ((c : ℤ).bmod (2 ^ 32)) message adbbuf) segs
          (lengths sent message segs) := by
  induction sent with
  | nil =>
    intro c message adbbuf segs hbuf hc
    exact follows_nextMessage halloc hbuf hc fun _ _ _ _ _ _ => follows_waiting
  | cons ok sent ih =>
    intro c message adbbuf segs hbuf hc
    cases ok with
    | false => exact follows_nextMessage halloc hbuf hc fun _ _ _ _ hb _ => follows_pure hb
    | true => exact follows_nextMessage halloc hbuf hc ih

/-! ### Frames and sessions -/

variable {junk : ℕ → UInt8} {calls : List Call} {a a' : Globals} {d : List UInt8}

theorem safe_sendFramebufferString : (sendFramebufferString junk a).Safe (segs.map some) := by
  have hsafe (obj : List UInt8) (n : ℕ) (segs : List (List UInt8)) :
      (readSocket n 0 n obj).Safe (segs.map some) := safe_readSocket_zero le_rfl
  unfold sendFramebufferString
  refine Reader.safe_bind.mpr ⟨hsafe _ _ _, fun okay s₁ h₁ => ?_⟩
  obtain ⟨segs₁, -, rfl⟩ := (yields_refill le_rfl).mp h₁
  refine Reader.safe_bind.mpr ⟨hsafe _ _ _, fun m s₂ h₂ => ?_⟩
  obtain ⟨segs₂, -, rfl⟩ := (yields_refill le_rfl).mp h₂
  exact Reader.safe_bind.mpr ⟨hsafe _ _ _, fun d s₃ _ => Reader.safe_pure⟩

/-- What is read before the loop is what the announcement takes for it. -/
theorem yields_sendFramebufferString
    (h : header junk a.message segs = some (d, m, rest)) :
    ∃ okay, (sendFramebufferString junk a).Yields (segs.map some)
      { message := m
        okayMessage := swapArgs okay
        displayInfo := d
        adbbuf := some (a.adbbuf.getD (malloc junk (sizeField d))) }
      (rest.map some) := by
  unfold header at h
  simp only [Option.bind_eq_bind, Option.bind_eq_some_iff, Option.pure_def, Option.some.injEq,
    Prod.mk.injEq] at h
  obtain ⟨okay, hokay, ⟨m, segs₂⟩, hm, ⟨d, segs₃⟩, hd, rfl, rfl, rfl⟩ := h
  have hy₁ : (readSocket sizeofMessage 0 sizeofMessage a.okayMessage).Yields _ _ _ :=
    (yields_readSocket (.inr (inside_zero le_rfl))).mpr ⟨okay, hokay, rfl, rfl⟩
  have hy₂ := (yields_refill (k := sizeofMessage) le_rfl).mpr ⟨segs₂, hm, rfl⟩
  have hy₃ := (yields_refill (k := sizeofFbinfo) le_rfl).mpr ⟨segs₃, hd, rfl⟩
  refine ⟨okay.1.foldl (fun b piece => overlay b 0 piece) a.okayMessage, ?_⟩
  apply hy₁.yields_bind.mpr
  apply hy₂.yields_bind.mpr
  apply hy₃.yields_bind.mpr
  exact Reader.yields_pure.mpr ⟨rfl, rfl⟩

theorem not_yields_sendFramebufferString (h : header junk a.message segs = none) :
    ¬(sendFramebufferString junk a).Yields (segs.map some) a' s' := by
  intro hy
  unfold sendFramebufferString at hy
  obtain ⟨okay, s₁, h₁, hy⟩ := Reader.yields_bind.mp hy
  obtain ⟨x, hx, -, rfl⟩ := (yields_readSocket (.inr (inside_zero le_rfl))).mp h₁
  obtain ⟨m, s₂, h₂, hy⟩ := Reader.yields_bind.mp hy
  obtain ⟨segs₂, hm, rfl⟩ := (yields_refill le_rfl).mp h₂
  obtain ⟨d, s₃, h₃, -⟩ := Reader.yields_bind.mp hy
  obtain ⟨segs₃, hd, rfl⟩ := (yields_refill le_rfl).mp h₃
  unfold header at h
  simp [hx, hm, hd] at h

/-- The size of `adbbuf` once a frame whose header is `d` has begun. -/
def roomFor (a : Globals) (d : List UInt8) : ℕ := (a.adbbuf.map List.length).getD (sizeField d)

theorem length_getD_malloc :
    (a.adbbuf.getD (malloc junk (sizeField d))).length = roomFor a d := by
  unfold roomFor
  cases a.adbbuf with
  | none => exact length_malloc junk (sizeField d)
  | some b => rfl

theorem roomFor_lt (hroom : ∀ b ∈ a.adbbuf, b.length < 2 ^ 32) : roomFor a d < 2 ^ 32 := by
  unfold roomFor
  cases hb : a.adbbuf with
  | none => exact field_lt d 2
  | some b => exact hroom b hb

/-- A call as its announcement has it: the globals and what is left take the place of
the loop's result. -/
structure CallFollows (alloc : ℕ) (p : Reader UInt8 Globals) (segs : List (List UInt8))
    (q : Announced) : Prop where
  safe_iff : p.Safe (segs.map some) ↔ FitFrom alloc 0 q.1
  of_yields : ∀ a s', p.Yields (segs.map some) a s' →
    a.adbbuf.map List.length = some alloc ∧
      ∃ rest, q.2 = some (a.message, rest) ∧ rest.map some = s'
  yields : ∀ m rest, p.Safe (segs.map some) → q.2 = some (m, rest) →
    ∃ a, p.Yields (segs.map some) a (rest.map some)

theorem follows_readBufferADB {c : Call} (hroom : ∀ b ∈ a.adbbuf, b.length < 2 ^ 32)
    (h : header c.junk a.message segs = some (d, m, rest)) :
    CallFollows (roomFor a d) (readBufferADB c a) segs (lengths c.sent m rest) := by
  obtain ⟨okay, hy⟩ := yields_sendFramebufferString h
  have hloop := follows_readMessages (roomFor_lt hroom) c.sent 0 m
    (a.adbbuf.getD (malloc c.junk (sizeField d))) rest length_getD_malloc (Nat.zero_le _)
  have hsend : (sendFramebufferString c.junk a).Safe (segs.map some) :=
    safe_sendFramebufferString
  unfold readBufferADB
  refine ⟨?_, ?_, ?_⟩
  · rw [hy.safe_bind, ← hloop.safe_iff, Reader.safe_bind]
    constructor
    · exact fun hs => hs.2.1
    · exact fun hs => ⟨hsend, hs, fun _ _ _ => Reader.safe_pure⟩
  · intro a' s' ha'
    obtain ⟨r, t, hr, hp⟩ := Reader.yields_bind.mp (hy.yields_bind.mp ha')
    obtain ⟨rfl, rfl⟩ := Reader.yields_pure.mp hp
    obtain ⟨hlen, hrest⟩ := hloop.of_yields r t hr
    exact ⟨congrArg some hlen, hrest⟩
  · intro m' rest' hs hq
    obtain ⟨b, hb⟩ := hloop.yields m' rest' (Reader.safe_bind.mp (hy.safe_bind.mp hs).2).1 hq
    refine ⟨⟨m', swapArgs okay, d, some b⟩, ?_⟩
    apply hy.yields_bind.mpr
    apply hb.yields_bind.mpr
    exact Reader.yields_pure.mpr ⟨rfl, rfl⟩

/-- Without a header a call waits. -/
theorem safe_readBufferADB_none {c : Call} (h : header c.junk a.message segs = none) :
    (readBufferADB c a).Safe (segs.map some) := by
  refine Reader.safe_bind.mpr ⟨safe_sendFramebufferString, ?_⟩
  intro b t hb
  exact absurd hb (not_yields_sendFramebufferString h)

theorem not_yields_readBufferADB {c : Call} (h : header c.junk a.message segs = none) :
    ¬(readBufferADB c a).Yields (segs.map some) a' s' := by
  intro hy
  obtain ⟨b, t, hb, -⟩ := Reader.yields_bind.mp hy
  exact not_yields_sendFramebufferString h hb

theorem length_lt_of_map_length {o : Option (List UInt8)} (halloc : alloc < 2 ^ 32)
    (h : o.map List.length = some alloc) : ∀ b ∈ o, b.length < 2 ^ 32 := by
  rintro b rfl
  have hb : b.length = alloc := Option.some.inj h
  omega

/-- Frames are read inside when they fit in the buffer of the first one. -/
theorem safe_frames (hroom : ∀ b ∈ a.adbbuf, b.length < 2 ^ 32) :
    (calls.foldlM (fun a c => readBufferADB c a) a : Reader UInt8 Globals).Safe (segs.map some) ↔
      FramesFit (a.adbbuf.map List.length) (frames calls a.message segs) := by
  induction calls generalizing a segs with
  | nil =>
    refine iff_of_true Reader.safe_pure ?_
    intro f hf
    exact absurd hf List.not_mem_nil
  | cons c calls ih =>
    rw [List.foldlM_cons, frames]
    cases hh : header c.junk a.message segs with
    | none =>
      refine iff_of_true (Reader.safe_bind.mpr ⟨safe_readBufferADB_none hh, ?_⟩) ?_
      · intro b t hb
        exact absurd hb (not_yields_readBufferADB hh)
      · intro f hf
        exact absurd hf List.not_mem_nil
    | some x =>
      obtain ⟨d, m, rest⟩ := x
      have hcall := follows_readBufferADB hroom hh
      unfold FramesFit
      rw [List.forall_mem_cons, Reader.safe_bind, hcall.safe_iff]
      refine and_congr_right fun hfit => ?_
      have hs := hcall.safe_iff.mpr hfit
      cases hq : (lengths c.sent m rest).2 with
      | none =>
        constructor
        · intro _ f hf
          exact absurd hf List.not_mem_nil
        · intro _ a' s' ha'
          obtain ⟨-, rest', hrest, -⟩ := hcall.of_yields a' s' ha'
          cases hq.symm.trans hrest
      | some y =>
        obtain ⟨m', rest'⟩ := y
        obtain ⟨a', ha'⟩ := hcall.yields m' rest' hs hq
        obtain ⟨hlen, rest'', hrest, -⟩ := hcall.of_yields a' _ ha'
        obtain ⟨rfl, rfl⟩ : m' = a'.message ∧ rest' = rest'' := by
          simpa using hq.symm.trans hrest
        have hnext := @ih rest' a' (length_lt_of_map_length (roomFor_lt hroom) hlen)
        unfold FramesFit at hnext
        rw [hlen] at hnext
        refine Iff.trans ?_ hnext
        constructor
        · intro h
          exact h a' _ ha'
        · intro h b t hb
          obtain ⟨rfl, rfl⟩ := ha'.unique hb
          exact h

/-- The reply to the connection is read into a message, whatever length it announces. -/
theorem safe_sendConnectString :
    (sendConnectString a).Safe (segs.map some) ↔
      ∀ x ∈ refill a.message sizeofMessage segs, dataLength x.1 ≤ sizeofMessage := by
  unfold sendConnectString
  rw [Reader.safe_bind]
  constructor
  · rintro ⟨-, h⟩ ⟨m, rest⟩ hm
    have hy := (yields_refill (k := sizeofMessage) le_rfl).mpr ⟨rest, hm, rfl⟩
    by_contra hlt
    exact not_safe_readSocket_zero (not_le.mp hlt) (Reader.safe_bind.mp (h _ _ hy)).1
  · intro h
    refine ⟨safe_readSocket_zero le_rfl, fun m s' hy => ?_⟩
    obtain ⟨rest, hm, rfl⟩ := (yields_refill le_rfl).mp hy
    exact Reader.safe_bind.mpr ⟨safe_readSocket_zero (h _ hm), fun _ _ _ => Reader.safe_pure⟩

theorem yields_sendConnectString (hs : (sendConnectString a).Safe (segs.map some)) :
    (sendConnectString a).Yields (segs.map some) a' s' ↔
      ∃ x y, refill a.message sizeofMessage segs = some x ∧
        refill x.1 (dataLength x.1) x.2 = some y ∧
          { a with message := y.1 } = a' ∧ y.2.map some = s' := by
  have hle := safe_sendConnectString.mp hs
  unfold sendConnectString
  rw [Reader.yields_bind]
  constructor
  · rintro ⟨m, t, h₁, h⟩
    obtain ⟨rest, hm, rfl⟩ := (yields_refill le_rfl).mp h₁
    obtain ⟨m', t', h₂, hp⟩ := Reader.yields_bind.mp h
    obtain ⟨rest', hm', rfl⟩ := (yields_refill (hle _ hm)).mp h₂
    obtain ⟨rfl, rfl⟩ := Reader.yields_pure.mp hp
    exact ⟨_, _, hm, hm', rfl, rfl⟩
  · rintro ⟨x, y, hx, hy, rfl, rfl⟩
    refine ⟨_, _, (yields_refill le_rfl).mpr ⟨_, hx, rfl⟩, ?_⟩
    exact Reader.yields_bind.mpr ⟨_, _, (yields_refill (hle _ hx)).mpr ⟨_, hy, rfl⟩,
      Reader.yields_pure.mpr ⟨rfl, rfl⟩⟩

/-- In a session no read goes outside its object if and only if what the peer announces
fits. -/
theorem safe_session (junk : ℕ → UInt8) (calls : List Call) (segs : List (List UInt8)) :
    (session junk calls).Safe (segs.map some) ↔ (announcement junk calls segs).Fits := by
  have hconnect : (initADB junk).Safe (segs.map some) ↔
      ∀ n ∈ (announcement junk calls segs).connect, n ≤ sizeofMessage := by
    refine safe_sendConnectString.trans ?_
    unfold announcement
    cases refill (malloc junk sizeofMessage) sizeofMessage segs with
    | none => simp
    | some x =>
      dsimp only
      cases refill x.1 (dataLength x.1) x.2 <;> simp
  unfold session Announcement.Fits
  rw [Reader.safe_bind, ← hconnect]
  refine and_congr_right fun hs => ?_
  -- what the reply leaves decides whether there are frames at all
  have hyields (a' : Globals) (s' : Arrivals UInt8) := @yields_sendConnectString segs s' _ a' hs
  unfold announcement
  cases hx : refill (malloc junk sizeofMessage) sizeofMessage segs with
  | none =>
    refine iff_of_true ?_ fun f hf => absurd hf List.not_mem_nil
    intro a' s' hy
    obtain ⟨x, y, hx', -⟩ := (hyields a' s').mp hy
    cases hx.symm.trans hx'
  | some x =>
    dsimp only
    cases hy : refill x.1 (dataLength x.1) x.2 with
    | none =>
      refine iff_of_true ?_ fun f hf => absurd hf List.not_mem_nil
      intro a' s' h
      obtain ⟨x', y, hx', hy', -⟩ := (hyields a' s').mp h
      cases hx.symm.trans hx'
      cases hy.symm.trans hy'
    | some y =>
      have hreply := (hyields _ _).mpr ⟨x, y, hx, hy, rfl, rfl⟩
      have hframes := @safe_frames y.2 calls
        ⟨y.1, malloc junk sizeofMessage, [], none⟩ (by simp)
      refine Iff.trans ?_ hframes
      constructor
      · intro h
        exact h _ _ hreply
      · intro h a' s' ha'
        obtain ⟨rfl, rfl⟩ := hreply.unique ha'
        exact h

end Safety

end DroidVnc.Grabber.Adb
