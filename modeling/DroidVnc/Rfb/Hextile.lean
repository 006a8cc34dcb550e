import DroidVnc.Rfb.Rre

/-! Hextile: tiles of 16 by 16 pixels, each a background and subrectangles, or raw. A
background or foreground that the viewer has from an earlier tile is not sent again. -/

namespace DroidVnc.Rfb

open Wire ClientRec

variable {n : ℕ}

/-! ### Tiles -/

/-- The tiles in the order of `for (y = ry; y < ry+rh; y += 16)`,
`for (x = rx; x < rx+rw; x += 16)`. -/
def tiles (rx ry : ℤ) (rw rh : ℕ) : List (ℤ × ℤ × ℕ × ℕ) :=
  (List.range ((rh + 15) / 16)).flatMap fun j : ℕ => (List.range ((rw + 15) / 16)).map fun i : ℕ =>
    (rx + 16 * i, ry + 16 * j, min 16 (rw - 16 * i), min 16 (rh - 16 * j))

/-! ### The server -/

structure Colours (n : ℕ) where
  colour1 : Pixel n
  colour2 : Pixel n
  n1 : ℕ
  n2 : ℕ
  mono : Bool
  solid : Bool

def Colours.first (pix : Pixel n) (c : Colours n) : Colours n :=
  if c.n1 = 0 then { c with colour1 := pix } else c

def Colours.second (pix : Pixel n) (c : Colours n) : Colours n :=
  if c.n2 = 0 then { c with solid := false, colour2 := pix } else c

/-- The loop of `testColours`, which ends with the third colour. -/
def testLoop : List (Pixel n) → Colours n → Colours n
  | [], c => c
  | pix :: data, c =>
    let c := c.first pix
    if pix = c.colour1 then testLoop data { c with n1 := c.n1 + 1 }
    else
      let c := c.second pix
      if pix = c.colour2 then testLoop data { c with n2 := c.n2 + 1 }
      else { c with mono := false }

def testColours (data : List (Pixel n)) : Colours n :=
  testLoop data ⟨zeroPixel n, zeroPixel n, 0, 0, true, true⟩

def Colours.bg (c : Colours n) : Pixel n := if c.n1 > c.n2 then c.colour1 else c.colour2

def Colours.fg (c : Colours n) : Pixel n := if c.n1 > c.n2 then c.colour2 else c.colour1

/-- `rfbHextilePackXY` and `rfbHextilePackWH`. -/
def Subrect.packed (s : Subrect (Pixel n)) : List UInt8 :=
  [UInt8.ofNat (s.x.toNat <<< 4 ||| s.y.toNat),
    UInt8.ofNat ((s.w.toNat - 1) <<< 4 ||| (s.h.toNat - 1))]

/-- `rfbHextileBackgroundSpecified` and so on, as far as they are set. -/
def subencoding (bg fg anySubrects coloured : Bool) : UInt8 :=
  (if bg then 2 else 0) ||| (if fg then 4 else 0) ||| (if anySubrects then 8 else 0) |||
    (if coloured then 16 else 0)

/-- The background and the foreground that the server takes the viewer to have. -/
structure SentColours (n : ℕ) where
  bg : Pixel n
  fg : Pixel n
  validBg : Bool
  validFg : Bool

/-- `!validBg || (newBg != bg)`: the viewer does not have this colour. -/
def isNew (valid : Bool) (colour newColour : Pixel n) : Bool := !valid || newColour != colour

def SentColours.setBg (s : SentColours n) (newBg : Pixel n) : SentColours n :=
  if isNew s.validBg s.bg newBg then { s with validBg := true, bg := newBg } else s

def SentColours.setFg (s : SentColours n) (newFg : Pixel n) : SentColours n :=
  if isNew s.validFg s.fg newFg then { s with validFg := true, fg := newFg } else s

def pixelIf (send : Bool) (pix : Pixel n) : List UInt8 := if send then pix.1 else []

def sendTile (pixel : ℤ × ℤ → Pixel n) (s : SentColours n) (t : ℤ × ℤ × ℕ × ℕ) :
    SentColours n × List UInt8 :=
  let clientPixelData := rectPixels pixel t.1 t.2.1 t.2.2.1 t.2.2.2
  let data := fun p : ℤ × ℤ => pixel (t.1 + p.1, t.2.1 + p.2)
  let c := testColours clientPixelData
  let sendBg := isNew s.validBg s.bg c.bg
  let s := s.setBg c.bg
  if c.solid then (s, subencoding sendBg false false false :: pixelIf sendBg c.bg)
  else
    let sendFg := c.mono && isNew s.validFg s.fg c.fg
    let s := if c.mono then s.setFg c.fg else { s with validFg := false }
    let size := if c.mono then 2 else n + 2
    match subrectEncode ⟨1, size, t.2.2.1 * t.2.2.2 * n⟩ c.bg t.2.2.1 t.2.2.2 data with
    | none => ({ s with validBg := false, validFg := false }, 1 :: pixelBytes clientPixelData)
    | some subs =>
      (s, subencoding sendBg sendFg true (!c.mono) :: (pixelIf sendBg c.bg ++
        (pixelIf sendFg c.fg ++ (UInt8.ofNat subs.length ::
          subs.flatMap fun s => pixelIf (!c.mono) s.pix ++ s.packed))))

def sendTiles (pixel : ℤ × ℤ → Pixel n) : List (ℤ × ℤ × ℕ × ℕ) → SentColours n → List UInt8
  | [], _ => []
  | t :: l, s => (sendTile pixel s t).2 ++ sendTiles pixel l (sendTile pixel s t).1

def sendRectEncodingHextile (pixel : ℤ × ℤ → Pixel n) (x y : ℤ) (w h : ℕ) : List UInt8 :=
  (RectHeader.mk x y w h 5).bytes ++
    sendTiles pixel (tiles x y w h) ⟨zeroPixel n, zeroPixel n, false, false⟩

/-! ### The viewer -/

/-- The viewer's variables and its framebuffer. -/
structure HextileView (n : ℕ) where
  bg : Pixel n
  fg : Pixel n
  frameBuffer : ℤ × ℤ → Pixel n

def readByte : Reader UInt8 UInt8 := fun l => l.head?.map fun b => (b, l.tail)

/-- `rfbHextileExtractX` and so on. -/
def readPacked : Reader UInt8 (ℤ × ℤ × ℤ × ℤ) := do
  let xy ← readByte
  let wh ← readByte
  pure ((xy.toNat >>> 4 : ℕ), (xy.toNat &&& 15 : ℕ), (wh.toNat >>> 4 : ℕ) + 1,
    (wh.toNat &&& 15 : ℕ) + 1)

/-- A pixel that is there if its bit is set. -/
def readPixelIf (send : Bool) (old : Pixel n) : Reader UInt8 (Pixel n) :=
  if send then readPixel n else pure old

def handleTileSubrect (coloured : Bool) (x y : ℤ) (v : HextileView n) :
    Reader UInt8 (HextileView n) := do
  let fg ← readPixelIf coloured v.fg
  let r ← readPacked
  pure { v with
    fg
    frameBuffer := fillRectangle (x + r.1) (y + r.2.1) r.2.2.1 r.2.2.2 fg v.frameBuffer }

def handleTile (v : HextileView n) (t : ℤ × ℤ × ℕ × ℕ) : Reader UInt8 (HextileView n) := do
  let sub ← readByte
  if sub &&& 1 ≠ 0 then
    let buffer ← readPixels n (t.2.2.1 * t.2.2.2)
    pure { v with frameBuffer := copyRectangle buffer t.1 t.2.1 t.2.2.1 t.2.2.2 v.frameBuffer }
  else
    let bg ← readPixelIf (decide (sub &&& 2 ≠ 0)) v.bg
    let frameBuffer := fillRectangle t.1 t.2.1 t.2.2.1 t.2.2.2 bg v.frameBuffer
    let fg ← readPixelIf (decide (sub &&& 4 ≠ 0)) v.fg
    if sub &&& 8 = 0 then pure ⟨bg, fg, frameBuffer⟩
    else
      let nSubrects ← readByte
      loop (handleTileSubrect (decide (sub &&& 16 ≠ 0)) t.1 t.2.1) nSubrects.toNat
        ⟨bg, fg, frameBuffer⟩

/-- `HandleHextile`. Its variables start with what happens to be there. -/
def handleHextile (bg fg : Pixel n) (rx ry : ℤ) (rw rh : ℕ) (frameBuffer : ℤ × ℤ → Pixel n) :
    Reader UInt8 (ℤ × ℤ → Pixel n) := do
  let v ← (tiles rx ry rw rh).foldlM handleTile ⟨bg, fg, frameBuffer⟩
  pure v.frameBuffer

/-! ### Colours of a tile -/

/-- What is known of the pixels met so far, if they have two colours at most. -/
structure Colours.Good (l : List (Pixel n)) (c : Colours n) : Prop where
  mono : c.mono = true
  solid : c.solid = true ↔ c.n2 = 0
  empty : c.n1 = 0 → l = []
  length : c.n1 + c.n2 = l.length
  count1 : l.count c.colour1 = c.n1
  count2 : c.n2 ≠ 0 → l.count c.colour2 = c.n2
  ne : c.n2 ≠ 0 → c.colour1 ≠ c.colour2

/-- What the colours of a tile say about its pixels. -/
structure Colours.Tell (l : List (Pixel n)) (c : Colours n) : Prop where
  solid : c.solid = true → ∀ pix ∈ l, pix = c.bg
  mono : c.mono = true → ∀ pix ∈ l, pix ≠ c.bg → pix = c.fg
  few : c.mono = true → 2 * l.countP (fun pix => pix ≠ c.bg) ≤ l.length

/-- Two colours that are counted to the length of a list are all of its colours. -/
theorem eq_or_eq_of_count {l : List (Pixel n)} {a b pix : Pixel n} (hab : a ≠ b)
    (h : l.count a + l.count b = l.length) (hpix : pix ∈ l) : pix = a ∨ pix = b := by
  by_contra hne
  obtain ⟨ha, hb⟩ := not_or.mp hne
  have hcount : l.count a + l.count b + l.count pix ≤ l.length := by
    clear h hpix hne
    induction l with
    | nil => simp
    | cons q l ih =>
      simp only [List.count_cons, List.length_cons, beq_iff_eq]
      split_ifs with h1 h2 h3 h3 h2 h3 h3 <;>
        first | omega | (subst_vars; exact absurd rfl (by assumption))
  have hpos := List.count_pos_iff.mpr hpix
  omega

theorem countP_ne (l : List (Pixel n)) (a : Pixel n) :
    l.countP (fun pix => pix ≠ a) + l.count a = l.length := by
  induction l with
  | nil => rfl
  | cons q l ih =>
    simp only [List.countP_cons, List.count_cons, List.length_cons, beq_iff_eq,
      decide_eq_true_eq] at ih ⊢
    split_ifs <;> first | omega | contradiction

theorem Colours.Good.tell {l : List (Pixel n)} {c : Colours n} (h : c.Good l) : c.Tell l := by
  have hlen := h.length
  have hcount1 := h.count1
  by_cases hn2 : c.n2 = 0
  · -- all pixels are the first colour
    have hall : ∀ pix ∈ l, pix = c.colour1 := by
      have hfull : l.count c.colour1 = l.length := by omega
      exact fun pix hpix => (List.count_eq_length.mp hfull pix hpix).symm
    by_cases hl : l = []
    · subst hl
      exact ⟨fun _ _ hp => absurd hp List.not_mem_nil, fun _ _ hp => absurd hp List.not_mem_nil,
        fun _ => le_rfl⟩
    · have hn1 : c.n1 ≠ 0 := fun h0 => hl (h.empty h0)
      have hbg : c.bg = c.colour1 := if_pos (by omega)
      refine ⟨fun _ => hbg ▸ hall, fun _ pix hpix hne => absurd (hbg ▸ hall pix hpix) hne,
        fun _ => ?_⟩
      have hsum := countP_ne l c.bg
      rw [hbg] at hsum ⊢
      omega
  · have hcount2 := h.count2 hn2
    have htwo (pix : Pixel n) (hpix : pix ∈ l) : pix = c.colour1 ∨ pix = c.colour2 :=
      eq_or_eq_of_count (h.ne hn2) (by omega) hpix
    have hsolid : c.solid ≠ true := fun hs => hn2 (h.solid.mp hs)
    have hsum := countP_ne l c.bg
    unfold Colours.bg at hsum
    refine ⟨fun hs => absurd hs hsolid, fun _ pix hpix hne => ?_, fun _ => ?_⟩
    · unfold Colours.bg at hne
      unfold Colours.fg
      split_ifs at hne ⊢
      · exact (htwo pix hpix).resolve_left hne
      · exact (htwo pix hpix).resolve_right hne
    · unfold Colours.bg
      split_ifs at hsum ⊢ <;> omega

theorem Colours.Good.count {l : List (Pixel n)} {c : Colours n} (h : c.Good l) (pix : Pixel n)
    (heq : pix = c.colour1) : Colours.Good (l ++ [pix]) { c with n1 := c.n1 + 1 } := by
  have hlen := h.length
  refine ⟨h.mono, h.solid, fun h0 => absurd h0 (Nat.succ_ne_zero _), ?_, ?_, fun hn2 => ?_, h.ne⟩
  · rw [List.length_append, List.length_singleton]
    dsimp only
    omega
  · rw [List.count_append, List.count_singleton]
    dsimp only
    rw [h.count1, heq, if_pos (beq_self_eq_true _)]
  · rw [List.count_append, List.count_singleton]
    dsimp only
    rw [if_neg (by rw [beq_iff_eq, heq]; exact h.ne hn2), h.count2 hn2, Nat.add_zero]

theorem Colours.Good.first {l : List (Pixel n)} {c : Colours n} (h : c.Good l) (pix : Pixel n) :
    (c.first pix).Good l := by
  unfold Colours.first
  split_ifs with hn1
  · have hl := h.empty hn1
    subst hl
    have hn2 : c.n2 = 0 := by
      have hlen := h.length
      rw [List.length_nil] at hlen
      omega
    exact ⟨h.mono, h.solid, fun _ => rfl, h.length, hn1.symm, fun hne => absurd hn2 hne,
      fun hne => absurd hn2 hne⟩
  · exact h

/-- A colour other than the first is the second, and there is a second then. -/
theorem Colours.Good.second {l : List (Pixel n)} {c : Colours n} (h : c.Good l) {pix : Pixel n}
    (hn1 : c.n1 ≠ 0) (hne : pix ≠ c.colour1) (heq : pix = (c.second pix).colour2) :
    Colours.Good (l ++ [pix]) { c.second pix with n2 := (c.second pix).n2 + 1 } := by
  have hlen := h.length
  have hcount1 : (l ++ [pix]).count c.colour1 = c.n1 := by
    rw [List.count_append, List.count_singleton, h.count1,
      if_neg (by rw [beq_iff_eq]; exact hne), Nat.add_zero]
  have hlen' : c.n1 + (c.n2 + 1) = (l ++ [pix]).length := by
    rw [List.length_append, List.length_singleton]
    omega
  have hcount : (l ++ [pix]).count pix = l.count pix + 1 := by
    rw [List.count_append, List.count_singleton, if_pos (beq_self_eq_true _)]
  unfold Colours.second at heq ⊢
  split_ifs at heq ⊢ with hn2
  · have hpix : l.count pix = 0 := by
      refine List.count_eq_zero.mpr fun hp => hne ?_
      have hfull : l.count c.colour1 = l.length := by
        rw [h.count1]
        omega
      exact (List.count_eq_length.mp hfull pix hp).symm
    refine ⟨h.mono, ?_, fun h0 => absurd h0 hn1, hlen', hcount1, fun _ => ?_, fun _ => hne.symm⟩
    · exact ⟨fun hf => absurd hf Bool.false_ne_true, fun h0 => absurd h0 (Nat.succ_ne_zero _)⟩
    · rw [hcount, hpix, hn2]
  · refine ⟨h.mono, ?_, fun h0 => absurd h0 hn1, hlen', hcount1, fun _ => ?_, fun _ => h.ne hn2⟩
    · exact ⟨fun hs => absurd (h.solid.mp hs) hn2, fun h0 => absurd h0 (Nat.succ_ne_zero _)⟩
    · have hcount2 := h.count2 hn2
      rw [← heq] at hcount2
      dsimp only
      rw [← heq, hcount, hcount2]

/-- `testColours` tells the truth about the pixels. -/
theorem tell_testLoop {l data : List (Pixel n)} {c : Colours n} (h : c.Good l) :
    (testLoop data c).Tell (l ++ data) := by
  induction data generalizing l c with
  | nil =>
    rw [List.append_nil]
    exact h.tell
  | cons pix data ih =>
    rw [show l ++ pix :: data = (l ++ [pix]) ++ data from List.append_cons ..]
    unfold testLoop
    have hfirst := h.first pix
    have hn1 : pix ≠ (c.first pix).colour1 → (c.first pix).n1 ≠ 0 := by
      unfold Colours.first
      split_ifs with hn1
      · exact fun hne => absurd rfl hne
      · exact fun _ => hn1
    dsimp only
    split_ifs with heq heq2
    · exact ih (hfirst.count pix heq)
    · exact ih (hfirst.second (hn1 heq) heq heq2)
    · have hsolid : ((c.first pix).second pix).solid = false := by
        unfold Colours.second at heq2 ⊢
        split_ifs at heq2 ⊢ with hn2
        · rfl
        · exact Bool.eq_false_iff.mpr (mt hfirst.solid.mp hn2)
      refine ⟨fun hs => ?_, fun hm => ?_, fun hm => ?_⟩
      · exact absurd (hsolid.symm.trans hs) Bool.false_ne_true
      · exact absurd hm Bool.false_ne_true
      · exact absurd hm Bool.false_ne_true

/-! ### Bytes -/

theorem reads_byte (b : UInt8) : Reads readByte [b] b := fun _ => rfl

theorem reads_pixelIf (send : Bool) (pix old : Pixel n) :
    Reads (readPixelIf send old) (pixelIf send pix) (if send then pix else old) := by
  cases send with
  | false => exact Reads.pure old
  | true => exact reads_pixel pix

theorem unpack {a b : ℕ} (ha : a < 16) (hb : b < 16) :
    (UInt8.ofNat (a <<< 4 ||| b)).toNat >>> 4 = a ∧
      (UInt8.ofNat (a <<< 4 ||| b)).toNat &&& 15 = b := by
  have hor : a <<< 4 ||| b = a * 16 + b := by
    rw [← Nat.shiftLeft_add_eq_or_of_lt (by omega), Nat.shiftLeft_eq]
  have hbyte : (UInt8.ofNat (a <<< 4 ||| b)).toNat = a * 16 + b := by
    rw [hor, UInt8.toNat_ofNat', Nat.mod_eq_of_lt (by omega)]
  rw [hbyte, Nat.shiftRight_eq_div_pow, show (15 : ℕ) = 2 ^ 4 - 1 from rfl,
    Nat.and_two_pow_sub_one_eq_mod]
  omega

theorem reads_packed {s : Subrect (Pixel n)} {w h : ℤ} (hs : s.Fits w h) (hw : w ≤ 16)
    (hh : h ≤ 16) : Reads readPacked s.packed (s.x, s.y, s.w, s.h) := by
  obtain ⟨⟨hx, hxw⟩, ⟨hy, hyh⟩, hw1, hh1⟩ := hs
  obtain ⟨hux, huy⟩ := unpack (a := s.x.toNat) (b := s.y.toNat) (by omega) (by omega)
  obtain ⟨huw, huh⟩ := unpack (a := s.w.toNat - 1) (b := s.h.toNat - 1) (by omega) (by omega)
  refine ((reads_byte _).bind ((reads_byte _).map fun wh : UInt8 => ((_ : ℤ), (_ : ℤ),
    ((wh.toNat >>> 4 : ℕ) : ℤ) + 1, ((wh.toNat &&& 15 : ℕ) : ℤ) + 1))).of_eq rfl ?_
  rw [hux, huy, huw, huh]
  refine Prod.ext ?_ (Prod.ext ?_ (Prod.ext ?_ ?_)) <;> dsimp only <;> omega

theorem subencoding_bits (bg fg anySubrects coloured : Bool) :
    subencoding bg fg anySubrects coloured &&& 1 = 0 ∧
      (subencoding bg fg anySubrects coloured &&& 2 ≠ 0 ↔ bg = true) ∧
      (subencoding bg fg anySubrects coloured &&& 4 ≠ 0 ↔ fg = true) ∧
      (subencoding bg fg anySubrects coloured &&& 8 = 0 ↔ anySubrects = false) ∧
      (subencoding bg fg anySubrects coloured &&& 16 ≠ 0 ↔ coloured = true) := by
  cases bg <;> cases fg <;> cases anySubrects <;> cases coloured <;> decide

/-! ### One tile -/

/-- What the server takes the viewer to have, it has. -/
structure Agree (s : SentColours n) (v : HextileView n) : Prop where
  bg : s.validBg = true → v.bg = s.bg
  fg : s.validFg = true → v.fg = s.fg

theorem eq_of_isNew {valid : Bool} {colour old : Pixel n} (newColour : Pixel n)
    (h : valid = true → old = colour) :
    (if isNew valid colour newColour then newColour else old) = newColour := by
  by_cases hnew : isNew valid colour newColour = true
  · exact if_pos hnew
  · rw [if_neg hnew]
    unfold isNew at hnew
    rw [Bool.or_eq_true, not_or, Bool.not_eq_true', Bool.not_eq_false, bne_iff_ne, not_not] at hnew
    rw [h hnew.1, hnew.2]

theorem SentColours.setBg_eq (s : SentColours n) (newBg : Pixel n) :
    s.setBg newBg = { s with validBg := true, bg := newBg } := by
  unfold SentColours.setBg isNew
  split_ifs with hnew
  · rfl
  · rw [Bool.or_eq_true, not_or, Bool.not_eq_true', Bool.not_eq_false, bne_iff_ne, not_not] at hnew
    rw [hnew.2, ← hnew.1]

theorem SentColours.setFg_eq (s : SentColours n) (newFg : Pixel n) :
    s.setFg newFg = { s with validFg := true, fg := newFg } := by
  unfold SentColours.setFg isNew
  split_ifs with hnew
  · rfl
  · rw [Bool.or_eq_true, not_or, Bool.not_eq_true', Bool.not_eq_false, bne_iff_ne, not_not] at hnew
    rw [hnew.2, ← hnew.1]

def drawSubrect (coloured : Bool) (x y : ℤ) (v : HextileView n) (s : Subrect (Pixel n)) :
    HextileView n :=
  let fg := if coloured then s.pix else v.fg
  { v with fg, frameBuffer := fillRectangle (x + s.x) (y + s.y) s.w s.h fg v.frameBuffer }

theorem reads_tileSubrect {s : Subrect (Pixel n)} {w h : ℤ} (hs : s.Fits w h) (hw : w ≤ 16)
    (hh : h ≤ 16) (coloured : Bool) (x y : ℤ) (v : HextileView n) :
    Reads (handleTileSubrect coloured x y v) (pixelIf coloured s.pix ++ s.packed)
      (drawSubrect coloured x y v s) := by
  refine (reads_pixelIf coloured s.pix v.fg).bind ?_
  exact (reads_packed hs hw hh).map fun r : ℤ × ℤ × ℤ × ℤ =>
    ({ v with
        fg := if coloured then s.pix else v.fg
        frameBuffer := fillRectangle (x + r.1) (y + r.2.1) r.2.2.1 r.2.2.2
          (if coloured then s.pix else v.fg) v.frameBuffer } : HextileView n)

/-- If the subrectangles have no colours of their own, they have the foreground's. -/
theorem foldl_drawSubrect {subs : List (Subrect (Pixel n))} {coloured : Bool} {x y : ℤ}
    {v : HextileView n} (hmono : coloured = false → ∀ s ∈ subs, s.pix = v.fg) :
    (subs.foldl (drawSubrect coloured x y) v).frameBuffer =
        subs.foldl (fun fb s => fillRectangle (x + s.x) (y + s.y) s.w s.h s.pix fb)
          v.frameBuffer ∧
      (subs.foldl (drawSubrect coloured x y) v).bg = v.bg ∧
      (coloured = false → (subs.foldl (drawSubrect coloured x y) v).fg = v.fg) := by
  induction subs generalizing v with
  | nil => exact ⟨rfl, rfl, fun _ => rfl⟩
  | cons s subs ih =>
    rw [List.foldl_cons, List.foldl_cons]
    have hfg : coloured = false → (drawSubrect coloured x y v s).fg = v.fg := by
      rintro rfl
      rfl
    have hpix : (if coloured then s.pix else v.fg) = s.pix := by
      split_ifs with hc
      · rfl
      · exact (hmono (Bool.not_eq_true _ ▸ hc) s List.mem_cons_self).symm
    obtain ⟨hfb, hbg, hfg'⟩ := ih (v := drawSubrect coloured x y v s) fun hc t ht => by
      rw [hfg hc]
      exact hmono hc t (List.mem_cons_of_mem s ht)
    refine ⟨?_, hbg, fun hc => (hfg' hc).trans (hfg hc)⟩
    rw [hfb]
    unfold drawSubrect
    dsimp only
    rw [hpix]

theorem mem_rectPixels (pixel : ℤ × ℤ → Pixel n) (x y : ℤ) {w h : ℕ} {p : ℤ × ℤ}
    (hp : Grid.Inside w h p) : pixel (x + p.1, y + p.2) ∈ rectPixels pixel x y w h :=
  List.mem_map.mpr ⟨p, mem_raster.mpr hp, rfl⟩

/-- The number of subrectangles fits in a byte. -/
theorem length_lt_of_tile {pixel : ℤ × ℤ → Pixel n} {x y : ℤ} {w h : ℕ} {bg : Pixel n} {mono : Bool}
    {subs : List (Subrect (Pixel n))} (hw : w ≤ 16) (hh : h ≤ 16)
    (hfew : mono = true →
      2 * (rectPixels pixel x y w h).countP (fun pix => pix ≠ bg) ≤
        (rectPixels pixel x y w h).length)
    (hcount : subs.length ≤
      (raster w h).countP fun p : ℤ × ℤ => pixel (x + p.1, y + p.2) ≠ bg)
    (hsize : subs = [] ∨ 1 + (if mono then 2 else n + 2) * subs.length ≤ w * h * n) :
    subs.length < 256 := by
  have harea : w * h ≤ 256 := Nat.mul_le_mul hw hh
  cases hm : mono with
  | true =>
    have hfew := hfew hm
    rw [length_rectPixels, rectPixels, List.countP_map] at hfew
    have hsame : (raster w h).countP ((fun pix => decide (pix ≠ bg)) ∘
        fun p : ℤ × ℤ => pixel (x + p.1, y + p.2)) =
        (raster w h).countP fun p : ℤ × ℤ => pixel (x + p.1, y + p.2) ≠ bg := rfl
    omega
  | false =>
    rcases hsize with rfl | hsize
    · exact Nat.zero_lt_succ _
    · rw [hm, if_neg Bool.false_ne_true] at hsize
      by_contra hge
      have hmany : (n + 2) * 256 ≤ (n + 2) * subs.length := Nat.mul_le_mul_left _ (not_lt.mp hge)
      have hpix : w * h * n ≤ 256 * n := Nat.mul_le_mul_right n harea
      omega

/-- A tile that is not raw, its first byte being read. -/
theorem reads_handleTile {sendBg sendFg any coloured : Bool} {v v' : HextileView n}
    {x y : ℤ} {w h : ℕ} {bytes : List UInt8}
    (hreads : Reads (do
      let bg ← readPixelIf sendBg v.bg
      let fg ← readPixelIf sendFg v.fg
      match any with
      | false => pure ⟨bg, fg, fillRectangle x y w h bg v.frameBuffer⟩
      | true => do
        let nSubrects ← readByte
        loop (handleTileSubrect coloured x y) nSubrects.toNat
          ⟨bg, fg, fillRectangle x y w h bg v.frameBuffer⟩) bytes v') :
    Reads (handleTile v (x, y, w, h)) (subencoding sendBg sendFg any coloured :: bytes) v' := by
  obtain ⟨hraw, hbg, hfg, hany, hcoloured⟩ := subencoding_bits sendBg sendFg any coloured
  have hbit {p : Prop} [Decidable p] {b : Bool} (h : p ↔ b = true) : decide p = b := by
    cases b <;> simp_all
  refine (reads_byte _).bind ?_
  rw [if_neg (not_not.mpr hraw), hbit hbg, hbit hfg, hbit hcoloured]
  cases any with
  | false =>
    simp only [hany.mpr rfl, if_true]
    exact hreads
  | true =>
    simp only [if_neg (mt hany.mp Bool.noConfusion)]
    exact hreads

theorem good_start : Colours.Good [] (⟨zeroPixel n, zeroPixel n, 0, 0, true, true⟩ : Colours n) :=
  ⟨rfl, iff_of_true rfl rfl, fun _ => rfl, rfl, rfl, fun h => absurd rfl h, fun h => absurd rfl h⟩

theorem fillRectangle_eq_putRect {pixel frameBuffer : ℤ × ℤ → Pixel n} {x y : ℤ} {w h : ℕ}
    {bg : Pixel n} (hall : ∀ pix ∈ rectPixels pixel x y w h, pix = bg) :
    fillRectangle x y w h bg frameBuffer = putRect pixel frameBuffer ⟨x, y, x + w, y + h⟩ := by
  funext p
  unfold fillRectangle putRect
  split_ifs with hp
  · unfold SraRect.Has at hp
    dsimp only at hp
    have hin : Grid.Inside w h (p.1 - x, p.2 - y) := by
      unfold Grid.Inside
      dsimp only
      omega
    have hmem := mem_rectPixels pixel x y hin
    refine (hall _ hmem).symm.trans (congrArg pixel ?_)
    exact Prod.ext (add_sub_cancel x p.1) (add_sub_cancel y p.2)
  · rfl

/-- A tile is drawn as it is, and the two sides still agree. -/
theorem sendTile_correct (pixel : ℤ × ℤ → Pixel n) {s : SentColours n} {v : HextileView n}
    (hagree : Agree s v) (x y : ℤ) {w h : ℕ} (hw : w ≤ 16) (hh : h ≤ 16) :
    ∃ v', Reads (handleTile v (x, y, w, h)) (sendTile pixel s (x, y, w, h)).2 v' ∧
      v'.frameBuffer = putRect pixel v.frameBuffer ⟨x, y, x + w, y + h⟩ ∧
      Agree (sendTile pixel s (x, y, w, h)).1 v' := by
  have htell : (testColours (rectPixels pixel x y w h)).Tell (rectPixels pixel x y w h) :=
    tell_testLoop good_start
  unfold sendTile
  dsimp only
  generalize testColours (rectPixels pixel x y w h) = c at htell
  have hbg := eq_of_isNew c.bg hagree.bg
  rw [s.setBg_eq]
  by_cases hsolid : c.solid = true
  · rw [if_pos hsolid]
    refine ⟨⟨c.bg, v.fg, putRect pixel v.frameBuffer ⟨x, y, x + w, y + h⟩⟩,
      reads_handleTile ?_, rfl, ⟨fun _ => rfl, hagree.fg⟩⟩
    rw [← fillRectangle_eq_putRect (htell.solid hsolid)]
    have hread := (reads_pixelIf (isNew s.validBg s.bg c.bg) c.bg v.bg).map fun bg =>
      (⟨bg, v.fg, fillRectangle x y w h bg v.frameBuffer⟩ : HextileView n)
    exact hread.of_eq rfl (by rw [hbg])
  rw [if_neg hsolid]
  cases hsubs : subrectEncode ⟨1, if c.mono then 2 else n + 2, w * h * n⟩ c.bg w h
      fun p : ℤ × ℤ => pixel (x + p.1, y + p.2) with
  | none =>
    refine ⟨{ v with frameBuffer := putRect pixel v.frameBuffer ⟨x, y, x + w, y + h⟩ }, ?_, rfl,
      ⟨fun hf => absurd hf Bool.false_ne_true, fun hf => absurd hf Bool.false_ne_true⟩⟩
    refine (reads_byte 1).bind ?_
    rw [if_pos (by decide)]
    have hread := (reads_rectPixels pixel x y w h).map fun buffer =>
      ({ v with frameBuffer := copyRectangle buffer x y w h v.frameBuffer } : HextileView n)
    exact hread.of_eq rfl (by rw [copyRectangle_rectPixels])
  | some subs =>
    obtain ⟨hpainted, hfits, hcolour, hsize, hcount⟩ := subrectEncode_spec hsubs
    have hlen := length_lt_of_tile hw hh htell.few hcount hsize
    have hnum : (UInt8.ofNat subs.length).toNat = subs.length := by
      rw [UInt8.toNat_ofNat', Nat.mod_eq_of_lt hlen]
    -- the foreground that the viewer has is that of the subrectangles
    set fg := if c.mono && isNew s.validFg s.fg c.fg then c.fg else v.fg with hfg
    have hmono : c.mono = true → fg = c.fg := by
      intro hm
      rw [hfg, hm, Bool.true_and]
      exact eq_of_isNew c.fg hagree.fg
    have hnot (hm : (!c.mono) = false) : c.mono = true := by simpa using hm
    have hsubs_fg : (!c.mono) = false → ∀ t ∈ subs, t.pix = fg := by
      intro hm t ht
      obtain ⟨hne, p, hp, hpix⟩ := hcolour t ht
      rw [hmono (hnot hm), ← hpix]
      exact htell.mono (hnot hm) _ (mem_rectPixels pixel x y hp) (hpix ▸ hne)
    obtain ⟨hfb, hbg', hfg'⟩ := foldl_drawSubrect (x := x) (y := y)
      (v := ⟨c.bg, fg, fillRectangle x y w h c.bg v.frameBuffer⟩) hsubs_fg
    refine ⟨subs.foldl (drawSubrect (!c.mono) x y)
      ⟨c.bg, fg, fillRectangle x y w h c.bg v.frameBuffer⟩, reads_handleTile ?_, ?_, ?_⟩
    · have hloop := Reads.loop (fun t ht u => reads_tileSubrect (hfits t ht) (by omega) (by omega)
        (!c.mono) x y u) ⟨c.bg, fg, fillRectangle x y w h c.bg v.frameBuffer⟩
      rw [← hnum] at hloop
      refine (reads_pixelIf _ c.bg v.bg).bind ?_
      rw [hbg]
      exact (reads_pixelIf _ c.fg v.fg).bind ((reads_byte _).bind hloop)
    · rw [hfb]
      exact drawn_subrects hfits hpainted
    · cases hm : c.mono with
      | true =>
        rw [hm] at hbg' hfg'
        rw [if_pos rfl, SentColours.setFg_eq]
        exact ⟨fun _ => hbg', fun _ => (hfg' rfl).trans (hmono hm)⟩
      | false =>
        rw [hm] at hbg'
        rw [if_neg Bool.false_ne_true]
        exact ⟨fun _ => hbg', fun hf => absurd hf Bool.false_ne_true⟩

/-! ### All tiles -/

theorem mem_tiles {rx ry : ℤ} {rw rh : ℕ} {t : ℤ × ℤ × ℕ × ℕ} (ht : t ∈ tiles rx ry rw rh) :
    t.2.2.1 ≤ 16 ∧ t.2.2.2 ≤ 16 := by
  obtain ⟨j, -, ht⟩ := List.mem_flatMap.mp ht
  obtain ⟨i, -, rfl⟩ := List.mem_map.mp ht
  exact ⟨min_le_left _ _, min_le_left _ _⟩

theorem exists_mem_tiles {rx ry : ℤ} {rw rh : ℕ} {p : ℤ × ℤ} :
    (∃ t ∈ tiles rx ry rw rh, (rectOf t).Has p) ↔ (rectOf (rx, ry, rw, rh)).Has p := by
  unfold tiles rectOf SraRect.Has
  dsimp only
  constructor
  · rintro ⟨t, ht, hp⟩
    obtain ⟨j, hj, ht⟩ := List.mem_flatMap.mp ht
    obtain ⟨i, hi, rfl⟩ := List.mem_map.mp ht
    dsimp only at hp
    omega
  · intro hp
    refine ⟨_, List.mem_flatMap.mpr ⟨((p.2 - ry) / 16).toNat, ?_,
      List.mem_map.mpr ⟨((p.1 - rx) / 16).toNat, ?_, rfl⟩⟩, ?_⟩
    · rw [List.mem_range]
      omega
    · rw [List.mem_range]
      omega
    · dsimp only
      omega

theorem sendTiles_correct (pixel : ℤ × ℤ → Pixel n) {l : List (ℤ × ℤ × ℕ × ℕ)}
    (hl : ∀ t ∈ l, t.2.2.1 ≤ 16 ∧ t.2.2.2 ≤ 16) {s : SentColours n} {v : HextileView n}
    (hagree : Agree s v) : ∃ v', Reads (l.foldlM handleTile v) (sendTiles pixel l s) v' ∧
      v'.frameBuffer =
        l.foldl (fun picture t => putRect pixel picture (rectOf t)) v.frameBuffer := by
  induction l generalizing s v with
  | nil => exact ⟨v, Reads.pure v, rfl⟩
  | cons t l ih =>
    rw [List.forall_mem_cons] at hl
    obtain ⟨u, hread, hfb, hagree'⟩ := sendTile_correct pixel hagree t.1 t.2.1 hl.1.1 hl.1.2
    obtain ⟨v', hread', hfb'⟩ := ih hl.2 hagree'
    refine ⟨v', ?_, ?_⟩
    · rw [List.foldlM_cons]
      exact hread.bind hread'
    · rw [List.foldl_cons, hfb', hfb]
      rfl

/-- The viewer draws the rectangle, whatever its variables start with. -/
theorem reads_handleHextile (pixel : ℤ × ℤ → Pixel n) (bg fg : Pixel n) (x y : ℤ) (w h : ℕ)
    (frameBuffer : ℤ × ℤ → Pixel n) : Reads (handleHextile bg fg x y w h frameBuffer)
      (sendTiles pixel (tiles x y w h) ⟨zeroPixel n, zeroPixel n, false, false⟩)
      (putRect pixel frameBuffer ⟨x, y, x + w, y + h⟩) := by
  obtain ⟨v, hread, hfb⟩ := sendTiles_correct pixel (l := tiles x y w h)
    (s := ⟨zeroPixel n, zeroPixel n, false, false⟩) (v := ⟨bg, fg, frameBuffer⟩)
    (fun t ht => mem_tiles ht)
    ⟨fun hf => absurd hf Bool.false_ne_true, fun hf => absurd hf Bool.false_ne_true⟩
  refine (hread.map HextileView.frameBuffer).of_eq rfl ?_
  rw [hfb]
  exact foldl_putRect_rectOf fun p => exists_mem_tiles

/-- A tile takes no more than the bytes for which `sendHextiles` makes room. -/
theorem length_sendTile_le (pixel : ℤ × ℤ → Pixel n) (s : SentColours n) (x y : ℤ) {w h : ℕ}
    (hn : 0 < n) (hw : w ≤ 16) (hh : h ≤ 16) :
    (sendTile pixel s (x, y, w, h)).2.length ≤ 1 + (2 + 16 * 16) * n := by
  have harea : w * h * n ≤ 256 * n := Nat.mul_le_mul_right n (Nat.mul_le_mul hw hh)
  have hpixel (send : Bool) (pix : Pixel n) : (pixelIf send pix).length ≤ n := by
    cases send with
    | false => exact Nat.zero_le n
    | true => exact pix.2.le
  unfold sendTile
  dsimp only
  generalize testColours (rectPixels pixel x y w h) = c
  have hbg := hpixel (isNew s.validBg s.bg c.bg) c.bg
  have hfg := hpixel (c.mono && isNew s.validFg s.fg c.fg) c.fg
  by_cases hsolid : c.solid = true
  · rw [if_pos hsolid, List.length_cons]
    omega
  rw [if_neg hsolid]
  cases hsubs : subrectEncode ⟨1, if c.mono then 2 else n + 2, w * h * n⟩ c.bg w h
      fun p : ℤ × ℤ => pixel (x + p.1, y + p.2) with
  | none =>
    have hraw : (pixelBytes (rectPixels pixel x y w h)).length = w * h * n := by
      rw [pixelBytes, length_flatMap_of_forall fun pix _ => pix.2, length_rectPixels, mul_comm]
    rw [List.length_cons, hraw]
    omega
  | some subs =>
    obtain ⟨-, -, -, hsize, -⟩ := subrectEncode_spec hsubs
    have hbytes : (subs.flatMap fun s => pixelIf (!c.mono) s.pix ++ s.packed).length =
        (if c.mono then 2 else n + 2) * subs.length := by
      refine length_flatMap_of_forall fun t _ => ?_
      rw [List.length_append]
      cases c.mono with
      | true => rfl
      | false => exact congrArg (· + 2) t.pix.2
    have hsize' : 1 + (if c.mono then 2 else n + 2) * subs.length ≤ 256 * n := by
      rcases hsize with rfl | hsize
      · rw [List.length_nil, Nat.mul_zero]
        omega
      · exact hsize.trans harea
    simp only [List.length_cons, List.length_append, hbytes, s.setBg_eq]
    omega

end DroidVnc.Rfb
