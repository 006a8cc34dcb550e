import Mathlib.Data.List.Forall2
import DroidVnc.Rfb.Hextile

/-! The whole of a FramebufferUpdate: how many rectangles it says there are, the CopyRects,
and the rectangles of pixels in the encoding that the client prefers. What the viewer reads
is what was meant, rectangle by rectangle. -/

namespace DroidVnc.Rfb

open Wire ClientRec

variable {n : ℕ}

/-! ### The server -/

/-- The encodings that are followed down to their bytes. -/
inductive PixelEncoding
  | raw | rre | coRRE | hextile
  deriving DecidableEq, Repr

/-- The rectangle of the iterator as `x`, `y`, `w` and `h`. -/
def SraRect.xywh (r : SraRect) : ℤ × ℤ × ℕ × ℕ :=
  (r.x1, r.y1, (r.x2 - r.x1).toNat, (r.y2 - r.y1).toNat)

/-- `rfbSendRectEncoding...`, by `cl->preferredEncoding`. -/
def sendRect (e : PixelEncoding) (afterEncBufSize : ℕ) (pixel : ℤ × ℤ → Pixel n)
    (r : ℤ × ℤ × ℕ × ℕ) : Option (List UInt8) :=
  match e with
  | .raw => sendRectEncodingRaw pixel r.1 r.2.1 r.2.2.1 r.2.2.2
  | .rre => sendRectEncodingRRE afterEncBufSize pixel r.1 r.2.1 r.2.2.1 r.2.2.2
  | .coRRE => sendRectEncodingCoRRE afterEncBufSize pixel r.1 r.2.1 r.2.2.1 r.2.2.2
  | .hextile => some (sendRectEncodingHextile pixel r.1 r.2.1 r.2.2.1 r.2.2.2)

/-- `rectsPerRow*rows` of CoRRE; else a rectangle is one. -/
def PixelEncoding.rectCount (e : PixelEncoding) (r : ℤ × ℤ × ℕ × ℕ) : ℕ :=
  match e with
  | .coRRE => ((r.2.2.1 - 1) / correMax + 1) * ((r.2.2.2 - 1) / correMax + 1)
  | _ => 1

/-- `nUpdateRegionRects`. -/
def countUpdateRects (e : PixelEncoding) (rects : List SraRect) : ℕ :=
  (rects.map fun r => e.rectCount r.xywh).sum

def CopyRect.bytes (c : CopyRect) : List UInt8 :=
  (RectHeader.mk c.x c.y c.w c.h 1).bytes ++ (be16 c.srcX ++ be16 c.srcY)

def lastRect : RectHeader := ⟨0, 0, 0, 0, 0xFFFFFF20⟩

/-- The message of `rfbSendFramebufferUpdate`; `pad` is what happens to be in the buffer. The
CopyRects come behind its header in the update buffer, which they must not overrun. -/
def sendUpdate (e : PixelEncoding) (afterEncBufSize : ℕ) (pad : UInt8) (pixel : ℤ × ℤ → Pixel n)
    (copies : List CopyRect) (rects : List SraRect) : Option (List UInt8) :=
  let k := countUpdateRects e rects
  if 4 + 16 * copies.length ≤ updateBufSize then
    (rects.mapM fun r => sendRect e afterEncBufSize pixel r.xywh).map fun bytes =>
      if k ≠ 0xFFFF then
        0 :: pad :: (be16 (copies.length + k) ++ (copies.flatMap CopyRect.bytes ++ bytes.flatten))
      else
        0 :: pad :: (be16 0xFFFF ++
          (copies.flatMap CopyRect.bytes ++ (bytes.flatten ++ lastRect.bytes)))
  else none

/-! ### The viewer -/

/-- The viewer: the size it was told and its framebuffer. -/
structure Viewer (n : ℕ) where
  width : ℤ
  height : ℤ
  frameBuffer : ℤ × ℤ → Pixel n

/-- What a rectangle does to the framebuffer, its header being read. -/
def handlePixels (bg fg : Pixel n) (r : RectHeader) (frameBuffer : ℤ × ℤ → Pixel n) :
    Reader UInt8 (ℤ × ℤ → Pixel n) :=
  match r.encoding with
  | 0 => handleRaw r.x r.w.toNat r.y r.h.toNat frameBuffer
  | 1 => do
    let srcX ← read16
    let srcY ← read16
    pure (handleCopyRect frameBuffer ⟨r.x, r.y, r.w, r.h, srcX, srcY⟩)
  | 2 => handleRRE r.x r.y r.w r.h frameBuffer
  | 4 => handleCoRRE r.x r.y r.w r.h frameBuffer
  | 5 => handleHextile bg fg r.x r.y r.w.toNat r.h.toNat frameBuffer
  | _ => failure

/-- The loop over the rectangles. `bg` and `fg` are the variables of `HandleHextile`. -/
def handleRects (bg fg : Pixel n) : ℕ → Viewer n → Reader UInt8 (Viewer n)
  | 0, v => pure v
  | k + 1, v => do
    let r ← readRectHeader
    if r.encoding = lastRect.encoding then pure v
    else if r.x + r.w > v.width ∨ r.y + r.h > v.height then failure
    else
      let frameBuffer ← handlePixels bg fg r v.frameBuffer
      handleRects bg fg k { v with frameBuffer }

/-- `HandleRFBServerMessage`, for a FramebufferUpdate. -/
def handleFramebufferUpdate (bg fg : Pixel n) (v : Viewer n) : Reader UInt8 (Viewer n) := do
  let type ← readByte
  if type ≠ 0 then failure
  else
    let _ ← readByte
    let nRects ← read16
    handleRects bg fg nRects.toNat v

/-! ### Rectangle by rectangle -/

/-- The bytes are `k` rectangles, which do `f` to the framebuffer of a viewer of this size. -/
def Draws (W H : ℤ) (k : ℕ) (bytes : List UInt8)
    (f : (ℤ × ℤ → Pixel n) → ℤ × ℤ → Pixel n) : Prop :=
  ∀ (bg fg : Pixel n) (frameBuffer : ℤ × ℤ → Pixel n) (m : ℕ) (bytes' : List UInt8) (v : Viewer n),
    Reads (handleRects bg fg m ⟨W, H, f frameBuffer⟩) bytes' v →
    Reads (handleRects bg fg (k + m) ⟨W, H, frameBuffer⟩) (bytes ++ bytes') v

section Draws

variable {W H : ℤ} {k k' : ℕ} {bytes bytes' : List UInt8}
  {f g : (ℤ × ℤ → Pixel n) → ℤ × ℤ → Pixel n}

theorem Draws.nil : Draws (n := n) W H 0 [] id := by
  intro bg fg frameBuffer m bytes' v h
  rw [Nat.zero_add]
  exact h

theorem Draws.append (h : Draws W H k bytes f) (h' : Draws W H k' bytes' g) :
    Draws W H (k + k') (bytes ++ bytes') (g ∘ f) := by
  intro bg fg frameBuffer m rest v hrest
  rw [Nat.add_assoc, List.append_assoc]
  exact h bg fg frameBuffer _ _ v (h' bg fg _ m rest v hrest)

theorem Draws.flatten {ι : Type} {l : List ι} {count : ι → ℕ} {outs : List (List UInt8)}
    {draw : (ℤ × ℤ → Pixel n) → ι → ℤ × ℤ → Pixel n}
    (h : List.Forall₂ (fun i out => Draws W H (count i) out fun frameBuffer => draw frameBuffer i)
      l outs) :
    Draws W H (l.map count).sum outs.flatten fun frameBuffer => l.foldl draw frameBuffer := by
  induction h with
  | nil => exact Draws.nil
  | cons hi _ ih =>
    rw [List.map_cons, List.sum_cons, List.flatten_cons]
    exact hi.append ih

theorem Draws.flatMap {ι : Type} {l : List ι} {count : ι → ℕ} {bytes : ι → List UInt8}
    {draw : (ℤ × ℤ → Pixel n) → ι → ℤ × ℤ → Pixel n}
    (h : ∀ i ∈ l, Draws W H (count i) (bytes i) fun frameBuffer => draw frameBuffer i) :
    Draws W H (l.map count).sum (l.flatMap bytes) fun frameBuffer => l.foldl draw frameBuffer :=
  Draws.flatten (List.forall₂_map_right_iff.mpr (List.forall₂_same.mpr h))

/-- One rectangle. -/
theorem Draws.rect {r : RectHeader} (hx : 0 ≤ r.x ∧ r.x + r.w ≤ W) (hy : 0 ≤ r.y ∧ r.y + r.h ≤ H)
    (hw : 0 ≤ r.w) (hh : 0 ≤ r.h) (hW : W < 2 ^ 16) (hH : H < 2 ^ 16) (he : r.encoding < 16)
    (hbody : ∀ (bg fg : Pixel n) frameBuffer,
      Reads (handlePixels bg fg r frameBuffer) bytes (f frameBuffer)) :
    Draws W H 1 (r.bytes ++ bytes) f := by
  intro bg fg frameBuffer m rest v hrest
  have hheader : Reads readRectHeader r.bytes r :=
    reads_rectHeader ⟨hx.1, by omega⟩ ⟨hy.1, by omega⟩ ⟨hw, by omega⟩ ⟨hh, by omega⟩ (by omega)
  rw [Nat.add_comm, handleRects, List.append_assoc]
  refine hheader.bind ?_
  rw [if_neg (by unfold lastRect; dsimp only; omega), if_neg (by dsimp only; omega)]
  exact (hbody bg fg frameBuffer).bind hrest

end Draws

/-- A rectangle that is not empty, on a screen whose rows fit in the update buffer. -/
structure OnScreen (n : ℕ) (W H : ℤ) (r : ℤ × ℤ × ℕ × ℕ) : Prop where
  x : 0 ≤ r.1 ∧ r.1 + r.2.2.1 ≤ W
  y : 0 ≤ r.2.1 ∧ r.2.1 + r.2.2.2 ≤ H
  w : 0 < r.2.2.1
  h : 0 < r.2.2.2
  row : r.2.2.1 * n ≤ updateBufSize

section Rect

variable {W H : ℤ} {r : ℤ × ℤ × ℕ × ℕ} {pixel : ℤ × ℤ → Pixel n} {bufSize : ℕ}

theorem OnScreen.draws (hr : OnScreen n W H r) (hW : W < 2 ^ 16) (hH : H < 2 ^ 16) {encoding : ℕ}
    (he : encoding < 16) {bytes : List UInt8}
    (hbody : ∀ (bg fg : Pixel n) frameBuffer,
      Reads (handlePixels bg fg ⟨r.1, r.2.1, r.2.2.1, r.2.2.2, encoding⟩ frameBuffer) bytes
        (putRect pixel frameBuffer (rectOf r))) :
    Draws W H 1 ((RectHeader.mk r.1 r.2.1 r.2.2.1 r.2.2.2 encoding).bytes ++ bytes)
      fun frameBuffer => putRect pixel frameBuffer (rectOf r) :=
  Draws.rect hr.x hr.y (Int.natCast_nonneg _) (Int.natCast_nonneg _) hW hH he hbody

theorem OnScreen.draws_raw (hn : 0 < n) (hr : OnScreen n W H r) (hW : W < 2 ^ 16)
    (hH : H < 2 ^ 16) : ∃ bytes, sendRectEncodingRaw pixel r.1 r.2.1 r.2.2.1 r.2.2.2 = some bytes ∧
      Draws W H 1 bytes fun frameBuffer => putRect pixel frameBuffer (rectOf r) := by
  have hpos : 0 < r.2.2.1 * n := Nat.mul_pos hr.w hn
  have hrow : r.2.2.1 * n ≤ rfbBufferSize := hr.row.trans (by decide)
  exact ⟨_, sendRectEncodingRaw_eq hpos hr.row,
    hr.draws hW hH (by decide) fun bg fg frameBuffer => reads_handleRaw hpos hrow⟩

/-- Subrectangles, or raw. -/
theorem OnScreen.draws_subrects (hn : 0 < n) (hr : OnScreen n W H r) (hW : W < 2 ^ 16)
    (hH : H < 2 ^ 16) {encoding size : ℕ} (he : encoding < 16) (hsize : 0 < size)
    {bytes : Subrect (Pixel n) → List UInt8} {readRect : Reader UInt8 (ℤ × ℤ × ℤ × ℤ)}
    (hhandle : ∀ (bg fg : Pixel n) frameBuffer,
      handlePixels bg fg ⟨r.1, r.2.1, r.2.2.1, r.2.2.2, encoding⟩ frameBuffer =
        handleSubrects readRect r.1 r.2.1 r.2.2.1 r.2.2.2 frameBuffer)
    (hread : ∀ s : Subrect (Pixel n), s.Fits r.2.2.1 r.2.2.2 →
      Reads readRect (bytes s) (s.x, s.y, s.w, s.h)) :
    ∃ out, sendSubrects encoding size bytes bufSize pixel r.1 r.2.1 r.2.2.1 r.2.2.2 = some out ∧
      Draws W H 1 out fun frameBuffer => putRect pixel frameBuffer (rectOf r) := by
  have hx := hr.x
  have hy := hr.y
  rcases sendSubrects_cases encoding bufSize pixel r.1 r.2.1 (by omega) (by omega) hsize hread with
    hraw | ⟨body, hsent, hbody⟩
  · rw [hraw]
    exact hr.draws_raw hn hW hH
  · refine ⟨_, hsent, hr.draws hW hH he fun bg fg frameBuffer => ?_⟩
    rw [hhandle]
    exact hbody frameBuffer

theorem Fits16.of_fits {s : Subrect (Pixel n)} {w h : ℤ} (hs : s.Fits w h) (hw : w < 2 ^ 16)
    (hh : h < 2 ^ 16) : Fits16 s.x ∧ Fits16 s.y ∧ Fits16 s.w ∧ Fits16 s.h := by
  obtain ⟨hx, hy, hw1, hh1⟩ := hs
  unfold Fits16
  omega

theorem OnScreen.draws_rre (hn : 0 < n) (hr : OnScreen n W H r) (hW : W < 2 ^ 16)
    (hH : H < 2 ^ 16) :
    ∃ out, sendRectEncodingRRE bufSize pixel r.1 r.2.1 r.2.2.1 r.2.2.2 = some out ∧
      Draws W H 1 out fun frameBuffer => putRect pixel frameBuffer (rectOf r) := by
  refine hr.draws_subrects hn hW hH (by decide) (by decide) (fun _ _ _ => rfl) fun s hs => ?_
  have hx := hr.x
  have hy := hr.y
  obtain ⟨h1, h2, h3, h4⟩ := Fits16.of_fits hs (by omega) (by omega)
  exact reads_rect16 h1 h2 h3 h4

theorem OnScreen.draws_smallCoRRE (hn : 0 < n) (hr : OnScreen n W H r) (hW : W < 2 ^ 16)
    (hH : H < 2 ^ 16) (hw : r.2.2.1 ≤ correMax) (hh : r.2.2.2 ≤ correMax) :
    ∃ out, sendSmallRectEncodingCoRRE bufSize pixel r.1 r.2.1 r.2.2.1 r.2.2.2 = some out ∧
      Draws W H 1 out fun frameBuffer => putRect pixel frameBuffer (rectOf r) := by
  refine hr.draws_subrects hn hW hH (by decide) (by decide) (fun _ _ _ => rfl) fun s hs => ?_
  obtain ⟨hx, hy, hw1, hh1⟩ := hs
  unfold correMax at hw hh
  exact reads_rect8 (by omega) (by omega) (by omega) (by omega)

/-- The small rectangles of CoRRE make up the rectangle, and there are as many as announced. -/
theorem OnScreen.draws_coRRE (hn : 0 < n) (hr : OnScreen n W H r) (hW : W < 2 ^ 16)
    (hH : H < 2 ^ 16) :
    ∃ out, sendRectEncodingCoRRE bufSize pixel r.1 r.2.1 r.2.2.1 r.2.2.2 = some out ∧
      Draws W H (((r.2.2.1 - 1) / correMax + 1) * ((r.2.2.2 - 1) / correMax + 1)) out
        fun frameBuffer => putRect pixel frameBuffer (rectOf r) := by
  refine ⟨_, rfl, ?_⟩
  have hsmall (t : ℤ × ℤ × ℕ × ℕ) (ht : t ∈ correRects r.1 r.2.1 r.2.2.1 r.2.2.2) :
      Draws W H 1 ((sendSmallRectEncodingCoRRE bufSize pixel t.1 t.2.1 t.2.2.1 t.2.2.2).getD [])
        fun frameBuffer => putRect pixel frameBuffer (rectOf t) := by
    obtain ⟨hx, hy, hw, hh⟩ := of_mem_correRects hr.w hr.h ht
    have hrx := hr.x
    have hry := hr.y
    have hle : t.2.2.1 ≤ r.2.2.1 := by omega
    have ht : OnScreen n W H t := ⟨by omega, by omega, hw.1, hh.1,
      (Nat.mul_le_mul_right n hle).trans hr.row⟩
    obtain ⟨out, hout, hdraws⟩ := ht.draws_smallCoRRE hn hW hH hw.2 hh.2
    rw [hout]
    exact hdraws
  have hdraws : Draws W H ((correRects r.1 r.2.1 r.2.2.1 r.2.2.2).map fun _ => 1).sum
      ((correRects r.1 r.2.1 r.2.2.1 r.2.2.2).flatMap fun t =>
        (sendSmallRectEncodingCoRRE bufSize pixel t.1 t.2.1 t.2.2.1 t.2.2.2).getD [])
      fun frameBuffer => (correRects r.1 r.2.1 r.2.2.1 r.2.2.2).foldl
        (fun picture t => putRect pixel picture (rectOf t)) frameBuffer := Draws.flatMap hsmall
  have hcount : ((correRects r.1 r.2.1 r.2.2.1 r.2.2.2).map fun _ => 1).sum =
      ((r.2.2.1 - 1) / correMax + 1) * ((r.2.2.2 - 1) / correMax + 1) := by
    rw [← length_correRects r.1 r.2.1 hr.w hr.h]
    simp
  rw [hcount] at hdraws
  have hrect : (fun frameBuffer : ℤ × ℤ → Pixel n => (correRects r.1 r.2.1 r.2.2.1 r.2.2.2).foldl
      (fun picture t => putRect pixel picture (rectOf t)) frameBuffer) =
      fun frameBuffer => putRect pixel frameBuffer (rectOf r) := by
    funext frameBuffer
    exact foldl_putRect_rectOf fun p => exists_mem_correRects
  rw [hrect] at hdraws
  exact hdraws

theorem OnScreen.draws_hextile (hr : OnScreen n W H r) (hW : W < 2 ^ 16) (hH : H < 2 ^ 16) :
    Draws W H 1 (sendRectEncodingHextile pixel r.1 r.2.1 r.2.2.1 r.2.2.2) fun frameBuffer =>
      putRect pixel frameBuffer (rectOf r) :=
  hr.draws hW hH (by decide) fun bg fg frameBuffer =>
    reads_handleHextile pixel bg fg r.1 r.2.1 r.2.2.1 r.2.2.2 frameBuffer

variable (pixel bufSize) in
/-- Whatever the encoding. -/
theorem OnScreen.draws_sendRect (hn : 0 < n) (hr : OnScreen n W H r) (hW : W < 2 ^ 16)
    (hH : H < 2 ^ 16) (e : PixelEncoding) :
    ∃ out, sendRect e bufSize pixel r = some out ∧
      Draws W H (e.rectCount r) out fun frameBuffer => putRect pixel frameBuffer (rectOf r) := by
  cases e with
  | raw => exact hr.draws_raw hn hW hH
  | rre => exact hr.draws_rre hn hW hH
  | coRRE => exact hr.draws_coRRE hn hW hH
  | hextile => exact ⟨_, rfl, hr.draws_hextile hW hH⟩

end Rect

/-- A CopyRect with pixels that stays on the screen. -/
structure CopyRect.OnScreen (W H : ℤ) (c : CopyRect) : Prop where
  x : 0 ≤ c.x ∧ c.x + c.w ≤ W
  y : 0 ≤ c.y ∧ c.y + c.h ≤ H
  w : 0 < c.w
  h : 0 < c.h
  srcX : Fits16 c.srcX
  srcY : Fits16 c.srcY

theorem CopyRect.OnScreen.draws {W H : ℤ} {c : CopyRect} (hc : c.OnScreen W H) (hW : W < 2 ^ 16)
    (hH : H < 2 ^ 16) :
    Draws (n := n) W H 1 c.bytes fun frameBuffer => handleCopyRect frameBuffer c := by
  refine Draws.rect hc.x hc.y hc.w.le hc.h.le hW hH (by dsimp only; omega)
    fun bg fg frameBuffer => ?_
  refine (reads_16 hc.srcX).bind ?_
  exact (reads_16 hc.srcY).map fun srcY =>
    handleCopyRect frameBuffer ⟨c.x, c.y, c.w, c.h, c.srcX, srcY⟩

/-! ### The message -/

theorem exists_mapM {ι α : Type} {f : ι → Option α} {l : List ι} {P : ι → α → Prop}
    (h : ∀ i ∈ l, ∃ a, f i = some a ∧ P i a) :
    ∃ as, l.mapM f = some as ∧ List.Forall₂ P l as := by
  induction l with
  | nil => exact ⟨[], rfl, .nil⟩
  | cons i l ih =>
    rw [List.forall_mem_cons] at h
    obtain ⟨⟨a, ha, hP⟩, hl⟩ := h
    obtain ⟨as, has, hPs⟩ := ih hl
    refine ⟨a :: as, ?_, .cons hP hPs⟩
    rw [List.mapM_cons, ha, has]
    rfl

/-- What the viewer reads of an update is what was meant: the copies, and then the pixels of
every rectangle. -/
theorem reads_sendUpdate (hn : 0 < n) {W H : ℤ} (hW : W < 2 ^ 16) (hH : H < 2 ^ 16)
    (e : PixelEncoding) (bufSize : ℕ) (pad : UInt8) (pixel : ℤ × ℤ → Pixel n)
    {copies : List CopyRect} {rects : List SraRect} (hcopies : ∀ c ∈ copies, c.OnScreen W H)
    (hrects : ∀ r ∈ rects, OnScreen n W H r.xywh)
    (hroom : 4 + 16 * copies.length ≤ updateBufSize)
    (hcount : copies.length + countUpdateRects e rects < 0xFFFF) (bg fg : Pixel n)
    (frameBuffer : ℤ × ℤ → Pixel n) :
    ∃ bytes, sendUpdate e bufSize pad pixel copies rects = some bytes ∧
      Reads (handleFramebufferUpdate bg fg ⟨W, H, frameBuffer⟩) bytes
        ⟨W, H, rects.foldl (putRect pixel) (copies.foldl handleCopyRect frameBuffer)⟩ := by
  have hrect (r : SraRect) (hr : r ∈ rects) :
      ∃ out, sendRect e bufSize pixel r.xywh = some out ∧
        Draws W H (e.rectCount r.xywh) out fun frameBuffer => putRect pixel frameBuffer r := by
    have hr := hrects r hr
    have hrectOf : rectOf r.xywh = r := by
      have hw := hr.w
      have hh := hr.h
      unfold SraRect.xywh at hw hh
      unfold rectOf SraRect.xywh
      dsimp only at hw hh ⊢
      rw [Int.toNat_of_nonneg (by omega), Int.toNat_of_nonneg (by omega), add_sub_cancel,
        add_sub_cancel]
    have hdraws := hr.draws_sendRect pixel bufSize hn hW hH e
    rwa [hrectOf] at hdraws
  obtain ⟨outs, houts, hdraws⟩ := exists_mapM hrect
  have hcopy : Draws (n := n) W H (copies.map fun _ => 1).sum (copies.flatMap CopyRect.bytes)
      fun frameBuffer => copies.foldl handleCopyRect frameBuffer :=
    Draws.flatMap fun c hc => (hcopies c hc).draws hW hH
  have hall := hcopy.append (Draws.flatten hdraws)
  have hsum : (copies.map fun _ => 1).sum + (rects.map fun r => e.rectCount r.xywh).sum =
      copies.length + countUpdateRects e rects := by
    rw [countUpdateRects]
    simp
  rw [hsum] at hall
  refine ⟨_, by rw [sendUpdate, if_pos hroom, houts]; rfl, ?_⟩
  dsimp only
  rw [if_pos (by omega)]
  have hnum : Reads read16 (be16 (copies.length + countUpdateRects e rects))
      ((copies.length + countUpdateRects e rects : ℕ) : ℤ) := by
    have h16 := reads_16 (z := ((copies.length + countUpdateRects e rects : ℕ) : ℤ))
      ⟨by omega, by omega⟩
    rwa [Nat.cast_add] at h16 ⊢
  refine (reads_byte 0).bind ((reads_byte pad).bind (hnum.bind ?_))
  rw [Int.toNat_natCast]
  have hread := hall bg fg frameBuffer 0 [] ⟨W, H, _⟩ (Reads.pure _)
  rwa [Nat.add_zero, List.append_nil] at hread

end DroidVnc.Rfb
