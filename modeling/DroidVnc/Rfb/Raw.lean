import DroidVnc.Lib.Wire
import DroidVnc.Rfb.Subrects

/-! Pixels on the wire, the header of a rectangle, and rectangles sent as they are. The
server writes into a buffer that is sent whenever it is full; here all that is sent is one
stream of bytes, which the viewer reads. -/

namespace DroidVnc.Rfb

open Wire ClientRec

/-! ### Pixels and headers -/

/-- A pixel of the client's format as it lies in memory: `n` is `bitsPerPixel / 8`. -/
abbrev Pixel (n : ℕ) := {bytes : List UInt8 // bytes.length = n}

variable {n : ℕ}

def zeroPixel (n : ℕ) : Pixel n := ⟨List.replicate n (UInt8.ofNat 0), List.length_replicate⟩

def readPixel (n : ℕ) : Reader UInt8 (Pixel n) := do
  let bytes ← take n
  if h : bytes.length = n then pure ⟨bytes, h⟩ else failure

def readPixels (n k : ℕ) : Reader UInt8 (List (Pixel n)) :=
  loop (fun buffer => do
    let pix ← readPixel n
    pure (buffer ++ [pix])) k []

/-- `Swap16IfLE` of an `int`. -/
def be16 (z : ℤ) : List UInt8 := bigEndian 2 (u16 z).toNat

def read16 : Reader UInt8 ℤ := do
  let k ← readBigEndian 2
  pure k

structure RectHeader where
  x : ℤ
  y : ℤ
  w : ℤ
  h : ℤ
  encoding : ℕ
  deriving DecidableEq, Repr

def RectHeader.bytes (r : RectHeader) : List UInt8 :=
  be16 r.x ++ be16 r.y ++ be16 r.w ++ be16 r.h ++ bigEndian 4 r.encoding

def readRectHeader : Reader UInt8 RectHeader := do
  let x ← read16
  let y ← read16
  let w ← read16
  let h ← read16
  let encoding ← readBigEndian 4
  pure ⟨x, y, w, h, encoding⟩

def Fits16 (z : ℤ) : Prop := 0 ≤ z ∧ z < 2 ^ 16

theorem reads_pixel (p : Pixel n) : Reads (readPixel n) p.1 p := by
  intro rest
  show (take n (p.1 ++ rest)).bind (fun r =>
    (if h : r.1.length = n then pure ⟨r.1, h⟩ else failure : Reader UInt8 (Pixel n)) r.2) = _
  rw [reads_take p.2, Option.bind_some, dif_pos p.2]
  rfl

theorem reads_pixels (l : List (Pixel n)) :
    Reads (readPixels n l.length) (l.flatMap Subtype.val) l := by
  have happend : l.foldl (fun buffer pix => buffer ++ [pix]) [] = l := by
    have h (m : List (Pixel n)) : l.foldl (fun buffer pix => buffer ++ [pix]) m = m ++ l := by
      induction l generalizing m with
      | nil => exact (List.append_nil m).symm
      | cons p l ih => rw [List.foldl_cons, ih, List.append_assoc, List.singleton_append]
    exact (h []).trans (List.nil_append l)
  refine (Reads.loop (fun p _ buffer => ?_) []).of_eq rfl happend
  exact (reads_pixel p).map fun pix => buffer ++ [pix]

theorem reads_16 {z : ℤ} (hz : Fits16 z) : Reads read16 (be16 z) z := by
  obtain ⟨hlo, hhi⟩ := hz
  have hu : u16 z = z := Int.emod_eq_of_lt hlo hhi
  have hread := reads_bigEndian (k := 2) (n := z.toNat) (by omega)
  unfold be16
  rw [hu]
  exact (hread.map Int.ofNat).of_eq rfl (Int.toNat_of_nonneg hlo)

theorem reads_rectHeader {r : RectHeader} (hx : Fits16 r.x) (hy : Fits16 r.y) (hw : Fits16 r.w)
    (hh : Fits16 r.h) (he : r.encoding < 256 ^ 4) : Reads readRectHeader r.bytes r := by
  unfold RectHeader.bytes
  simp only [List.append_assoc]
  refine (reads_16 hx).bind ((reads_16 hy).bind ((reads_16 hw).bind ((reads_16 hh).bind ?_)))
  exact (reads_bigEndian he).map (RectHeader.mk r.x r.y r.w r.h)

/-! ### Rows of pixels -/

/-- What `translateFn` writes for a rectangle: `pixel` is in the client's format already. -/
def rectPixels (pixel : ℤ × ℤ → Pixel n) (x y : ℤ) (w h : ℕ) : List (Pixel n) :=
  (raster w h).map fun p => pixel (x + p.1, y + p.2)

def pixelBytes (l : List (Pixel n)) : List UInt8 := l.flatMap Subtype.val

def copyRectangle (buffer : List (Pixel n)) (x y : ℤ) (w h : ℕ) (frameBuffer : ℤ × ℤ → Pixel n) :
    ℤ × ℤ → Pixel n :=
  fun p =>
    if SraRect.Has ⟨x, y, x + w, y + h⟩ p then
      (buffer[((p.2 - y) * w + (p.1 - x)).toNat]?).getD (frameBuffer p)
    else frameBuffer p

@[simp] theorem length_raster (w h : ℕ) : (raster w h).length = w * h := by
  unfold raster
  rw [List.length_flatMap]
  simp [mul_comm]

theorem raster_add (w k m : ℕ) :
    raster w (k + m) = raster w k ++ (raster w m).map fun p => (p.1, (k : ℤ) + p.2) := by
  unfold raster
  rw [List.range_add, List.flatMap_append, List.flatMap_map, List.map_flatMap]
  congr 1
  apply List.flatMap_congr
  intro y _
  rw [List.map_map]
  apply List.map_congr_left
  intro x _
  exact Prod.ext rfl (Nat.cast_add k y)

theorem getElem?_raster {w h i j : ℕ} (hi : i < w) (hj : j < h) :
    (raster w h)[j * w + i]? = some ((i : ℤ), (j : ℤ)) := by
  induction h with
  | zero => exact absurd hj (Nat.not_lt_zero j)
  | succ h ih =>
    rw [raster_add]
    rcases Nat.lt_succ_iff_lt_or_eq.mp hj with hlt | rfl
    · have hrow : (j + 1) * w ≤ h * w := Nat.mul_le_mul_right w hlt
      rw [Nat.add_mul, Nat.one_mul] at hrow
      rw [List.getElem?_append_left (by rw [length_raster, mul_comm w h]; omega), ih hlt]
    · rw [List.getElem?_append_right (by rw [length_raster, mul_comm]; omega), length_raster,
        mul_comm w j, Nat.add_sub_cancel_left]
      simp [raster, hi]

theorem length_rectPixels (pixel : ℤ × ℤ → Pixel n) (x y : ℤ) (w h : ℕ) :
    (rectPixels pixel x y w h).length = w * h := by
  rw [rectPixels, List.length_map, length_raster]

theorem rectPixels_add (pixel : ℤ × ℤ → Pixel n) (x y : ℤ) (w k m : ℕ) :
    rectPixels pixel x y w (k + m) =
      rectPixels pixel x y w k ++ rectPixels pixel x (y + k) w m := by
  unfold rectPixels
  rw [raster_add, List.map_append, List.map_map]
  congr 1
  apply List.map_congr_left
  intro p _
  rw [Function.comp_apply, add_assoc]

theorem copyRectangle_rectPixels (pixel : ℤ × ℤ → Pixel n) (x y : ℤ) (w h : ℕ)
    (frameBuffer : ℤ × ℤ → Pixel n) :
    copyRectangle (rectPixels pixel x y w h) x y w h frameBuffer =
      putRect pixel frameBuffer ⟨x, y, x + w, y + h⟩ := by
  funext p
  unfold copyRectangle putRect
  split_ifs with hp
  · obtain ⟨⟨hx, hx'⟩, hy, hy'⟩ := hp
    dsimp only at hx hx' hy hy'
    have hindex : ((p.2 - y) * w + (p.1 - x)).toNat = (p.2 - y).toNat * w + (p.1 - x).toNat := by
      have hmul : ((p.2 - y).toNat : ℤ) * w = (p.2 - y) * w := by
        rw [Int.toNat_of_nonneg (by omega)]
      omega
    rw [hindex, rectPixels, List.getElem?_map, getElem?_raster (by omega) (by omega)]
    show pixel _ = pixel p
    congr 1
    exact Prod.ext (by dsimp only; omega) (by dsimp only; omega)
  · rfl

theorem putRect_putRect {α : Type} (pixel picture : ℤ × ℤ → α) (x y w : ℤ) (k m : ℕ) :
    putRect pixel (putRect pixel picture ⟨x, y, x + w, y + k⟩)
        ⟨x, y + k, x + w, y + k + m⟩ =
      putRect pixel picture ⟨x, y, x + w, y + (k + m : ℕ)⟩ := by
  funext p
  have hor : SraRect.Has ⟨x, y, x + w, y + (k + m : ℕ)⟩ p ↔
      SraRect.Has ⟨x, y + k, x + w, y + k + m⟩ p ∨ SraRect.Has ⟨x, y, x + w, y + k⟩ p := by
    unfold SraRect.Has
    dsimp only
    omega
  show (if _ then _ else if _ then _ else _) = if _ then _ else _
  rw [← ite_or]
  exact if_congr hor.symm rfl rfl

/-! ### Raw -/

def rfbBufferSize : ℕ := 640 * 480

/-- The loop of `rfbSendRectEncodingRaw`, with room for `nlines` more rows. No result if
one row is too long for an empty buffer: the client is closed. -/
def rawLines (pixel : ℤ × ℤ → Pixel n) (x : ℤ) (w nlines : ℕ) (y : ℤ) (h : ℕ) :
    Option (List UInt8) :=
  let k := min nlines h
  let bytes := pixelBytes (rectPixels pixel x y w k)
  if _hk : h - k = 0 then some bytes
  else
    let full := updateBufSize / (w * n)
    if _hfull : full = 0 then none
    else (rawLines pixel x w full (y + k) (h - k)).map (bytes ++ ·)
  termination_by (h, if nlines = 0 then 1 else 0)
  decreasing_by
    by_cases hn : nlines = 0
    · rw [if_pos hn, if_neg _hfull, hn, Nat.zero_min, Nat.sub_zero]
      exact Prod.Lex.right _ Nat.zero_lt_one
    · exact Prod.Lex.left _ _ (by omega)

/-- `rfbSendRectEncodingRaw`. The buffer holds the header alone when the rows start. -/
def sendRectEncodingRaw (pixel : ℤ × ℤ → Pixel n) (x y : ℤ) (w h : ℕ) : Option (List UInt8) :=
  let bytesPerLine := w * n
  -- there is no check: it is divided by zero
  if bytesPerLine = 0 then none
  else
    (rawLines pixel x w ((updateBufSize - 12) / bytesPerLine) y h).map
      ((RectHeader.mk x y w h 0).bytes ++ ·)

/-- The viewer's loop for `rfbEncodingRaw`. No result if rows have no bytes, which it divides
by, or if not even one row fits: the loop does not end. -/
def handleRaw (x : ℤ) (w : ℕ) (y : ℤ) (h : ℕ) (frameBuffer : ℤ × ℤ → Pixel n) :
    Reader UInt8 (ℤ × ℤ → Pixel n) :=
  let linesToRead := rfbBufferSize / (w * n)
  if w * n = 0 then failure
  else if h = 0 then pure frameBuffer
  else if _hlines : linesToRead = 0 then failure
  else do
    let k := min linesToRead h
    let buffer ← readPixels n (w * k)
    handleRaw x w (y + k) (h - k) (copyRectangle buffer x y w k frameBuffer)
  termination_by h
  decreasing_by
    have hpos := Nat.pos_of_ne_zero _hlines
    omega

theorem pixelBytes_append (l m : List (Pixel n)) :
    pixelBytes (l ++ m) = pixelBytes l ++ pixelBytes m := List.flatMap_append

/-- The parts of a rectangle that go out one after another make it up. -/
theorem rawLines_eq {pixel : ℤ × ℤ → Pixel n} {x : ℤ} {w nlines h : ℕ} {y : ℤ}
    (hpos : 0 < w * n) (hw : w * n ≤ updateBufSize) :
    rawLines pixel x w nlines y h = some (pixelBytes (rectPixels pixel x y w h)) := by
  fun_induction rawLines pixel x w nlines y h with
  | case1 nlines y h k bytes hk =>
    have hkh : k = h := by
      have hle : k ≤ h := Nat.min_le_right _ _
      omega
    unfold bytes
    rw [hkh]
  | case2 nlines y h k hk full hfull =>
    exact absurd hfull (Nat.div_pos hw hpos).ne'
  | case3 nlines y h k bytes hk full hfull ih =>
    have hsplit : h = k + (h - k) := by
      have hle : k ≤ h := Nat.min_le_right _ _
      omega
    rw [ih, Option.map_some]
    conv_rhs => rw [hsplit, rectPixels_add, pixelBytes_append]

theorem sendRectEncodingRaw_eq {pixel : ℤ × ℤ → Pixel n} {x y : ℤ} {w h : ℕ} (hpos : 0 < w * n)
    (hw : w * n ≤ updateBufSize) : sendRectEncodingRaw pixel x y w h =
      some ((RectHeader.mk x y w h 0).bytes ++ pixelBytes (rectPixels pixel x y w h)) := by
  unfold sendRectEncodingRaw
  dsimp only
  rw [if_neg hpos.ne', rawLines_eq hpos hw, Option.map_some]

theorem reads_rectPixels (pixel : ℤ × ℤ → Pixel n) (x y : ℤ) (w h : ℕ) :
    Reads (readPixels n (w * h)) (pixelBytes (rectPixels pixel x y w h))
      (rectPixels pixel x y w h) := by
  have hreads := reads_pixels (rectPixels pixel x y w h)
  rwa [length_rectPixels] at hreads

theorem reads_handleRaw {pixel frameBuffer : ℤ × ℤ → Pixel n} {x y : ℤ} {w h : ℕ}
    (hpos : 0 < w * n) (hw : w * n ≤ rfbBufferSize) :
    Reads (handleRaw x w y h frameBuffer) (pixelBytes (rectPixels pixel x y w h))
      (putRect pixel frameBuffer ⟨x, y, x + w, y + h⟩) := by
  induction h using Nat.strong_induction_on generalizing y frameBuffer with
  | _ h ih =>
    unfold handleRaw
    rw [if_neg hpos.ne']
    by_cases hh : h = 0
    · subst hh
      have hempty : putRect pixel frameBuffer ⟨x, y, x + w, y + (0 : ℕ)⟩ = frameBuffer := by
        funext p
        refine if_neg fun hp => ?_
        obtain ⟨-, h1, h2⟩ := hp
        dsimp only at h1 h2
        omega
      rw [if_pos rfl, hempty]
      exact (Reads.pure frameBuffer).of_eq (by simp [rectPixels, raster, pixelBytes]) rfl
    · have hlines := Nat.div_pos hw hpos
      have hk : 0 < min (rfbBufferSize / (w * n)) h := lt_min hlines (Nat.pos_of_ne_zero hh)
      rw [if_neg hh, dif_neg hlines.ne']
      generalize hkk : min (rfbBufferSize / (w * n)) h = k at hk
      have hsplit : h = k + (h - k) := by omega
      have hread := (reads_rectPixels pixel x y w k).bind
        (f := fun buffer =>
          handleRaw x w (y + k) (h - k) (copyRectangle buffer x y w k frameBuffer))
        (ih (h - k) (by omega))
      refine hread.of_eq ?_ ?_
      · conv_rhs => rw [hsplit, rectPixels_add, pixelBytes_append]
      · rw [copyRectangle_rectPixels, putRect_putRect, ← hsplit]

end DroidVnc.Rfb
