import DroidVnc.Rfb.Pictures
import DroidVnc.Rfb.Raw

/-! RRE and CoRRE: a background, and subrectangles drawn over it. The server looks for the
subrectangles, and sends the pixels as they are where these would take more bytes. -/

namespace DroidVnc.Rfb

open Wire ClientRec

variable {n : ℕ}

/-! ### The background -/

/-- How often each colour has been met, and the one met most often. -/
structure Counts (n : ℕ) where
  counts : Pixel n → ℕ
  maxcount : ℕ
  maxclr : Pixel n

def Counts.add (c : Counts n) (pix : Pixel n) : Counts n :=
  let k := c.counts pix + 1
  { counts := Function.update c.counts pix k
    maxcount := if c.maxcount < k then k else c.maxcount
    maxclr := if c.maxcount < k then pix else c.maxclr }

def Counts.start (n : ℕ) : Counts n := ⟨fun _ => 0, 0, zeroPixel n⟩

/-- `getBgColour`: only pixels of 8 bits are counted. -/
def getBgColour (data : ℤ × ℤ → Pixel n) (w h : ℕ) : Pixel n :=
  if n ≠ 1 then data (0, 0)
  else (((raster w h).map data).foldl Counts.add (Counts.start n)).maxclr

/-! ### The server -/

def Subrect.bytes16 (s : Subrect (Pixel n)) : List UInt8 :=
  be16 s.x ++ (be16 s.y ++ (be16 s.w ++ be16 s.h))

/-- An int as a `uint8_t`. -/
def byte (z : ℤ) : List UInt8 := bigEndian 1 (z % 2 ^ 8).toNat

def Subrect.bytes8 (s : Subrect (Pixel n)) : List UInt8 :=
  byte s.x ++ (byte s.y ++ (byte s.w ++ byte s.h))

/-- The header with `encoding`, the number of subrectangles, the background, and the
subrectangles, each of `size` bytes after its colour; or the pixels as they are. -/
def sendSubrects (encoding size : ℕ) (bytes : Subrect (Pixel n) → List UInt8)
    (afterEncBufSize : ℕ) (pixel : ℤ × ℤ → Pixel n) (x y : ℤ) (w h : ℕ) : Option (List UInt8) :=
  let data := fun p : ℤ × ℤ => pixel (x + p.1, y + p.2)
  let bg := getBgColour data w h
  match subrectEncode ⟨n, n + size, min (w * h * n) afterEncBufSize⟩ bg w h data with
  | none => sendRectEncodingRaw pixel x y w h
  | some subs => some ((RectHeader.mk x y w h encoding).bytes ++
      (bigEndian 4 subs.length ++ (bg.1 ++ subs.flatMap fun s => s.pix.1 ++ bytes s)))

def sendRectEncodingRRE (afterEncBufSize : ℕ) (pixel : ℤ × ℤ → Pixel n) (x y : ℤ) (w h : ℕ) :
    Option (List UInt8) :=
  sendSubrects 2 8 Subrect.bytes16 afterEncBufSize pixel x y w h

def sendSmallRectEncodingCoRRE (afterEncBufSize : ℕ) (pixel : ℤ × ℤ → Pixel n) (x y : ℤ)
    (w h : ℕ) : Option (List UInt8) :=
  sendSubrects 4 4 Subrect.bytes8 afterEncBufSize pixel x y w h

/-- `correMaxWidth` and `correMaxHeight`. -/
def correMax : ℕ := 48

/-- The small rectangles that `rfbSendRectEncodingCoRRE` goes down to, in their order. -/
def correRects (x y : ℤ) (w h : ℕ) : List (ℤ × ℤ × ℕ × ℕ) :=
  if h > correMax then
    correRects x y w correMax ++ correRects x (y + correMax) w (h - correMax)
  else if w > correMax then
    correRects x y correMax h ++ correRects (x + correMax) y (w - correMax) h
  else [(x, y, w, h)]
  termination_by h + w
  decreasing_by all_goals (unfold correMax at *; omega)

/-- `rfbSendRectEncodingCoRRE`. It does not ask how the small rectangles went. -/
def sendRectEncodingCoRRE (afterEncBufSize : ℕ) (pixel : ℤ × ℤ → Pixel n) (x y : ℤ) (w h : ℕ) :
    Option (List UInt8) :=
  some ((correRects x y w h).flatMap fun r =>
    (sendSmallRectEncodingCoRRE afterEncBufSize pixel r.1 r.2.1 r.2.2.1 r.2.2.2).getD [])

/-! ### The viewer -/

def fillRectangle (x y w h : ℤ) (colour : Pixel n) (frameBuffer : ℤ × ℤ → Pixel n) :
    ℤ × ℤ → Pixel n :=
  putRect (fun _ => colour) frameBuffer ⟨x, y, x + w, y + h⟩

def readRect16 : Reader UInt8 (ℤ × ℤ × ℤ × ℤ) := do
  let x ← read16
  let y ← read16
  let w ← read16
  let h ← read16
  pure (x, y, w, h)

def read8 : Reader UInt8 ℤ := do
  let k ← readBigEndian 1
  pure k

def readRect8 : Reader UInt8 (ℤ × ℤ × ℤ × ℤ) := do
  let x ← read8
  let y ← read8
  let w ← read8
  let h ← read8
  pure (x, y, w, h)

/-- The number of subrectangles, the background, and each subrectangle in turn. -/
def handleSubrects (readRect : Reader UInt8 (ℤ × ℤ × ℤ × ℤ)) (rx ry rw rh : ℤ)
    (frameBuffer : ℤ × ℤ → Pixel n) : Reader UInt8 (ℤ × ℤ → Pixel n) := do
  let nSubrects ← readBigEndian 4
  let pix ← readPixel n
  loop (fun frameBuffer => do
    let pix ← readPixel n
    let r ← readRect
    pure (fillRectangle (rx + r.1) (ry + r.2.1) r.2.2.1 r.2.2.2 pix frameBuffer))
    nSubrects (fillRectangle rx ry rw rh pix frameBuffer)

def handleRRE (rx ry rw rh : ℤ) (frameBuffer : ℤ × ℤ → Pixel n) :
    Reader UInt8 (ℤ × ℤ → Pixel n) :=
  handleSubrects readRect16 rx ry rw rh frameBuffer

def handleCoRRE (rx ry rw rh : ℤ) (frameBuffer : ℤ × ℤ → Pixel n) :
    Reader UInt8 (ℤ × ℤ → Pixel n) :=
  handleSubrects readRect8 rx ry rw rh frameBuffer

/-! ### What is drawn -/

/-- Subrectangles that fit are drawn where the rectangle is. -/
theorem foldl_fillRectangle (rx ry : ℤ) {w h : ℤ} {subs : List (Subrect (Pixel n))}
    (hfits : ∀ s ∈ subs, s.Fits w h) (frameBuffer drawn inner : ℤ × ℤ → Pixel n)
    (hdrawn : ∀ p, drawn p = if SraRect.Has ⟨rx, ry, rx + w, ry + h⟩ p then
      inner (p.1 - rx, p.2 - ry) else frameBuffer p) (p : ℤ × ℤ) :
    subs.foldl (fun fb s => fillRectangle (rx + s.x) (ry + s.y) s.w s.h s.pix fb) drawn p =
      if SraRect.Has ⟨rx, ry, rx + w, ry + h⟩ p then
        subs.foldl (fun fb s => putRect (fun _ => s.pix) fb s.rect) inner (p.1 - rx, p.2 - ry)
      else frameBuffer p := by
  induction subs generalizing drawn inner with
  | nil => exact hdrawn p
  | cons s subs ih =>
    rw [List.forall_mem_cons] at hfits
    obtain ⟨hs, hfits⟩ := hfits
    rw [List.foldl_cons, List.foldl_cons]
    refine ih hfits _ _ fun q => ?_
    have hx := hs.x
    have hy := hs.y
    have hiff : SraRect.Has ⟨rx + s.x, ry + s.y, rx + s.x + s.w, ry + s.y + s.h⟩ q ↔
        s.rect.Has (q.1 - rx, q.2 - ry) := by
      unfold SraRect.Has Subrect.rect
      dsimp only
      omega
    unfold fillRectangle putRect
    by_cases hq : s.rect.Has (q.1 - rx, q.2 - ry)
    · have hin : SraRect.Has ⟨rx, ry, rx + w, ry + h⟩ q := by
        unfold SraRect.Has Subrect.rect at hq
        unfold SraRect.Has
        dsimp only at hq ⊢
        omega
      rw [if_pos (hiff.mpr hq), if_pos hin, if_pos hq]
    · rw [if_neg (mt hiff.mp hq), if_neg hq]
      exact hdrawn q

/-- The background and the subrectangles that the server has found give the pixels back. -/
theorem drawn_subrects {pixel frameBuffer : ℤ × ℤ → Pixel n} {x y : ℤ} {w h : ℕ} {bg : Pixel n}
    {subs : List (Subrect (Pixel n))} (hfits : ∀ s ∈ subs, s.Fits w h)
    (hpainted : ∀ p, Grid.Inside w h p → painted bg subs p = pixel (x + p.1, y + p.2)) :
    subs.foldl (fun fb s => fillRectangle (x + s.x) (y + s.y) s.w s.h s.pix fb)
        (fillRectangle x y w h bg frameBuffer) =
      putRect pixel frameBuffer ⟨x, y, x + w, y + h⟩ := by
  funext p
  refine (foldl_fillRectangle x y hfits frameBuffer _ (fun _ => bg) (fun q => rfl) p).trans ?_
  unfold putRect
  split_ifs with hp
  · have hin : Grid.Inside w h (p.1 - x, p.2 - y) := by
      unfold SraRect.Has at hp
      unfold Grid.Inside
      dsimp only at hp ⊢
      omega
    refine (hpainted _ hin).trans ?_
    congr 1
    exact Prod.ext (by dsimp only; omega) (by dsimp only; omega)
  · rfl

/-! ### The most prevalent colour -/

structure Counts.Good (l : List (Pixel n)) (c : Counts n) : Prop where
  counts : ∀ pix, c.counts pix = l.count pix
  most : ∀ pix, l.count pix ≤ c.maxcount
  maxclr : l.count c.maxclr = c.maxcount

theorem Counts.Good.add {l : List (Pixel n)} {c : Counts n} (h : c.Good l) (pix : Pixel n) :
    (c.add pix).Good (l ++ [pix]) := by
  have hcount (q : Pixel n) : (l ++ [pix]).count q = l.count q + if pix = q then 1 else 0 := by
    rw [List.count_append, List.count_singleton]
    simp only [beq_iff_eq]
  have hmost := h.most
  refine ⟨fun q => ?_, fun q => ?_, ?_⟩
  · rw [hcount, ← h.counts]
    unfold Counts.add
    by_cases hq : pix = q
    · subst hq
      rw [if_pos rfl]
      exact Function.update_self ..
    · rw [if_neg hq]
      exact Function.update_of_ne (Ne.symm hq) _ _
  · have hq := hmost q
    rw [hcount, Counts.add]
    dsimp only
    rw [h.counts]
    split_ifs with heq <;> first | omega | (subst heq; omega)
  · rw [hcount, Counts.add]
    dsimp only
    rw [h.counts]
    by_cases hlt : c.maxcount < l.count pix + 1
    · rw [if_pos hlt, if_pos hlt, if_pos rfl]
    · have hne : pix ≠ c.maxclr := by
        rintro rfl
        rw [h.maxclr] at hlt
        omega
      rw [if_neg hlt, if_neg hlt, if_neg hne]
      exact h.maxclr

/-- `getBgColour` gets the most prevalent colour, of pixels of 8 bits. -/
theorem count_le_getBgColour (data : ℤ × ℤ → Pixel 1) (w h : ℕ) (pix : Pixel 1) :
    ((raster w h).map data).count pix ≤
      ((raster w h).map data).count (getBgColour data w h) := by
  have hfold (l m : List (Pixel 1)) (c : Counts 1) (hc : c.Good l) :
      (m.foldl Counts.add c).Good (l ++ m) := by
    induction m generalizing l c with
    | nil => exact (List.append_nil l).symm ▸ hc
    | cons p m ih =>
      have hgood := ih (l ++ [p]) (c.add p) (hc.add p)
      rwa [List.append_assoc, List.singleton_append] at hgood
  have hgood := hfold [] ((raster w h).map data) (Counts.start 1)
    ⟨fun _ => rfl, fun _ => le_rfl, rfl⟩
  rw [List.nil_append] at hgood
  unfold getBgColour
  rw [if_neg (not_not.mpr rfl), hgood.maxclr]
  exact hgood.most pix

/-! ### Round trips -/

theorem reads_rect16 {s : Subrect (Pixel n)} (hx : Fits16 s.x) (hy : Fits16 s.y)
    (hw : Fits16 s.w) (hh : Fits16 s.h) : Reads readRect16 s.bytes16 (s.x, s.y, s.w, s.h) := by
  refine (reads_16 hx).bind ((reads_16 hy).bind ((reads_16 hw).bind ?_))
  exact (reads_16 hh).map fun h => (s.x, s.y, s.w, h)

theorem reads_8 {z : ℤ} (hz : 0 ≤ z ∧ z < 2 ^ 8) : Reads read8 (byte z) z := by
  obtain ⟨hlo, hhi⟩ := hz
  have hread := reads_bigEndian (k := 1) (n := z.toNat) (by omega)
  unfold byte
  rw [Int.emod_eq_of_lt hlo hhi]
  exact (hread.map Int.ofNat).of_eq rfl (Int.toNat_of_nonneg hlo)

theorem reads_rect8 {s : Subrect (Pixel n)} (hx : 0 ≤ s.x ∧ s.x < 2 ^ 8)
    (hy : 0 ≤ s.y ∧ s.y < 2 ^ 8) (hw : 0 ≤ s.w ∧ s.w < 2 ^ 8) (hh : 0 ≤ s.h ∧ s.h < 2 ^ 8) :
    Reads readRect8 s.bytes8 (s.x, s.y, s.w, s.h) := by
  refine (reads_8 hx).bind ((reads_8 hy).bind ((reads_8 hw).bind ?_))
  exact (reads_8 hh).map fun h => (s.x, s.y, s.w, h)

/-- There are not more subrectangles than a number of four bytes can say. -/
theorem length_lt_of_budget {k len w h size bufSize : ℕ} (hw : w < 2 ^ 16) (hh : h < 2 ^ 16)
    (hsize : 0 < size) (hlen : k + (k + size) * len ≤ min (w * h * k) bufSize) :
    len < 256 ^ 4 := by
  by_contra hge
  have harea : w * h * k ≤ 256 ^ 4 * k := by
    refine Nat.mul_le_mul_right k ?_
    calc w * h ≤ 2 ^ 16 * 2 ^ 16 := Nat.mul_le_mul hw.le hh.le
      _ = 256 ^ 4 := by norm_num
  have hmany : (k + size) * 256 ^ 4 ≤ (k + size) * len := Nat.mul_le_mul_left _ (not_lt.mp hge)
  rw [Nat.add_mul, mul_comm k] at hmany
  have hmin := min_le_left (w * h * k) bufSize
  omega

/-- The viewer draws the rectangle, whatever the subrectangles are. -/
theorem sendSubrects_cases (encoding bufSize : ℕ) {size : ℕ}
    {bytes : Subrect (Pixel n) → List UInt8} {readRect : Reader UInt8 (ℤ × ℤ × ℤ × ℤ)}
    (pixel : ℤ × ℤ → Pixel n) (x y : ℤ) {w h : ℕ} (hw : w < 2 ^ 16) (hh : h < 2 ^ 16)
    (hsize : 0 < size)
    (hread : ∀ s : Subrect (Pixel n), s.Fits w h →
      Reads readRect (bytes s) (s.x, s.y, s.w, s.h)) :
    sendSubrects encoding size bytes bufSize pixel x y w h = sendRectEncodingRaw pixel x y w h ∨
    ∃ body, sendSubrects encoding size bytes bufSize pixel x y w h =
        some ((RectHeader.mk x y w h encoding).bytes ++ body) ∧
      ∀ frameBuffer : ℤ × ℤ → Pixel n, Reads (handleSubrects readRect x y w h frameBuffer) body
        (putRect pixel frameBuffer ⟨x, y, x + w, y + h⟩) := by
  unfold sendSubrects
  dsimp only
  set data := fun p : ℤ × ℤ => pixel (x + p.1, y + p.2) with hdata
  cases hsubs : subrectEncode ⟨n, n + size, min (w * h * n) bufSize⟩ (getBgColour data w h) w h
      data with
  | none => exact .inl rfl
  | some subs =>
    obtain ⟨hpainted, hfits, -, hlen, -⟩ := subrectEncode_spec hsubs
    have hcount : subs.length < 256 ^ 4 := by
      rcases hlen with rfl | hlen
      · exact Nat.pow_pos (by omega)
      · exact length_lt_of_budget hw hh hsize hlen
    refine .inr ⟨_, rfl, fun frameBuffer => ?_⟩
    rw [← drawn_subrects hfits hpainted]
    refine (reads_bigEndian hcount).bind ((reads_pixel _).bind (Reads.loop (fun s hs fb => ?_) _))
    refine (reads_pixel s.pix).bind ?_
    exact (hread s (hfits s hs)).map fun r : ℤ × ℤ × ℤ × ℤ =>
      fillRectangle (x + r.1) (y + r.2.1) r.2.2.1 r.2.2.2 s.pix fb

/-- The rectangle of an `x`, `y`, `w` and `h`. -/
def rectOf (r : ℤ × ℤ × ℕ × ℕ) : SraRect := ⟨r.1, r.2.1, r.1 + r.2.2.1, r.2.1 + r.2.2.2⟩

/-- Rectangles that make one up are drawn as that one. -/
theorem foldl_putRect_rectOf {α : Type} {pixel picture : ℤ × ℤ → α} {l : List (ℤ × ℤ × ℕ × ℕ)}
    {r : SraRect} (hl : ∀ p, (∃ t ∈ l, (rectOf t).Has p) ↔ r.Has p) :
    l.foldl (fun picture t => putRect pixel picture (rectOf t)) picture =
      putRect pixel picture r := by
  funext p
  obtain ⟨hin, hout⟩ := foldl_putRect pixel picture (l.map rectOf) p
  rw [List.foldl_map] at hin hout
  have hmap : (∃ u ∈ l.map rectOf, u.Has p) ↔ r.Has p := by
    rw [← hl p]
    simp only [List.mem_map, exists_exists_and_eq_and]
  unfold putRect at hin hout ⊢
  split_ifs with hp
  · exact hin (hmap.mpr hp)
  · exact hout fun u hu hup => hp (hmap.mp ⟨u, hu, hup⟩)

/-! ### The small rectangles of CoRRE -/

theorem of_mem_correRects {x y : ℤ} {w h : ℕ} (hw : 0 < w) (hh : 0 < h) {r : ℤ × ℤ × ℕ × ℕ}
    (hr : r ∈ correRects x y w h) :
    (x ≤ r.1 ∧ r.1 + r.2.2.1 ≤ x + w) ∧ (y ≤ r.2.1 ∧ r.2.1 + r.2.2.2 ≤ y + h) ∧
      (0 < r.2.2.1 ∧ r.2.2.1 ≤ correMax) ∧ 0 < r.2.2.2 ∧ r.2.2.2 ≤ correMax := by
  have hmax : 0 < correMax := Nat.zero_lt_succ _
  fun_induction correRects x y w h with
  | case1 x y w h hgt ih ih' =>
    rcases List.mem_append.mp hr with hr | hr
    · have := ih hw hmax hr
      omega
    · have := ih' hw (by omega) hr
      omega
  | case2 x y w h hle hgt ih ih' =>
    rcases List.mem_append.mp hr with hr | hr
    · have := ih hmax hh hr
      omega
    · have := ih' (by omega) hh hr
      omega
  | case3 x y w h hle hle' =>
    rw [List.mem_singleton] at hr
    subst hr
    dsimp only
    omega

theorem length_correRects (x y : ℤ) {w h : ℕ} (hw : 0 < w) (hh : 0 < h) :
    (correRects x y w h).length = ((w - 1) / correMax + 1) * ((h - 1) / correMax + 1) := by
  have hmax : 0 < correMax := Nat.zero_lt_succ _
  have hone (k : ℕ) (hk : k ≤ correMax) : (k - 1) / correMax = 0 :=
    Nat.div_eq_of_lt (by unfold correMax at hk ⊢; omega)
  have hstep (k : ℕ) (hk : correMax < k) :
      (k - correMax - 1) / correMax + 1 = (k - 1) / correMax := by
    rw [show k - 1 = k - correMax - 1 + correMax by omega, Nat.add_div_right _ hmax]
  fun_induction correRects x y w h with
  | case1 x y w h hgt ih ih' =>
    rw [List.length_append, ih hw hmax, ih' hw (by omega), hone _ le_rfl, hstep h hgt]
    ring
  | case2 x y w h hle hgt ih ih' =>
    rw [List.length_append, ih hmax hh, ih' (by omega) hh, hone _ le_rfl, hstep w hgt]
    ring
  | case3 x y w h hle hle' =>
    rw [hone w (by omega), hone h (by omega)]
    rfl

theorem exists_mem_correRects {x y : ℤ} {w h : ℕ} {p : ℤ × ℤ} :
    (∃ r ∈ correRects x y w h, (rectOf r).Has p) ↔ (rectOf (x, y, w, h)).Has p := by
  unfold rectOf SraRect.Has
  dsimp only
  fun_induction correRects x y w h with
  | case1 x y w h hgt ih ih' =>
    simp only [List.mem_append, or_and_right, exists_or]
    rw [ih, ih']
    omega
  | case2 x y w h hle hgt ih ih' =>
    simp only [List.mem_append, or_and_right, exists_or]
    rw [ih, ih']
    omega
  | case3 x y w h hle hle' =>
    constructor
    · rintro ⟨r, hr, hp⟩
      rw [List.mem_singleton] at hr
      subst hr
      exact hp
    · exact fun hp => ⟨_, List.mem_singleton_self _, hp⟩

end DroidVnc.Rfb
