import DroidVnc.Lib.Grid
import DroidVnc.Rfb.Update

/-! A rectangle of pixels as a background and subrectangles of one colour each, as RRE,
CoRRE and Hextile look for them. The pixels are those of the client's format, counted from
the upper left corner of the rectangle. -/

namespace DroidVnc.Rfb

open ClientRec (putRect)

variable {P : Type} [DecidableEq P]

structure Subrect (P : Type) where
  pix : P
  x : ℤ
  y : ℤ
  w : ℤ
  h : ℤ
  deriving DecidableEq, Repr

def Subrect.rect (s : Subrect P) : SraRect := ⟨s.x, s.y, s.x + s.w, s.y + s.h⟩

/-- `while ((seg[i] == cl) && (i < w)) i += 1;` in row `j`, with so many columns left. -/
def runEnd (data : ℤ × ℤ → P) (cl : P) (j : ℤ) : ℕ → ℤ → ℤ
  | 0, i => i
  | n + 1, i => if data (i, j) = cl then runEnd data cl j n (i + 1) else i

/-- What the search goes down with: the last column of the first row, how far down all rows
are as long, and the last column that all rows have. -/
structure Search where
  hx : ℤ
  hy : ℤ
  vx : ℤ
  hyflag : Bool

/-- One row of the search, `i` being the last column of its run. -/
def Search.row (y j i : ℤ) (s : Search) : Search :=
  let s := if j = y then { s with vx := i, hx := i } else s
  let s := if i < s.vx then { s with vx := i } else s
  if s.hyflag && decide (s.hx ≤ i) then { s with hy := s.hy + 1 } else { s with hyflag := false }

/-- The loop over the rows from `j` on, and the row it ends in. -/
def searchRows (data : ℤ × ℤ → P) (cl : P) (w x y : ℤ) : ℕ → ℤ → Search → Search × ℤ
  | 0, j, s => (s, j)
  | n + 1, j, s =>
    if data (x, j) ≠ cl then (s, j)
    else searchRows data cl w x y n (j + 1) (s.row y j (runEnd data cl j (w - x).toNat x - 1))

/-- The bigger one of the two subrectangles that start at `x`, `y`: as wide, or as high, as
can be. -/
def subrectAt (data : ℤ × ℤ → P) (w h x y : ℤ) : Subrect P :=
  let cl := data (x, y)
  let r := searchRows data cl w x y (h - y).toNat y ⟨0, y - 1, 0, true⟩
  let vy := r.2 - 1
  let hw := r.1.hx - x + 1
  let hh := r.1.hy - y + 1
  let vw := r.1.vx - x + 1
  let vh := vy - y + 1
  if hw * hh > vw * vh then ⟨cl, x, y, hw, hh⟩ else ⟨cl, x, y, vw, vh⟩

/-- The pixels that are not encoded yet, and the subrectangles. -/
structure Subrects (P : Type) where
  data : ℤ × ℤ → P
  subs : List (Subrect P)

/-- The bytes of the encoding before its subrectangles, of each of these, and how many there
can be. -/
structure Budget where
  start : ℕ
  size : ℕ
  limit : ℕ
  deriving DecidableEq, Repr

/-- What is done at `x`, `y`; no result if there are too many bytes. -/
def Subrects.step (b : Budget) (bg : P) (w h : ℤ) (e : Subrects P) (p : ℤ × ℤ) :
    Option (Subrects P) :=
  if e.data p = bg then some e
  else
    let s := subrectAt e.data w h p.1 p.2
    if b.start + b.size * e.subs.length + b.size > b.limit then none
    else some ⟨putRect (fun _ => bg) e.data s.rect, e.subs ++ [s]⟩

/-- The order of `for (y=0; y<h; y++) for (x=0; x<w; x++)`. -/
def raster (w h : ℕ) : List (ℤ × ℤ) :=
  (List.range h).flatMap fun y : ℕ => (List.range w).map fun x : ℕ => ((x : ℤ), (y : ℤ))

/-- `subrectEncode`, without the bytes. -/
def subrectEncode (b : Budget) (bg : P) (w h : ℕ) (data : ℤ × ℤ → P) : Option (List (Subrect P)) :=
  ((raster w h).foldlM (Subrects.step b bg w h) ⟨data, []⟩).map Subrects.subs

/-! ### The search -/

section Search

variable {data : ℤ × ℤ → P} {cl : P} {w h x y j : ℤ}

theorem runEnd_spec (data : ℤ × ℤ → P) (cl : P) (j : ℤ) (n : ℕ) (i : ℤ) :
    i ≤ runEnd data cl j n i ∧ runEnd data cl j n i ≤ i + n ∧
      ∀ k, i ≤ k → k < runEnd data cl j n i → data (k, j) = cl := by
  induction n generalizing i with
  | zero =>
    unfold runEnd
    exact ⟨le_rfl, by omega, fun k h1 h2 => by omega⟩
  | succ n ih =>
    obtain ⟨hlo, hhi, hrun⟩ := ih (i + 1)
    unfold runEnd
    split_ifs with hi
    · refine ⟨by omega, by omega, fun k h1 h2 => ?_⟩
      rcases h1.eq_or_lt with rfl | hlt
      · exact hi
      · exact hrun k hlt h2
    · exact ⟨le_rfl, by omega, fun k h1 h2 => by omega⟩

theorem lt_runEnd {n : ℕ} {i : ℤ} (hn : n ≠ 0) (hi : data (i, j) = cl) :
    i < runEnd data cl j n i := by
  cases n with
  | zero => exact absurd rfl hn
  | succ n =>
    have hlo := (runEnd_spec data cl j n (i + 1)).1
    rw [runEnd, if_pos hi]
    omega

/-- Both subrectangles that the search has in hand are of one colour: the rows down to `hy`
up to `hx`, and all rows before `j` up to `vx`. -/
structure Search.Good (data : ℤ × ℤ → P) (cl : P) (w x y j : ℤ) (s : Search) : Prop where
  vx : x ≤ s.vx ∧ s.vx ≤ s.hx
  hx : s.hx < w
  hy : y ≤ s.hy ∧ s.hy < j
  flag : s.hyflag = true → s.hy = j - 1
  wide : ∀ p : ℤ × ℤ, x ≤ p.1 → p.1 ≤ s.hx → y ≤ p.2 → p.2 ≤ s.hy → data p = cl
  high : ∀ p : ℤ × ℤ, x ≤ p.1 → p.1 ≤ s.vx → y ≤ p.2 → p.2 < j → data p = cl

omit [DecidableEq P] in
theorem Search.Good.row {s : Search} (h : s.Good data cl w x y j) (hj : y < j) {i : ℤ} (hi : x ≤ i)
    (hrun : ∀ k, x ≤ k → k ≤ i → data (k, j) = cl) : (s.row y j i).Good data cl w x y (j + 1) := by
  have hvx := h.vx
  have hy := h.hy
  have hhigh (v : ℤ) (hv : v ≤ i) (hv' : v ≤ s.vx) (p : ℤ × ℤ) (h1 : x ≤ p.1) (h2 : p.1 ≤ v)
      (h3 : y ≤ p.2) (h4 : p.2 < j + 1) : data p = cl := by
    by_cases hp : p.2 = j
    · have hk := hrun p.1 h1 (h2.trans hv)
      rwa [← hp] at hk
    · exact h.high p h1 (h2.trans hv') h3 (by omega)
  unfold Search.row
  rw [if_neg hj.ne']
  -- the rows so far are cut down to the new one, or the new one is as long
  have hcut : ∃ v, (if i < s.vx then { s with vx := i } else s) = { s with vx := v } ∧
      x ≤ v ∧ v ≤ i ∧ v ≤ s.vx := by
    split_ifs with hlt
    · exact ⟨i, rfl, hi, le_rfl, by omega⟩
    · exact ⟨s.vx, rfl, hvx.1, by omega, le_rfl⟩
  obtain ⟨v, hv, hxv, hvi, hvs⟩ := hcut
  simp only [hv]
  split_ifs with hflag
  · obtain ⟨hflag, hle⟩ := Bool.and_eq_true_iff.mp hflag
    have hle := of_decide_eq_true hle
    have hhy := h.flag hflag
    refine ⟨⟨hxv, by dsimp only; omega⟩, h.hx, by dsimp only; omega, fun _ => ?_,
      fun p h1 h2 h3 h4 => ?_, hhigh v hvi hvs⟩
    · dsimp only
      omega
    · by_cases hp : p.2 = j
      · have hk := hrun p.1 h1 (h2.trans hle)
        rwa [← hp] at hk
      · exact h.wide p h1 h2 h3 (by dsimp only at h4; omega)
  · exact ⟨⟨hxv, by dsimp only; omega⟩, h.hx, by dsimp only; omega,
      fun hf => absurd hf Bool.false_ne_true, h.wide, hhigh v hvi hvs⟩

omit [DecidableEq P] in
/-- The first row is both subrectangles. -/
theorem Search.good_first {i : ℤ} (hi : x ≤ i) (hiw : i < w)
    (hrun : ∀ k, x ≤ k → k ≤ i → data (k, y) = cl) :
    (Search.row y y i ⟨0, y - 1, 0, true⟩).Good data cl w x y (y + 1) := by
  have hrow : Search.row y y i ⟨0, y - 1, 0, true⟩ = ⟨i, y, i, true⟩ := by
    simp [Search.row]
  have hdata (p : ℤ × ℤ) (h1 : x ≤ p.1) (h2 : p.1 ≤ i) (h3 : p.2 = y) : data p = cl := by
    have hk := hrun p.1 h1 h2
    rwa [← h3] at hk
  rw [hrow]
  exact ⟨⟨hi, le_rfl⟩, hiw, ⟨le_rfl, by dsimp only; omega⟩, fun _ => by dsimp only; omega,
    fun p h1 h2 h3 h4 => hdata p h1 h2 (le_antisymm h4 h3),
    fun p h1 h2 h3 h4 => hdata p h1 h2 (by omega)⟩

theorem runEnd_row (data : ℤ × ℤ → P) {cl : P} {w x j : ℤ} (hxw : x < w) (hj : data (x, j) = cl) :
    x ≤ runEnd data cl j (w - x).toNat x - 1 ∧ runEnd data cl j (w - x).toNat x - 1 < w ∧
      ∀ k, x ≤ k → k ≤ runEnd data cl j (w - x).toNat x - 1 → data (k, j) = cl := by
  have hlt := lt_runEnd (n := (w - x).toNat) (by omega) hj
  obtain ⟨-, hhi, hrun⟩ := runEnd_spec data cl j (w - x).toNat x
  exact ⟨by omega, by omega, fun k h1 h2 => hrun k h1 (by omega)⟩

theorem good_searchRows (hxw : x < w) (n : ℕ) {j : ℤ} (hj : y < j) {s : Search}
    (h : s.Good data cl w x y j) :
    (searchRows data cl w x y n j s).1.Good data cl w x y (searchRows data cl w x y n j s).2 ∧
      j ≤ (searchRows data cl w x y n j s).2 ∧ (searchRows data cl w x y n j s).2 ≤ j + n := by
  induction n generalizing j s with
  | zero =>
    unfold searchRows
    exact ⟨h, le_rfl, by dsimp only; omega⟩
  | succ n ih =>
    unfold searchRows
    split_ifs with hcl
    · exact ⟨h, le_rfl, by dsimp only; omega⟩
    · obtain ⟨hi, -, hrun⟩ := runEnd_row data hxw (not_not.mp hcl)
      obtain ⟨hgood, hlo, hhi⟩ := ih (by omega) (h.row hj hi hrun)
      exact ⟨hgood, by omega, by omega⟩

/-- The subrectangle starts at `x`, `y`, is not empty, lies in the rectangle and has one
colour. -/
theorem subrectAt_spec (data : ℤ × ℤ → P) {w h x y : ℤ} (hx : x < w) (hy : y < h) :
    (subrectAt data w h x y).pix = data (x, y) ∧
      (subrectAt data w h x y).x = x ∧ (subrectAt data w h x y).y = y ∧
      (1 ≤ (subrectAt data w h x y).w ∧ x + (subrectAt data w h x y).w ≤ w) ∧
      (1 ≤ (subrectAt data w h x y).h ∧ y + (subrectAt data w h x y).h ≤ h) ∧
      ∀ p, (subrectAt data w h x y).rect.Has p → data p = data (x, y) := by
  obtain ⟨hi, hiw, hrun⟩ := runEnd_row data (j := y) hx rfl
  have hsearch : searchRows data (data (x, y)) w x y (h - y).toNat y ⟨0, y - 1, 0, true⟩ =
      searchRows data (data (x, y)) w x y (h - y - 1).toNat (y + 1)
        (Search.row y y (runEnd data (data (x, y)) y (w - x).toNat x - 1) ⟨0, y - 1, 0, true⟩) := by
    rw [show (h - y).toNat = (h - y - 1).toNat + 1 by omega, searchRows,
      if_neg (not_not.mpr rfl)]
  obtain ⟨hgood, hlo, hhi⟩ := good_searchRows hx (h - y - 1).toNat (by omega)
    (Search.good_first hi hiw hrun)
  rw [← hsearch] at hgood hlo hhi
  unfold subrectAt
  dsimp only
  generalize searchRows data (data (x, y)) w x y (h - y).toNat y ⟨0, y - 1, 0, true⟩ = r at *
  have hvx := hgood.vx
  have hhx := hgood.hx
  have hhy := hgood.hy
  split_ifs
  · refine ⟨rfl, rfl, rfl, by dsimp only; omega, by dsimp only; omega, fun p hp => ?_⟩
    obtain ⟨⟨h1, h2⟩, h3, h4⟩ := hp
    dsimp only [Subrect.rect] at h1 h2 h3 h4
    exact hgood.wide p h1 (by omega) h3 (by omega)
  · refine ⟨rfl, rfl, rfl, by dsimp only; omega, by dsimp only; omega, fun p hp => ?_⟩
    obtain ⟨⟨h1, h2⟩, h3, h4⟩ := hp
    dsimp only [Subrect.rect] at h1 h2 h3 h4
    exact hgood.high p h1 (by omega) h3 (by omega)

end Search

/-! ### The encoding -/

theorem mem_raster {w h : ℕ} {p : ℤ × ℤ} : p ∈ raster w h ↔ Grid.Inside w h p := by
  unfold raster Grid.Inside
  rw [List.mem_flatMap]
  constructor
  · rintro ⟨y, hy, hp⟩
    obtain ⟨x, hx, rfl⟩ := List.mem_map.mp hp
    rw [List.mem_range] at hx hy
    dsimp only
    omega
  · rintro ⟨hx, hy⟩
    refine ⟨p.2.toNat, List.mem_range.mpr (by omega), List.mem_map.mpr
      ⟨p.1.toNat, List.mem_range.mpr (by omega), ?_⟩⟩
    exact Prod.ext (Int.toNat_of_nonneg hx.1) (Int.toNat_of_nonneg hy.1)

def painted (bg : P) (subs : List (Subrect P)) : ℤ × ℤ → P :=
  subs.foldl (fun picture s => putRect (fun _ => s.pix) picture s.rect) fun _ => bg

/-- A subrectangle is not empty and lies in the rectangle. -/
structure Subrect.Fits (w h : ℤ) (s : Subrect P) : Prop where
  x : 0 ≤ s.x ∧ s.x + s.w ≤ w
  y : 0 ≤ s.y ∧ s.y + s.h ≤ h
  w : 1 ≤ s.w
  h : 1 ≤ s.h

/-- What is done is painted, what is not done is as it was. -/
structure Subrects.Good (b : Budget) (bg : P) (w h : ℤ) (data : ℤ × ℤ → P) (e : Subrects P) :
    Prop where
  pixel : ∀ p, Grid.Inside w h p → (e.data p = data p ∧ painted bg e.subs p = bg) ∨
    (e.data p = bg ∧ painted bg e.subs p = data p)
  fits : ∀ s ∈ e.subs, s.Fits w h
  colour : ∀ s ∈ e.subs, s.pix ≠ bg ∧ ∃ p, Grid.Inside w h p ∧ data p = s.pix
  size : e.subs = [] ∨ b.start + b.size * e.subs.length ≤ b.limit

omit [DecidableEq P] in
theorem Subrects.good_start (b : Budget) (bg : P) (w h : ℤ) (data : ℤ × ℤ → P) :
    Subrects.Good b bg w h data ⟨data, []⟩ :=
  ⟨fun _ _ => .inl ⟨rfl, rfl⟩, fun _ hs => absurd hs List.not_mem_nil,
    fun _ hs => absurd hs List.not_mem_nil, .inl rfl⟩

section Encode

variable {b : Budget} {bg : P} {w h : ℤ} {data : ℤ × ℤ → P} {e e' : Subrects P} {p : ℤ × ℤ}

/-- What one step of the loops does. -/
theorem Subrects.step_cases (hstep : e.step b bg w h p = some e') :
    (e.data p = bg ∧ e' = e) ∨
    (e.data p ≠ bg ∧ b.start + b.size * e.subs.length + b.size ≤ b.limit ∧
      e' = ⟨putRect (fun _ => bg) e.data (subrectAt e.data w h p.1 p.2).rect,
        e.subs ++ [subrectAt e.data w h p.1 p.2]⟩) := by
  unfold Subrects.step at hstep
  split_ifs at hstep with hbg hlimit
  · exact .inl ⟨hbg, (Option.some.inj hstep).symm⟩
  · exact .inr ⟨hbg, not_lt.mp hlimit, (Option.some.inj hstep).symm⟩

theorem Subrects.step_data (hstep : e.step b bg w h p = some e') (q : ℤ × ℤ) :
    e'.data q = e.data q ∨ e'.data q = bg := by
  rcases Subrects.step_cases hstep with ⟨-, rfl⟩ | ⟨-, -, rfl⟩
  · exact .inl rfl
  · dsimp only [putRect]
    split_ifs
    · exact .inr rfl
    · exact .inl rfl

theorem Subrects.Good.step (hgood : e.Good b bg w h data) (hp : Grid.Inside w h p)
    (hstep : e.step b bg w h p = some e') : e'.Good b bg w h data ∧ e'.data p = bg := by
  rcases Subrects.step_cases hstep with ⟨hbg, rfl⟩ | ⟨hbg, hlimit, rfl⟩
  · exact ⟨hgood, hbg⟩
  obtain ⟨hpix, hx, hy, hw, hh, hcolour⟩ := subrectAt_spec e.data hp.1.2 hp.2.2
  set s := subrectAt e.data w h p.1 p.2
  have hfits : s.Fits w h := by
    refine ⟨?_, ?_, hw.1, hh.1⟩
    · have := hp.1.1
      omega
    · have := hp.2.1
      omega
  have hps : s.rect.Has p := by
    unfold SraRect.Has Subrect.rect
    dsimp only
    omega
  refine ⟨⟨fun q hq => ?_, ?_, ?_, .inr ?_⟩, if_pos hps⟩
  · have hpainted : painted bg (e.subs ++ [s]) q =
        if s.rect.Has q then s.pix else painted bg e.subs q := by
      unfold painted
      rw [List.foldl_append]
      rfl
    rw [hpainted]
    dsimp only [putRect]
    split_ifs with hqs
    · -- a pixel of the subrectangle was not done, since it is not background
      have hq' := hcolour q hqs
      rcases hgood.pixel q hq with ⟨hdata, -⟩ | ⟨hdata, -⟩
      · exact .inr ⟨rfl, by rw [hpix, ← hdata, hq']⟩
      · exact absurd (hq'.symm.trans hdata) hbg
    · exact hgood.pixel q hq
  · intro t ht
    rcases List.mem_append.mp ht with ht | ht
    · exact hgood.fits t ht
    · rw [List.mem_singleton.mp ht]
      exact hfits
  · intro t ht
    rcases List.mem_append.mp ht with ht | ht
    · exact hgood.colour t ht
    · rw [List.mem_singleton.mp ht, hpix]
      rcases hgood.pixel p hp with ⟨hdata, -⟩ | ⟨hdata, -⟩
      · exact ⟨hbg, p, hp, hdata.symm⟩
      · exact absurd hdata hbg
  · rw [List.length_append, List.length_singleton, Nat.mul_add, Nat.mul_one]
    omega

/-- The loops over some of the pixels. -/
theorem Subrects.Good.run (hgood : e.Good b bg w h data) {l : List (ℤ × ℤ)}
    (hl : ∀ p ∈ l, Grid.Inside w h p) (hrun : l.foldlM (Subrects.step b bg w h) e = some e') :
    e'.Good b bg w h data ∧ (∀ p ∈ l, e'.data p = bg) ∧
      (∀ q, e'.data q = e.data q ∨ e'.data q = bg) ∧
      e'.subs.length ≤ e.subs.length + l.countP fun p => data p ≠ bg := by
  induction l generalizing e with
  | nil =>
    obtain rfl := Option.some.inj hrun
    exact ⟨hgood, fun _ hp => absurd hp List.not_mem_nil, fun _ => .inl rfl, le_rfl⟩
  | cons p l ih =>
    rw [List.forall_mem_cons] at hl
    rw [List.foldlM_cons] at hrun
    obtain ⟨u, hu, hrun⟩ := Option.bind_eq_some_iff.mp hrun
    obtain ⟨hgood', hp⟩ := hgood.step hl.1 hu
    obtain ⟨hend, hdone, hkept, hcount⟩ := ih hgood' hl.2 hrun
    have hsubs : u.subs.length ≤ e.subs.length + if data p ≠ bg then 1 else 0 := by
      rcases Subrects.step_cases hu with ⟨-, rfl⟩ | ⟨hbg, -, rfl⟩
      · exact Nat.le_add_right _ _
      · rcases hgood.pixel p hl.1 with ⟨hdata, -⟩ | ⟨hdata, -⟩
        · rw [if_pos (hdata ▸ hbg), List.length_append, List.length_singleton]
        · exact absurd hdata hbg
    refine ⟨hend, List.forall_mem_cons.mpr ⟨?_, hdone⟩, fun q => ?_, ?_⟩
    · rcases hkept p with h | h
      · exact h.trans hp
      · exact h
    · rcases hkept q with h | h
      · rw [h]
        exact Subrects.step_data hu q
      · exact .inr h
    · rw [List.countP_cons]
      simp only [decide_eq_true_eq]
      omega

end Encode

/-- The background and the subrectangles give the pixels back, and what there is of them
fits. -/
theorem subrectEncode_spec {b : Budget} {bg : P} {w h : ℕ} {data : ℤ × ℤ → P}
    {subs : List (Subrect P)} (hsubs : subrectEncode b bg w h data = some subs) :
    (∀ p, Grid.Inside w h p → painted bg subs p = data p) ∧ (∀ s ∈ subs, s.Fits w h) ∧
      (∀ s ∈ subs, s.pix ≠ bg ∧ ∃ p, Grid.Inside w h p ∧ data p = s.pix) ∧
      (subs = [] ∨ b.start + b.size * subs.length ≤ b.limit) ∧
      subs.length ≤ (raster w h).countP fun p => data p ≠ bg := by
  obtain ⟨e, he, rfl⟩ := Option.map_eq_some_iff.mp hsubs
  obtain ⟨hgood, hdone, -, hcount⟩ := (Subrects.good_start b bg w h data).run
    (fun p hp => mem_raster.mp hp) he
  refine ⟨fun p hp => ?_, hgood.fits, hgood.colour, hgood.size, ?_⟩
  · have hbg := hdone p (mem_raster.mpr hp)
    rcases hgood.pixel p hp with ⟨hdata, hpainted⟩ | ⟨-, hpainted⟩
    · rw [hpainted, ← hdata, hbg]
    · exact hpainted
  · simpa using hcount

end DroidVnc.Rfb
