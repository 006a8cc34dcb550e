import DroidVnc.Rfb.SpanSets

/-! The regions of `rfbregion.c`: a list of vertical spans, on each of them a list of
horizontal ones. Every region that the routines make is in order, and it stands for the
set of pixels that its expression says. -/

namespace DroidVnc.Rfb

open Span

abbrev SraRegion := List (Span (List (Span Unit)))

def rgnCreate : SraRegion := []

def rgnCreateRect (x1 y1 x2 y2 : ℤ) : SraRegion := [⟨y1, y2, [⟨x1, x2, ()⟩]⟩]

def rgnOr (dst src : SraRegion) : SraRegion := spanListOr dst src

def rgnAnd (dst src : SraRegion) : SraRegion × Bool := spanListAnd dst src

def rgnSubtract (dst src : SraRegion) : SraRegion × Bool := spanListSubtract dst src

def rgnOffset (dst : SraRegion) (dx dy : ℤ) : SraRegion :=
  dst.map (Span.offset dy fun subspan => subspan.map (Span.offset dx id))

def rgnEmpty (rgn : SraRegion) : Bool := rgn.isEmpty

def rgnCountRects (rgn : SraRegion) : ℕ := (rgn.map fun v => v.subspan.length).sum

structure Bounds where
  xmin : ℤ
  ymin : ℤ
  xmax : ℤ
  ymax : ℤ
  deriving DecidableEq, Repr

/-- `((unsigned int)(int)-1)>>1`. -/
def intMax : ℤ := 2 ^ 31 - 1

def Bounds.start : Bounds := ⟨intMax, intMax, 1 - intMax, 1 - intMax⟩

def Bounds.addHspan (b : Bounds) (h : Span Unit) : Bounds :=
  { b with
    xmin := if h.start < b.xmin then h.start else b.xmin
    xmax := if b.xmax < h.stop then h.stop else b.xmax }

def Bounds.addVspan (b : Bounds) (v : Span (List (Span Unit))) : Bounds :=
  v.subspan.foldl addHspan
    { b with
      ymin := if v.start < b.ymin then v.start else b.ymin
      ymax := if b.ymax < v.stop then v.stop else b.ymax }

def rgnBBox (src : SraRegion) : SraRegion :=
  let b := src.foldl Bounds.addVspan Bounds.start
  if b.xmax < b.xmin ∨ b.ymax < b.ymin then rgnCreate
  else rgnCreateRect b.xmin b.ymin b.xmax b.ymax

/-! ### The pixels of a region -/

/-- The pixels of a region; `x` comes first. -/
def pixels (rgn : SraRegion) : Set (ℤ × ℤ) := {p | (p.2, p.1, ()) ∈ listCells rgn}

/-- A region in order, none of its lists of horizontal spans empty. -/
abbrev RgnGood (δ : ℤ) (rgn : SraRegion) : Prop := ListGood δ rgn

variable {δ : ℤ} {dst src : SraRegion}

theorem mem_pixels {p : ℤ × ℤ} : p ∈ pixels src ↔
    ∃ v ∈ src, (v.start ≤ p.2 ∧ p.2 < v.stop) ∧ ∃ h ∈ v.subspan, h.start ≤ p.1 ∧ p.1 < h.stop := by
  show _ ∈ Span.cells _ _ ↔ _
  rw [mem_cells]
  refine exists_congr fun v => and_congr_right fun _ => and_congr_right fun _ => ?_
  show _ ∈ Span.cells _ _ ↔ _
  rw [mem_cells]
  exact exists_congr fun h => and_congr_right fun _ => and_iff_left trivial

theorem rgnGood_create : RgnGood δ rgnCreate := trivial

theorem rgnGood_createRect {x1 y1 x2 y2 : ℤ} (hx : x1 + δ ≤ x2) (hy : y1 + δ ≤ y2) :
    RgnGood δ (rgnCreateRect x1 y1 x2 y2) :=
  ⟨⟨hy, ⟨⟨hx, trivial⟩, trivial⟩, List.cons_ne_nil _ _⟩, trivial⟩

theorem mem_pixels_createRect {x1 y1 x2 y2 : ℤ} {p : ℤ × ℤ} :
    p ∈ pixels (rgnCreateRect x1 y1 x2 y2) ↔ (x1 ≤ p.1 ∧ p.1 < x2) ∧ y1 ≤ p.2 ∧ p.2 < y2 := by
  rw [mem_pixels, and_comm]
  simp [rgnCreateRect]

theorem rgnOr_spec (hδ : 0 ≤ δ) (hδ1 : δ ≤ 1) (hd : RgnGood δ dst) (hs : RgnGood δ src) :
    RgnGood δ (rgnOr dst src) ∧ pixels (rgnOr dst src) = pixels dst ∪ pixels src := by
  obtain ⟨hgood, hcells⟩ := spanListOr_spec hδ hδ1 hd hs
  exact ⟨hgood, Set.ext fun p => Set.ext_iff.mp hcells _⟩

theorem rgnAnd_spec (hδ : 0 ≤ δ) (hδ1 : δ ≤ 1) (hd : RgnGood δ dst) (hs : RgnGood δ src) :
    RgnGood δ (rgnAnd dst src).1 ∧ pixels (rgnAnd dst src).1 = pixels dst ∩ pixels src := by
  obtain ⟨hgood, hcells⟩ := spanListAnd_spec hδ hδ1 hd hs
  exact ⟨hgood, Set.ext fun p => Set.ext_iff.mp hcells _⟩

theorem rgnSubtract_spec (hδ : 0 ≤ δ) (hδ1 : δ ≤ 1) (hd : RgnGood δ dst) (hs : RgnGood δ src) :
    RgnGood δ (rgnSubtract dst src).1 ∧
      pixels (rgnSubtract dst src).1 = pixels dst \ pixels src := by
  obtain ⟨hgood, hcells⟩ := spanListSubtract_spec hδ hδ1 hd hs
  exact ⟨hgood, Set.ext fun p => Set.ext_iff.mp hcells _⟩

theorem rgnGood_offset {dx dy : ℤ} (hd : RgnGood δ dst) : RgnGood δ (rgnOffset dst dx dy) :=
  hd.offset fun _ hl => ⟨hl.1.offset fun _ h => h, fun hnil => hl.2 (List.map_eq_nil_iff.mp hnil)⟩

theorem mem_pixels_offset {dx dy : ℤ} {p : ℤ × ℤ} :
    p ∈ pixels (rgnOffset dst dx dy) ↔ (p.1 - dx, p.2 - dy) ∈ pixels dst := by
  rw [mem_pixels, mem_pixels]
  simp only [rgnOffset, Span.offset, List.mem_map, exists_exists_and_eq_and,
    le_sub_iff_add_le, sub_lt_iff_lt_add]

/-- Where no rectangle is empty, a list that is not empty has pixels. -/
theorem rgnEmpty_iff (h : RgnGood 1 src) : rgnEmpty src = true ↔ pixels src = ∅ := by
  constructor
  · intro hnil
    rw [List.isEmpty_iff.mp hnil]
    rfl
  · intro hp
    by_contra hne
    have hl : src ≠ [] := fun hnil => hne (List.isEmpty_iff.mpr hnil)
    obtain ⟨c, hc⟩ := h.cells_nonempty LawfulSubspan.cells_nonempty hl
    have hc' : (c.2.1, c.1) ∈ pixels src := hc
    rw [hp] at hc'
    exact hc'

theorem not_rgnEmpty_iff (h : RgnGood 1 src) : (!rgnEmpty src) = true ↔ pixels src ≠ ∅ := by
  rw [Bool.not_eq_true', ← Bool.not_eq_true, rgnEmpty_iff h]

/-- A rectangle within another; it may be empty. -/
theorem rgnOr_createRect {x1 y1 x2 y2 x3 y3 x4 y4 : ℤ} (hx : x1 ≤ x3 ∧ x4 ≤ x2)
    (hy : y1 ≤ y3 ∧ y4 ≤ y2) (hx' : x1 < x4 ∧ x3 < x2) (hy' : y1 < y4 ∧ y3 < y2) :
    rgnOr (rgnCreateRect x1 y1 x2 y2) (rgnCreateRect x3 y3 x4 y4) = rgnCreateRect x1 y1 x2 y2 := by
  have hrow : spanListOr [(⟨x1, x2, ()⟩ : Span Unit)] [⟨x3, x4, ()⟩] = [⟨x1, x2, ()⟩] :=
    spanListOr_singleton hx.1 hx.2 hx'.1 hx'.2 rfl rfl
  refine spanListOr_singleton hy.1 hy.2 hy'.1 hy'.2 hrow ?_
  show spanListEqual [(⟨x1, x2, ()⟩ : Span Unit)] [⟨x1, x2, ()⟩] = true
  simp [spanListEqual, Subspan.equal]

/-- Two rectangles that overlap; one of them may be empty. -/
theorem rgnAnd_createRect {x1 y1 x2 y2 x3 y3 x4 y4 : ℤ} (hx : x1 < x4 ∧ x3 < x2)
    (hy : y1 < y4 ∧ y3 < y2) :
    rgnAnd (rgnCreateRect x1 y1 x2 y2) (rgnCreateRect x3 y3 x4 y4) =
      (rgnCreateRect (max x1 x3) (max y1 y3) (min x2 x4) (min y2 y4), true) := by
  have hrow : spanListAnd [(⟨x1, x2, ()⟩ : Span Unit)] [⟨x3, x4, ()⟩] =
      ([⟨max x1 x3, min x2 x4, ()⟩], true) := spanListAnd_singleton hx.1 hx.2 rfl
  have hlist : spanListAnd [(⟨y1, y2, [⟨x1, x2, ()⟩]⟩ : Span (List (Span Unit)))]
      [⟨y3, y4, [⟨x3, x4, ()⟩]⟩] = ([⟨max y1 y3, min y2 y4,
        (spanListAnd [(⟨x1, x2, ()⟩ : Span Unit)] [⟨x3, x4, ()⟩]).1⟩], true) :=
    spanListAnd_singleton hy.1 hy.2 (congrArg Prod.snd hrow)
  rw [hrow] at hlist
  exact hlist

/-! ### Every region that the routines make -/

/-- What is done to make a region. -/
inductive RegionTerm
  | create
  | createRect (x1 y1 x2 y2 : ℤ)
  | or (dst src : RegionTerm)
  | and (dst src : RegionTerm)
  | subtract (dst src : RegionTerm)
  | offset (dst : RegionTerm) (dx dy : ℤ)
  deriving DecidableEq, Repr

namespace RegionTerm

def rgn : RegionTerm → SraRegion
  | create => rgnCreate
  | createRect x1 y1 x2 y2 => rgnCreateRect x1 y1 x2 y2
  | or dst src => rgnOr dst.rgn src.rgn
  | and dst src => (rgnAnd dst.rgn src.rgn).1
  | subtract dst src => (rgnSubtract dst.rgn src.rgn).1
  | offset dst dx dy => rgnOffset dst.rgn dx dy

/-- The pixels that are meant. -/
def meaning : RegionTerm → Set (ℤ × ℤ)
  | create => ∅
  | createRect x1 y1 x2 y2 => {p | (x1 ≤ p.1 ∧ p.1 < x2) ∧ y1 ≤ p.2 ∧ p.2 < y2}
  | or dst src => dst.meaning ∪ src.meaning
  | and dst src => dst.meaning ∩ src.meaning
  | subtract dst src => dst.meaning \ src.meaning
  | offset dst dx dy => {p | (p.1 - dx, p.2 - dy) ∈ dst.meaning}

/-- The sides of every rectangle are at least `δ` long. -/
def Sides (δ : ℤ) : RegionTerm → Prop
  | create => True
  | createRect x1 y1 x2 y2 => x1 + δ ≤ x2 ∧ y1 + δ ≤ y2
  | or dst src => dst.Sides δ ∧ src.Sides δ
  | and dst src => dst.Sides δ ∧ src.Sides δ
  | subtract dst src => dst.Sides δ ∧ src.Sides δ
  | offset dst _ _ => dst.Sides δ

theorem rgn_spec (hδ : 0 ≤ δ) (hδ1 : δ ≤ 1) (e : RegionTerm) (h : e.Sides δ) :
    RgnGood δ e.rgn ∧ pixels e.rgn = e.meaning := by
  induction e with
  | create => exact ⟨trivial, rfl⟩
  | createRect x1 y1 x2 y2 =>
    exact ⟨rgnGood_createRect h.1 h.2, Set.ext fun p => mem_pixels_createRect⟩
  | or dst src ihd ihs =>
    obtain ⟨hd, hdp⟩ := ihd h.1
    obtain ⟨hs, hsp⟩ := ihs h.2
    rw [meaning, ← hdp, ← hsp]
    exact rgnOr_spec hδ hδ1 hd hs
  | and dst src ihd ihs =>
    obtain ⟨hd, hdp⟩ := ihd h.1
    obtain ⟨hs, hsp⟩ := ihs h.2
    rw [meaning, ← hdp, ← hsp]
    exact rgnAnd_spec hδ hδ1 hd hs
  | subtract dst src ihd ihs =>
    obtain ⟨hd, hdp⟩ := ihd h.1
    obtain ⟨hs, hsp⟩ := ihs h.2
    rw [meaning, ← hdp, ← hsp]
    exact rgnSubtract_spec hδ hδ1 hd hs
  | offset dst dx dy ihd =>
    obtain ⟨hd, hdp⟩ := ihd h
    rw [meaning, ← hdp]
    exact ⟨rgnGood_offset hd, Set.ext fun p => mem_pixels_offset⟩

/-- However a region is made, it stands for the set that is meant. Where every rectangle
has pixels, the answers whether something is left are right too. -/
theorem pixels_rgn (e : RegionTerm) (h : e.Sides 0) :
    pixels e.rgn = e.meaning ∧ (e.Sides 1 → (rgnEmpty e.rgn = true ↔ e.meaning = ∅) ∧
      ∀ src : RegionTerm, src.Sides 1 →
        ((rgnAnd e.rgn src.rgn).2 = true ↔ (e.meaning ∩ src.meaning).Nonempty) ∧
        ((rgnSubtract e.rgn src.rgn).2 = true ↔ ¬e.meaning ⊆ src.meaning)) := by
  refine ⟨(rgn_spec le_rfl zero_le_one e h).2, fun h1 => ?_⟩
  obtain ⟨hgood, hpixels⟩ := rgn_spec zero_le_one le_rfl e h1
  refine ⟨hpixels ▸ rgnEmpty_iff hgood, fun src hsrc => ?_⟩
  obtain ⟨hgood', hpixels'⟩ := rgn_spec zero_le_one le_rfl src hsrc
  rw [← hpixels, ← hpixels']
  constructor
  · obtain ⟨hand, handp⟩ := rgnAnd_spec zero_le_one le_rfl hgood hgood'
    rw [← handp, Set.nonempty_iff_ne_empty, ← not_rgnEmpty_iff hand]
    rfl
  · obtain ⟨hsub, hsubp⟩ := rgnSubtract_spec zero_le_one le_rfl hgood hgood'
    rw [← Set.sdiff_eq_empty, ← hsubp, ← ne_eq, ← not_rgnEmpty_iff hsub]
    rfl

/-- Two rectangles that overlap, and a third taken from their union. -/
theorem pixels_rgn_overlap :
    let e := RegionTerm.subtract (.or (.createRect 0 0 4 4) (.createRect 2 2 6 6))
      (.createRect 1 1 3 3)
    pixels e.rgn = e.meaning :=
  (pixels_rgn _ (by simp [Sides])).1

end RegionTerm

/-! ### The bounding box -/

theorem foldl_addHspan (l : List (Span Unit)) (b : Bounds) (z : ℤ) :
    (z ≤ (l.foldl Bounds.addHspan b).xmin ↔ z ≤ b.xmin ∧ ∀ h ∈ l, z ≤ h.start) ∧
      ((l.foldl Bounds.addHspan b).xmax ≤ z ↔ b.xmax ≤ z ∧ ∀ h ∈ l, h.stop ≤ z) ∧
      (l.foldl Bounds.addHspan b).ymin = b.ymin ∧ (l.foldl Bounds.addHspan b).ymax = b.ymax := by
  induction l generalizing b with
  | nil => simp
  | cons h l ih =>
    obtain ⟨hmin, hmax, hy⟩ := ih (b.addHspan h)
    rw [List.foldl_cons, hmin, hmax]
    simp only [List.forall_mem_cons, ← and_assoc]
    refine ⟨⟨⟨and_congr_left fun _ => ?_, and_congr_left fun _ => ?_⟩, hy.1⟩, hy.2⟩
    · unfold Bounds.addHspan
      dsimp only
      split_ifs <;> omega
    · unfold Bounds.addHspan
      dsimp only
      split_ifs <;> omega

/-- Every bound is the least or the greatest of what has been taken into account. -/
theorem foldl_addVspan (l : SraRegion) (b : Bounds) (z : ℤ) :
    (z ≤ (l.foldl Bounds.addVspan b).xmin ↔
        z ≤ b.xmin ∧ ∀ v ∈ l, ∀ h ∈ v.subspan, z ≤ h.start) ∧
      ((l.foldl Bounds.addVspan b).xmax ≤ z ↔
        b.xmax ≤ z ∧ ∀ v ∈ l, ∀ h ∈ v.subspan, h.stop ≤ z) ∧
      (z ≤ (l.foldl Bounds.addVspan b).ymin ↔ z ≤ b.ymin ∧ ∀ v ∈ l, z ≤ v.start) ∧
      ((l.foldl Bounds.addVspan b).ymax ≤ z ↔ b.ymax ≤ z ∧ ∀ v ∈ l, v.stop ≤ z) := by
  induction l generalizing b with
  | nil => simp
  | cons v l ih =>
    obtain ⟨hxmin, hxmax, hymin, hymax⟩ := ih (b.addVspan v)
    obtain ⟨hmin, hmax, hy, hy'⟩ := foldl_addHspan v.subspan { b with
      ymin := if v.start < b.ymin then v.start else b.ymin
      ymax := if b.ymax < v.stop then v.stop else b.ymax } z
    rw [List.foldl_cons, hxmin, hxmax, hymin, hymax]
    simp only [List.forall_mem_cons, ← and_assoc]
    refine ⟨⟨⟨and_congr_left fun _ => hmin, and_congr_left fun _ => hmax⟩,
      and_congr_left fun _ => ?_⟩, and_congr_left fun _ => ?_⟩
    · unfold Bounds.addVspan
      rw [hy]
      dsimp only
      split_ifs <;> omega
    · unfold Bounds.addVspan
      rw [hy']
      dsimp only
      split_ifs <;> omega

/-- A region lies within a rectangle if its spans do. -/
theorem pixels_subset_createRect (h : RgnGood 1 src) {x1 y1 x2 y2 : ℤ} :
    pixels src ⊆ pixels (rgnCreateRect x1 y1 x2 y2) ↔ ∀ v ∈ src, (y1 ≤ v.start ∧ v.stop ≤ y2) ∧
      ∀ h ∈ v.subspan, x1 ≤ h.start ∧ h.stop ≤ x2 := by
  constructor
  · intro hsub v hv
    have hvlen := (h.proper hv).1
    have hcorners : ∀ a ∈ v.subspan, (x1 ≤ a.start ∧ a.stop ≤ x2) ∧ y1 ≤ v.start ∧ v.stop ≤ y2 := by
      intro a ha
      have hlen := ((h.proper hv).2.1.proper ha).1
      have hfirst : (a.start, v.start) ∈ pixels src :=
        mem_pixels.mpr ⟨v, hv, ⟨le_rfl, by dsimp only; omega⟩, a, ha, le_rfl, by dsimp only; omega⟩
      have hlast : (a.stop - 1, v.stop - 1) ∈ pixels src :=
        mem_pixels.mpr ⟨v, hv, by dsimp only; omega, a, ha, by dsimp only; omega⟩
      have hfirst' := mem_pixels_createRect.mp (hsub hfirst)
      have hlast' := mem_pixels_createRect.mp (hsub hlast)
      dsimp only at hfirst' hlast'
      omega
    obtain ⟨a, ha⟩ := List.exists_mem_of_ne_nil _ (h.proper hv).2.2
    exact ⟨(hcorners a ha).2, fun a ha => (hcorners a ha).1⟩
  · intro hsides p hp
    obtain ⟨v, hv, hy, a, ha, hx⟩ := mem_pixels.mp hp
    have hsidesY := (hsides v hv).1
    have hsidesX := (hsides v hv).2 a ha
    rw [mem_pixels_createRect]
    omega

/-- The bounding box lies within the rectangles in which the region lies. -/
theorem rgnBBox_subset_iff (h : RgnGood 1 src) (hint : ∀ p ∈ pixels src,
      (-intMax ≤ p.1 ∧ p.1 < intMax) ∧ -intMax ≤ p.2 ∧ p.2 < intMax) :
    RgnGood 1 (rgnBBox src) ∧ ∀ x1 y1 x2 y2,
      pixels (rgnBBox src) ⊆ pixels (rgnCreateRect x1 y1 x2 y2) ↔
        pixels src ⊆ pixels (rgnCreateRect x1 y1 x2 y2) := by
  rcases List.eq_nil_or_concat src with rfl | ⟨l, v, rfl⟩
  · exact ⟨trivial, fun _ _ _ _ => Iff.rfl⟩
  · set src := l.concat v with hsrc
    have hv : v ∈ src := by rw [hsrc]; simp
    obtain ⟨a, ha⟩ := List.exists_mem_of_ne_nil _ (h.proper hv).2.2
    have hbounds : pixels src ⊆ pixels (rgnCreateRect (-intMax) (-intMax) intMax intMax) :=
      fun p hp => mem_pixels_createRect.mpr (hint p hp)
    rw [pixels_subset_createRect h] at hbounds
    have hvlen := (h.proper hv).1
    have hlen := ((h.proper hv).2.1.proper ha).1
    set b := src.foldl Bounds.addVspan Bounds.start with hb
    have hfold := foldl_addVspan src Bounds.start
    rw [← hb] at hfold
    have hxmin := ((hfold b.xmin).1.mp le_rfl).2 v hv a ha
    have hxmax := ((hfold b.xmax).2.1.mp le_rfl).2 v hv a ha
    have hymin := ((hfold b.ymin).2.2.1.mp le_rfl).2 v hv
    have hymax := ((hfold b.ymax).2.2.2.mp le_rfl).2 v hv
    have hbox : rgnBBox src = rgnCreateRect b.xmin b.ymin b.xmax b.ymax := by
      unfold rgnBBox
      rw [← hb, if_neg (by omega)]
    have hgood : RgnGood 1 (rgnBBox src) := by
      rw [hbox]
      exact rgnGood_createRect (by omega) (by omega)
    refine ⟨hgood, fun x1 y1 x2 y2 => ?_⟩
    rw [pixels_subset_createRect hgood, pixels_subset_createRect h, hbox]
    simp only [rgnCreateRect, List.forall_mem_singleton]
    rw [(hfold x1).1, (hfold x2).2.1, (hfold y1).2.2.1, (hfold y2).2.2.2]
    -- the bounds start beyond every span
    have hstart : Bounds.start = ⟨intMax, intMax, 1 - intMax, 1 - intMax⟩ := rfl
    rw [hstart]
    dsimp only
    have hv' := hbounds v hv
    have ha' := hv'.2 a ha
    constructor
    · rintro ⟨⟨⟨-, hy1⟩, -, hy2⟩, ⟨-, hx1⟩, -, hx2⟩ w hw
      exact ⟨⟨hy1 w hw, hy2 w hw⟩, fun c hc => ⟨hx1 w hw c hc, hx2 w hw c hc⟩⟩
    · intro hsides
      have hvs := hsides v hv
      have has := hvs.2 a ha
      exact ⟨⟨⟨by omega, fun w hw => (hsides w hw).1.1⟩, by omega, fun w hw => (hsides w hw).1.2⟩,
        ⟨by omega, fun w hw c hc => ((hsides w hw).2 c hc).1⟩,
        by omega, fun w hw c hc => ((hsides w hw).2 c hc).2⟩

theorem rgnCountRects_bbox_le (src : SraRegion) : rgnCountRects (rgnBBox src) ≤ 1 := by
  unfold rgnBBox
  dsimp only
  split_ifs
  · exact zero_le_one
  · exact le_rfl

/-- A region in order; some of its rectangles may be empty. -/
@[ext] structure Rgn where
  list : SraRegion
  good : RgnGood 0 list

namespace Rgn

instance : Membership (ℤ × ℤ) Rgn := ⟨fun r p => p ∈ pixels r.list⟩

variable {r s : Rgn} {p : ℤ × ℤ}

theorem mem_def : p ∈ r ↔ p ∈ pixels r.list := Iff.rfl

instance (r : Rgn) (p : ℤ × ℤ) : Decidable (p ∈ r) :=
  decidable_of_iff (∃ v ∈ r.list, (v.start ≤ p.2 ∧ p.2 < v.stop) ∧
    ∃ h ∈ v.subspan, h.start ≤ p.1 ∧ p.1 < h.stop) mem_pixels.symm

def create : Rgn := ⟨rgnCreate, rgnGood_create⟩

def createRect (x1 y1 x2 y2 : ℤ) (hx : x1 ≤ x2) (hy : y1 ≤ y2) : Rgn :=
  ⟨rgnCreateRect x1 y1 x2 y2, rgnGood_createRect (by omega) (by omega)⟩

def or (r s : Rgn) : Rgn :=
  ⟨rgnOr r.list s.list, (rgnOr_spec le_rfl zero_le_one r.good s.good).1⟩

def and (r s : Rgn) : Rgn × Bool :=
  (⟨(rgnAnd r.list s.list).1, (rgnAnd_spec le_rfl zero_le_one r.good s.good).1⟩,
    (rgnAnd r.list s.list).2)

def subtract (r s : Rgn) : Rgn × Bool :=
  (⟨(rgnSubtract r.list s.list).1, (rgnSubtract_spec le_rfl zero_le_one r.good s.good).1⟩,
    (rgnSubtract r.list s.list).2)

def offset (r : Rgn) (dx dy : ℤ) : Rgn := ⟨rgnOffset r.list dx dy, rgnGood_offset r.good⟩

def isEmpty (r : Rgn) : Bool := rgnEmpty r.list

def countRects (r : Rgn) : ℕ := rgnCountRects r.list

theorem rgnGood_bbox (src : SraRegion) : RgnGood 0 (rgnBBox src) := by
  unfold rgnBBox
  dsimp only
  split_ifs with h
  · exact rgnGood_create
  · exact rgnGood_createRect (by omega) (by omega)

def bbox (r : Rgn) : Rgn := ⟨rgnBBox r.list, rgnGood_bbox r.list⟩

@[simp] theorem notMem_create : p ∉ create := fun h => h

@[simp] theorem mem_createRect {x1 y1 x2 y2 : ℤ} {hx : x1 ≤ x2} {hy : y1 ≤ y2} :
    p ∈ createRect x1 y1 x2 y2 hx hy ↔ (x1 ≤ p.1 ∧ p.1 < x2) ∧ y1 ≤ p.2 ∧ p.2 < y2 :=
  mem_pixels_createRect

@[simp] theorem mem_or : p ∈ r.or s ↔ p ∈ r ∨ p ∈ s :=
  Set.ext_iff.mp (rgnOr_spec le_rfl zero_le_one r.good s.good).2 p

@[simp] theorem mem_and : p ∈ (r.and s).1 ↔ p ∈ r ∧ p ∈ s :=
  Set.ext_iff.mp (rgnAnd_spec le_rfl zero_le_one r.good s.good).2 p

@[simp] theorem mem_subtract : p ∈ (r.subtract s).1 ↔ p ∈ r ∧ p ∉ s :=
  Set.ext_iff.mp (rgnSubtract_spec le_rfl zero_le_one r.good s.good).2 p

@[simp] theorem mem_offset {dx dy : ℤ} : p ∈ r.offset dx dy ↔ (p.1 - dx, p.2 - dy) ∈ r :=
  mem_pixels_offset

theorem notMem_of_isEmpty (h : r.isEmpty = true) : p ∉ r := by
  have hnil : r.list = [] := List.isEmpty_iff.mp h
  rw [mem_def, hnil]
  exact fun h => h

@[simp] theorem create_or : create.or r = r := Rgn.ext (spanListOr_nil_left _)

@[simp] theorem or_create : r.or create = r := Rgn.ext (spanListOr_nil_right _)

@[simp] theorem create_and : (create.and r).1 = create := Rgn.ext (spanListAnd_nil_left _)

@[simp] theorem create_subtract : (create.subtract r).1 = create :=
  Rgn.ext (spanListSubtract_nil_left _)

@[simp] theorem subtract_create : (r.subtract create).1 = r :=
  Rgn.ext (spanListSubtract_nil_right _)

theorem mem_bbox (h : p ∈ r) : p ∈ r.bbox := by
  obtain ⟨v, hv, hy, a, ha, hx⟩ := mem_pixels.mp h
  have hfold := foldl_addVspan r.list Bounds.start
  set b := r.list.foldl Bounds.addVspan Bounds.start with hb
  have hxmin := ((hfold b.xmin).1.mp le_rfl).2 v hv a ha
  have hxmax := ((hfold b.xmax).2.1.mp le_rfl).2 v hv a ha
  have hymin := ((hfold b.ymin).2.2.1.mp le_rfl).2 v hv
  have hymax := ((hfold b.ymax).2.2.2.mp le_rfl).2 v hv
  show p ∈ pixels (rgnBBox r.list)
  unfold rgnBBox
  rw [← hb, if_neg (by omega), mem_pixels_createRect]
  omega

end Rgn

end DroidVnc.Rfb
