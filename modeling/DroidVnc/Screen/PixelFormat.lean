import Mathlib.Data.UInt
import DroidVnc.Lib.BitField

/-! The pixel format that the clients are told. `getscreenformat_flinger` takes the
channels of Android's `PixelFormatInfo` to the fields of `screenFormat`, and
`initVncServer` takes these to the `serverFormat` of the VNC server. The length of
a channel is computed from the upper ends of two channels, which is right when red,
green and blue lie one on the other from bit 0 on. -/

namespace DroidVnc

open BitField

/-- A channel occupies the bits `[l, h)` of a pixel. -/
structure Channel where
  l : UInt8
  h : UInt8
  deriving DecidableEq, Repr

namespace Channel

def length (c : Channel) : ℕ := c.h.toNat - c.l.toNat

/-- One channel ends where the other begins, or before. -/
def Disjoint (c d : Channel) : Prop := c.h ≤ d.l ∨ d.h ≤ c.l

instance (c d : Channel) : Decidable (c.Disjoint d) := by unfold Disjoint; infer_instance

end Channel

/-- `PixelFormatInfo`. The colour channels of up to 16 bits lie in the pixel and are
disjoint; nothing is said about the alpha channel. -/
structure PixelFormatInfo where
  bitsPerPixel : UInt8
  alpha : Channel
  red : Channel
  green : Channel
  blue : Channel
  bitsPerPixel_le : bitsPerPixel ≤ 32
  inside : ∀ c ∈ [red, green, blue], c.l < c.h ∧ c.h ≤ bitsPerPixel ∧ c.length ≤ 16
  disjoint : red.Disjoint green ∧ green.Disjoint blue ∧ red.Disjoint blue

/-- The fields of `screenFormat` that describe a pixel. -/
structure ScreenPixel where
  bitsPerPixel : UInt8
  redMax : UInt16
  greenMax : UInt16
  blueMax : UInt16
  alphaMax : UInt16
  redShift : UInt8
  greenShift : UInt8
  blueShift : UInt8
  alphaShift : UInt8
  deriving DecidableEq, Repr

/-- `getscreenformat_flinger()`. A difference of two `uint8_t` is stored in 16 bits. -/
def getscreenformat_flinger (pf : PixelFormatInfo) : ScreenPixel where
  bitsPerPixel := pf.bitsPerPixel
  redShift := pf.red.l
  redMax := pf.red.h.toUInt16
  greenShift := pf.green.l
  greenMax := pf.green.h.toUInt16 - pf.red.h.toUInt16
  blueShift := pf.blue.l
  blueMax := pf.blue.h.toUInt16 - pf.green.h.toUInt16
  alphaShift := pf.alpha.l
  alphaMax := pf.alpha.h.toUInt16 - pf.blue.h.toUInt16

/-- `serverFormat`, of LibVNCServer's type `rfbPixelFormat`. -/
structure ServerFormat where
  bitsPerPixel : UInt8
  trueColour : Bool
  redMax : UInt16
  greenMax : UInt16
  blueMax : UInt16
  redShift : UInt8
  greenShift : UInt8
  blueShift : UInt8
  deriving DecidableEq, Repr

/-- `(1 << n) - 1`. The shift is one of `int`s, undefined from 31 on. -/
def ones (n : UInt16) : Option ℕ := if n.toNat < 31 then some (2 ^ n.toNat - 1) else none

/-- The part of `initVncServer` that sets `serverFormat`. -/
def initServerFormat (p : ScreenPixel) : Option ServerFormat := do
  let redMax ← ones p.redMax
  let greenMax ← ones p.greenMax
  let blueMax ← ones p.blueMax
  return {
    bitsPerPixel := p.bitsPerPixel
    trueColour := true
    redMax := UInt16.ofNat redMax
    greenMax := UInt16.ofNat greenMax
    blueMax := UInt16.ofNat blueMax
    redShift := p.redShift
    greenShift := p.greenShift
    blueShift := p.blueShift }

/-! ### One channel -/

theorem ones_eq_some {n : UInt16} {m : ℕ} :
    ones n = some m ↔ n.toNat < 31 ∧ 2 ^ n.toNat - 1 = m := by
  unfold ones
  split_ifs with h
  · rw [Option.some_inj, and_iff_right h]
  · exact iff_of_false (by simp) fun hm => h hm.1

theorem initServerFormat_eq {p : ScreenPixel} (hred : p.redMax.toNat < 31)
    (hgreen : p.greenMax.toNat < 31) (hblue : p.blueMax.toNat < 31) :
    initServerFormat p = some {
      bitsPerPixel := p.bitsPerPixel
      trueColour := true
      redMax := UInt16.ofNat (2 ^ p.redMax.toNat - 1)
      greenMax := UInt16.ofNat (2 ^ p.greenMax.toNat - 1)
      blueMax := UInt16.ofNat (2 ^ p.blueMax.toNat - 1)
      redShift := p.redShift
      greenShift := p.greenShift
      blueShift := p.blueShift } := by
  rw [initServerFormat, ones, ones, ones, if_pos hred, if_pos hgreen, if_pos hblue]
  rfl

/-- The shift and the maximum of a channel. The maximum is computed without loss from
`count`, and with both the channel is read from a pixel, no bit more or less. -/
structure Faithful (c : Channel) (count : UInt16) (shift : UInt8) (max : UInt16) : Prop where
  fits : ones count = some max.toNat
  shift_eq : shift = c.l
  max_eq : max.toNat = 2 ^ c.length - 1
  reads : ∀ pixel i, ((pixel >>> shift.toNat) &&& max.toNat).testBit i =
    (decide (i < c.length) && pixel.testBit (c.l.toNat + i))

/-- It is all decided by the length from which the maximum is computed. -/
theorem faithful_of_count {c : Channel} {count : UInt16} (hlen : c.length ≤ 16)
    (h : count.toNat = c.length) :
    Faithful c count c.l (UInt16.ofNat (2 ^ count.toNat - 1)) := by
  have hle : 2 ^ c.length ≤ 2 ^ 16 := Nat.pow_le_pow_right (by decide) hlen
  have hmax : (UInt16.ofNat (2 ^ count.toNat - 1)).toNat = 2 ^ c.length - 1 := by
    rw [h, UInt16.toNat_ofNat']
    exact Nat.mod_eq_of_lt (by omega)
  refine ⟨?_, rfl, hmax, fun pixel i => ?_⟩
  · exact ones_eq_some.mpr ⟨by omega, by rw [hmax, h]⟩
  · rw [hmax]
    exact testBit_read _ _ _ _

theorem Faithful.count_eq {c : Channel} {count : UInt16} {shift : UInt8} {max : UInt16}
    (h : Faithful c count shift max) : count.toNat = c.length :=
  ones_inj.mp ((ones_eq_some.mp h.fits).2.trans h.max_eq)

/-! ### The three channels -/

/-- The masks of the colours have no bit in common. -/
def ServerFormat.MasksDisjoint (f : ServerFormat) : Prop :=
  let red := f.redMax.toNat <<< f.redShift.toNat
  let green := f.greenMax.toNat <<< f.greenShift.toNat
  let blue := f.blueMax.toNat <<< f.blueShift.toNat
  red &&& green = 0 ∧ green &&& blue = 0 ∧ red &&& blue = 0

theorem masks_disjoint {c d : Channel} {m n : UInt16} {k l : UInt8} {max max' : UInt16}
    (hc : Faithful c m k max) (hd : Faithful d n l max') (hle : c.l ≤ c.h ∧ d.l ≤ d.h)
    (h : c.Disjoint d) : (max.toNat <<< k.toNat) &&& (max'.toNat <<< l.toNat) = 0 := by
  rw [hc.max_eq, hd.max_eq, hc.shift_eq, hd.shift_eq]
  apply mask_and_mask
  unfold Channel.length
  rcases h with h | h <;> rw [UInt8.le_iff_toNat_le] at h <;>
    simp only [UInt8.le_iff_toNat_le] at hle <;> omega

namespace PixelFormatInfo

variable (pf : PixelFormatInfo)

/-- Red begins at bit 0, green on red, and blue on green. -/
def Stacked : Prop := pf.red.l = 0 ∧ pf.green.l = pf.red.h ∧ pf.blue.l = pf.green.h

instance : Decidable pf.Stacked := by unfold Stacked; infer_instance

/-- The upper end of red is its length when it begins at bit 0. -/
theorem redMax_toNat_iff :
    (getscreenformat_flinger pf).redMax.toNat = pf.red.length ↔ pf.red.l = 0 := by
  have hin := pf.inside pf.red (by simp)
  rw [UInt8.lt_iff_toNat_lt] at hin
  rw [← UInt8.toNat_inj]
  show pf.red.h.toUInt16.toNat = _ ↔ pf.red.l.toNat = 0
  rw [UInt8.toNat_toUInt16, Channel.length]
  omega

/-- The difference of the upper ends of two channels is the length of the second when
it begins where the first ends. -/
theorem sub_toNat_iff {c d : Channel} (hd : d.l < d.h) (hlen : d.length ≤ 16) (hh : d.h ≤ 32)
    (hc : c.h ≤ 32) :
    (d.h.toUInt16 - c.h.toUInt16).toNat = d.length ↔ d.l = c.h := by
  rw [UInt8.lt_iff_toNat_lt] at hd
  rw [UInt8.le_iff_toNat_le] at hh hc
  have h32 : (32 : UInt8).toNat = 32 := rfl
  rw [← UInt8.toNat_inj, UInt16.toNat_sub, UInt8.toNat_toUInt16, UInt8.toNat_toUInt16]
  unfold Channel.length at hlen ⊢
  omega

/-- The three lengths are right exactly for a stacked format. -/
theorem counts_iff_stacked :
    ((getscreenformat_flinger pf).redMax.toNat = pf.red.length ∧
      (getscreenformat_flinger pf).greenMax.toNat = pf.green.length ∧
      (getscreenformat_flinger pf).blueMax.toNat = pf.blue.length) ↔ pf.Stacked := by
  have hle : ∀ c ∈ [pf.red, pf.green, pf.blue], c.h ≤ 32 :=
    fun c hc => UInt8.le_trans (pf.inside c hc).2.1 pf.bitsPerPixel_le
  obtain ⟨hgreen, -, hglen⟩ := pf.inside pf.green (by simp)
  obtain ⟨hblue, -, hblen⟩ := pf.inside pf.blue (by simp)
  rw [redMax_toNat_iff]
  exact and_congr_right fun _ => and_congr
    (sub_toNat_iff hgreen hglen (hle _ (by simp)) (hle _ (by simp)))
    (sub_toNat_iff hblue hblen (hle _ (by simp)) (hle _ (by simp)))

/-- The clients are told a pixel format from which each colour is read as it is. -/
def ToldFaithfully : Prop :=
  ∃ f, initServerFormat (getscreenformat_flinger pf) = some f ∧
    Faithful pf.red (getscreenformat_flinger pf).redMax f.redShift f.redMax ∧
    Faithful pf.green (getscreenformat_flinger pf).greenMax f.greenShift f.greenMax ∧
    Faithful pf.blue (getscreenformat_flinger pf).blueMax f.blueShift f.blueMax ∧
    f.MasksDisjoint

/-- Pixel format conversion is faithful exactly when red, green and blue lie in this
order from bit 0 on, without gaps. -/
theorem toldFaithfully_iff : pf.ToldFaithfully ↔ pf.Stacked := by
  rw [← counts_iff_stacked]
  constructor
  · rintro ⟨f, -, hred, hgreen, hblue, -⟩
    exact ⟨hred.count_eq, hgreen.count_eq, hblue.count_eq⟩
  · rintro ⟨hred, hgreen, hblue⟩
    have hrlen := (pf.inside pf.red (by simp)).2.2
    have hglen := (pf.inside pf.green (by simp)).2.2
    have hblen := (pf.inside pf.blue (by simp)).2.2
    have hr := faithful_of_count hrlen hred
    have hg := faithful_of_count hglen hgreen
    have hb := faithful_of_count hblen hblue
    obtain ⟨hrg, hgb, hrb⟩ := pf.disjoint
    have hle : ∀ c ∈ [pf.red, pf.green, pf.blue], c.l ≤ c.h :=
      fun c hc => UInt8.le_of_lt (pf.inside c hc).1
    exact ⟨_, initServerFormat_eq (by omega) (by omega) (by omega), hr, hg, hb,
      masks_disjoint hr hg ⟨hle _ (by simp), hle _ (by simp)⟩ hrg,
      masks_disjoint hg hb ⟨hle _ (by simp), hle _ (by simp)⟩ hgb,
      masks_disjoint hr hb ⟨hle _ (by simp), hle _ (by simp)⟩ hrb⟩

def rgba8888 : PixelFormatInfo where
  bitsPerPixel := 32
  alpha := ⟨24, 32⟩
  red := ⟨0, 8⟩
  green := ⟨8, 16⟩
  blue := ⟨16, 24⟩
  bitsPerPixel_le := by decide
  inside := by decide
  disjoint := by decide

example : rgba8888.Stacked := by decide

def rgb565 : PixelFormatInfo where
  bitsPerPixel := 16
  alpha := ⟨0, 0⟩
  red := ⟨11, 16⟩
  green := ⟨5, 11⟩
  blue := ⟨0, 5⟩
  bitsPerPixel_le := by decide
  inside := by decide
  disjoint := by decide

/-- Its blue is on bit 0 and its red on top: the length of green wraps around. -/
theorem not_toldFaithfully_rgb565 : ¬ ∀ pf : PixelFormatInfo, pf.ToldFaithfully := by
  intro h
  obtain ⟨f, hf, -⟩ := h rgb565
  have hnone : initServerFormat (getscreenformat_flinger rgb565) = none := by decide
  exact absurd (hnone.symm.trans hf) (by simp)

end PixelFormatInfo

end DroidVnc
