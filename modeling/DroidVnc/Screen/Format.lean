import Mathlib.Data.Int.Init
import Mathlib.Data.UInt
import Mathlib.Tactic.Linarith

/-! The memory the screen copy works on. A grabber reports a `screenFormat` and
hands out frames; a frame of the framebuffer device is addressed through the
panning state of the driver, every other frame by rows of the visible width. C
`int` arithmetic is unbounded here except where the code lets it overflow. -/

namespace DroidVnc

/-- What a C pointer points into, by element offset. -/
abbrev Mem (α : Type) := ℤ → α

/-- A product of two C `int`s. Overflow is undefined behaviour: no result. -/
def intMul (a b : ℤ) : Option ℤ :=
  if -2 ^ 31 ≤ a * b ∧ a * b < 2 ^ 31 then some (a * b) else none

/-- `memcpy` of `count` bytes between arrays of elements of `size` bytes. -/
def memcpy {α : Type} (dst src : Mem α) (size count : ℤ) : Mem α :=
  fun k => if 0 ≤ k ∧ (k + 1) * size ≤ count then src k else dst k

/-- The fields of `screenFormat` that the screen copy reads. -/
structure ScreenFormat where
  width : UInt16
  height : UInt16
  bitsPerPixel : UInt8
  deriving DecidableEq, Repr

namespace ScreenFormat

def sw (fmt : ScreenFormat) : ℤ := fmt.width.toNat

def sh (fmt : ScreenFormat) : ℤ := fmt.height.toNat

def bpp (fmt : ScreenFormat) : ℕ := fmt.bitsPerPixel.toNat

/-- `uint8_t`, `uint16_t` or `uint32_t`: the type `OUT_T` of a pixel. -/
abbrev Pixel (fmt : ScreenFormat) := BitVec fmt.bpp

def Supported (fmt : ScreenFormat) : Prop := fmt.bpp = 8 ∨ fmt.bpp = 16 ∨ fmt.bpp = 32

instance (fmt : ScreenFormat) : Decidable fmt.Supported := by unfold Supported; infer_instance

/-- The size of a frame in bits, as `update_screen` computes it before dividing
by `CHAR_BIT`: two `int` products, the first of which `initVncServer` takes too. -/
def frameBits (fmt : ScreenFormat) : Option ℤ :=
  (intMul fmt.sw fmt.sh).bind fun n => intMul n fmt.bpp

theorem sw_nonneg (fmt : ScreenFormat) : 0 ≤ fmt.sw := by unfold sw; omega

theorem sh_nonneg (fmt : ScreenFormat) : 0 ≤ fmt.sh := by unfold sh; omega

theorem sw_lt (fmt : ScreenFormat) : fmt.sw < 65536 := by
  have := fmt.width.toNat_lt; unfold sw; omega

theorem sh_lt (fmt : ScreenFormat) : fmt.sh < 65536 := by
  have := fmt.height.toNat_lt; unfold sh; omega

theorem Supported.pos {fmt : ScreenFormat} (h : fmt.Supported) : 0 < fmt.bpp := by
  unfold Supported at h; omega

end ScreenFormat

theorem intMul_of_lt {a b : ℤ} (h0 : 0 ≤ a * b) (h : a * b < 2 ^ 31) :
    intMul a b = some (a * b) := by
  rw [intMul, if_pos]; omega

theorem intMul_of_le {a b : ℤ} (h : 2 ^ 31 ≤ a * b) : intMul a b = none := by
  rw [intMul, if_neg]; omega

namespace ScreenFormat

theorem area_nonneg (fmt : ScreenFormat) : 0 ≤ fmt.sw * fmt.sh :=
  mul_nonneg fmt.sw_nonneg fmt.sh_nonneg

theorem area_le_bits {fmt : ScreenFormat} (hf : fmt.Supported) :
    fmt.sw * fmt.sh ≤ fmt.sw * fmt.sh * fmt.bpp := by
  have hb : (1 : ℤ) ≤ fmt.bpp := by have := hf.pos; omega
  nlinarith [fmt.area_nonneg]

theorem frameBits_of_lt {fmt : ScreenFormat} (hf : fmt.Supported)
    (h : fmt.sw * fmt.sh * fmt.bpp < 2 ^ 31) :
    fmt.frameBits = some (fmt.sw * fmt.sh * fmt.bpp) := by
  have harea := area_le_bits hf
  rw [frameBits, intMul_of_lt fmt.area_nonneg (by omega), Option.bind_some,
    intMul_of_lt (le_trans fmt.area_nonneg harea) h]

theorem frameBits_of_le {fmt : ScreenFormat} (h : 2 ^ 31 ≤ fmt.sw * fmt.sh * fmt.bpp) :
    fmt.frameBits = none := by
  unfold frameBits
  by_cases ha : fmt.sw * fmt.sh < 2 ^ 31
  · rw [intMul_of_lt fmt.area_nonneg ha, Option.bind_some, intMul_of_le h]
  · rw [intMul_of_le (by omega), Option.bind_none]

end ScreenFormat

/-! ### Frames -/

/-- The fields of `struct fb_var_screeninfo` that addressing depends on, `__u32` each. -/
structure FbVarScreeninfo where
  xres : BitVec 32
  yres : BitVec 32
  xresVirtual : BitVec 32
  yresVirtual : BitVec 32
  xoffset : BitVec 32
  yoffset : BitVec 32
  deriving DecidableEq, Repr

/-- `PIXEL_TO_VIRTUALPIXEL_FB(i,j)` as stored in the `int pixelToVirtual`: the
offset is computed in unsigned 32-bit arithmetic. -/
def pixelToVirtualPixelFb (scrinfo : FbVarScreeninfo) (i j : ℤ) : ℤ :=
  ((BitVec.ofInt 32 j + scrinfo.yoffset) * scrinfo.xresVirtual + BitVec.ofInt 32 i +
    scrinfo.xoffset).toInt

def pixelToVirtualPixel (fmt : ScreenFormat) (i j : ℤ) : ℤ := j * fmt.sw + i

/-- What reading a frame yields: with the framebuffer method the memory of the
device and the panning state its driver reports on the way, else a buffer. -/
inductive Grab (α : Type)
  | framebuffer (report : FbVarScreeninfo) (mem : Mem α)
  | buffer (mem : Mem α)

namespace Grab

variable {α : Type}

/-- The frame memory `b`. -/
def mem : Grab α → Mem α
  | framebuffer _ b => b
  | buffer b => b

/-- The global `scrinfo` after the read, `old` before. -/
def scrinfo (old : FbVarScreeninfo) : Grab α → FbVarScreeninfo
  | framebuffer report _ => report
  | buffer _ => old

/-- `pixelToVirtual` for source pixel `(i, j)`; `scrinfo` is the local copy,
taken before the read. -/
def pixelToVirtual (fmt : ScreenFormat) (scrinfo : FbVarScreeninfo) (i j : ℤ) : Grab α → ℤ
  | framebuffer _ _ => pixelToVirtualPixelFb scrinfo i j
  | buffer _ => pixelToVirtualPixel fmt i j

/-- Source pixel `(i, j)` of the frame. -/
def pixel (fmt : ScreenFormat) (scrinfo : FbVarScreeninfo) (g : Grab α) (p : ℤ × ℤ) : α :=
  g.mem (g.pixelToVirtual fmt scrinfo p.1 p.2)

end Grab

end DroidVnc
