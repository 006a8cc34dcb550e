import Mathlib.Data.List.Basic
import DroidVnc.Lib.Region
import DroidVnc.Rfb.Cursor
import DroidVnc.Screen.Geometry

/-! The clients of the VNC server: what LibVNCServer keeps for each of them and
what the client itself knows. A pixel of the screen is pending for a client
while it is in the client's `modifiedRegion`; sending an update removes pixels
from the region and carries their current values to the client, with the cursor
drawn over them if the client takes no cursor shapes. -/

namespace DroidVnc

/-- `cl->scaledScreen`: the screen itself, or a scaled copy of a fixed size. -/
inductive ScaledScreen
  | screen
  | copy (width height : ℤ)
  deriving DecidableEq, Repr

def ScaledScreen.size (s : Screen) : ScaledScreen → ℤ × ℤ
  | screen => (s.width, s.height)
  | copy w h => (w, h)

/-- A client: five fields of `rfbClientRec`, and the client's own side. -/
structure Client (α : Type) where
  modifiedRegion : Region
  newFBSizePending : Bool
  useNewFBSize : Bool
  enableCursorShapeUpdates : Bool
  scaledScreen : ScaledScreen
  /-- The picture the client shows; of a scaled copy, the pixels it was made from. -/
  picture : ℤ × ℤ → α
  /-- Width and height the client was told when it connected. -/
  told : ℤ × ℤ
  /-- The client has at some time enabled the NewFBSize pseudo-encoding. -/
  enabledNewFBSize : Bool

/-! ### Marking -/

/-- One axis of `rfbMarkRectAsModified`: exchange the ends where they are in the
wrong order, then clip them to `[0, n]`. -/
def clipAxis (n lo hi : ℤ) : ℤ × ℤ :=
  let x1 := if lo > hi then hi else lo
  let x2 := if lo > hi then lo else hi
  (if x1 < 0 then 0 else x1, if x2 > n then n else x2)

/-- The region that `rfbMarkRectAsModified(screen, x1, y1, x2, y2)` marks. -/
def markedRegion (s : Screen) (x1 y1 x2 y2 : ℤ) : Region :=
  let x := clipAxis s.width x1 x2
  if x.1 = x.2 then ∅
  else
    let y := clipAxis s.height y1 y2
    if y.1 = y.2 then ∅ else Region.rect x.1 y.1 x.2 y.2

theorem mem_clipAxis {n lo hi z : ℤ} (h : lo ≤ hi) :
    ((clipAxis n lo hi).1 ≤ z ∧ z < (clipAxis n lo hi).2) ↔ (lo ≤ z ∧ z < hi) ∧ 0 ≤ z ∧ z < n := by
  simp only [clipAxis, if_neg (not_lt.mpr h)]
  split_ifs <;> omega

theorem markedRegion_eq_rect (s : Screen) (x1 y1 x2 y2 : ℤ) :
    markedRegion s x1 y1 x2 y2 =
      Region.rect (clipAxis s.width x1 x2).1 (clipAxis s.height y1 y2).1
        (clipAxis s.width x1 x2).2 (clipAxis s.height y1 y2).2 := by
  simp only [markedRegion]
  split_ifs with hx hy
  · ext p
    rw [Region.mem_rect, hx]
    exact iff_of_false (by simp) (by omega)
  · ext p
    rw [Region.mem_rect, hy]
    exact iff_of_false (by simp) (by omega)
  · rfl

/-- The rectangle of `myCursor`, which is drawn at the origin. -/
def cursorRegion (s : Screen) : Region := markedRegion s (-3) (-3) 5 4

/-- The marked region is the rectangle cut down to the screen. -/
theorem mem_markedRegion {s : Screen} {x1 y1 x2 y2 : ℤ} (hx : x1 ≤ x2) (hy : y1 ≤ y2)
    {p : ℤ × ℤ} :
    p ∈ markedRegion s x1 y1 x2 y2 ↔
      (x1 ≤ p.1 ∧ p.1 < x2) ∧ (y1 ≤ p.2 ∧ p.2 < y2) ∧ Grid.Inside s.width s.height p := by
  rw [markedRegion_eq_rect, Region.mem_rect, mem_clipAxis hx, mem_clipAxis hy, Grid.Inside]
  tauto

theorem clipAxis_bounds (n lo hi : ℤ) : 0 ≤ (clipAxis n lo hi).1 ∧ (clipAxis n lo hi).2 ≤ n := by
  simp only [clipAxis]
  split_ifs <;> omega

theorem markedRegion_subset (s : Screen) (x1 y1 x2 y2 : ℤ) :
    markedRegion s x1 y1 x2 y2 ⊆ Region.rect 0 0 s.width s.height := by
  have hx := clipAxis_bounds s.width x1 x2
  have hy := clipAxis_bounds s.height y1 y2
  intro p hp
  rw [markedRegion_eq_rect, Region.mem_rect] at hp
  rw [Region.mem_rect]
  omega

theorem markedRegion_full {s : Screen} (hw : 0 ≤ s.width) (hh : 0 ≤ s.height) :
    markedRegion s 0 0 s.width s.height = Region.rect 0 0 s.width s.height := by
  ext p
  rw [mem_markedRegion hw hh, Region.mem_rect, Grid.Inside]
  tauto

/-! ### What happens to one client -/

namespace Client

variable {α : Type}

def mark (r : Region) (cl : Client α) : Client α :=
  { cl with modifiedRegion := cl.modifiedRegion ∪ r }

/-- What a list of encodings says: with NewFBSize, with one for cursor shapes. -/
def setFlags (newFBSize cursorShapes : Bool) (cl : Client α) : Client α :=
  { cl with
    useNewFBSize := newFBSize
    enableCursorShapeUpdates := cursorShapes
    enabledNewFBSize := cl.enabledNewFBSize || newFBSize }

/-- `rfbSetEncodings`: the flags are reset, then set by the list. Where it has cursor
shapes, `rfbRedrawAfterHideCursor` marks the cursor as no longer drawn. -/
def setEncodings (s : Screen) (newFBSize cursorShapes : Bool) (cl : Client α) : Client α :=
  let cl := cl.setFlags newFBSize cursorShapes
  if cursorShapes then cl.mark (cursorRegion s) else cl

/-- The screen's pixels while an update goes to the client: `rfbShowCursor` has drawn
the cursor, which never moves, if the client takes no shapes of it. -/
def painted (s : Screen) (cursor : Rfb.RfbCursor α) (pixel : ℤ × ℤ → α) (cl : Client α) :
    ℤ × ℤ → α :=
  if cl.enableCursorShapeUpdates then pixel
  else cursor.showCursor s.width s.height 0 0 pixel

/-- `rfbSendFramebufferUpdate`: a pending size change is announced alone; else
the requested part of the modified region is sent, with the pixels `pixel`. -/
def send (requested : Region) (pixel : ℤ × ℤ → α) (cl : Client α) : Client α :=
  if cl.useNewFBSize ∧ cl.newFBSizePending then { cl with newFBSizePending := false }
  else
    let updateRegion := cl.modifiedRegion ∩ requested
    { cl with
      modifiedRegion := cl.modifiedRegion \ updateRegion
      picture := fun p => if p ∈ updateRegion then pixel p else cl.picture p }

/-- An update is sent to a client for which the cursor is drawn if need be. -/
def serve (s : Screen) (cursor : Rfb.RfbCursor α) (requested : Region) (pixel : ℤ × ℤ → α)
    (cl : Client α) : Client α :=
  cl.send requested (cl.painted s cursor pixel)

theorem send_modifiedRegion_subset (requested : Region) (pixel : ℤ × ℤ → α) (cl : Client α) :
    (cl.send requested pixel).modifiedRegion ⊆ cl.modifiedRegion := by
  unfold send
  split_ifs
  · exact Finset.Subset.refl _
  · exact Finset.sdiff_subset

@[simp] theorem send_told (requested : Region) (pixel : ℤ × ℤ → α) (cl : Client α) :
    (cl.send requested pixel).told = cl.told := by unfold send; split_ifs <;> rfl

@[simp] theorem send_scaledScreen (requested : Region) (pixel : ℤ × ℤ → α) (cl : Client α) :
    (cl.send requested pixel).scaledScreen = cl.scaledScreen := by unfold send; split_ifs <;> rfl

@[simp] theorem send_enableCursorShapeUpdates (requested : Region) (pixel : ℤ × ℤ → α)
    (cl : Client α) :
    (cl.send requested pixel).enableCursorShapeUpdates = cl.enableCursorShapeUpdates := by
  unfold send; split_ifs <;> rfl

@[simp] theorem send_enabledNewFBSize (requested : Region) (pixel : ℤ × ℤ → α) (cl : Client α) :
    (cl.send requested pixel).enabledNewFBSize = cl.enabledNewFBSize := by
  unfold send; split_ifs <;> rfl

/-- A pixel that a send takes out of the pending region has reached the client. -/
theorem send_picture (requested : Region) (pixel : ℤ × ℤ → α) (cl : Client α) (p : ℤ × ℤ) :
    (p ∈ cl.modifiedRegion ∧ p ∉ (cl.send requested pixel).modifiedRegion ∧
        (cl.send requested pixel).picture p = pixel p) ∨
      ((p ∈ (cl.send requested pixel).modifiedRegion ↔ p ∈ cl.modifiedRegion) ∧
        (cl.send requested pixel).picture p = cl.picture p) := by
  unfold send
  split_ifs
  · exact Or.inr ⟨Iff.rfl, rfl⟩
  · by_cases hp : p ∈ cl.modifiedRegion <;> by_cases hr : p ∈ requested <;> simp [hp, hr]

end Client

end DroidVnc
