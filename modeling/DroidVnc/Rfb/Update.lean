import DroidVnc.Rfb.CopyRegion
import DroidVnc.Rfb.Cursor

/-! What the server keeps for a client about its pixels, and how updates go out:
`modifiedRegion` is what must be sent, `copyRegion` what the client can copy for itself
by `copyDX`, `copyDY`, `requestedRegion` what it has asked for. A client that does not
take cursor shapes is sent the cursor with the pixels. -/

namespace DroidVnc.Rfb

open Move

/-- The encodings of rectangles; some of them count their rectangles themselves. -/
inductive Encoding
  | raw | rre | coRRE | hextile | ultra | zlib | zrle | zywrle | tight | tightPng
  deriving DecidableEq, Repr

def Encoding.countsRects : Encoding → Bool
  | coRRE | ultra | zlib | tight | tightPng => true
  | raw | rre | hextile | zrle | zywrle => false

/-- What a client can list in `rfbSetEncodings`, as far as it matters here. -/
inductive ClientEncoding
  | encoding (e : Encoding)
  | copyRect
  | xCursor
  | richCursor
  | newFBSize
  | other
  deriving DecidableEq, Repr

structure ScreenInfo (α : Type) where
  width : ℕ
  height : ℕ
  frameBuffer : ℤ × ℤ → α
  cursor : RfbCursor α
  cursorX : ℤ
  cursorY : ℤ
  maxRectsPerUpdate : ℤ
  dontConvertRichCursorToXCursor : Bool

/-- `rfbClientRec`, and the viewer's side of it. -/
structure ClientRec (α : Type) where
  modifiedRegion : Rgn
  copyRegion : Rgn
  copyDX : ℤ
  copyDY : ℤ
  requestedRegion : Rgn
  cursorX : ℤ
  cursorY : ℤ
  useCopyRect : Bool
  enableCursorShapeUpdates : Bool
  useNewFBSize : Bool
  newFBSizePending : Bool
  preferredEncoding : Option Encoding
  /-- What the viewer shows, without a cursor that it draws itself. -/
  picture : ℤ × ℤ → α
  /-- The size of the viewer's framebuffer. -/
  size : ℕ × ℕ
  /-- What a framebuffer of the viewer shows when it is new. -/
  blank : ℤ × ℤ → α
  /-- The viewer no longer draws the cursor, and the server has not drawn it since. -/
  cursorDropped : Bool

variable {α : Type}

/-! ### The cursor -/

/-- The cursor at `x`, `y` is drawn over this pixel. -/
def ScreenInfo.CursorAt (s : ScreenInfo α) (x y : ℤ) (p : ℤ × ℤ) : Prop :=
  s.cursor.Covers s.width s.height x y p

instance (s : ScreenInfo α) (x y : ℤ) (p : ℤ × ℤ) : Decidable (s.CursorAt x y p) :=
  inferInstanceAs (Decidable (s.cursor.Covers _ _ _ _ _))

/-- The cursor is drawn over this pixel for this client. -/
def ClientRec.Drawn (s : ScreenInfo α) (cl : ClientRec α) (p : ℤ × ℤ) : Prop :=
  cl.enableCursorShapeUpdates = false ∧ s.CursorAt cl.cursorX cl.cursorY p

instance (s : ScreenInfo α) (cl : ClientRec α) (p : ℤ × ℤ) : Decidable (cl.Drawn s p) :=
  inferInstanceAs (Decidable (_ ∧ _))

/-- The pixels that are sent to a client: between `rfbShowCursor` and `rfbHideCursor` the
cursor is in the framebuffer. -/
def ClientRec.shown (s : ScreenInfo α) (cl : ClientRec α) : ℤ × ℤ → α :=
  if cl.enableCursorShapeUpdates then s.frameBuffer
  else s.cursor.showCursor s.width s.height cl.cursorX cl.cursorY s.frameBuffer

/-- One axis of `sraClipRect2`. -/
def clipAxis2 (x x2 cx cx2 : ℤ) : ℤ × ℤ :=
  let x := if x < cx then cx else x
  let x := if cx2 ≤ x then cx2 - 1 else x
  let x2 := if x2 ≤ cx then cx + 1 else x2
  (x, if cx2 < x2 then cx2 else x2)

/-- The region that `rfbRedrawAfterHideCursor` adds for the cursor at `x`, `y`. -/
def ScreenInfo.redrawRegion (s : ScreenInfo α) (x y : ℤ) : Rgn :=
  let cx := clipAxis2 (x - s.cursor.xhot) (x - s.cursor.xhot + s.cursor.width) 0 s.width
  let cy := clipAxis2 (y - s.cursor.yhot) (y - s.cursor.yhot + s.cursor.height) 0 s.height
  if h : cx.1 < cx.2 ∧ cy.1 < cy.2 then .createRect cx.1 cy.1 cx.2 cy.2 h.1.le h.2.le
  else .create

/-- The rectangle of the cursor, not cut off. -/
def ScreenInfo.cursorRegion (s : ScreenInfo α) (x y : ℤ) : Rgn :=
  .createRect (x - s.cursor.xhot) (y - s.cursor.yhot) (x - s.cursor.xhot + s.cursor.width)
    (y - s.cursor.yhot + s.cursor.height) (by omega) (by omega)

/-! ### What is to be sent -/

namespace ClientRec

def markRegionAsModified (modRegion : Rgn) (cl : ClientRec α) : ClientRec α :=
  { cl with modifiedRegion := cl.modifiedRegion.or modRegion }

/-- The copy that is pending and the new one: either the former is sent as pixels, or, where
both go the same way, what the new one takes from it is. -/
def mergeCopies (copyRegion : Rgn) (dx dy : ℤ) (cl : ClientRec α) : ClientRec α :=
  if cl.copyRegion.isEmpty then cl
  else if cl.copyDX ≠ dx ∨ cl.copyDY ≠ dy then
    { cl with
      modifiedRegion := cl.modifiedRegion.or cl.copyRegion
      copyRegion := .create }
  else
    { cl with
      modifiedRegion :=
        cl.modifiedRegion.or ((copyRegion.offset (-dx) (-dy)).and cl.copyRegion).1 }

def markUnlessEmpty (r : Rgn) (cl : ClientRec α) : ClientRec α :=
  if r.isEmpty then cl else cl.markRegionAsModified r

/-- What would be copied from under the cursor, or onto it, is sent as pixels. -/
def spareCursor (s : ScreenInfo α) (dx dy : ℤ) (cl : ClientRec α) : ClientRec α :=
  if cl.enableCursorShapeUpdates then cl
  else
    let cl := cl.markUnlessEmpty ((s.cursorRegion cl.cursorX cl.cursorY).and cl.copyRegion).1
    cl.markUnlessEmpty
      (((s.cursorRegion cl.cursorX cl.cursorY).offset dx dy).and cl.copyRegion).1

def scheduleCopyRegion (s : ScreenInfo α) (copyRegion : Rgn) (dx dy : ℤ) (cl : ClientRec α) :
    ClientRec α :=
  if cl.useCopyRect then
    let cl := cl.mergeCopies copyRegion dx dy
    let cl := { cl with copyRegion := cl.copyRegion.or copyRegion, copyDX := dx, copyDY := dy }
    -- what is copied from a part that is modified is modified
    let cl := cl.markRegionAsModified ((cl.modifiedRegion.offset dx dy).and cl.copyRegion).1
    cl.spareCursor s dx dy
  else cl.markRegionAsModified copyRegion

/-- `rfbSetCursor` for one client: `c` is the new cursor. -/
def setCursor (s : ScreenInfo α) (c : RfbCursor α) (cl : ClientRec α) : ClientRec α :=
  if cl.enableCursorShapeUpdates then cl
  else
    let cl := cl.markRegionAsModified (s.redrawRegion cl.cursorX cl.cursorY)
    cl.markRegionAsModified (ScreenInfo.redrawRegion { s with cursor := c } cl.cursorX cl.cursorY)

def newFramebuffer (width height : ℕ) (cl : ClientRec α) : ClientRec α :=
  { cl with
    modifiedRegion := .createRect 0 0 width height (by omega) (by omega)
    copyRegion := .create
    copyDX := 0
    copyDY := 0
    newFBSizePending := cl.useNewFBSize || cl.newFBSizePending }

/-! ### What the client sends -/

/-- A cursor encoding is listed: if the cursor was drawn, it is hidden. -/
def enableCursor (s : ScreenInfo α) (cl : ClientRec α) : ClientRec α :=
  let cl := if cl.enableCursorShapeUpdates then cl
    else cl.markRegionAsModified (s.redrawRegion cl.cursorX cl.cursorY)
  { cl with enableCursorShapeUpdates := true, cursorDropped := false }

def setEncoding (s : ScreenInfo α) (cl : ClientRec α) : ClientEncoding → ClientRec α
  | .encoding e => { cl with preferredEncoding := cl.preferredEncoding.or (some e) }
  | .copyRect => { cl with useCopyRect := true }
  | .xCursor => if s.dontConvertRichCursorToXCursor then cl else cl.enableCursor s
  | .richCursor => cl.enableCursor s
  | .newFBSize => { cl with useNewFBSize := true }
  | .other => cl

/-- `rfbSetEncodings`: all flags are reset first. -/
def setEncodings (s : ScreenInfo α) (encodings : List ClientEncoding) (cl : ClientRec α) :
    ClientRec α :=
  let lastPreferredEncoding := cl.preferredEncoding
  let cl := { cl with
    preferredEncoding := none
    useCopyRect := false
    useNewFBSize := false
    cursorDropped := cl.cursorDropped || cl.enableCursorShapeUpdates
    enableCursorShapeUpdates := false }
  let cl := encodings.foldl (setEncoding s) cl
  { cl with
    preferredEncoding := some ((cl.preferredEncoding.or lastPreferredEncoding).getD .raw) }

/-- One axis of `rectSwapIfLEAndClip` of a client that is not scaled: the length that is
left, in 16 bits, or `none` if the request is ignored. -/
def clipRequest (x w : ℕ) (n : ℤ) : Option ℕ :=
  let w := if n - x < w then ((n - x) % 2 ^ 16).toNat else w
  if n - x < w then none else some w

def requestRegion (s : ScreenInfo α) (x y w h : UInt16) : Option Rgn :=
  match clipRequest x.toNat w.toNat s.width, clipRequest y.toNat h.toNat s.height with
  | some w, some h =>
    some (.createRect x.toNat y.toNat (x.toNat + w) (y.toNat + h) (by omega) (by omega))
  | _, _ => none

def requestUpdate (s : ScreenInfo α) (incremental : Bool) (x y w h : UInt16) (cl : ClientRec α) :
    ClientRec α :=
  match requestRegion s x y w h with
  | none => cl
  | some tmpRegion =>
    let cl := { cl with requestedRegion := cl.requestedRegion.or tmpRegion }
    if incremental then cl
    else
      { cl with
        modifiedRegion := cl.modifiedRegion.or tmpRegion
        copyRegion := (cl.copyRegion.subtract tmpRegion).1 }

/-! ### Updates -/

/-- What the viewer makes of a rectangle of pixels. -/
def putRect (pixel : ℤ × ℤ → α) (picture : ℤ × ℤ → α) (r : SraRect) : ℤ × ℤ → α :=
  fun p => if r.Has p then pixel p else picture p

/-- The cursor has moved since it was drawn for the client: it is drawn anew. -/
def redrawCursor (s : ScreenInfo α) (updateRegion : Rgn) (cl : ClientRec α) :
    ClientRec α × Rgn :=
  if cl.enableCursorShapeUpdates ∨ (cl.cursorX = s.cursorX ∧ cl.cursorY = s.cursorY) then
    (cl, updateRegion)
  else
    ({ cl with cursorX := s.cursorX, cursorY := s.cursorY, cursorDropped := false },
      (updateRegion.or (s.redrawRegion cl.cursorX cl.cursorY)).or
        (s.redrawRegion s.cursorX s.cursorY))

/-- Where there are too many rectangles, their bounding box is sent. -/
def limitRects (s : ScreenInfo α) (updateRegion : Rgn) (cl : ClientRec α) : Rgn :=
  let n := updateRegion.countRects
  if n ≠ 0xFFFF ∧ 0 < s.maxRectsPerUpdate ∧
      (cl.preferredEncoding.getD .raw).countsRects = false ∧ s.maxRectsPerUpdate < n then
    updateRegion.bbox
  else updateRegion

/-- What the two regions of an update leave: what is copied and what is sent as pixels is no
longer pending, and the viewer has carried out the copies and put the pixels. -/
def putRegions (s : ScreenInfo α) (copies : List CopyRect) (updateCopyRegion updateRegion : Rgn)
    (cl : ClientRec α) : ClientRec α :=
  let cl := { cl with
    modifiedRegion := ((((cl.modifiedRegion.or cl.copyRegion).subtract updateRegion).1).subtract
      updateCopyRegion).1
    requestedRegion := .create
    copyRegion := .create
    copyDX := 0
    copyDY := 0 }
  let r := cl.redrawCursor s updateRegion
  let cl := r.1
  let updateRegion := cl.limitRects s r.2
  { cl with
    picture := (rgnRects updateRegion.list false false).foldl (putRect (cl.shown s))
      (copies.foldl handleCopyRect cl.picture) }

/-- The end of `rfbSendFramebufferUpdate`, with `ublen` bytes in the update buffer. -/
def sendRegions (s : ScreenInfo α) (ublen : ℕ) (updateCopyRegion updateRegion : Rgn)
    (cl : ClientRec α) : Option (ClientRec α) :=
  (sendCopyRegion ublen updateCopyRegion.list cl.copyDX cl.copyDY).map fun copies =>
    cl.putRegions s copies updateCopyRegion updateRegion

/-- `rfbSendNewFBSize`: the viewer has a new framebuffer of the size of the screen. -/
def sendNewFBSize (s : ScreenInfo α) (cl : ClientRec α) : ClientRec α :=
  { cl with newFBSizePending := false, size := (s.width, s.height), picture := cl.blank }

/-- What is modified would only be overwritten after it had been copied. -/
def dropModified (cl : ClientRec α) : ClientRec α :=
  { cl with copyRegion := (cl.copyRegion.subtract cl.modifiedRegion).1 }

/-- `updateRegion` at first, with the answer of `sraRgnAnd`: what the client has asked for of
what is to be sent or copied. -/
def updateRegion (givenUpdateRegion : Rgn) (cl : ClientRec α) : Rgn × Bool :=
  (givenUpdateRegion.or cl.copyRegion).and cl.requestedRegion

/-- `updateCopyRegion`: the viewer has no pixels but those that it has asked for. -/
def updateCopyRegion (cl : ClientRec α) : Rgn :=
  ((cl.copyRegion.and cl.requestedRegion).1.and
    (cl.requestedRegion.offset cl.copyDX cl.copyDY)).1

def nothingToSend (s : ScreenInfo α) (other : Option ℕ) (givenUpdateRegion : Rgn)
    (cl : ClientRec α) : Bool :=
  !(cl.updateRegion givenUpdateRegion).2 && (cl.updateRegion givenUpdateRegion).1.isEmpty &&
    (cl.enableCursorShapeUpdates || (cl.cursorX == s.cursorX && cl.cursorY == s.cursorY)) &&
    other.isNone

/-- `rfbSendFramebufferUpdate`. `other` says that one of the rectangles without pixels is due,
a cursor shape or position and the like, and how many bytes are in the update buffer behind
them; else it is the header of the message. -/
def sendFramebufferUpdate (s : ScreenInfo α) (other : Option ℕ) (givenUpdateRegion : Rgn)
    (cl : ClientRec α) : Option (ClientRec α) :=
  if cl.useNewFBSize && cl.newFBSizePending then some (cl.sendNewFBSize s)
  else
    let cl := cl.dropModified
    if cl.nothingToSend s other givenUpdateRegion then some cl
    else
      cl.sendRegions s (other.getD 4) cl.updateCopyRegion
        ((cl.updateRegion givenUpdateRegion).1.subtract cl.updateCopyRegion).1

/-- `FB_UPDATE_PENDING`, and something has been asked for. `cursor` says that a cursor shape or
position is due. -/
def due (s : ScreenInfo α) (cursor : Bool) (cl : ClientRec α) : Bool :=
  (cursor ||
      (!cl.enableCursorShapeUpdates && (cl.cursorX != s.cursorX || cl.cursorY != s.cursorY)) ||
      (cl.useNewFBSize && cl.newFBSizePending) || !cl.copyRegion.isEmpty ||
      !cl.modifiedRegion.isEmpty) && !cl.requestedRegion.isEmpty

/-- `rfbUpdateClient`, once the update has been deferred long enough. -/
def update (s : ScreenInfo α) (cursor : Bool) (other : Option ℕ) (cl : ClientRec α) :
    Option (ClientRec α) :=
  if cl.due s cursor then cl.sendFramebufferUpdate s other cl.modifiedRegion else some cl

end ClientRec

/-! ### The screen and all of its clients -/

/-- A client as `rfbNewTCPOrUDPClient` sets it up, with what the viewer shows at first. -/
def newClient (s : ScreenInfo α) (picture : ℤ × ℤ → α) : ClientRec α where
  modifiedRegion := .createRect 0 0 s.width s.height (by omega) (by omega)
  copyRegion := .create
  copyDX := 0
  copyDY := 0
  requestedRegion := .create
  cursorX := s.cursorX
  cursorY := s.cursorY
  useCopyRect := false
  enableCursorShapeUpdates := false
  useNewFBSize := false
  newFBSizePending := false
  preferredEncoding := none
  picture
  size := (s.width, s.height)
  blank := picture
  cursorDropped := false

structure Server (α : Type) where
  screen : ScreenInfo α
  clients : List (ClientRec α)

namespace Server

/-- What can happen. `markRegion` is new pixels and `rfbMarkRegionAsModified`,
`scheduleCopyRegion` a copy that the program has made itself. -/
inductive Op (α : Type)
  | newClient (picture : ℤ × ℤ → α)
  | clientGone (i : ℕ)
  | markRegion (r : Rgn) (pixel : ℤ × ℤ → α)
  | doCopyRegion (r : Rgn) (dx dy : ℤ)
  | scheduleCopyRegion (r : Rgn) (dx dy : ℤ)
  | setCursor (c : RfbCursor α)
  | moveCursor (x y : ℤ)
  | newFramebuffer (width height : ℕ) (frameBuffer : ℤ × ℤ → α)
  | setEncodings (i : ℕ) (encodings : List ClientEncoding)
  | request (i : ℕ) (incremental : Bool) (x y w h : UInt16)
  | update (i : ℕ) (cursor : Bool) (other : Option ℕ)

/-- No result if an update overruns its buffer. -/
def step (t : Server α) : Op α → Option (Server α)
  | .newClient picture => some { t with clients := Rfb.newClient t.screen picture :: t.clients }
  | .clientGone i => some { t with clients := t.clients.eraseIdx i }
  | .markRegion r pixel =>
    some ⟨{ t.screen with
        frameBuffer := fun p => if p ∈ r then pixel p else t.screen.frameBuffer p },
      t.clients.map (ClientRec.markRegionAsModified r)⟩
  | .doCopyRegion r dx dy =>
    some ⟨{ t.screen with frameBuffer := Rfb.doCopyRegion r.list dx dy t.screen.frameBuffer },
      t.clients.map (ClientRec.scheduleCopyRegion t.screen r dx dy)⟩
  | .scheduleCopyRegion r dx dy =>
    some ⟨{ t.screen with frameBuffer := moveAt (copySource dx dy) (· ∈ r) t.screen.frameBuffer },
      t.clients.map (ClientRec.scheduleCopyRegion t.screen r dx dy)⟩
  | .setCursor c =>
    some ⟨{ t.screen with cursor := c }, t.clients.map (ClientRec.setCursor t.screen c)⟩
  | .moveCursor x y => some { t with screen := { t.screen with cursorX := x, cursorY := y } }
  | .newFramebuffer width height frameBuffer =>
    some ⟨{ t.screen with
        width, height, frameBuffer
        cursorX := if width ≤ t.screen.cursorX then width - 1 else t.screen.cursorX
        cursorY := if height ≤ t.screen.cursorY then height - 1 else t.screen.cursorY },
      t.clients.map (ClientRec.newFramebuffer width height)⟩
  | .setEncodings i encodings =>
    some { t with clients := t.clients.modify i (ClientRec.setEncodings t.screen encodings) }
  | .request i incremental x y w h =>
    some { t with
      clients := t.clients.modify i (ClientRec.requestUpdate t.screen incremental x y w h) }
  | .update i cursor other =>
    match t.clients[i]? with
    | none => some t
    | some cl =>
      (cl.update t.screen cursor other).map fun cl => { t with clients := t.clients.set i cl }

end Server

end DroidVnc.Rfb
