import DroidVnc.Rfb.Message
import DroidVnc.Rfb.Pictures

/-! What goes over the wire, whatever happens. As long as nobody names a rectangle without
pixels, no region has any: every rectangle of every update has a pixel and lies on the
screen, and the viewer that reads the bytes of the update has the picture that is meant for
it. A viewer that asks for a rectangle without pixels makes the server divide by zero. -/

namespace DroidVnc.Rfb

open Move Transition Wire

variable {α : Type}

/-! ### Regions -/

namespace Rgn

/-- Every rectangle of the region has a pixel. -/
def Proper (r : Rgn) : Prop := RgnGood 1 r.list

variable {r s : Rgn}

theorem proper_create : create.Proper := trivial

theorem proper_createRect {x1 y1 x2 y2 : ℤ} {hx : x1 ≤ x2} {hy : y1 ≤ y2} (hx' : x1 < x2)
    (hy' : y1 < y2) : (createRect x1 y1 x2 y2 hx hy).Proper :=
  rgnGood_createRect (by omega) (by omega)

theorem Proper.or (hr : r.Proper) (hs : s.Proper) : (r.or s).Proper :=
  (rgnOr_spec zero_le_one le_rfl hr hs).1

theorem Proper.and (hr : r.Proper) (hs : s.Proper) : (r.and s).1.Proper :=
  (rgnAnd_spec zero_le_one le_rfl hr hs).1

theorem Proper.subtract (hr : r.Proper) (hs : s.Proper) : (r.subtract s).1.Proper :=
  (rgnSubtract_spec zero_le_one le_rfl hr hs).1

theorem Proper.offset (hr : r.Proper) (dx dy : ℤ) : (r.offset dx dy).Proper := rgnGood_offset hr

/-- Every rectangle of the region has a pixel, and all of them are on the screen. -/
structure OnScreen (w h : ℤ) (r : Rgn) : Prop where
  proper : r.Proper
  inside : ∀ p ∈ r, Grid.Inside w h p

variable {w h : ℤ}

theorem onScreen_create : create.OnScreen w h :=
  ⟨proper_create, fun _ hp => (notMem_create hp).elim⟩

theorem onScreen_createRect {x1 y1 x2 y2 : ℤ} {hx : x1 ≤ x2} {hy : y1 ≤ y2}
    (hx' : 0 ≤ x1 ∧ x1 < x2 ∧ x2 ≤ w) (hy' : 0 ≤ y1 ∧ y1 < y2 ∧ y2 ≤ h) :
    (createRect x1 y1 x2 y2 hx hy).OnScreen w h where
  proper := proper_createRect hx'.2.1 hy'.2.1
  inside p hp := by
    rw [mem_createRect] at hp
    unfold Grid.Inside
    omega

theorem onScreen_whole {w h : ℕ} (hw : 0 < w) (hh : 0 < h) :
    (createRect 0 0 w h (Int.natCast_nonneg w) (Int.natCast_nonneg h)).OnScreen w h :=
  onScreen_createRect ⟨le_rfl, by omega, le_rfl⟩ ⟨le_rfl, by omega, le_rfl⟩

theorem OnScreen.or (hr : r.OnScreen w h) (hs : s.OnScreen w h) : (r.or s).OnScreen w h where
  proper := hr.proper.or hs.proper
  inside p hp := (mem_or.mp hp).elim (hr.inside p) (hs.inside p)

theorem OnScreen.and (hr : r.OnScreen w h) (hs : s.Proper) : (r.and s).1.OnScreen w h where
  proper := hr.proper.and hs
  inside p hp := hr.inside p (mem_and.mp hp).1

theorem OnScreen.and_right (hr : r.Proper) (hs : s.OnScreen w h) : (r.and s).1.OnScreen w h where
  proper := hr.and hs.proper
  inside p hp := hs.inside p (mem_and.mp hp).2

theorem OnScreen.subtract (hr : r.OnScreen w h) (hs : s.Proper) :
    (r.subtract s).1.OnScreen w h where
  proper := hr.proper.subtract hs
  inside p hp := hr.inside p (mem_subtract.mp hp).1

theorem OnScreen.sides (hr : r.OnScreen w h) {reverseX reverseY : Bool} {t : SraRect}
    (ht : t ∈ rgnRects r.list reverseX reverseY) :
    (0 ≤ t.x1 ∧ t.x1 < t.x2 ∧ t.x2 ≤ w) ∧ 0 ≤ t.y1 ∧ t.y1 < t.y2 ∧ t.y2 ≤ h := by
  obtain ⟨hx, hy⟩ := sides_of_mem_rgnRects hr.proper ht
  have hmem (p : ℤ × ℤ) (hp : t.Has p) : Grid.Inside w h p :=
    hr.inside p ((exists_mem_rgnRects r.good).mp ⟨t, ht, hp⟩)
  have hfirst := hmem (t.x1, t.y1) ⟨⟨le_rfl, by dsimp only; omega⟩, le_rfl, by dsimp only; omega⟩
  have hlast := hmem (t.x2 - 1, t.y2 - 1) ⟨by dsimp only; omega, by dsimp only; omega⟩
  unfold Grid.Inside at hfirst hlast
  dsimp only at hfirst hlast
  omega

/-- A region with rectangles on the screen is within the screen, its bounding box too. -/
theorem OnScreen.bbox (hr : r.OnScreen w h) (hw : w ≤ intMax) (hh : h ≤ intMax) :
    r.bbox.OnScreen w h := by
  have hint (p : ℤ × ℤ) (hp : p ∈ pixels r.list) :
      (-intMax ≤ p.1 ∧ p.1 < intMax) ∧ -intMax ≤ p.2 ∧ p.2 < intMax := by
    have hp' := hr.inside p hp
    unfold Grid.Inside at hp'
    unfold intMax at hw hh ⊢
    omega
  obtain ⟨hgood, hbox⟩ := rgnBBox_subset_iff hr.proper hint
  refine ⟨hgood, fun p hp => ?_⟩
  have hscreen : pixels r.list ⊆ pixels (rgnCreateRect 0 0 w h) := fun p hp =>
    mem_pixels_createRect.mpr (hr.inside p hp)
  exact mem_pixels_createRect.mp ((hbox 0 0 w h).mpr hscreen hp)

end Rgn

/-! ### The cursor and requests -/

namespace ScreenInfo

variable {s : ScreenInfo α}

structure Proper (s : ScreenInfo α) : Prop where
  width : 0 < s.width
  height : 0 < s.height
  cursorWidth : 0 < s.cursor.width
  cursorHeight : 0 < s.cursor.height

theorem Proper.frameBuffer (hs : s.Proper) (frameBuffer : ℤ × ℤ → α) :
    Proper { s with frameBuffer } :=
  ⟨hs.width, hs.height, hs.cursorWidth, hs.cursorHeight⟩

theorem Proper.onScreen_redrawRegion (hs : s.Proper) (x y : ℤ) :
    (s.redrawRegion x y).OnScreen s.width s.height := by
  have hw := hs.width
  have hh := hs.height
  have haxis (a b n : ℤ) (hn : 0 < n) : 0 ≤ (clipAxis2 a b 0 n).1 ∧ (clipAxis2 a b 0 n).2 ≤ n := by
    unfold clipAxis2
    dsimp only
    split_ifs <;> omega
  unfold redrawRegion
  dsimp only
  split_ifs with hempty
  · obtain ⟨hx1, hx2⟩ := haxis (x - s.cursor.xhot) (x - s.cursor.xhot + s.cursor.width) s.width
      (by omega)
    obtain ⟨hy1, hy2⟩ := haxis (y - s.cursor.yhot) (y - s.cursor.yhot + s.cursor.height) s.height
      (by omega)
    exact Rgn.onScreen_createRect ⟨hx1, hempty.1, hx2⟩ ⟨hy1, hempty.2, hy2⟩
  · exact Rgn.onScreen_create

theorem Proper.cursorRegion (hs : s.Proper) (x y : ℤ) : (s.cursorRegion x y).Proper := by
  have hw := hs.cursorWidth
  have hh := hs.cursorHeight
  exact Rgn.proper_createRect (by omega) (by omega)

end ScreenInfo

namespace ClientRec

variable {s : ScreenInfo α} {cl : ClientRec α}

/-- A request has pixels if it has a size and does not start right behind the screen. -/
def RequestProper (s : ScreenInfo α) (x y w h : UInt16) : Prop :=
  (x.toNat ≠ s.width ∧ w.toNat ≠ 0) ∧ y.toNat ≠ s.height ∧ h.toNat ≠ 0

theorem clipRequest_pos {x w v n : ℕ} (hn : n < 2 ^ 16) (h : clipRequest x w n = some v)
    (hx : x ≠ n) (hw : w ≠ 0) : 0 < v := by
  unfold clipRequest at h
  dsimp only at h
  split_ifs at h <;> cases h <;> omega

theorem proper_requestRegion (hw : s.width < 2 ^ 16) (hh : s.height < 2 ^ 16) {x y w h : UInt16}
    {r : Rgn} (hr : requestRegion s x y w h = some r) (hproper : RequestProper s x y w h) :
    r.Proper := by
  obtain ⟨⟨hx, hw0⟩, hy, hh0⟩ := hproper
  unfold requestRegion at hr
  split at hr
  · rename_i w' h' hw' hh'
    cases hr
    have hwpos := clipRequest_pos hw hw' hx hw0
    have hhpos := clipRequest_pos hh hh' hy hh0
    exact Rgn.proper_createRect (by omega) (by omega)
  · cases hr

theorem inside_requestRegion (hw : s.width < 2 ^ 16) (hh : s.height < 2 ^ 16) {x y w h : UInt16}
    {r : Rgn} (hr : requestRegion s x y w h = some r) :
    ∀ p ∈ r, Grid.Inside s.width s.height p := by
  have haxis (x w v n : ℕ) (hn : n < 2 ^ 16) (hx : x < 2 ^ 16) (h : clipRequest x w n = some v) :
      x + v ≤ n := by
    unfold clipRequest at h
    dsimp only at h
    split_ifs at h <;> cases h <;> omega
  unfold requestRegion at hr
  split at hr
  · rename_i w' h' hw' hh'
    cases hr
    intro p hp
    have hx := haxis _ _ _ _ hw (UInt16.toNat_lt x) hw'
    have hy := haxis _ _ _ _ hh (UInt16.toNat_lt y) hh'
    rw [Rgn.mem_createRect] at hp
    unfold Grid.Inside
    omega
  · cases hr

/-! ### Clients -/

/-- What is pending for a client has pixels and is on the screen. -/
structure Proper (s : ScreenInfo α) (cl : ClientRec α) : Prop where
  modified : cl.modifiedRegion.OnScreen s.width s.height
  copy : cl.copyRegion.OnScreen s.width s.height
  requested : cl.requestedRegion.Proper

/-- Only the size of the screen matters. -/
theorem Proper.resized (h : cl.Proper s) {s' : ScreenInfo α} (hw : s'.width = s.width)
    (hh : s'.height = s.height) : cl.Proper s' where
  modified := by rw [hw, hh]; exact h.modified
  copy := by rw [hw, hh]; exact h.copy
  requested := h.requested

theorem Proper.markRegionAsModified (h : cl.Proper s) {r : Rgn} (hr : r.OnScreen s.width s.height) :
    (cl.markRegionAsModified r).Proper s :=
  ⟨h.modified.or hr, h.copy, h.requested⟩

theorem Proper.markUnlessEmpty (h : cl.Proper s) {r : Rgn} (hr : r.OnScreen s.width s.height) :
    (cl.markUnlessEmpty r).Proper s := by
  unfold ClientRec.markUnlessEmpty
  split_ifs
  · exact h
  · exact h.markRegionAsModified hr

theorem Proper.mergeCopies (h : cl.Proper s) {copyRegion : Rgn} (hr : copyRegion.Proper)
    (dx dy : ℤ) : (cl.mergeCopies copyRegion dx dy).Proper s := by
  unfold ClientRec.mergeCopies
  split_ifs
  · exact h
  · exact ⟨h.modified.or h.copy, Rgn.onScreen_create, h.requested⟩
  · exact ⟨h.modified.or (Rgn.OnScreen.and_right (hr.offset _ _) h.copy), h.copy, h.requested⟩

theorem Proper.spareCursor (hs : s.Proper) (h : cl.Proper s) (dx dy : ℤ) :
    (cl.spareCursor s dx dy).Proper s := by
  unfold ClientRec.spareCursor
  split_ifs
  · exact h
  · have hcursor (r : Rgn) (hr : r.Proper) : (r.and cl.copyRegion).1.OnScreen s.width s.height :=
      Rgn.OnScreen.and_right hr h.copy
    have hmark := h.markUnlessEmpty (hcursor _ (hs.cursorRegion cl.cursorX cl.cursorY))
    refine hmark.markUnlessEmpty (Rgn.OnScreen.and_right ((hs.cursorRegion _ _).offset dx dy) ?_)
    exact hmark.copy

theorem Proper.scheduleCopyRegion (hs : s.Proper) (h : cl.Proper s) {copyRegion : Rgn}
    (hr : copyRegion.OnScreen s.width s.height) (dx dy : ℤ) :
    (cl.scheduleCopyRegion s copyRegion dx dy).Proper s := by
  unfold ClientRec.scheduleCopyRegion
  split_ifs
  · have hmerge := h.mergeCopies hr.proper dx dy
    have hcopy := hmerge.copy.or hr
    refine Proper.spareCursor hs (Proper.markRegionAsModified ?_ ?_) dx dy
    · exact ⟨hmerge.modified, hcopy, hmerge.requested⟩
    · exact Rgn.OnScreen.and_right (hmerge.modified.proper.offset dx dy) hcopy
  · exact h.markRegionAsModified hr

theorem Proper.setCursor (hs : s.Proper) {c : RfbCursor α}
    (hc : ScreenInfo.Proper { s with cursor := c }) (h : cl.Proper s) :
    (cl.setCursor s c).Proper s := by
  unfold ClientRec.setCursor
  split_ifs
  · exact h
  · exact (h.markRegionAsModified (hs.onScreen_redrawRegion _ _)).markRegionAsModified
      (hc.onScreen_redrawRegion _ _)

theorem Proper.enableCursor (hs : s.Proper) (h : cl.Proper s) : (cl.enableCursor s).Proper s := by
  unfold ClientRec.enableCursor
  dsimp only
  split_ifs
  · exact ⟨h.modified, h.copy, h.requested⟩
  · exact ⟨h.modified.or (hs.onScreen_redrawRegion _ _), h.copy, h.requested⟩

theorem Proper.setEncoding (hs : s.Proper) (h : cl.Proper s) (e : ClientEncoding) :
    (cl.setEncoding s e).Proper s := by
  cases e with
  | xCursor =>
    unfold ClientRec.setEncoding
    split_ifs
    · exact h
    · exact h.enableCursor hs
  | richCursor => exact h.enableCursor hs
  | encoding e => exact ⟨h.modified, h.copy, h.requested⟩
  | copyRect => exact ⟨h.modified, h.copy, h.requested⟩
  | newFBSize => exact ⟨h.modified, h.copy, h.requested⟩
  | other => exact h

theorem Proper.setEncodings (hs : s.Proper) (h : cl.Proper s) (encodings : List ClientEncoding) :
    (cl.setEncodings s encodings).Proper s := by
  have hfold (l : List ClientEncoding) (cl : ClientRec α) (h : cl.Proper s) :
      (l.foldl (ClientRec.setEncoding s) cl).Proper s := by
    induction l generalizing cl with
    | nil => exact h
    | cons e l ih => exact ih _ (h.setEncoding hs e)
  have hlist := hfold encodings { cl with
    preferredEncoding := none
    useCopyRect := false
    useNewFBSize := false
    cursorDropped := cl.cursorDropped || cl.enableCursorShapeUpdates
    enableCursorShapeUpdates := false } ⟨h.modified, h.copy, h.requested⟩
  exact ⟨hlist.modified, hlist.copy, hlist.requested⟩

/-- A request that is not incremental marks what is asked for, cut off at the screen. -/
theorem Proper.requestUpdate (hw : s.width < 2 ^ 16) (hh : s.height < 2 ^ 16) (h : cl.Proper s)
    (incremental : Bool) {x y w ht : UInt16} (hproper : RequestProper s x y w ht) :
    (cl.requestUpdate s incremental x y w ht).Proper s := by
  unfold ClientRec.requestUpdate
  split
  · exact h
  · rename_i r hr
    have hr' := proper_requestRegion hw hh hr hproper
    dsimp only
    split_ifs
    · exact ⟨h.modified, h.copy, h.requested.or hr'⟩
    · exact ⟨h.modified.or ⟨hr', inside_requestRegion hw hh hr⟩, h.copy.subtract hr',
        h.requested.or hr'⟩

/-! ### What is sent -/

/-- What an update has in it, and where its pixels come from. -/
structure Sent (α : Type) where
  copies : List CopyRect
  rects : List SraRect
  pixel : ℤ × ℤ → α

/-- What the viewer makes of an update. -/
def Sent.onto (u : Sent α) (picture : ℤ × ℤ → α) : ℤ × ℤ → α :=
  u.rects.foldl (putRect u.pixel) (u.copies.foldl handleCopyRect picture)

def sentRegions (s : ScreenInfo α) (updateCopyRegion updateRegion : Rgn) (cl : ClientRec α) :
    Sent α :=
  let r := cl.redrawCursor s updateRegion
  { copies := copyRects updateCopyRegion.list cl.copyDX cl.copyDY
    rects := rgnRects (r.1.limitRects s r.2).list false false
    pixel := r.1.shown s }

/-- What `rfbSendFramebufferUpdate` has to send, if there are pixels in it. -/
def sentUpdate (s : ScreenInfo α) (other : Option ℕ) (givenUpdateRegion : Rgn)
    (cl : ClientRec α) : Option (Sent α) :=
  if cl.useNewFBSize && cl.newFBSizePending then none
  else
    let cl := cl.dropModified
    if cl.nothingToSend s other givenUpdateRegion then none
    else
      some (cl.sentRegions s cl.updateCopyRegion
        ((cl.updateRegion givenUpdateRegion).1.subtract cl.updateCopyRegion).1)

/-- What `rfbUpdateClient` has to send, if there are pixels in it. -/
def sent (s : ScreenInfo α) (cursor : Bool) (other : Option ℕ) (cl : ClientRec α) :
    Option (Sent α) :=
  if cl.due s cursor then cl.sentUpdate s other cl.modifiedRegion else none

theorem putRegions_picture (s : ScreenInfo α) (updateCopyRegion updateRegion : Rgn)
    (cl : ClientRec α) :
    (cl.putRegions s (copyRects updateCopyRegion.list cl.copyDX cl.copyDY) updateCopyRegion
      updateRegion).picture = (cl.sentRegions s updateCopyRegion updateRegion).onto cl.picture := by
  unfold putRegions sentRegions redrawCursor
  dsimp only
  split_ifs <;> rfl

/-- What is to be sent has been put where the viewer shows it, if the CopyRects have room. -/
theorem update_of_sent {cursor : Bool} {other : Option ℕ} {u : Sent α}
    (hu : cl.sent s cursor other = some u)
    (hroom : other.getD 4 + 16 * u.copies.length ≤ updateBufSize) :
    (cl.useNewFBSize && cl.newFBSizePending) = false ∧
      ∃ cl', cl.update s cursor other = some cl' ∧ cl'.picture = u.onto cl.picture := by
  unfold sent at hu
  split_ifs at hu with hdue
  unfold sentUpdate at hu
  dsimp only at hu
  split_ifs at hu with hsize hnothing
  obtain rfl := Option.some.inj hu
  have hlength : (copyRects cl.dropModified.updateCopyRegion.list cl.copyDX cl.copyDY).length =
      cl.dropModified.updateCopyRegion.countRects :=
    length_copyRects cl.dropModified.updateCopyRegion.good _ _
  refine ⟨Bool.eq_false_iff.mpr hsize, _, ?_, putRegions_picture s _ _ cl.dropModified⟩
  unfold update sendFramebufferUpdate
  rw [if_pos hdue, if_neg hsize, if_neg hnothing]
  exact sendRegions_eq_some.mpr ⟨hlength ▸ hroom, rfl⟩

/-! ### Updates -/

theorem redrawCursor_onScreen (hs : s.Proper) {updateRegion : Rgn}
    (hr : updateRegion.OnScreen s.width s.height) :
    (cl.redrawCursor s updateRegion).2.OnScreen s.width s.height := by
  unfold redrawCursor
  split_ifs
  · exact hr
  · exact (hr.or (hs.onScreen_redrawRegion _ _)).or (hs.onScreen_redrawRegion _ _)

theorem limitRects_onScreen (hw : s.width < 2 ^ 16) (hh : s.height < 2 ^ 16) {r : Rgn}
    (hr : r.OnScreen s.width s.height) : (cl.limitRects s r).OnScreen s.width s.height := by
  unfold limitRects
  dsimp only
  split_ifs
  · exact hr.bbox (by unfold intMax; omega) (by unfold intMax; omega)
  · exact hr

/-- The rectangles have pixels, and are on the screen; so are the copies, which are still to be
copied and not modified. -/
structure Sent.Good (s : ScreenInfo α) (cl : ClientRec α) (u : Sent α) : Prop where
  rects : ∀ r ∈ u.rects, (0 ≤ r.x1 ∧ r.x1 < r.x2 ∧ r.x2 ≤ s.width) ∧
    0 ≤ r.y1 ∧ r.y1 < r.y2 ∧ r.y2 ≤ s.height
  copies : ∃ r : Rgn, r.OnScreen s.width s.height ∧ (∀ p ∈ r, p ∈ cl.copyRegion) ∧
    u.copies = copyRects r.list cl.copyDX cl.copyDY

theorem Proper.sentRegions (hs : s.Proper) (hw : s.width < 2 ^ 16) (hh : s.height < 2 ^ 16)
    {updateCopyRegion updateRegion : Rgn} (hcopy : updateCopyRegion.OnScreen s.width s.height)
    (hsub : ∀ p ∈ updateCopyRegion, p ∈ cl.copyRegion)
    (hupdate : updateRegion.OnScreen s.width s.height) :
    (cl.sentRegions s updateCopyRegion updateRegion).Good s cl where
  rects _ hr := (limitRects_onScreen hw hh (redrawCursor_onScreen hs hupdate)).sides hr
  copies := ⟨updateCopyRegion, hcopy, hsub, rfl⟩

theorem Proper.dropModified (h : cl.Proper s) : cl.dropModified.Proper s :=
  ⟨h.modified, h.copy.subtract h.modified.proper, h.requested⟩

theorem Proper.updateCopyRegion (h : cl.Proper s) :
    cl.updateCopyRegion.OnScreen s.width s.height :=
  (h.copy.and h.requested).and (h.requested.offset cl.copyDX cl.copyDY)

theorem Proper.updateRegion (h : cl.Proper s) :
    ((cl.updateRegion cl.modifiedRegion).1.subtract cl.updateCopyRegion).1.OnScreen s.width
      s.height :=
  ((h.modified.or h.copy).and h.requested).subtract h.updateCopyRegion.proper

theorem Proper.sent (h : cl.Proper s) (hs : s.Proper) (hw : s.width < 2 ^ 16)
    (hh : s.height < 2 ^ 16) {cursor : Bool} {other : Option ℕ} {u : Sent α}
    (hu : cl.sent s cursor other = some u) : u.Good s cl := by
  unfold ClientRec.sent at hu
  split_ifs at hu
  unfold sentUpdate at hu
  dsimp only at hu
  split_ifs at hu
  obtain rfl := Option.some.inj hu
  have hsub : ∀ p ∈ cl.dropModified.updateCopyRegion, p ∈ cl.dropModified.copyRegion :=
    fun p hp => (Rgn.mem_and.mp (Rgn.mem_and.mp hp).1).1
  obtain ⟨hrects, r, hr, hsub, hcopies⟩ := Proper.sentRegions hs hw hh
    h.dropModified.updateCopyRegion hsub h.dropModified.updateRegion
  exact ⟨hrects, r, hr, fun p hp => (Rgn.mem_subtract.mp (hsub p hp)).1, hcopies⟩

theorem Proper.putRegions (h : cl.Proper s) (copies : List CopyRect)
    {updateCopyRegion updateRegion : Rgn} (hcopy : updateCopyRegion.Proper)
    (hupdate : updateRegion.Proper) :
    (cl.putRegions s copies updateCopyRegion updateRegion).Proper s := by
  have hmodified : ((((cl.modifiedRegion.or cl.copyRegion).subtract updateRegion).1).subtract
      updateCopyRegion).1.OnScreen s.width s.height :=
    ((h.modified.or h.copy).subtract hupdate).subtract hcopy
  unfold ClientRec.putRegions redrawCursor
  dsimp only
  split_ifs <;> exact ⟨hmodified, Rgn.onScreen_create, Rgn.proper_create⟩

theorem Proper.update (h : cl.Proper s) {cursor : Bool} {other : Option ℕ} {cl' : ClientRec α}
    (hu : cl.update s cursor other = some cl') : cl'.Proper s := by
  cases updates_of_update hu with
  | notDue _ => exact h
  | newFBSize _ => exact ⟨h.modified, h.copy, h.requested⟩
  | nothing _ _ => exact h.dropModified
  | regions _ _ =>
    exact h.dropModified.putRegions _ h.dropModified.updateCopyRegion.proper
      h.dropModified.updateRegion.proper

end ClientRec

/-! ### Runs -/

namespace Server

/-- Whoever names a rectangle names one with pixels; what is drawn or moved is on the screen,
and neither the screen nor the cursor is empty. -/
def Op.Proper (t : Server α) : Op α → Prop
  | .markRegion r _ | .doCopyRegion r _ _ | .scheduleCopyRegion r _ _ =>
    r.OnScreen t.screen.width t.screen.height
  | .setCursor c => 0 < c.width ∧ 0 < c.height
  | .newFramebuffer width height _ => 0 < width ∧ 0 < height
  | .request _ _ x y w h => ClientRec.RequestProper t.screen x y w h
  | _ => True

/-- Everything that is pending has pixels and is on the screen. -/
structure Proper (t : Server α) : Prop where
  screen : t.screen.Proper
  clients : ∀ cl ∈ t.clients, cl.Proper t.screen

theorem proper_newClient {s : ScreenInfo α} (hs : s.Proper) (picture : ℤ × ℤ → α) :
    (newClient s picture).Proper s where
  modified := Rgn.onScreen_whole hs.width hs.height
  copy := Rgn.onScreen_create
  requested := Rgn.proper_create

theorem Proper.map {t : Server α} (h : t.Proper) {s : ScreenInfo α}
    {f : ClientRec α → ClientRec α} (hs : s.Proper)
    (hf : ∀ cl, cl.Proper t.screen → (f cl).Proper s) : Proper ⟨s, t.clients.map f⟩ where
  screen := hs
  clients := List.forall_mem_map.mpr fun cl hcl => hf cl (h.clients cl hcl)

theorem Proper.modify {t : Server α} (h : t.Proper) (i : ℕ) {f : ClientRec α → ClientRec α}
    (hf : ∀ cl, cl.Proper t.screen → (f cl).Proper t.screen) :
    Proper { t with clients := t.clients.modify i f } :=
  ⟨h.screen, forall_mem_modify i h.clients fun cl _ => hf cl⟩

theorem Proper.step {t u : Server α} (h : t.Proper) (hin : t.InStep) {op : Op α}
    (hop : op.Proper t) (hu : t.step op = some u) : u.Proper := by
  have hw := hin.width
  have hh := hin.height
  cases op with
  | newClient picture =>
    obtain rfl := Option.some.inj hu
    exact ⟨h.screen, List.forall_mem_cons.mpr ⟨proper_newClient h.screen picture, h.clients⟩⟩
  | clientGone i =>
    obtain rfl := Option.some.inj hu
    exact ⟨h.screen, fun cl hcl => h.clients cl (List.mem_of_mem_eraseIdx hcl)⟩
  | markRegion r pixel =>
    obtain rfl := Option.some.inj hu
    exact h.map (h.screen.frameBuffer _) fun cl hcl =>
      (hcl.markRegionAsModified hop).resized rfl rfl
  | doCopyRegion r dx dy | scheduleCopyRegion r dx dy =>
    obtain rfl := Option.some.inj hu
    exact h.map (h.screen.frameBuffer _) fun cl hcl =>
      (hcl.scheduleCopyRegion h.screen hop dx dy).resized rfl rfl
  | setCursor c =>
    obtain rfl := Option.some.inj hu
    have hs : ScreenInfo.Proper { t.screen with cursor := c } :=
      ⟨h.screen.width, h.screen.height, hop.1, hop.2⟩
    exact h.map hs fun cl hcl => (hcl.setCursor h.screen hs).resized rfl rfl
  | moveCursor x y =>
    obtain rfl := Option.some.inj hu
    exact ⟨⟨h.screen.width, h.screen.height, h.screen.cursorWidth, h.screen.cursorHeight⟩,
      fun cl hcl => (h.clients cl hcl).resized rfl rfl⟩
  | newFramebuffer width height frameBuffer =>
    obtain rfl := Option.some.inj hu
    exact h.map ⟨hop.1, hop.2, h.screen.cursorWidth, h.screen.cursorHeight⟩ fun cl hcl =>
      ⟨Rgn.onScreen_whole hop.1 hop.2, Rgn.onScreen_create, hcl.requested⟩
  | setEncodings i encodings =>
    obtain rfl := Option.some.inj hu
    exact h.modify i fun cl hcl => hcl.setEncodings h.screen encodings
  | request i incremental x y w ht =>
    obtain rfl := Option.some.inj hu
    exact h.modify i fun cl hcl => hcl.requestUpdate hw hh incremental hop
  | update i cursor other =>
    obtain ⟨-, rfl⟩ | ⟨cl, cl', hcl, hcl', rfl⟩ := step_update hu
    · exact h
    · exact ⟨h.screen, forall_mem_set i h.clients
        ((h.clients cl (List.mem_of_getElem? hcl)).update hcl')⟩

theorem proper_of_run {s : ScreenInfo α} (hs : s.Proper) (hw : s.width < 2 ^ 16)
    (hh : s.height < 2 ^ 16) {l : List (Op α)}
    (hl : Along step (fun t op => op.Valid t ∧ op.Proper t) ⟨s, []⟩ l) {t : Server α}
    (ht : run step ⟨s, []⟩ l = some t) : t.InStep ∧ t.Proper :=
  run_of_along (J := fun t => t.InStep ∧ t.Proper)
    (fun _ _ _ h hop hu => ⟨h.1.step hop.1 hu, h.2.step h.1 hop.2 hu⟩)
    ⟨inStep_start hw hh, hs, fun _ hcl => (List.not_mem_nil hcl).elim⟩ hl ht

end Server

/-! ### Over the wire -/

section Wire

variable {n : ℕ}

/-- The encoding of rectangles, if it is one that is followed. -/
def ClientRec.pixelEncoding (cl : ClientRec α) : Option PixelEncoding :=
  match cl.preferredEncoding.getD .raw with
  | .raw => some .raw
  | .rre => some .rre
  | .coRRE => some .coRRE
  | .hextile => some .hextile
  | _ => none

def ClientRec.updateBytes (afterEncBufSize : ℕ) (pad : UInt8) (s : ScreenInfo (Pixel n))
    (cl : ClientRec (Pixel n)) : Option (List UInt8) := do
  let e ← cl.pixelEncoding
  let u ← cl.sent s false none
  sendUpdate e afterEncBufSize pad u.pixel u.copies u.rects

def ClientRec.Sent.count (u : ClientRec.Sent α) (e : PixelEncoding) : ℕ :=
  u.copies.length + countUpdateRects e u.rects

theorem OnScreen.of_sides {w h : ℕ} {r : SraRect} (hx : 0 ≤ r.x1 ∧ r.x1 < r.x2 ∧ r.x2 ≤ w)
    (hy : 0 ≤ r.y1 ∧ r.y1 < r.y2 ∧ r.y2 ≤ h) (hrow : w * n ≤ updateBufSize) :
    OnScreen n w h r.xywh := by
  unfold SraRect.xywh
  refine ⟨by dsimp only; omega, by dsimp only; omega, by dsimp only; omega, by dsimp only; omega,
    (Nat.mul_le_mul_right n ?_).trans hrow⟩
  dsimp only
  omega

theorem CopyRect.onScreen_of_mem {w h : ℕ} {r : Rgn} (hr : r.OnScreen w h) (hw : w < 2 ^ 16)
    (hh : h < 2 ^ 16) {dx dy : ℤ} (hsrc : ∀ p ∈ r, Grid.Inside w h (copySource dx dy p))
    {c : CopyRect} (hc : c ∈ copyRects r.list dx dy) : c.OnScreen w h := by
  obtain ⟨t, ht, rfl⟩ := List.mem_map.mp hc
  obtain ⟨hx, hy⟩ := hr.sides ht
  have hfirst : t.Has (t.x1, t.y1) := ⟨⟨le_rfl, hx.2.1⟩, le_rfl, hy.2.1⟩
  have hfrom := hsrc _ ((exists_mem_rgnRects r.good).mp ⟨t, ht, hfirst⟩)
  unfold Grid.Inside copySource at hfrom
  dsimp only at hfrom
  have hu (z : ℤ) (hz : 0 ≤ z) (hz' : z < 2 ^ 16) : u16 z = z := Int.emod_eq_of_lt hz hz'
  rw [hu _ hx.1 (by omega), hu _ hy.1 (by omega), hu _ (by omega) (by omega),
    hu _ (by omega) (by omega), hu _ hfrom.1.1 (by omega), hu _ hfrom.2.1 (by omega)]
  exact ⟨by dsimp only; omega, by dsimp only; omega, by dsimp only; omega, by dsimp only; omega,
    ⟨hfrom.1.1, by dsimp only; omega⟩, hfrom.2.1, by dsimp only; omega⟩

/-- The viewer that reads the bytes of an update has the picture that is meant for it. -/
theorem ClientRec.Sent.Good.reads (hn : 0 < n) {s : ScreenInfo (Pixel n)}
    {cl : ClientRec (Pixel n)} {u : ClientRec.Sent (Pixel n)} (hu : u.Good s cl)
    (hin : cl.InStep s) (hw : s.width < 2 ^ 16) (hh : s.height < 2 ^ 16) {e : PixelEncoding}
    (hrow : s.width * n ≤ updateBufSize) (hroom : 4 + 16 * u.copies.length ≤ updateBufSize)
    (hcount : u.count e < 0xFFFF) (bufSize : ℕ) (pad : UInt8) (bg fg : Pixel n)
    (picture : ℤ × ℤ → Pixel n) :
    ∃ bytes, sendUpdate e bufSize pad u.pixel u.copies u.rects = some bytes ∧
      Reads (handleFramebufferUpdate bg fg ⟨s.width, s.height, picture⟩) bytes
        ⟨s.width, s.height, u.onto picture⟩ := by
  obtain ⟨r, hr, hsub, hcopies⟩ := hu.copies
  refine reads_sendUpdate hn (by omega) (by omega) e bufSize pad u.pixel (fun c hc => ?_)
    (fun r hr => ?_) hroom hcount bg fg picture
  · rw [hcopies] at hc
    exact CopyRect.onScreen_of_mem hr hw hh (fun p hp => (hin.inside p (hsub p hp)).2) hc
  · obtain ⟨hx, hy⟩ := hu.rects r hr
    exact OnScreen.of_sides hx hy hrow

/-- Every rectangle and every CopyRect of an update that is due has pixels, and is on the
screen. -/
def Server.Drawable (t : Server α) : Prop :=
  ∀ cl ∈ t.clients, ∀ cursor other u, cl.sent t.screen cursor other = some u →
    (∀ r ∈ u.rects, (0 ≤ r.x1 ∧ r.x1 < r.x2 ∧ r.x2 ≤ t.screen.width) ∧
      0 ≤ r.y1 ∧ r.y1 < r.y2 ∧ r.y2 ≤ t.screen.height) ∧
    ∀ c ∈ u.copies, c.OnScreen t.screen.width t.screen.height

theorem Server.Proper.drawable {t : Server α} (h : t.Proper) (hin : t.InStep) : t.Drawable := by
  intro cl hcl cursor other u hu
  have hgood := (h.clients cl hcl).sent h.screen hin.width hin.height hu
  refine ⟨hgood.rects, fun c hc => ?_⟩
  obtain ⟨r, hr, hsub, hcopies⟩ := hgood.copies
  rw [hcopies] at hc
  exact CopyRect.onScreen_of_mem hr hin.width hin.height
    (fun p hp => ((hin.clients cl hcl).inside p (hsub p hp)).2) hc

/-- Whatever happens, no update has an empty rectangle in it, which would be divided by. -/
theorem Server.always_drawable {s : ScreenInfo α} (hs : s.Proper) (hw : s.width < 2 ^ 16)
    (hh : s.height < 2 ^ 16) {l : List (Op α)}
    (hl : Along step (fun t op => op.Valid t ∧ op.Proper t) ⟨s, []⟩ l) :
    Always step Drawable ⟨s, []⟩ l :=
  always_of_along (J := fun t => t.InStep ∧ t.Proper) (V := fun _ => True)
    (fun _ h => h.2.drawable h.1)
    (fun _ _ _ _ h hop hu => ⟨h.1.step hop.1 hu, h.2.step h.1 hop.2 hu⟩)
    (fun _ _ => trivial) ⟨inStep_start hw hh, hs, fun _ hcl => (List.not_mem_nil hcl).elim⟩ hl

section NewClient

open ClientRec

/-- A new client that asks for a part of the screen. All of it is modified anyway, so that it
does not matter whether the request is incremental. -/
theorem ClientRec.requestUpdate_newClient (s : ScreenInfo α) (picture : ℤ × ℤ → α)
    (incremental : Bool) {x y w h : UInt16} {a b : ℕ}
    (hw : clipRequest x.toNat w.toNat s.width = some a)
    (hh : clipRequest y.toNat h.toNat s.height = some b)
    (hx : x.toNat < s.width ∧ x.toNat + a ≤ s.width ∧ 0 < x.toNat + a)
    (hy : y.toNat < s.height ∧ y.toNat + b ≤ s.height ∧ 0 < y.toNat + b) :
    (newClient s picture).requestUpdate s incremental x y w h = { newClient s picture with
      requestedRegion := .createRect x.toNat y.toNat (x.toNat + a) (y.toNat + b)
        (by omega) (by omega) } := by
  have hor : (newClient s picture).modifiedRegion.or
      (.createRect x.toNat y.toNat (x.toNat + a) (y.toNat + b) (by omega) (by omega)) =
      (newClient s picture).modifiedRegion :=
    Rgn.ext (rgnOr_createRect (by omega) (by omega) (by omega) (by omega))
  have hcopy : (newClient s picture).copyRegion = .create := rfl
  have hrequested : (newClient s picture).requestedRegion = .create := rfl
  unfold requestUpdate requestRegion
  rw [hw, hh]
  dsimp only
  rw [hrequested, Rgn.create_or, hor, hcopy, Rgn.create_subtract]
  split_ifs <;> rfl

/-- What a client is sent that asks for a part of the screen as soon as it is there. -/
theorem ClientRec.sent_newClient (s : ScreenInfo α) (picture : ℤ × ℤ → α) (incremental : Bool)
    {x y w h : UInt16} {a b : ℕ} (hw : clipRequest x.toNat w.toNat s.width = some a)
    (hh : clipRequest y.toNat h.toNat s.height = some b)
    (hx : x.toNat < s.width ∧ x.toNat + a ≤ s.width ∧ 0 < x.toNat + a)
    (hy : y.toNat < s.height ∧ y.toNat + b ≤ s.height ∧ 0 < y.toNat + b) :
    ((newClient s picture).requestUpdate s incremental x y w h).sent s false none =
      some ⟨[], [⟨x.toNat, y.toNat, x.toNat + a, y.toNat + b⟩], (newClient s picture).shown s⟩ := by
  rw [requestUpdate_newClient s picture incremental hw hh hx hy]
  set r : Rgn := .createRect x.toNat y.toNat (x.toNat + a) (y.toNat + b) (by omega) (by omega)
    with hr
  set cl : ClientRec α := { newClient s picture with requestedRegion := r } with hcl
  have hand : cl.modifiedRegion.and r = (r, true) := by
    have hrect : rgnAnd (rgnCreateRect 0 0 s.width s.height) r.list = (r.list, true) := by
      refine (rgnAnd_createRect (by omega) (by omega)).trans ?_
      rw [max_eq_right (by omega), max_eq_right (by omega), min_eq_right (by omega),
        min_eq_right (by omega)]
      rfl
    refine Prod.ext (Rgn.ext (congrArg Prod.fst hrect)) ?_
    exact congrArg (fun t : SraRegion × Bool => t.2) hrect
  have hrects : rgnRects r.list false false =
      [⟨x.toNat, y.toNat, x.toNat + a, y.toNat + b⟩] := by
    rw [rgnRects_eq (by simp [hr, Rgn.createRect, rgnCreateRect])]
    rfl
  have hlimit : cl.limitRects s r = r := if_neg (by have hone : r.countRects = 1 := rfl; omega)
  have hredraw : cl.redrawCursor s r = (cl, r) := if_pos (.inr ⟨rfl, rfl⟩)
  have hsent : cl.sentRegions s .create r =
      ⟨[], [⟨x.toNat, y.toNat, x.toNat + a, y.toNat + b⟩], (newClient s picture).shown s⟩ := by
    unfold sentRegions
    rw [hredraw]
    dsimp only
    rw [hlimit, hrects, show Rgn.create.list = [] from rfl, copyRects, rgnRects_eq (by simp)]
    cases decide (0 < cl.copyDY) <;> rfl
  have hdrop : cl.dropModified = cl := by
    have hcopy : (cl.copyRegion.subtract cl.modifiedRegion).1 = cl.copyRegion :=
      Rgn.create_subtract
    unfold dropModified
    rw [hcopy]
  have hupdate : cl.updateRegion cl.modifiedRegion = (r, true) :=
    (congrArg (fun m : Rgn => m.and r) (Rgn.or_create (r := cl.modifiedRegion))).trans hand
  have hcopies : cl.updateCopyRegion = .create :=
    hdrop ▸ cl.updateCopyRegion_of_create rfl
  have hsend : cl.sentUpdate s none cl.modifiedRegion = some (cl.sentRegions s .create r) := by
    unfold sentUpdate
    rw [if_neg (by exact Bool.false_ne_true)]
    dsimp only
    rw [hdrop]
    unfold nothingToSend
    rw [hupdate, hcopies, Rgn.subtract_create]
    exact if_neg Bool.false_ne_true
  have hdue : cl.due s false = true := by
    have hpending : cl.modifiedRegion.isEmpty = false := rfl
    have hrequested : cl.requestedRegion.isEmpty = false := rfl
    unfold due
    rw [hpending, hrequested]
    simp only [Bool.not_false, Bool.or_true, Bool.and_true]
  unfold sent
  rw [if_pos hdue, hsend, hsent]

/-- A screen of 8 by 8 pixels of one byte. -/
def smallPixels : ScreenInfo (Pixel 1) where
  width := 8
  height := 8
  frameBuffer _ := zeroPixel 1
  cursor := ⟨0, 0, 1, 1, fun _ pix => pix⟩
  cursorX := 3
  cursorY := 3
  maxRectsPerUpdate := 50
  dontConvertRichCursorToXCursor := false

def smallRun : List (Server.Op (Pixel 1)) :=
  [.newClient fun _ => ⟨[7], rfl⟩, .request 0 true 0 0 8 8]

theorem along_smallRun : Along Server.step (fun t op => op.Valid t ∧ op.Proper t)
    ⟨smallPixels, []⟩ smallRun :=
  ⟨⟨trivial, trivial⟩, fun t ht => by
    obtain rfl := Option.some.inj ht
    exact ⟨⟨trivial, ⟨by decide, by decide⟩, by decide, by decide⟩, fun _ _ => trivial⟩⟩

theorem proper_smallPixels : smallPixels.Proper := ⟨by decide, by decide, by decide, by decide⟩

theorem Server.always_drawable_small : Always Server.step Server.Drawable ⟨smallPixels, []⟩
    smallRun :=
  always_drawable proper_smallPixels (by decide) (by decide) along_smallRun

end NewClient

end Wire

end DroidVnc.Rfb
