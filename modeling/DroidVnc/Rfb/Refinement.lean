import DroidVnc.Rfb.Pictures
import DroidVnc.Screen.Daemon

/-! The daemon's view of a client, a set of pixels that are pending, against the span lists
of the library: over any run, what the one does is what the other does. The daemon makes no
copies, and its cursor, the default one, stays at the origin. -/

namespace DroidVnc.Rfb

open Transition

variable {α : Type} {s : ScreenInfo α} {cl : ClientRec α} {c : Client α}

/-- The pixels of a region, one by one. -/
def Rgn.region (r : Rgn) : Region :=
  (rgnRects r.list false false).foldr (fun t acc => Region.rect t.x1 t.y1 t.x2 t.y2 ∪ acc) ∅

theorem mem_foldr_rect {l : List SraRect} {p : ℤ × ℤ} :
    p ∈ l.foldr (fun t acc => Region.rect t.x1 t.y1 t.x2 t.y2 ∪ acc) ∅ ↔ ∃ t ∈ l, t.Has p := by
  induction l with
  | nil => simp
  | cons t l ih =>
    rw [List.foldr_cons, Finset.mem_union, ih, List.exists_mem_cons_iff, Region.mem_rect]
    rfl

@[simp] theorem Rgn.mem_region {r : Rgn} {p : ℤ × ℤ} : p ∈ r.region ↔ p ∈ r :=
  mem_foldr_rect.trans (exists_mem_rgnRects r.good)

/-- `c` is the daemon's view of `cl`. What a pending pixel shows is left open, and what is left
of a cursor that the viewer no longer draws itself. -/
structure Models (s : ScreenInfo α) (cl : ClientRec α) (c : Client α) : Prop where
  modified : ∀ p, p ∈ c.modifiedRegion ↔ p ∈ cl.modifiedRegion
  noCopy : cl.copyRegion = .create
  use : c.useNewFBSize = cl.useNewFBSize
  pending : c.newFBSizePending = cl.newFBSizePending
  shapes : c.enableCursorShapeUpdates = cl.enableCursorShapeUpdates
  picture : ∀ p, Grid.Inside s.width s.height p → p ∉ cl.modifiedRegion →
    (cl.cursorDropped = true → ¬cl.Drawn s p) → c.picture p = cl.picture p

theorem Models.mark (h : Models s cl c) (r : Rgn) (frameBuffer : ℤ × ℤ → α) :
    Models { s with frameBuffer } (cl.markRegionAsModified r) (c.mark r.region) where
  modified p := by
    show p ∈ c.modifiedRegion ∪ r.region ↔ p ∈ cl.modifiedRegion.or r
    rw [Finset.mem_union, Rgn.mem_or, h.modified, Rgn.mem_region]
  noCopy := h.noCopy
  use := h.use
  pending := h.pending
  shapes := h.shapes
  picture p hp hM hd := h.picture p hp (fun hM' => hM (Rgn.mem_or.mpr (.inl hM'))) hd

/-! ### Updates -/

/-- What an update leaves where nothing is copied, the size stays and the cursor too. -/
structure Updated (s : ScreenInfo α) (cl cl' : ClientRec α) : Prop where
  modified : ∀ p, p ∈ cl'.modifiedRegion ↔ p ∈ cl.modifiedRegion ∧ p ∉ cl.requestedRegion
  noCopy : cl'.copyRegion = .create
  use : cl'.useNewFBSize = cl.useNewFBSize
  pending : cl'.newFBSizePending = cl.newFBSizePending
  cursor : cl'.cursorX = cl.cursorX ∧ cl'.cursorY = cl.cursorY
  shapes : cl'.enableCursorShapeUpdates = cl.enableCursorShapeUpdates
  dropped : cl'.cursorDropped = cl.cursorDropped

theorem Updated.shown {cl' : ClientRec α} (h : Updated s cl cl') : cl'.shown s = cl.shown s := by
  unfold ClientRec.shown
  rw [h.shapes, h.cursor.1, h.cursor.2]

theorem Updated.drawn {cl' : ClientRec α} (h : Updated s cl cl') {p : ℤ × ℤ} :
    cl'.Drawn s p ↔ cl.Drawn s p := by
  unfold ClientRec.Drawn
  rw [h.shapes, h.cursor.1, h.cursor.2]

theorem updated_putRegions (cl : ClientRec α)
    (hcursor : cl.cursorX = s.cursorX ∧ cl.cursorY = s.cursorY)
    (hC : cl.copyRegion = .create) {updateRegion : Rgn}
    (hU : ∀ p ∈ cl.modifiedRegion, p ∈ updateRegion ↔ p ∈ cl.requestedRegion)
    (copies : List CopyRect) : Updated s cl (cl.putRegions s copies .create updateRegion) := by
  have hstay (cl₁ : ClientRec α) (h : cl₁.cursorX = s.cursorX ∧ cl₁.cursorY = s.cursorY) :
      cl₁.redrawCursor s updateRegion = (cl₁, updateRegion) := if_pos (.inr h)
  unfold ClientRec.putRegions
  dsimp only
  rw [hstay]
  swap
  · exact hcursor
  refine ⟨fun p => ?_, rfl, rfl, rfl, ⟨rfl, rfl⟩, rfl, rfl⟩
  show p ∈ ((((cl.modifiedRegion.or cl.copyRegion).subtract updateRegion).1).subtract
    .create).1 ↔ _
  rw [hC, Rgn.or_create, Rgn.subtract_create, Rgn.mem_subtract]
  exact and_congr_right fun hM => not_congr (hU p hM)

theorem updated_of_update (hC : cl.copyRegion = .create)
    (hcursor : cl.cursorX = s.cursorX ∧ cl.cursorY = s.cursorY)
    (hpending : cl.newFBSizePending = false) {cursor : Bool} {other : Option ℕ}
    {cl' : ClientRec α} (hu : cl.update s cursor other = some cl') : Updated s cl cl' := by
  have hdrop : cl.dropModified.copyRegion = .create := by
    unfold ClientRec.dropModified
    rw [hC, Rgn.create_subtract]
  have hregion (p : ℤ × ℤ) (hM : p ∈ cl.modifiedRegion) :
      p ∈ (cl.dropModified.updateRegion cl.modifiedRegion).1 ↔ p ∈ cl.requestedRegion := by
    unfold ClientRec.updateRegion
    rw [hdrop, Rgn.or_create, Rgn.mem_and]
    exact and_iff_right hM
  cases ClientRec.updates_of_update hu with
  | notDue hdue =>
    refine ⟨fun p => ⟨fun hM => ⟨hM, fun hp => ?_⟩, And.left⟩, hC, rfl, rfl, ⟨rfl, rfl⟩, rfl, rfl⟩
    have hreq : cl.requestedRegion.isEmpty = false := by
      by_contra hempty
      exact Rgn.notMem_of_isEmpty (Bool.not_eq_false _ ▸ hempty) hp
    simp only [ClientRec.due, hreq, Bool.not_false, Bool.and_true, Bool.or_eq_false_iff,
      Bool.not_eq_false'] at hdue
    exact Rgn.notMem_of_isEmpty hdue.2 hM
  | newFBSize hsize =>
    rw [hpending, Bool.and_false] at hsize
    cases hsize
  | nothing _ hnothing =>
    refine ⟨fun p => ⟨fun hM => ⟨hM, fun hp => ?_⟩, And.left⟩, hdrop, rfl, rfl, ⟨rfl, rfl⟩, rfl,
      rfl⟩
    simp only [ClientRec.nothingToSend, Bool.and_eq_true] at hnothing
    exact Rgn.notMem_of_isEmpty hnothing.1.1.2 ((hregion p hM).mpr hp)
  | regions _ _ =>
    rw [cl.updateCopyRegion_of_create hC, Rgn.subtract_create]
    have hput := updated_putRegions cl.dropModified hcursor hdrop hregion
      (copyRects Rgn.create.list cl.copyDX cl.copyDY)
    exact ⟨hput.modified, hput.noCopy, hput.use, hput.pending, hput.cursor, hput.shapes,
      hput.dropped⟩

/-- An update takes the requested part of what is pending, and the viewer is left with the
same pixels wherever nothing is pending any more. -/
theorem Models.update (h : Models s cl c) (hin : cl.InStep s) (hsized : cl.Sized s)
    (hw : s.width < 2 ^ 16) (hh : s.height < 2 ^ 16)
    (hcursor : cl.cursorX = s.cursorX ∧ cl.cursorY = s.cursorY)
    (horigin : s.cursorX = 0 ∧ s.cursorY = 0) (hpending : cl.newFBSizePending = false)
    {t : Screen} (ht : t.width = s.width ∧ t.height = s.height) {cursor : Bool}
    {other : Option ℕ} {cl' : ClientRec α} (hu : cl.update s cursor other = some cl') :
    Models s cl' (c.serve t s.cursor cl.requestedRegion.region s.frameBuffer) := by
  have hup := updated_of_update h.noCopy hcursor hpending hu
  have hin' := hin.update hsized hw hh hu
  have hpainted : c.painted t s.cursor s.frameBuffer = cl.shown s := by
    unfold Client.painted ClientRec.shown
    rw [h.shapes, ht.1, ht.2, hcursor.1, hcursor.2, horigin.1, horigin.2]
  unfold Client.serve Client.send
  rw [hpainted, if_neg fun hsize => Bool.false_ne_true ((hpending.symm.trans h.pending.symm).trans
    hsize.2)]
  refine ⟨fun p => ?_, hup.noCopy, h.use.trans hup.use.symm, h.pending.trans hup.pending.symm,
    h.shapes.trans hup.shapes.symm, fun p hp hM hd => ?_⟩
  · rw [hup.modified, Finset.mem_sdiff, Finset.mem_inter, h.modified, Rgn.mem_region, not_and]
    exact and_congr_right fun hM => forall_prop_of_true hM
  · rw [hin'.shown p hp hM (hup.noCopy ▸ Rgn.notMem_create) hd, hup.shown]
    dsimp only
    split_ifs with hsent
    · rfl
    · have hM' : p ∉ cl.modifiedRegion := fun hM' => hM ((hup.modified p).mpr ⟨hM', fun hreq =>
        hsent (Finset.mem_inter.mpr ⟨(h.modified p).mpr hM', Rgn.mem_region.mpr hreq⟩)⟩)
      rw [hup.dropped, hup.drawn] at hd
      rw [h.picture p hp hM' hd, hin.shown p hp hM' (h.noCopy ▸ Rgn.notMem_create) hd]

/-! ### Encodings and requests -/

/-- The encoding is one for cursor shapes, and the server goes by it. -/
def ScreenInfo.takesShapes (s : ScreenInfo α) : ClientEncoding → Bool
  | .xCursor => !s.dontConvertRichCursorToXCursor
  | .richCursor => true
  | _ => false

/-- What encodings do to a client, `b` saying that there is one for cursor shapes. -/
structure Shaped (s : ScreenInfo α) (b : Bool) (cl cl' : ClientRec α) : Prop where
  modified : ∀ p, p ∈ cl'.modifiedRegion ↔ p ∈ cl.modifiedRegion ∨
    (b = true ∧ cl.enableCursorShapeUpdates = false) ∧ p ∈ s.redrawRegion cl.cursorX cl.cursorY
  shapes : cl'.enableCursorShapeUpdates = (cl.enableCursorShapeUpdates || b)
  dropped : cl'.cursorDropped = (cl.cursorDropped && !b)
  cursor : cl'.cursorX = cl.cursorX ∧ cl'.cursorY = cl.cursorY

theorem shaped_self {cl' : ClientRec α} (hM : cl'.modifiedRegion = cl.modifiedRegion)
    (hshapes : cl'.enableCursorShapeUpdates = cl.enableCursorShapeUpdates)
    (hdropped : cl'.cursorDropped = cl.cursorDropped)
    (hcursor : cl'.cursorX = cl.cursorX ∧ cl'.cursorY = cl.cursorY) : Shaped s false cl cl' where
  modified p := by simp [hM]
  shapes := by rw [hshapes, Bool.or_false]
  dropped := by rw [hdropped, Bool.not_false, Bool.and_true]
  cursor := hcursor

theorem shaped_enableCursor (s : ScreenInfo α) (cl : ClientRec α) :
    Shaped s true cl (cl.enableCursor s) := by
  unfold ClientRec.enableCursor
  dsimp only
  split_ifs with henable
  · exact ⟨fun p => by simp [henable], (Bool.or_true _).symm, (Bool.and_false _).symm, rfl, rfl⟩
  · exact ⟨fun p => by simp [Bool.eq_false_iff.mpr henable, ClientRec.markRegionAsModified],
      (Bool.or_true _).symm, (Bool.and_false _).symm, rfl, rfl⟩

theorem shaped_setEncoding (s : ScreenInfo α) (cl : ClientRec α) (e : ClientEncoding) :
    Shaped s (s.takesShapes e) cl (cl.setEncoding s e) := by
  cases e with
  | encoding e => exact shaped_self rfl rfl rfl ⟨rfl, rfl⟩
  | copyRect => exact shaped_self rfl rfl rfl ⟨rfl, rfl⟩
  | newFBSize => exact shaped_self rfl rfl rfl ⟨rfl, rfl⟩
  | other => exact shaped_self rfl rfl rfl ⟨rfl, rfl⟩
  | richCursor => exact shaped_enableCursor s cl
  | xCursor =>
    unfold ClientRec.setEncoding ScreenInfo.takesShapes
    cases s.dontConvertRichCursorToXCursor with
    | true => exact shaped_self rfl rfl rfl ⟨rfl, rfl⟩
    | false => exact shaped_enableCursor s cl

theorem Shaped.trans {b b' : Bool} {cl₁ cl₂ : ClientRec α} (h : Shaped s b cl cl₁)
    (h' : Shaped s b' cl₁ cl₂) : Shaped s (b || b') cl cl₂ where
  modified p := by
    rw [h'.modified, h.modified, h.shapes, h.cursor.1, h.cursor.2]
    cases b <;> cases cl.enableCursorShapeUpdates <;> simp
  shapes := by rw [h'.shapes, h.shapes, Bool.or_assoc]
  dropped := by rw [h'.dropped, h.dropped, Bool.not_or, Bool.and_assoc]
  cursor := ⟨h'.cursor.1.trans h.cursor.1, h'.cursor.2.trans h.cursor.2⟩

theorem shaped_foldl (s : ScreenInfo α) (encodings : List ClientEncoding) (cl : ClientRec α) :
    Shaped s (encodings.any s.takesShapes) cl (encodings.foldl (ClientRec.setEncoding s) cl) := by
  induction encodings generalizing cl with
  | nil => exact shaped_self rfl rfl rfl ⟨rfl, rfl⟩
  | cons e l ih => exact (shaped_setEncoding s cl e).trans (ih _)

/-- The default cursor at the origin is redrawn where the daemon marks it. -/
theorem mem_redrawRegion_origin [Zero α] {background : α} (hcursor : s.cursor = myCursor background)
    (hw : 0 < s.width) (hh : 0 < s.height) {t : Screen}
    (ht : t.width = s.width ∧ t.height = s.height) {p : ℤ × ℤ} :
    p ∈ s.redrawRegion 0 0 ↔ p ∈ cursorRegion t := by
  have haxis (a b n z : ℤ) (ha : a ≤ 0) (hb : 0 < b) (hn : 0 < n) :
      (clipAxis2 a b 0 n).1 < (clipAxis2 a b 0 n).2 ∧
        ((clipAxis2 a b 0 n).1 ≤ z ∧ z < (clipAxis2 a b 0 n).2 ↔
          (a ≤ z ∧ z < b) ∧ 0 ≤ z ∧ z < n) := by
    unfold clipAxis2
    dsimp only
    split_ifs <;> omega
  have hxhot : s.cursor.xhot = 3 := by rw [hcursor]; rfl
  have hyhot : s.cursor.yhot = 3 := by rw [hcursor]; rfl
  have hwidth : s.cursor.width = 8 := by rw [hcursor]; rfl
  have hheight : s.cursor.height = 7 := by rw [hcursor]; rfl
  obtain ⟨hx, hx'⟩ := haxis (0 - s.cursor.xhot) (0 - s.cursor.xhot + s.cursor.width) s.width p.1
    (by omega) (by omega) (by omega)
  obtain ⟨hy, hy'⟩ := haxis (0 - s.cursor.yhot) (0 - s.cursor.yhot + s.cursor.height) s.height p.2
    (by omega) (by omega) (by omega)
  unfold cursorRegion ScreenInfo.redrawRegion
  dsimp only
  rw [mem_markedRegion (by omega) (by omega), ht.1, ht.2, dif_pos ⟨hx, hy⟩, Rgn.mem_createRect,
    hx', hy', hxhot, hyhot, hwidth, hheight, Grid.Inside]
  omega

theorem Models.setEncodings [Zero α] (h : Models s cl c) {background : α}
    (hcursor : s.cursor = myCursor background) (hw : 0 < s.width) (hh : 0 < s.height)
    (horigin : cl.cursorX = 0 ∧ cl.cursorY = 0) {t : Screen}
    (ht : t.width = s.width ∧ t.height = s.height) (encodings : List ClientEncoding) :
    Models s (cl.setEncodings s encodings)
      (c.setEncodings t (encodings.contains .newFBSize) (encodings.any s.takesShapes)) := by
  obtain ⟨henc, huse⟩ := ClientRec.encoded_setEncodings s encodings cl
  have hshaped := shaped_foldl s encodings { cl with
    preferredEncoding := none
    useCopyRect := false
    useNewFBSize := false
    cursorDropped := cl.cursorDropped || cl.enableCursorShapeUpdates
    enableCursorShapeUpdates := false }
  have hmodified (p : ℤ × ℤ) : p ∈ (cl.setEncodings s encodings).modifiedRegion ↔
      p ∈ cl.modifiedRegion ∨ encodings.any s.takesShapes = true ∧
        p ∈ s.redrawRegion cl.cursorX cl.cursorY :=
    (hshaped.modified p).trans (by simp)
  have hshapes : (cl.setEncodings s encodings).enableCursorShapeUpdates =
      encodings.any s.takesShapes := hshaped.shapes.trans (Bool.false_or _)
  have hdropped : (cl.setEncodings s encodings).cursorDropped =
      ((cl.cursorDropped || cl.enableCursorShapeUpdates) && !encodings.any s.takesShapes) :=
    hshaped.dropped
  have hsame := henc.same
  generalize cl.setEncodings s encodings = cl' at huse hmodified hshapes hdropped hsame
  generalize encodings.any s.takesShapes = b at hmodified hshapes hdropped
  have hcopy : cl'.copyRegion = .create := by rw [hsame, h.noCopy]
  have hpending : c.newFBSizePending = cl'.newFBSizePending := by rw [hsame, h.pending]
  have hcursorXY : cl'.cursorX = cl.cursorX ∧ cl'.cursorY = cl.cursorY := by rw [hsame]; trivial
  have hpicture (p : ℤ × ℤ) (hp : Grid.Inside s.width s.height p) (hM : p ∉ cl'.modifiedRegion)
      (hd : cl'.cursorDropped = true → ¬cl'.Drawn s p) : c.picture p = cl'.picture p := by
    rw [show cl'.picture = cl.picture by rw [hsame]]
    rw [hmodified, not_or] at hM
    refine h.picture p hp hM.1 fun htrue hdrawn => ?_
    cases b with
    | true => exact hM.2 ⟨rfl, ScreenInfo.mem_redrawRegion hdrawn.2⟩
    | false =>
      refine hd (by rw [hdropped, htrue]; rfl) ⟨hshapes, ?_⟩
      rw [hcursorXY.1, hcursorXY.2]
      exact hdrawn.2
  unfold Client.setEncodings
  cases b with
  | true =>
    refine ⟨fun p => ?_, hcopy, huse.symm, hpending, hshapes.symm, hpicture⟩
    show p ∈ c.modifiedRegion ∪ cursorRegion t ↔ _
    rw [hmodified, Finset.mem_union, h.modified, horigin.1, horigin.2,
      mem_redrawRegion_origin hcursor hw hh ht]
    exact or_congr_right (and_iff_right rfl).symm
  | false =>
    refine ⟨fun p => ?_, hcopy, huse.symm, hpending, hshapes.symm, hpicture⟩
    show p ∈ c.modifiedRegion ↔ _
    rw [hmodified, h.modified]
    exact (or_iff_left fun hfalse => Bool.false_ne_true hfalse.1).symm

/-- What a request that is not incremental adds to what is pending. -/
def requested (s : ScreenInfo α) (incremental : Bool) (x y w h : UInt16) : Region :=
  match ClientRec.requestRegion s x y w h with
  | some r => if incremental then ∅ else r.region
  | none => ∅

theorem Models.requestUpdate (h : Models s cl c) (incremental : Bool) (x y w ht : UInt16) :
    Models s (cl.requestUpdate s incremental x y w ht)
      (c.mark (requested s incremental x y w ht)) := by
  have hnone : Models s cl (c.mark ∅) :=
    ⟨fun p => by rw [← h.modified]; exact iff_of_eq (congrArg (p ∈ ·) (Finset.union_empty _)),
      h.noCopy, h.use, h.pending, h.shapes, h.picture⟩
  unfold ClientRec.requestUpdate requested
  cases ClientRec.requestRegion s x y w ht with
  | none => exact hnone
  | some r =>
    dsimp only
    split_ifs
    · exact ⟨hnone.modified, h.noCopy, h.use, h.pending, h.shapes, h.picture⟩
    · have hmark := h.mark r s.frameBuffer
      refine ⟨hmark.modified, ?_, h.use, h.pending, h.shapes, hmark.picture⟩
      dsimp only
      rw [h.noCopy, Rgn.create_subtract]

/-! ### Runs -/

/-- What happens to one client of the daemon. -/
inductive Call (α : Type)
  | mark (r : Rgn) (pixel : ℤ × ℤ → α)
  | setEncodings (encodings : List ClientEncoding)
  | request (incremental : Bool) (x y w h : UInt16)
  | update (cursor : Bool) (other : Option ℕ)

/-- What comes before the pixels is within the update buffer. -/
def Call.Fits : Call α → Prop
  | .update _ other => other.getD 4 ≤ updateBufSize
  | _ => True

structure View (α : Type) where
  screen : ScreenInfo α
  client : ClientRec α

namespace View

/-- What the library does. -/
def call (v : View α) : Call α → Option (View α)
  | .mark r pixel =>
    some ⟨{ v.screen with
        frameBuffer := fun p => if p ∈ r then pixel p else v.screen.frameBuffer p },
      v.client.markRegionAsModified r⟩
  | .setEncodings encodings => some { v with client := v.client.setEncodings v.screen encodings }
  | .request incremental x y w h =>
    some { v with client := v.client.requestUpdate v.screen incremental x y w h }
  | .update cursor other =>
    (v.client.update v.screen cursor other).map fun client => { v with client }

/-- What the daemon's view of it does. -/
def daemonCall [Zero α] (t : Screen) (background : α) (v : View α) (c : Client α) :
    Call α → Client α
  | .mark r _ => c.mark r.region
  | .setEncodings encodings =>
    c.setEncodings t (encodings.contains .newFBSize) (encodings.any v.screen.takesShapes)
  | .request incremental x y w h => c.mark (requested v.screen incremental x y w h)
  | .update _ _ =>
    c.serve t (myCursor background) v.client.requestedRegion.region v.screen.frameBuffer

def both [Zero α] (t : Screen) (background : α) (v : View α × Client α) (a : Call α) :
    Option (View α × Client α) :=
  (v.1.call a).map fun w => (w, v.1.daemonCall t background v.2 a)

end View

/-- The screen of the daemon, with its cursor. -/
structure ScreenInfo.AtOrigin [Zero α] (t : Screen) (background : α) (s : ScreenInfo α) : Prop where
  size : t.width = s.width ∧ t.height = s.height
  width : 0 < s.width ∧ s.width < 2 ^ 16
  height : 0 < s.height ∧ s.height < 2 ^ 16
  cursor : s.cursor = myCursor background
  origin : s.cursorX = 0 ∧ s.cursorY = 0

/-- The two sides agree, and the cursor is where it was drawn. -/
structure Refines [Zero α] (t : Screen) (background : α) (v : View α × Client α) : Prop where
  screen : v.1.screen.AtOrigin t background
  models : Models v.1.screen v.1.client v.2
  inStep : v.1.client.InStep v.1.screen
  sized : v.1.client.Sized v.1.screen
  pending : v.1.client.newFBSizePending = false
  origin : v.1.client.cursorX = 0 ∧ v.1.client.cursorY = 0

variable [Zero α] {t : Screen} {background : α}

theorem Refines.both {v : View α × Client α} (h : Refines t background v) {a : Call α}
    (ha : a.Fits) : ∃ w, View.both t background v a = some w ∧ Refines t background w := by
  have hs := h.screen
  cases a with
  | mark r pixel =>
    exact ⟨_, rfl, ⟨hs.size, hs.width, hs.height, hs.cursor, hs.origin⟩, h.models.mark r _,
      h.inStep.mark r fun p hp => if_neg hp, h.sized.markRegionAsModified r ⟨rfl, rfl⟩, h.pending,
      h.origin⟩
  | setEncodings encodings =>
    have hsame := (ClientRec.encoded_setEncodings v.1.screen encodings v.1.client).1.same
    refine ⟨_, rfl, hs, h.models.setEncodings hs.cursor hs.width.1 hs.height.1 h.origin hs.size
      encodings, h.inStep.setEncodings encodings, h.sized.setEncodings fun htrue =>
        absurd (h.pending.symm.trans htrue) Bool.false_ne_true, ?_, ?_⟩
    · show (v.1.client.setEncodings v.1.screen encodings).newFBSizePending = false
      rw [hsame]
      exact h.pending
    · show (v.1.client.setEncodings v.1.screen encodings).cursorX = 0 ∧
        (v.1.client.setEncodings v.1.screen encodings).cursorY = 0
      rw [hsame]
      exact h.origin
  | request incremental x y w ht =>
    have hsame : (v.1.client.requestUpdate v.1.screen incremental x y w ht).newFBSizePending =
          v.1.client.newFBSizePending ∧
        (v.1.client.requestUpdate v.1.screen incremental x y w ht).cursorX = v.1.client.cursorX ∧
        (v.1.client.requestUpdate v.1.screen incremental x y w ht).cursorY =
          v.1.client.cursorY := by
      unfold ClientRec.requestUpdate
      split
      · exact ⟨rfl, rfl, rfl⟩
      · dsimp only
        split_ifs <;> exact ⟨rfl, rfl, rfl⟩
    exact ⟨_, rfl, hs, h.models.requestUpdate incremental x y w ht,
      h.inStep.requestUpdate incremental x y w ht, h.sized.requestUpdate incremental x y w ht,
      hsame.1.trans h.pending, hsame.2.1.trans h.origin.1, hsame.2.2.trans h.origin.2⟩
  | update cursor other =>
    have hroom : other.getD 4 + 16 * v.1.client.dropModified.updateCopyRegion.countRects ≤
        updateBufSize := by
      rw [v.1.client.updateCopyRegion_of_create h.models.noCopy]
      exact ha
    obtain ⟨cl', hu⟩ := ClientRec.exists_update (s := v.1.screen) cursor hroom
    have hcursor : v.1.client.cursorX = v.1.screen.cursorX ∧
        v.1.client.cursorY = v.1.screen.cursorY :=
      ⟨h.origin.1.trans hs.origin.1.symm, h.origin.2.trans hs.origin.2.symm⟩
    have hup := updated_of_update h.models.noCopy hcursor h.pending hu
    have hmodels := h.models.update h.inStep h.sized hs.width.2 hs.height.2 hcursor hs.origin
      h.pending hs.size hu
    rw [hs.cursor] at hmodels
    refine ⟨({ v.1 with client := cl' }, _), ?_, hs, hmodels,
      h.inStep.update h.sized hs.width.2 hs.height.2 hu, h.sized.update hu,
      hup.pending.trans h.pending, hup.cursor.1.trans h.origin.1, hup.cursor.2.trans h.origin.2⟩
    unfold View.both View.call
    dsimp only
    rw [hu]
    rfl

theorem refines_start (hs : s.AtOrigin t background) (picture : ℤ × ℤ → α) :
    Refines t background (⟨s, newClient s picture⟩, Daemon.newClient t picture) where
  screen := hs
  models := by
    refine ⟨fun p => ?_, rfl, rfl, rfl, rfl, fun _ _ _ _ => rfl⟩
    show p ∈ Region.rect 0 0 t.width t.height ↔ p ∈ (newClient s picture).modifiedRegion
    rw [hs.size.1, hs.size.2, Region.mem_rect]
    exact mem_pixels_createRect.symm
  inStep := inStep_newClient s picture
  sized := sized_newClient s picture
  pending := rfl
  origin := hs.origin

theorem Refines.run (hs : s.AtOrigin t background) (picture : ℤ × ℤ → α) {l : List (Call α)}
    (hl : ∀ a ∈ l, a.Fits) :
    ∃ v, Transition.run (View.both t background)
      (⟨s, newClient s picture⟩, Daemon.newClient t picture) l = some v ∧
        Refines t background v :=
  run_defined (fun _ _ ha h => h.both ha) hl (refines_start hs picture)

/-- A screen of 8 by 8 pixels of 32 bits, with the default cursor. -/
def smallOrigin : ScreenInfo (ScreenFormat.Pixel ⟨8, 8, 32⟩) where
  width := 8
  height := 8
  frameBuffer _ := 0
  cursor := myCursor 0xFFFFFF
  cursorX := 0
  cursorY := 0
  maxRectsPerUpdate := 50
  dontConvertRichCursorToXCursor := false

end DroidVnc.Rfb
