import DroidVnc.Lib.Transition
import DroidVnc.Rfb.Update

/-! Runs of the server and its viewers. Whatever is drawn, moved, asked for and sent, in
any order, a viewer's picture is that of the server wherever nothing is pending for it,
and what it is told to copy is right. -/

namespace DroidVnc.Rfb

open Move Transition

variable {α : Type}

/-- A viewer and the server agree about what is pending. -/
structure ClientRec.InStep (s : ScreenInfo α) (cl : ClientRec α) : Prop where
  /-- What is not pending is shown. -/
  shown : ∀ p, Grid.Inside s.width s.height p → p ∉ cl.modifiedRegion → p ∉ cl.copyRegion →
    (cl.cursorDropped = true → ¬cl.Drawn s p) → cl.picture p = cl.shown s p
  /-- What is to be copied is in the viewer's picture, where it is copied from. -/
  copied : ∀ p ∈ cl.copyRegion, p ∉ cl.modifiedRegion →
    cl.picture (copySource cl.copyDX cl.copyDY p) = s.frameBuffer p
  /-- The cursor is not copied over. -/
  spared : ∀ p ∈ cl.copyRegion, p ∉ cl.modifiedRegion → cl.cursorDropped = false →
    ¬cl.Drawn s p
  inside : ∀ p ∈ cl.copyRegion, Grid.Inside s.width s.height p ∧
    Grid.Inside s.width s.height (copySource cl.copyDX cl.copyDY p)

theorem ClientRec.shown_of_not_drawn {s : ScreenInfo α} {cl : ClientRec α} {p : ℤ × ℤ}
    (h : ¬cl.Drawn s p) : cl.shown s p = s.frameBuffer p := by
  unfold ClientRec.shown
  split_ifs with henable
  · rfl
  · exact if_neg fun hc => h ⟨Bool.eq_false_iff.mpr henable, hc⟩

/-! ### The cursor -/

theorem ScreenInfo.mem_redrawRegion {s : ScreenInfo α} {x y : ℤ} {p : ℤ × ℤ}
    (h : s.CursorAt x y p) : p ∈ s.redrawRegion x y := by
  obtain ⟨⟨hx, hy⟩, hxs, hys⟩ := RfbCursor.Covers.bounds h
  have haxis (a b n z : ℤ) (hz : a ≤ z ∧ z < b) (hn : 0 ≤ z ∧ z < n) :
      (clipAxis2 a b 0 n).1 ≤ z ∧ z < (clipAxis2 a b 0 n).2 := by
    unfold clipAxis2
    dsimp only
    split_ifs <;> omega
  have hx := haxis _ _ _ _ hx hxs
  have hy := haxis _ _ _ _ hy hys
  unfold redrawRegion
  dsimp only
  rw [dif_pos ⟨by omega, by omega⟩, Rgn.mem_createRect]
  exact ⟨hx, hy⟩

theorem ScreenInfo.mem_cursorRegion {s : ScreenInfo α} {x y : ℤ} {p : ℤ × ℤ}
    (h : s.CursorAt x y p) : p ∈ s.cursorRegion x y := by
  unfold cursorRegion
  rw [Rgn.mem_createRect]
  exact (RfbCursor.Covers.bounds h).1

namespace ClientRec

variable {s : ScreenInfo α} {cl : ClientRec α}

theorem shown_frameBuffer {frameBuffer : ℤ × ℤ → α} {p : ℤ × ℤ}
    (h : frameBuffer p = s.frameBuffer p) : cl.shown { s with frameBuffer } p = cl.shown s p := by
  unfold shown
  dsimp only
  split_ifs
  · exact h
  · exact RfbCursor.showCursor_congr h

/-! ### Marking -/

theorem InStep.mark (h : cl.InStep s) (r : Rgn) {frameBuffer : ℤ × ℤ → α}
    (hr : ∀ p, p ∉ r → frameBuffer p = s.frameBuffer p) :
    (cl.markRegionAsModified r).InStep { s with frameBuffer } where
  shown p hp hM hC hdropped := by
    have hMr := not_or.mp (mt Rgn.mem_or.mpr hM)
    exact (h.shown p hp hMr.1 hC hdropped).trans (shown_frameBuffer (hr p hMr.2)).symm
  copied p hC hM := by
    have hMr := not_or.mp (mt Rgn.mem_or.mpr hM)
    exact (h.copied p hC hMr.1).trans (hr p hMr.2).symm
  spared p hC hM := h.spared p hC fun hM' => hM (Rgn.mem_or.mpr (.inl hM'))
  inside := h.inside

theorem InStep.markRegionAsModified (h : cl.InStep s) (r : Rgn) :
    (cl.markRegionAsModified r).InStep s :=
  h.mark r fun _ _ => rfl

/-! ### Copies -/

/-- What `mergeCopies` leaves: nothing that was pending is lost, and of what the new copy
reads nothing is left to be copied. -/
structure Merged (copyRegion : Rgn) (dx dy : ℤ) (cl cl' : ClientRec α) : Prop where
  same : cl' = { cl with modifiedRegion := cl'.modifiedRegion, copyRegion := cl'.copyRegion }
  modified : ∀ p ∈ cl.modifiedRegion, p ∈ cl'.modifiedRegion
  copy : ∀ p ∈ cl'.copyRegion, p ∈ cl.copyRegion ∧ cl.copyDX = dx ∧ cl.copyDY = dy
  pending : ∀ p ∈ cl.copyRegion, p ∈ cl'.copyRegion ∨ p ∈ cl'.modifiedRegion
  read : ∀ p ∈ copyRegion, copySource dx dy p ∈ cl.copyRegion →
    copySource dx dy p ∈ cl'.modifiedRegion

theorem merged_mergeCopies (copyRegion : Rgn) (dx dy : ℤ) (cl : ClientRec α) :
    Merged copyRegion dx dy cl (cl.mergeCopies copyRegion dx dy) := by
  unfold mergeCopies
  split_ifs with hempty hd
  · exact ⟨rfl, fun _ h => h, fun p h => absurd h (Rgn.notMem_of_isEmpty hempty),
      fun _ h => .inl h, fun p _ h => absurd h (Rgn.notMem_of_isEmpty hempty)⟩
  · exact ⟨rfl, fun _ h => Rgn.mem_or.mpr (.inl h), fun p h => absurd h Rgn.notMem_create,
      fun _ h => .inr (Rgn.mem_or.mpr (.inr h)), fun _ _ h => Rgn.mem_or.mpr (.inr h)⟩
  · have hd' : cl.copyDX = dx ∧ cl.copyDY = dy := by omega
    refine ⟨rfl, fun _ h => Rgn.mem_or.mpr (.inl h), fun p h => ⟨h, hd'⟩, fun _ h => .inl h,
      fun p hp h => Rgn.mem_or.mpr (.inr (Rgn.mem_and.mpr ⟨Rgn.mem_offset.mpr ?_, h⟩))⟩
    unfold copySource
    dsimp only
    rwa [sub_neg_eq_add, sub_add_cancel, sub_neg_eq_add, sub_add_cancel]

/-- What `spareCursor` marks. -/
structure Spared (s : ScreenInfo α) (dx dy : ℤ) (cl cl' : ClientRec α) : Prop where
  same : cl' = { cl with modifiedRegion := cl'.modifiedRegion }
  modified : ∀ p ∈ cl.modifiedRegion, p ∈ cl'.modifiedRegion
  drawn : ∀ p ∈ cl.copyRegion, cl.Drawn s p ∨ cl.Drawn s (copySource dx dy p) →
    p ∈ cl'.modifiedRegion

theorem mem_markUnlessEmpty {r : Rgn} {p : ℤ × ℤ} :
    p ∈ (cl.markUnlessEmpty r).modifiedRegion ↔ p ∈ cl.modifiedRegion ∨ p ∈ r := by
  unfold markUnlessEmpty
  split_ifs with hempty
  · exact (or_iff_left (Rgn.notMem_of_isEmpty hempty)).symm
  · exact Rgn.mem_or

theorem markUnlessEmpty_eq (r : Rgn) (cl : ClientRec α) : cl.markUnlessEmpty r =
    { cl with modifiedRegion := (cl.markUnlessEmpty r).modifiedRegion } := by
  unfold markUnlessEmpty
  split_ifs <;> rfl

theorem spared_spareCursor (s : ScreenInfo α) (dx dy : ℤ) (cl : ClientRec α) :
    Spared s dx dy cl (cl.spareCursor s dx dy) := by
  unfold spareCursor
  split_ifs with henable
  · refine ⟨rfl, fun _ h => h, fun p _ h => ?_⟩
    rcases h with h | h <;> exact absurd h.1 (by rw [henable]; exact Bool.noConfusion)
  · dsimp only
    set r := ((s.cursorRegion cl.cursorX cl.cursorY).and cl.copyRegion).1
    have hcl := markUnlessEmpty_eq r cl
    set cl₁ := cl.markUnlessEmpty r with hcl₁
    refine ⟨by rw [markUnlessEmpty_eq _ cl₁, hcl], fun p hp => ?_, fun p hp hdrawn => ?_⟩
    · rw [mem_markUnlessEmpty, hcl₁, mem_markUnlessEmpty]
      exact .inl (.inl hp)
    · rw [mem_markUnlessEmpty]
      rcases hdrawn with hdrawn | hdrawn
      · refine .inl (mem_markUnlessEmpty.mpr (.inr ?_))
        exact Rgn.mem_and.mpr ⟨ScreenInfo.mem_cursorRegion hdrawn.2, hp⟩
      · refine .inr (Rgn.mem_and.mpr ?_)
        rw [hcl]
        exact ⟨Rgn.mem_offset.mpr (ScreenInfo.mem_cursorRegion hdrawn.2), hp⟩

/-- What `scheduleCopyRegion` leaves, for a client that copies. -/
structure Scheduled (s : ScreenInfo α) (copyRegion : Rgn) (dx dy : ℤ) (cl cl' : ClientRec α) :
    Prop where
  same : cl' = { cl with
    modifiedRegion := cl'.modifiedRegion
    copyRegion := cl'.copyRegion
    copyDX := dx
    copyDY := dy }
  modified : ∀ p ∈ cl.modifiedRegion, p ∈ cl'.modifiedRegion
  pending : ∀ p, p ∈ cl.copyRegion ∨ p ∈ copyRegion → p ∈ cl'.copyRegion ∨ p ∈ cl'.modifiedRegion
  copy : ∀ p ∈ cl'.copyRegion,
    p ∈ copyRegion ∨ p ∈ cl.copyRegion ∧ cl.copyDX = dx ∧ cl.copyDY = dy
  read : ∀ p ∈ copyRegion, p ∉ cl'.modifiedRegion →
    copySource dx dy p ∉ cl.modifiedRegion ∧ copySource dx dy p ∉ cl.copyRegion
  drawn : ∀ p ∈ cl'.copyRegion, p ∉ cl'.modifiedRegion →
    ¬cl.Drawn s p ∧ ¬cl.Drawn s (copySource dx dy p)

theorem scheduled_scheduleCopyRegion {copyRegion : Rgn} {dx dy : ℤ}
    (hcopy : cl.useCopyRect = true) :
    Scheduled s copyRegion dx dy cl (cl.scheduleCopyRegion s copyRegion dx dy) := by
  have hm := merged_mergeCopies copyRegion dx dy cl
  unfold scheduleCopyRegion
  rw [if_pos hcopy]
  dsimp only
  set cl₁ := cl.mergeCopies copyRegion dx dy
  set cl₂ : ClientRec α :=
    { cl₁ with copyRegion := cl₁.copyRegion.or copyRegion, copyDX := dx, copyDY := dy } with hcl₂
  set cl₃ := cl₂.markRegionAsModified ((cl₂.modifiedRegion.offset dx dy).and cl₂.copyRegion).1
    with hcl₃
  have hs := spared_spareCursor s dx dy cl₃
  set cl₄ := cl₃.spareCursor s dx dy
  have hcopied : cl₄.copyRegion = cl₁.copyRegion.or copyRegion := by
    rw [hs.same]
    rfl
  have hmodified (p : ℤ × ℤ) (hp : p ∈ cl₁.modifiedRegion) : p ∈ cl₄.modifiedRegion :=
    hs.modified p (Rgn.mem_or.mpr (.inl hp))
  refine ⟨?_, fun p hp => hmodified p (hm.modified p hp), fun p hp => ?_, fun p hp => ?_,
    fun p hp hM => ?_, fun p hp hM => ?_⟩
  · rw [hs.same, hcl₃, hcl₂, hm.same]
    rfl
  · rw [hcopied, Rgn.mem_or]
    rcases hp with hp | hp
    · exact (hm.pending p hp).imp .inl (hmodified p)
    · exact .inl (.inr hp)
  · rw [hcopied, Rgn.mem_or] at hp
    exact hp.symm.imp id (hm.copy p)
  · have hread : copySource dx dy p ∉ cl₁.modifiedRegion := fun hsrc =>
      hM (hs.modified p (Rgn.mem_or.mpr (.inr (Rgn.mem_and.mpr
        ⟨Rgn.mem_offset.mpr hsrc, Rgn.mem_or.mpr (.inr hp)⟩))))
    exact ⟨fun hsrc => hread (hm.modified _ hsrc), fun hsrc => hread (hm.read p hp hsrc)⟩
  · rw [hcopied] at hp
    have hdrawn : ¬(cl₃.Drawn s p ∨ cl₃.Drawn s (copySource dx dy p)) :=
      fun h => hM (hs.drawn p hp h)
    rw [hcl₃, hcl₂, hm.same] at hdrawn
    exact not_or.mp hdrawn

/-- A region moves, and the copy is scheduled. -/
theorem InStep.scheduleCopyRegion (h : cl.InStep s) {copyRegion : Rgn} {dx dy : ℤ}
    {frameBuffer : ℤ × ℤ → α}
    (hin : ∀ p ∈ copyRegion, Grid.Inside s.width s.height p ∧
      Grid.Inside s.width s.height (copySource dx dy p))
    (hmoved : ∀ p ∈ copyRegion, frameBuffer p = s.frameBuffer (copySource dx dy p))
    (hrest : ∀ p, p ∉ copyRegion → frameBuffer p = s.frameBuffer p) :
    (cl.scheduleCopyRegion s copyRegion dx dy).InStep { s with frameBuffer } := by
  by_cases hcopy : cl.useCopyRect = true
  · have hs : Scheduled s copyRegion dx dy cl (cl.scheduleCopyRegion s copyRegion dx dy) :=
      scheduled_scheduleCopyRegion hcopy
    generalize cl.scheduleCopyRegion s copyRegion dx dy = cl' at hs ⊢
    have hpicture : cl'.picture = cl.picture := by rw [hs.same]
    have hDX : cl'.copyDX = dx := by rw [hs.same]
    have hDY : cl'.copyDY = dy := by rw [hs.same]
    have hdropped : cl'.cursorDropped = cl.cursorDropped := by rw [hs.same]
    have hDrawn (p : ℤ × ℤ) : cl'.Drawn { s with frameBuffer } p ↔ cl.Drawn s p := by
      rw [hs.same]
      rfl
    have hshown {p : ℤ × ℤ} (hp : frameBuffer p = s.frameBuffer p) :
        cl'.shown { s with frameBuffer } p = cl.shown s p := by
      rw [hs.same]
      exact shown_frameBuffer hp
    have hcopyIn (p : ℤ × ℤ) (hp : p ∈ cl'.copyRegion) : Grid.Inside s.width s.height p ∧
        Grid.Inside s.width s.height (copySource dx dy p) := by
      rcases hs.copy p hp with hp | ⟨hp, hx, hy⟩
      · exact hin p hp
      · rw [← hx, ← hy]
        exact h.inside p hp
    refine ⟨fun p hp hM hC hd => ?_, fun p hC hM => ?_, fun p hC hM _ => ?_, ?_⟩
    · have hold := not_or.mp fun hold => (hs.pending p hold).elim hC hM
      rw [hpicture, hshown (hrest p hold.2)]
      exact h.shown p hp (fun hp' => hM (hs.modified p hp')) hold.1 (by
        rw [hdropped] at hd
        exact fun hd' hD => hd hd' ((hDrawn p).mpr hD))
    · rw [hpicture, hDX, hDY]
      by_cases hp : p ∈ copyRegion
      · -- what is copied is shown by the viewer, and it is not the cursor
        obtain ⟨hsrcM, hsrcC⟩ := hs.read p hp hM
        have hnot := (hs.drawn p hC hM).2
        show _ = frameBuffer p
        rw [hmoved p hp, h.shown _ (hin p hp).2 hsrcM hsrcC fun _ => hnot,
          shown_of_not_drawn hnot]
      · obtain ⟨hp', hx, hy⟩ := (hs.copy p hC).resolve_left hp
        show _ = frameBuffer p
        rw [hrest p hp, ← hx, ← hy]
        exact h.copied p hp' fun hM' => hM (hs.modified p hM')
    · rw [hDrawn]
      exact (hs.drawn p hC hM).1
    · rw [hDX, hDY]
      exact hcopyIn
  · unfold ClientRec.scheduleCopyRegion
    rw [if_neg hcopy]
    exact h.mark copyRegion hrest

/-! ### The cursor, the encodings, requests -/

/-- Where the cursor is or was drawn, the pixels are sent again. -/
theorem InStep.setCursor (h : cl.InStep s) (c : RfbCursor α) :
    (cl.setCursor s c).InStep { s with cursor := c } := by
  unfold ClientRec.setCursor
  split_ifs with henable
  · have hnot (t : ScreenInfo α) (p : ℤ × ℤ) : ¬cl.Drawn t p := fun hD => by
      rw [hD.1] at henable
      cases henable
    refine ⟨fun p hp hM hC _ => ?_, h.copied, fun p _ _ _ => hnot _ p, h.inside⟩
    rw [h.shown p hp hM hC fun _ => hnot s p, shown_of_not_drawn (hnot s p),
      shown_of_not_drawn (hnot _ p)]
  · have hM' (p : ℤ × ℤ) (hM : p ∉ ((cl.modifiedRegion.or (s.redrawRegion cl.cursorX cl.cursorY)).or
        (ScreenInfo.redrawRegion { s with cursor := c } cl.cursorX cl.cursorY))) :
        p ∉ cl.modifiedRegion ∧ ¬cl.Drawn s p ∧ ¬cl.Drawn { s with cursor := c } p := by
      rw [Rgn.mem_or, Rgn.mem_or, not_or, not_or] at hM
      exact ⟨hM.1.1, fun hD => hM.1.2 (ScreenInfo.mem_redrawRegion hD.2),
        fun hD => hM.2 (ScreenInfo.mem_redrawRegion hD.2)⟩
    refine ⟨fun p hp hM hC _ => ?_, fun p hC hM => ?_, fun p _ hM _ => (hM' p hM).2.2, h.inside⟩
    · obtain ⟨hM, hD, hD'⟩ := hM' p hM
      exact (h.shown p hp hM hC fun _ => hD).trans
        ((shown_of_not_drawn hD).trans (shown_of_not_drawn hD').symm)
    · exact h.copied p hC (hM' p hM).1

theorem inStep_newFramebuffer (cl : ClientRec α) {width height : ℕ}
    (hw : s.width = width) (hh : s.height = height) :
    (cl.newFramebuffer width height).InStep s where
  shown p hp hM := by
    rw [hw, hh] at hp
    have hp' : p ∈ (newFramebuffer width height cl).modifiedRegion := mem_pixels_createRect.mpr hp
    exact (hM hp').elim
  copied _ hC := absurd hC Rgn.notMem_create
  spared _ hC := absurd hC Rgn.notMem_create
  inside _ hC := absurd hC Rgn.notMem_create

/-- The viewer draws the cursor from now on. -/
theorem InStep.hideCursor (h : cl.InStep s) (hD : ∀ p, p ∉ cl.modifiedRegion → ¬cl.Drawn s p) :
    InStep s { cl with enableCursorShapeUpdates := true, cursorDropped := false } where
  shown p hp hM hC _ := by
    have hnot : ¬Drawn s { cl with enableCursorShapeUpdates := true, cursorDropped := false } p :=
      fun hD => Bool.noConfusion hD.1
    exact (h.shown p hp hM hC fun _ => hD p hM).trans
      ((shown_of_not_drawn (hD p hM)).trans (shown_of_not_drawn hnot).symm)
  copied := h.copied
  spared _ _ _ _ hD := Bool.noConfusion hD.1
  inside := h.inside

theorem InStep.enableCursor (h : cl.InStep s) : (cl.enableCursor s).InStep s := by
  unfold ClientRec.enableCursor
  dsimp only
  split_ifs with henable
  · refine h.hideCursor fun p _ hD => ?_
    rw [hD.1] at henable
    cases henable
  · refine (h.markRegionAsModified (s.redrawRegion cl.cursorX cl.cursorY)).hideCursor
      fun p hM hD => hM (Rgn.mem_or.mpr (.inr (ScreenInfo.mem_redrawRegion hD.2)))

theorem InStep.setEncoding (h : cl.InStep s) (e : ClientEncoding) :
    (cl.setEncoding s e).InStep s := by
  cases e with
  | xCursor =>
    unfold ClientRec.setEncoding
    split_ifs
    · exact h
    · exact h.enableCursor
  | richCursor => exact h.enableCursor
  | encoding e => exact ⟨h.shown, h.copied, h.spared, h.inside⟩
  | copyRect => exact ⟨h.shown, h.copied, h.spared, h.inside⟩
  | newFBSize => exact ⟨h.shown, h.copied, h.spared, h.inside⟩
  | other => exact h

/-- The flags are reset: the cursor is not drawn again for a viewer that drew it. -/
theorem InStep.dropCursor (h : cl.InStep s) : InStep s { cl with
    preferredEncoding := none
    useCopyRect := false
    useNewFBSize := false
    cursorDropped := cl.cursorDropped || cl.enableCursorShapeUpdates
    enableCursorShapeUpdates := false } := by
  cases henable : cl.enableCursorShapeUpdates with
  | false =>
    rw [Bool.or_false, ← henable]
    exact ⟨h.shown, h.copied, h.spared, h.inside⟩
  | true =>
    have hnot (p : ℤ × ℤ) : ¬cl.Drawn s p := fun hD => by
      rw [hD.1] at henable
      cases henable
    rw [Bool.or_true]
    refine ⟨fun p hp hM hC hd => ?_, h.copied, fun p _ _ hd => Bool.noConfusion hd, h.inside⟩
    exact (h.shown p hp hM hC fun _ => hnot p).trans
      ((shown_of_not_drawn (hnot p)).trans (shown_of_not_drawn (hd rfl)).symm)

theorem InStep.setEncodings (h : cl.InStep s) (encodings : List ClientEncoding) :
    (cl.setEncodings s encodings).InStep s := by
  have hfold (l : List ClientEncoding) (cl : ClientRec α) (h : cl.InStep s) :
      (l.foldl (ClientRec.setEncoding s) cl).InStep s := by
    induction l generalizing cl with
    | nil => exact h
    | cons e l ih => exact ih _ (h.setEncoding e)
  have hlist := hfold encodings _ h.dropCursor
  exact ⟨hlist.shown, hlist.copied, hlist.spared, hlist.inside⟩

theorem InStep.requestUpdate (h : cl.InStep s) (incremental : Bool) (x y w ht : UInt16) :
    (cl.requestUpdate s incremental x y w ht).InStep s := by
  unfold ClientRec.requestUpdate
  split
  · exact h
  · dsimp only
    split_ifs
    · exact ⟨h.shown, h.copied, h.spared, h.inside⟩
    · refine ⟨fun p hp hM hC hd => ?_, fun p hC hM => ?_, fun p hC hM => ?_, fun p hC => ?_⟩
      · have hM' := not_or.mp (mt Rgn.mem_or.mpr hM)
        exact h.shown p hp hM'.1 (fun hp' => hC (Rgn.mem_subtract.mpr ⟨hp', hM'.2⟩)) hd
      · exact h.copied p (Rgn.mem_subtract.mp hC).1 fun hM' => hM (Rgn.mem_or.mpr (.inl hM'))
      · exact h.spared p (Rgn.mem_subtract.mp hC).1 fun hM' => hM (Rgn.mem_or.mpr (.inl hM'))
      · exact h.inside p (Rgn.mem_subtract.mp hC).1

/-! ### Updates -/

theorem foldl_putRect (pixel picture : ℤ × ℤ → α) (l : List SraRect) (p : ℤ × ℤ) :
    ((∃ r ∈ l, r.Has p) → l.foldl (putRect pixel) picture p = pixel p) ∧
      ((∀ r ∈ l, ¬r.Has p) → l.foldl (putRect pixel) picture p = picture p) := by
  induction l generalizing picture with
  | nil => exact ⟨fun ⟨_, hr, _⟩ => (List.not_mem_nil hr).elim, fun _ => rfl⟩
  | cons r l ih =>
    rw [List.foldl_cons]
    obtain ⟨hin, hout⟩ := ih (putRect pixel picture r)
    constructor
    · intro hr
      by_cases hl : ∃ t ∈ l, t.Has p
      · exact hin hl
      · rw [hout fun t ht htp => hl ⟨t, ht, htp⟩]
        obtain ⟨t, ht, htp⟩ := hr
        rcases List.mem_cons.mp ht with rfl | ht
        · exact if_pos htp
        · exact absurd ⟨t, ht, htp⟩ hl
    · intro hr
      rw [hout fun t ht => hr t (List.mem_cons_of_mem _ ht)]
      exact if_neg (hr r List.mem_cons_self)

/-- The rectangles of a region leave its pixels, and nothing else, as they are sent. -/
theorem foldl_putRect_rgn (pixel picture : ℤ × ℤ → α) (r : Rgn) (p : ℤ × ℤ) :
    (p ∈ r → (rgnRects r.list false false).foldl (putRect pixel) picture p = pixel p) ∧
      (p ∉ r → (rgnRects r.list false false).foldl (putRect pixel) picture p = picture p) := by
  obtain ⟨hin, hout⟩ := foldl_putRect pixel picture (rgnRects r.list false false) p
  have hmem : (∃ t ∈ rgnRects r.list false false, t.Has p) ↔ p ∈ r := exists_mem_rgnRects r.good
  exact ⟨fun hp => hin (hmem.mpr hp), fun hp => hout fun t ht htp => hp (hmem.mp ⟨t, ht, htp⟩)⟩

theorem mem_limitRects {r : Rgn} {p : ℤ × ℤ} (h : p ∈ r) : p ∈ cl.limitRects s r := by
  unfold limitRects
  dsimp only
  split_ifs
  · exact Rgn.mem_bbox h
  · exact h

/-- What `redrawCursor` leaves: the cursor stays, or both where it was and where it is goes
into the update. -/
theorem redrawCursor_cases (s : ScreenInfo α) (updateRegion : Rgn) (cl : ClientRec α) :
    cl.redrawCursor s updateRegion = (cl, updateRegion) ∨
    ∃ r, cl.redrawCursor s updateRegion = ({ cl with
        cursorX := s.cursorX, cursorY := s.cursorY, cursorDropped := false }, r) ∧
      (∀ p ∈ updateRegion, p ∈ r) ∧
      (∀ p, s.CursorAt cl.cursorX cl.cursorY p ∨ s.CursorAt s.cursorX s.cursorY p → p ∈ r) := by
  unfold redrawCursor
  split_ifs with hstay
  · exact .inl rfl
  · refine .inr ⟨_, rfl, fun p hp => ?_, fun p hp => ?_⟩
    · exact Rgn.mem_or.mpr (.inl (Rgn.mem_or.mpr (.inl hp)))
    · rcases hp with hp | hp
      · exact Rgn.mem_or.mpr (.inl (Rgn.mem_or.mpr (.inr (ScreenInfo.mem_redrawRegion hp))))
      · exact Rgn.mem_or.mpr (.inr (ScreenInfo.mem_redrawRegion hp))

theorem redrawCursor_regions (s : ScreenInfo α) (updateRegion : Rgn) (cl : ClientRec α) :
    (cl.redrawCursor s updateRegion).1.modifiedRegion = cl.modifiedRegion ∧
      (cl.redrawCursor s updateRegion).1.copyRegion = cl.copyRegion := by
  unfold redrawCursor
  split_ifs <;> exact ⟨rfl, rfl⟩

theorem putRegions_modifiedRegion (s : ScreenInfo α) (copies : List CopyRect)
    (updateCopyRegion updateRegion : Rgn) (cl : ClientRec α) :
    (cl.putRegions s copies updateCopyRegion updateRegion).modifiedRegion =
      ((((cl.modifiedRegion.or cl.copyRegion).subtract updateRegion).1).subtract
        updateCopyRegion).1 :=
  (redrawCursor_regions s updateRegion _).1

theorem putRegions_copyRegion (s : ScreenInfo α) (copies : List CopyRect)
    (updateCopyRegion updateRegion : Rgn) (cl : ClientRec α) :
    (cl.putRegions s copies updateCopyRegion updateRegion).copyRegion = .create :=
  (redrawCursor_regions s updateRegion _).2

/-- What the copies of an update leave is right wherever no pixels are sent. -/
theorem InStep.copies (h : cl.InStep s) (hw : s.width < 2 ^ 16) (hh : s.height < 2 ^ 16)
    {updateCopyRegion updateRegion : Rgn} {p : ℤ × ℤ} (hp : Grid.Inside s.width s.height p)
    (hcopy : ∀ p ∈ updateCopyRegion, p ∈ cl.copyRegion ∧ p ∉ cl.modifiedRegion)
    (hsent : p ∉ updateRegion)
    (hM : p ∉ ((((cl.modifiedRegion.or cl.copyRegion).subtract updateRegion).1).subtract
      updateCopyRegion).1) (hd : cl.cursorDropped = true → ¬cl.Drawn s p) :
    (copyRects updateCopyRegion.list cl.copyDX cl.copyDY).foldl handleCopyRect cl.picture p =
      cl.shown s p := by
  have hcopied := foldl_handleCopyRect (s := updateCopyRegion.list) le_rfl
    (by omega) (by omega) updateCopyRegion.good (fun p hp => h.inside p (hcopy p hp).1) cl.picture p
  by_cases hUC : p ∈ updateCopyRegion
  · obtain ⟨hC, hM'⟩ := hcopy p hUC
    have hnot : ¬cl.Drawn s p := by
      cases hdropped : cl.cursorDropped with
      | false => exact h.spared p hC hM' hdropped
      | true => exact hd hdropped
    rw [hcopied.1 hUC, shown_of_not_drawn hnot]
    exact h.copied p hC hM'
  · simp only [Rgn.mem_subtract, Rgn.mem_or, not_and, not_not] at hM
    have hrest : ¬(p ∈ cl.modifiedRegion ∨ p ∈ cl.copyRegion) := fun hp' => hUC (hM ⟨hp', hsent⟩)
    rw [hcopied.2 hUC]
    exact h.shown p hp (fun hp' => hrest (.inl hp')) (fun hp' => hrest (.inr hp')) hd

/-- The regions of an update are sent: what is copied is still to be copied and not modified. -/
theorem InStep.putRegions (h : cl.InStep s) (hw : s.width < 2 ^ 16) (hh : s.height < 2 ^ 16)
    {updateCopyRegion : Rgn} (updateRegion : Rgn)
    (hcopy : ∀ p ∈ updateCopyRegion, p ∈ cl.copyRegion ∧ p ∉ cl.modifiedRegion) :
    (cl.putRegions s (copyRects updateCopyRegion.list cl.copyDX cl.copyDY) updateCopyRegion
      updateRegion).InStep s := by
  have hnone (p : ℤ × ℤ) : p ∉ (cl.putRegions s
      (copyRects updateCopyRegion.list cl.copyDX cl.copyDY) updateCopyRegion
      updateRegion).copyRegion := by
    rw [putRegions_copyRegion]
    exact Rgn.notMem_create
  refine ⟨fun p hp hM _ hd => ?_, fun p hC => absurd hC (hnone p), fun p hC => absurd hC (hnone p),
    fun p hC => absurd hC (hnone p)⟩
  rw [putRegions_modifiedRegion] at hM
  unfold ClientRec.putRegions at hd ⊢
  dsimp only at hd ⊢
  set cl₁ : ClientRec α := { cl with
    modifiedRegion := ((((cl.modifiedRegion.or cl.copyRegion).subtract updateRegion).1).subtract
      updateCopyRegion).1
    copyRegion := .create
    copyDX := 0
    copyDY := 0
    requestedRegion := .create } with hcl₁
  rcases redrawCursor_cases s updateRegion cl₁ with hr | ⟨r, hr, hsub, hcursor⟩
  · rw [hr] at hd ⊢
    obtain ⟨hin, hout⟩ := foldl_putRect_rgn (cl₁.shown s)
      ((copyRects updateCopyRegion.list cl.copyDX cl.copyDY).foldl handleCopyRect cl.picture)
      (cl₁.limitRects s updateRegion) p
    by_cases hsent : p ∈ cl₁.limitRects s updateRegion
    · exact hin hsent
    · refine (hout hsent).trans ?_
      exact h.copies hw hh hp hcopy (fun hp' => hsent (mem_limitRects hp')) hM hd
  · rw [hr]
    set cl₂ : ClientRec α :=
      { cl₁ with cursorX := s.cursorX, cursorY := s.cursorY, cursorDropped := false }
    obtain ⟨hin, hout⟩ := foldl_putRect_rgn (cl₂.shown s)
      ((copyRects updateCopyRegion.list cl.copyDX cl.copyDY).foldl handleCopyRect cl.picture)
      (cl₂.limitRects s r) p
    by_cases hsent : p ∈ cl₂.limitRects s r
    · exact hin hsent
    · -- the cursor is drawn neither where it was nor where it is
      have hr' : p ∉ r := fun hp' => hsent (mem_limitRects hp')
      have hold : ¬cl.Drawn s p := fun hD => hr' (hcursor p (.inl hD.2))
      have hnew : ¬cl₂.Drawn s p := fun hD => hr' (hcursor p (.inr hD.2))
      refine (hout hsent).trans ?_
      refine (h.copies hw hh hp hcopy (fun hp' => hr' (hsub p hp')) hM fun _ => hold).trans ?_
      exact (shown_of_not_drawn hold).trans (shown_of_not_drawn hnew).symm

theorem InStep.dropModified (h : cl.InStep s) : cl.dropModified.InStep s := by
  unfold ClientRec.dropModified
  refine ⟨fun p hp hM hC hd => ?_, fun p hC hM => ?_, fun p hC hM => ?_, fun p hC => ?_⟩
  · exact h.shown p hp hM (fun hC' => hC (Rgn.mem_subtract.mpr ⟨hC', hM⟩)) hd
  · exact h.copied p (Rgn.mem_subtract.mp hC).1 hM
  · exact h.spared p (Rgn.mem_subtract.mp hC).1 hM
  · exact h.inside p (Rgn.mem_subtract.mp hC).1

/-- What an update can come to. -/
inductive Updates (s : ScreenInfo α) (cursor : Bool) (other : Option ℕ) (cl : ClientRec α) :
    ClientRec α → Prop
  | notDue (h : cl.due s cursor = false) : Updates s cursor other cl cl
  | newFBSize (h : (cl.useNewFBSize && cl.newFBSizePending) = true) :
      Updates s cursor other cl (cl.sendNewFBSize s)
  | nothing (hsize : (cl.useNewFBSize && cl.newFBSizePending) = false)
      (h : cl.dropModified.nothingToSend s other cl.modifiedRegion = true) :
      Updates s cursor other cl cl.dropModified
  | regions (hsize : (cl.useNewFBSize && cl.newFBSizePending) = false)
      (hroom : other.getD 4 + 16 * cl.dropModified.updateCopyRegion.countRects ≤ updateBufSize) :
      Updates s cursor other cl (cl.dropModified.putRegions s
        (copyRects cl.dropModified.updateCopyRegion.list cl.copyDX cl.copyDY)
        cl.dropModified.updateCopyRegion
        ((cl.dropModified.updateRegion cl.modifiedRegion).1.subtract
          cl.dropModified.updateCopyRegion).1)

theorem sendRegions_eq_some {ublen : ℕ} {updateCopyRegion updateRegion : Rgn} {cl' : ClientRec α} :
    cl.sendRegions s ublen updateCopyRegion updateRegion = some cl' ↔
      ublen + 16 * updateCopyRegion.countRects ≤ updateBufSize ∧
        cl.putRegions s (copyRects updateCopyRegion.list cl.copyDX cl.copyDY) updateCopyRegion
          updateRegion = cl' := by
  have hlength := length_copyRects updateCopyRegion.good cl.copyDX cl.copyDY
  unfold ClientRec.sendRegions
  rw [Option.map_eq_some_iff]
  constructor
  · rintro ⟨copies, hsend, rfl⟩
    obtain ⟨hroom, rfl⟩ := sendCopyRegion_eq_some.mp hsend
    rw [hlength] at hroom
    exact ⟨hroom, rfl⟩
  · rintro ⟨hroom, rfl⟩
    exact ⟨_, sendCopyRegion_eq_some.mpr ⟨hlength.symm ▸ hroom, rfl⟩, rfl⟩

theorem updates_of_update {cursor : Bool} {other : Option ℕ} {cl' : ClientRec α}
    (h : cl.update s cursor other = some cl') : Updates s cursor other cl cl' := by
  unfold ClientRec.update at h
  split_ifs at h with hdue
  · unfold ClientRec.sendFramebufferUpdate at h
    dsimp only at h
    split_ifs at h with hsize hnothing
    · exact Option.some.inj h ▸ .newFBSize hsize
    · exact Option.some.inj h ▸ .nothing (Bool.eq_false_iff.mpr hsize) hnothing
    · obtain ⟨hroom, rfl⟩ := sendRegions_eq_some.mp h
      exact .regions (Bool.eq_false_iff.mpr hsize) hroom
  · exact Option.some.inj h ▸ .notDue (Bool.eq_false_iff.mpr hdue)

theorem exists_update (cursor : Bool) {other : Option ℕ}
    (hroom : other.getD 4 + 16 * cl.dropModified.updateCopyRegion.countRects ≤ updateBufSize) :
    ∃ cl', cl.update s cursor other = some cl' := by
  unfold ClientRec.update
  split_ifs
  · unfold ClientRec.sendFramebufferUpdate
    dsimp only
    split_ifs
    · exact ⟨_, rfl⟩
    · exact ⟨_, rfl⟩
    · exact ⟨_, sendRegions_eq_some.mpr ⟨hroom, rfl⟩⟩
  · exact ⟨_, rfl⟩

/-! ### The size of the viewer -/

/-- The viewer has a framebuffer of the size of the screen, or it will be told the size and has
all of the screen pending. -/
structure Sized (s : ScreenInfo α) (cl : ClientRec α) : Prop where
  told : cl.newFBSizePending = false → cl.size = (s.width, s.height)
  whole : cl.newFBSizePending = true → cl.useNewFBSize = true ∧
    ∀ p, Grid.Inside s.width s.height p → p ∈ cl.modifiedRegion

/-- Whatever else changes. -/
theorem Sized.grow {t : ScreenInfo α} {cl' : ClientRec α} (h : cl.Sized s)
    (ht : t.width = s.width ∧ t.height = s.height) (hsize : cl'.size = cl.size)
    (hpending : cl'.newFBSizePending = cl.newFBSizePending)
    (huse : cl'.newFBSizePending = true → cl'.useNewFBSize = cl.useNewFBSize)
    (hM : ∀ p ∈ cl.modifiedRegion, p ∈ cl'.modifiedRegion) : cl'.Sized t where
  told hfalse := by rw [hsize, ht.1, ht.2]; exact h.told (hpending ▸ hfalse)
  whole htrue := by
    obtain ⟨huse', hall⟩ := h.whole (hpending ▸ htrue)
    rw [ht.1, ht.2]
    exact ⟨(huse htrue).trans huse', fun p hp => hM p (hall p hp)⟩

theorem Sized.markRegionAsModified (h : cl.Sized s) (r : Rgn) {t : ScreenInfo α}
    (ht : t.width = s.width ∧ t.height = s.height) : (cl.markRegionAsModified r).Sized t :=
  h.grow ht rfl rfl (fun _ => rfl) fun _ hp => Rgn.mem_or.mpr (.inl hp)

theorem Sized.scheduleCopyRegion (h : cl.Sized s) (copyRegion : Rgn) (dx dy : ℤ)
    {t : ScreenInfo α} (ht : t.width = s.width ∧ t.height = s.height) :
    (cl.scheduleCopyRegion s copyRegion dx dy).Sized t := by
  by_cases hcopy : cl.useCopyRect = true
  · have hs : Scheduled s copyRegion dx dy cl (cl.scheduleCopyRegion s copyRegion dx dy) :=
      scheduled_scheduleCopyRegion hcopy
    generalize cl.scheduleCopyRegion s copyRegion dx dy = cl' at hs ⊢
    have hsize : cl'.size = cl.size := by rw [hs.same]
    have hpending : cl'.newFBSizePending = cl.newFBSizePending := by rw [hs.same]
    have huse : cl'.useNewFBSize = cl.useNewFBSize := by rw [hs.same]
    exact h.grow ht hsize hpending (fun _ => huse) hs.modified
  · unfold ClientRec.scheduleCopyRegion
    rw [if_neg hcopy]
    exact h.markRegionAsModified copyRegion ht

theorem Sized.setCursor (h : cl.Sized s) (c : RfbCursor α) :
    (cl.setCursor s c).Sized { s with cursor := c } := by
  unfold ClientRec.setCursor
  split_ifs
  · exact ⟨h.told, h.whole⟩
  · exact (h.markRegionAsModified _ ⟨rfl, rfl⟩).markRegionAsModified _ ⟨rfl, rfl⟩

/-- The size changes under viewers only that can be told. -/
theorem Sized.newFramebuffer (h : cl.Sized s) {t : ScreenInfo α}
    (hsame : cl.useNewFBSize = true ∨ t.width = s.width ∧ t.height = s.height) :
    (cl.newFramebuffer t.width t.height).Sized t where
  told hfalse := by
    obtain ⟨huse, hpending⟩ := Bool.or_eq_false_iff.mp hfalse
    obtain ⟨hw, hh⟩ := hsame.resolve_left (Bool.eq_false_iff.mp huse)
    rw [hw, hh]
    exact h.told hpending
  whole htrue := by
    refine ⟨(Bool.or_eq_true_iff.mp htrue).elim id fun hp => (h.whole hp).1, fun p hp => ?_⟩
    exact mem_pixels_createRect.mpr hp

structure Encoded (cl cl' : ClientRec α) : Prop where
  same : cl' = { cl with
    modifiedRegion := cl'.modifiedRegion
    useCopyRect := cl'.useCopyRect
    enableCursorShapeUpdates := cl'.enableCursorShapeUpdates
    useNewFBSize := cl'.useNewFBSize
    preferredEncoding := cl'.preferredEncoding
    cursorDropped := cl'.cursorDropped }
  modified : ∀ p ∈ cl.modifiedRegion, p ∈ cl'.modifiedRegion

theorem Encoded.trans {cl' cl'' : ClientRec α} (h : Encoded cl cl') (h' : Encoded cl' cl'') :
    Encoded cl cl'' where
  same := by rw [h'.same, h.same]
  modified p hp := h'.modified p (h.modified p hp)

theorem encoded_enableCursor (s : ScreenInfo α) (cl : ClientRec α) :
    Encoded cl (cl.enableCursor s) := by
  unfold enableCursor
  dsimp only
  split_ifs
  · exact ⟨rfl, fun _ hp => hp⟩
  · exact ⟨rfl, fun _ hp => Rgn.mem_or.mpr (.inl hp)⟩

theorem encoded_setEncoding (s : ScreenInfo α) (cl : ClientRec α) (e : ClientEncoding) :
    Encoded cl (cl.setEncoding s e) ∧ (cl.setEncoding s e).useNewFBSize =
      (cl.useNewFBSize || (e == .newFBSize)) := by
  have hcursor : (cl.enableCursor s).useNewFBSize = cl.useNewFBSize := by
    rw [(encoded_enableCursor s cl).same]
    unfold enableCursor
    dsimp only
    split_ifs <;> rfl
  cases e with
  | encoding e => exact ⟨⟨rfl, fun _ hp => hp⟩, (Bool.or_false _).symm⟩
  | copyRect => exact ⟨⟨rfl, fun _ hp => hp⟩, (Bool.or_false _).symm⟩
  | newFBSize => exact ⟨⟨rfl, fun _ hp => hp⟩, (Bool.or_true _).symm⟩
  | other => exact ⟨⟨rfl, fun _ hp => hp⟩, (Bool.or_false _).symm⟩
  | richCursor => exact ⟨encoded_enableCursor s cl, hcursor.trans (Bool.or_false _).symm⟩
  | xCursor =>
    unfold setEncoding
    split_ifs
    · exact ⟨⟨rfl, fun _ hp => hp⟩, (Bool.or_false _).symm⟩
    · exact ⟨encoded_enableCursor s cl, hcursor.trans (Bool.or_false _).symm⟩

theorem encoded_foldl (s : ScreenInfo α) (encodings : List ClientEncoding) (cl : ClientRec α) :
    Encoded cl (encodings.foldl (setEncoding s) cl) ∧
      (encodings.foldl (setEncoding s) cl).useNewFBSize =
        (cl.useNewFBSize || encodings.contains .newFBSize) := by
  induction encodings generalizing cl with
  | nil => exact ⟨⟨rfl, fun _ hp => hp⟩, (Bool.or_false _).symm⟩
  | cons e l ih =>
    obtain ⟨hone, huse⟩ := encoded_setEncoding s cl e
    obtain ⟨hrest, huse'⟩ := ih (cl.setEncoding s e)
    refine ⟨hone.trans hrest, huse'.trans ?_⟩
    rw [huse, Bool.or_assoc, List.contains_cons, Bool.beq_comm]

theorem encoded_setEncodings (s : ScreenInfo α) (encodings : List ClientEncoding)
    (cl : ClientRec α) : Encoded cl (cl.setEncodings s encodings) ∧
      (cl.setEncodings s encodings).useNewFBSize = encodings.contains .newFBSize := by
  obtain ⟨hlist, huse⟩ := encoded_foldl s encodings { cl with
    preferredEncoding := none
    useCopyRect := false
    useNewFBSize := false
    cursorDropped := cl.cursorDropped || cl.enableCursorShapeUpdates
    enableCursorShapeUpdates := false }
  refine ⟨⟨?_, hlist.modified⟩, huse⟩
  unfold setEncodings
  dsimp only
  rw [hlist.same]

/-- A viewer that is to be told a size goes on taking sizes. -/
theorem Sized.setEncodings (h : cl.Sized s) {encodings : List ClientEncoding}
    (hkeep : cl.newFBSizePending = true → .newFBSize ∈ encodings) :
    (cl.setEncodings s encodings).Sized s := by
  obtain ⟨henc, huse⟩ := encoded_setEncodings s encodings cl
  generalize cl.setEncodings s encodings = cl' at henc huse ⊢
  have hpending : cl'.newFBSizePending = cl.newFBSizePending := by rw [henc.same]
  refine h.grow ⟨rfl, rfl⟩ (by rw [henc.same]) hpending (fun htrue => ?_) henc.modified
  rw [hpending] at htrue
  rw [huse, (h.whole htrue).1, List.contains_iff_mem]
  exact hkeep htrue

theorem Sized.requestUpdate (h : cl.Sized s) (incremental : Bool) (x y w ht : UInt16) :
    (cl.requestUpdate s incremental x y w ht).Sized s := by
  unfold ClientRec.requestUpdate
  split
  · exact h
  · dsimp only
    split_ifs
    · exact ⟨h.told, h.whole⟩
    · exact h.grow ⟨rfl, rfl⟩ rfl rfl (fun _ => rfl) fun _ hp => Rgn.mem_or.mpr (.inl hp)

theorem Sized.update (h : cl.Sized s) {cursor : Bool} {other : Option ℕ} {cl' : ClientRec α}
    (hu : cl.update s cursor other = some cl') : cl'.Sized s := by
  cases updates_of_update hu with
  | notDue _ => exact h
  | newFBSize _ => exact ⟨fun _ => rfl, fun htrue => Bool.noConfusion htrue⟩
  | nothing _ _ => exact ⟨h.told, h.whole⟩
  | regions hsize _ =>
    have hpending : cl.newFBSizePending = false := by
      by_contra hp
      rw [Bool.not_eq_false] at hp
      rw [hp, (h.whole hp).1] at hsize
      cases hsize
    have hsame : ∀ copies updateCopyRegion updateRegion,
        (cl.dropModified.putRegions s copies updateCopyRegion updateRegion).newFBSizePending =
            cl.newFBSizePending ∧
          (cl.dropModified.putRegions s copies updateCopyRegion updateRegion).size = cl.size := by
      intro copies updateCopyRegion updateRegion
      unfold ClientRec.putRegions redrawCursor
      dsimp only
      split_ifs <;> exact ⟨rfl, rfl⟩
    obtain ⟨hpending', hsize'⟩ := hsame (copyRects cl.dropModified.updateCopyRegion.list cl.copyDX
      cl.copyDY) cl.dropModified.updateCopyRegion _
    refine ⟨fun _ => hsize'.trans (h.told hpending), fun htrue => ?_⟩
    rw [hpending', hpending] at htrue
    cases htrue

/-- A new framebuffer of the viewer is to be filled. -/
theorem InStep.sendNewFBSize (h : cl.InStep s) (hsized : cl.Sized s)
    (hpending : cl.newFBSizePending = true) : (cl.sendNewFBSize s).InStep s where
  shown p hp hM := absurd ((hsized.whole hpending).2 p hp) hM
  copied p hC hM := absurd ((hsized.whole hpending).2 p (h.inside p hC).1) hM
  spared := h.spared
  inside := h.inside

theorem InStep.update (h : cl.InStep s) (hsized : cl.Sized s) (hw : s.width < 2 ^ 16)
    (hh : s.height < 2 ^ 16) {cursor : Bool} {other : Option ℕ} {cl' : ClientRec α}
    (hu : cl.update s cursor other = some cl') : cl'.InStep s := by
  cases updates_of_update hu with
  | notDue _ => exact h
  | newFBSize hsize => exact h.sendNewFBSize hsized (Bool.and_eq_true_iff.mp hsize).2
  | nothing _ _ => exact h.dropModified
  | regions _ _ =>
    refine h.dropModified.putRegions hw hh _ fun p hp => ?_
    have hC := (Rgn.mem_and.mp (Rgn.mem_and.mp hp).1).1
    exact ⟨hC, (Rgn.mem_subtract.mp hC).2⟩

/-- Of what has been asked for nothing is pending after an update. -/
theorem not_pending_of_requested {p : ℤ × ℤ} (hp : p ∈ cl.requestedRegion) {cursor : Bool}
    {other : Option ℕ} (hsize : (cl.useNewFBSize && cl.newFBSizePending) = false)
    {cl' : ClientRec α} (hu : cl.update s cursor other = some cl') :
    p ∉ cl'.modifiedRegion ∧ p ∉ cl'.copyRegion := by
  have hreq : cl.requestedRegion.isEmpty = false := by
    by_contra hempty
    exact Rgn.notMem_of_isEmpty (Bool.not_eq_false _ ▸ hempty) hp
  cases updates_of_update hu with
  | notDue hdue =>
    simp only [due, hreq, Bool.not_false, Bool.and_true, Bool.or_eq_false_iff,
      Bool.not_eq_false'] at hdue
    exact ⟨Rgn.notMem_of_isEmpty hdue.2, Rgn.notMem_of_isEmpty hdue.1.2⟩
  | newFBSize htrue => exact absurd (hsize.symm.trans htrue) (by decide)
  | nothing _ hnothing =>
    simp only [nothingToSend, Bool.and_eq_true] at hnothing
    have hempty := Rgn.notMem_of_isEmpty (p := p) hnothing.1.1.2
    rw [updateRegion, Rgn.mem_and, Rgn.mem_or] at hempty
    exact not_or.mp fun h => hempty ⟨h, hp⟩
  | regions _ _ =>
    rw [putRegions_modifiedRegion, putRegions_copyRegion]
    refine ⟨fun hM => ?_, Rgn.notMem_create⟩
    obtain ⟨hM, hUC⟩ := Rgn.mem_subtract.mp hM
    obtain ⟨hM, hU⟩ := Rgn.mem_subtract.mp hM
    exact hU (Rgn.mem_subtract.mpr ⟨Rgn.mem_and.mpr ⟨hM, hp⟩, hUC⟩)

end ClientRec

theorem inStep_newClient (s : ScreenInfo α) (picture : ℤ × ℤ → α) :
    (newClient s picture).InStep s where
  shown _ hp hM := (hM (mem_pixels_createRect.mpr hp)).elim
  copied _ hC := (Rgn.notMem_create hC).elim
  spared _ hC := (Rgn.notMem_create hC).elim
  inside _ hC := (Rgn.notMem_create hC).elim

theorem sized_newClient (s : ScreenInfo α) (picture : ℤ × ℤ → α) : (newClient s picture).Sized s :=
  ⟨fun _ => rfl, fun htrue => Bool.noConfusion htrue⟩

/-! ### Runs -/

namespace Server

/-- The sizes fit in 16 bits and change only under viewers that take sizes, which go on taking
them until they are told; a copy goes from the screen to the screen, and `rfbDoCopyRegion`
reads nothing that it has written. -/
def Op.Valid (t : Server α) : Op α → Prop
  | .doCopyRegion r dx dy =>
    (∀ p ∈ r, Grid.Inside t.screen.width t.screen.height p ∧
      Grid.Inside t.screen.width t.screen.height (copySource dx dy p)) ∧
    InOrder (copySource dx dy) SraRect.Has
      (rgnRects r.list (decide (dx < 0)) (decide (dy < 0)))
  | .scheduleCopyRegion r dx dy =>
    ∀ p ∈ r, Grid.Inside t.screen.width t.screen.height p ∧
      Grid.Inside t.screen.width t.screen.height (copySource dx dy p)
  | .newFramebuffer width height _ =>
    (width < 2 ^ 16 ∧ height < 2 ^ 16) ∧ ∀ cl ∈ t.clients,
      cl.useNewFBSize = true ∨ width = t.screen.width ∧ height = t.screen.height
  | .setEncodings i encodings => ∀ cl, t.clients[i]? = some cl →
      cl.newFBSizePending = true → .newFBSize ∈ encodings
  | _ => True

/-- Every viewer and the server agree about what is pending and about the size. -/
structure InStep (t : Server α) : Prop where
  width : t.screen.width < 2 ^ 16
  height : t.screen.height < 2 ^ 16
  clients : ∀ cl ∈ t.clients, cl.InStep t.screen
  sized : ∀ cl ∈ t.clients, cl.Sized t.screen

theorem forall_mem_modify {P : ClientRec α → Prop} {l : List (ClientRec α)}
    {f : ClientRec α → ClientRec α} (i : ℕ) (h : ∀ cl ∈ l, P cl)
    (hf : ∀ cl, l[i]? = some cl → P cl → P (f cl)) : ∀ cl ∈ l.modify i f, P cl := by
  intro cl hcl
  obtain ⟨k, hk, rfl⟩ := List.mem_iff_getElem.mp hcl
  rw [List.getElem_modify]
  split_ifs with hi
  · subst hi
    exact hf _ (List.getElem?_eq_getElem _) (h _ (List.getElem_mem _))
  · exact h _ (List.getElem_mem _)

theorem forall_mem_set {P : ClientRec α → Prop} {l : List (ClientRec α)} (i : ℕ)
    {cl' : ClientRec α} (h : ∀ cl ∈ l, P cl) (hcl' : P cl') : ∀ cl ∈ l.set i cl', P cl := by
  intro cl hcl
  rcases List.mem_or_eq_of_mem_set hcl with hcl | rfl
  · exact h cl hcl
  · exact hcl'

theorem InStep.map {t : Server α} (h : t.InStep) {s : ScreenInfo α}
    {f : ClientRec α → ClientRec α} (hw : s.width < 2 ^ 16) (hh : s.height < 2 ^ 16)
    (hf : ∀ cl ∈ t.clients, cl.InStep t.screen → cl.Sized t.screen →
      (f cl).InStep s ∧ (f cl).Sized s) : InStep ⟨s, t.clients.map f⟩ where
  width := hw
  height := hh
  clients := List.forall_mem_map.mpr fun cl hcl =>
    (hf cl hcl (h.clients cl hcl) (h.sized cl hcl)).1
  sized := List.forall_mem_map.mpr fun cl hcl =>
    (hf cl hcl (h.clients cl hcl) (h.sized cl hcl)).2

theorem InStep.modify {t : Server α} (h : t.InStep) (i : ℕ) {f : ClientRec α → ClientRec α}
    (hf : ∀ cl, cl.InStep t.screen → (f cl).InStep t.screen)
    (hg : ∀ cl, t.clients[i]? = some cl → cl.Sized t.screen → (f cl).Sized t.screen) :
    InStep { t with clients := t.clients.modify i f } :=
  ⟨h.width, h.height, forall_mem_modify i h.clients fun cl _ => hf cl,
    forall_mem_modify i h.sized hg⟩

/-- An update of a client that is there. -/
theorem step_update {t u : Server α} {i : ℕ} {cursor : Bool} {other : Option ℕ}
    (h : t.step (.update i cursor other) = some u) : t.clients[i]? = none ∧ u = t ∨
      ∃ cl cl', t.clients[i]? = some cl ∧ cl.update t.screen cursor other = some cl' ∧
        u = { t with clients := t.clients.set i cl' } := by
  unfold step at h
  dsimp only at h
  cases hcl : t.clients[i]? with
  | none =>
    rw [hcl] at h
    exact .inl ⟨rfl, (Option.some.inj h).symm⟩
  | some cl =>
    rw [hcl] at h
    obtain ⟨cl', hu, rfl⟩ := Option.map_eq_some_iff.mp h
    exact .inr ⟨cl, cl', rfl, hu, rfl⟩

theorem InStep.step {t u : Server α} (h : t.InStep) {op : Op α} (hop : op.Valid t)
    (hu : t.step op = some u) : u.InStep := by
  cases op with
  | newClient picture =>
    obtain rfl := Option.some.inj hu
    exact ⟨h.width, h.height,
      List.forall_mem_cons.mpr ⟨inStep_newClient t.screen picture, h.clients⟩,
      List.forall_mem_cons.mpr ⟨sized_newClient t.screen picture, h.sized⟩⟩
  | clientGone i =>
    obtain rfl := Option.some.inj hu
    exact ⟨h.width, h.height, fun cl hcl => h.clients cl (List.mem_of_mem_eraseIdx hcl),
      fun cl hcl => h.sized cl (List.mem_of_mem_eraseIdx hcl)⟩
  | markRegion r pixel =>
    obtain rfl := Option.some.inj hu
    exact h.map h.width h.height fun cl _ hcl hsized =>
      ⟨hcl.mark r fun p hp => if_neg hp, hsized.markRegionAsModified r ⟨rfl, rfl⟩⟩
  | doCopyRegion r dx dy =>
    obtain rfl := Option.some.inj hu
    obtain ⟨hin, horder⟩ := hop
    have hmem (p : ℤ × ℤ) : (∃ t ∈ rgnRects r.list (decide (dx < 0)) (decide (dy < 0)), t.Has p) ↔
      p ∈ r := exists_mem_rgnRects r.good
    refine h.map h.width h.height fun cl _ hcl hsized =>
      ⟨hcl.scheduleCopyRegion hin (fun p hp => ?_) fun p hp => ?_,
        hsized.scheduleCopyRegion r dx dy ⟨rfl, rfl⟩⟩
    · rw [doCopyRegion_eq_moveAll]
      exact moveAll_of_mem horder ((hmem p).mpr hp)
    · rw [doCopyRegion_eq_moveAll]
      exact moveAll_of_not_mem fun t ht htp => hp ((hmem p).mp ⟨t, ht, htp⟩)
  | scheduleCopyRegion r dx dy =>
    obtain rfl := Option.some.inj hu
    exact h.map h.width h.height fun cl _ hcl hsized =>
      ⟨hcl.scheduleCopyRegion hop (fun p hp => if_pos hp) fun p hp => if_neg hp,
        hsized.scheduleCopyRegion r dx dy ⟨rfl, rfl⟩⟩
  | setCursor c =>
    obtain rfl := Option.some.inj hu
    exact h.map h.width h.height fun cl _ hcl hsized => ⟨hcl.setCursor c, hsized.setCursor c⟩
  | moveCursor x y =>
    obtain rfl := Option.some.inj hu
    exact ⟨h.width, h.height, fun cl hcl =>
      ⟨(h.clients cl hcl).shown, (h.clients cl hcl).copied, (h.clients cl hcl).spared,
        (h.clients cl hcl).inside⟩, fun cl hcl => ⟨(h.sized cl hcl).told, (h.sized cl hcl).whole⟩⟩
  | newFramebuffer width height frameBuffer =>
    obtain rfl := Option.some.inj hu
    exact h.map hop.1.1 hop.1.2 fun cl hcl _ hsized =>
      ⟨cl.inStep_newFramebuffer rfl rfl, hsized.newFramebuffer (hop.2 cl hcl)⟩
  | setEncodings i encodings =>
    obtain rfl := Option.some.inj hu
    exact h.modify i (fun cl hcl => hcl.setEncodings encodings) fun cl hcl hsized =>
      hsized.setEncodings (hop cl hcl)
  | request i incremental x y w ht =>
    obtain rfl := Option.some.inj hu
    exact h.modify i (fun cl hcl => hcl.requestUpdate incremental x y w ht) fun cl _ hsized =>
      hsized.requestUpdate incremental x y w ht
  | update i cursor other =>
    obtain ⟨-, rfl⟩ | ⟨cl, cl', hcl, hcl', rfl⟩ := step_update hu
    · exact h
    · have hmem := List.mem_of_getElem? hcl
      have hsized := h.sized cl hmem
      exact ⟨h.width, h.height,
        forall_mem_set i h.clients ((h.clients cl hmem).update hsized h.width h.height hcl'),
        forall_mem_set i h.sized (hsized.update hcl')⟩

/-- No viewer shows anything but what it was sent, nothing being pending for it. -/
def UpToDate (t : Server α) : Prop :=
  ∀ cl ∈ t.clients, ∀ p, Grid.Inside t.screen.width t.screen.height p →
    p ∉ cl.modifiedRegion → p ∉ cl.copyRegion →
    (cl.cursorDropped = true → ¬cl.Drawn t.screen p) →
    Grid.Inside cl.size.1 cl.size.2 p ∧ cl.picture p = cl.shown t.screen p

theorem InStep.upToDate {t : Server α} (h : t.InStep) : t.UpToDate := by
  intro cl hcl p hp hM hC hd
  refine ⟨?_, (h.clients cl hcl).shown p hp hM hC hd⟩
  cases hpending : cl.newFBSizePending with
  | false => rwa [(h.sized cl hcl).told hpending]
  | true => exact absurd (((h.sized cl hcl).whole hpending).2 p hp) hM

theorem inStep_start {s : ScreenInfo α} (hw : s.width < 2 ^ 16) (hh : s.height < 2 ^ 16) :
    InStep ⟨s, []⟩ :=
  ⟨hw, hh, fun _ hcl => (List.not_mem_nil hcl).elim, fun _ hcl => (List.not_mem_nil hcl).elim⟩

theorem inStep_of_run {s : ScreenInfo α} (hw : s.width < 2 ^ 16) (hh : s.height < 2 ^ 16)
    {l : List (Op α)} (hl : Along step (fun t op => op.Valid t) ⟨s, []⟩ l) {t : Server α}
    (ht : run step ⟨s, []⟩ l = some t) : t.InStep :=
  run_of_along (fun _ _ _ h hop hu => h.step hop hu) (inStep_start hw hh) hl ht

end Server

theorem clipRequest_zero {w n : ℕ} (hn : n < 2 ^ 16) (hw : n ≤ w) :
    ClientRec.clipRequest 0 w n = some n := by
  unfold ClientRec.clipRequest
  dsimp only
  by_cases hlt : (n : ℤ) - (0 : ℕ) < w
  · have hmod : (((n : ℤ) - (0 : ℕ)) % 2 ^ 16).toNat = n := by omega
    rw [if_pos hlt, hmod, if_neg (by omega)]
  · rw [if_neg hlt, if_neg hlt, show w = n by omega]

theorem ClientRec.requestRegion_zero {s : ScreenInfo α} (hw : s.width < 2 ^ 16)
    (hh : s.height < 2 ^ 16) {w h : UInt16} (hw' : s.width ≤ w.toNat) (hh' : s.height ≤ h.toNat)
    {p : ℤ × ℤ} (hp : Grid.Inside s.width s.height p) :
    ∃ r, requestRegion s 0 0 w h = some r ∧ p ∈ r := by
  refine ⟨.createRect (0 : ℕ) (0 : ℕ) ((0 : ℕ) + s.width) ((0 : ℕ) + s.height) (by omega)
    (by omega), ?_, ?_⟩
  · have hx : clipRequest (0 : UInt16).toNat w.toNat s.width = some s.width :=
      clipRequest_zero hw hw'
    have hy : clipRequest (0 : UInt16).toNat h.toNat s.height = some s.height :=
      clipRequest_zero hh hh'
    unfold requestRegion
    rw [hx, hy]
    rfl
  · obtain ⟨⟨hx, hx'⟩, hy, hy'⟩ := hp
    rw [Rgn.mem_createRect]
    omega

/-- A request for all of the screen asks for every pixel of it. -/
theorem ClientRec.mem_requestedRegion {s : ScreenInfo α} (cl : ClientRec α)
    (hw : s.width < 2 ^ 16) (hh : s.height < 2 ^ 16) {w h : UInt16} (hw' : s.width ≤ w.toNat)
    (hh' : s.height ≤ h.toNat) (incremental : Bool) {p : ℤ × ℤ}
    (hp : Grid.Inside s.width s.height p) :
    p ∈ (cl.requestUpdate s incremental 0 0 w h).requestedRegion ∧
      (cl.requestUpdate s incremental 0 0 w h).useNewFBSize = cl.useNewFBSize ∧
      (cl.requestUpdate s incremental 0 0 w h).newFBSizePending = cl.newFBSizePending := by
  obtain ⟨r, hr, hpr⟩ := requestRegion_zero hw hh hw' hh' hp
  unfold requestUpdate
  rw [hr]
  dsimp only
  split_ifs <;> exact ⟨Rgn.mem_or.mpr (.inr hpr), rfl, rfl⟩

/-- Where no copy is pending an update has none. -/
theorem ClientRec.updateCopyRegion_of_create (cl : ClientRec α) (h : cl.copyRegion = .create) :
    cl.dropModified.updateCopyRegion = .create := by
  simp [updateCopyRegion, dropModified, h]

/-- A screen of 8 by 8 pixels with a cursor of one. -/
def smallScreen : ScreenInfo ℕ where
  width := 8
  height := 8
  frameBuffer _ := 0
  cursor := ⟨0, 0, 1, 1, fun _ _ => 9⟩
  cursorX := 3
  cursorY := 3
  maxRectsPerUpdate := 50
  dontConvertRichCursorToXCursor := false

end DroidVnc.Rfb
