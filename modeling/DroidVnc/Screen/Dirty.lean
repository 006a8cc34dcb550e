import DroidVnc.Screen.Image

/-! The rectangle that `update_screen` hands to `rfbMarkRectAsModified`. In the
loops for 0 and 90 degrees the extent covers the places of the changed pixels.
The loop for 180 degrees enters rows one too far down and the padding that would
make up for it is applied to the columns twice; the loop for 270 degrees enters
rows that are not mirrored. Where the changes are handed over, no client is left with
a stale pixel that is not pending; but one that takes no cursor shapes has the cursor
where the screen has something else. -/

namespace DroidVnc

namespace Daemon

variable {fmt : ScreenFormat} {d e : Daemon fmt} {g : Grab fmt.Pixel}

/-- The condition under which the handed rectangle covers the changed pixels: at
180 degrees there are none, and at 270 degrees the mirror image of each changed
column lies between two changed columns. -/
def TracksChanges (g : Grab fmt.Pixel) (d : Daemon fmt) : Prop :=
  (d.scanned.rotation = 180 → d.changed g = []) ∧
    (d.scanned.rotation = 270 → ∀ p ∈ d.changed g,
      (∃ q ∈ d.changed g, q.1 ≤ fmt.sw - 1 - p.1) ∧ ∃ q ∈ d.changed g, fmt.sw - 1 - p.1 ≤ q.1)

/-! ### One call -/

def extent (g : Grab fmt.Pixel) (d : Daemon fmt) : Region.Extent := (d.scanResult g).2.1

theorem extent_eq (hs : d.scanned.Fits fmt) :
    d.extent g = Found.init.1.addAll ((d.changed g).map d.scanned.loopNest.mark) := by
  rw [extent, scanResult, Screen.scan_snd hs, changed]

theorem covers_mark (hs : d.scanned.Fits fmt) {p : ℤ × ℤ} (hp : p ∈ d.changed g) :
    (d.extent g).Covers (d.scanned.loopNest.mark p) := by
  rw [extent_eq hs]
  exact Region.Extent.covers_addAll (List.mem_map_of_mem hp)

theorem inside_of_mem_changed (hs : d.scanned.Fits fmt) {p : ℤ × ℤ} (hp : p ∈ d.changed g) :
    Grid.Inside fmt.sw fmt.sh p := (mem_sites hs).mp (Screen.mem_changed.mp hp).1

/-- A place of the screen is handed over when it lies in the padded extent. -/
theorem mem_handedRegion (hs : d.scanned.Fits fmt) (hc : d.changed g ≠ []) {q : ℤ × ℤ}
    (hq : Grid.Inside d.screen.width d.screen.height q) :
    q ∈ d.handedRegion g ↔
      ((d.extent g).minX - 2 ≤ q.1 ∧ q.1 ≤ (d.extent g).maxX) ∧
        (d.extent g).minY ≤ q.2 ∧ q.2 ≤ (d.extent g).maxY := by
  obtain ⟨p, hp⟩ := List.exists_mem_of_ne_nil _ hc
  obtain ⟨⟨hx1, hx2⟩, hy1, hy2⟩ := covers_mark hs hp
  have hx : (d.extent g).minX - 1 - 1 ≤ (d.extent g).maxX + 1 := by omega
  have hy : (d.extent g).minY ≤ (d.extent g).maxY + 1 := by omega
  rw [handedRegion, ← extent, mem_markedRegion hx hy, and_iff_left hq]
  omega

/-- No row of the extent is left at the sentinel when something has changed. -/
theorem exists_minY (hs : d.scanned.Fits fmt) (hy : (d.extent g).minY < 65536) :
    ∃ q ∈ d.changed g, (d.scanned.loopNest.mark q).2 = (d.extent g).minY := by
  rw [extent_eq hs] at hy ⊢
  rcases Region.Extent.minY_addAll Found.init.1 ((d.changed g).map d.scanned.loopNest.mark)
    with h | ⟨_, hm, h⟩
  · rw [h] at hy
    exact absurd hy (by decide)
  · obtain ⟨q, hq, rfl⟩ := List.mem_map.mp hm
    exact ⟨q, hq, h⟩

theorem exists_maxY (hs : d.scanned.Fits fmt) (hy : 0 ≤ (d.extent g).maxY) :
    ∃ q ∈ d.changed g, (d.scanned.loopNest.mark q).2 = (d.extent g).maxY := by
  rw [extent_eq hs] at hy ⊢
  rcases Region.Extent.maxY_addAll Found.init.1 ((d.changed g).map d.scanned.loopNest.mark)
    with h | ⟨_, hm, h⟩
  · rw [h] at hy
    exact absurd hy (by decide)
  · obtain ⟨q, hq, rfl⟩ := List.mem_map.mp hm
    exact ⟨q, hq, h⟩

def CoversPlaces (g : Grab fmt.Pixel) (d : Daemon fmt) : Prop :=
  ∀ p ∈ d.changed g, place d.scanned.rotation fmt.sw fmt.sh p ∈ d.handedRegion g

theorem mem_handedRegion_place (hs : d.scanned.Fits fmt) {p : ℤ × ℤ} (hp : p ∈ d.changed g) :
    place d.scanned.rotation fmt.sw fmt.sh p ∈ d.handedRegion g ↔
      ((d.extent g).minX - 2 ≤ (place d.scanned.rotation fmt.sw fmt.sh p).1 ∧
          (place d.scanned.rotation fmt.sw fmt.sh p).1 ≤ (d.extent g).maxX) ∧
        (d.extent g).minY ≤ (place d.scanned.rotation fmt.sw fmt.sh p).2 ∧
          (place d.scanned.rotation fmt.sw fmt.sh p).2 ≤ (d.extent g).maxY := by
  have hin := inside_place hs (inside_of_mem_changed hs hp)
  rw [scanned_width, scanned_height] at hin
  exact mem_handedRegion hs (List.ne_nil_of_mem hp) hin

theorem coversPlaces_zero (hs : d.scanned.Fits fmt) (hr : d.scanned.rotation = 0) :
    d.CoversPlaces g := by
  intro p hp
  rw [mem_handedRegion_place hs hp]
  have hcov := covers_mark hs hp
  simp [Screen.loopNest, hr, place, Region.Extent.Covers] at hcov ⊢
  omega

theorem coversPlaces_ninety (hs : d.scanned.Fits fmt) (hr : d.scanned.rotation = 90) :
    d.CoversPlaces g := by
  intro p hp
  rw [mem_handedRegion_place hs hp]
  have hcov := covers_mark hs hp
  have hdims := hs.dims.of_sideways (Or.inl hr)
  rw [scanned_width] at hdims
  simp [Screen.loopNest, hr, place, Region.Extent.Covers] at hcov ⊢
  omega

/-- At 180 degrees the first row handed over is the one below the topmost change. -/
theorem coversPlaces_half (hs : d.scanned.Fits fmt) (hr : d.scanned.rotation = 180) :
    d.CoversPlaces g ↔ d.changed g = [] := by
  constructor
  · intro hall
    by_contra hc
    obtain ⟨p, hp⟩ := List.exists_mem_of_ne_nil _ hc
    have hmark : ∀ q, (d.scanned.loopNest.mark q).2 = d.scanned.height - q.2 := by
      simp [Screen.loopNest, hr]
    have hplace : ∀ q, (place d.scanned.rotation fmt.sw fmt.sh q).2 = fmt.sh - 1 - q.2 := by
      simp [place, hr]
    have hdims := hs.dims.of_upright (Or.inr hr)
    have hfirst := ((mem_handedRegion_place hs hp).mp (hall p hp)).2.1
    obtain ⟨-, hj, -⟩ := inside_of_mem_changed hs hp
    have hsh := fmt.sh_lt
    rw [hplace] at hfirst
    obtain ⟨q, hq, hmin⟩ := exists_minY hs (g := g) (by omega)
    have htop := ((mem_handedRegion_place hs hq).mp (hall q hq)).2.1
    rw [hplace, ← hmin, hmark] at htop
    omega
  · intro hc p hp
    simp [hc] at hp

/-- At 270 degrees rows are handed over unmirrored. -/
theorem coversPlaces_threeQuarters (hs : d.scanned.Fits fmt) (hr : d.scanned.rotation = 270) :
    d.CoversPlaces g ↔ ∀ p ∈ d.changed g,
      (∃ q ∈ d.changed g, q.1 ≤ fmt.sw - 1 - p.1) ∧
        ∃ q ∈ d.changed g, fmt.sw - 1 - p.1 ≤ q.1 := by
  have hmark : ∀ q, d.scanned.loopNest.mark q = (q.2, q.1) := by simp [Screen.loopNest, hr]
  have hplace : ∀ q, place d.scanned.rotation fmt.sw fmt.sh q = (q.2, fmt.sw - 1 - q.1) := by
    simp [place, hr]
  constructor
  · intro hall p hp
    obtain ⟨-, hlo, hhi⟩ := (mem_handedRegion_place hs hp).mp (hall p hp)
    obtain ⟨⟨hi, hiw⟩, -⟩ := inside_of_mem_changed hs hp
    have hsw := fmt.sw_lt
    rw [hplace] at hlo hhi
    obtain ⟨q, hq, hmin⟩ := exists_minY hs (g := g) (by omega)
    obtain ⟨q', hq', hmax⟩ := exists_maxY hs (g := g) (by omega)
    rw [hmark] at hmin hmax
    exact ⟨⟨q, hq, by omega⟩, q', hq', by omega⟩
  · intro hall p hp
    obtain ⟨⟨q, hq, hlo⟩, q', hq', hhi⟩ := hall p hp
    have hcov := (covers_mark hs hp).1
    have hlow := (covers_mark hs hq).2.1
    have hhigh := (covers_mark hs hq').2.2
    rw [hmark] at hcov hlow hhigh
    rw [mem_handedRegion_place hs hp, hplace]
    omega

/-- What a call hands over covers the places of the changes exactly on the condition. -/
theorem coversPlaces_iff (hs : d.scanned.Fits fmt) : d.CoversPlaces g ↔ d.TracksChanges g := by
  unfold TracksChanges
  rcases hs.upright with hr | hr | hr | hr
  · simp [hr, coversPlaces_zero hs hr]
  · simp [hr, coversPlaces_ninety hs hr]
  · simp [hr, coversPlaces_half hs hr]
  · simp only [hr, coversPlaces_threeQuarters hs hr]
    simp

/-- Every pixel whose value the call changes is handed over. -/
def CoversChanges (g : Grab fmt.Pixel) (d e : Daemon fmt) : Prop :=
  ∀ p, Grid.Inside d.screen.width d.screen.height p → e.shown p ≠ d.shown p →
    p ∈ d.handedRegion g

/-- The pixels whose value a call changes are the places of the changed source pixels. -/
theorem shown_ne_iff (hd : d.Sound) (hs : d.scanned.Fits fmt) (h : d.updateScreen g = some e)
    {p : ℤ × ℤ} (hp : Grid.Inside fmt.sw fmt.sh p) :
    e.shown (place d.scanned.rotation fmt.sw fmt.sh p) ≠
        d.shown (place d.scanned.rotation fmt.sw fmt.sh p) ↔ p ∈ d.changed g := by
  have hnew : e.shown (place d.scanned.rotation fmt.sw fmt.sh p) = g.pixel fmt d.scrinfo p := by
    rw [shown, (updateScreen_frame h).1, (updateScreen_buffers hd h).2, ← scanned_width]
    exact Screen.scan_fst_place hs hp
  rw [hnew, changed, Screen.mem_changed, and_iff_right ((mem_sites hs).mpr hp), dest_eq_index hs,
    scanned_width, ← hd.buffers]
  exact ne_comm

theorem coversChanges_iff (hd : d.Sound) (h : d.updateScreen g = some e) :
    d.CoversChanges g e ↔ d.TracksChanges g := by
  rcases scanned_cases hd.fits with hs | hs
  · rw [← coversPlaces_iff hs]
    constructor
    · intro hall p hp
      have hin := inside_of_mem_changed hs hp
      have hplace := inside_place hs hin
      rw [scanned_width, scanned_height] at hplace
      exact hall _ hplace ((shown_ne_iff hd hs h hin).mpr hp)
    · intro hall q hq hne
      obtain ⟨p, hp, rfl⟩ := exists_place hs (q := q) (by rwa [scanned_width, scanned_height])
      exact hall p ((shown_ne_iff hd hs h hp).mp hne)
  · -- no loop runs: nothing changes and the condition is void
    have hc : d.changed g = [] := by simp [changed, Screen.changed, CompareStore.differing, hs]
    have hsame := updateScreen_of_sites_nil (g := g) hd.fits hs
    rw [h, Option.map_some, Option.some.injEq, Prod.mk.injEq] at hsame
    refine iff_of_true (fun p _ hne => ?_) ⟨fun _ => hc, fun _ p hp => by simp [hc] at hp⟩
    exact absurd (by rw [shown, shown, hsame.2, (updateScreen_frame h).1]) hne

/-! ### Runs -/

/-- Every pixel in which a client's picture differs from the screen is pending. -/
def NoStale (d : Daemon fmt) : Prop :=
  ∀ cl ∈ d.clients, ∀ p, Grid.Inside d.screen.width d.screen.height p →
    cl.picture p ≠ d.shown p → p ∈ cl.modifiedRegion

/-- Calls of `update_screen` are made on the condition of `coversChanges_iff`. -/
def TracksStep (d : Daemon fmt) : Op fmt → Prop
  | .updateScreen g => d.TracksChanges g
  | _ => True

/-- The white of the cursor is the same in all updates. -/
def Op.DrawnWith (background : fmt.Pixel) : Op fmt → Prop
  | .send _ _ white => white = background
  | _ => True

/-- The client takes no cursor shapes, and shows at `p` the cursor that was drawn for it. -/
def ShowsCursor (background : fmt.Pixel) (d : Daemon fmt) (cl : Client fmt.Pixel) (p : ℤ × ℤ) :
    Prop :=
  cl.enableCursorShapeUpdates = false ∧
    cl.picture p = (Rfb.myCursor background).showCursor d.screen.width d.screen.height 0 0 d.shown p

/-- Every pixel in which a client's picture differs from the screen is pending, or the
client shows the cursor there. -/
def NoStaleButCursor (background : fmt.Pixel) (d : Daemon fmt) : Prop :=
  ∀ cl ∈ d.clients, ∀ p, Grid.Inside d.screen.width d.screen.height p →
    cl.picture p ≠ d.shown p → p ∈ cl.modifiedRegion ∨ d.ShowsCursor background cl p

variable {background : fmt.Pixel}

theorem noStale_rotate (hd : d.Sound) {value : ℤ} (hv : Screen.RotateArg value) :
    (d.rotate value).NoStaleButCursor background := by
  intro cl hcl p hp _
  rw [rotate_clients] at hcl
  obtain ⟨old, -, rfl⟩ := List.mem_map.mp hcl
  have hfits := hd.fits.rotate hv
  rw [turnedClient_modifiedRegion, markedRegion_full hfits.width_nonneg hfits.height_nonneg]
  exact Or.inl (Finset.mem_union_right _ (Region.mem_rect.mpr hp))

/-- What a client shows of a pixel that stays as it was is as right as before. -/
theorem ShowsCursor.of_shown_eq {cl : Client fmt.Pixel} {p : ℤ × ℤ}
    (hs : e.screen = d.screen) (hp : e.shown p = d.shown p) (h : d.ShowsCursor background cl p) :
    e.ShowsCursor background cl p := by
  refine ⟨h.1, h.2.trans ?_⟩
  rw [hs]
  exact Rfb.RfbCursor.showCursor_congr hp.symm

theorem noStale_updateScreen (hd : d.Sound) (hn : d.NoStaleButCursor background)
    (hg : d.TracksChanges g) (h : d.updateScreen g = some e) :
    e.NoStaleButCursor background := by
  intro cl hcl p hp hne
  have hscreen := (updateScreen_frame h).1
  rw [hscreen] at hp
  have hcov := (coversChanges_iff hd h).mpr hg p hp
  obtain ⟨old, hold, ⟨rfl, hi⟩ | ⟨rfl, -⟩⟩ := mem_updateScreen_clients h hcl
  · have hv : e.vncbuf = d.vncbuf := by
      rw [(updateScreen_buffers hd h).2, scanResult_of_idle hd.fits hi, hd.buffers]
    have hsame : e.shown p = d.shown p := by rw [shown, shown, hv, hscreen]
    exact (hn cl hold p hp (hsame ▸ hne)).imp_right (ShowsCursor.of_shown_eq hscreen hsame)
  · by_cases hchange : e.shown p = d.shown p
    · rcases hn old hold p hp (hchange ▸ hne) with hpending | hcursor
      · exact Or.inl (Finset.mem_union_left _ hpending)
      · exact Or.inr (ShowsCursor.of_shown_eq hscreen hchange hcursor)
    · exact Or.inl (Finset.mem_union_right _ (hcov hchange))

/-- The cursor is drawn where `rfbRedrawAfterHideCursor` marks it. -/
theorem mem_cursorRegion {s : Screen} {p : ℤ × ℤ}
    (h : (Rfb.myCursor background).Covers s.width s.height 0 0 p) : p ∈ cursorRegion s := by
  obtain ⟨⟨hx, hy⟩, hin⟩ := h.bounds
  exact (mem_markedRegion (by decide) (by decide)).mpr ⟨hx, hy, hin⟩

/-- A choice of encodings leaves the picture, and marks the cursor if it is not drawn any more. -/
theorem noStale_setEncodings {old : Client fmt.Pixel} {newFBSize cursorShapes : Bool} {p : ℤ × ℤ}
    (h : p ∈ old.modifiedRegion ∨ d.ShowsCursor background old p)
    (hne : old.picture p ≠ d.shown p) :
    p ∈ (old.setEncodings d.screen newFBSize cursorShapes).modifiedRegion ∨
      d.ShowsCursor background (old.setEncodings d.screen newFBSize cursorShapes) p := by
  cases cursorShapes with
  | false => exact h.imp_right fun hc => ⟨rfl, hc.2⟩
  | true =>
    left
    rcases h with hpending | hc
    · exact Finset.mem_union_left _ hpending
    · rw [hc.2] at hne
      exact Finset.mem_union_right _
        (mem_cursorRegion (Rfb.RfbCursor.covers_of_showCursor_ne hne))

/-- What a client is sent is the screen, or the screen with the cursor. -/
theorem noStale_serve {old : Client fmt.Pixel} {requested : Region} {p : ℤ × ℤ}
    (h : old.picture p ≠ d.shown p → p ∈ old.modifiedRegion ∨ d.ShowsCursor background old p)
    (hne : (old.serve d.screen (Rfb.myCursor background) requested d.shown).picture p ≠ d.shown p) :
    p ∈ (old.serve d.screen (Rfb.myCursor background) requested d.shown).modifiedRegion ∨
      d.ShowsCursor background
        (old.serve d.screen (Rfb.myCursor background) requested d.shown) p := by
  rcases Client.send_picture requested
    (old.painted d.screen (Rfb.myCursor background) d.shown) old p
    with ⟨-, -, hsent⟩ | ⟨hiff, hsame⟩
  · have hflag : old.enableCursorShapeUpdates = false := by
      by_contra hshapes
      exact hne (hsent.trans (congrFun (if_pos (Bool.not_eq_false _ ▸ hshapes)) p))
    refine Or.inr ⟨(Client.send_enableCursorShapeUpdates ..).trans hflag, hsent.trans ?_⟩
    exact congrFun (if_neg (by simp [hflag])) p
  · rcases h fun heq => hne (hsame.trans heq) with hpending | hc
    · exact Or.inl (hiff.mpr hpending)
    · exact Or.inr ⟨(Client.send_enableCursorShapeUpdates ..).trans hc.1, hsame.trans hc.2⟩

theorem noStale_step {op : Op fmt} (hop : op.Valid ∧ op.DrawnWith background) (hd : d.Sound)
    (hn : d.NoStaleButCursor background) (hg : d.TracksStep op) (h : d.step op = some e) :
    e.NoStaleButCursor background := by
  cases op with
  | connect picture =>
    obtain rfl := Option.some.inj h
    intro cl hcl p hp hne
    rcases List.mem_cons.mp hcl with rfl | hcl
    · have hfull : (d.clientHook (newClient d.screen picture)).modifiedRegion =
          Region.rect 0 0 d.screen.width d.screen.height := by
        unfold clientHook; split_ifs <;> rfl
      rw [hfull]
      exact Or.inl (Region.mem_rect.mpr hp)
    · exact hn cl hcl p hp hne
  | disconnect c =>
    obtain rfl := Option.some.inj h
    exact fun cl hcl => hn cl (List.mem_of_mem_eraseIdx hcl)
  | setEncodings c b shapes =>
    obtain rfl := Option.some.inj h
    intro cl hcl p hp hne
    rcases mem_modify hcl with hcl | ⟨old, hold, rfl⟩
    · exact hn cl hcl p hp hne
    · have hpicture : (old.setEncodings d.screen b shapes).picture = old.picture := by
        cases shapes <;> rfl
      rw [hpicture] at hne
      exact noStale_setEncodings (hn old hold p hp hne) hne
  | send c requested white =>
    obtain rfl := Option.some.inj h
    obtain rfl : white = background := hop.2
    intro cl hcl p hp hne
    rcases mem_modify hcl with hcl | ⟨old, hold, rfl⟩
    · exact hn cl hcl p hp hne
    · exact noStale_serve (hn old hold p hp) hne
  | rotate value =>
    obtain rfl := Option.some.inj h
    exact noStale_rotate hd hop.1
  | updateScreen g => exact noStale_updateScreen hd hn hg h

/-- At 180 degrees the first frame changes a pixel that is not handed over. -/
theorem not_coversChanges_portrait :
    ∃ e, (portrait 180 100).updateScreen (.buffer fun _ => 1) = some e ∧
      ¬ (portrait 180 100).CoversChanges (.buffer fun _ => 1) e := by
  have hf : ScreenFormat.Supported ⟨480, 800, 16⟩ := by decide
  have hsound : (portrait 180 100).Sound := sound_started hf (by decide) (by decide) _
  obtain ⟨e, he⟩ := updateScreen_defined hsound (by decide) (.buffer fun _ => 1)
  refine ⟨e, he, (coversChanges_iff hsound he).not.mpr fun hg => ?_⟩
  have hscanned : (portrait 180 100).scanned = (portrait 180 100).screen := scanned_of_upright rfl
  have hc := hg.1 (by rw [hscanned]; rfl)
  rw [changed, hscanned] at hc
  have hm := (changed_eq_nil_iff hsound.fits).mp hc
  exact not_holdsFrame_ones hf (by decide) (by decide) _ _ hm

end Daemon

end DroidVnc
