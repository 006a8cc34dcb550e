import DroidVnc.Screen.Run

/-! What a rotation does to the clients. `rotate` exchanges width and height under
clients whose pending region, told size and scaled screen were made for the old
ones, and changes none of the three. For each of them there is an invariant that
every other call keeps; a rotation keeps it exactly on a condition on the clients
at that moment. -/

namespace DroidVnc

open Transition

namespace Daemon

variable {fmt : ScreenFormat} {d e : Daemon fmt}

/-! ### Invariants of every client -/

/-- `Q` holds of every client, for the screen as it is. -/
def EachClient (Q : Screen → Client fmt.Pixel → Prop) (d : Daemon fmt) : Prop :=
  ∀ cl ∈ d.clients, Q d.screen cl

theorem eachClient_rotate {Q : Screen → Client fmt.Pixel → Prop} {value : ℤ} :
    (d.rotate value).EachClient Q ↔
      ∀ cl ∈ d.clients, Q (d.screen.rotate fmt value) (d.turnedClient value cl) := by
  simp [EachClient, rotate_clients]

/-- A property of clients that only the rotation can break: it holds of new
clients and is kept by an encoding choice, a send and a mark on the screen. -/
structure Kept (Q : Screen → Client fmt.Pixel → Prop) (d : Daemon fmt) : Prop where
  connect : ∀ picture, Q d.screen (d.clientHook (newClient d.screen picture))
  setFlags : ∀ b shapes cl, Q d.screen cl → Q d.screen (cl.setFlags b shapes)
  send : ∀ r pixel cl, Q d.screen cl → Q d.screen (cl.send r pixel)
  mark : ∀ r cl, r ⊆ Region.rect 0 0 d.screen.width d.screen.height →
    Q d.screen cl → Q d.screen (cl.mark r)

theorem eachClient_modify {Q : Screen → Client fmt.Pixel → Prop}
    {f : Client fmt.Pixel → Client fmt.Pixel} (hf : ∀ cl, Q d.screen cl → Q d.screen (f cl))
    (h : d.EachClient Q) (c : ℕ) :
    EachClient Q { d with clients := d.clients.modify c f } := by
  intro cl hcl
  cases mem_modify hcl with
  | inl hcl => exact h cl hcl
  | inr hcl =>
    obtain ⟨old, hold, rfl⟩ := hcl
    exact hf old (h old hold)

theorem Kept.setEncodings {Q : Screen → Client fmt.Pixel → Prop} (hQ : d.Kept Q)
    (newFBSize cursorShapes : Bool) {cl : Client fmt.Pixel} (h : Q d.screen cl) :
    Q d.screen (cl.setEncodings d.screen newFBSize cursorShapes) := by
  have hflags := hQ.setFlags newFBSize cursorShapes cl h
  unfold Client.setEncodings
  dsimp only
  split_ifs
  · exact hQ.mark _ _ (markedRegion_subset _ _ _ _ _) hflags
  · exact hflags

/-- Every call but `rotate` keeps such a property. -/
theorem eachClient_step {Q : Screen → Client fmt.Pixel → Prop} (hQ : d.Kept Q)
    (h : d.EachClient Q) {op : Op fmt} (hop : ∀ value, op ≠ .rotate value)
    (hstep : d.step op = some e) : e.EachClient Q := by
  cases op with
  | connect picture =>
    obtain rfl := Option.some.inj hstep
    exact List.forall_mem_cons.mpr ⟨hQ.connect picture, h⟩
  | disconnect c =>
    obtain rfl := Option.some.inj hstep
    exact fun cl hcl => h cl (List.mem_of_mem_eraseIdx hcl)
  | setEncodings c b shapes =>
    obtain rfl := Option.some.inj hstep
    exact eachClient_modify (fun _ => hQ.setEncodings b shapes) h c
  | send c r background =>
    obtain rfl := Option.some.inj hstep
    exact eachClient_modify (fun cl => hQ.send r (cl.painted d.screen _ d.shown) cl) h c
  | rotate value => exact absurd rfl (hop value)
  | updateScreen g =>
    intro cl hcl
    rw [(updateScreen_frame hstep).1]
    obtain ⟨old, hold, ⟨rfl, -⟩ | ⟨rfl, -⟩⟩ := mem_updateScreen_clients hstep hcl
    · exact h cl hold
    · exact hQ.mark _ old (markedRegion_subset _ _ _ _ _) (h old hold)

/-- A condition on rotations that exchange width and height; no other call has one. -/
def OnSwap (G : Daemon fmt → Prop) (d : Daemon fmt) : Op fmt → Prop
  | .rotate value => d.screen.Swaps value → G d
  | _ => True

/-- Width and height after a rotation that exchanges them. -/
theorem rotate_size_of_swaps {value : ℤ} (hs : d.screen.Swaps value) :
    (d.screen.rotate fmt value).width = d.screen.height ∧
      (d.screen.rotate fmt value).height = d.screen.width := by
  obtain ⟨hw, hh, -⟩ := Screen.rotate_dims fmt d.screen value
  exact ⟨hw.trans (if_pos hs), hh.trans (if_pos hs)⟩

theorem rotate_size_of_not_swaps {value : ℤ} (hs : ¬ d.screen.Swaps value) :
    (d.screen.rotate fmt value).width = d.screen.width ∧
      (d.screen.rotate fmt value).height = d.screen.height := by
  obtain ⟨hw, hh, -⟩ := Screen.rotate_dims fmt d.screen value
  exact ⟨hw.trans (if_neg hs), hh.trans (if_neg hs)⟩

theorem eachClient_connect {Q : Screen → Client fmt.Pixel → Prop} (hQ : d.Kept Q)
    (hnil : d.clients = []) (picture : ℤ × ℤ → fmt.Pixel) : (d.connect picture).EachClient Q := by
  have hempty : d.EachClient Q := fun _ hcl => by simp [hnil] at hcl
  have hstep : d.step (.connect picture) = some (d.connect picture) := rfl
  exact eachClient_step hQ hempty (by simp) hstep

theorem not_always_connect_rotate {P : Daemon fmt → Prop} {picture : ℤ × ℤ → fmt.Pixel} {value : ℤ}
    (h : ¬ P ((d.connect picture).rotate value)) :
    ¬ Always step P d [.connect picture, .rotate value] :=
  fun hall => h ((hall.2 _ rfl).2 _ rfl).head

/-- Where a rotation without the exchange keeps an invariant of the clients, a
rotation with it keeps the invariant on the condition `G`, and one that misses
`G` ends without `P`, the runs that stay in `P` are those that meet `G`. -/
theorem always_iff_along_onSwap {K P G : Daemon fmt → Prop}
    {Q : Screen → Client fmt.Pixel → Prop}
    (hK : ∀ d op e, op.Valid → K d → d.step op = some e → K e)
    (hQ : ∀ d, K d → d.Kept Q)
    (hP : ∀ d, K d → d.EachClient Q → P d)
    (good : ∀ d value, K d → d.EachClient Q → d.OnSwap G (.rotate value) →
      (d.rotate value).EachClient Q)
    (bad : ∀ d value, K d → d.EachClient Q → d.screen.Swaps value → ¬ G d →
      ¬ P (d.rotate value))
    {d0 : Daemon fmt} {l : List (Op fmt)} (hl : ∀ op ∈ l, op.Valid) (h0 : K d0)
    (hempty : d0.clients = []) : Always step P d0 l ↔ Along step (OnSwap G) d0 l := by
  refine always_iff_along (J := fun d => K d ∧ d.EachClient Q) (fun d hJ => hP d hJ.1 hJ.2)
    ?_ ?_ hl ⟨h0, fun cl hcl => by simp [hempty] at hcl⟩
  · intro d op e hop hJ hG hstep
    refine ⟨hK d op e hop hJ.1 hstep, ?_⟩
    cases op with
    | rotate value =>
      obtain rfl := Option.some.inj hstep
      exact good d value hJ.1 hJ.2 hG
    | _ => exact eachClient_step (hQ d hJ.1) hJ.2 (by simp) hstep
  · intro d op _ hJ hG
    cases op with
    | rotate value =>
      obtain ⟨hs, hG⟩ := Classical.not_imp.mp hG
      exact ⟨_, rfl, bad d value hJ.1 hJ.2 hs hG⟩
    | _ => exact absurd trivial hG

/-! ### Pending regions stay on the screen -/

def RegionInside (s : Screen) (cl : Client fmt.Pixel) : Prop :=
  cl.modifiedRegion ⊆ Region.rect 0 0 s.width s.height

/-- The pending region of every client lies on the screen. -/
def PendingOnScreen (d : Daemon fmt) : Prop := d.EachClient RegionInside

/-- Every pending region lies on the screen that the exchange leads to, too. -/
def PendingOnTurned (d : Daemon fmt) : Prop :=
  ∀ cl ∈ d.clients, cl.modifiedRegion ⊆ Region.rect 0 0 d.screen.height d.screen.width

theorem clientHook_modifiedRegion (d : Daemon fmt) (cl : Client fmt.Pixel) :
    (d.clientHook cl).modifiedRegion = cl.modifiedRegion := by
  unfold clientHook; split_ifs <;> rfl

theorem kept_regionInside (d : Daemon fmt) : d.Kept RegionInside where
  connect _ := by rw [RegionInside, clientHook_modifiedRegion]; exact Finset.Subset.refl _
  setFlags _ _ _ h := h
  send r pixel cl h := (Client.send_modifiedRegion_subset r pixel cl).trans h
  mark _ _ hr h := Finset.union_subset h hr

theorem pendingOnScreen_rotate {value : ℤ} (h : d.PendingOnScreen) :
    (d.rotate value).PendingOnScreen ↔ d.OnSwap PendingOnTurned (.rotate value) := by
  simp only [PendingOnScreen, eachClient_rotate, RegionInside, turnedClient_modifiedRegion,
    Finset.union_subset_iff, markedRegion_subset, and_true, OnSwap]
  by_cases hs : d.screen.Swaps value
  · obtain ⟨hw, hh⟩ := rotate_size_of_swaps hs
    simp only [hw, hh, hs, forall_const, PendingOnTurned]
  · obtain ⟨hw, hh⟩ := rotate_size_of_not_swaps hs
    simp only [hw, hh, hs, false_imp_iff, iff_true]
    exact h

/-- In every run of the daemon the pending regions stay on the screen exactly when
each rotation that exchanges width and height finds them on the new screen. -/
theorem pendingOnScreen_run (fmt : ScreenFormat) {o : Options} {scrinfo : FbVarScreeninfo}
    {d0 : Daemon fmt} (h0 : initVncServer fmt o scrinfo = some d0) {l : List (Op fmt)}
    (hl : ∀ op ∈ l, op.Valid) :
    Always step PendingOnScreen d0 l ↔ Along step (OnSwap PendingOnTurned) d0 l := by
  obtain ⟨-, -, rfl⟩ := initVncServer_eq_some.mp h0
  refine always_iff_along_onSwap (K := fun _ => True) (fun _ _ _ _ _ _ => trivial)
    (fun d _ => kept_regionInside d) (fun _ _ h => h) ?_ ?_ hl trivial rfl
  · intro d value _ h hG
    exact (pendingOnScreen_rotate h).mpr hG
  · intro d value _ h hs hG hP
    exact hG ((pendingOnScreen_rotate h).mp hP hs)

theorem pendingOnScreen_portrait :
    Always step PendingOnScreen (portrait 0 100) [.connect blank, .rotate 180] := by
  refine (pendingOnScreen_run _ (initVncServer_portrait 0 100)
    (by simp [Op.Valid, Screen.RotateArg])).mpr
    ⟨trivial, fun d hd => ⟨fun hs => ?_, fun _ _ => trivial⟩⟩
  obtain rfl := Option.some.inj hd
  simp [Screen.Swaps, connect, portrait, started, Screen.init] at hs

/-- A quarter turn under a client that has been sent nothing yet. -/
theorem not_pendingOnScreen_portrait :
    ¬ Always step PendingOnScreen (portrait 0 100) [.connect blank, .rotate (-1)] := by
  have hon := eachClient_connect (kept_regionInside (portrait 0 100)) rfl blank
  apply not_always_connect_rotate
  intro hP
  have hturned := (pendingOnScreen_rotate hon).mp hP (Or.inl rfl)
  have hsub := hturned _ List.mem_cons_self
  have hsize := (Region.rect_swap_subset_iff (w := 800) (h := 480) (by decide) (by decide)).mp hsub
  exact absurd hsize (by decide)

/-! ### Clients that cannot resize -/

/-- A client that never enabled NewFBSize has nothing pending outside the screen
it was told. -/
def PendingOnTold (d : Daemon fmt) : Prop :=
  d.EachClient fun _ cl => cl.enabledNewFBSize = false →
    cl.modifiedRegion ⊆ Region.rect 0 0 cl.told.1 cl.told.2

/-- The exchange changes nothing, or every client has enabled NewFBSize. -/
def ExchangeHarmless (d : Daemon fmt) : Prop :=
  (d.screen.width = d.screen.height ∨ d.screen.width = 0 ∨ d.screen.height = 0) ∨
    ∀ cl ∈ d.clients, cl.enabledNewFBSize = true

/-- The invariant behind `PendingOnTold`: the screen is still the one the client
was told, unless it has no pixels. -/
def StillAsTold (s : Screen) (cl : Client fmt.Pixel) : Prop :=
  cl.enabledNewFBSize = false →
    cl.modifiedRegion ⊆ Region.rect 0 0 s.width s.height ∧
      (cl.told = (s.width, s.height) ∨ s.width = 0 ∨ s.height = 0)

theorem kept_stillAsTold (d : Daemon fmt) : d.Kept StillAsTold where
  connect picture := by
    intro _
    refine ⟨(clientHook_modifiedRegion d _).subset, Or.inl ?_⟩
    unfold clientHook; split_ifs <;> rfl
  setFlags b _ cl h henc := h (Bool.or_eq_false_iff.mp henc).1
  send r pixel cl h henc := by
    rw [Client.send_enabledNewFBSize] at henc
    rw [Client.send_told]
    exact ⟨(Client.send_modifiedRegion_subset r pixel cl).trans (h henc).1, (h henc).2⟩
  mark r cl hr h henc := ⟨Finset.union_subset (h henc).1 hr, (h henc).2⟩

theorem pendingOnTold_of_stillAsTold (h : d.EachClient StillAsTold) : d.PendingOnTold := by
  intro cl hcl henc
  obtain ⟨hsub, htold | hzero⟩ := h cl hcl henc
  · rwa [htold]
  · intro p hp
    have hin := Region.mem_rect.mp (hsub hp)
    omega

theorem stillAsTold_rotate {value : ℤ} (h : d.EachClient StillAsTold)
    (hG : d.OnSwap ExchangeHarmless (.rotate value)) :
    (d.rotate value).EachClient StillAsTold := by
  rw [eachClient_rotate]
  intro cl hcl henc
  rw [turnedClient_enabledNewFBSize] at henc
  obtain ⟨hsub, htold⟩ := h cl hcl henc
  rw [turnedClient_modifiedRegion, turnedClient_told, Finset.union_subset_iff,
    and_iff_left (markedRegion_subset _ _ _ _ _)]
  by_cases hs : d.screen.Swaps value
  · obtain ⟨hw, hh⟩ := rotate_size_of_swaps hs
    rw [hw, hh]
    cases hG hs with
    | inl hsize =>
      refine ⟨fun p hp => ?_, ?_⟩
      · have hin := hsub hp
        rw [Region.mem_rect] at hin ⊢
        omega
      · rcases hsize with heq | hzero
        · rwa [heq] at htold ⊢
        · exact Or.inr hzero.symm
    | inr hall => exact absurd (hall cl hcl) (by simp [henc])
  · obtain ⟨hw, hh⟩ := rotate_size_of_not_swaps hs
    rw [hw, hh]
    exact ⟨hsub, htold⟩

/-- The whole turned screen is marked for a client that still has the old one. -/
theorem not_pendingOnTold_rotate (hd : d.Sound) {value : ℤ} (h : d.EachClient StillAsTold)
    (hs : d.screen.Swaps value) (hG : ¬ d.ExchangeHarmless) : ¬ (d.rotate value).PendingOnTold := by
  intro hP
  obtain ⟨hsize, hall⟩ := not_or.mp hG
  obtain ⟨cl, hcl⟩ := not_forall.mp hall
  obtain ⟨hmem, henc⟩ := Classical.not_imp.mp hcl
  rw [Bool.not_eq_true] at henc
  have hsub := eachClient_rotate.mp hP cl hmem (by rwa [turnedClient_enabledNewFBSize])
  obtain ⟨hw, hh⟩ := rotate_size_of_swaps hs
  have htold : cl.told = (d.screen.width, d.screen.height) :=
    (h cl hmem henc).2.resolve_right (by tauto)
  have hfull := markedRegion_full (s := d.screen.rotate fmt value)
    (by rw [hw]; exact hd.fits.height_nonneg) (by rw [hh]; exact hd.fits.width_nonneg)
  rw [turnedClient_modifiedRegion, turnedClient_told, hfull, hw, hh, htold] at hsub
  exact hsize ((Region.rect_swap_subset_iff hd.fits.width_nonneg hd.fits.height_nonneg).mp
    (Finset.union_subset_right hsub))

/-- In every run without scaling a client that never enabled NewFBSize is spared
pixels outside its screen exactly when no rotation exchanges the sides of an
oblong screen under such a client. -/
theorem pendingOnTold_run (fmt : ScreenFormat) {rotation : ℕ} (hr : Upright rotation)
    {displayRotate180 : Bool} {scrinfo : FbVarScreeninfo} {d0 : Daemon fmt}
    (h0 : initVncServer fmt { rotation, scaling := 100, displayRotate180 } scrinfo = some d0)
    {l : List (Op fmt)} (hl : ∀ op ∈ l, op.Valid) :
    Always step PendingOnTold d0 l ↔ Along step (OnSwap ExchangeHarmless) d0 l := by
  obtain ⟨ha, hf, rfl⟩ := initVncServer_eq_some.mp h0
  refine always_iff_along_onSwap (K := Sound) (fun _ _ _ hv hK hs => sound_step hv hK hs)
    (fun d _ => kept_stillAsTold d) (fun _ _ h => pendingOnTold_of_stillAsTold h) ?_ ?_ hl
    (sound_started hf ha hr scrinfo) rfl
  · intro d value _ h hG
    exact stillAsTold_rotate h hG
  · intro d value hd h hs hG
    exact not_pendingOnTold_rotate hd h hs hG

/-- A client that enables NewFBSize follows a quarter turn. -/
theorem pendingOnTold_portrait :
    Always step PendingOnTold (portrait 0 100)
      [.connect blank, .setEncodings 0 true false, .rotate (-1)] := by
  refine (pendingOnTold_run _ (by decide) (initVncServer_portrait 0 100)
    (by simp [Op.Valid, Screen.RotateArg])).mpr
    ⟨trivial, fun d hd => ⟨trivial, fun e he => ⟨fun _ => Or.inr ?_, fun _ _ => trivial⟩⟩⟩
  obtain rfl := Option.some.inj hd
  obtain rfl := Option.some.inj he
  intro cl hcl
  obtain rfl := List.mem_singleton.mp hcl
  rfl

/-- One that does not is marked 800 columns of a screen of 480. -/
theorem not_pendingOnTold_portrait :
    ¬ Always step PendingOnTold (portrait 0 100) [.connect blank, .rotate (-1)] := by
  have hstarted : (portrait 0 100).Sound := sound_started (by decide) (by decide) (by decide) _
  have hstep : (portrait 0 100).step (.connect blank) = some (connect blank (portrait 0 100)) := rfl
  have hsound := sound_step (by trivial) hstarted hstep
  have htold := eachClient_connect (kept_stillAsTold (portrait 0 100)) rfl blank
  refine not_always_connect_rotate
    (not_pendingOnTold_rotate hsound htold (Or.inl rfl) fun hG => ?_)
  cases hG with
  | inl hsize =>
    simp [connect, portrait, started, Screen.init, ScreenFormat.sw, ScreenFormat.sh] at hsize
  | inr hall =>
    have henabled := hall _ List.mem_cons_self
    simp [clientHook, portrait, started, newClient] at henabled

/-! ### Scaled screens -/

/-- The scaled screen of every client has the size of the current screen, scaled. -/
def ScaledAsScreen (d : Daemon fmt) : Prop :=
  ∀ cl ∈ d.clients, cl.scaledScreen.size d.screen =
    (scaled d.scaling d.screen.width, scaled d.scaling d.screen.height)

/-- The exchange makes no difference to scaled screens: there are none, they are
square, or scaling leaves the size of the screen as it is. -/
def ScaledTurns (d : Daemon fmt) : Prop :=
  d.clients = [] ∨ scaled d.scaling d.screen.width = scaled d.scaling d.screen.height ∨
    (d.screen.width = scaled d.scaling d.screen.width ∧
      d.screen.height = scaled d.scaling d.screen.height)

/-- The invariant behind `ScaledAsScreen`: what `clientHook` would choose now. -/
def ScaledByHook (scaling : ℤ) (s : Screen) (cl : Client fmt.Pixel) : Prop :=
  cl.scaledScreen =
    if s.width = scaled scaling s.width ∧ s.height = scaled scaling s.height then .screen
    else .copy (scaled scaling s.width) (scaled scaling s.height)

theorem scaled_hundred (n : ℤ) : scaled 100 n = n := by unfold scaled; omega

theorem kept_scaledByHook (d : Daemon fmt) : d.Kept (ScaledByHook d.scaling) where
  connect _ := by
    unfold clientHook
    split_ifs with hs
    · rfl
    · rw [not_not.mp hs]
      simp [ScaledByHook, scaled_hundred, newClient]
  setFlags _ _ _ h := h
  send r pixel cl h := by rwa [ScaledByHook, Client.send_scaledScreen]
  mark _ _ _ h := h

theorem scaledAsScreen_of_hook (h : d.EachClient (ScaledByHook d.scaling)) :
    d.ScaledAsScreen := by
  intro cl hcl
  rw [h cl hcl]
  split_ifs with hsame
  · exact Prod.ext hsame.1 hsame.2
  · rfl

theorem scaledByHook_rotate {value : ℤ} (h : d.EachClient (ScaledByHook d.scaling))
    (hG : d.OnSwap ScaledTurns (.rotate value)) :
    (d.rotate value).EachClient (ScaledByHook d.scaling) := by
  rw [eachClient_rotate]
  intro cl hcl
  rw [ScaledByHook, turnedClient_scaledScreen, h cl hcl]
  by_cases hs : d.screen.Swaps value
  · obtain ⟨hw, hh⟩ := rotate_size_of_swaps hs
    rw [hw, hh]
    by_cases hsame : d.screen.width = scaled d.scaling d.screen.width ∧
        d.screen.height = scaled d.scaling d.screen.height
    · rw [if_pos hsame, if_pos hsame.symm]
    · rw [if_neg hsame, if_neg fun h => hsame h.symm]
      rcases hG hs with hnil | hsquare | h
      · simp [hnil] at hcl
      · rw [hsquare]
      · exact absurd h hsame
  · obtain ⟨hw, hh⟩ := rotate_size_of_not_swaps hs
    rw [hw, hh]

/-- A copy keeps its size where the screen exchanges its own. -/
theorem not_scaledAsScreen_rotate {value : ℤ} (h : d.EachClient (ScaledByHook d.scaling))
    (hs : d.screen.Swaps value) (hG : ¬ d.ScaledTurns) : ¬ (d.rotate value).ScaledAsScreen := by
  intro hP
  obtain ⟨hne, hsquare, hsame⟩ := not_or.mp hG |>.imp_right not_or.mp
  obtain ⟨cl, hcl⟩ := List.exists_mem_of_ne_nil _ hne
  have hsize := hP (d.turnedClient value cl) (by
    rw [rotate_clients]
    exact List.mem_map_of_mem hcl)
  have hcopy := h cl hcl
  rw [ScaledByHook, if_neg hsame] at hcopy
  obtain ⟨hw, hh⟩ := rotate_size_of_swaps hs
  rw [turnedClient_scaledScreen, hcopy, rotate_screen, hw, hh] at hsize
  exact hsquare (congrArg Prod.fst hsize)

/-- In every run the scaled screens follow the screen exactly when no rotation
exchanges width and height under a client whose copy tells them apart. -/
theorem scaledAsScreen_run (fmt : ScreenFormat) {o : Options} {scrinfo : FbVarScreeninfo}
    {d0 : Daemon fmt} (h0 : initVncServer fmt o scrinfo = some d0) {l : List (Op fmt)}
    (hl : ∀ op ∈ l, op.Valid) :
    Always step ScaledAsScreen d0 l ↔ Along step (OnSwap ScaledTurns) d0 l := by
  obtain ⟨-, -, rfl⟩ := initVncServer_eq_some.mp h0
  refine always_iff_along_onSwap (K := fun d => d.scaling = o.scaling)
    (Q := ScaledByHook o.scaling) (fun _ _ _ _ hK hs => (settings_step hs).1.trans hK)
    (fun d hK => hK ▸ kept_scaledByHook d) ?_ ?_ ?_ hl rfl rfl
  · intro d hK h
    exact scaledAsScreen_of_hook (hK ▸ h)
  · intro d value hK h hG
    rw [← hK] at h ⊢
    exact scaledByHook_rotate h hG
  · intro d value hK h hs hG
    rw [← hK] at h
    exact not_scaledAsScreen_rotate h hs hG

theorem scaledAsScreen_portrait :
    Always step ScaledAsScreen (portrait 0 50) [.rotate 90, .connect blank] := by
  refine (scaledAsScreen_run _ (initVncServer_portrait 0 50)
    (by simp [Op.Valid, Screen.RotateArg])).mpr
    ⟨fun _ => Or.inl rfl, fun _ _ => ⟨trivial, fun _ _ => trivial⟩⟩

/-- A client at half the size keeps 240 by 400 pixels when the screen has turned. -/
theorem not_scaledAsScreen_portrait :
    ¬ Always step ScaledAsScreen (portrait 0 50) [.connect blank, .rotate 90] := by
  have hhook := eachClient_connect (kept_scaledByHook (portrait 0 50)) rfl blank
  refine not_always_connect_rotate (not_scaledAsScreen_rotate hhook (Or.inr (Or.inl ?_)) ?_)
  · exact ⟨Or.inl rfl, Or.inl rfl⟩
  · simp [ScaledTurns, scaled, connect, portrait, started, Screen.init, ScreenFormat.sw,
      ScreenFormat.sh]

end Daemon

end DroidVnc
