import DroidVnc.Screen.Client

/-! The state of the daemon that the screen path works on, and the operations on
it other than the screen copy: start-up, rotation, and the coming, going and
serving of clients. -/

namespace DroidVnc

/-- The settings of `main` that the screen path reads. -/
structure Options where
  rotation : ℕ
  scaling : ℤ
  displayRotate180 : Bool
  deriving DecidableEq, Repr

/-- The globals of the daemon, with `screenformat` as a parameter: it is set
before the server starts and stays. -/
structure Daemon (fmt : ScreenFormat) where
  vncbuf : Mem fmt.Pixel
  cmpbuf : Mem fmt.Pixel
  idle : Bool
  screen : Screen
  scaling : ℤ
  displayRotate180 : Bool
  scrinfo : FbVarScreeninfo
  clients : List (Client fmt.Pixel)

namespace Daemon

variable {fmt : ScreenFormat}

/-- The daemon when the server has started, `scrinfo` being what the grabber's
initialisation has left. -/
def started (fmt : ScreenFormat) (o : Options) (scrinfo : FbVarScreeninfo) : Daemon fmt where
  vncbuf := fun _ => 0
  cmpbuf := fun _ => 0
  idle := false
  screen := Screen.init fmt o.rotation
  scaling := o.scaling
  displayRotate180 := o.displayRotate180
  scrinfo := scrinfo
  clients := []

/-- `initVncServer`. The element count of the two `calloc`s is an `int` product;
the allocations are taken to succeed. A depth without an `update_screen` ends the
process. No client is there to see the whole screen being marked. -/
def initVncServer (fmt : ScreenFormat) (o : Options) (scrinfo : FbVarScreeninfo) :
    Option (Daemon fmt) :=
  (intMul fmt.sw fmt.sh).bind fun _ =>
    if fmt.Supported then some (started fmt o scrinfo) else none

def markRectAsModified (x1 y1 x2 y2 : ℤ) (d : Daemon fmt) : Daemon fmt :=
  { d with clients := d.clients.map (Client.mark (markedRegion d.screen x1 y1 x2 y2)) }

def rotate (value : ℤ) (d : Daemon fmt) : Daemon fmt :=
  let clients := if d.screen.Swaps value then
      d.clients.map fun cl => { cl with newFBSizePending := true }
    else d.clients
  let d := { d with screen := d.screen.rotate fmt value, clients := clients }
  d.markRectAsModified 0 0 d.screen.width d.screen.height

/-- `(int)(n*scaling/100.0)`: a product below `2 ^ 53` divided as a `double`
and cut off is the integer quotient. -/
def scaled (scaling n : ℤ) : ℤ := n * scaling / 100

/-- `rfbScalingSetup(cl, w, h)`: `rfbScalingFind` includes the screen itself. -/
def scalingSetup (s : Screen) (w h : ℤ) {α : Type} (cl : Client α) : Client α :=
  { cl with
    scaledScreen := if s.width = w ∧ s.height = h then .screen else .copy w h
    newFBSizePending := true }

/-- A client as `rfbNewTCPOrUDPClient` sets it up; it shows `picture`. -/
def newClient (s : Screen) {α : Type} (picture : ℤ × ℤ → α) : Client α where
  modifiedRegion := Region.rect 0 0 s.width s.height
  newFBSizePending := false
  useNewFBSize := false
  enableCursorShapeUpdates := false
  scaledScreen := .screen
  picture := picture
  told := (s.width, s.height)
  enabledNewFBSize := false

/-- `clientHook`, the part on the screen. -/
def clientHook (d : Daemon fmt) (cl : Client fmt.Pixel) : Client fmt.Pixel :=
  if d.scaling ≠ 100 then
    scalingSetup d.screen (scaled d.scaling d.screen.width) (scaled d.scaling d.screen.height) cl
  else cl

/-- A client connects and is put at the head of the list. -/
def connect (picture : ℤ × ℤ → fmt.Pixel) (d : Daemon fmt) : Daemon fmt :=
  { d with clients := d.clientHook (newClient d.screen picture) :: d.clients }

def disconnect (c : ℕ) (d : Daemon fmt) : Daemon fmt :=
  { d with clients := d.clients.eraseIdx c }

def setEncodings (c : ℕ) (newFBSize cursorShapes : Bool) (d : Daemon fmt) : Daemon fmt :=
  { d with clients := d.clients.modify c (Client.setEncodings d.screen newFBSize cursorShapes) }

/-- The value of screen pixel `p`: rows of `vncscr->width` in `vncbuf`. -/
def shown (d : Daemon fmt) (p : ℤ × ℤ) : fmt.Pixel := d.vncbuf (Grid.index d.screen.width p)

/-- An update of what client number `c` has requested is sent to it. `background` is the
white of the cursor in the server's pixel format. -/
def send (c : ℕ) (requested : Region) (background : fmt.Pixel) (d : Daemon fmt) : Daemon fmt :=
  { d with
    clients :=
      d.clients.modify c (Client.serve d.screen (Rfb.myCursor background) requested d.shown) }

/-! ### What the operations do -/

theorem initVncServer_eq_some {o : Options} {scrinfo : FbVarScreeninfo} {d : Daemon fmt} :
    initVncServer fmt o scrinfo = some d ↔
      fmt.sw * fmt.sh < 2 ^ 31 ∧ fmt.Supported ∧ started fmt o scrinfo = d := by
  unfold initVncServer
  by_cases ha : fmt.sw * fmt.sh < 2 ^ 31
  · rw [intMul_of_lt fmt.area_nonneg ha, Option.bind_some]
    split_ifs with hf
    · exact ⟨fun h => ⟨ha, hf, Option.some.inj h⟩, fun h => congrArg some h.2.2⟩
    · exact ⟨fun h => absurd h (by simp), fun h => absurd h.2.1 hf⟩
  · rw [intMul_of_le (by omega), Option.bind_none]
    exact ⟨fun h => absurd h (by simp), fun h => absurd h.1 ha⟩

@[simp] theorem rotate_screen (value : ℤ) (d : Daemon fmt) :
    (d.rotate value).screen = d.screen.rotate fmt value := rfl

def turnedClient (value : ℤ) (d : Daemon fmt) (cl : Client fmt.Pixel) : Client fmt.Pixel :=
  Client.mark (markedRegion (d.rotate value).screen 0 0 (d.rotate value).screen.width
      (d.rotate value).screen.height)
    (if d.screen.Swaps value then { cl with newFBSizePending := true } else cl)

theorem rotate_clients (value : ℤ) (d : Daemon fmt) :
    (d.rotate value).clients = d.clients.map (d.turnedClient value) := by
  unfold rotate turnedClient markRectAsModified
  split_ifs with hs
  · simp only [List.map_map]
    rfl
  · rfl

section TurnedClient

variable (value : ℤ) (d : Daemon fmt) (cl : Client fmt.Pixel)

@[simp] theorem turnedClient_modifiedRegion :
    (d.turnedClient value cl).modifiedRegion = cl.modifiedRegion ∪
      markedRegion (d.screen.rotate fmt value) 0 0 (d.screen.rotate fmt value).width
        (d.screen.rotate fmt value).height := by
  unfold turnedClient; split_ifs <;> rfl

@[simp] theorem turnedClient_told : (d.turnedClient value cl).told = cl.told := by
  unfold turnedClient; split_ifs <;> rfl

@[simp] theorem turnedClient_scaledScreen :
    (d.turnedClient value cl).scaledScreen = cl.scaledScreen := by
  unfold turnedClient; split_ifs <;> rfl

@[simp] theorem turnedClient_enabledNewFBSize :
    (d.turnedClient value cl).enabledNewFBSize = cl.enabledNewFBSize := by
  unfold turnedClient; split_ifs <;> rfl

end TurnedClient

theorem mem_modify {α : Type} {l : List α} {c : ℕ} {f : α → α} {x : α} (h : x ∈ l.modify c f) :
    x ∈ l ∨ ∃ y ∈ l, x = f y := by
  induction l generalizing c with
  | nil => simp at h
  | cons a l ih =>
    cases c with
    | zero =>
      rcases List.mem_cons.mp h with rfl | hx
      · exact Or.inr ⟨a, by simp, rfl⟩
      · exact Or.inl (by simp [hx])
    | succ c =>
      rcases List.mem_cons.mp h with rfl | hx
      · exact Or.inl (by simp)
      · rcases ih hx with hx | ⟨y, hy, rfl⟩
        · exact Or.inl (by simp [hx])
        · exact Or.inr ⟨y, by simp [hy], rfl⟩

end Daemon

end DroidVnc
