import DroidVnc.Lib.Resource

/-! The gralloc library. Its functions acquire and release two devices and a buffer of
the graphics HAL; on every error the library closes itself. What the HAL calls come to
is given from outside; the trace says what the library does with what it acquires. -/

namespace DroidVnc.Grabber.Gralloc

open Resource

/-- What the HAL hands out. The lock is that on the buffer. -/
inductive Hal
  | fbdev
  | allocdev
  | buf
  | lock
  deriving DecidableEq

abbrev Trace := List (Event Hal)

/-- The globals of the library: which of them are not null. -/
structure Globals where
  fbdev : Bool := false
  allocdev : Bool := false
  buf : Bool := false
  data : Bool := false

/-- What the calls of `init_gralloc` come to: success, except that `hasRead` says whether
`fbdev->read` is there, `data` what `lock` returns for the pixels, and `format` whether
`fill_format` knows the format. -/
structure InitOutcome where
  hwGetModule : Bool
  framebufferOpen : Bool
  hasRead : Bool
  grallocOpen : Bool
  alloc : Bool
  read : Bool
  lock : Bool
  data : Bool
  format : Bool

def closeGralloc (g : Globals) : Trace :=
  (if g.buf then [.use .allocdev, .release .buf] else []) ++
    (if g.allocdev then [.release .allocdev] else []) ++
    if g.fbdev then [.release .fbdev] else []

/-- The library after `init_gralloc`: its globals, what it did, and the return value. -/
structure Initialised where
  globals : Globals
  trace : Trace
  rv : ℤ

/-- An error: everything is closed. -/
def checkRv (g : Globals) (t : Trace) (rv : ℤ) : Initialised := ⟨g, t ++ closeGralloc g, rv⟩

def initGralloc (o : InitOutcome) : Initialised :=
  if !o.hwGetModule then checkRv {} [] (-1)
  else if !o.framebufferOpen then checkRv {} [] (-1)
  else
    let g : Globals := { fbdev := true }
    let t : Trace := [.acquire .fbdev, .use .fbdev]
    -- ENOTSUP
    if !o.hasRead then checkRv g t (-95)
    else if !o.grallocOpen then checkRv g t (-1)
    else
      -- the result of `alloc` is overwritten by that of `read`
      let g := { g with allocdev := true, buf := o.alloc }
      let t := t ++ [.acquire .allocdev, .use .fbdev, .use .allocdev] ++
        (if o.alloc then [.acquire .buf] else []) ++ [.use .fbdev, .use .buf]
      if !o.read then checkRv g t (-1)
      else if !o.lock then checkRv g (t ++ [.use .buf, .use .fbdev]) (-1)
      else
        let g := { g with data := o.data }
        let t := t ++ [.use .buf, .use .fbdev, .acquire .lock, .use .fbdev]
        if !o.format then checkRv g t (-1)
        else ⟨g, t ++ if o.data then [.use .buf, .release .lock] else [], 0⟩

structure ReadOutcome where
  read : Bool
  lock : Bool
  data : Bool

/-- The library after `readfb_gralloc`: its globals, what it did, and whether it returns
pixels. -/
structure Frame where
  globals : Globals
  trace : Trace
  pixels : Bool

def readfbGralloc (g : Globals) (o : ReadOutcome) : Frame :=
  let t : Trace := [.use .fbdev, .use .buf]
  if !o.read then ⟨g, t ++ closeGralloc g, false⟩
  else
    let t := t ++ [.use .buf, .use .fbdev]
    if !o.lock then ⟨g, t ++ closeGralloc g, false⟩
    else ⟨{ g with data := o.data },
      t ++ [.acquire .lock] ++ if o.data then [.use .buf, .release .lock] else [], o.data⟩

inductive Call
  | read (o : ReadOutcome)
  | close

/-- The traces of later calls; `update_screen` uses the pixels that a read returns. -/
def calls : Globals → List Call → Trace
  | _, [] => []
  | g, .close :: l => closeGralloc g ++ calls g l
  | g, .read o :: l =>
    let frame := readfbGralloc g o
    frame.trace ++ (if frame.pixels then [.use .buf, .use .lock] else []) ++ calls frame.globals l

def trace (o : InitOutcome) (l : List Call) : Trace :=
  (initGralloc o).trace ++ calls (initGralloc o).globals l

/-! ### The protocol of the resources -/

def InitOutcome.Acquires (o : InitOutcome) : Prop := o.hwGetModule ∧ o.framebufferOpen

def InitOutcome.Reaches (o : InitOutcome) : Prop := o.Acquires ∧ o.hasRead ∧ o.grallocOpen

/-- Nothing fails that is checked. -/
def InitOutcome.Succeeds (o : InitOutcome) : Prop := o.Reaches ∧ o.read ∧ o.lock ∧ o.format

/-- No read returns pixels, and nothing is called after a read that fails or a close. -/
def CallsFollow : List Call → Prop
  | [] => True
  | .close :: l => l = []
  | .read o :: l => if o.read ∧ o.lock then o.data = false ∧ CallsFollow l else l = []

/-- Moreover `alloc` succeeds when it is reached; after an initialisation that fails
nothing is called, or only closes if it acquired nothing. -/
def Follows (o : InitOutcome) (l : List Call) : Prop :=
  (o.Reaches → o.alloc) ∧ (¬ o.Acquires → ∀ c ∈ l, c = .close) ∧
    (o.Acquires → ¬ o.Succeeds → l = []) ∧ (o.Succeeds → CallsFollow l)

/-- A read begins with the use of the framebuffer device. -/
theorem exists_readfbGralloc (g : Globals) (o : ReadOutcome) :
    ∃ t, (readfbGralloc g o).trace = .use .fbdev :: t := by
  unfold readfbGralloc
  split_ifs <;> exact ⟨_, rfl⟩

theorem not_proper_read {held : Finset Hal} (h : .fbdev ∉ held) (g : Globals) (o : ReadOutcome)
    (l : List Call) : ¬ Proper held (calls g (.read o :: l)) := by
  obtain ⟨t, ht⟩ := exists_readfbGralloc g o
  rw [calls, ht]
  exact not_proper_use h

/-- After everything has been closed, with its pointers left, every call is one too many. -/
theorem proper_calls_closed {held : Finset Hal} {g : Globals} (hfb : .fbdev ∉ held)
    (halloc : .allocdev ∉ held) (hg : g.fbdev = true) (l : List Call) :
    Proper held (calls g l) ↔ l = [] := by
  cases l with
  | nil => exact iff_of_true trivial rfl
  | cons c l =>
    refine iff_of_false (fun hp => ?_) (List.cons_ne_nil c l)
    cases c with
    | read o => exact not_proper_read hfb g o l hp
    | close =>
      rw [calls, proper_append] at hp
      have hclose := hp.1
      unfold closeGralloc at hclose
      cases hb : g.buf <;> cases ha : g.allocdev <;> simp_all [Proper]

theorem proper_calls_blank (l : List Call) :
    Proper ∅ (calls {} l) ↔ ∀ c ∈ l, c = .close := by
  induction l with
  | nil => simp [calls, Proper]
  | cons c l ih =>
    cases c with
    | close => simpa [calls, closeGralloc] using ih
    | read o => exact iff_of_false (not_proper_read (by simp) _ o l) (by simp)

theorem proper_closeGralloc {held : Finset Hal} {g : Globals}
    (h : .fbdev ∈ held ∧ .allocdev ∈ held ∧ .buf ∈ held) (hg : g.fbdev ∧ g.allocdev ∧ g.buf) :
    Proper held (closeGralloc g) ∧ .fbdev ∉ after held (closeGralloc g) ∧
      .allocdev ∉ after held (closeGralloc g) := by
  simp [closeGralloc, hg, Proper, after, h]

/-- With everything open, the calls follow the protocol exactly when no read returns
pixels and nothing follows what closes everything. -/
theorem proper_calls_open {held : Finset Hal} {g : Globals}
    (h : .fbdev ∈ held ∧ .allocdev ∈ held ∧ .buf ∈ held) (hg : g.fbdev ∧ g.allocdev ∧ g.buf)
    (l : List Call) : Proper held (calls g l) ↔ CallsFollow l := by
  induction l generalizing held g with
  | nil => exact iff_of_true trivial trivial
  | cons c l ih =>
    obtain ⟨hclose, hfb, halloc⟩ := proper_closeGralloc h hg
    cases c with
    | close =>
      rw [calls, proper_append, proper_calls_closed hfb halloc hg.1, CallsFollow]
      exact and_iff_right hclose
    | read o =>
      rw [calls, CallsFollow, readfbGralloc]
      have hclosed := proper_calls_closed hfb halloc hg.1 l
      cases hr : o.read with
      | false => simp [proper_append, Proper, h, hclose, hclosed]
      | true =>
        cases hl : o.lock with
        | false => simp [proper_append, Proper, h, hclose, hclosed]
        | true =>
          cases hd : o.data with
          | true => simp [Proper, h]
          | false =>
            have hlock : .fbdev ∈ insert Hal.lock held ∧ .allocdev ∈ insert Hal.lock held ∧
                .buf ∈ insert Hal.lock held := by simp [h]
            have hrest := ih hlock (g := { g with data := false }) hg
            simpa [Proper, h] using hrest

/-- Over any outcome of the initialisation and any later calls, every resource is used
and released only while it is held, exactly when the calls follow the protocol. -/
theorem proper_trace_iff (o : InitOutcome) (l : List Call) :
    Proper ∅ (trace o l) ↔ Follows o l := by
  unfold trace Follows initGralloc InitOutcome.Succeeds InitOutcome.Reaches InitOutcome.Acquires
  by_cases hm : o.hwGetModule <;> by_cases hopen : o.framebufferOpen
  · by_cases hread : o.hasRead
    · by_cases halloc : o.grallocOpen
      · simp only [hm, hopen, hread, halloc, Bool.not_true, Bool.false_eq_true, if_false]
        cases ha : o.alloc with
        | false =>
          -- whatever follows, the framebuffer has been read into a buffer that is not there
          cases o.read <;> cases o.lock <;> cases o.format <;>
            simp [checkRv, Proper]
        | true =>
          cases hr : o.read with
          | false => simp [checkRv, closeGralloc, Proper, proper_calls_closed]
          | true =>
            cases hl : o.lock with
            | false => simp [checkRv, closeGralloc, Proper, proper_calls_closed]
            | true =>
              cases hf : o.format with
              | false => simp [checkRv, closeGralloc, Proper, proper_calls_closed]
              | true =>
                cases hd : o.data with
                | false => simp [Proper, proper_calls_open]
                | true => simp [Proper, proper_calls_open]
      · simp [hm, hopen, hread, halloc, checkRv, closeGralloc, Proper, proper_calls_closed]
    · simp [hm, hopen, hread, checkRv, closeGralloc, Proper, proper_calls_closed]
  · simp [hm, hopen, checkRv, closeGralloc, proper_calls_blank]
  · simp [hm, hopen, checkRv, closeGralloc, proper_calls_blank]
  · simp [hm, hopen, checkRv, closeGralloc, proper_calls_blank]

/-- A device on which everything works: the first frame is read after its buffer has been
unlocked. -/
theorem not_proper_frame :
    ¬ Proper ∅ (trace ⟨true, true, true, true, true, true, true, true, true⟩
      [.read ⟨true, true, true⟩]) := by
  simp [trace, initGralloc, calls, readfbGralloc, Proper]

end DroidVnc.Grabber.Gralloc
