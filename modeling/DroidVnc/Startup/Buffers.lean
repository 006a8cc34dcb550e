import DroidVnc.Ipc.Messages
import DroidVnc.Lib.Buffer
import DroidVnc.Startup.Grammar

/-! The string buffers of the daemon, and every byte that its own code writes to them.
The message for a client that connects always fits. `CutText` terminates the text of
a client one byte behind the end of its buffer. The copies of two options and the
message about a reverse connection fit when the strings of the command line are short
enough. -/

namespace DroidVnc.Startup

open TextBuffer

/-! ### The buffers -/

/-- The buffers of `CutText(str, len)`: `str`, of exactly `len` bytes, and `msg`. -/
def cutTextBuffers (str : List UInt8) : List (TextBuffer UInt8) :=
  let header := bytes "~CLIP|\n"
  let str' := CString.value str
  [(malloc str.length).put str.length,
    ((((malloc (str'.length + header.length + 2)).clear.strcat header).strcat str').strcat
      (bytes "\n"))]

/-- The buffer of `clientHook`, for the string `cl->host`. -/
def clientHookBuffers (host : List UInt8) : List (TextBuffer UInt8) :=
  let header := bytes "~CONNECTED|"
  let host := CString.value host
  [(((malloc (host.length + header.length + 2)).clear.strcat header).strcat host).strcat
    (bytes "\n")]

/-- `VNC_PASSWORD` or `framebuffer_device`, when the option copies to it. -/
def Taken.buffer : Taken → Option (TextBuffer UInt8)
  | set .p (some v) => some ((malloc 256).strcpy v)
  | set .f (some v) => some ((malloc 256).strcpy v)
  | _ => none

/-- The `str` of `main`, for the host of a reverse connection that failed. -/
def unreachableBuffer (rhost : List UInt8) : TextBuffer UInt8 :=
  (malloc 255).strcpy
    (bytes "~SHOW|Couldn't connect to remote host:\n" ++ rhost ++ bytes "\n")

def mainBuffers (args : List (List UInt8)) (connected : Bool) : List (TextBuffer UInt8) :=
  (taken args).filterMap Taken.buffer ++
    match optionLoop args {} with
    | .error _ => []
    | .ok c => if connected then [] else (c.rhost.map unreachableBuffer).toList

inductive Source
  | cutText (str : List UInt8)
  | client (host : List UInt8)
  | commandLine (args : List (List UInt8)) (connected : Bool)

def Source.buffers : Source → List (TextBuffer UInt8)
  | cutText str => cutTextBuffers str
  | client host => clientHookBuffers host
  | commandLine args connected => mainBuffers args connected

/-! ### Each of them -/

theorem not_inBounds_cutText (str : List UInt8) :
    ¬ ((malloc str.length : TextBuffer UInt8).put str.length).InBounds := by
  rw [inBounds_put]
  exact fun h => lt_irrefl _ h.2

/-- A message of a header, a string and a line feed needs two bytes more than the two. -/
theorem inBounds_message (header str : List UInt8) (c : UInt8) :
    ((((malloc (str.length + header.length + 2)).clear.strcat header).strcat str).strcat
      [c]).InBounds := by
  rw [inBounds_strcat, inBounds_strcat, inBounds_strcat, inBounds_clear]
  refine ⟨⟨⟨⟨inBounds_malloc _, ?_⟩, ?_⟩, ?_⟩, ?_⟩ <;>
    simp only [strcat, clear, malloc, List.length_append, List.length_nil,
      List.length_singleton] <;>
    omega

theorem inBounds_clientHook (host : List UInt8) :
    ∀ b ∈ clientHookBuffers host, b.InBounds := by
  intro b hb
  rw [List.mem_singleton.mp hb]
  exact inBounds_message _ _ _

/-- The rest of `CutText` is as it should be: its own message fits. -/
theorem inBounds_cutText_msg (str : List UInt8) :
    ∀ b ∈ (cutTextBuffers str).tail, b.InBounds := by
  intro b hb
  rw [List.mem_singleton.mp hb]
  exact inBounds_message _ _ _

theorem inBounds_option (t : Taken) : (∀ b ∈ t.buffer, b.InBounds) ↔ t.Fits := by
  have hcopy : ∀ v : List UInt8, ((malloc 256).strcpy v).InBounds ↔ v.length < 256 :=
    fun v => inBounds_strcpy.trans (and_iff_right (inBounds_malloc 256))
  cases t with
  | help => simp [Taken.buffer, Taken.Fits]
  | turn => simp [Taken.buffer, Taken.Fits]
  | set x value =>
    cases value with
    | none => cases x <;> simp [Taken.buffer, Taken.Fits]
    | some v =>
      cases x <;> simp [Taken.buffer, Taken.Fits, Setting.Fits, hcopy]

theorem inBounds_unreachable (rhost : List UInt8) :
    (unreachableBuffer rhost).InBounds ↔ rhost.length ≤ 214 := by
  have hlen : (bytes "~SHOW|Couldn't connect to remote host:\n").length = 39 := by decide
  have hfeed : (bytes "\n").length = 1 := by decide
  unfold unreachableBuffer
  rw [inBounds_strcpy, and_iff_right (inBounds_malloc _), List.length_append, List.length_append,
    hlen, hfeed]
  show 39 + rhost.length + 1 < 255 ↔ _
  omega

/-! What is put together is what is sent to the user interface. -/

theorem text_cutText (str : List UInt8) :
    ∀ b ∈ (cutTextBuffers str).tail, (Ipc.Message.cutText str).msg = some b.text := by
  intro b hb
  rw [List.mem_singleton.mp hb]
  rfl

theorem text_clientHook (host : List UInt8) :
    ∀ b ∈ clientHookBuffers host, (Ipc.Message.clientHook host).msg = some b.text := by
  intro b hb
  rw [List.mem_singleton.mp hb]
  rfl

theorem text_unreachable (rhost : List UInt8) :
    Ipc.Message.sprintfUnreachable rhost =
      if rhost.length ≤ 214 then some (unreachableBuffer rhost).text else none := by
  have hlen : (bytes "~SHOW|Couldn't connect to remote host:\n").length = 39 := by decide
  have hfeed : (bytes "\n").length = 1 := by decide
  unfold Ipc.Message.sprintfUnreachable
  simp only [List.length_append, hlen, hfeed]
  by_cases h : rhost.length ≤ 214
  · rw [if_pos h, if_pos (by omega)]
    rfl
  · rw [if_neg h, if_neg (by omega)]

/-! ### The command line -/

/-- The option neither ends the process nor lacks its argument. -/
def Taken.Complete : Taken → Prop
  | help => False
  | set _ none => False
  | _ => True

def Taken.host : Taken → Option (List UInt8)
  | set .R (some v) => some (hostOf v)
  | _ => none

/-- The hosts of the command line; the last one counts. -/
def hosts (l : List Taken) : List (List UInt8) := l.filterMap Taken.host

/-- Where all copies fit, the loop ends when every option is complete. -/
theorem runAll_defined_iff {l : List Taken} (hfits : ∀ t ∈ l, t.Fits) (c : Config) :
    (∃ c', runAll l c = .ok c') ↔ ∀ t ∈ l, t.Complete := by
  induction l generalizing c with
  | nil => exact iff_of_true ⟨c, rfl⟩ (by simp)
  | cons t l ih =>
    rw [List.forall_mem_cons] at hfits ⊢
    cases t with
    | help => exact iff_of_false (fun ⟨_, h⟩ => by cases h) fun h => h.1
    | turn => exact (ih hfits.2 _).trans (and_iff_right trivial).symm
    | set x value =>
      cases value with
      | none => exact iff_of_false (fun ⟨_, h⟩ => by cases h) fun h => h.1
      | some v =>
        have hx : x.Fits v := hfits.1
        rw [Taken.run_set_some, if_pos hx]
        exact (ih hfits.2 _).trans (and_iff_right trivial).symm

theorem rhost_assign (x : Setting) (v : List UInt8) (c : Config) :
    (x.assign v c).rhost = (Taken.host (.set x (some v))).or c.rhost := by
  cases x <;> simp only [Setting.assign, setRotation_eq, setMethod_eq,
    extractReverseHostPort_fields, setScaling, Taken.host, Option.none_or, Option.some_or]

theorem getLast?_filterMap_cons {α β : Type*} (f : α → Option β) (a : α) (l : List α)
    (o : Option β) :
    ((a :: l).filterMap f).getLast?.or o = (l.filterMap f).getLast?.or ((f a).or o) := by
  cases h : f a with
  | none => rw [List.filterMap_cons_none h, Option.none_or]
  | some b =>
    rw [List.filterMap_cons_some h, List.getLast?_cons, Option.some_or, Option.some_or]
    cases (l.filterMap f).getLast? <;> rfl

/-- The host of the globals is the last one named. -/
theorem rhost_of_runAll {l : List Taken} {c c' : Config} (h : runAll l c = .ok c') :
    c'.rhost = (hosts l).getLast?.or c.rhost := by
  induction l generalizing c with
  | nil =>
    cases h
    rfl
  | cons t l ih =>
    rw [hosts, getLast?_filterMap_cons, ← hosts]
    cases t with
    | help => cases h
    | turn =>
      have hrest : runAll l { c with displayRotate180 := true } = .ok c' := h
      have hlast := ih hrest
      exact hlast
    | set x value =>
      cases value with
      | none => cases h
      | some v =>
        rw [Taken.run_set_some] at h
        split_ifs at h
        · rw [ih h, rhost_assign]
        · exact absurd h bind_overrun_ne_ok

/-- The strings of the command line are short enough for their buffers. -/
def ShortEnough (args : List (List UInt8)) (connected : Bool) : Prop :=
  (∀ t ∈ taken args, t.Fits) ∧
    (connected = false → (∀ t ∈ taken args, t.Complete) →
      ∀ host ∈ (hosts (taken args)).getLast?, host.length ≤ 214)

theorem inBounds_mainBuffers (args : List (List UInt8)) (connected : Bool) :
    (∀ b ∈ mainBuffers args connected, b.InBounds) ↔ ShortEnough args connected := by
  have hcopies : (∀ b ∈ (taken args).filterMap Taken.buffer, b.InBounds) ↔
      ∀ t ∈ taken args, t.Fits := by
    simp only [List.mem_filterMap, ← inBounds_option, Option.mem_def]
    exact ⟨fun h t ht b hb => h b ⟨t, ht, hb⟩, fun h b ⟨t, ht, hb⟩ => h t ht b hb⟩
  unfold mainBuffers ShortEnough
  rw [List.forall_mem_append, hcopies]
  refine and_congr_right fun hfits => ?_
  rw [← runAll_defined_iff hfits {}, optionLoop_eq]
  cases hrun : runAll (taken args) {} with
  | error e => simp
  | ok c =>
    have hrhost : c.rhost = (hosts (taken args)).getLast? := by
      rw [rhost_of_runAll hrun]
      exact Option.or_none
    cases connected with
    | true => simp
    | false =>
      rw [← hrhost]
      simp [inBounds_unreachable]

/-! ### All of them -/

/-- When the strings stay in their buffers. -/
def Source.Harmless : Source → Prop
  | cutText _ => False
  | client _ => True
  | commandLine args connected => ShortEnough args connected

/-- Every byte goes inside its buffer exactly when it does not come from a client's cut
text, and what comes from the command line is short enough. -/
theorem buffers_inBounds_iff (s : Source) : (∀ b ∈ s.buffers, b.InBounds) ↔ s.Harmless := by
  cases s with
  | cutText str =>
    exact iff_of_false (fun h => not_inBounds_cutText str (h _ List.mem_cons_self)) id
  | client host => exact iff_of_true (inBounds_clientHook host) trivial
  | commandLine args connected => exact inBounds_mainBuffers args connected

/-- The cut text `a` is terminated at index 1 of its one byte. -/
theorem not_buffers_inBounds : ¬ ∀ s : Source, ∀ b ∈ s.buffers, b.InBounds := by
  intro h
  exact not_inBounds_cutText (bytes "a") (h (.cutText (bytes "a")) _ List.mem_cons_self)

end DroidVnc.Startup
