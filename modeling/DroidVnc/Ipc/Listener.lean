import DroidVnc.Ipc.Control
import DroidVnc.Lib.Utf8

/-! The datagrams for the user interface. `SocketListener.run` decodes the whole
receive buffer, cuts the text at the number of bytes received and compares its start
with the tags. An exception other than an `IOException` ends the listener thread;
here it is the missing result of a call of `substring`. -/

namespace DroidVnc.Ipc

/-- A platform charset, as far as it agrees with ASCII. -/
structure Charset where
  decode : List UInt8 → List UInt16
  ascii : ∀ l, Utf8.Ascii l → decode l = Utf8.widen l

def utf8 : Charset := ⟨Utf8.decode, fun _ => Utf8.decode_ascii⟩

def substring (s : List UInt16) (beginIndex endIndex : ℕ) : Option (List UInt16) :=
  if beginIndex ≤ endIndex ∧ endIndex ≤ s.length then
    some ((s.take endIndex).drop beginIndex)
  else none

inductive Action
  | setText (text : List UInt16)
  | showTextOnScreen (text : List UInt16)
  | activityUpdate
  | showClientConnected (c : List UInt16)
  | showClientDisconnected
  | log (resp : List UInt16)
  | nothing
  deriving DecidableEq, Repr

namespace SocketListener

/-- The length of the packet's array. -/
def PACKET_SIZE : ℕ := 1024

/-- What `server.receive` keeps of a datagram. -/
def content (datagram : List UInt8) : List UInt8 := datagram.take PACKET_SIZE

def getLength (datagram : List UInt8) : ℕ := (content datagram).length

/-- `answer.getData()`: the received bytes, and zeros up to the end of the array. -/
def getData (datagram : List UInt8) : List UInt8 :=
  content datagram ++ List.replicate (PACKET_SIZE - getLength datagram) 0

/-- `resp`, cut at the number of bytes. -/
def received (charset : Charset) (datagram : List UInt8) : Option (List UInt16) :=
  substring (charset.decode (getData datagram)) 0 (getLength datagram)

/-- `resp.length() > min && resp.substring(0, n).equals(tag)`, where `n` is the
length of the tag. -/
def tagged (min : ℕ) (tag : String) (resp : List UInt16) : Option Bool :=
  if min < resp.length then
    (substring resp 0 (chars tag).length).map fun s => s = chars tag
  else some false

/-- `resp.substring(n, resp.length() - 1)`. -/
def payload (n : ℕ) (resp : List UInt16) : Option (List UInt16) :=
  substring resp n (resp.length - 1)

/-- The chain of tests, under the preference `notifyclient`. -/
def dispatch (notifyclient : Bool) (resp : List UInt16) : Option Action := do
  if ← tagged 5 "~CLIP|" resp then
    return .setText (← payload 7 resp)
  if ← tagged 6 "~SHOW|" resp then
    return .showTextOnScreen (← payload 6 resp)
  if (← tagged 15 "~SERVERSTARTED|" resp) || (← tagged 15 "~SERVERSTOPPED|" resp) then
    return .activityUpdate
  if notifyclient then
    if ← tagged 10 "~CONNECTED|" resp then
      return .showClientConnected (← payload 11 resp)
    if ← tagged 13 "~DISCONNECTED|" resp then
      return .showClientDisconnected
    return .nothing
  return .log resp

def receive (charset : Charset) (notifyclient : Bool) (datagram : List UInt8) : Option Action :=
  (received charset datagram).bind (dispatch notifyclient)

/-- The loop, on the datagrams it receives and the preference at each of them. -/
def run (charset : Charset) : List (Bool × List UInt8) → Option (List Action)
  | [] => some []
  | (notifyclient, datagram) :: l =>
    (receive charset notifyclient datagram).bind fun a => (run charset l).map fun r => a :: r

/-- A test with a tag, as a whole. -/
def Tagged (min : ℕ) (tag : String) (resp : List UInt16) : Prop :=
  min < resp.length ∧ chars tag <+: resp

instance (min : ℕ) (tag : String) (resp : List UInt16) : Decidable (Tagged min tag resp) := by
  unfold Tagged
  infer_instance

theorem substring_zero (s : List UInt16) (n : ℕ) :
    substring s 0 n = if n ≤ s.length then some (s.take n) else none := by
  simp [substring]

/-- A tag is never longer than the text its test is made on. -/
theorem tagged_eq {min : ℕ} {tag : String} (h : (chars tag).length ≤ min + 1)
    (resp : List UInt16) : tagged min tag resp = some (decide (Tagged min tag resp)) := by
  unfold tagged Tagged
  split_ifs with hlen
  · rw [substring_zero, if_pos (by omega), Option.map_some]
    simp only [hlen, true_and, List.prefix_iff_eq_take, eq_comm]
  · simp [hlen]

/-- The chain of tests with the exceptions that are left, those of the payloads. -/
theorem dispatch_eq (notifyclient : Bool) (resp : List UInt16) :
    dispatch notifyclient resp =
      if Tagged 5 "~CLIP|" resp then (payload 7 resp).map .setText
      else if Tagged 6 "~SHOW|" resp then (payload 6 resp).map .showTextOnScreen
      else if Tagged 15 "~SERVERSTARTED|" resp ∨ Tagged 15 "~SERVERSTOPPED|" resp then
        some .activityUpdate
      else if notifyclient then
        if Tagged 10 "~CONNECTED|" resp then (payload 11 resp).map .showClientConnected
        else if Tagged 13 "~DISCONNECTED|" resp then some .showClientDisconnected
        else some .nothing
      else some (.log resp) := by
  unfold dispatch
  rw [tagged_eq (by decide), tagged_eq (by decide), tagged_eq (by decide), tagged_eq (by decide),
    tagged_eq (by decide), tagged_eq (by decide)]
  simp only [Option.bind_eq_bind, Option.bind_some, Option.pure_def, decide_eq_true_eq,
    Bool.or_eq_true, Option.map_eq_bind, Function.comp_def]

theorem payload_isSome_iff (n : ℕ) (resp : List UInt16) :
    (payload n resp).isSome ↔ n ≤ resp.length - 1 := by
  unfold payload substring
  split_ifs with h
  · simpa using h.1
  · simp only [Option.isSome_none, Bool.false_eq_true, false_iff]
    omega

/-- Only a clip shorter than its tag and two line ends, and a bare connection tag,
ask for a payload that is not there. -/
theorem dispatch_isSome_iff (notifyclient : Bool) (resp : List UInt16) :
    (dispatch notifyclient resp).isSome ↔
      ¬ (chars "~CLIP|" <+: resp ∧ resp.length ≤ 7) ∧
        ¬ (notifyclient ∧ resp = chars "~CONNECTED|") := by
  by_cases hbare : resp = chars "~CONNECTED|"
  · subst hbare
    cases notifyclient <;> decide
  · have hconn : Tagged 10 "~CONNECTED|" resp → 11 ≤ resp.length - 1 := by
      rintro ⟨_, hstart⟩
      by_contra hlen
      have hle : resp.length ≤ (chars "~CONNECTED|").length := by
        change resp.length ≤ 11
        omega
      exact hbare (hstart.eq_of_length_le hle).symm
    have hshow : Tagged 6 "~SHOW|" resp → 6 ≤ resp.length - 1 := fun h => Nat.le_sub_one_of_lt h.1
    simp only [hbare, and_false, not_false_eq_true, and_true]
    rw [dispatch_eq]
    by_cases hclip : chars "~CLIP|" <+: resp
    · have hlen : 6 ≤ resp.length := hclip.length_le
      rw [if_pos ⟨by omega, hclip⟩, Option.isSome_map, payload_isSome_iff]
      simp only [hclip, true_and]
      omega
    · rw [if_neg fun h => hclip h.2]
      simp only [hclip, false_and, not_false_eq_true, iff_true]
      split_ifs with h₁ _ _ h₂
      · rw [Option.isSome_map, payload_isSome_iff]
        exact hshow h₁
      · rfl
      · rw [Option.isSome_map, payload_isSome_iff]
        exact hconn h₂
      all_goals rfl

/-! ### Surviving a datagram -/

theorem received_eq (charset : Charset) (datagram : List UInt8) :
    received charset datagram =
      if getLength datagram ≤ (charset.decode (getData datagram)).length then
        some ((charset.decode (getData datagram)).take (getLength datagram))
      else none :=
  substring_zero _ _

/-- For any charset, the turn of the loop ends without an exception exactly when the
buffer has as many characters as the datagram has bytes, and the text is not one of
the two kinds of messages that are too short. -/
theorem receive_isSome_iff (charset : Charset) (notifyclient : Bool) (datagram : List UInt8) :
    (receive charset notifyclient datagram).isSome ↔
      getLength datagram ≤ (charset.decode (getData datagram)).length ∧
        ¬ (chars "~CLIP|" <+: (charset.decode (getData datagram)).take (getLength datagram) ∧
          getLength datagram ≤ 7) ∧
        ¬ (notifyclient ∧ (charset.decode (getData datagram)).take (getLength datagram) =
          chars "~CONNECTED|") := by
  rw [receive, received_eq]
  split_ifs with hlen
  · rw [Option.bind_some, dispatch_isSome_iff, List.length_take_of_le hlen]
    simp only [hlen, true_and]
  · simp [hlen]

theorem length_decode_getData (datagram : List UInt8) :
    (Utf8.decode (getData datagram)).length =
      (Utf8.decode (content datagram)).length + (PACKET_SIZE - getLength datagram) := by
  have hzeros : Utf8.Ascii (List.replicate (PACKET_SIZE - getLength datagram) 0) :=
    Utf8.ascii_replicate (by decide) _
  rw [getData, Utf8.decode_append hzeros, List.length_append, Utf8.widen, List.length_map,
    List.length_replicate]

/-- A tag stands at the start of the text exactly when it starts the datagram. -/
theorem prefix_received_iff {tag : String} (ht : Utf8.Ascii (bytes tag)) (datagram : List UInt8) :
    chars tag <+: (Utf8.decode (getData datagram)).take (getLength datagram) ↔
      bytes tag <+: content datagram := by
  have hlen : (chars tag).length = (bytes tag).length := by simp [chars, Utf8.widen]
  rw [List.prefix_take_iff, chars, Utf8.prefix_decode_iff ht, ← chars, hlen]
  constructor
  · rintro ⟨hstart, hle⟩
    exact List.prefix_of_prefix_length_le hstart (List.prefix_append _ _) hle
  · intro hstart
    exact ⟨hstart.trans (List.prefix_append _ _), hstart.length_le⟩

theorem received_eq_chars_iff {tag : String} (ht : Utf8.Ascii (bytes tag)) {datagram : List UInt8}
    (hlen : getLength datagram ≤ (Utf8.decode (getData datagram)).length) :
    (Utf8.decode (getData datagram)).take (getLength datagram) = chars tag ↔
      content datagram = bytes tag := by
  have htag : (chars tag).length = (bytes tag).length := by simp [chars, Utf8.widen]
  have htake := List.length_take_of_le hlen
  constructor
  · intro h
    have hstart := (prefix_received_iff ht datagram).mp (h ▸ List.prefix_rfl)
    refine (hstart.eq_of_length ?_).symm
    rw [← htag, ← h, htake, getLength]
  · intro h
    have hstart := (prefix_received_iff ht datagram).mpr (h ▸ List.prefix_rfl)
    refine (hstart.eq_of_length ?_).symm
    rw [htag, htake, getLength, h]

/-- The buffer behind the datagram makes up for the characters of several bytes in it;
it is not the start of a clip, with at most one character after the tag; and it is not
a bare connection tag, unless nobody is to be notified. -/
def Survives (notifyclient : Bool) (datagram : List UInt8) : Prop :=
  getLength datagram ≤
      (Utf8.decode (content datagram)).length + (PACKET_SIZE - getLength datagram) ∧
    ¬ (bytes "~CLIP|" <+: content datagram ∧ getLength datagram ≤ 7) ∧
    ¬ (notifyclient ∧ content datagram = bytes "~CONNECTED|")

theorem receive_utf8_isSome_iff (notifyclient : Bool) (datagram : List UInt8) :
    (receive utf8 notifyclient datagram).isSome ↔ Survives notifyclient datagram := by
  rw [receive_isSome_iff, Survives, ← length_decode_getData]
  change _ ≤ (Utf8.decode (getData datagram)).length ∧ _ ↔ _
  refine and_congr_right fun hlen => ?_
  have hclip : Utf8.Ascii (bytes "~CLIP|") := by decide
  have hconn : Utf8.Ascii (bytes "~CONNECTED|") := by decide
  exact and_congr (not_congr (and_congr_left' (prefix_received_iff hclip datagram)))
    (not_congr (and_congr_right' (received_eq_chars_iff hconn hlen)))

/-- The listener comes through a sequence of datagrams, under any preferences, exactly
when it survives each of them. -/
theorem run_isSome_iff (l : List (Bool × List UInt8)) :
    (run utf8 l).isSome ↔ ∀ p ∈ l, Survives p.1 p.2 := by
  induction l with
  | nil => simp [run]
  | cons p l ih =>
    rw [List.forall_mem_cons, ← ih, ← receive_utf8_isSome_iff, run]
    cases receive utf8 p.1 p.2 <;> simp

/-- A clip that ends behind its tag. -/
theorem not_run_clip : run utf8 [(true, bytes "~CLIP|")] = none := by
  have hdies : ¬ Survives true (bytes "~CLIP|") := fun h => h.2.1 (by decide)
  rw [run, Option.not_isSome_iff_eq_none.mp (mt (receive_utf8_isSome_iff _ _).mp hdies)]
  rfl

end SocketListener

end DroidVnc.Ipc
