import DroidVnc.Ipc.Listener

/-! The messages of the daemon for the user interface. Each is built as a string and
sent without its terminator; the listener finds out by the tag what it is and cuts
the payload out of it. -/

namespace DroidVnc.Ipc

/-- The occasions for a message, with the strings that go into it. -/
inductive Message
  | clientHook (host : List UInt8)
  | clientGone
  | cutText (str : List UInt8)
  | showText (text : List UInt8)
  | unreachable (rhost : List UInt8)
  | serverStarted
  | serverStopped

namespace Message

/-- `sprintf` of the text about the reverse connection, into 255 bytes; there is no
result when it writes beyond them. -/
def sprintfUnreachable (rhost : List UInt8) : Option (List UInt8) :=
  let str := bytes "~SHOW|Couldn't connect to remote host:\n" ++ rhost ++ bytes "\n"
  if str.length + 1 ≤ 255 then some str else none

def msg : Message → Option (List UInt8)
  | clientHook host => some (bytes "~CONNECTED|" ++ CString.value host ++ bytes "\n")
  | clientGone => some (bytes "~DISCONNECTED|\n")
  | cutText str => some (bytes "~CLIP|\n" ++ CString.value str ++ bytes "\n")
  | showText text => some (bytes "~SHOW|" ++ CString.value text ++ bytes "\n")
  | unreachable rhost => sprintfUnreachable (CString.value rhost)
  | serverStarted => some (bytes "~SERVERSTARTED|\n")
  | serverStopped => some (bytes "~SERVERSTOPPED|\n")

end Message

def UDP_MAX : ℕ := 65507

/-- The datagram of `sendMsgToGui`; a longer string is not sent. -/
def sendMsgToGui (buffer : List UInt8) : Option (List UInt8) :=
  if buffer.length ≤ UDP_MAX then some buffer else none

/-- What comes of a message in the user interface, with the notification of clients on. -/
def delivered (charset : Charset) (m : Message) : Option Action :=
  (m.msg.bind sendMsgToGui).bind (SocketListener.receive charset true)

namespace Message

def payload : Message → List UInt8
  | clientHook s | cutText s | showText s | unreachable s => s
  | clientGone | serverStarted | serverStopped => []

def action : Message → Action
  | clientHook host => .showClientConnected (Utf8.widen host)
  | clientGone => .showClientDisconnected
  | cutText str => .setText (Utf8.widen str)
  | showText text => .showTextOnScreen (Utf8.widen text)
  | unreachable rhost =>
    .showTextOnScreen (chars "Couldn't connect to remote host:\n" ++ Utf8.widen rhost)
  | serverStarted | serverStopped => .activityUpdate

/-- The message fits the listener's array, and the text about the reverse connection
its buffer. -/
def Fits : Message → Prop
  | clientHook host => host.length ≤ 1012
  | cutText str => str.length ≤ 1016
  | showText text => text.length ≤ 1017
  | unreachable rhost => rhost.length ≤ 214
  | clientGone | serverStarted | serverStopped => True

instance (m : Message) : Decidable m.Fits := by
  cases m <;> unfold Fits <;> infer_instance

end Message

open SocketListener

/-! ### Recognising the tags -/

/-- A text starts with one tag only. -/
theorem not_tagged {tag other : String} {resp : List UInt16} (h : chars tag <+: resp)
    (hne : ¬ chars tag <+: chars other ∧ ¬ chars other <+: chars tag) (min : ℕ) :
    ¬ Tagged min other resp := by
  rintro ⟨_, hother⟩
  cases List.prefix_or_prefix_of_prefix h hother with
  | inl hle => exact hne.1 hle
  | inr hle => exact hne.2 hle

theorem dispatch_clip {resp : List UInt16} (h : chars "~CLIP|" <+: resp) (notifyclient : Bool) :
    dispatch notifyclient resp = (payload 7 resp).map .setText := by
  have hlen : 6 ≤ resp.length := h.length_le
  rw [dispatch_eq, if_pos ⟨by omega, h⟩]

theorem dispatch_show {resp : List UInt16} (h : chars "~SHOW|" <+: resp) (hlen : 6 < resp.length)
    (notifyclient : Bool) :
    dispatch notifyclient resp = (payload 6 resp).map .showTextOnScreen := by
  rw [dispatch_eq, if_neg (not_tagged h (by decide) 5), if_pos ⟨hlen, h⟩]

theorem dispatch_connected {resp : List UInt16} (h : chars "~CONNECTED|" <+: resp) :
    dispatch true resp = (payload 11 resp).map .showClientConnected := by
  have hlen : 11 ≤ resp.length := h.length_le
  have hserver : ¬ (Tagged 15 "~SERVERSTARTED|" resp ∨ Tagged 15 "~SERVERSTOPPED|" resp) :=
    not_or.mpr ⟨not_tagged h (by decide) 15, not_tagged h (by decide) 15⟩
  rw [dispatch_eq, if_neg (not_tagged h (by decide) 5), if_neg (not_tagged h (by decide) 6),
    if_neg hserver, if_pos rfl, if_pos ⟨by omega, h⟩]

/-! ### Cutting out the payload -/

/-- ASCII bytes are decoded to themselves, up to the end of the array. -/
theorem receive_ascii (charset : Charset) {datagram : List UInt8} (h : Utf8.Ascii datagram)
    (notifyclient : Bool) :
    receive charset notifyclient datagram =
      dispatch notifyclient (Utf8.widen (content datagram)) := by
  have hdata : Utf8.Ascii (getData datagram) :=
    (h.take PACKET_SIZE).append (Utf8.ascii_replicate (by decide) _)
  have hlen : getLength datagram ≤ (Utf8.widen (getData datagram)).length := by
    simp [Utf8.widen, getData, getLength]
  rw [receive, received_eq, charset.ascii _ hdata, if_pos hlen, Option.bind_some, Utf8.widen,
    ← List.map_take, getData, getLength, List.take_left, Utf8.widen]

theorem content_append {t : List UInt8} (ht : t.length ≤ PACKET_SIZE) (x : List UInt8) :
    content (t ++ x) = t ++ x.take (PACKET_SIZE - t.length) := by
  rw [content, List.take_append, List.take_of_length_le ht]

/-- Of a payload between a header and a line end, the listener cuts out as much as fits
the array together with them. -/
theorem payload_content {t : List UInt8} (ht : t.length < PACKET_SIZE) (s : List UInt8) :
    SocketListener.payload t.length (Utf8.widen (content (t ++ s ++ bytes "\n"))) =
      some (Utf8.widen (s.take (PACKET_SIZE - 1 - t.length))) := by
  obtain ⟨n, hn⟩ : ∃ n, PACKET_SIZE = t.length + (n + 1) := ⟨PACKET_SIZE - 1 - t.length, by omega⟩
  have hcut : Utf8.widen (content (t ++ s ++ bytes "\n")) =
      Utf8.widen t ++ (Utf8.widen s ++ chars "\n").take (n + 1) := by
    rw [List.append_assoc, content_append ht.le, show PACKET_SIZE - t.length = n + 1 by omega]
    simp [chars, Utf8.widen]
  have hlast : (Utf8.widen s ++ chars "\n").take (n + 1) ≠ [] := by simp [chars, Utf8.widen, bytes]
  have hlen : (Utf8.widen t).length = t.length := List.length_map _
  have hpos := List.length_pos_iff.mpr hlast
  have hle : t.length ≤ (Utf8.widen t ++ (Utf8.widen s ++ chars "\n").take (n + 1)).length - 1 := by
    rw [List.length_append, hlen]
    omega
  rw [hcut, SocketListener.payload, substring, if_pos ⟨hle, Nat.sub_le _ _⟩,
    ← List.dropLast_eq_take, List.dropLast_append_of_ne_nil hlast, List.drop_left' hlen,
    List.dropLast_take_eq_take_dropLast]
  change some ((Utf8.widen s ++ [10]).dropLast.take n) = _
  rw [List.dropLast_concat, show PACKET_SIZE - 1 - t.length = n by omega, Utf8.widen,
    ← List.map_take, Utf8.widen]

/-! ### The round trip -/

theorem prefix_content {t x : List UInt8} (ht : t.length ≤ PACKET_SIZE) :
    Utf8.widen t <+: Utf8.widen (content (t ++ x)) := by
  rw [content_append ht, Utf8.widen, Utf8.widen, List.map_append]
  exact List.prefix_append _ _

theorem widen_take_eq_iff (s : List UInt8) (n : ℕ) :
    Utf8.widen (s.take n) = Utf8.widen s ↔ s.length ≤ n := by
  have hinj : Function.Injective (List.map UInt8.toUInt16) :=
    List.map_injective_iff.mpr fun _ _ => UInt8.toUInt16_inj.mp
  exact hinj.eq_iff.trans (List.take_eq_self_iff s)

/-- A message of a header, a text and a line end, whose header selects an action on what
is cut out behind it, comes to that action on as much of the text as fits. -/
theorem sent_eq (charset : Charset) {t s : List UInt8} {f : List UInt16 → Action}
    (ht : t.length < PACKET_SIZE) (hta : Utf8.Ascii t) (hsa : Utf8.Ascii s)
    (hmax : (t ++ s ++ bytes "\n").length ≤ UDP_MAX)
    (hd : dispatch true (Utf8.widen (content (t ++ s ++ bytes "\n"))) =
      (SocketListener.payload t.length (Utf8.widen (content (t ++ s ++ bytes "\n")))).map f) :
    (sendMsgToGui (t ++ s ++ bytes "\n")).bind (receive charset true) =
      some (f (Utf8.widen (s.take (PACKET_SIZE - 1 - t.length)))) := by
  have hascii : Utf8.Ascii (t ++ s ++ bytes "\n") := (hta.append hsa).append (by decide)
  rw [sendMsgToGui, if_pos hmax, Option.bind_some, receive_ascii charset hascii, hd,
    payload_content ht, Option.map_some]

/-- The action is that on the whole text exactly when the text fits. -/
theorem sent_iff (charset : Charset) {t s : List UInt8} {f : List UInt16 → Action}
    (hf : Function.Injective f) (ht : t.length < PACKET_SIZE) (hta : Utf8.Ascii t)
    (hsa : Utf8.Ascii s)
    (hd : dispatch true (Utf8.widen (content (t ++ s ++ bytes "\n"))) =
      (SocketListener.payload t.length (Utf8.widen (content (t ++ s ++ bytes "\n")))).map f) :
    (sendMsgToGui (t ++ s ++ bytes "\n")).bind (receive charset true) = some (f (Utf8.widen s)) ↔
      s.length ≤ PACKET_SIZE - 1 - t.length := by
  by_cases hmax : (t ++ s ++ bytes "\n").length ≤ UDP_MAX
  · rw [sent_eq charset ht hta hsa hmax hd, Option.some_inj, hf.eq_iff, widen_take_eq_iff]
  · rw [sendMsgToGui, if_neg hmax]
    have hlong : 65507 < t.length + s.length + 1 := by
      rw [List.length_append, List.length_append] at hmax
      exact not_le.mp hmax
    simp only [PACKET_SIZE, Option.bind_none, reduceCtorEq, false_iff] at ht ⊢
    omega

theorem dispatch_clientHook (host : List UInt8) :
    dispatch true (Utf8.widen (content (bytes "~CONNECTED|" ++ host ++ bytes "\n"))) =
      (SocketListener.payload (bytes "~CONNECTED|").length
        (Utf8.widen (content (bytes "~CONNECTED|" ++ host ++ bytes "\n")))).map
          .showClientConnected := by
  have ht : (bytes "~CONNECTED|").length ≤ PACKET_SIZE := by decide
  rw [List.append_assoc]
  exact dispatch_connected (prefix_content ht)

/-- A connection is announced with as much of the host as fits. -/
theorem delivered_clientHook (charset : Charset) {host : List UInt8} (ha : Utf8.Ascii host)
    (hz : 0 ∉ host) (hlen : host.length ≤ 65495) :
    delivered charset (.clientHook host) =
      some (.showClientConnected (Utf8.widen (host.take 1012))) := by
  rw [delivered, Message.msg, CString.value_of_notMem hz, Option.bind_some]
  apply sent_eq charset (by decide) (by decide) ha ?_ (dispatch_clientHook host)
  rw [List.length_append, List.length_append]
  change 11 + host.length + 1 ≤ 65507
  omega

theorem delivered_clientGone (charset : Charset) :
    delivered charset .clientGone = some .showClientDisconnected := by
  change receive charset true (bytes "~DISCONNECTED|\n") = _
  rw [receive_ascii charset (by decide)]
  rfl

theorem delivered_show_iff (charset : Charset) {s : List UInt8} (hs : Utf8.Ascii s) :
    (sendMsgToGui (bytes "~SHOW|" ++ s ++ bytes "\n")).bind (receive charset true) =
      some (.showTextOnScreen (Utf8.widen s)) ↔ s.length ≤ 1017 := by
  have ht : (bytes "~SHOW|").length < PACKET_SIZE := by decide
  apply sent_iff charset (fun _ _ => Action.showTextOnScreen.inj) ht (by decide) hs
  rw [List.append_assoc]
  refine dispatch_show (prefix_content ht.le) ?_ true
  rw [content_append ht.le]
  simp [Utf8.widen, PACKET_SIZE, bytes]

theorem delivered_cutText_iff (charset : Charset) {str : List UInt8} (ha : Utf8.Ascii str)
    (hz : 0 ∉ str) :
    delivered charset (.cutText str) = some (.setText (Utf8.widen str)) ↔ str.length ≤ 1016 := by
  have ht : (bytes "~CLIP|\n").length < PACKET_SIZE := by decide
  have htag : chars "~CLIP|" <+: Utf8.widen (bytes "~CLIP|\n") := by decide
  rw [delivered, Message.msg, CString.value_of_notMem hz, Option.bind_some]
  apply sent_iff charset (fun _ _ => Action.setText.inj) ht (by decide) ha
  rw [List.append_assoc]
  exact dispatch_clip (htag.trans (prefix_content ht.le)) true

theorem delivered_unreachable_iff (charset : Charset) {rhost : List UInt8}
    (hs : Utf8.Ascii rhost) :
    ((Message.sprintfUnreachable rhost).bind sendMsgToGui).bind (receive charset true) =
      some (Message.unreachable rhost).action ↔ rhost.length ≤ 214 := by
  have hsplit : bytes "~SHOW|Couldn't connect to remote host:\n" =
      bytes "~SHOW|" ++ bytes "Couldn't connect to remote host:\n" := rfl
  have hlen : (bytes "Couldn't connect to remote host:\n" ++ rhost).length = 33 + rhost.length :=
    List.length_append
  have hascii : Utf8.Ascii (bytes "Couldn't connect to remote host:\n" ++ rhost) :=
    Utf8.Ascii.append (by decide) hs
  have hshow := delivered_show_iff charset hascii
  rw [Utf8.widen, List.map_append, hlen] at hshow
  rw [Message.sprintfUnreachable, hsplit, List.append_assoc (bytes "~SHOW|")]
  split_ifs with hfits
  · refine hshow.trans ?_
    rw [List.length_append, List.length_append, hlen] at hfits
    change 6 + (33 + rhost.length) + 1 + 1 ≤ 255 at hfits
    omega
  · rw [List.length_append, List.length_append, hlen] at hfits
    change ¬ 6 + (33 + rhost.length) + 1 + 1 ≤ 255 at hfits
    simp only [Option.bind_none, reduceCtorEq, false_iff]
    omega

/-- A message with any ASCII payload comes to the action that it is meant for, with the
payload as it was put in, exactly when it fits. -/
theorem delivered_iff (charset : Charset) (m : Message) (ha : Utf8.Ascii m.payload)
    (hz : 0 ∉ m.payload) : delivered charset m = some m.action ↔ m.Fits := by
  cases m with
  | clientHook host =>
    have ht : (bytes "~CONNECTED|").length < PACKET_SIZE := by decide
    have hvalue : CString.value host = host := CString.value_of_notMem hz
    rw [delivered, Message.msg, hvalue, Option.bind_some]
    exact sent_iff charset (fun _ _ => Action.showClientConnected.inj) ht (by decide) ha
      (dispatch_clientHook host)
  | cutText str => exact delivered_cutText_iff charset ha hz
  | showText text =>
    have hvalue : CString.value text = text := CString.value_of_notMem hz
    rw [delivered, Message.msg, hvalue, Option.bind_some]
    exact delivered_show_iff charset ha
  | unreachable rhost =>
    have hvalue : CString.value rhost = rhost := CString.value_of_notMem hz
    rw [delivered, Message.msg, hvalue]
    exact delivered_unreachable_iff charset ha
  | clientGone => exact iff_of_true (delivered_clientGone charset) trivial
  | serverStarted =>
    refine iff_of_true ?_ trivial
    change receive charset true (bytes "~SERVERSTARTED|\n") = _
    rw [receive_ascii charset (by decide)]
    rfl
  | serverStopped =>
    refine iff_of_true ?_ trivial
    change receive charset true (bytes "~SERVERSTOPPED|\n") = _
    rw [receive_ascii charset (by decide)]
    rfl

theorem delivered_clip : delivered utf8 (.cutText (bytes "~SHOW|\n")) =
    some (.setText (chars "~SHOW|\n")) :=
  (delivered_iff utf8 (.cutText (bytes "~SHOW|\n")) (by decide) (by decide)).mpr (by decide)

/-- Of a clip of 1017 characters the last is lost. -/
theorem not_delivered_clip :
    delivered utf8 (.cutText (List.replicate 1017 97)) ≠
      some (.setText (Utf8.widen (List.replicate 1017 97))) := by
  have ha : Utf8.Ascii (List.replicate 1017 97) := Utf8.ascii_replicate (by decide) 1017
  have hz : (0 : UInt8) ∉ List.replicate 1017 97 := fun h =>
    absurd (List.eq_of_mem_replicate h) (by decide)
  rw [Ne, delivered_cutText_iff utf8 ha hz, List.length_replicate]
  decide

end DroidVnc.Ipc
