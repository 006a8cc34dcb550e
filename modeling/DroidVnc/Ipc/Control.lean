import Mathlib.Data.UInt
import DroidVnc.Lib.CString
import DroidVnc.Lib.Utf8

/-! The control datagrams of the user interface. `handle_connections` receives each
datagram into the start of one global buffer, which is never cleared or terminated,
and searches the buffer as a string. What it sees is the datagram and, if that has
no zero in it, what earlier datagrams have left behind it. -/

namespace DroidVnc

/-- The characters of a string literal as bytes. -/
def bytes (s : String) : List UInt8 := s.toList.map fun c => c.toNat.toUInt8

/-- The characters of a string literal as UTF-16. -/
def chars (s : String) : List UInt16 := Utf8.widen (bytes s)

namespace Ipc

def BUFFER_SIZE : ℕ := 1024

def pBuffer : List UInt8 := List.replicate BUFFER_SIZE 0

/-- What `recvfrom` stores of a datagram: at most `BUFFER_SIZE` bytes. -/
def stored (datagram : List UInt8) : List UInt8 := datagram.take BUFFER_SIZE

/-- What the buffer holds behind the datagram, left by earlier ones. -/
def leftover (datagram buffer : List UInt8) : List UInt8 := buffer.drop (stored datagram).length

def recvfrom (datagram buffer : List UInt8) : List UInt8 :=
  stored datagram ++ leftover datagram buffer

inductive Reaction
  | pong
  | closeApp
  | nothing
  deriving DecidableEq, Repr

/-- The two searches, `close_app` being reached only if the first finds nothing.
There is no result when a search reads beyond the buffer. -/
def react (buffer : List UInt8) : Option Reaction :=
  (CString.strstr (bytes "~PING|") buffer).bind fun ping =>
    if ping then some .pong
    else (CString.strstr (bytes "~KILL|") buffer).map fun kill =>
      if kill then .closeApp else .nothing

/-- `handle_connections` on a sequence of datagrams; `close_app` ends the process. -/
def handleConnections : List UInt8 → List (List UInt8) → Option (List Reaction)
  | _, [] => some []
  | buffer, datagram :: l =>
    (react (recvfrom datagram buffer)).bind fun r =>
      (if r = .closeApp then some [] else handleConnections (recvfrom datagram buffer) l).map
        fun rest => r :: rest

/-! ### Reactions to datagrams alone -/

/-- The reaction to what the datagram says itself, as a string. -/
def ownReaction (datagram : List UInt8) : Reaction :=
  let text := CString.value (stored datagram)
  if bytes "~PING|" <:+: text then .pong
  else if bytes "~KILL|" <:+: text then .closeApp
  else .nothing

/-- The reactions to a sequence of datagrams, each taken alone. -/
def ownReactions : List (List UInt8) → List Reaction
  | [] => []
  | datagram :: l =>
    ownReaction datagram :: if ownReaction datagram = .closeApp then [] else ownReactions l

/-- The datagram ends in itself, or asks for a reply before its end; or what is left
behind it ends inside the buffer, completes no ping, and no kill that the datagram
does not contain. -/
def Undisturbed (datagram buffer : List UInt8) : Prop :=
  0 ∈ stored datagram ∨ bytes "~PING|" <:+: stored datagram ∨
    0 ∈ leftover datagram buffer ∧
      ¬ bytes "~PING|" <:+: stored datagram ++ CString.value (leftover datagram buffer) ∧
      (bytes "~KILL|" <:+: stored datagram ∨
        ¬ bytes "~KILL|" <:+: stored datagram ++ CString.value (leftover datagram buffer))

/-- Every datagram up to the one that ends the process is undisturbed. -/
def AllUndisturbed : List UInt8 → List (List UInt8) → Prop
  | _, [] => True
  | buffer, datagram :: l =>
    Undisturbed datagram buffer ∧
      (ownReaction datagram ≠ .closeApp → AllUndisturbed (recvfrom datagram buffer) l)

/-- The reaction in terms of the string in the buffer. -/
theorem react_eq (buffer : List UInt8) :
    react buffer =
      if bytes "~PING|" <:+: CString.value buffer then some .pong
      else if 0 ∈ buffer then
        some (if bytes "~KILL|" <:+: CString.value buffer then .closeApp else .nothing)
      else none := by
  have hping : (0 : UInt8) ∉ bytes "~PING|" ∧ bytes "~PING|" ≠ [] := by decide
  have hkill : (0 : UInt8) ∉ bytes "~KILL|" ∧ bytes "~KILL|" ≠ [] := by decide
  unfold react
  rw [CString.strstr_eq hping.1 hping.2, CString.strstr_eq hkill.1 hkill.2]
  split_ifs <;> simp_all

theorem react_recvfrom_of_mem {datagram : List UInt8} (h : 0 ∈ stored datagram)
    (buffer : List UInt8) : react (recvfrom datagram buffer) = some (ownReaction datagram) := by
  have hmem : 0 ∈ recvfrom datagram buffer := List.mem_append_left _ h
  rw [react_eq, if_pos hmem, recvfrom, CString.value_append_of_mem h, ownReaction]
  split_ifs <;> rfl

/-- The reaction is the datagram's own exactly when it is undisturbed. -/
theorem react_recvfrom_iff (datagram buffer : List UInt8) :
    react (recvfrom datagram buffer) = some (ownReaction datagram) ↔
      Undisturbed datagram buffer := by
  unfold Undisturbed
  by_cases hend : 0 ∈ stored datagram
  · exact iff_of_true (react_recvfrom_of_mem hend buffer) (Or.inl hend)
  · -- the string in the buffer goes on behind the datagram
    have hmem : 0 ∈ recvfrom datagram buffer ↔ 0 ∈ leftover datagram buffer := by
      simp [recvfrom, hend]
    have hgrow : ∀ {t : List UInt8}, t <:+: stored datagram →
        t <:+: stored datagram ++ CString.value (leftover datagram buffer) :=
      fun ht => List.infix_append_of_infix_left ht
    simp only [react_eq, hmem, ownReaction, CString.value_of_notMem hend, or_iff_right hend]
    rw [recvfrom, CString.value_append_of_notMem hend]
    by_cases hping : bytes "~PING|" <:+: stored datagram
    · simp [hping, hgrow hping]
    · simp only [if_neg hping, or_iff_right hping]
      by_cases hkill : bytes "~KILL|" <:+: stored datagram
      · simp only [if_pos (hgrow hkill), hkill, if_true, true_or, and_true]
        split_ifs <;> simp [*]
      · simp only [hkill, if_false, false_or]
        split_ifs <;> simp [*]

/-- Over a whole sequence, every reaction is the datagram's own and no search reads
beyond the buffer, exactly when every datagram is undisturbed. -/
theorem handleConnections_iff (buffer : List UInt8) (l : List (List UInt8)) :
    handleConnections buffer l = some (ownReactions l) ↔ AllUndisturbed buffer l := by
  induction l generalizing buffer with
  | nil => simp [handleConnections, ownReactions, AllUndisturbed]
  | cons datagram l ih =>
    rw [AllUndisturbed, ← react_recvfrom_iff, ← ih, handleConnections, ownReactions]
    constructor
    · intro hall
      obtain ⟨r, hr, hrest⟩ := Option.bind_eq_some_iff.mp hall
      obtain ⟨rest, hloop, heq⟩ := Option.map_eq_some_iff.mp hrest
      obtain ⟨rfl, rfl⟩ := List.cons.inj heq
      refine ⟨hr, fun hgoes => ?_⟩
      rwa [if_neg hgoes, if_neg hgoes] at hloop
    · rintro ⟨hr, hloop⟩
      rw [hr, Option.bind_some]
      split_ifs with hclose
      · rfl
      · rw [hloop hclose, Option.map_some]

/-- The end of one datagram completes the start of the next to a kill. -/
theorem not_handleConnections_kill :
    handleConnections pBuffer [bytes "xxxxL|", bytes "~KIL"] = some [.nothing, .closeApp] ∧
      handleConnections pBuffer [bytes "xxxxL|", bytes "~KIL"] ≠
        some (ownReactions [bytes "xxxxL|", bytes "~KIL"]) := by
  decide

end Ipc

end DroidVnc
