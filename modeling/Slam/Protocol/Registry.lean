import Slam.Lua.Value
import Mathlib.Logic.Function.Basic

/-!
# `slam_protocol.c`: registered messages

A message id is registered in two places: the parser of `MessageBuilder.cpp` caches a message of its
type, and `regtable` holds the name under which its handler stands in the Lua registry. Both are filled
by `slam_protocol_reg_message` and dropped together, so what the parser knows always has a name; that is
a field of `SlamProtocol`.
-/

namespace Slam

/-- `MAX_MESSAGE_ID`. -/
def maxMessageId : ℕ := 65536

/-- `slam_protocol_t`, with the messages that the parser has cached. -/
structure SlamProtocol where
  messages : ℤ → Option ℕ
  regtable : ℤ → Option (List Byte)
  named : ∀ {msgid : ℤ}, (messages msgid).isSome →
    0 ≤ msgid ∧ msgid < maxMessageId ∧ (regtable msgid).isSome

namespace SlamProtocol

/-- `slam_protocol_new`. -/
def new : SlamProtocol := ⟨fun _ => none, fun _ => none, nofun⟩

/-- `slam_protocol_find_name`. -/
def findName (P : SlamProtocol) (msgid : ℤ) : Option (List Byte) :=
  if 0 ≤ msgid ∧ msgid < maxMessageId then P.regtable msgid else none

/-- `MESSAGE_REF_NAME`: the text `typename.msgid`, in a buffer of `PATH_MAX` bytes. -/
def refName (msgid : ℤ) (typename : List Byte) : List Byte :=
  (cstring typename ++ asciiBytes "." ++ asciiBytes (toString msgid)).take 4095

/-- `slam_protocol_reg_message`; `typeNamed` is the lookup in the descriptor pool. -/
def regMessage (P : SlamProtocol) (typeNamed : List Byte → Option ℕ) (msgid : ℤ)
    (typename : List Byte) : Option (List Byte) × SlamProtocol :=
  if hrange : 0 ≤ msgid ∧ msgid < maxMessageId then
    if P.regtable msgid = none ∧ P.messages msgid = none then
      match typeNamed (cstring typename) with
      | none => (none, P)
      | some t =>
        (some (refName msgid typename),
          { messages := Function.update P.messages msgid (some t)
            regtable := Function.update P.regtable msgid (some (refName msgid typename))
            named := by
              intro id hid
              by_cases heq : id = msgid
              · subst heq
                exact ⟨hrange.1, hrange.2, by rw [Function.update_self]; rfl⟩
              · rw [Function.update_of_ne heq] at hid ⊢
                exact P.named hid })
    else (none, P)
  else (none, P)

/-- What the parser knows has a name. -/
theorem exists_findName {P : SlamProtocol} {msgid : ℤ} {t : ℕ} (h : P.messages msgid = some t) :
    ∃ name, P.findName msgid = some name := by
  have hsome : (P.messages msgid).isSome := by rw [h]; rfl
  obtain ⟨hlo, hhi, hname⟩ := P.named hsome
  rw [findName, if_pos ⟨hlo, hhi⟩]
  exact Option.isSome_iff_exists.1 hname

end SlamProtocol

end Slam
