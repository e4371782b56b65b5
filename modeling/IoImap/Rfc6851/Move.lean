import IoImap.Rfc3501.Copy

/-!
# MOVE (rfc6851/move.rs)
-/

namespace IoImap

structure ImapMessageMoveOptions where
  uid : Bool

abbrev ImapMessageMoveError := ImapCommandError

abbrev ImapMessageMove := ImapSend Command

namespace ImapMessageMove

def body [Base64Codec] [TryFrom String Mailbox] (sequenceSet : SequenceSet) (mailbox : Mailbox)
    (opts : ImapMessageMoveOptions) : CommandBody :=
  .move sequenceSet (encodeInplace mailbox) opts.uid

def new [Base64Codec] [TryFrom String Mailbox] (sequenceSet : SequenceSet) (mailbox : Mailbox)
    (opts : ImapMessageMoveOptions) : ImapMessageMove :=
  .command (body sequenceSet mailbox opts)

/-- COPYUID comes with the completion, or with an untagged OK in front of it. -/
def decode (out : ImapSendOutput Command) : ImapCopyUid :=
  (copyuidFromCode (out.tagged.bind (·.body.code))).or
    (out.untagged.findSome? fun status => copyuidFromCode status.code)

def resume {F : Type} [Fragmentizer F] [TryFrom Bytes Tag] [Encoder Command] (move : ImapMessageMove)
    (f : F) (arg : Option Bytes) :
    CoroutineState ImapYield (Except ImapMessageMoveError ImapCopyUid) × ImapMessageMove × F :=
  commandResume decode move f arg

end ImapMessageMove

/-! ### What COPY and MOVE return -/

theorem copyuidFromCode_some {code : Option Code} {uidValidity : Nat} {xs ys : List Nat}
    (h : copyuidFromCode code = some (uidValidity, xs, ys)) :
    ∃ code' source destination, code = some code' ∧ IsCopyuid code' source destination ∧
      xs = uidSetToVec source ∧ ys = uidSetToVec destination := by
  unfold copyuidFromCode at h
  split at h
  · rename_i v source destination
    obtain ⟨-, rfl, rfl⟩ : v.get = uidValidity ∧ uidSetToVec source = xs ∧
        uidSetToVec destination = ys := by simpa using h
    exact ⟨_, source, destination, rfl, .typed v source destination, rfl, rfl⟩
  · rename_i other
    obtain ⟨⟨v, source, destination⟩, hread, he⟩ := Option.map_eq_some_iff.mp h
    obtain ⟨rfl, rfl, rfl⟩ : v = uidValidity ∧ uidSetToVec source = xs ∧
        uidSetToVec destination = ys := by simpa using he
    exact ⟨_, source, destination, rfl, .other hread, rfl, rfl⟩
  · simp at h

/-- A mapping that MOVE returns is that of a COPYUID code of its reply. -/
theorem move_returns {out : ImapSendOutput Command} {uidValidity : Nat} {xs ys : List Nat}
    (h : ImapMessageMove.decode out = some (uidValidity, xs, ys)) :
    ∃ status code source destination, status ∈ (out.tagged.map (·.body)).toList ++ out.untagged ∧
      status.code = some code ∧ IsCopyuid code source destination ∧
      xs = uidSetToVec source ∧ ys = uidSetToVec destination := by
  rcases Option.or_eq_some_iff.mp h with htagged | ⟨-, huntagged⟩
  · obtain ⟨code, source, destination, hcode, hcopyuid, hvecs⟩ := copyuidFromCode_some htagged
    obtain ⟨tagged, ht, hc⟩ := Option.bind_eq_some_iff.mp hcode
    exact ⟨tagged.body, code, source, destination, by simp [ht], hc, hcopyuid, hvecs⟩
  · obtain ⟨status, hmem, hstatus⟩ := List.exists_of_findSome?_eq_some huntagged
    obtain ⟨code, source, destination, hcode, hcopyuid, hvecs⟩ := copyuidFromCode_some hstatus
    exact ⟨status, code, source, destination, List.mem_append_right _ hmem, hcode, hcopyuid, hvecs⟩

end IoImap
