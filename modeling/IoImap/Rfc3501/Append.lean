import IoImap.Command
import IoImap.Rfc3501.Mailbox

/-!
# APPEND (rfc3501/append.rs)

The buffered variant, and what it shares with the streamed one: the options and
what is read from a success.
-/

namespace IoImap

structure ImapMessageAppendOptions where
  flags : List Flag := []
  date : Option DateTime := none
  nonSync : Bool := false

/-- The EXISTS count and the APPENDUID. -/
abbrev ImapMessageAppendOutput := Option Nat × Option (Nat × Nat)

abbrev ImapMessageAppendError := ImapCommandError

abbrev ImapMessageAppend := ImapSend Command

namespace ImapMessageAppend

def body [Base64Codec] [TryFrom String Mailbox] (mailbox : Mailbox) (message : Bytes)
    (opts : ImapMessageAppendOptions) : CommandBody :=
  let mode := if opts.nonSync then LiteralMode.nonSync else LiteralMode.sync
  .append (encodeInplace mailbox) opts.flags opts.date ⟨message, mode⟩

def new [Base64Codec] [TryFrom String Mailbox] (mailbox : Mailbox) (message : Bytes)
    (opts : ImapMessageAppendOptions) : ImapMessageAppend :=
  .command (body mailbox message opts)

/-- One data response: the last EXISTS counts. -/
def addExists (count : Option Nat) : Data → Option Nat
  | .exists seq => some seq
  | _ => count

def appendUid (code : Option Code) : Option (Nat × Nat) :=
  match code with
  | some (.appendUid uidValidity uid) => some (uidValidity.get, uid.get)
  | _ => none

def decode (out : ImapSendOutput Command) : ImapMessageAppendOutput :=
  (out.data.foldl addExists none, out.tagged.bind fun tagged => appendUid tagged.body.code)

def resume {F : Type} [Fragmentizer F] [TryFrom Bytes Tag] [Encoder Command]
    (append : ImapMessageAppend) (f : F) (arg : Option Bytes) :
    CoroutineState ImapYield (Except ImapMessageAppendError ImapMessageAppendOutput) ×
      ImapMessageAppend × F :=
  commandResume decode append f arg

end ImapMessageAppend
end IoImap
