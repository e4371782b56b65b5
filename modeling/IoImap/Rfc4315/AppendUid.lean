import IoImap.Command
import IoImap.Rfc3501.Mailbox

/-!
# APPEND with its APPENDUID (rfc4315/appenduid.rs)
-/

namespace IoImap

structure ImapAppendUidOptions where
  flags : List Flag := []
  date : Option DateTime := none

abbrev ImapAppendUidError := ImapCommandError

abbrev ImapAppendUid := ImapSend Command

namespace ImapAppendUid

def body [Base64Codec] [TryFrom String Mailbox] (mailbox : Mailbox) (message : LiteralOrLiteral8)
    (opts : ImapAppendUidOptions) : CommandBody :=
  match message with
  | .literal literal => .append (encodeInplace mailbox) opts.flags opts.date literal
  | .literal8 literal => .appendBinary (encodeInplace mailbox) opts.flags opts.date literal

def new [Base64Codec] [TryFrom String Mailbox] (mailbox : Mailbox) (message : LiteralOrLiteral8)
    (opts : ImapAppendUidOptions) : ImapAppendUid :=
  .command (body mailbox message opts)

def decode (out : ImapSendOutput Command) : Option (NonZeroU32 × NonZeroU32) :=
  match out.tagged.bind (·.body.code) with
  | some (.appendUid uidValidity uid) => some (uidValidity, uid)
  | _ => none

def resume {F : Type} [Fragmentizer F] [TryFrom Bytes Tag] [Encoder Command] (append : ImapAppendUid)
    (f : F) (arg : Option Bytes) :
    CoroutineState ImapYield (Except ImapAppendUidError (Option (NonZeroU32 × NonZeroU32))) ×
      ImapAppendUid × F :=
  commandResume decode append f arg

end ImapAppendUid
end IoImap
