import IoImap.Rfc3501.Mailbox
import IoImap.Rfc3501.Select

/-!
# EXAMINE (rfc3501/examine.rs)
-/

namespace IoImap

structure ImapMailboxExamineOptions where
  parameters : List SelectParameter

abbrev ImapMailboxExamineError := ImapCommandError

abbrev ImapMailboxExamine := ImapSend Command

abbrev ExamineData := ImapMailboxSelectData

namespace ImapMailboxExamine

def body [Base64Codec] [TryFrom String Mailbox] (mailbox : Mailbox)
    (opts : ImapMailboxExamineOptions) : CommandBody :=
  .examine (encodeInplace mailbox) opts.parameters

def new [Base64Codec] [TryFrom String Mailbox] (mailbox : Mailbox)
    (opts : ImapMailboxExamineOptions) : ImapMailboxExamine :=
  .command (body mailbox opts)

def decode (out : ImapSendOutput Command) : ExamineData := .ofOutput out

def resume {F : Type} [Fragmentizer F] [TryFrom Bytes Tag] [Encoder Command]
    (examine : ImapMailboxExamine) (f : F) (arg : Option Bytes) :
    CoroutineState ImapYield (Except ImapMailboxExamineError ExamineData) × ImapMailboxExamine × F :=
  commandResume decode examine f arg

end ImapMailboxExamine
end IoImap
