import IoImap.Command

/-!
# ID (rfc2971/id.rs)
-/

namespace IoImap

structure ImapServerIdOptions where
  parameters : Option IdParameters

abbrev ImapServerIdError := ImapCommandError

abbrev ImapServerId := ImapSend Command

namespace ImapServerId

def new (opts : ImapServerIdOptions) : ImapServerId := .command (.id opts.parameters)

/-- One data response: the last ID counts, also when it is NIL. -/
def addData (serverId : Option IdParameters) : Data → Option IdParameters
  | .id parameters => parameters
  | _ => serverId

def decode (out : ImapSendOutput Command) : Option IdParameters := out.data.foldl addData none

def resume {F : Type} [Fragmentizer F] [TryFrom Bytes Tag] [Encoder Command] (id : ImapServerId)
    (f : F) (arg : Option Bytes) :
    CoroutineState ImapYield (Except ImapServerIdError (Option IdParameters)) × ImapServerId × F :=
  commandResume decode id f arg

end ImapServerId
end IoImap
