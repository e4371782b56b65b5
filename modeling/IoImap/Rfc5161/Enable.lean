import IoImap.Command

/-!
# ENABLE (rfc5161/enable.rs)
-/

namespace IoImap

abbrev ImapExtensionEnableError := ImapCommandError

abbrev ImapExtensionEnable := ImapSend Command

namespace ImapExtensionEnable

def new (capabilities : Vec1 CapabilityEnable) : ImapExtensionEnable := .command (.enable capabilities)

/-- One data response: the last ENABLED counts. -/
def addData (enabled : Option (List CapabilityEnable)) : Data → Option (List CapabilityEnable)
  | .enabled capabilities => some capabilities
  | _ => enabled

def decode (out : ImapSendOutput Command) : Option (List CapabilityEnable) :=
  out.data.foldl addData none

def resume {F : Type} [Fragmentizer F] [TryFrom Bytes Tag] [Encoder Command]
    (enable : ImapExtensionEnable) (f : F) (arg : Option Bytes) :
    CoroutineState ImapYield (Except ImapExtensionEnableError (Option (List CapabilityEnable))) ×
      ImapExtensionEnable × F :=
  commandResume decode enable f arg

end ImapExtensionEnable
end IoImap
