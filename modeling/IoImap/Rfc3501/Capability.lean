import IoImap.Command

/-!
# CAPABILITY (rfc3501/capability.rs)
-/

namespace IoImap

inductive ImapCapabilityGetError where
  | no (text : String)
  | bad (text : String)
  | bye (text : String)
  | missingTagged
  | missingCapability
  | send (err : ImapSendError)
  deriving DecidableEq

def ImapCapabilityGetError.of : ImapCommandError → ImapCapabilityGetError
  | .no text => .no text
  | .bad text => .bad text
  | .bye text => .bye text
  | .missingTagged => .missingTagged
  | .send err => .send err

abbrev ImapCapabilityGet := ImapSend Command

abbrev ImapCapabilityGetResult :=
  CoroutineState ImapYield (Except ImapCapabilityGetError (List Capability))

namespace ImapCapabilityGet

def new : ImapCapabilityGet := .command .capability

def addCode (capability : Option (Vec1 Capability)) : Option Code → Option (Vec1 Capability)
  | some (.capability capabilities) => some capabilities
  | _ => capability

def addData (capability : Option (Vec1 Capability)) : Data → Option (Vec1 Capability)
  | .capability capabilities => some capabilities
  | _ => capability

/-- The last list among the code of the completion, the data and the untagged codes,
in this order. -/
def newCapability (code : Option Code) (data : List Data) (untagged : List StatusBody) :
    Option (Vec1 Capability) :=
  untagged.foldl (fun capability status => addCode capability status.code)
    (data.foldl addData (addCode none code))

def taggedCode (out : ImapSendOutput Command) : Option Code :=
  out.tagged.bind fun tagged => tagged.body.code

def decode (out : ImapSendOutput Command) : Option (Vec1 Capability) :=
  newCapability (taggedCode out) out.data out.untagged

def finish : Option (Vec1 Capability) → Except ImapCapabilityGetError (List Capability)
  | some capability => .ok capability
  | none => .error .missingCapability

def resume {F : Type} [Fragmentizer F] [TryFrom Bytes Tag] [Encoder Command]
    (capability : ImapCapabilityGet) (f : F) (arg : Option Bytes) :
    ImapCapabilityGetResult × ImapCapabilityGet × F :=
  let r := commandResume decode capability f arg
  (r.1.tryOk id .of finish, r.2)

theorem resume_yielded {F : Type} [Fragmentizer F] [TryFrom Bytes Tag] [Encoder Command]
    {capability capability' : ImapCapabilityGet} {f f' : F} {arg : Option Bytes} {y : ImapYield}
    (h : ImapCapabilityGet.resume capability f arg = (.yielded y, capability', f')) :
    ImapSend.resume capability f arg = (.yielded y, capability', f') := by
  rw [ImapCapabilityGet.resume, Prod.mk.injEq] at h
  obtain ⟨hout, hrest⟩ := h
  obtain ⟨y', hy', rfl⟩ := CoroutineState.tryOk_yielded hout
  have hcommand : commandResume decode capability f arg = (.yielded y', capability', f') :=
    Prod.ext hy' hrest
  exact commandResume_yielded hcommand

end ImapCapabilityGet

def imapCapabilityGet [TryFrom Bytes Tag] [Encoder Command] :
    Coroutine ImapCapabilityGet Unit ImapYield (Except ImapCapabilityGetError (List Capability)) where
  resume s f arg _ := ImapCapabilityGet.resume s f arg
  request := ImapYield.request

end IoImap
