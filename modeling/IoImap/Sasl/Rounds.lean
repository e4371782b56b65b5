import IoImap.Rfc2971.Id
import IoImap.Rfc3501.Capability

/-!
# The rounds behind an authentication

What LOGIN and the SASL coroutines do once the server has accepted them, word for
word the same in all of them: `wants_capability`, `wants_id` and the states
`Capability` and `Id`.
-/

namespace IoImap

inductive AuthRoundsError where
  | capability (err : ImapCapabilityGetError)
  | serverId (err : ImapServerIdError)
  deriving DecidableEq

inductive AuthRounds.Round where
  | none
  | capability (capability : ImapCapabilityGet)
  | id (id : ImapServerId)

/-- The capabilities observed so far and the options of the rounds. -/
structure AuthRounds where
  round : AuthRounds.Round
  observed : List Capability
  ensureCapabilities : Bool
  autoId : Option IdParameters

abbrev AuthRoundsResult := CoroutineState ImapYield (Except AuthRoundsError (List Capability))

namespace AuthRounds

def new (ensureCapabilities : Bool) (autoId : Option IdParameters) : AuthRounds :=
  ⟨.none, [], ensureCapabilities, autoId⟩

def wantsCapability (r : AuthRounds) : Option ImapCapabilityGet :=
  if r.ensureCapabilities && r.observed.isEmpty then some .new else none

def wantsId (r : AuthRounds) : Option ImapServerId × AuthRounds :=
  match r.autoId with
  | none => (none, r)
  | some params =>
    (some (.new ⟨if params.isEmpty then none else some params⟩), { r with autoId := none })

def observe (r : AuthRounds) (newCapability : Option (Vec1 Capability)) : AuthRounds :=
  match newCapability with
  | some capability => { r with observed := capability }
  | none => r

variable {F : Type}

def complete (r : AuthRounds) (f : F) : AuthRoundsResult × AuthRounds × F :=
  (.complete (.ok r.observed), { r with observed := [] }, f)

variable [Fragmentizer F] [TryFrom Bytes Tag] [Encoder Command]

def resumeId (r : AuthRounds) (id : ImapServerId) (f : F) (arg : Option Bytes) :
    AuthRoundsResult × AuthRounds × F :=
  match id.resume f arg with
  | (.yielded y, id, f) => (.yielded y, { r with round := .id id }, f)
  | (.complete (.error err), _, f) => (.complete (.error (.serverId err)), r, f)
  | (.complete (.ok _), _, f) => r.complete f

def thenId (r : AuthRounds) (f : F) : AuthRoundsResult × AuthRounds × F :=
  match r.wantsId with
  | (some id, r) => r.resumeId id f none
  | (none, r) => r.complete f

def resumeCapability (r : AuthRounds) (capability : ImapCapabilityGet) (f : F) (arg : Option Bytes) :
    AuthRoundsResult × AuthRounds × F :=
  match capability.resume f arg with
  | (.yielded y, capability, f) => (.yielded y, { r with round := .capability capability }, f)
  | (.complete (.error err), _, f) => (.complete (.error (.capability err)), r, f)
  | (.complete (.ok capability), _, f) => { r with observed := capability }.thenId f

/-- What follows a success. -/
def start (r : AuthRounds) (newCapability : Option (Vec1 Capability)) (f : F) :
    AuthRoundsResult × AuthRounds × F :=
  let r := r.observe newCapability
  match r.wantsCapability with
  | some capability => r.resumeCapability capability f none
  | none => r.thenId f

def resume (r : AuthRounds) (f : F) (arg : Option Bytes) : AuthRoundsResult × AuthRounds × F :=
  match r.round with
  | .capability capability => r.resumeCapability capability f arg
  | .id id => r.resumeId id f arg
  | .none => r.complete f

end AuthRounds
end IoImap
