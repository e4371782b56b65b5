import IoImap.Sasl.Rounds

/-!
# LOGIN (rfc3501/login.rs)

The untagged codes of the exchange are not looked at for capabilities.
-/

namespace IoImap

inductive ImapLoginError where
  | no (text : String)
  | bad (text : String)
  | bye (text : String)
  | missingTagged
  | send (err : ImapSendError)
  | capability (err : ImapCapabilityGetError)
  | serverId (err : ImapServerIdError)
  deriving DecidableEq

def ImapLoginError.of : ImapCommandError → ImapLoginError
  | .no text => .no text
  | .bad text => .bad text
  | .bye text => .bye text
  | .missingTagged => .missingTagged
  | .send err => .send err

def ImapLoginError.ofRounds : AuthRoundsError → ImapLoginError
  | .capability err => .capability err
  | .serverId err => .serverId err

structure ImapLoginOptions where
  ensureCapabilities : Bool
  autoId : Option IdParameters

inductive ImapLogin.State where
  | send (send : ImapSend Command)
  | rounds

structure ImapLogin where
  state : ImapLogin.State
  rounds : AuthRounds

abbrev ImapLoginResult := CoroutineState ImapYield (Except ImapLoginError (List Capability))

namespace ImapLogin

def new [TryFrom String AString] (user password : String) (opts : ImapLoginOptions) :
    Except ValidationError ImapLogin :=
  match TryFrom.tryFrom user, TryFrom.tryFrom password with
  | .ok username, .ok password =>
    .ok ⟨.send (.command (.login username password)), .new opts.ensureCapabilities opts.autoId⟩
  | .error err, _ => .error err
  | .ok _, .error err => .error err

variable {F : Type}

def ofRounds (s : ImapLogin) (r : AuthRoundsResult × AuthRounds × F) : ImapLoginResult × ImapLogin × F :=
  (r.1.tryOk id .ofRounds .ok, { s with state := .rounds, rounds := r.2.1 }, r.2.2)

variable [Fragmentizer F] [TryFrom Bytes Tag] [Encoder Command]

def resumeSend (s : ImapLogin) (send : ImapSend Command) (f : F) (arg : Option Bytes) :
    ImapLoginResult × ImapLogin × F :=
  match commandResume id send f arg with
  | (.yielded y, send, f) => (.yielded y, { s with state := .send send }, f)
  | (.complete (.error err), _, f) => (.complete (.error (.of err)), s, f)
  | (.complete (.ok out), _, f) =>
    s.ofRounds (s.rounds.start (ImapCapabilityGet.newCapability (ImapCapabilityGet.taggedCode out) out.data []) f)

def resume (s : ImapLogin) (f : F) (arg : Option Bytes) : ImapLoginResult × ImapLogin × F :=
  match s.state with
  | .send send => s.resumeSend send f arg
  | .rounds => s.ofRounds (s.rounds.resume f arg)

end ImapLogin

def imapLogin [TryFrom Bytes Tag] [Encoder Command] :
    Coroutine ImapLogin Unit ImapYield (Except ImapLoginError (List Capability)) where
  resume s f arg _ := s.resume f arg
  request := ImapYield.request

end IoImap
