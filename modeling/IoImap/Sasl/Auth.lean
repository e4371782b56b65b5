import IoImap.Sasl.Mechanism
import IoImap.Sasl.Rounds

/-!
# The SASL coroutines (sasl/, rfc7628/auth_oauthbearer.rs, rfc7677/auth_scram_sha_256.rs)

Six copies of one machine: start the mechanism, send AUTHENTICATE with its first
payload or hold it back for the first challenge, feed it the challenges and send
what it answers, and tell it that the exchange is over. The copies differ in the
four fields of `SaslFraming`; each is its own definition below.
-/

namespace IoImap
open Fragmentizer

inductive ImapAuthError where
  | no (text : String)
  | noWithError (info err : String)
  | bad (text : String)
  | bye (text : String)
  | missingTagged
  | expectedContinuationRequest
  | unexpectedOk
  | mechanism (err : SaslError)
  | send (err : ImapSendError)
  | capability (err : ImapCapabilityGetError)
  | serverId (err : ImapServerIdError)
  deriving DecidableEq

def ImapAuthError.ofRounds : AuthRoundsError → ImapAuthError
  | .capability err => .capability err
  | .serverId err => .serverId err

structure ImapAuthOptions where
  initialRequest : Bool
  ensureCapabilities : Bool
  autoId : Option IdParameters

/-- What distinguishes one SASL coroutine from the others. -/
structure SaslFraming where
  mechanism : AuthMechanism
  /-- A completion before the first challenge may be a success. -/
  acceptsEarlyOk : Bool
  /-- The text of a challenge that is not base64 is given to the mechanism. -/
  readsText : Bool
  /-- The mechanism is asked for a reason when the server says NO. -/
  asksReason : Bool

inductive ImapAuth.State where
  | start
  | send (send : ImapSend Command) (pending : Option Bytes)
  | continue (send : ImapSend AuthenticateData)
  | rounds

structure ImapAuth (K : Type) where
  framing : SaslFraming
  state : ImapAuth.State
  mechanism : K
  initialRequest : Bool
  rounds : AuthRounds

abbrev ImapAuthResult := CoroutineState ImapYield (Except ImapAuthError (List Capability))

namespace ImapAuth

variable {K F : Type}

def new (framing : SaslFraming) (mechanism : K) (opts : ImapAuthOptions) : ImapAuth K :=
  ⟨framing, .start, mechanism, opts.initialRequest, .new opts.ensureCapabilities opts.autoId⟩

abbrev Outcome (K F : Type) := ImapAuthResult × ImapAuth K × F

def fail (s : ImapAuth K) (err : ImapAuthError) (f : F) : Outcome K F := (.complete (.error err), s, f)

def extractChallenge (framing : SaslFraming) : CommandContinuationRequest → Bytes
  | .basic text => if framing.readsText then text.toUTF8.toList else []
  | .base64 data => data

def ofRounds (s : ImapAuth K) (r : AuthRoundsResult × AuthRounds × F) : Outcome K F :=
  (r.1.tryOk id .ofRounds .ok, { s with state := .rounds, rounds := r.2.1 }, r.2.2)

section Mechanism

variable [SaslCoroutine K]

def saslPayload : SaslState → Except ImapAuthError (Option Bytes)
  | .yielded (.wantsWrite payload) => .ok (some payload)
  | .yielded .wantsRead => .ok none
  | .complete (.ok ()) => .ok none
  | .complete (.error err) => .error (.mechanism err)

def resumeSasl (s : ImapAuth K) (arg : SaslArg) : Except ImapAuthError (Option Bytes) × ImapAuth K :=
  let r := SaslCoroutine.resume s.mechanism arg
  (saslPayload r.1, { s with mechanism := r.2 })

/-- What a tagged NO comes to. -/
def no (s : ImapAuth K) (info : String) : ImapAuthError × ImapAuth K :=
  if s.framing.asksReason then
    let r := SaslCoroutine.resume s.mechanism .done
    (match r.1 with
      | .complete (.error (.rejected err)) => .noWithError info err
      | _ => .no info,
      { s with mechanism := r.2 })
  else (.no info, s)

end Mechanism

variable [SaslCoroutine K] [Fragmentizer F] [TryFrom Bytes Tag] [Encoder Command]
  [Encoder AuthenticateData]

/-- A success: the mechanism is told, and the rounds follow unless it refuses. -/
def succeed (s : ImapAuth K) (code : Option Code) (data : List Data) (untagged : List StatusBody)
    (f : F) : Outcome K F :=
  match s.resumeSasl .done with
  | (.error err, s) => s.fail err f
  | (.ok _, s) =>
    s.ofRounds (s.rounds.start (ImapCapabilityGet.newCapability code data untagged) f)

/-- `wants_continue`, and the first resume of the send it makes, which writes the payload. -/
def wantsContinue (s : ImapAuth K) (payload : Bytes) (tag : Tag) (f : F) : Outcome K F :=
  match (ImapSend.new (.continue payload) tag : ImapSend AuthenticateData).resume f none with
  | (.yielded y, send, f) => (.yielded y, { s with state := .continue send }, f)
  | (.complete (.error err), _, f) => s.fail (.send err) f
  -- never: an exchange that is given nothing does not complete (`ImapSend.resume_none`)
  | (.complete (.ok _), _, f) => s.fail .missingTagged f

/-- A challenge: the mechanism's answer to it is written, an empty one when it has none. -/
def challenged (s : ImapAuth K) (cr : CommandContinuationRequest) (tag : Tag) (f : F) : Outcome K F :=
  match s.resumeSasl (.input (extractChallenge s.framing cr)) with
  | (.error err, s) => s.fail err f
  | (.ok payload, s) => s.wantsContinue (payload.getD []) tag f

/-- `State::Send` once its exchange is over. -/
def sendOver (s : ImapAuth K) (out : ImapSendOutput Command) (pending : Option Bytes) (f : F) :
    Outcome K F :=
  match out.bye, out.continuationRequest, pending, out.tagged with
  | some bye, _, _, _ => s.fail (.bye bye.text) f
  -- the initial response answers the empty challenge
  | none, some _, some payload, _ => s.wantsContinue payload out.tag f
  | none, some cr, none, _ => s.challenged cr out.tag f
  | none, none, _, none => s.fail .expectedContinuationRequest f
  | none, none, pending, some tagged =>
    match tagged.body.kind with
    | .ok =>
      if s.framing.acceptsEarlyOk && pending.isNone then
        s.succeed tagged.body.code out.data out.untagged f
      else s.fail .unexpectedOk f
    | .no => (s.no tagged.body.text).2.fail (s.no tagged.body.text).1 f
    | .bad => s.fail (.bad tagged.body.text) f

/-- `State::Continue` once its exchange is over. -/
def continueOver (s : ImapAuth K) (out : ImapSendOutput AuthenticateData) (f : F) : Outcome K F :=
  match out.bye, out.continuationRequest, out.tagged with
  | some bye, _, _ => s.fail (.bye bye.text) f
  | none, some cr, _ => s.challenged cr out.tag f
  | none, none, none => s.fail .missingTagged f
  | none, none, some tagged =>
    match tagged.body.kind with
    | .ok => s.succeed tagged.body.code out.data out.untagged f
    | .no => (s.no tagged.body.text).2.fail (s.no tagged.body.text).1 f
    | .bad => s.fail (.bad tagged.body.text) f

def resumeSend (s : ImapAuth K) (send : ImapSend Command) (pending : Option Bytes) (f : F)
    (arg : Option Bytes) : Outcome K F :=
  match send.resume f arg with
  | (.yielded y, send, f) => (.yielded y, { s with state := .send send pending }, f)
  | (.complete (.error err), _, f) => s.fail (.send err) f
  | (.complete (.ok out), _, f) => s.sendOver out pending f

def resumeContinue (s : ImapAuth K) (send : ImapSend AuthenticateData) (f : F) (arg : Option Bytes) :
    Outcome K F :=
  match send.resume f arg with
  | (.yielded y, send, f) => (.yielded y, { s with state := .continue send }, f)
  | (.complete (.error err), _, f) => s.fail (.send err) f
  | (.complete (.ok out), _, f) => s.continueOver out f

/-- `State::Start`. The initial response is inline only when RFC 4959 was chosen. -/
def resumeStart (s : ImapAuth K) (f : F) (arg : Option Bytes) : Outcome K F :=
  match s.resumeSasl .none with
  | (.error err, s) => s.fail err f
  | (.ok payload, s) =>
    let (initialResponse, pending) := if s.initialRequest then (payload, none) else (none, payload)
    s.resumeSend (.command (.authenticate s.framing.mechanism initialResponse)) pending f arg

def resume (s : ImapAuth K) (f : F) (arg : Option Bytes) : Outcome K F :=
  match s.state with
  | .start => s.resumeStart f arg
  | .send send pending => s.resumeSend send pending f arg
  | .continue send => s.resumeContinue send f arg
  | .rounds => s.ofRounds (s.rounds.resume f arg)

end ImapAuth

def imapAuth (K : Type) [SaslCoroutine K] [TryFrom Bytes Tag] [Encoder Command]
    [Encoder AuthenticateData] :
    Coroutine (ImapAuth K) Unit ImapYield (Except ImapAuthError (List Capability)) where
  resume s f arg _ := s.resume f arg
  request := ImapYield.request

/-! ### The six coroutines -/

namespace SaslFraming

def anonymous : SaslFraming := ⟨.other "ANONYMOUS", true, false, false⟩

/-- The password always follows a prompt, so no success comes before one. -/
def login : SaslFraming := ⟨.login, false, false, false⟩

def plain : SaslFraming := ⟨.plain, true, false, false⟩

def xoauth2 : SaslFraming := ⟨.xoauth2, true, true, true⟩

def oauthbearer : SaslFraming := ⟨.oauthBearer, true, true, true⟩

def scramSha256 : SaslFraming := ⟨.scramSha256, true, true, false⟩

end SaslFraming

section Members

variable {K : Type} [SaslMechanisms K]

def ImapAuthAnonymous.new (message : Option String) (opts : ImapAuthOptions) : ImapAuth K :=
  .new .anonymous (SaslMechanisms.anonymous ⟨message⟩) opts

def ImapAuthLogin.new (user password : String) (opts : ImapAuthOptions) : ImapAuth K :=
  .new .login (SaslMechanisms.login ⟨user, password⟩) opts

def ImapAuthPlain.new (authzid : Option String) (authcid password : String) (opts : ImapAuthOptions) :
    ImapAuth K :=
  .new .plain (SaslMechanisms.plain ⟨authzid, authcid, password⟩) opts

def ImapAuthXoauth2.new (user token : String) (opts : ImapAuthOptions) : ImapAuth K :=
  .new .xoauth2 (SaslMechanisms.xoauth2 ⟨user, token⟩) opts

def ImapAuthOauthbearer.new (user host : String) (port : Nat) (token : String)
    (opts : ImapAuthOptions) : ImapAuth K :=
  .new .oauthbearer (SaslMechanisms.oauthbearer ⟨user, host, port, token⟩) opts

def ImapAuthScramSha256.new (creds : SaslScramCreds) (opts : ImapAuthOptions) : ImapAuth K :=
  .new .scramSha256 (SaslMechanisms.scramSha256 creds) opts

end Members
end IoImap
