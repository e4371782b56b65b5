import IoImap.Rfc3501.Greeting
import IoImap.Rfc3501.Login
import IoImap.Rfc3501.StartTls
import IoImap.Sasl.Auth

/-!
# Opening a session (session.rs)

`ImapSessionOpen` connects, optionally upgrades to TLS, reads the greeting or the
capabilities and authenticates. The feature `scram` is on. Where a sub-coroutine
completes, the next one is resumed in the same resume without an argument.
-/

namespace IoImap
open Fragmentizer

inductive SaslMechanism where
  | anonymous
  | login
  | plain
  | oauthbearer
  | xoauth2
  | scramSha256
  | other (name : String)
  deriving DecidableEq

/-- The credentials of one mechanism; `other` stands for those without a coroutine here. -/
inductive Sasl where
  | anonymous (creds : SaslAnonymousCreds)
  | login (creds : SaslLoginCreds)
  | plain (creds : SaslPlainCreds)
  | oauthbearer (creds : SaslOauthbearerCreds)
  | xoauth2 (creds : SaslXoauth2Creds)
  | scramSha256 (creds : SaslScramCreds)
  | other (mechanism : SaslMechanism)

inductive ImapSessionTransport where
  | tcp (host : String) (port : Nat)
  | tls (host : String) (port : Nat)
  | unix (path : String)
  deriving DecidableEq

structure ImapSessionOpenOptions where
  starttls : Bool := false
  autoId : Option IdParameters := none
  saslIr : Option Bool := none

structure ImapSessionOpenData where
  capability : List Capability
  preAuthenticated : Bool
  deriving DecidableEq

inductive ImapSessionOpenError where
  | startTlsOverTls
  | startTlsInjection
  | unsupportedMechanism (mechanism : SaslMechanism)
  | invalidLoginCredentials (err : ValidationError)
  | startTls (err : ImapStartTlsError)
  | greeting (err : ImapGreetingGetError)
  | capability (err : ImapCapabilityGetError)
  | login (err : ImapLoginError)
  | auth (err : ImapAuthError)
  deriving DecidableEq

inductive ImapSessionOpenYield where
  | wantsTcpConnect (host : String) (port : Nat)
  | wantsTlsConnect (host : String) (port : Nat)
  | wantsUnixConnect (path : String)
  | wantsTlsUpgrade
  | wantsTag
  | wantsRead
  | wantsWrite (bytes : Bytes)
  deriving DecidableEq

def ImapSessionOpenYield.ofYield : ImapYield → ImapSessionOpenYield
  | .wantsTag => .wantsTag
  | .wantsRead => .wantsRead
  | .wantsWrite bytes => .wantsWrite bytes

def ImapSessionOpenYield.request : ImapSessionOpenYield → Request
  | .wantsTag => .tag
  | .wantsRead => .read
  | _ => .nothing

/-- `Auth`: LOGIN, or one of the SASL coroutines. -/
inductive ImapSessionOpen.Auth (K : Type) where
  | login (login : ImapLogin)
  | sasl (auth : ImapAuth K)

inductive ImapSessionOpen.State (K : Type) where
  | connect
  | connected
  | startTls (startTls : ImapStartTls)
  | upgraded
  | capability (capability : ImapCapabilityGet)
  | greeting (greeting : ImapGreetingGet)
  | auth (auth : ImapSessionOpen.Auth K)

structure ImapSessionOpen (K : Type) where
  state : ImapSessionOpen.State K
  transport : ImapSessionTransport
  sasl : Option Sasl
  capability : List Capability
  preAuthenticated : Bool
  opts : ImapSessionOpenOptions

abbrev ImapSessionOpenResult :=
  CoroutineState ImapSessionOpenYield (Except ImapSessionOpenError ImapSessionOpenData)

def ImapSessionTransport.isTls : ImapSessionTransport → Bool
  | .tls _ _ => true
  | _ => false

def ImapSessionTransport.connect : ImapSessionTransport → ImapSessionOpenYield
  | .tcp host port => .wantsTcpConnect host port
  | .tls host port => .wantsTlsConnect host port
  | .unix path => .wantsUnixConnect path

namespace ImapSessionOpen

variable {K F : Type}

abbrev Outcome (K F : Type) := ImapSessionOpenResult × ImapSessionOpen K × F

def new (transport : ImapSessionTransport) (sasl : Option Sasl) (opts : ImapSessionOpenOptions) :
    ImapSessionOpen K :=
  ⟨.connect, transport, sasl, [], false, opts⟩

/-- The coroutine that authenticates with the given credentials. -/
def Auth.new [SaslMechanisms K] [TryFrom String AString] (sasl : Sasl) (initialRequest : Bool)
    (autoId : Option IdParameters) : Except ImapSessionOpenError (Auth K) :=
  let opts : ImapAuthOptions := ⟨initialRequest, true, autoId⟩
  match sasl with
  | .anonymous creds => .ok (.sasl (ImapAuthAnonymous.new creds.message opts))
  | .login creds =>
    match ImapLogin.new creds.username creds.password ⟨true, autoId⟩ with
    | .ok auth => .ok (.login auth)
    | .error err => .error (.invalidLoginCredentials err)
  | .plain creds => .ok (.sasl (ImapAuthPlain.new creds.authzid creds.authcid creds.passwd opts))
  | .oauthbearer creds =>
    .ok (.sasl (ImapAuthOauthbearer.new creds.username creds.host creds.port creds.token opts))
  | .xoauth2 creds => .ok (.sasl (ImapAuthXoauth2.new creds.username creds.token opts))
  | .scramSha256 creds => .ok (.sasl (ImapAuthScramSha256.new creds opts))
  | .other mechanism => .error (.unsupportedMechanism mechanism)

def initialRequest (s : ImapSessionOpen K) : Bool :=
  s.opts.saslIr.getD (s.capability.contains .saslIr)

/-- `wants_auth`: nothing to do, or the authentication and what is left of the session. -/
def wantsAuth [SaslMechanisms K] [TryFrom String AString] (s : ImapSessionOpen K) :
    Except ImapSessionOpenError (Option (Auth K)) × ImapSessionOpen K :=
  if s.preAuthenticated then (.ok none, s)
  else
    match s.sasl with
    | none => (.ok none, s)
    | some sasl =>
      ((Auth.new sasl s.initialRequest s.opts.autoId).map some,
        { s with sasl := none, opts := { s.opts with autoId := none } })

def complete (s : ImapSessionOpen K) (f : F) : Outcome K F :=
  (.complete (.ok ⟨s.capability, s.preAuthenticated⟩), { s with capability := [] }, f)

def fail (s : ImapSessionOpen K) (err : ImapSessionOpenError) (f : F) : Outcome K F :=
  (.complete (.error err), s, f)

section Resume

variable [SaslMechanisms K] [TryFrom String AString] [Fragmentizer F] [TryFrom Bytes Tag]
  [Encoder Command] [Encoder AuthenticateData]

/-- The resume of the authentication, errors converted. -/
def Auth.resume (auth : Auth K) (f : F) (arg : Option Bytes) :
    CoroutineState ImapYield (Except ImapSessionOpenError (List Capability)) × Auth K × F :=
  match auth with
  | .login auth =>
    let r := auth.resume f arg
    (r.1.tryOk id .login .ok, .login r.2.1, r.2.2)
  | .sasl auth =>
    let r := auth.resume f arg
    (r.1.tryOk id .auth .ok, .sasl r.2.1, r.2.2)

def resumeAuth (s : ImapSessionOpen K) (auth : Auth K) (f : F) (arg : Option Bytes) : Outcome K F :=
  match auth.resume f arg with
  | (.yielded y, auth, f) => (.yielded (.ofYield y), { s with state := .auth auth }, f)
  | (.complete (.error err), _, f) => s.fail err f
  | (.complete (.ok capability), _, f) => { s with capability }.complete f

/-- What follows the capabilities: the authentication, unless there is nothing to
authenticate. -/
def authenticate (s : ImapSessionOpen K) (f : F) : Outcome K F :=
  match s.wantsAuth with
  | (.error err, s) => s.fail err f
  | (.ok none, s) => s.complete f
  | (.ok (some auth), s) => s.resumeAuth auth f none

def resumeCapability (s : ImapSessionOpen K) (capability : ImapCapabilityGet) (f : F)
    (arg : Option Bytes) : Outcome K F :=
  match capability.resume f arg with
  | (.yielded y, capability, f) => (.yielded (.ofYield y), { s with state := .capability capability }, f)
  | (.complete (.error err), _, f) => s.fail (.capability err) f
  | (.complete (.ok capability), _, f) => { s with capability }.authenticate f

def resumeGreeting (s : ImapSessionOpen K) (greeting : ImapGreetingGet) (f : F)
    (arg : Option Bytes) : Outcome K F :=
  match greeting.resume f arg with
  | (.yielded y, greeting, f) => (.yielded (.ofYield y), { s with state := .greeting greeting }, f)
  | (.complete (.error err), _, f) => s.fail (.greeting err) f
  | (.complete (.ok greeting), _, f) =>
    { s with
      capability := greeting.capability
      preAuthenticated := greeting.preAuthenticated }.authenticate f

omit [SaslMechanisms K] [TryFrom String AString] [Fragmentizer F] [Encoder AuthenticateData] in
def resumeStartTls (s : ImapSessionOpen K) (startTls : ImapStartTls) (f : F) (arg : Option Bytes) :
    Outcome K F :=
  match startTls.resume arg with
  | (.yielded y, startTls) => (.yielded (.ofYield y), { s with state := .startTls startTls }, f)
  | (.complete (.error err), _) => s.fail (.startTls err) f
  | (.complete (.ok leftover), _) =>
    if leftover ≠ [] then s.fail .startTlsInjection f
    else (.yielded .wantsTlsUpgrade, { s with state := .upgraded }, f)

omit [SaslMechanisms K] [TryFrom String AString] [Fragmentizer F] [TryFrom Bytes Tag]
  [Encoder Command] [Encoder AuthenticateData] in
def resumeConnect (s : ImapSessionOpen K) (f : F) : Outcome K F :=
  if s.opts.starttls && s.transport.isTls then s.fail .startTlsOverTls f
  else (.yielded s.transport.connect, { s with state := .connected }, f)

def resume (s : ImapSessionOpen K) (f : F) (arg : Option Bytes) : Outcome K F :=
  match s.state with
  | .connect => s.resumeConnect f
  | .connected =>
    if s.opts.starttls then s.resumeStartTls .new f arg
    else s.resumeGreeting (.new ⟨true⟩) f arg
  | .startTls startTls => s.resumeStartTls startTls f arg
  -- the capabilities of before the upgrade are void
  | .upgraded => s.resumeCapability .new f arg
  | .capability capability => s.resumeCapability capability f arg
  | .greeting greeting => s.resumeGreeting greeting f arg
  | .auth auth => s.resumeAuth auth f arg

end Resume
end ImapSessionOpen

def imapSessionOpen (K : Type) [SaslMechanisms K] [TryFrom String AString] [TryFrom Bytes Tag]
    [Encoder Command] [Encoder AuthenticateData] :
    Coroutine (ImapSessionOpen K) Unit ImapSessionOpenYield
      (Except ImapSessionOpenError ImapSessionOpenData) where
  resume s f arg _ := s.resume f arg
  request := ImapSessionOpenYield.request

end IoImap
