import IoImap.Client.Run
import IoImap.Session.Unlogged

/-!
# Connecting (client/connect.rs, session.rs)

`connect` reads its transport out of the URL, draws the nonce that SCRAM credentials lack
and pumps `ImapSessionOpen`, which it gives the stream it asks for: connected once, and
upgraded by STARTTLS. The sockets are a parameter, with the settings that they are opened
with; so is the source of randomness.
-/

namespace IoImap
open Fragmentizer

/-! ### The transport of a URL -/

/-- A `Url`, as far as it is read. -/
structure Url where
  scheme : String
  hostStr : Option String
  port : Option Nat
  path : String
  asStr : String

/-- The variants of `ImapSessionOpenError` for a URL. -/
inductive ImapUrlError where
  | missingHost (url : String)
  | unsupportedScheme (url scheme : String)
  deriving DecidableEq

def eqIgnoreAsciiCase (a b : String) : Bool :=
  a.toList.map Char.toLower == b.toList.map Char.toLower

def defaultPort (scheme : String) : Nat := if eqIgnoreAsciiCase scheme "imaps" then 993 else 143

def ImapSessionTransport.fromUrl (url : Url) : Except ImapUrlError ImapSessionTransport :=
  if eqIgnoreAsciiCase url.scheme "unix" then .ok (.unix url.path)
  else
    match url.hostStr with
    | none => .error (.missingHost url.asStr)
    | some host =>
      let port := url.port.getD (defaultPort url.scheme)
      if eqIgnoreAsciiCase url.scheme "imap" then .ok (.tcp host port)
      else if eqIgnoreAsciiCase url.scheme "imaps" then .ok (.tls host port)
      else .error (.unsupportedScheme url.asStr url.scheme)

/-! ### The sockets and the nonce -/

/-- What `connect` calls on pimalaya-stream's `Stream`, its errors by their text, and one
draw of `Alphanumeric`. -/
class Network (N : Type) (St : outParam Type) where
  connectTcp : N → String → Nat → Except String St × N
  connectTls : N → String → Nat → Except String St × N
  connectUnix : N → String → Except String St × N
  upgradeTls : N → St → Except String St × N
  sample : N → Byte × N

section Nonce

variable {N St : Type} [Network N St]

/-- So many draws. -/
def sampleIter : Nat → N → Bytes × N
  | 0, network => ([], network)
  | n + 1, network =>
    let b := Network.sample network
    let bs := sampleIter n b.2
    (b.1 :: bs.1, bs.2)

/-- An empty nonce is none at all. -/
def withClientNonce (network : N) : Sasl → Sasl × N
  | .scramSha256 creds =>
    if creds.nonce.isEmpty then
      let nonce := sampleIter 24 network
      (.scramSha256 { creds with nonce := nonce.1 }, nonce.2)
    else (.scramSha256 creds, network)
  | sasl => (sasl, network)

def withNonce (network : N) : Option Sasl → Option Sasl × N
  | none => (none, network)
  | some sasl =>
    let r := withClientNonce network sasl
    (some r.1, r.2)

theorem sampleIter_length (n : Nat) (network : N) : (sampleIter n network).1.length = n := by
  induction n generalizing network with
  | zero => rfl
  | succ n ih => rw [sampleIter, List.length_cons, ih]

/-- The SCRAM credentials that a session gets have a nonce. -/
theorem withClientNonce_nonce {network : N} {sasl : Sasl} {creds : SaslScramCreds}
    (h : (withClientNonce network sasl).1 = .scramSha256 creds) : creds.nonce ≠ [] := by
  cases sasl with
  | scramSha256 given =>
    rw [withClientNonce] at h
    split at h
    · obtain rfl := Sasl.scramSha256.inj h
      refine List.ne_nil_of_length_pos ?_
      rw [sampleIter_length]
      decide
    · rename_i hne
      obtain rfl := Sasl.scramSha256.inj h
      exact fun hnil => hne (List.isEmpty_iff.mpr hnil)
  | _ => cases h

end Nonce

/-! ### The loop -/

/-- What serves the yields of a session: the stream is there once it is connected. -/
structure Dialing (N St G : Type) where
  network : N
  stream : Option St
  tags : G

def yieldedBeforeConnecting : IoError := ⟨.other, "IMAP session yielded I/O before connecting"⟩

namespace Dialing

variable {N St G E : Type} [Network N St] [ImapStream St] [TagGenerator G]

/-- The stream of a connection or of an upgrade. -/
def opened (w : Dialing N St G) (r : Except String St × N) :
    Except (ImapClientError E) (Option Bytes) × Dialing N St G :=
  match r with
  | (.error err, network) => (.error (.tls err), { w with network })
  | (.ok stream, network) => (.ok none, { w with network, stream := some stream })

/-- The arms that are those of `ImapClientStd::run`. -/
def converse (w : Dialing N St G) (y : ImapYield) :
    Except (ImapClientError E) (Option Bytes) × Dialing N St G :=
  match w.stream with
  | none => (.error (.io yieldedBeforeConnecting), w)
  | some stream =>
    let r := Connection.serve ⟨stream, w.tags⟩ y
    (r.1, { w with stream := some r.2.stream, tags := r.2.tags })

/-- The arms of `connect`. -/
def serve : Serve (Dialing N St G) ImapSessionOpenYield E
  | w, .wantsTcpConnect host port => w.opened (Network.connectTcp w.network host port)
  | w, .wantsTlsConnect host port => w.opened (Network.connectTls w.network host port)
  | w, .wantsUnixConnect path => w.opened (Network.connectUnix w.network path)
  | w, .wantsTlsUpgrade =>
    match w.stream with
    | none => (.error (.io yieldedBeforeConnecting), w)
    | some plain => { w with stream := none }.opened (Network.upgradeTls w.network plain)
  | w, .wantsTag =>
    let r := TagGenerator.generate w.tags
    (.ok (some r.1.inner), { w with tags := r.2 })
  | w, .wantsRead => w.converse .wantsRead
  | w, .wantsWrite bytes => w.converse (.wantsWrite bytes)

end Dialing

structure ImapClientStdConnectOptions where
  sasl : Option Sasl := none
  session : ImapSessionOpenOptions := {}

inductive ImapConnectError where
  | url (err : ImapUrlError)
  | client (err : ImapClientError ImapSessionOpenError)
  deriving DecidableEq

section Connect

variable {K F N St G : Type} [SaslMechanisms K] [TryFrom String AString] [TryFrom Bytes Tag]
  [Encoder Command] [Encoder AuthenticateData] [Fragmentizer F] [Network N St] [ImapStream St]
  [TagGenerator G]

/-- What `connect` returns for what its loop came to. -/
def connected (f : F) (w : Dialing N St G) : Except (ImapClientError ImapSessionOpenError)
    ImapSessionOpenData → Except ImapConnectError (ImapClientStd F St G × List Capability)
  | .error err => .error (.client err)
  | .ok data =>
    match w.stream with
    | none => .error (.client (.io yieldedBeforeConnecting))
    | some stream =>
      .ok (⟨⟨stream, w.tags⟩, f, none, data.preAuthenticated⟩, data.capability)

variable (K) in
/-- The loop of `connect` after so many passes. -/
def ImapClientStd.dial (network : N) (f : F) (tags : G) (transport : ImapSessionTransport)
    (opts : ImapClientStdConnectOptions) (n : Nat) :
    Call (ImapSessionOpen K) F (Dialing N St G) ImapSessionOpenError ImapSessionOpenData :=
  let r := withNonce network opts.sasl
  (Call.start (.new transport r.1 opts.session) f ⟨r.2, none, tags⟩).run (imapSessionOpen K)
    Dialing.serve n

variable (K) in
/-- `ImapClientStd::connect`, as far as it gets in so many passes: `f` and `tags` are the
fresh fragmentizer and generator. -/
def ImapClientStd.connect (network : N) (f : F) (tags : G) (url : Url)
    (opts : ImapClientStdConnectOptions) (n : Nat) :
    Option (Except ImapConnectError (ImapClientStd F St G × List Capability)) :=
  match ImapSessionTransport.fromUrl url with
  | .error err => some (.error (.url err))
  | .ok transport =>
    let call := ImapClientStd.dial K network f tags transport opts n
    call.result.map (connected call.fragmentizer call.world)

end Connect
end IoImap
