import IoImap.Coroutine

/-!
# SASL mechanisms (io-sasl)

io-sasl is not part of the repository: its mechanisms are a parameter, one type
that holds the state of any of them, made from credentials and resumed with what
the server said. `Recorded` wraps a mechanism and writes down what it was given
and what it answered, as `Logged` does for a fragmentizer.
-/

namespace IoImap

structure SaslAnonymousCreds where
  message : Option String

structure SaslLoginCreds where
  username : String
  password : String

structure SaslPlainCreds where
  authzid : Option String
  authcid : String
  passwd : String

structure SaslOauthbearerCreds where
  username : String
  host : String
  /-- A `u16`. -/
  port : Nat
  token : String

structure SaslXoauth2Creds where
  username : String
  token : String

/-- `SaslScramCreds`, without the channel binding, which only io-sasl reads. -/
structure SaslScramCreds where
  username : String
  password : String
  nonce : Bytes

inductive SaslArg where
  | none
  | input (challenge : Bytes)
  | done
  deriving DecidableEq

inductive SaslYield where
  | wantsWrite (payload : Bytes)
  | wantsRead
  deriving DecidableEq

/-- The errors of the mechanisms; `rejected` is the one that XOAUTH2 and OAUTHBEARER
hold the server's reason in. -/
inductive SaslError where
  | rejected (err : String)
  | other (err : String)
  deriving DecidableEq

abbrev SaslState := CoroutineState SaslYield (Except SaslError Unit)

class SaslCoroutine (K : Type) where
  resume : K → SaslArg → SaslState × K

/-- io-sasl, as far as the crate calls it. -/
class SaslMechanisms (K : Type) extends SaslCoroutine K where
  anonymous : SaslAnonymousCreds → K
  login : SaslLoginCreds → K
  plain : SaslPlainCreds → K
  oauthbearer : SaslOauthbearerCreds → K
  xoauth2 : SaslXoauth2Creds → K
  scramSha256 : SaslScramCreds → K

/-- A mechanism with the record of its resumes. -/
structure Recorded (K : Type) where
  mechanism : K
  record : List (SaslArg × SaslState)

instance (K : Type) [SaslCoroutine K] : SaslCoroutine (Recorded K) where
  resume k arg :=
    let r := SaslCoroutine.resume k.mechanism arg
    (r.1, ⟨r.2, k.record ++ [(arg, r.1)]⟩)

namespace Concrete

/-- A mechanism whose answers do not depend on what the server says, as those of
ANONYMOUS, LOGIN, PLAIN and the bearer mechanisms do not unless they are rejected. -/
structure Scripted where
  answers : List (Option Bytes)

def Scripted.resume (k : Scripted) : SaslArg → SaslState × Scripted
  | .done => (.complete (if k.answers = [] then .ok () else .error (.other "incomplete")), k)
  | _ =>
    match k.answers with
    | [] => (.complete (.error (.other "unexpected challenge")), k)
    | none :: rest => (.yielded .wantsRead, ⟨rest⟩)
    | some payload :: rest => (.yielded (.wantsWrite payload), ⟨rest⟩)

def bearer (username : String) (address : Bytes) (token : String) : Bytes :=
  ascii username ++ address ++ ascii "auth=Bearer " ++ ascii token ++ [1, 1]

/-- SCRAM is not scripted. -/
scoped instance : SaslMechanisms Scripted where
  resume := Scripted.resume
  anonymous creds := ⟨[some (ascii (creds.message.getD ""))]⟩
  login creds := ⟨[none, some (ascii creds.username), some (ascii creds.password)]⟩
  plain creds := ⟨[some (ascii (creds.authzid.getD "") ++ [0] ++ ascii creds.authcid ++ [0] ++
    ascii creds.passwd)]⟩
  oauthbearer creds := ⟨[some (bearer ("n,a=" ++ creds.username ++ ",")
    ([1] ++ ascii ("host=" ++ creds.host) ++ [1] ++ ascii ("port=" ++ toString creds.port) ++ [1])
    creds.token)]⟩
  xoauth2 creds := ⟨[some (bearer ("user=" ++ creds.username) [1] creds.token)]⟩
  scramSha256 _ := ⟨[]⟩

end Concrete
end IoImap
