import IoImap.Codec.Encoder
import IoImap.Coroutine

/-!
# The send primitive (send.rs)

`ImapSend` writes one message, pausing at its synchronising literals, and folds
the messages the server answers with until the exchange is over. The source's
`wants_write` and `wants_read` are set and flushed within one resume, so the
yield stands here where the source sets the flag; `State::Deserialize` never
lasts from one resume to the next, so it is the function `deserialize`.
-/

namespace IoImap
open Incremental Fragmentizer

inductive ImapSendError where
  | missingTag
  | invalidTag (err : ValidationError)
  | eof
  | decodingFailure (bytes : Bytes)
  | messageIsPoisoned (bytes : Bytes)
  | messageTooLong (bytes : Bytes)
  deriving DecidableEq

structure UntaggedCommand (M : Type) where
  body : CommandBody
  intoMessage : Command → M

structure Sent (M : Type) where
  message : M
  tag : Tag

/-- Where an exchange stands between two resumes. The untagged command exists
exactly while its tag is awaited, the message and the tag exactly from then on. -/
inductive ImapSend.State (M : Type) where
  | tag (command : UntaggedCommand M) (tagRequested : Bool)
  | serialize (sent : Sent M)
  | read (sent : Sent M)

structure ImapSend (M : Type) where
  state : ImapSend.State M
  fragments : List Fragment
  data : List Data
  untagged : List StatusBody
  tagged : Option Tagged
  bye : Option Bye
  cr : Option CommandContinuationRequest
  limboLiteral : Option Bytes
  done : Bool

structure ImapSendOutput (M : Type) where
  message : M
  tag : Tag
  data : List Data
  untagged : List StatusBody
  tagged : Option Tagged
  bye : Option Bye
  continuationRequest : Option CommandContinuationRequest

abbrev ImapSendResult (M : Type) :=
  CoroutineState ImapYield (Except ImapSendError (ImapSendOutput M))

def untaggedPrefix : Bytes := [42, 32]

namespace ImapSend

variable {M F : Type}

def fresh (state : State M) (fragments : List Fragment) : ImapSend M :=
  ⟨state, fragments, [], [], none, none, none, none, false⟩

def new [Encoder M] (message : M) (tag : Tag) : ImapSend M :=
  fresh (.serialize ⟨message, tag⟩) (Encoder.encode message)

def receive (message : M) (tag : Tag) : ImapSend M := fresh (.read ⟨message, tag⟩) []

def command (body : CommandBody) : ImapSend Command := fresh (.tag ⟨body, id⟩ false) []

/-- The serialiser's loop: everything up to the next synchronising literal goes
into the buffer, the literal is held back. -/
def takeFragments : List Fragment → Bytes → Bytes × Option Bytes × List Fragment
  | [], buf => (buf, none, [])
  | .line data :: rest, buf => takeFragments rest (buf ++ data)
  | .literal data .nonSync :: rest, buf => takeFragments rest (buf ++ data)
  | .literal data .sync :: rest, buf => (buf, some data, rest)

def takeBuffer (s : ImapSend M) : Bytes × ImapSend M :=
  let r := takeFragments s.fragments (s.limboLiteral.getD [])
  (r.1, { s with limboLiteral := r.2.1, fragments := r.2.2 })

def awaitRead (s : ImapSend M) (sent : Sent M) (f : F) : ImapSendResult M × ImapSend M × F :=
  (.yielded .wantsRead, { s with state := .read sent }, f)

def serialize (s : ImapSend M) (sent : Sent M) (f : F)
    (next : ImapSend M → ImapSendResult M × ImapSend M × F) : ImapSendResult M × ImapSend M × F :=
  let r := s.takeBuffer
  if r.1 = [] then next r.2
  else (.yielded (.wantsWrite r.1), { r.2 with state := .read sent }, f)

def accept (tag : Tag) (s : ImapSend M) (m : ServerMessage) : Except ImapSendError (ImapSend M) :=
  match m.decoded with
  | .ok (.data data) => .ok { s with data := s.data ++ [data] }
  | .ok (.status (.untagged status)) => .ok { s with untagged := s.untagged ++ [status] }
  | .ok (.status (.tagged tagged)) =>
    -- a completion of another command must not end this exchange
    if tagged.tag ≠ tag then .ok s else .ok { s with tagged := some tagged, done := true }
  | .ok (.status (.bye bye)) => .ok { s with bye := some bye, done := true }
  | .ok (.commandContinuationRequest cr) =>
    .ok { s with cr := some cr, done := s.limboLiteral.isNone }
  | .error .decodingFailure | .error .decodingRemainder =>
    -- an undecodable untagged response is skipped
    if untaggedPrefix <+: m.bytes then .ok s else .error (.decodingFailure m.bytes)
  | .error .messageTooLong => .error (.messageTooLong m.bytes)
  | .error .messagePoisoned => .error (.messageIsPoisoned m.bytes)

def output (s : ImapSend M) (sent : Sent M) : ImapSendOutput M :=
  ⟨sent.message, sent.tag, s.data, s.untagged, s.tagged, s.bye, s.cr⟩

def tag? (s : ImapSend M) : Option Tag :=
  match s.state with
  | .tag _ _ => none
  | .serialize sent => some sent.tag
  | .read sent => some sent.tag

/-- The three arms of `State::Deserialize` once the fragmentizer runs dry. -/
def settle (s : ImapSend M) (sent : Sent M) (f : F) : ImapSendResult M × ImapSend M × F :=
  if s.done then (.complete (.ok (s.output sent)), s, f)
  else if s.limboLiteral.isSome then s.serialize sent f (fun s => s.awaitRead sent f)
  else s.awaitRead sent f

variable [Fragmentizer F]

/-- `State::Deserialize`: every message the fragmentizer completes, then `settle`. -/
def deserialize (s : ImapSend M) (sent : Sent M) (f : F) : ImapSendResult M × ImapSend M × F :=
  match readMessages (accept sent.tag) s f with
  | (.ok s', f') => s'.settle sent f'
  | (.error err, f') => (.complete (.error err), s, f')

def read (s : ImapSend M) (sent : Sent M) (f : F) :
    Option Bytes → ImapSendResult M × ImapSend M × F
  | some [] => (.complete (.error .eof), s, f)
  | some data => s.deserialize sent (enqueueBytes f data)
  | none => s.awaitRead sent f

def resume [TryFrom Bytes Tag] [Encoder M] (s : ImapSend M) (f : F) (arg : Option Bytes) :
    ImapSendResult M × ImapSend M × F :=
  match s.state, arg with
  | .tag command _, some bytes =>
    match TryFrom.tryFrom bytes with
    | .error err => (.complete (.error (.invalidTag err)), s, f)
    | .ok tag =>
      let message := command.intoMessage ⟨tag, command.body⟩
      let s := { s with fragments := Encoder.encode message, state := .serialize ⟨message, tag⟩ }
      s.serialize ⟨message, tag⟩ f (fun s => s.awaitRead ⟨message, tag⟩ f)
  | .tag _ true, none => (.complete (.error .missingTag), s, f)
  | .tag command false, none => (.yielded .wantsTag, { s with state := .tag command true }, f)
  -- a write is yielded before the argument is looked at
  | .serialize sent, arg => s.serialize sent f (fun s => s.read sent f arg)
  | .read sent, arg => s.read sent f arg

theorem resume_none [TryFrom Bytes Tag] [Encoder M] (s : ImapSend M) (f : F)
    (out : ImapSendOutput M) : (s.resume f none).1 ≠ .complete (.ok out) := by
  unfold resume
  cases s.state with
  | tag command tagRequested => cases tagRequested <;> simp
  | serialize sent =>
    simp only [serialize]
    split <;> simp [read, awaitRead]
  | read sent => simp [read, awaitRead]

end ImapSend

def imapSend (M : Type) [TryFrom Bytes Tag] [Encoder M] :
    Coroutine (ImapSend M) Unit ImapYield (Except ImapSendError (ImapSendOutput M)) where
  resume s f arg _ := s.resume f arg
  request := ImapYield.request

/-! ### What one message does -/

namespace ServerMessage

variable (m : ServerMessage)

def data? : Option Data :=
  match m.decoded with
  | .ok (.data data) => some data
  | _ => none

def untagged? : Option StatusBody :=
  match m.decoded with
  | .ok (.status (.untagged status)) => some status
  | _ => none

def ownTagged? (tag : Tag) : Option Tagged :=
  match m.decoded with
  | .ok (.status (.tagged tagged)) => if tagged.tag = tag then some tagged else none
  | _ => none

def bye? : Option Bye :=
  match m.decoded with
  | .ok (.status (.bye bye)) => some bye
  | _ => none

def cr? : Option CommandContinuationRequest :=
  match m.decoded with
  | .ok (.commandContinuationRequest cr) => some cr
  | _ => none

/-- The error a message ends an exchange with, when it does: an undecodable
message is one unless it is an untagged response. -/
def refusal? : Option ImapSendError :=
  match m.decoded with
  | .ok _ => none
  | .error .decodingFailure | .error .decodingRemainder =>
    if untaggedPrefix <+: m.bytes then none else some (.decodingFailure m.bytes)
  | .error .messageTooLong => some (.messageTooLong m.bytes)
  | .error .messagePoisoned => some (.messageIsPoisoned m.bytes)

end ServerMessage

namespace ImapSend

variable {M F : Type}

def absorb (tag : Tag) (s : ImapSend M) (m : ServerMessage) : ImapSend M :=
  { s with
    data := s.data ++ m.data?.toList
    untagged := s.untagged ++ m.untagged?.toList
    tagged := (m.ownTagged? tag).or s.tagged
    bye := m.bye?.or s.bye
    cr := m.cr?.or s.cr
    done := if m.cr?.isSome then s.limboLiteral.isNone
      else s.done || (m.ownTagged? tag).isSome || m.bye?.isSome }

theorem accept_refuses (tag : Tag) :
    Refuses (accept (M := M) tag) ServerMessage.refusal? (absorb tag) := by
  constructor
  · intro s hx err h
    obtain ⟨bytes, decoded⟩ := hx
    rcases decoded with e | r
    · cases e <;> simp only [accept, ServerMessage.refusal?] at h ⊢
      case decodingFailure => split at h <;> simp_all
      case decodingRemainder => split at h <;> simp_all
      all_goals exact congrArg _ (Option.some.inj h)
    · simp [ServerMessage.refusal?] at h
  · intro s hx h
    obtain ⟨bytes, decoded⟩ := hx
    rcases decoded with e | (cr | d | (u | t | b))
    case error =>
      cases e <;> simp only [ServerMessage.refusal?] at h
      case decodingFailure => split at h <;> simp_all [accept, absorb, ServerMessage.data?,
        ServerMessage.untagged?, ServerMessage.ownTagged?, ServerMessage.bye?, ServerMessage.cr?]
      case decodingRemainder => split at h <;> simp_all [accept, absorb, ServerMessage.data?,
        ServerMessage.untagged?, ServerMessage.ownTagged?, ServerMessage.bye?, ServerMessage.cr?]
      all_goals simp at h
    case ok.status.tagged =>
      by_cases ht : t.tag = tag <;> simp [accept, absorb, ht, ServerMessage.data?,
        ServerMessage.untagged?, ServerMessage.ownTagged?, ServerMessage.bye?, ServerMessage.cr?]
    all_goals
      simp [accept, absorb, ServerMessage.data?, ServerMessage.untagged?,
        ServerMessage.ownTagged?, ServerMessage.bye?, ServerMessage.cr?]

end ImapSend
end IoImap
