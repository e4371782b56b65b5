import IoImap.Codec.CommandEncoder
import IoImap.Rfc3501.Append

/-!
# APPEND, streamed (rfc3501/append_stream.rs)

The request line is encoded with an empty literal, whose announcement is then
replaced by one of the declared length; the message goes from the caller's
source to the socket between two writes. The command and the closing octets are
kept in the states that still need them, and `State::WriteCrlf`, which never
lasts from one resume to the next, is part of `State::Stream`.
-/

namespace IoImap
open Fragmentizer

inductive ImapMessageAppendStreamError where
  | no (text : String)
  | bad (text : String)
  | bye (text : String)
  | missingTagged
  | shortMessage
  | send (err : ImapSendError)
  /-- Not an error of the source: a header that does not end in the empty literal. -/
  | panicked
  deriving DecidableEq

def ImapMessageAppendStreamError.of : ImapCommandError → ImapMessageAppendStreamError
  | .no text => .no text
  | .bad text => .bad text
  | .bye text => .bye text
  | .missingTagged => .missingTagged
  | .send err => .send err

inductive ImapMessageAppendStreamYield where
  | wantsTag
  | wantsRead
  | wantsWrite (bytes : Bytes)
  | wantsStream
  deriving DecidableEq

def ImapMessageAppendStreamYield.ofYield : ImapYield → ImapMessageAppendStreamYield
  | .wantsTag => .wantsTag
  | .wantsRead => .wantsRead
  | .wantsWrite bytes => .wantsWrite bytes

inductive ImapMessageAppendStream.State where
  | writeHeader (body : CommandBody)
  | continuation (recv : ImapSend Command) (command : Command) (crlf : Bytes)
  | stream (command : Command) (crlf : Bytes)
  | recv (recv : ImapSend Command)

structure ImapMessageAppendStream where
  state : ImapMessageAppendStream.State
  /-- A `u32`. -/
  len : Nat
  tagRequested : Bool
  nonSync : Bool
  streamPending : Bool

abbrev ImapMessageAppendStreamResult :=
  CoroutineState ImapMessageAppendStreamYield
    (Except ImapMessageAppendStreamError ImapMessageAppendOutput)

namespace ImapMessageAppendStream

variable {F : Type}

def EMPTY_LITERAL : Bytes := ascii "\x7b0+\x7d\r\n"

def body [Base64Codec] [TryFrom String Mailbox] (mailbox : Mailbox)
    (opts : ImapMessageAppendOptions) : CommandBody :=
  .append (encodeInplace mailbox) opts.flags opts.date ⟨[], .nonSync⟩

def new [Base64Codec] [TryFrom String Mailbox] (mailbox : Mailbox) (len : Nat)
    (opts : ImapMessageAppendOptions) : ImapMessageAppendStream :=
  ⟨.writeHeader (body mailbox opts), len, false, opts.nonSync, false⟩

def isLiteral : Fragment → Bool
  | .literal _ _ => true
  | .line _ => false

/-- The fragments around the last literal, which is dropped: the header in front
of it and the closing octets behind it. -/
def splitMessage (fragments : List Fragment) : Option (Bytes × Bytes) :=
  let closing := fragments.reverse.takeWhile fun fragment => !isLiteral fragment
  match fragments.reverse.dropWhile fun fragment => !isLiteral fragment with
  | [] => none
  | _ :: header => some (header.reverse.flatMap Fragment.data, closing.reverse.flatMap Fragment.data)

/-- The header with the announcement of the declared length in place of the empty
literal's. -/
def announced (header : Bytes) (len : Nat) (nonSync : Bool) : Bytes :=
  header.take (header.length - EMPTY_LITERAL.length) ++
    announcement len (if nonSync then .nonSync else .sync)

def resumeHeader [TryFrom Bytes Tag] [Encoder Command] (s : ImapMessageAppendStream)
    (body : CommandBody) (f : F) (arg : Option Bytes) :
    ImapMessageAppendStreamResult × ImapMessageAppendStream × F :=
  match arg with
  | some bytes =>
    match TryFrom.tryFrom (β := Tag) bytes with
    | .error err => (.complete (.error (.send (.invalidTag err))), s, f)
    | .ok tag =>
      let command : Command := ⟨tag, body⟩
      match splitMessage (Encoder.encode command) with
      | none => (.complete (.error .panicked), s, f)
      | some (header, crlf) =>
        if EMPTY_LITERAL <:+ header then
          let state := if s.nonSync then State.stream command crlf
            else .continuation (.receive command tag) command crlf
          (.yielded (.wantsWrite (announced header s.len s.nonSync)), { s with state := state }, f)
        else (.complete (.error .panicked), s, f)
  | none =>
    if s.tagRequested then (.complete (.error (.send .missingTag)), s, f)
    else (.yielded .wantsTag, { s with tagRequested := true }, f)

def resumeStream (s : ImapMessageAppendStream) (command : Command) (crlf : Bytes) (f : F)
    (arg : Option Bytes) : ImapMessageAppendStreamResult × ImapMessageAppendStream × F :=
  if s.streamPending then
    let s := { s with streamPending := false }
    if arg = some [] then (.complete (.error .shortMessage), s, f)
    else
      (.yielded (.wantsWrite crlf), { s with state := .recv (.receive command command.tag) }, f)
  else
    (.yielded .wantsStream, { s with state := .stream command crlf, streamPending := true }, f)

variable [Fragmentizer F] [TryFrom Bytes Tag] [Encoder Command]

/-- `State::Continuation`. A completion instead of the continuation request is a refusal. -/
def resumeContinuation (s : ImapMessageAppendStream) (recv : ImapSend Command) (command : Command)
    (crlf : Bytes) (f : F) (arg : Option Bytes) :
    ImapMessageAppendStreamResult × ImapMessageAppendStream × F :=
  match recv.resume f arg with
  | (.yielded y, recv, f) => (.yielded (.ofYield y), { s with state := .continuation recv command crlf }, f)
  | (.complete (.error err), _, f) => (.complete (.error (.send err)), s, f)
  | (.complete (.ok out), _, f) =>
    match out.bye, out.tagged with
    | some bye, _ => (.complete (.error (.bye bye.text)), s, f)
    | none, some tagged =>
      match tagged.body.kind with
      | .no => (.complete (.error (.no tagged.body.text)), s, f)
      | _ => (.complete (.error (.bad tagged.body.text)), s, f)
    | none, none => s.resumeStream command crlf f none

def resumeRecv (s : ImapMessageAppendStream) (recv : ImapSend Command) (f : F) (arg : Option Bytes) :
    ImapMessageAppendStreamResult × ImapMessageAppendStream × F :=
  let r := commandResume ImapMessageAppend.decode recv f arg
  (match r.1 with
    | .yielded y => .yielded (.ofYield y)
    | .complete result => .complete (result.mapError .of),
    { s with state := .recv r.2.1 }, r.2.2)

def resume (s : ImapMessageAppendStream) (f : F) (arg : Option Bytes) :
    ImapMessageAppendStreamResult × ImapMessageAppendStream × F :=
  match s.state with
  | .writeHeader body => s.resumeHeader body f arg
  | .continuation recv command crlf => s.resumeContinuation recv command crlf f arg
  | .stream command crlf => s.resumeStream command crlf f arg
  | .recv recv => s.resumeRecv recv f arg

end ImapMessageAppendStream
end IoImap
