import IoImap.Client.Run
import IoImap.Rfc3501.BodyDelivery

/-!
# Bodies into sinks (client.rs)

`fetch_body_stream` writes the body of one message into the sink it is given;
`fetch_bodies_stream` has its caller open a sink for each message, writes the body into it
and hands it back. What the coroutine has not buffered of a body both copy from the stream
into the sink.
-/

namespace IoImap
open Fragmentizer Transition

def BODY_COPY_BUFFER_SIZE : Nat := 128 * 1024

/-- `Write`, as far as a body is written to it. -/
class Sink (Sk : Type) where
  writeAll : Sk → Bytes → Except IoError Unit × Sk

/-- The closures `open` and `done`, with what they capture. -/
class OpensSinks (C : Type) (Sk : outParam Type) where
  openSink : C → Nat → Except IoError Sk × C
  done : C → Nat → Sk → Except IoError Unit × C

/-- A read returns no more than the buffer takes. -/
class LawfulStream (St : Type) [ImapStream St] : Prop where
  read_le : ∀ (st : St) (size : Nat) (bytes : Bytes) (st' : St),
    ImapStream.read st size = (.ok bytes, st') → bytes.length ≤ size

section Copy

variable {St Sk : Type} [ImapStream St] [Sink Sk]

/-- The copy of what `remaining` octets are left of a body, with the answer to the coroutine:
an empty one when the stream ends before them. -/
def copyBody (stream : St) (sink : Sk) (remaining : Nat) :
    Except IoError (Option Bytes) × St × Sk :=
  if _h : remaining = 0 then (.ok none, stream, sink)
  else
    match ImapStream.read stream (min remaining BODY_COPY_BUFFER_SIZE) with
    | (.error err, stream) => (.error err, stream, sink)
    | (.ok [], stream) => (.ok (some []), stream, sink)
    | (.ok (b :: bs), stream) =>
      match Sink.writeAll sink (b :: bs) with
      | (.error err, sink) => (.error err, stream, sink)
      | (.ok (), sink) => copyBody stream sink (remaining - (b :: bs).length)
termination_by remaining
decreasing_by
  simp only [List.length_cons]
  omega

theorem copyBody_answers (stream : St) (sink : Sk) (len : Nat) {arg : Option Bytes}
    (h : (copyBody stream sink len).1 = .ok arg) : (Request.stream len).answeredBy arg = true := by
  fun_induction copyBody stream sink len with
  | case1 => obtain rfl := Except.ok.inj h; rfl
  | case2 => simp at h
  | case3 => obtain rfl := Except.ok.inj h; rfl
  | case4 => simp at h
  | case5 stream sink len hlen b bs stream' hread sink' hwrite ih => exact ih h

end Copy

/-! ### The loops -/

/-- What serves the yields of the single FETCH. -/
structure BodyCall (St G Sk : Type) extends Connection St G where
  sink : Sk

/-- What serves the yields of the batched FETCH: `current` is the sink of the message that
is streaming. -/
structure BodiesCall (St G C Sk : Type) extends Connection St G where
  caller : C
  current : Option (Nat × Sk)

namespace BodyCall

variable {St G Sk : Type} [ImapStream St] [TagGenerator G] [Sink Sk]

/-- The arms that are those of `ImapClientStd::run`. -/
def converse (w : BodyCall St G Sk) (y : ImapYield) :
    Except (ImapClientError ImapMessageFetchStreamError) (Option Bytes) × BodyCall St G Sk :=
  let r := Connection.serve w.toConnection y
  (r.1, { w with toConnection := r.2 })

/-- The arms of `fetch_body_stream`. -/
def serve : Serve (BodyCall St G Sk) ImapMessageFetchStreamYield ImapMessageFetchStreamError
  | w, .wantsTag => w.converse .wantsTag
  | w, .wantsRead => w.converse .wantsRead
  | w, .wantsWrite bytes => w.converse (.wantsWrite bytes)
  | w, .bodyChunk bytes =>
    match Sink.writeAll w.sink bytes with
    | (.error err, sink) => (.error (.io err), { w with sink })
    | (.ok (), sink) => (.ok none, { w with sink })
  | w, .wantsStream len =>
    match copyBody w.stream w.sink len with
    | (.error err, stream, sink) => (.error (.io err), { w with stream, sink })
    | (.ok arg, stream, sink) => (.ok arg, { w with stream, sink })

omit [Sink Sk] in
theorem converse_inv {w w' : BodyCall St G Sk} (y : ImapYield)
    {r : Except (ImapClientError ImapMessageFetchStreamError) (Option Bytes)}
    (h : w.converse y = (r, w')) : Connection.serve w.toConnection y = (r, w'.toConnection) := by
  obtain ⟨hr, rfl⟩ := Prod.mk.inj h
  exact Prod.ext hr rfl

end BodyCall

namespace BodiesCall

variable {St G C Sk : Type} [ImapStream St] [TagGenerator G] [Sink Sk] [OpensSinks C Sk]

def converse (w : BodiesCall St G C Sk) (y : ImapYield) :
    Except (ImapClientError ImapMessageFetchStreamBatchError) (Option Bytes) ×
      BodiesCall St G C Sk :=
  let r := Connection.serve w.toConnection y
  (r.1, { w with toConnection := r.2 })

/-- The arms of `fetch_bodies_stream`; each `expect` of the source is a match on `current`. -/
def serve :
    Serve (BodiesCall St G C Sk) ImapMessageFetchStreamBatchYield ImapMessageFetchStreamBatchError
  | w, .wantsTag => w.converse .wantsTag
  | w, .wantsRead => w.converse .wantsRead
  | w, .wantsWrite bytes => w.converse (.wantsWrite bytes)
  | w, .messageStart uid =>
    match OpensSinks.openSink w.caller uid with
    | (.error err, caller) => (.error (.io err), { w with caller })
    | (.ok sink, caller) => (.ok none, { w with caller, current := some (uid, sink) })
  | w, .bodyChunk bytes =>
    match w.current with
    | none => (.error .panicked, w)
    | some (uid, sink) =>
      match Sink.writeAll sink bytes with
      | (.error err, sink) => (.error (.io err), { w with current := some (uid, sink) })
      | (.ok (), sink) => (.ok none, { w with current := some (uid, sink) })
  | w, .wantsStream len =>
    match w.current with
    | none => (.error .panicked, w)
    | some (uid, sink) =>
      match copyBody w.stream sink len with
      | (.error err, stream, sink) =>
        (.error (.io err), { w with stream, current := some (uid, sink) })
      | (.ok arg, stream, sink) => (.ok arg, { w with stream, current := some (uid, sink) })
  | w, .messageEnd =>
    match w.current with
    | none => (.error .panicked, w)
    | some (uid, sink) =>
      match OpensSinks.done w.caller uid sink with
      | (.error err, caller) => (.error (.io err), { w with caller, current := none })
      | (.ok (), caller) => (.ok none, { w with caller, current := none })

omit [Sink Sk] [OpensSinks C Sk] in
theorem converse_inv {w w' : BodiesCall St G C Sk} (y : ImapYield)
    {r : Except (ImapClientError ImapMessageFetchStreamBatchError) (Option Bytes)}
    (h : w.converse y = (r, w')) : Connection.serve w.toConnection y = (r, w'.toConnection) := by
  obtain ⟨hr, rfl⟩ := Prod.mk.inj h
  exact Prod.ext hr rfl

end BodiesCall

namespace ImapClientStd

variable {F St G : Type} [Fragmentizer F] [ImapStream St] [TagGenerator G] [TryFrom Bytes Tag]
  [Encoder Command]

abbrev ReturnsUnit (E : Type) := Option (Except (ImapClientError E) Unit)

/-- `fetch_body_stream`, as far as it gets in so many passes: what it has returned, the
client, and the sink. -/
def fetchBodyStream {Sk : Type} [Sink Sk] (client : ImapClientStd F St G) (id : NonZeroU32)
    (uid : Bool) (sink : Sk) (n : Nat) :
    ReturnsUnit ImapMessageFetchStreamError × ImapClientStd F St G × Sk :=
  let world : BodyCall St G Sk := ⟨client.toConnection, sink⟩
  let call := (Call.start (ImapMessageFetchStream.new id uid) client.fragmentizer world).run
    imapMessageFetchStream BodyCall.serve n
  (call.result, { client with
    toConnection := call.world.toConnection
    fragmentizer := call.fragmentizer }, call.world.sink)

/-- `fetch_bodies_stream`, as far as it gets in so many passes: what it has returned, the
client, and what its closures captured. -/
def fetchBodiesStream {C Sk : Type} [Sink Sk] [OpensSinks C Sk] (client : ImapClientStd F St G)
    (sequenceSet : SequenceSet) (uid : Bool) (caller : C) (n : Nat) :
    ReturnsUnit ImapMessageFetchStreamBatchError × ImapClientStd F St G × C :=
  let world : BodiesCall St G C Sk := ⟨client.toConnection, caller, none⟩
  let call := (Call.start (ImapMessageFetchStreamBatch.new sequenceSet { uid := uid })
    client.fragmentizer world).run imapMessageFetchStreamBatch BodiesCall.serve n
  (call.result, { client with
    toConnection := call.world.toConnection
    fragmentizer := call.fragmentizer }, call.world.caller)

end ImapClientStd
end IoImap
