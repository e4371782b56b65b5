import IoImap.Client.Operations

/-!
# The blocking client over a stream (client.rs)

`ImapClientStd` keeps a stream, the fragmentizer and the tag generator of a connection.
The stream and the generator are parameters, with what their documentation promises as
classes of their own. `ImapClientStd::run` serves the coroutines that yield `ImapYield`:
it drives a run of its coroutine, and does on the stream what that run asks for, and
nothing else.
-/

namespace IoImap
open Transition

def READ_BUFFER_SIZE : Nat := 16 * 1024

/-- `ImapStream`, as far as a call uses it: a read into a buffer of the given size and a
write of all octets. -/
class ImapStream (St : Type) where
  read : St → Nat → Except IoError Bytes × St
  writeAll : St → Bytes → Except IoError Unit × St

/-- What serves the yields of a coroutine. -/
structure Connection (St G : Type) where
  stream : St
  tags : G

structure ImapClientStd (F St G : Type) extends Connection St G where
  fragmentizer : F
  autoId : Option IdParameters := none
  preAuthenticated : Bool := false

def closedConnection : IoError := ⟨.unexpectedEof, "IMAP server closed the connection"⟩

namespace Connection

variable {St G E : Type} [ImapStream St] [TagGenerator G]

/-- `read_response`: a closed connection is a failure, never an empty read. -/
def readResponse (w : Connection St G) : Except IoError Bytes × Connection St G :=
  match ImapStream.read w.stream READ_BUFFER_SIZE with
  | (.error err, stream) => (.error err, { w with stream })
  | (.ok [], stream) => (.error closedConnection, { w with stream })
  | (.ok (b :: bs), stream) => (.ok (b :: bs), { w with stream })

/-- The arms of `ImapClientStd::run`. -/
def serve : Serve (Connection St G) ImapYield E
  | w, .wantsTag =>
    let r := TagGenerator.generate w.tags
    (.ok (some r.1.inner), { w with tags := r.2 })
  | w, .wantsRead =>
    match w.readResponse with
    | (.error err, w) => (.error (.io err), w)
    | (.ok bytes, w) => (.ok (some bytes), w)
  | w, .wantsWrite bytes =>
    match ImapStream.writeAll w.stream bytes with
    | (.error err, stream) => (.error (.io err), { w with stream })
    | (.ok (), stream) => (.ok none, { w with stream })

end Connection

/-- What `ImapClientStd::run` takes: a coroutine that yields `ImapYield` and returns a
result. -/
structure StandardCoroutine (S E V : Type) extends Coroutine S Unit ImapYield (Except E V) where
  request_eq : request = ImapYield.request
  unlogged : toCoroutine.Unlogged

/-- `ImapClientStd::run`, as far as it gets in so many passes: what it has returned, and
the client. -/
def ImapClientStd.run {F St G S E V : Type} [Fragmentizer F] [ImapStream St] [TagGenerator G]
    (client : ImapClientStd F St G) (c : StandardCoroutine S E V) (s : S) (n : Nat) :
    Option (Except (ImapClientError E) V) × ImapClientStd F St G :=
  let call := (Call.start s client.fragmentizer client.toConnection).run c.toCoroutine
    Connection.serve n
  (call.result, { client with toConnection := call.world, fragmentizer := call.fragmentizer })

/-! ### What happens on the stream -/

/-- An operation on the stream, with what came of it. -/
inductive StreamOp where
  | read (size : Nat) (result : Except IoError Bytes)
  | write (bytes : Bytes) (result : Except IoError Unit)

namespace StreamOp

def Performs {St : Type} [ImapStream St] (st : St) : StreamOp → St → Prop
  | .read size result, st' => ImapStream.read st size = (result, st')
  | .write bytes result, st' => ImapStream.writeAll st bytes = (result, st')

/-- The failure that an operation of the client ends its call with. -/
def failure? : StreamOp → Option IoError
  | .read _ (.error err) => some err
  | .read _ (.ok []) => some closedConnection
  | .write _ (.error err) => some err
  | _ => none

def received? : StreamOp → Option Bytes
  | .read _ (.ok (b :: bs)) => some (b :: bs)
  | _ => none

def written? : StreamOp → Option Bytes
  | .write bytes _ => some bytes
  | _ => none

/-- The yield that asks for an operation of `ImapClientStd::run`. -/
inductive Answers : StreamOp → ImapYield → Prop where
  | read (result : Except IoError Bytes) : Answers (.read READ_BUFFER_SIZE result) .wantsRead
  | write (bytes : Bytes) (result : Except IoError Unit) : Answers (.write bytes result) (.wantsWrite bytes)

end StreamOp

/-! ### The loop drives a run -/

namespace StreamOp

variable {op : StreamOp} {y : ImapYield}

theorem Answers.received (h : Answers op y) (hok : op.failure? = none) :
    y.request.answeredBy op.received? = true := by
  cases h with
  | read result =>
    rcases result with err | (- | ⟨b, bs⟩)
    · simp [failure?] at hok
    · simp [failure?] at hok
    · rfl
  | write bytes result => rfl

theorem received?_of_failure {err : IoError} (h : op.failure? = some err) : op.received? = none := by
  rcases op with ⟨size, err | (- | ⟨b, bs⟩)⟩ | ⟨bytes, result⟩
  · rfl
  · rfl
  · simp [failure?] at h
  · rfl

end StreamOp

namespace Connection

variable {St G E : Type} [ImapStream St] [TagGenerator G]

theorem serve_tag (w : Connection St G) : ∃ tag tags, Issues w.tags tag tags ∧
    serve (E := E) w .wantsTag = (.ok (some tag.inner), { w with tags }) :=
  ⟨_, _, rfl, rfl⟩

/-- A read or a write is one operation on the stream, whose failure is that of the call. -/
theorem serve_io (w : Connection St G) {y : ImapYield} (hy : y ≠ .wantsTag) : ∃ op stream,
    StreamOp.Answers op y ∧ op.Performs w.stream stream ∧
      serve (E := E) w y = (match op.failure? with
        | some err => .error (.io err)
        | none => .ok op.received?, { w with stream }) := by
  cases y with
  | wantsTag => exact absurd rfl hy
  | wantsRead =>
    rcases hr : ImapStream.read w.stream READ_BUFFER_SIZE with ⟨err | bytes, stream⟩
    · exact ⟨.read _ _, stream, .read _, hr, by simp only [serve, readResponse, hr]; rfl⟩
    · cases bytes with
      | nil => exact ⟨.read _ _, stream, .read _, hr, by simp only [serve, readResponse, hr]; rfl⟩
      | cons b bs =>
        exact ⟨.read _ _, stream, .read _, hr, by simp only [serve, readResponse, hr]; rfl⟩
  | wantsWrite bytes =>
    rcases hw : ImapStream.writeAll w.stream bytes with ⟨err | ⟨⟩, stream⟩
    · exact ⟨.write _ _, stream, .write _ _, hw, by simp only [serve, hw]; rfl⟩
    · exact ⟨.write _ _, stream, .write _ _, hw, by simp only [serve, hw]; rfl⟩

theorem serve_honours : Serve.Honours (serve : Serve (Connection St G) ImapYield E)
    ImapYield.request := by
  intro w y arg w' h
  by_cases hy : y = .wantsTag
  · obtain ⟨tag, tags, -, he⟩ := serve_tag (E := E) w
    rw [hy, he] at h
    obtain ⟨harg, -⟩ := Prod.mk.inj h
    rw [hy, ← Except.ok.inj harg]
    rfl
  · obtain ⟨op, stream, hop, -, he⟩ := serve_io (E := E) w hy
    rw [he] at h
    obtain ⟨harg, -⟩ := Prod.mk.inj h
    cases hf : op.failure? with
    | some err => simp [hf] at harg
    | none =>
      simp only [hf, Except.ok.injEq] at harg
      rw [← harg]
      exact hop.received hf

end Connection

/-- What `run` does with its stream and its tags. -/
def Connection.operations (St G E : Type) [ImapStream St] :
    Operations (Connection St G) ImapYield E StreamOp St G where
  place := Connection.stream
  tags := Connection.tags
  Performs := StreamOp.Performs
  Answers := StreamOp.Answers
  failure? op := op.failure?.map .io
  received? := StreamOp.received?

theorem Connection.serves_operations {S St G E V : Type} [ImapStream St] [TagGenerator G]
    (c : StandardCoroutine S E V) : (Connection.operations St G E).Serves c.toCoroutine Connection.serve
      (fun _ _ => True) where
  honours := c.request_eq ▸ Connection.serve_honours
  asks w y hy := by
    have hy' : y = .wantsTag := by
      rw [c.request_eq] at hy
      cases y with
      | wantsTag => rfl
      | wantsRead => simp [ImapYield.request] at hy
      | wantsWrite bytes => simp [ImapYield.request] at hy
    obtain ⟨tag, tags, hissues, hserve⟩ := Connection.serve_tag (E := E) w
    exact ⟨tag, { w with tags }, hissues, rfl, by rw [hy']; exact hserve⟩
  operates _ _ _ w y _ _ hy := by
    have hy' : y ≠ .wantsTag := by
      rintro rfl
      exact hy (by rw [c.request_eq]; rfl)
    obtain ⟨op, stream, hop, hperforms, hserve⟩ := Connection.serve_io (E := E) w hy'
    refine ⟨op, { w with stream }, hop, hperforms, rfl, ?_⟩
    rw [hserve]
    simp only [Connection.operations]
    cases op.failure? <;> rfl
  holds _ _ _ _ _ _ _ _ _ _ := trivial
  reads op y hop hy := by
    cases hop with
    | read result => exact absurd (by rw [c.request_eq]; rfl) hy
    | write bytes result => rfl
  failed op err hf := by
    obtain ⟨e, he, -⟩ := Option.map_eq_some_iff.mp hf
    exact StreamOp.received?_of_failure he

/-- The call of `ImapClientStd::run` after so many passes. -/
def ImapClientStd.call {F St G S E V : Type} [Fragmentizer F] [ImapStream St] [TagGenerator G]
    (client : ImapClientStd F St G) (c : StandardCoroutine S E V) (s : S) (n : Nat) :
    Call S F (Connection St G) E V :=
  (Call.start s client.fragmentizer client.toConnection).run c.toCoroutine Connection.serve n

theorem ImapClientStd.run_eq {F St G S E V : Type} [Fragmentizer F] [ImapStream St] [TagGenerator G]
    (client : ImapClientStd F St G) (c : StandardCoroutine S E V) (s : S) (n : Nat) :
    client.run c s n = ((client.call c s n).result,
      { client with
        toConnection := (client.call c s n).world
        fragmentizer := (client.call c s n).fragmentizer }) := rfl

abbrev Driven {S F St G E V : Type} [ImapStream St] [TagGenerator G] (c : Coroutine S Unit ImapYield
    (Except E V)) (w : Connection St G) (ts : List (Call.Resume S F ImapYield E V)) (b : Config S F)
    (call : Call S F (Connection St G) E V) (ops : List StreamOp) (tags : List Tag) : Prop :=
  (Connection.operations St G E).Driven c w ts b call ops tags

/-- Every call of `run` drives a run of its coroutine, and does on the stream and with the
tags what that run asks for. -/
theorem ImapClientStd.call_driven {S F St G E V : Type} [Fragmentizer F] [ImapStream St]
    [TagGenerator G] (c : StandardCoroutine S E V) (client : ImapClientStd F St G) (s : S) (n : Nat) :
    ∃ ts b ops tags, c.Runs s client.fragmentizer ts b ∧ (client.call c s n).Drives b ∧
      Driven c.toCoroutine client.toConnection ts b (client.call c s n) ops tags ∧
      ((client.call c s n).result = none → ts.length = n) :=
  (Connection.serves_operations c).driven c.unlogged s client.fragmentizer client.toConnection
    trivial n

/-- `run` performs on the stream the operations that the run of its coroutine asks for, in
this order and no others, answers each resume with what its operation came to, and returns
what the coroutine completes with or the failure of the last operation. -/
theorem ImapClientStd.run_performs {S F St G E V : Type} [Fragmentizer F] [ImapStream St]
    [TagGenerator G] (client : ImapClientStd F St G) (c : StandardCoroutine S E V) (s : S) (n : Nat) :
    ∃ ts b ops tags, c.Runs s client.fragmentizer ts b ∧
      b.frag = (client.run c s n).2.fragmentizer ∧
      Run StreamOp.Performs client.stream ops (client.run c s n).2.stream ∧
      Run Issues client.tags tags (client.run c s n).2.tags ∧
      List.Forall₂ StreamOp.Answers ops (ts.filterMap c.asked?) ∧
      (Connection.operations St G E).Shows ts ops (client.run c s n).1 ∧
      ts.filterMap Turn.given? <+: ops.filterMap StreamOp.received? ∧
      ts.filterMap Turn.tag? <+: tags.map Tag.inner ∧
      ((client.run c s n).1.isSome = true →
        ts.filterMap Turn.given? = ops.filterMap StreamOp.received? ∧
        ts.filterMap Turn.tag? = tags.map Tag.inner) := by
  obtain ⟨ts, b, ops, tags, hrun, hdrives, h, -⟩ := client.call_driven c s n
  refine ⟨ts, b, ops, tags, hrun, hdrives.frag, h.performed, h.issued, h.answers, h.shows,
    ⟨_, h.reads⟩, ⟨_, h.tagged⟩, fun hreturned => ?_⟩
  obtain ⟨hreads, htags⟩ := h.returned hreturned
  exact ⟨hreads, htags⟩

end IoImap
