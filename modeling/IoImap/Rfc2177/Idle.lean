import IoImap.Send.Fold

/-!
# IDLE (rfc2177/idle.rs)

`ImapIdle` sends IDLE, reads until the shared flag is set or the timer expires,
and sends DONE; when the timer had expired it starts over. The flag and the
clock are inputs of a resume: within one resume the code looks at the flag at
most once, and at the clock once when it starts the timer and at most once to
test it. A new IDLE command always asks for its tag first, so the loop of the
source is unrolled arm by arm.
-/

namespace IoImap
open Fragmentizer

inductive ImapIdleError where
  | no (text : String)
  | bad (text : String)
  | bye (text : String)
  | unexpectedTagged
  | expectedContinuationRequest
  | missingTagged
  | eof
  | decodingFailure (bytes : Bytes)
  | messageIsPoisoned (bytes : Bytes)
  | messageTooLong (bytes : Bytes)
  | send (err : ImapSendError)
  deriving DecidableEq

structure ImapIdleEvent where
  untagged : List StatusBody
  data : List Data
  deriving DecidableEq

inductive ImapIdleYield where
  | wantsTag
  | wantsRead
  | wantsWrite (bytes : Bytes)
  | event (event : ImapIdleEvent)

def ImapIdleYield.ofYield : ImapYield → ImapIdleYield
  | .wantsTag => .wantsTag
  | .wantsRead => .wantsRead
  | .wantsWrite bytes => .wantsWrite bytes

def ImapIdleYield.request : ImapIdleYield → Request
  | .wantsTag => .tag
  | .wantsRead => .read
  | .wantsWrite _ => .nothing
  | .event _ => .nothing

def IDLE_DEFAULT_TIMEOUT : Nat := 29 * 10 ^ 9

/-- `ImapIdleOptions`; durations and clock readings are in nanoseconds. -/
structure ImapIdleOptions where
  timeout : Option Nat

/-- What the environment decides during one resume: the shared flag, the clock
when the resume starts and when the timer is tested. -/
structure ImapIdleEnv where
  done : Bool
  start : Nat
  check : Nat

/-- `State`. The tag of the IDLE is kept exactly while reading. -/
inductive ImapIdle.State where
  | idle (send : ImapSend Command)
  | read (tag : Tag)
  | done (send : ImapSend IdleDone)

structure ImapIdle where
  state : ImapIdle.State
  data : List Data
  untagged : List StatusBody
  bye : Option Bye
  opts : ImapIdleOptions
  timer : Option Nat

abbrev ImapIdleResult := CoroutineState ImapIdleYield (Except ImapIdleError Unit)

namespace ImapIdle

variable {F : Type}

def new (opts : ImapIdleOptions) : ImapIdle :=
  ⟨.idle (.command .idle), [], [], none, opts, none⟩

def timeout (s : ImapIdle) : Nat := s.opts.timeout.getD IDLE_DEFAULT_TIMEOUT

def timedOut (s : ImapIdle) (now : Nat) : Bool :=
  match s.timer with
  | some t => decide (s.timeout ≤ now - t)
  | none => false

def startTimer (s : ImapIdle) (now : Nat) : ImapIdle :=
  match s.timer with
  | some _ => s
  | none => { s with timer := some now }

def reading (s : ImapIdle) : Bool :=
  match s.state with
  | .read _ => true
  | _ => false

def doneSend? (s : ImapIdle) : Option (ImapSend IdleDone) :=
  match s.state with
  | .done send => some send
  | _ => none

def accept (s : ImapIdle) (m : ServerMessage) : Except ImapIdleError ImapIdle :=
  match m.decoded with
  | .ok (.data data) => .ok { s with data := s.data ++ [data] }
  | .ok (.status (.untagged status)) => .ok { s with untagged := s.untagged ++ [status] }
  | .ok (.status (.tagged _)) => .ok s
  | .ok (.status (.bye bye)) => .ok { s with bye := some bye }
  | .ok (.commandContinuationRequest _) => .ok s
  | .error .decodingFailure | .error .decodingRemainder => .error (.decodingFailure m.bytes)
  | .error .messageTooLong => .error (.messageTooLong m.bytes)
  | .error .messagePoisoned => .error (.messageIsPoisoned m.bytes)

def takeEvent (s : ImapIdle) : ImapIdleEvent × ImapIdle :=
  (⟨s.untagged, s.data⟩, { s with data := [], untagged := [] })

/-- `State::Idle` with a new IDLE command and no argument: it asks for its tag. -/
def reissue (s : ImapIdle) (f : F) : ImapIdleResult × ImapIdle × F :=
  (.yielded .wantsTag, { s with state := .idle (.fresh (.tag ⟨.idle, id⟩ true) []) }, f)

theorem reissue_eq [Fragmentizer F] [TryFrom Bytes Tag] [Encoder Command] (f : F) :
    (ImapSend.command .idle).resume f none =
      (.yielded .wantsTag, ImapSend.fresh (.tag ⟨.idle, id⟩ true) [], f) := rfl

def doneOver (s : ImapIdle) (out : ImapSendOutput IdleDone) (f : F) (env : ImapIdleEnv) :
    ImapIdleResult × ImapIdle × F :=
  match out.bye, out.tagged with
  | some bye, _ => (.complete (.error (.bye bye.text)), s, f)
  | none, none => (.complete (.error .missingTagged), s, f)
  | none, some tagged =>
    let timedOut := s.timedOut env.check
    let s := { s with timer := none }
    match tagged.body.kind with
    | .ok => if timedOut then s.reissue f else (.complete (.ok ()), s, f)
    | .no => (.complete (.error (.no tagged.body.text)), s, f)
    | .bad => (.complete (.error (.bad tagged.body.text)), s, f)

/-- IDLE reported something. -/
def isEvent : ImapIdleResult → Bool
  | .yielded (.event _) => true
  | _ => false

theorem isEvent_ofYield (y : ImapYield) : isEvent (.yielded (.ofYield y)) = false := by
  cases y <;> rfl

variable [Fragmentizer F] [TryFrom Bytes Tag] [Encoder Command] [Encoder IdleDone]

def resumeDone (s : ImapIdle) (send : ImapSend IdleDone) (f : F) (arg : Option Bytes)
    (env : ImapIdleEnv) : ImapIdleResult × ImapIdle × F :=
  match send.resume f arg with
  | (.yielded y, send, f) => (.yielded (.ofYield y), { s with state := .done send }, f)
  | (.complete (.error err), _, f) => (.complete (.error (.send err)), s, f)
  | (.complete (.ok out), _, f) => s.doneOver out f env

/-- `State::Read`. The flag and the timer are tested before the argument is taken. -/
def resumeRead (s : ImapIdle) (tag : Tag) (f : F) (arg : Option Bytes) (env : ImapIdleEnv) :
    ImapIdleResult × ImapIdle × F :=
  if env.done || s.timedOut env.check then
    s.resumeDone (.new .idleDone tag) f arg env
  else
    match arg with
    | some [] => (.complete (.error .eof), s, f)
    | some bytes =>
      match readMessages accept s (enqueueBytes f bytes) with
      | (.ok s, f) => (.yielded (.event s.takeEvent.1), s.takeEvent.2, f)
      | (.error err, f) => (.complete (.error err), s, f)
    | none => (.yielded .wantsRead, { s with state := .read tag }, f)

def idleOver (s : ImapIdle) (out : ImapSendOutput Command) (f : F) (env : ImapIdleEnv) :
    ImapIdleResult × ImapIdle × F :=
  match out.bye, out.tagged, out.continuationRequest with
  | some bye, _, _ => (.complete (.error (.bye bye.text)), s, f)
  | none, some tagged, _ =>
    match tagged.body.kind with
    | .ok => (.complete (.error .unexpectedTagged), s, f)
    | .no => (.complete (.error (.no tagged.body.text)), s, f)
    | .bad => (.complete (.error (.bad tagged.body.text)), s, f)
  | none, none, none => (.complete (.error .expectedContinuationRequest), s, f)
  | none, none, some _ =>
    let s := { s with state := .read out.tag }
    -- servers may pack untagged responses into the frame of the continuation
    if out.data ≠ [] ∨ out.untagged ≠ [] then
      (.yielded (.event ⟨out.untagged, out.data⟩), s, f)
    else s.resumeRead out.tag f none env

def resumeIdle (s : ImapIdle) (send : ImapSend Command) (f : F) (arg : Option Bytes)
    (env : ImapIdleEnv) : ImapIdleResult × ImapIdle × F :=
  match send.resume f arg with
  | (.yielded y, send, f) => (.yielded (.ofYield y), { s with state := .idle send }, f)
  | (.complete (.error err), _, f) => (.complete (.error (.send err)), s, f)
  | (.complete (.ok out), _, f) => s.idleOver out f env

def resume (s : ImapIdle) (f : F) (arg : Option Bytes) (env : ImapIdleEnv) :
    ImapIdleResult × ImapIdle × F :=
  let s := s.startTimer env.start
  match s.state with
  | .idle send => s.resumeIdle send f arg env
  | .read tag => s.resumeRead tag f arg env
  | .done send => s.resumeDone send f arg env

/-! ### Without an argument -/

omit [Fragmentizer F] [TryFrom Bytes Tag] [Encoder Command] [Encoder IdleDone] in
theorem doneOver_silent (s : ImapIdle) (out : ImapSendOutput IdleDone) (f : F) (env : ImapIdleEnv) :
    isEvent (s.doneOver out f env).1 = false := by
  unfold doneOver
  split
  · rfl
  · rfl
  · simp only
    split
    · split <;> rfl
    · rfl
    · rfl

omit [Encoder Command] in
theorem resumeDone_silent (s : ImapIdle) (send : ImapSend IdleDone) (f : F) (arg : Option Bytes)
    (env : ImapIdleEnv) : isEvent (s.resumeDone send f arg env).1 = false := by
  unfold resumeDone
  split
  · exact isEvent_ofYield _
  · rfl
  · exact doneOver_silent _ _ _ _

theorem resume_none_silent (s : ImapIdle) (f : F) (env : ImapIdleEnv) :
    isEvent (s.resume f none env).1 = false := by
  unfold resume
  cases hs : (s.startTimer env.start).state with
  | idle send =>
    simp only [hs, resumeIdle]
    have hgoes := ImapSend.resume_none send f
    generalize send.resume f none = r at hgoes ⊢
    obtain ⟨y | (err | out), send', f'⟩ := r
    · exact isEvent_ofYield y
    · rfl
    · exact absurd rfl (hgoes out)
  | read tag =>
    simp only [hs, resumeRead]
    split
    · exact resumeDone_silent _ _ _ _ _
    · rfl
  | done send =>
    simp only [hs]
    exact resumeDone_silent _ _ _ _ _

end ImapIdle

def imapIdle [TryFrom Bytes Tag] [Encoder Command] [Encoder IdleDone] :
    Coroutine ImapIdle ImapIdleEnv ImapIdleYield (Except ImapIdleError Unit) where
  resume s f arg env := s.resume f arg env
  request := ImapIdleYield.request

end IoImap
