import IoImap.Rfc2177.Idle
import IoImap.Rfc3501.Examine
import IoImap.Rfc3501.Fetch
import IoImap.Rfc5161.Enable
import IoImap.Watch.Shadow

/-!
# The mailbox watcher (watch.rs)

`ImapMailboxWatch` opens a mailbox, reads the flags of all its messages, and
then idles or polls; each wake is followed by a re-read whose differences are
yielded as events. The `shutdown` flag and the clock are inputs of a resume. A
coroutine that is started within a resume asks for its tag at once, so the loop
of the source is unrolled: what follows the end of a sub-coroutine never touches
the fragmentizer and is a function of the watcher alone.
-/

namespace IoImap
open Fragmentizer

inductive ImapMailboxWatchError where
  | missingUidValidity
  | missingHighestModSeq
  | uidValidityChanged (known seen : NonZeroU32)
  | examine (err : ImapMailboxExamineError)
  | fetch (err : ImapMessageFetchError)
  | idle (err : ImapIdleError)
  | enable (err : ImapExtensionEnableError)
  /-- Not an error of the source: the panic of `resync` without a UIDVALIDITY. -/
  | panicked
  deriving DecidableEq

structure ImapMailboxWatchOptions where
  idleTimeout : Option Nat
  poll : Bool

inductive ImapMailboxWatchYield where
  | wantsTag
  | wantsRead
  | wantsWait
  | wantsWrite (bytes : Bytes)
  | event (event : ImapMailboxWatchEvent)

def ImapMailboxWatchYield.ofYield : ImapYield → ImapMailboxWatchYield
  | .wantsTag => .wantsTag
  | .wantsRead => .wantsRead
  | .wantsWrite bytes => .wantsWrite bytes

def ImapMailboxWatchYield.request : ImapMailboxWatchYield → Request
  | .wantsTag => .tag
  | .wantsRead => .read
  | .wantsWait => .nothing
  | .wantsWrite _ => .nothing
  | .event _ => .nothing

/-- What the environment decides during one resume: the `shutdown` flag when the
resume starts, when IDLE completes and before the watcher waits or reads again,
and the clock of up to two resumes of IDLE. -/
structure ImapMailboxWatchEnv where
  shutdown : Bool
  shutdownAfterIdle : Bool
  shutdownBefore : Bool
  clock : Nat × Nat
  clockAgain : Nat × Nat

inductive ImapMailboxWatch.State where
  | enableQresync (enable : ImapExtensionEnable)
  | examineInitial (examine : ImapMailboxExamine)
  | fetchBaseline (fetch : ImapMessageFetch)
  | beginIdle
  | idle (idle : ImapIdle)
  | waiting
  | examineQresync (examine : ImapMailboxExamine)
  | examineResync (examine : ImapMailboxExamine)
  | fetchResync (fetch : ImapMessageFetch)
  | emitDeltas
  | terminal

structure ImapMailboxWatch extends ShadowedMailbox where
  state : ImapMailboxWatch.State
  opts : ImapMailboxWatchOptions
  qresync : Bool
  idleDone : Bool
  idleSawData : Bool
  mailbox : Mailbox
  uidValidity : Option NonZeroU32
  highestModSeq : Nat

abbrev ImapMailboxWatchResult :=
  CoroutineState ImapMailboxWatchYield (Except ImapMailboxWatchError Unit)

abbrev ImapMailboxWatch.Outcome := ImapMailboxWatchResult × ImapMailboxWatch

def fetchUidFlags : CommandBody :=
  ImapMessageFetch.body [.range (.value (.ofNat 1)) .asterisk] [.uid, .flags] ⟨false⟩

namespace ImapMailboxWatch

/-! ### What follows a sub-coroutine -/

/-- A completed watcher is left in `State::Terminal`. -/
def complete (w : ImapMailboxWatch) (r : Except ImapMailboxWatchError Unit) : Outcome :=
  (.complete r, { w with state := .terminal })

/-- A command that was never resumed, resumed without an argument: it asks for its tag. -/
def startCommand (w : ImapMailboxWatch) (into : ImapSend Command → State) (body : CommandBody) :
    Outcome :=
  (.yielded .wantsTag, { w with state := into (.fresh (.tag ⟨body, id⟩ true) []) })

/-- IDLE that was never resumed, resumed without an argument: its timer starts
and it asks for its tag. -/
def startIdle (w : ImapMailboxWatch) (opts : ImapIdleOptions) (env : ImapMailboxWatchEnv) : Outcome :=
  (.yielded .wantsTag,
    { w with state := .idle { ImapIdle.new opts with
        state := .idle (.fresh (.tag ⟨.idle, id⟩ true) [])
        timer := some env.clockAgain.1 } })

def beginIdle (w : ImapMailboxWatch) (env : ImapMailboxWatchEnv) : Outcome :=
  if env.shutdownBefore then w.complete (.ok ())
  else if w.opts.poll then (.yielded .wantsWait, { w with state := .waiting })
  else { w with idleDone := false, idleSawData := false }.startIdle ⟨w.opts.idleTimeout⟩ env

def emitDeltas (w : ImapMailboxWatch) (env : ImapMailboxWatchEnv) : Outcome :=
  match w.pending with
  | event :: pending => (.yielded (.event event), { w with pending, state := .emitDeltas })
  | [] => w.beginIdle env

def seed (shadow : Shadow) (entry : NonZeroU32 × Vec1 MessageDataItem) : Shadow :=
  match extractUidFlags entry.2 with
  | (some uid, flags) => shadow.insert uid flags
  | (none, _) => shadow

def fetchedBaseline (w : ImapMailboxWatch) (data : FetchData) (env : ImapMailboxWatchEnv) : Outcome :=
  { w with shadow := data.toList.foldl seed w.shadow }.beginIdle env

def examinedInitial (w : ImapMailboxWatch) (data : ExamineData) : Outcome :=
  match data.uidValidity with
  | none => w.complete (.error .missingUidValidity)
  | some uidValidity =>
    let w := { w with uidValidity := some uidValidity }
    if w.qresync then
      match data.highestModSeq with
      | none => w.complete (.error .missingHighestModSeq)
      | some highestModSeq =>
        { w with highestModSeq := highestModSeq }.startCommand .fetchBaseline fetchUidFlags
    else w.startCommand .fetchBaseline fetchUidFlags

def checkUidValidity (w : ImapMailboxWatch) (data : ExamineData) : Except ImapMailboxWatchError Unit :=
  match w.uidValidity, data.uidValidity with
  | some known, some seen => if known ≠ seen then .error (.uidValidityChanged known seen) else .ok ()
  | _, _ => .ok ()

def examinedQresync (w : ImapMailboxWatch) (data : ExamineData) (env : ImapMailboxWatchEnv) : Outcome :=
  match w.checkUidValidity data with
  | .error err => w.complete (.error err)
  | .ok () =>
    { w with
      toShadowedMailbox := w.computeDeltas data
      highestModSeq := data.highestModSeq.getD w.highestModSeq }.emitDeltas env

def examinedResync (w : ImapMailboxWatch) (data : ExamineData) : Outcome :=
  match w.checkUidValidity data with
  | .error err => w.complete (.error err)
  | .ok () => w.startCommand .fetchResync fetchUidFlags

def addMessage (snapshot : Snapshot) (entry : NonZeroU32 × Vec1 MessageDataItem) : Snapshot :=
  match (extractUidFlags entry.2).1 with
  | some uid => snapshot.insert uid entry.2
  | none => snapshot

def fetchedResync (w : ImapMailboxWatch) (data : FetchData) (env : ImapMailboxWatchEnv) : Outcome :=
  { w with toShadowedMailbox := w.computeSnapshotDeltas (data.toList.foldl addMessage ∅) }.emitDeltas env

section Commands

variable [Base64Codec] [TryFrom String Mailbox]

def enabledQresync (w : ImapMailboxWatch) : Outcome :=
  w.startCommand .examineInitial (ImapMailboxExamine.body w.mailbox ⟨[.condStore]⟩)

def resync (w : ImapMailboxWatch) : Outcome :=
  match w.qresync, w.uidValidity with
  | false, _ => w.startCommand .examineResync (ImapMailboxExamine.body w.mailbox ⟨[]⟩)
  | true, some uidValidity =>
    let modseq := if w.highestModSeq = 0 then 1 else w.highestModSeq
    w.startCommand .examineQresync
      (ImapMailboxExamine.body w.mailbox ⟨[.qResync uidValidity modseq]⟩)
  | true, none => w.complete (.error .panicked)

def waited (w : ImapMailboxWatch) (env : ImapMailboxWatchEnv) : Outcome :=
  if env.shutdownBefore then w.complete (.ok ()) else w.resync

def idled (w : ImapMailboxWatch) (env : ImapMailboxWatchEnv) : Outcome :=
  if env.shutdownAfterIdle then w.complete (.ok ())
  else if w.idleSawData then w.resync
  else w.beginIdle env

/-- `State::Idle` for every result of IDLE that is no event. -/
def afterIdle (w : ImapMailboxWatch) (idle : ImapIdle) (env : ImapMailboxWatchEnv) :
    (r : ImapIdleResult) → ImapIdle.isEvent r = false → Outcome
  | .yielded .wantsTag, _ => (.yielded .wantsTag, { w with state := .idle idle })
  | .yielded .wantsRead, _ => (.yielded .wantsRead, { w with state := .idle idle })
  | .yielded (.wantsWrite bytes), _ => (.yielded (.wantsWrite bytes), { w with state := .idle idle })
  | .complete (.error err), _ => w.complete (.error (.idle err))
  | .complete (.ok ()), _ => w.idled env

end Commands

/-! ### Resuming -/

section Resume

variable {V F : Type} [Fragmentizer F] [TryFrom Bytes Tag] [Encoder Command] [Encoder IdleDone]
  [Base64Codec] [TryFrom String Mailbox]

/-- A state that holds a command: its yields are forwarded, its error ends the
watch, and `next` follows its success. -/
def exchange (w : ImapMailboxWatch) (into : ImapSend Command → State)
    (error : ImapCommandError → ImapMailboxWatchError) (next : V → Outcome)
    (r : CoroutineState ImapYield (Except ImapCommandError V) × ImapSend Command × F) :
    ImapMailboxWatchResult × ImapMailboxWatch × F :=
  let outcome : Outcome := match r.1 with
    | .yielded y => (.yielded (.ofYield y), { w with state := into r.2.1 })
    | .complete (.error err) => w.complete (.error (error err))
    | .complete (.ok v) => next v
  (outcome.1, outcome.2, r.2.2)

/-- `State::Idle`. An event is only a wake: IDLE is resumed at once, its flag set. -/
def resumeIdle (w : ImapMailboxWatch) (idle : ImapIdle) (f : F) (arg : Option Bytes)
    (env : ImapMailboxWatchEnv) : ImapMailboxWatchResult × ImapMailboxWatch × F :=
  let r := idle.resume f arg ⟨w.idleDone, env.clock.1, env.clock.2⟩
  if h : ImapIdle.isEvent r.1 = false then
    let outcome := w.afterIdle r.2.1 env r.1 h
    (outcome.1, outcome.2, r.2.2)
  else
    let w := { w with idleSawData := true, idleDone := true }
    let again := r.2.1.resume r.2.2 none ⟨true, env.clockAgain.1, env.clockAgain.2⟩
    let outcome := w.afterIdle again.2.1 env again.1 (ImapIdle.resume_none_silent _ _ _)
    (outcome.1, outcome.2, again.2.2)

/-- The flag of IDLE follows `shutdown`. -/
def wake (w : ImapMailboxWatch) (env : ImapMailboxWatchEnv) : ImapMailboxWatch :=
  { w with idleDone := w.idleDone || env.shutdown }

def resume (w : ImapMailboxWatch) (f : F) (arg : Option Bytes) (env : ImapMailboxWatchEnv) :
    ImapMailboxWatchResult × ImapMailboxWatch × F :=
  let w := w.wake env
  let quietly (outcome : Outcome) := (outcome.1, outcome.2, f)
  match w.state with
  | .enableQresync enable =>
    w.exchange .enableQresync .enable (fun _ => w.enabledQresync) (enable.resume f arg)
  | .examineInitial examine =>
    w.exchange .examineInitial .examine w.examinedInitial (examine.resume f arg)
  | .fetchBaseline fetch =>
    w.exchange .fetchBaseline .fetch (w.fetchedBaseline · env) (fetch.resume f arg)
  | .beginIdle => quietly (w.beginIdle env)
  | .waiting => quietly (w.waited env)
  | .idle idle => w.resumeIdle idle f arg env
  | .examineQresync examine =>
    w.exchange .examineQresync .examine (w.examinedQresync · env) (examine.resume f arg)
  | .examineResync examine =>
    w.exchange .examineResync .examine w.examinedResync (examine.resume f arg)
  | .fetchResync fetch =>
    w.exchange .fetchResync .fetch (w.fetchedResync · env) (fetch.resume f arg)
  | .emitDeltas => quietly (w.emitDeltas env)
  | .terminal => quietly (w.complete (.ok ()))

end Resume

def new [Base64Codec] [TryFrom String Mailbox] (capability : List Capability) (mailbox : Mailbox)
    (opts : ImapMailboxWatchOptions) : ImapMailboxWatch :=
  let qresync := capability.contains .qResync
  { shadow := ∅
    pending := []
    state :=
      if qresync then .enableQresync (ImapExtensionEnable.new [.condStore, .other ⟨"QRESYNC"⟩])
      else .examineInitial (ImapMailboxExamine.new mailbox ⟨[]⟩)
    opts, qresync, mailbox
    idleDone := false
    idleSawData := false
    uidValidity := none
    highestModSeq := 0 }

end ImapMailboxWatch

def imapMailboxWatch [TryFrom Bytes Tag] [Encoder Command] [Encoder IdleDone] [Base64Codec]
    [TryFrom String Mailbox] :
    Coroutine ImapMailboxWatch ImapMailboxWatchEnv ImapMailboxWatchYield
      (Except ImapMailboxWatchError Unit) where
  resume w f arg env := w.resume f arg env
  request := ImapMailboxWatchYield.request

end IoImap
