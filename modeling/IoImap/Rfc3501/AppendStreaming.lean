import IoImap.Codec.Announcement
import IoImap.Rfc3501.AppendStream
import IoImap.Send.Listening

/-!
# Runs of a streamed APPEND

What one resume of the coroutine can do, and where it stands between two of them.
The command it splits is known to the encoder only with an empty message; that
nothing else in it depends on the message is what imap-codec promises.
-/

namespace IoImap
open Fragmentizer ServerMessage

/-! ### The encoding of APPEND -/

/-- The fragments of an APPEND around its message. -/
structure AppendParts where
  before : List Fragment
  line : Bytes
  after : List Fragment
  lines : ∀ x ∈ after, ImapMessageAppendStream.isLiteral x = false

namespace AppendParts

variable (parts : AppendParts)

def fragments (message : Literal) : List Fragment :=
  parts.before ++ .line (parts.line ++ announcement message.data.length message.mode) ::
    .literal message.data message.mode :: parts.after

/-- What stands in front of a message of `len` octets. -/
def header (len : Nat) (mode : LiteralMode) : Bytes :=
  parts.before.flatMap Fragment.data ++ parts.line ++ announcement len mode

def closing : Bytes := parts.after.flatMap Fragment.data

theorem octets (message : Literal) :
    (parts.fragments message).flatMap Fragment.data =
      parts.header message.data.length message.mode ++ message.data ++ parts.closing := by
  simp [fragments, header, closing, Fragment.data]

end AppendParts

/-- The message of an APPEND is a literal, announced at the end of the line in front of
it; nothing else of the command depends on the message. -/
class LawfulAppend [Encoder Command] where
  parts : Tag → Mailbox → List Flag → Option DateTime → AppendParts
  encode : ∀ (tag : Tag) (mailbox : Mailbox) (flags : List Flag) (date : Option DateTime)
    (message : Literal), Encoder.encode (⟨tag, .append mailbox flags date message⟩ : Command) =
      (parts tag mailbox flags date).fragments message

def imapMessageAppendStream [TryFrom Bytes Tag] [Encoder Command] :
    Coroutine ImapMessageAppendStream Unit ImapMessageAppendStreamYield
      (Except ImapMessageAppendStreamError ImapMessageAppendOutput) where
  resume s f arg _ := s.resume f arg
  request
    | .wantsTag => .tag
    | .wantsRead => .read
    | .wantsWrite _ => .nothing
    -- the message goes to the socket: nothing is taken off it
    | .wantsStream => .stream 0

abbrev AppendTurn (F : Type) := Turn ImapMessageAppendStream F Unit ImapMessageAppendStreamYield
  (Except ImapMessageAppendStreamError ImapMessageAppendOutput)

namespace ImapMessageAppendStream

/-- The mode of the message literal. -/
def mode (opts : ImapMessageAppendOptions) : LiteralMode := if opts.nonSync then .nonSync else .sync

theorem splitMessage_fragments (p : AppendParts) (message : Literal) :
    splitMessage (p.fragments message) =
      some (p.header message.data.length message.mode, p.closing) := by
  have hafter : ∀ x ∈ p.after.reverse, (!isLiteral x) = true := by
    intro x hx
    rw [p.lines x (List.mem_reverse.mp hx)]
    rfl
  have hreverse : (p.fragments message).reverse = p.after.reverse ++
      .literal message.data message.mode :: (p.before ++
        [Fragment.line (p.line ++ announcement message.data.length message.mode)]).reverse := by
    simp [AppendParts.fragments]
  unfold splitMessage
  rw [hreverse, List.takeWhile_append_of_pos hafter, List.dropWhile_append_of_pos hafter,
    List.takeWhile_cons_of_neg (by simp [isLiteral]), List.dropWhile_cons_of_neg (by simp [isLiteral])]
  simp [AppendParts.header, AppendParts.closing, Fragment.data]

theorem announcement_empty : announcement 0 .nonSync = EMPTY_LITERAL := by decide

/-- The header of the command with an empty message, and the one of the declared length. -/
theorem announced_header (p : AppendParts) (len : Nat) (nonSync : Bool) :
    EMPTY_LITERAL <:+ p.header 0 .nonSync ∧
      announced (p.header 0 .nonSync) len nonSync =
        p.header len (if nonSync then .nonSync else .sync) := by
  rw [AppendParts.header, announcement_empty]
  refine ⟨List.suffix_append _ _, ?_⟩
  rw [announced, List.length_append, Nat.add_sub_cancel, List.take_left]
  rfl

/-! ### Between two resumes -/

section Stage

variable [Encoder Command] [LawfulAppend] [Base64Codec] [TryFrom String Mailbox]

/-- The parts of the command that a streamed APPEND sends. -/
def parts (mailbox : Mailbox) (opts : ImapMessageAppendOptions) (tag : Tag) : AppendParts :=
  LawfulAppend.parts tag (encodeInplace mailbox) opts.flags opts.date

variable (mailbox : Mailbox) (len : Nat) (opts : ImapMessageAppendOptions)

def command (tag : Tag) : Command := ⟨tag, body mailbox opts⟩

def header (tag : Tag) : Bytes := (parts mailbox opts tag).header len (mode opts)

def closing (tag : Tag) : Bytes := (parts mailbox opts tag).closing

/-- How far a streamed APPEND has got: with which tag, and with what it has read since
its last write. -/
inductive Phase where
  | fresh
  | awaits (tag : Tag) (past : List ServerMessage)
  | ready (tag : Tag)
  | streams (tag : Tag)
  | recv (tag : Tag) (past : List ServerMessage)

/-- The states of a streamed APPEND that was started with these arguments. -/
inductive Stage : ImapMessageAppendStream → Request → Phase → Prop where
  | fresh (asked : Bool) : Stage ⟨.writeHeader (body mailbox opts), len, asked, opts.nonSync, false⟩
      (if asked then .tag else .nothing) .fresh
  | awaits {asked : Bool} {recv : ImapSend Command} {past : List ServerMessage} {due : Request}
      {tag : Tag} (hsync : opts.nonSync = false)
      (hrecv : recv.Listening ⟨command mailbox opts tag, tag⟩ past)
      (hdue : due = .nothing ∨ due = .read) :
      Stage ⟨.continuation recv (command mailbox opts tag) (closing mailbox opts tag), len, asked,
        opts.nonSync, false⟩ due (.awaits tag past)
  | ready {asked : Bool} {tag : Tag} (hsync : opts.nonSync = true) :
      Stage ⟨.stream (command mailbox opts tag) (closing mailbox opts tag), len, asked, opts.nonSync,
        false⟩ .nothing (.ready tag)
  | streams {asked : Bool} {tag : Tag} :
      Stage ⟨.stream (command mailbox opts tag) (closing mailbox opts tag), len, asked, opts.nonSync,
        true⟩ (.stream 0) (.streams tag)
  | recv {asked : Bool} {recv : ImapSend Command} {past : List ServerMessage} {due : Request}
      {tag : Tag} (hrecv : recv.Listening ⟨command mailbox opts tag, tag⟩ past)
      (hdue : due = .nothing ∨ due = .read) :
      Stage ⟨.recv recv, len, asked, opts.nonSync, false⟩ due (.recv tag past)

variable [TryFrom Bytes Tag] {F : Type}

/-- One resume, as it shows: what it yields, and what it was given and has decoded. -/
inductive Moves : Phase → AppendTurn F → Phase → Prop where
  | asks {t : AppendTurn F} (hout : t.out = .yielded .wantsTag) (htag : t.tag? = none)
      (hlog : t.log = []) : Moves .fresh t .fresh
  | invalid {t : AppendTurn F} {bytes : Bytes} {e : ValidationError}
      (hout : t.out = .complete (.error (.send (.invalidTag e)))) (htag : t.tag? = some bytes)
      (herr : (TryFrom.tryFrom bytes : Except ValidationError Tag) = .error e) (hlog : t.log = []) :
      Moves .fresh t .fresh
  | writes {t : AppendTurn F} {bytes : Bytes} {tag : Tag}
      (hout : t.out = .yielded (.wantsWrite (header mailbox len opts tag)))
      (htag : t.tag? = some bytes) (hok : TryFrom.tryFrom bytes = Except.ok tag) (hlog : t.log = []) :
      Moves .fresh t (if opts.nonSync then .ready tag else .awaits tag [])
  | awaits {t : AppendTurn F} {tag : Tag} {past ms : List ServerMessage}
      (hout : t.out = .yielded .wantsRead) (htag : t.tag? = none) (hms : t.completed = ms)
      (hsig : lastSome (·.signal? tag) ms = none) : Moves (.awaits tag past) t (.awaits tag (past ++ ms))
  | refused {t : AppendTurn F} {tag : Tag} {past : List ServerMessage}
      {err : ImapMessageAppendStreamError} (hout : t.out = .complete (.error err))
      (htag : t.tag? = none) (herr : err ≠ .missingTagged) : Moves (.awaits tag past) t (.awaits tag past)
  | granted {t : AppendTurn F} {tag : Tag} {past ms : List ServerMessage}
      (hsync : opts.nonSync = false) (hout : t.out = .yielded .wantsStream) (htag : t.tag? = none)
      (hms : t.completed = ms) (hbye : lastSome bye? ms = none)
      (htagged : lastSome (·.ownTagged? tag) ms = none) (hcr : (lastSome cr? ms).isSome) :
      Moves (.awaits tag past) t (.streams tag)
  | streams {t : AppendTurn F} {tag : Tag} (hsync : opts.nonSync = true)
      (hout : t.out = .yielded .wantsStream) (htag : t.tag? = none) (hlog : t.log = []) :
      Moves (.ready tag) t (.streams tag)
  | short {t : AppendTurn F} {tag : Tag} (hout : t.out = .complete (.error .shortMessage))
      (htag : t.tag? = none) (hlog : t.log = []) : Moves (.streams tag) t (.streams tag)
  | closes {t : AppendTurn F} {tag : Tag}
      (hout : t.out = .yielded (.wantsWrite (closing mailbox opts tag))) (htag : t.tag? = none)
      (hlog : t.log = []) : Moves (.streams tag) t (.recv tag [])
  | listens {t : AppendTurn F} {tag : Tag} {past ms : List ServerMessage}
      (hout : t.out = .yielded .wantsRead) (htag : t.tag? = none) (hms : t.completed = ms)
      (hsig : lastSome (·.signal? tag) ms = none) : Moves (.recv tag past) t (.recv tag (past ++ ms))
  | fails {t : AppendTurn F} {tag : Tag} {past : List ServerMessage} {err : ImapSendError}
      (hout : t.out = .complete (.error (.send err))) (htag : t.tag? = none)
      (hms : t.completed = [] ∨ ¬ ImapSend.Accepted t.completed) :
      Moves (.recv tag past) t (.recv tag past)
  | completes {t : AppendTurn F} {tag : Tag} {past ms : List ServerMessage}
      (hout : t.out = .complete ((commandOutcome ImapMessageAppend.decode
        (ImapSend.outputOf ⟨command mailbox opts tag, tag⟩ past ms)).mapError .of))
      (htag : t.tag? = none) (hms : t.completed = ms) (hacc : ImapSend.Accepted ms)
      (hsig : (lastSome (·.signal? tag) ms).isSome) : Moves (.recv tag past) t (.recv tag past)

/-! ### One resume -/

section Resume

variable {mailbox len opts}

theorem resumeHeader_valid {asked : Bool} {bytes : Bytes} {tag : Tag}
    (htag : TryFrom.tryFrom bytes = Except.ok tag) (f : F) :
    resumeHeader ⟨.writeHeader (body mailbox opts), len, asked, opts.nonSync, false⟩
        (body mailbox opts) f (some bytes) =
      (.yielded (.wantsWrite (header mailbox len opts tag)),
        ⟨if opts.nonSync then .stream (command mailbox opts tag) (closing mailbox opts tag)
          else .continuation (.receive (command mailbox opts tag) tag) (command mailbox opts tag)
            (closing mailbox opts tag), len, asked, opts.nonSync, false⟩, f) := by
  have hencode : Encoder.encode (⟨tag, body mailbox opts⟩ : Command) =
      (parts mailbox opts tag).fragments ⟨[], .nonSync⟩ := LawfulAppend.encode ..
  obtain ⟨hsuffix, hannounced⟩ := announced_header (parts mailbox opts tag) len opts.nonSync
  simp only [resumeHeader, htag, hencode, splitMessage_fragments, List.length_nil, hsuffix, if_true,
    hannounced]
  rfl

omit [Encoder Command] [LawfulAppend] [Base64Codec] [TryFrom String Mailbox] [TryFrom Bytes Tag] in
/-- Where the server says something that is no end, it asks for more. -/
theorem cr_of_signal {tag : Tag} {ms : List ServerMessage}
    (hsig : (lastSome (·.signal? tag) ms).isSome) (hbye : lastSome bye? ms = none)
    (htagged : lastSome (·.ownTagged? tag) ms = none) : (lastSome cr? ms).isSome := by
  by_contra hcr
  have hnone : lastSome (·.signal? tag) ms = none := by
    rw [lastSome_eq_none]
    intro m hm
    rw [signal?_eq_none]
    exact ⟨lastSome_eq_none.mp htagged m hm, lastSome_eq_none.mp hbye m hm,
      lastSome_eq_none.mp (Option.not_isSome_iff_eq_none.mp hcr) m hm⟩
  rw [hnone] at hsig
  simp at hsig

omit [TryFrom Bytes Tag] in
theorem stage_written (asked : Bool) (tag : Tag) :
    Stage mailbox len opts ⟨if opts.nonSync then
        .stream (command mailbox opts tag) (closing mailbox opts tag)
      else .continuation (.receive (command mailbox opts tag) tag) (command mailbox opts tag)
        (closing mailbox opts tag), len, asked, opts.nonSync, false⟩ .nothing
      (if opts.nonSync then .ready tag else .awaits tag []) := by
  by_cases hsync : opts.nonSync = true
  · rw [if_pos hsync, if_pos hsync]
    exact .ready hsync
  · rw [if_neg hsync, if_neg hsync]
    exact .awaits (Bool.eq_false_iff.mpr hsync) (ImapSend.listening_receive _ _) (.inl rfl)

variable [Fragmentizer F]

variable (mailbox len opts) in
/-- The resume moves on to a phase, and the state it leaves is in it. -/
def Advances (phase : Phase) (t : AppendTurn F) : Prop :=
  ∃ phase', Moves mailbox len opts phase t phase' ∧
    ∀ y, t.out = .yielded y → Stage mailbox len opts t.after (imapMessageAppendStream.request y) phase'

section Phases

variable {s' : ImapMessageAppendStream} {f f' : F} {due : Request} {arg : Option Bytes} {env : Unit}
  {out : ImapMessageAppendStreamResult} {log : List FragmentizerEvent} {asked : Bool}
  {recv : ImapSend Command} {past : List ServerMessage} {tag : Tag}

omit [Encoder Command] [LawfulAppend] [Base64Codec] [TryFrom String Mailbox] [TryFrom Bytes Tag]
  [Fragmentizer F] in
theorem untold {t : AppendTurn F} (hdue : t.due = .nothing ∨ t.due = .read) : t.tag? = none := by
  rw [Turn.tag?, if_neg]
  rcases hdue with hdue | hdue <;> simp [hdue]

/-- The tag is asked for, and the header is written under it unless it is refused. -/
theorem fresh_advances (hdue : due = if asked then .tag else .nothing)
    (hans : due.answeredBy arg = true)
    (he : resume ⟨.writeHeader (body mailbox opts), len, asked, opts.nonSync, false⟩
      (⟨f, []⟩ : Logged F) arg = (out, s', ⟨f', log⟩)) :
    Advances mailbox len opts .fresh ⟨⟨.writeHeader (body mailbox opts), len, asked, opts.nonSync, false⟩,
      f, due, arg, env, out, s', f', log⟩ := by
  subst hdue
  rcases arg with - | bytes
  · obtain rfl : asked = false := by
      cases asked with
      | false => rfl
      | true => simp [Request.answeredBy] at hans
    cases he
    refine ⟨.fresh, .asks rfl rfl rfl, fun y hy => ?_⟩
    obtain rfl := CoroutineState.yielded.inj hy
    exact .fresh true
  · obtain rfl : asked = true := by
      cases asked with
      | false => simp [Request.answeredBy] at hans
      | true => rfl
    cases htag : (TryFrom.tryFrom bytes : Except ValidationError Tag) with
    | error e =>
      simp only [resume, resumeHeader, htag] at he
      cases he
      exact ⟨.fresh, .invalid rfl rfl htag rfl, by simp⟩
    | ok tag =>
      simp only [resume, resumeHeader_valid htag] at he
      cases he
      refine ⟨_, .writes rfl rfl htag rfl, fun y hy => ?_⟩
      obtain rfl := CoroutineState.yielded.inj hy
      exact stage_written true tag

/-- The continuation request is awaited, and grants the message; a BYE or the completion
in its place refuses it. -/
theorem awaits_advances (hsync : opts.nonSync = false)
    (hrecv : recv.Listening ⟨command mailbox opts tag, tag⟩ past) (hdue : due = .nothing ∨ due = .read)
    (he : resume ⟨.continuation recv (command mailbox opts tag) (closing mailbox opts tag), len, asked,
      opts.nonSync, false⟩ (⟨f, []⟩ : Logged F) arg = (out, s', ⟨f', log⟩)) :
    Advances mailbox len opts (.awaits tag past) ⟨⟨.continuation recv (command mailbox opts tag)
      (closing mailbox opts tag), len, asked, opts.nonSync, false⟩, f, due, arg, env, out, s', f', log⟩ := by
  obtain ⟨result, recv', f'', events, hr, hlistens⟩ := hrecv.resume_spec f arg
  simp only [resume, resumeContinuation, hr] at he
  cases hlistens with
  | waits =>
    cases he
    refine ⟨.awaits tag (past ++ []), .awaits rfl (untold hdue) rfl rfl, fun y hy => ?_⟩
    obtain rfl := CoroutineState.yielded.inj hy
    exact .awaits hsync (by rw [List.append_nil]; exact hrecv) (.inr rfl)
  | eof =>
    cases he
    exact ⟨_, .refused rfl (untold hdue) (by simp), by simp⟩
  | refused =>
    cases he
    exact ⟨_, .refused rfl (untold hdue) (by simp), by simp⟩
  | readsOn hne hms hsig hs' =>
    cases he
    refine ⟨_, .awaits rfl (untold hdue) (Turn.completed_read rfl) hsig, fun y hy => ?_⟩
    obtain rfl := CoroutineState.yielded.inj hy
    exact .awaits hsync hs' (.inr rfl)
  | @ended data s'' hne hms hsig =>
    cases hbye : lastSome bye? (messages (enqueueBytes f data)) with
    | some bye =>
      simp only [ImapSend.outputOf, hbye] at he
      cases he
      exact ⟨_, .refused rfl (untold hdue) (by simp), by simp⟩
    | none =>
      cases htagged : lastSome (·.ownTagged? tag) (messages (enqueueBytes f data)) with
      | some tagged =>
        cases hkind : tagged.body.kind <;> simp only [ImapSend.outputOf, hbye, htagged, hkind] at he <;>
          cases he <;> exact ⟨_, .refused rfl (untold hdue) (by simp), by simp⟩
      | none =>
        have hcr := cr_of_signal hsig hbye htagged
        simp only [ImapSend.outputOf, hbye, htagged, resumeStream, Bool.false_eq_true, if_false] at he
        cases he
        refine ⟨_, .granted hsync rfl (untold hdue) (Turn.completed_read rfl) hbye htagged hcr,
          fun y hy => ?_⟩
        obtain rfl := CoroutineState.yielded.inj hy
        exact .streams

/-- Behind the message, the exchange is read to its end. -/
theorem recv_advances (hrecv : recv.Listening ⟨command mailbox opts tag, tag⟩ past)
    (hdue : due = .nothing ∨ due = .read)
    (he : resume ⟨.recv recv, len, asked, opts.nonSync, false⟩ (⟨f, []⟩ : Logged F) arg =
      (out, s', ⟨f', log⟩)) :
    Advances mailbox len opts (.recv tag past)
      ⟨⟨.recv recv, len, asked, opts.nonSync, false⟩, f, due, arg, env, out, s', f', log⟩ := by
  obtain ⟨result, recv', f'', events, hr, hlistens⟩ := hrecv.resume_spec f arg
  simp only [resume, resumeRecv, commandResume, hr] at he
  cases hlistens with
  | waits =>
    cases he
    refine ⟨.recv tag (past ++ []), .listens rfl (untold hdue) rfl rfl, fun y hy => ?_⟩
    obtain rfl := CoroutineState.yielded.inj hy
    exact .recv (by rw [List.append_nil]; exact hrecv) (.inr rfl)
  | eof =>
    cases he
    exact ⟨_, .fails rfl (untold hdue) (.inl rfl), by simp [CoroutineState.tryOk]⟩
  | @refused data f'' pre post m err hne hms hpre hm =>
    cases he
    refine ⟨_, .fails rfl (untold hdue) (.inr fun hacc => ?_), by simp [CoroutineState.tryOk]⟩
    rw [Turn.completed_read rfl] at hacc
    rw [hacc m (by simp)] at hm
    simp at hm
  | readsOn hne hms hsig hs' =>
    cases he
    refine ⟨_, .listens rfl (untold hdue) (Turn.completed_read rfl) hsig, fun y hy => ?_⟩
    obtain rfl := CoroutineState.yielded.inj hy
    exact .recv hs' (.inr rfl)
  | @ended data s'' hne hms hsig =>
    have hcompletes : out = .complete ((commandOutcome ImapMessageAppend.decode (ImapSend.outputOf
        ⟨command mailbox opts tag, tag⟩ past (messages (enqueueBytes f data)))).mapError .of) := by
      rw [← (Prod.mk.inj he).1]
      rfl
    have hlog : log = .fed data :: (messages (enqueueBytes f data)).map .completed :=
      congrArg (fun r => r.2.2.log) he.symm
    subst hcompletes hlog
    exact ⟨_, .completes rfl (untold hdue) (Turn.completed_read rfl) hms hsig, by simp⟩

end Phases

theorem stage_step {a b : Config ImapMessageAppendStream F} {t : AppendTurn F} {due : Request}
    {phase : Phase} (h : Stage mailbox len opts a.state due phase) (hdue : a.due = some due)
    (hstep : imapMessageAppendStream.Step a t b) :
    ∃ phase', Moves mailbox len opts phase t phase' ∧
      ∀ due', b.due = some due' → Stage mailbox len opts b.state due' phase' := by
  obtain ⟨due', arg, env, out, s', f', log, hdue', hans, he, rfl, rfl⟩ :=
    imapMessageAppendStream.step_cases hstep
  obtain rfl : due = due' := Option.some.inj (hdue.symm.trans hdue')
  obtain ⟨s, f, due₀⟩ := a
  have hadvances : Advances mailbox len opts phase
      (⟨s, f, due, arg, env, out, s', f', log⟩ : AppendTurn F) := by
    simp only [imapMessageAppendStream] at he
    simp only at h
    cases h with
    | fresh asked => exact fresh_advances rfl hans he
    | awaits hsync hrecv hdue => exact awaits_advances hsync hrecv hdue he
    | ready hsync =>
      obtain rfl := Request.answeredBy_nothing.mp hans
      cases he
      refine ⟨_, .streams hsync rfl rfl rfl, fun y hy => ?_⟩
      obtain rfl := CoroutineState.yielded.inj hy
      exact .streams
    | streams =>
      rcases arg with - | bytes
      · cases he
        refine ⟨_, .closes rfl rfl rfl, fun y hy => ?_⟩
        obtain rfl := CoroutineState.yielded.inj hy
        exact .recv (ImapSend.listening_receive _ _) (.inl rfl)
      · obtain rfl := Request.answeredBy_stream.mp hans
        cases he
        exact ⟨_, .short rfl rfl rfl, by simp⟩
    | recv hrecv hdue => exact recv_advances hrecv hdue he
  obtain ⟨phase', hmoves, hstage⟩ := hadvances
  refine ⟨phase', hmoves, fun due' hdue' => ?_⟩
  cases out with
  | complete r => simp at hdue'
  | yielded y =>
    obtain rfl := Option.some.inj hdue'
    exact hstage y rfl

/-- A run of a streamed APPEND goes through the phases. -/
theorem phases_run {f : F} {es : List (AppendTurn F)} {b : Config ImapMessageAppendStream F}
    (h : imapMessageAppendStream.Runs (new mailbox len opts) f es b) :
    ∃ phase, Transition.Run (Moves mailbox len opts) .fresh es phase ∧
      ∀ due, b.due = some due → Stage mailbox len opts b.state due phase := by
  refine h.simulates (R := fun a phase => ∀ due, a.due = some due →
    Stage mailbox len opts a.state due phase) ?_ ?_
  · intro due hdue
    obtain rfl := Option.some.inj hdue
    exact .fresh false
  · intro a t b phase hstage hstep
    obtain ⟨due, hdue⟩ := hstep.exists_due
    exact stage_step (hstage due hdue) hdue hstep

end Resume

/-! ### What is written -/

section Written

variable {mailbox len opts}

/-- What a resume writes. -/
def written? (t : AppendTurn F) : Option Bytes :=
  match t.out with
  | .yielded (.wantsWrite bytes) => some bytes
  | _ => none

def written (es : List (AppendTurn F)) : List Bytes := es.filterMap written?

/-- The tag of the command, once it is given. -/
def Phase.tag? : Phase → Option Tag
  | .fresh => none
  | .awaits tag _ | .ready tag | .streams tag | .recv tag _ => some tag

variable (mailbox len opts) in
def Phase.written : Phase → List Bytes
  | .fresh => []
  | .awaits tag _ | .ready tag | .streams tag => [header mailbox len opts tag]
  | .recv tag _ => [header mailbox len opts tag, closing mailbox opts tag]

omit [TryFrom Bytes Tag] in
theorem phase_written (tag : Tag) :
    (if opts.nonSync then Phase.ready tag else .awaits tag []).written mailbox len opts =
      [header mailbox len opts tag] := by
  split <;> rfl

theorem Moves.written {phase phase' : Phase} {t : AppendTurn F} (h : Moves mailbox len opts phase t phase') :
    phase'.written mailbox len opts = phase.written mailbox len opts ++ (written? t).toList := by
  cases h with
  | writes hout =>
    rw [phase_written]
    simp [written?, hout, Phase.written]
  | _ => simp [written?, Phase.written, *]

/-- The tag a resume was given is the tag of the command, or is refused. -/
theorem Moves.tag {phase phase' : Phase} {t : AppendTurn F} (h : Moves mailbox len opts phase t phase') :
    (phase'.tag? = phase.tag? ∧ ∀ bytes, t.tag? = some bytes →
        ∀ tag : Tag, TryFrom.tryFrom bytes ≠ Except.ok tag) ∨
      ∃ bytes tag, phase.tag? = none ∧ phase'.tag? = some tag ∧ t.tag? = some bytes ∧
        TryFrom.tryFrom bytes = Except.ok tag := by
  cases h with
  | writes hout htag hok =>
    refine .inr ⟨_, _, rfl, ?_, htag, hok⟩
    split <;> rfl
  | invalid hout htag herr =>
    refine .inl ⟨rfl, fun bytes hbytes tag hok => ?_⟩
    obtain rfl := Option.some.inj (htag.symm.trans hbytes)
    simp [herr] at hok
  | _ => exact .inl ⟨rfl, by simp [*]⟩

/-- What a run has written, and under which tag. -/
theorem phases_written {es : List (AppendTurn F)} {phase : Phase}
    (h : Transition.Run (Moves mailbox len opts) .fresh es phase) :
    written es = phase.written mailbox len opts ∧
      ∀ tag ∈ phase.tag?, ∃ bytes ∈ es.filterMap Turn.tag?, TryFrom.tryFrom bytes = Except.ok tag := by
  refine Transition.Run.history (P := fun es phase => written es = phase.written mailbox len opts ∧
    ∀ tag ∈ phase.tag?, ∃ bytes ∈ es.filterMap Turn.tag?, TryFrom.tryFrom bytes = Except.ok tag) ?_ ?_ h
  · exact ⟨rfl, by simp [Phase.tag?]⟩
  · intro es phase t phase' hx hmoves
    obtain ⟨hwritten, htag⟩ := hx
    constructor
    · rw [hmoves.written, ← hwritten, ImapMessageAppendStream.written, List.filterMap_append]
      cases hout : written? t <;> simp [ImapMessageAppendStream.written, hout]
    · intro tag htag'
      rw [List.filterMap_append]
      rcases hmoves.tag with ⟨hsame, -⟩ | ⟨bytes, tag', -, hphase, hgiven, hok⟩
      · obtain ⟨bytes, hbytes, hok⟩ := htag tag (hsame ▸ htag')
        exact ⟨bytes, List.mem_append_left _ hbytes, hok⟩
      · obtain rfl := Option.some.inj (hphase.symm.trans htag')
        exact ⟨bytes, List.mem_append_right _ (by simp [hgiven]), hok⟩

end Written
end Stage
end ImapMessageAppendStream

namespace Concrete

scoped instance : LawfulAppend where
  parts tag mailbox flags date :=
    { before := []
      line := tag.inner ++ ascii " " ++
        (CommandBody.append mailbox flags date ⟨[], .nonSync⟩).encoding ++ ascii " "
      after := [.line (ascii "\r\n")]
      lines := by simp [ImapMessageAppendStream.isLiteral] }
  encode := fun tag mailbox flags date message => by
    simp [AppendParts.fragments, Encoder.encode, Command.fragments, CommandBody.encoding]

end Concrete

section Concrete

open Concrete

/-- The message "abc" to INBOX. -/
def playStreamed (args : List (Option Bytes)) :=
  imapMessageAppendStream.play
    (Coroutine.start (.new .inbox (ascii "abc").length.toUInt32.toNat {})
      (LineFragmentizer.empty : LineFragmentizer (decodeTable appendReplies)))
    (args.map fun arg => (arg, ()))

end Concrete
end IoImap
