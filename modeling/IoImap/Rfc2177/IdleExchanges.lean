import IoImap.Command.Output
import IoImap.Rfc2177.IdleResume
import IoImap.Send.Listening

/-!
# The exchanges of IDLE

IDLE and DONE are one line each. So once its line is written an exchange of IDLE does
nothing but listen, the first read in which the server says anything about it ends it,
and what it comes to is read off what that read brings.
-/

namespace IoImap
open Fragmentizer ServerMessage

namespace ImapIdle

variable {F : Type}

/-! ### Verdicts -/

/-- IDLE once it has asked for its tag. -/
def asked : ImapSend Command := .fresh (.tag ⟨.idle, id⟩ true) []

def idleSent (tag : Tag) : Sent Command := ⟨⟨tag, .idle⟩, tag⟩

def doneSent (tag : Tag) : Sent IdleDone := ⟨.idleDone, tag⟩

def turnedDown (body : StatusBody) : ImapIdleError :=
  match body.kind with
  | .ok => .unexpectedTagged
  | .no => .no body.text
  | .bad => .bad body.text

/-- The error that the exchange of IDLE ends with, if it does not lead to reading. -/
def idleVerdict (out : ImapSendOutput Command) : Option ImapIdleError :=
  match out.bye, out.tagged, out.continuationRequest with
  | some bye, _, _ => some (.bye bye.text)
  | none, some tagged, _ => some (turnedDown tagged.body)
  | none, none, none => some .expectedContinuationRequest
  | none, none, some _ => none

/-- What the exchange of DONE ends with, if it does not lead to another IDLE. -/
def doneVerdict (out : ImapSendOutput IdleDone) (expired : Bool) : Option (Except ImapIdleError Unit) :=
  match out.bye, out.tagged with
  | some bye, _ => some (.error (.bye bye.text))
  | none, none => some (.error .missingTagged)
  | none, some tagged =>
    match tagged.body.kind with
    | .ok => if expired then none else some (.ok ())
    | .no => some (.error (.no tagged.body.text))
    | .bad => some (.error (.bad tagged.body.text))

theorem idleOver_verdict [Fragmentizer F] [TryFrom Bytes Tag] [Encoder Command] [Encoder IdleDone]
    {s : ImapIdle} {out : ImapSendOutput Command} {err : ImapIdleError}
    (h : idleVerdict out = some err) (f : F) (env : ImapIdleEnv) :
    s.idleOver out f env = (.complete (.error err), s, f) := by
  unfold idleVerdict at h
  split at h
  · rename_i hbye
    simp only [idleOver, hbye, ← Option.some.inj h]
  · rename_i tagged hbye htagged
    simp only [idleOver, hbye, htagged, ← Option.some.inj h, turnedDown]
    cases tagged.body.kind <;> rfl
  · rename_i hbye htagged hcr
    simp only [idleOver, hbye, htagged, hcr, ← Option.some.inj h]
  · simp at h

theorem idleVerdict_eq_none {out : ImapSendOutput Command} (h : idleVerdict out = none) :
    out.bye = none ∧ out.tagged = none ∧ out.continuationRequest.isSome := by
  unfold idleVerdict at h
  split at h
  · simp at h
  · simp at h
  · simp at h
  · rename_i cr hbye htagged hcr
    exact ⟨hbye, htagged, by rw [hcr]; rfl⟩

theorem doneOver_verdict (s : ImapIdle) (out : ImapSendOutput IdleDone) (f : F) (env : ImapIdleEnv) :
    match doneVerdict out (s.timedOut env.check) with
    | some r => ∃ s', s.doneOver out f env = (.complete r, s', f)
    | none => s.doneOver out f env =
        (.yielded .wantsTag, { s with state := .idle asked, timer := none }, f) := by
  unfold doneVerdict doneOver
  cases out.bye with
  | some bye => exact ⟨s, rfl⟩
  | none =>
    cases out.tagged with
    | none => exact ⟨s, rfl⟩
    | some tagged =>
      simp only
      cases tagged.body.kind with
      | ok =>
        cases s.timedOut env.check with
        | true => rfl
        | false => exact ⟨{ s with timer := none }, rfl⟩
      | no => exact ⟨{ s with timer := none }, rfl⟩
      | bad => exact ⟨{ s with timer := none }, rfl⟩

/-! ### One resume -/

inductive Conducted [Fragmentizer F] [TryFrom Bytes Tag] [Encoder Command] [Encoder IdleDone]
    (s : ImapIdle) (f : F) (env : ImapIdleEnv) :
    Option Bytes → ImapIdleResult → ImapIdle → F → List FragmentizerEvent → Prop where
  | asks (hs : s.state = .idle (.command .idle)) :
      Conducted s f env none (.yielded .wantsTag) (s.enter env (.idle asked)) f []
  | misnamed {bytes : Bytes} {err : ValidationError} {s' : ImapIdle} (hs : s.state = .idle asked)
      (htag : (TryFrom.tryFrom bytes : Except ValidationError Tag) = .error err) :
      Conducted s f env (some bytes) (.complete (.error (.send (.invalidTag err)))) s' f []
  | writes {bytes : Bytes} {tag : Tag} (hs : s.state = .idle asked)
      (htag : (TryFrom.tryFrom bytes : Except ValidationError Tag) = .ok tag) :
      Conducted s f env (some bytes)
        (.yielded (.wantsWrite (Encoder.octets (⟨tag, .idle⟩ : Command))))
        (s.enter env (.idle (.receive ⟨tag, .idle⟩ tag))) f []
  | idles {arg : Option Bytes} {send send' : ImapSend Command} {tag : Tag}
      {past : List ServerMessage} {f' : F} {events : List FragmentizerEvent}
      (hs : s.state = .idle send) (hl : send.Listening (idleSent tag) past)
      (hr : send.Listens (idleSent tag) past f arg (.yielded .wantsRead) send' f' events) :
      Conducted s f env arg (.yielded .wantsRead) (s.enter env (.idle send')) f' events
  | idleFails {arg : Option Bytes} {send send' : ImapSend Command} {tag : Tag}
      {past : List ServerMessage} {err : ImapSendError} {s' : ImapIdle} {f' : F}
      {events : List FragmentizerEvent} (hs : s.state = .idle send)
      (hl : send.Listening (idleSent tag) past)
      (hr : send.Listens (idleSent tag) past f arg (.complete (.error err)) send' f' events) :
      Conducted s f env arg (.complete (.error (.send err))) s' f' events
  | idleEnds {arg : Option Bytes} {send send' : ImapSend Command} {tag : Tag}
      {past : List ServerMessage} {out : ImapSendOutput Command} {err : ImapIdleError}
      {s' : ImapIdle} {f' : F} {events : List FragmentizerEvent} (hs : s.state = .idle send)
      (hl : send.Listening (idleSent tag) past)
      (hr : send.Listens (idleSent tag) past f arg (.complete (.ok out)) send' f' events)
      (hv : idleVerdict out = some err) :
      Conducted s f env arg (.complete (.error err)) s' f' events
  | reports {arg : Option Bytes} {send send' : ImapSend Command} {tag : Tag}
      {past : List ServerMessage} {out : ImapSendOutput Command} {f' : F}
      {events : List FragmentizerEvent} (hs : s.state = .idle send)
      (hl : send.Listening (idleSent tag) past)
      (hr : send.Listens (idleSent tag) past f arg (.complete (.ok out)) send' f' events)
      (hv : idleVerdict out = none) (hnews : out.data ≠ [] ∨ out.untagged ≠ []) :
      Conducted s f env arg (.yielded (.event ⟨out.untagged, out.data⟩))
        (s.enter env (.read tag)) f' events
  | enters {arg : Option Bytes} {send send' : ImapSend Command} {tag : Tag}
      {past : List ServerMessage} {out : ImapSendOutput Command} {f' : F}
      {events : List FragmentizerEvent} (hs : s.state = .idle send)
      (hl : send.Listening (idleSent tag) past)
      (hr : send.Listens (idleSent tag) past f arg (.complete (.ok out)) send' f' events)
      (hv : idleVerdict out = none) (hquiet : out.data = [] ∧ out.untagged = [])
      (hgo : s.stopping env = false) :
      Conducted s f env arg (.yielded .wantsRead) (s.enter env (.read tag)) f' events
  | turnsBack {arg : Option Bytes} {send send' : ImapSend Command} {tag : Tag}
      {past : List ServerMessage} {out : ImapSendOutput Command} {f' : F}
      {events : List FragmentizerEvent} (hs : s.state = .idle send)
      (hl : send.Listening (idleSent tag) past)
      (hr : send.Listens (idleSent tag) past f arg (.complete (.ok out)) send' f' events)
      (hv : idleVerdict out = none) (hquiet : out.data = [] ∧ out.untagged = [])
      (hstop : s.stopping env = true) :
      Conducted s f env arg (.yielded (.wantsWrite (doneBytes tag)))
        (s.enter env (.done (doneWritten tag))) f' events
  | reads {arg : Option Bytes} {tag : Tag} {out : ImapIdleResult} {s' : ImapIdle} {f' : F}
      {events : List FragmentizerEvent} (hs : s.state = .read tag)
      (hr : s.Resumed f env arg out s' f' events) : Conducted s f env arg out s' f' events
  | finishes {arg : Option Bytes} {send send' : ImapSend IdleDone} {tag : Tag}
      {past : List ServerMessage} {f' : F} {events : List FragmentizerEvent}
      (hs : s.state = .done send) (hl : send.Listening (doneSent tag) past)
      (hr : send.Listens (doneSent tag) past f arg (.yielded .wantsRead) send' f' events) :
      Conducted s f env arg (.yielded .wantsRead) (s.enter env (.done send')) f' events
  | doneFails {arg : Option Bytes} {send send' : ImapSend IdleDone} {tag : Tag}
      {past : List ServerMessage} {err : ImapSendError} {s' : ImapIdle} {f' : F}
      {events : List FragmentizerEvent} (hs : s.state = .done send)
      (hl : send.Listening (doneSent tag) past)
      (hr : send.Listens (doneSent tag) past f arg (.complete (.error err)) send' f' events) :
      Conducted s f env arg (.complete (.error (.send err))) s' f' events
  | doneEnds {arg : Option Bytes} {send send' : ImapSend IdleDone} {tag : Tag}
      {past : List ServerMessage} {out : ImapSendOutput IdleDone} {r : Except ImapIdleError Unit}
      {s' : ImapIdle} {f' : F} {events : List FragmentizerEvent} (hs : s.state = .done send)
      (hl : send.Listening (doneSent tag) past)
      (hr : send.Listens (doneSent tag) past f arg (.complete (.ok out)) send' f' events)
      (hv : doneVerdict out (s.expired env) = some r) : Conducted s f env arg (.complete r) s' f' events
  | renews {arg : Option Bytes} {send send' : ImapSend IdleDone} {tag : Tag}
      {past : List ServerMessage} {out : ImapSendOutput IdleDone} {f' : F}
      {events : List FragmentizerEvent} (hs : s.state = .done send)
      (hl : send.Listening (doneSent tag) past)
      (hr : send.Listens (doneSent tag) past f arg (.complete (.ok out)) send' f' events)
      (hv : doneVerdict out (s.expired env) = none) :
      Conducted s f env arg (.yielded .wantsTag)
        { s.enter env (.idle asked) with timer := none } f' events

/-- The exchanges between two resumes: IDLE is about to ask for its tag, has asked for
it, or listens, and DONE listens. -/
structure Plain (s : ImapIdle) (due : Request) : Prop extends Ready s due where
  exchanges : match s.state with
    | .idle send => (send = .command .idle ∧ due = .nothing) ∨ (send = asked ∧ due = .tag) ∨
        ∃ tag past, send.Listening (idleSent tag) past
    | .read _ => True
    | .done send => ∃ tag past, send.Listening (doneSent tag) past

section Spec

variable [Fragmentizer F]

theorem listens_yield {M : Type} {send send' : ImapSend M} {sent : Sent M}
    {past : List ServerMessage} {f f' : F} {arg : Option Bytes} {y : ImapYield}
    {events : List FragmentizerEvent} (h : send.Listens sent past f arg (.yielded y) send' f' events) :
    y = .wantsRead := by
  cases h <;> rfl

theorem listens_output {M : Type} {send send' : ImapSend M} {sent : Sent M}
    {past : List ServerMessage} {f f' : F} {arg : Option Bytes} {out : ImapSendOutput M}
    {events : List FragmentizerEvent}
    (h : send.Listens sent past f arg (.complete (.ok out)) send' f' events) :
    ∃ data, arg = some data ∧ data ≠ [] ∧
      ImapSend.Accepted (messages (enqueueBytes f data)) ∧
      (lastSome (·.signal? sent.tag) (messages (enqueueBytes f data))).isSome ∧
      out = ImapSend.outputOf sent past (messages (enqueueBytes f data)) ∧
      f' = drained (enqueueBytes f data) ∧
      events = .fed data :: (messages (enqueueBytes f data)).map .completed := by
  cases h with
  | @ended data _ hne hms hsig => exact ⟨data, rfl, hne, hms, hsig, rfl, rfl, rfl⟩

theorem listens_listening {M : Type} {send send' : ImapSend M} {sent : Sent M}
    {past : List ServerMessage} {f f' : F} {arg : Option Bytes} {y : ImapYield}
    {events : List FragmentizerEvent} (hl : send.Listening sent past)
    (h : send.Listens sent past f arg (.yielded y) send' f' events) :
    send'.Listening sent (past ++ events.filterMap FragmentizerEvent.message?) := by
  cases h with
  | waits => simpa using hl
  | readsOn hne hms hsig hs' =>
    rw [FragmentizerEvent.message?_read]
    exact hs'

variable [TryFrom Bytes Tag] [Encoder Command] [Encoder IdleDone] {s : ImapIdle} {due : Request}

theorem done_conducted {send : ImapSend IdleDone} {tag : Tag} {past : List ServerMessage}
    (hs : s.state = .done send) (hl : send.Listening (doneSent tag) past) (f : F)
    (arg : Option Bytes) (env : ImapIdleEnv) :
    ∃ out s' f' events,
      (s.startTimer env.start).resumeDone send (⟨f, []⟩ : Logged F) arg env =
        (out, s', ⟨f', events⟩) ∧ Conducted s f env arg out s' f' events := by
  obtain ⟨out, send', f', events, he, hr⟩ := hl.resume_spec f arg
  rw [resumeDone, he]
  rcases out with y | (err | out)
  · obtain rfl := listens_yield hr
    exact ⟨_, _, f', events, rfl, .finishes hs hl hr⟩
  · exact ⟨_, s.startTimer env.start, f', events, rfl, .doneFails hs hl hr⟩
  · have hover := doneOver_verdict (s.startTimer env.start) out (⟨f', events⟩ : Logged F) env
    have hexpired : (s.startTimer env.start).timedOut env.check = s.expired env := rfl
    rw [hexpired] at hover
    cases hv : doneVerdict out (s.expired env) with
    | some r =>
      rw [hv] at hover
      obtain ⟨s', hs'⟩ := hover
      exact ⟨_, s', f', events, hs', .doneEnds hs hl hr hv⟩
    | none =>
      rw [hv] at hover
      exact ⟨_, _, f', events, hover, .renews hs hl hr hv⟩

theorem idle_conducted [LawfulEncoder IdleDone] {send : ImapSend Command} {tag : Tag}
    {past : List ServerMessage} (hs : s.state = .idle send) (hl : send.Listening (idleSent tag) past)
    (f : F) (arg : Option Bytes) (env : ImapIdleEnv) :
    ∃ out s' f' events,
      (s.startTimer env.start).resumeIdle send (⟨f, []⟩ : Logged F) arg env =
        (out, s', ⟨f', events⟩) ∧ Conducted s f env arg out s' f' events := by
  obtain ⟨out, send', f', events, he, hr⟩ := hl.resume_spec f arg
  rw [resumeIdle, he]
  rcases out with y | (err | out)
  · obtain rfl := listens_yield hr
    exact ⟨_, _, f', events, rfl, .idles hs hl hr⟩
  · exact ⟨_, s.startTimer env.start, f', events, rfl, .idleFails hs hl hr⟩
  · simp only
    cases hv : idleVerdict out with
    | some err =>
      exact ⟨_, s.startTimer env.start, f', events, idleOver_verdict hv _ _, .idleEnds hs hl hr hv⟩
    | none =>
      obtain ⟨hbye, htagged, hcr⟩ := idleVerdict_eq_none hv
      obtain ⟨cr, hcr⟩ := Option.isSome_iff_exists.mp hcr
      obtain ⟨data, -, -, -, -, hout, -⟩ := listens_output hr
      have htag : out.tag = tag := by rw [hout]; rfl
      simp only [idleOver, hbye, htagged, hcr, htag]
      by_cases hnews : out.data ≠ [] ∨ out.untagged ≠ []
      · rw [if_pos hnews]
        exact ⟨_, _, f', events, rfl, .reports hs hl hr hv hnews⟩
      · rw [if_neg hnews]
        have hquiet : out.data = [] ∧ out.untagged = [] := by simpa [not_or] using hnews
        have hread := resumeRead_none (s.enter env (.read tag)) tag (⟨f', events⟩ : Logged F) env
        have hstopping : (env.done || (s.enter env (.read tag)).timedOut env.check) =
            s.stopping env := rfl
        rw [hstopping] at hread
        cases hstop : s.stopping env with
        | true =>
          rw [hstop, if_pos rfl] at hread
          exact ⟨_, _, f', events, hread, .turnsBack hs hl hr hv hquiet hstop⟩
        | false =>
          rw [hstop, if_neg Bool.false_ne_true] at hread
          exact ⟨_, _, f', events, hread, .enters hs hl hr hv hquiet hstop⟩

theorem asked_conducted [LawfulEncoder Command] [LawfulIdle] (hs : s.state = .idle asked) (f : F)
    (bytes : Bytes) (env : ImapIdleEnv) :
    ∃ out s' f' events,
      (s.startTimer env.start).resumeIdle asked (⟨f, []⟩ : Logged F) (some bytes) env =
        (out, s', ⟨f', events⟩) ∧ Conducted s f env (some bytes) out s' f' events := by
  cases htag : (TryFrom.tryFrom bytes : Except ValidationError Tag) with
  | error err =>
    rw [resumeIdle, asked, ImapSend.asked_invalid (⟨f, []⟩ : Logged F) htag]
    exact ⟨_, _, f, [], rfl, .misnamed hs htag⟩
  | ok tag =>
    rw [resumeIdle, asked, ImapSend.asked_valid (⟨f, []⟩ : Logged F) htag (LawfulIdle.line tag).plain]
    exact ⟨_, _, f, [], rfl, .writes hs htag⟩

theorem conduct_spec [LawfulEncoder Command] [LawfulEncoder IdleDone] [LawfulIdle]
    (h : s.Plain due) (f : F) {arg : Option Bytes} (hans : due.answeredBy arg = true)
    (env : ImapIdleEnv) :
    ∃ out s' f' events, s.resume (⟨f, []⟩ : Logged F) arg env = (out, s', ⟨f', events⟩) ∧
      Conducted s f env arg out s' f' events := by
  have hex := h.exchanges
  have hstate := startTimer_state s env.start
  cases hs : s.state with
  | idle send =>
    simp only [hs] at hex
    have hres : s.resume (⟨f, []⟩ : Logged F) arg env =
        (s.startTimer env.start).resumeIdle send ⟨f, []⟩ arg env := by
      simp only [resume, hstate, hs]
    rw [hres]
    rcases hex with ⟨rfl, rfl⟩ | ⟨rfl, rfl⟩ | ⟨tag, past, hl⟩
    · obtain rfl := Request.answeredBy_nothing.mp hans
      exact ⟨_, _, f, [], rfl, .asks hs⟩
    · obtain ⟨bytes, rfl⟩ := Option.isSome_iff_exists.mp hans
      exact asked_conducted hs f bytes env
    · exact idle_conducted hs hl f arg env
  | read tag =>
    obtain ⟨out, s', f', events, he, hr⟩ := resume_spec h.toReady f [] arg env
    exact ⟨out, s', f', events, he, .reads hs hr⟩
  | done send =>
    simp only [hs] at hex
    obtain ⟨tag, past, hl⟩ := hex
    have hres : s.resume (⟨f, []⟩ : Logged F) arg env =
        (s.startTimer env.start).resumeDone send ⟨f, []⟩ arg env := by
      simp only [resume, hstate, hs]
    rw [hres]
    exact done_conducted hs hl f arg env

end Spec

/-! ### Runs -/

section Given

variable [Fragmentizer F] {t : Step F}

theorem given_received (hdue : t.due = .nothing ∨ t.due = .read)
    (hans : t.due.answeredBy t.arg = true) : ImapSend.Receives t := by
  intro data ha hne
  rcases hdue with hdue | hdue
  · simp [hdue, ha, Request.answeredBy] at hans
  · exact ImapSend.received_read hdue ha hne

theorem listening_received {M : Type} {send : ImapSend M} {sent : Sent M}
    {past : List ServerMessage} (hl : send.Listening sent past) (hawaits : send.Awaits t.due)
    (hans : t.due.answeredBy t.arg = true) : ImapSend.Receives t :=
  given_received (by simpa only [ImapSend.Awaits, hl.state] using hawaits) hans

theorem done_received {send : ImapSend IdleDone} {tag : Tag} {past : List ServerMessage}
    (hs : t.before.state = .done send) (hl : send.Listening (doneSent tag) past)
    (hready : t.before.Ready t.due) (hans : t.due.answeredBy t.arg = true) :
    ImapSend.Receives t := by
  have hex := hready.exchange
  simp only [hs] at hex
  exact listening_received hl hex.2 hans

end Given

section Runs

variable [Fragmentizer F] [TryFrom Bytes Tag] [Encoder Command] [Encoder IdleDone]
  [LawfulEncoder Command] [LawfulEncoder IdleDone] [LawfulIdle]

omit [Fragmentizer F] [TryFrom Bytes Tag] [LawfulEncoder Command] [LawfulEncoder IdleDone] in
theorem doneWritten_listening (tag : Tag) : (doneWritten tag).Listening (doneSent tag) [] := by
  have hreceive := (ImapSend.new_plain LawfulIdle.done.plain tag).2
  rw [doneWritten, hreceive]
  exact ImapSend.listening_receive IdleDone.idleDone tag

omit [Fragmentizer F] [TryFrom Bytes Tag] [Encoder IdleDone] [LawfulEncoder IdleDone] [LawfulIdle] in
theorem new_plain (opts : ImapIdleOptions) : (new opts).Plain .nothing :=
  ⟨new_ready opts, .inl ⟨rfl, rfl⟩⟩

omit [LawfulEncoder IdleDone] [LawfulEncoder Command] in
theorem Conducted.plain {s s' : ImapIdle} {f f' : F} {env : ImapIdleEnv}
    {arg : Option Bytes} {y : ImapIdleYield} {events : List FragmentizerEvent}
    (h : Conducted s f env arg (.yielded y) s' f' events) (hready : s'.Ready y.request) :
    s'.Plain y.request := by
  refine ⟨hready, ?_⟩
  cases h with
  | asks => exact .inr (.inl ⟨rfl, rfl⟩)
  | @writes _ tag => exact .inr (.inr ⟨tag, [], ImapSend.listening_receive _ tag⟩)
  | idles _ hl hr => exact .inr (.inr ⟨_, _, listens_listening hl hr⟩)
  | reports => trivial
  | enters => trivial
  | turnsBack => exact ⟨_, _, doneWritten_listening _⟩
  | reads hs hr =>
    cases hr with
    | stops => exact ⟨_, _, doneWritten_listening _⟩
    | waits => trivial
    | hears => trivial
    | idles hs' => simp [hs] at hs'
    | reports hs' => simp [hs] at hs'
    | enters hs' => simp [hs] at hs'
    | turnsBack hs' => simp [hs] at hs'
    | finishes hs' => simp [hs] at hs'
    | renews hs' => simp [hs] at hs'
  | finishes _ hl hr => exact ⟨_, _, listens_listening hl hr⟩
  | renews => exact .inr (.inl ⟨rfl, rfl⟩)

/-- A step of a run of IDLE, as a resume and as what its exchanges make of it. -/
structure Takes (a : Config ImapIdle F) (t : Step F) (b : Config ImapIdle F) : Prop where
  conducted : Conducted t.before t.frag t.env t.arg t.out t.after t.fragAfter t.log
  resumed : Resumed t.before t.frag t.env t.arg t.out t.after t.fragAfter t.log
  plain : t.before.Plain t.due
  answered : t.due.answeredBy t.arg = true
  due : a.due = some t.due
  before : t.before = a.state
  after : b = imapIdle.finish t

theorem step_conducted {a b : Config ImapIdle F} {t : Step F}
    (ha : ∀ due, a.due = some due → a.state.Plain due) (h : imapIdle.Step a t b) :
    Takes a t b ∧ ∀ due, b.due = some due → b.state.Plain due := by
  obtain ⟨⟨hr, hready, hans⟩, hbefore, hb, hnext⟩ :=
    step_resumed (fun due hdue => (ha due hdue).toReady) h
  obtain ⟨due, arg, env, out, s', f', log, hdue, hans', he, rfl, rfl⟩ := imapIdle.step_cases h
  obtain ⟨out', s'', f'', events, he', hc⟩ := conduct_spec (ha due hdue) a.frag hans' env
  cases he'.symm.trans he
  refine ⟨⟨hc, hr, ha due hdue, hans, hdue, rfl, hb⟩, fun due' hd => ?_⟩
  have hready' := hnext due' hd
  rcases out with y | r
  · obtain rfl : imapIdle.request y = due' := Option.some.inj hd
    exact hc.plain hready'
  · simp at hd

end Runs
end ImapIdle
end IoImap
