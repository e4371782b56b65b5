import IoImap.Rfc2177.IdleResume
import IoImap.Watch

/-!
# What one resume of the watcher comes to

A resume of the watcher is a resume of the sub-coroutine it holds, or of none,
and what follows from its end, which is a function of the watcher.
-/

namespace IoImap
open Fragmentizer

namespace ImapMailboxWatch

/-! ### States -/

namespace State

def command? : State → Option (ImapSend Command)
  | enableQresync send => some send
  | examineInitial send => some send
  | fetchBaseline send => some send
  | examineQresync send => some send
  | examineResync send => some send
  | fetchResync send => some send
  | _ => none

def withCommand (send : ImapSend Command) : State → State
  | enableQresync _ => enableQresync send
  | examineInitial _ => examineInitial send
  | fetchBaseline _ => fetchBaseline send
  | examineQresync _ => examineQresync send
  | examineResync _ => examineResync send
  | fetchResync _ => fetchResync send
  | state => state

def isBare : State → Bool
  | beginIdle => true
  | waiting => true
  | emitDeltas => true
  | terminal => true
  | _ => false

/-- The state, between two resumes, when the caller is asked for `due`. -/
def Ready (due : Request) : State → Prop
  | idle i => i.Ready due
  | state =>
    match state.command? with
    | some send => send.Ready ∧ send.Awaits due
    | none => due = .nothing

theorem ready_command {state : State} {send : ImapSend Command} {due : Request}
    (h : state.command? = some send) : state.Ready due ↔ send.Ready ∧ send.Awaits due := by
  cases state <;> simp_all [Ready, command?]

theorem ready_bare {state : State} {due : Request} (h : state.isBare = true) :
    state.Ready due ↔ due = .nothing := by
  cases state <;> simp_all [Ready, command?, isBare]

theorem ready_withCommand {state : State} {send send' : ImapSend Command} {due : Request}
    (h : state.command? = some send) :
    (state.withCommand send').Ready due ↔ send'.Ready ∧ send'.Awaits due := by
  apply ready_command
  cases state <;> simp_all [command?, withCommand]

end State

theorem started_ready (body : CommandBody) :
    (ImapSend.fresh (.tag ⟨body, id⟩ true) [] : ImapSend Command).Ready ∧
      (ImapSend.fresh (.tag ⟨body, id⟩ true) [] : ImapSend Command).Awaits .tag :=
  ⟨⟨rfl, rfl, rfl⟩, rfl⟩

theorem startCommand_eq {F : Type} [Fragmentizer F] [TryFrom Bytes Tag] [Encoder Command]
    (body : CommandBody) (f : F) :
    (ImapSend.command body).resume f none =
      (.yielded .wantsTag, ImapSend.fresh (.tag ⟨body, id⟩ true) [], f) := rfl

theorem startIdle_eq {F : Type} [Fragmentizer F] [TryFrom Bytes Tag] [Encoder Command]
    [Encoder IdleDone] (opts : ImapIdleOptions) (f : F) (env : ImapIdleEnv) :
    (ImapIdle.new opts).resume f none env =
      (.yielded .wantsTag,
        { ImapIdle.new opts with
          state := .idle (.fresh (.tag ⟨.idle, id⟩ true) [])
          timer := some env.start }, f) := rfl

section Outcomes

variable [Base64Codec] [TryFrom String Mailbox] (w : ImapMailboxWatch) (env : ImapMailboxWatchEnv)

def answered (out : ImapSendOutput Command) : Outcome :=
  match w.state with
  | .enableQresync _ => w.enabledQresync
  | .examineInitial _ => w.examinedInitial (.ofOutput out)
  | .fetchBaseline _ => w.fetchedBaseline (ImapMessageFetch.decode out) env
  | .examineQresync _ => w.examinedQresync (.ofOutput out) env
  | .examineResync _ => w.examinedResync (.ofOutput out)
  | .fetchResync _ => w.fetchedResync (ImapMessageFetch.decode out) env
  | _ => w.complete (.ok ())

def proceed : Outcome :=
  match w.state with
  | .beginIdle => w.beginIdle env
  | .waiting => w.waited env
  | .emitDeltas => w.emitDeltas env
  | _ => w.complete (.ok ())

def idleEnv : ImapIdleEnv := ⟨(w.wake env).idleDone, env.clock.1, env.clock.2⟩

/-- The environment of the resume of IDLE behind an event. -/
def idleEnvAgain : ImapIdleEnv := ⟨true, env.clockAgain.1, env.clockAgain.2⟩

end Outcomes

/-! ### One resume -/

variable {F : Type}

/-- What one resume comes to. -/
inductive Resumed [Fragmentizer F] [Encoder IdleDone] [Base64Codec] [TryFrom String Mailbox]
    (w : ImapMailboxWatch) (f : F) (env : ImapMailboxWatchEnv) :
    Option Bytes → ImapMailboxWatchResult → ImapMailboxWatch → F → List FragmentizerEvent → Prop where
  | goesOn {arg : Option Bytes} {send send' : ImapSend Command} {y : ImapYield} {f' : F}
      {events : List FragmentizerEvent} (hs : w.state.command? = some send)
      (hr : send.Resumed f arg (.yielded y) send' f' events) :
      Resumed w f env arg (.yielded (.ofYield y))
        { w.wake env with state := w.state.withCommand send' } f' events
  | fails {arg : Option Bytes} {send send' : ImapSend Command}
      {out : Except ImapSendError (ImapSendOutput Command)} {err : ImapMailboxWatchError} {f' : F}
      {events : List FragmentizerEvent} (hs : w.state.command? = some send)
      (hr : send.Resumed f arg (.complete out) send' f' events)
      (hout : ∀ o, out = .ok o → ¬ Succeeds o) :
      Resumed w f env arg (.complete (.error err)) { w.wake env with state := .terminal } f' events
  | succeeds {arg : Option Bytes} {send send' : ImapSend Command} {out : ImapSendOutput Command}
      {f' : F} {events : List FragmentizerEvent} (hs : w.state.command? = some send)
      (hr : send.Resumed f arg (.complete (.ok out)) send' f' events) (hout : Succeeds out) :
      Resumed w f env arg ((w.wake env).answered env out).1 ((w.wake env).answered env out).2 f' events
  | idles {arg : Option Bytes} {idle idle' : ImapIdle} {y : ImapYield} {f' : F}
      {events : List FragmentizerEvent} (hs : w.state = .idle idle)
      (hr : idle.Resumed f (w.idleEnv env) arg (.yielded (.ofYield y)) idle' f' events) :
      Resumed w f env arg (.yielded (.ofYield y)) { w.wake env with state := .idle idle' } f' events
  /-- It reports something and is ended at once. -/
  | sees {arg : Option Bytes} {idle idle' : ImapIdle} {event : ImapIdleEvent} {tag : Tag} {f' : F}
      {events : List FragmentizerEvent} (hs : w.state = .idle idle)
      (hr : idle.Resumed f (w.idleEnv env) arg (.yielded (.event event)) idle' f' events)
      (htag : idle'.state = .read tag) :
      Resumed w f env arg (.yielded (.wantsWrite (ImapIdle.doneBytes tag)))
        { w.wake env with
          idleSawData := true
          idleDone := true
          state := .idle (idle'.enter (idleEnvAgain env) (.done (ImapIdle.doneWritten tag))) }
        f' events
  | idleFails {arg : Option Bytes} {idle idle' : ImapIdle} {err : ImapIdleError} {f' : F}
      {events : List FragmentizerEvent} (hs : w.state = .idle idle)
      (hr : idle.Resumed f (w.idleEnv env) arg (.complete (.error err)) idle' f' events) :
      Resumed w f env arg (.complete (.error (.idle err))) { w.wake env with state := .terminal }
        f' events
  | idleEnds {arg : Option Bytes} {idle idle' : ImapIdle} {f' : F}
      {events : List FragmentizerEvent} (hs : w.state = .idle idle)
      (hr : idle.Resumed f (w.idleEnv env) arg (.complete (.ok ())) idle' f' events) :
      Resumed w f env arg ((w.wake env).idled env).1 ((w.wake env).idled env).2 f' events
  | proceeds {arg : Option Bytes} (hs : w.state.isBare = true) :
      Resumed w f env arg ((w.wake env).proceed env).1 ((w.wake env).proceed env).2 f []

theorem isEvent_event {r : ImapIdleResult} (h : ¬ ImapIdle.isEvent r = false) :
    ∃ event, r = .yielded (.event event) := by
  rcases r with (_ | _ | _ | event) | r
  case yielded.event => exact ⟨event, rfl⟩
  all_goals simp [ImapIdle.isEvent] at h

theorem event_reads [Fragmentizer F] [Encoder IdleDone] {idle idle' : ImapIdle} {f f' : F}
    {env : ImapIdleEnv} {arg : Option Bytes} {event : ImapIdleEvent} {events : List FragmentizerEvent}
    (h : idle.Resumed f env arg (.yielded (.event event)) idle' f' events) :
    ∃ tag, idle'.state = .read tag := by
  generalize hy : ImapIdleYield.event event = y at h
  cases h with
  | reports => exact ⟨_, rfl⟩
  | hears => exact ⟨_, rfl⟩
  | idles hs hr => rename_i y; cases y <;> simp [ImapIdleYield.ofYield] at hy
  | finishes hs hr => rename_i y; cases y <;> simp [ImapIdleYield.ofYield] at hy
  | _ => simp at hy

section Spec

variable [Fragmentizer F] [TryFrom Bytes Tag] [Encoder Command] [Encoder IdleDone]
  [LawfulEncoder Command] [LawfulEncoder IdleDone] [Base64Codec] [TryFrom String Mailbox]
  {w : ImapMailboxWatch} {due : Request}

omit [LawfulEncoder IdleDone] in
theorem exchange_spec {V : Type} {decode : ImapSendOutput Command → V}
    {into : ImapSend Command → State} {error : ImapCommandError → ImapMailboxWatchError}
    {next : V → Outcome} {send : ImapSend Command} (hs : w.state.command? = some send)
    (hready : send.Ready) (hinto : ∀ send', into send' = w.state.withCommand send')
    (f : F) (log : List FragmentizerEvent) (arg : Option Bytes) (env : ImapMailboxWatchEnv)
    (hnext : ∀ out, next (decode out) = (w.wake env).answered env out) :
    ∃ out w' f' events,
      (w.wake env).exchange into error next (commandResume decode send (⟨f, log⟩ : Logged F) arg) =
        (out, w', ⟨f', log ++ events⟩) ∧ Resumed w f env arg out w' f' events := by
  obtain ⟨out, send', f', events, he, hr⟩ := commandResume_spec decode hready f log arg
  rw [he]
  cases hr with
  | goesOn hr =>
    refine ⟨_, _, f', events, rfl, ?_⟩
    simp only [hinto]
    exact .goesOn hs hr
  | fails hr hout => exact ⟨_, _, f', events, rfl, .fails hs hr hout⟩
  | succeeds hr hout =>
    refine ⟨_, _, f', events, rfl, ?_⟩
    simp only [hnext]
    exact .succeeds hs hr hout

omit [LawfulEncoder Command] [Base64Codec] [TryFrom String Mailbox] in
/-- IDLE that reads and finds its flag set sends DONE. -/
theorem resume_flagged {idle : ImapIdle} {tag : Tag} (htag : idle.state = .read tag) (l : Logged F)
    (env : ImapMailboxWatchEnv) :
    idle.resume l none ⟨true, env.clockAgain.1, env.clockAgain.2⟩ =
      (.yielded (.wantsWrite (ImapIdle.doneBytes tag)),
        idle.enter (idleEnvAgain env) (.done (ImapIdle.doneWritten tag)), l) := by
  have hst : (idle.startTimer env.clockAgain.1).state = .read tag := by
    rw [ImapIdle.startTimer_eq]
    exact htag
  unfold ImapIdle.resume
  simp only [hst, ImapIdle.resumeRead_none]
  rw [if_pos (Bool.true_or _)]
  rfl

theorem idle_spec {idle : ImapIdle} (hs : w.state = .idle idle) (hready : idle.Ready due) (f : F)
    (log : List FragmentizerEvent) (arg : Option Bytes) (env : ImapMailboxWatchEnv) :
    ∃ out w' f' events,
      (w.wake env).resumeIdle idle (⟨f, log⟩ : Logged F) arg env = (out, w', ⟨f', log ++ events⟩) ∧
        Resumed w f env arg out w' f' events := by
  obtain ⟨r, idle', f', events, he, hr⟩ := ImapIdle.resume_spec hready f log arg (w.idleEnv env)
  have he' : idle.resume (⟨f, log⟩ : Logged F) arg
      ⟨(w.wake env).idleDone, env.clock.1, env.clock.2⟩ = (r, idle', ⟨f', log ++ events⟩) := he
  unfold resumeIdle
  by_cases hevent : ImapIdle.isEvent r = false
  · have hsilent : ImapIdle.isEvent (idle.resume (⟨f, log⟩ : Logged F) arg
        ⟨(w.wake env).idleDone, env.clock.1, env.clock.2⟩).1 = false := by rw [he']; exact hevent
    rw [dif_pos hsilent]
    simp only [he']
    rcases r with (_ | _ | bytes | event) | (err | ⟨⟩)
    · exact ⟨_, _, f', events, rfl, .idles (y := .wantsTag) hs hr⟩
    · exact ⟨_, _, f', events, rfl, .idles (y := .wantsRead) hs hr⟩
    · exact ⟨_, _, f', events, rfl, .idles (y := .wantsWrite bytes) hs hr⟩
    · simp [ImapIdle.isEvent] at hevent
    · exact ⟨_, _, f', events, rfl, .idleFails hs hr⟩
    · exact ⟨_, _, f', events, rfl, .idleEnds hs hr⟩
  · obtain ⟨event, rfl⟩ := isEvent_event hevent
    have hsilent : ¬ ImapIdle.isEvent (idle.resume (⟨f, log⟩ : Logged F) arg
        ⟨(w.wake env).idleDone, env.clock.1, env.clock.2⟩).1 = false := by rw [he']; exact hevent
    rw [dif_neg hsilent]
    obtain ⟨tag, htag⟩ := event_reads hr
    have hagain' := resume_flagged htag (⟨f', log ++ events⟩ : Logged F) env
    simp only [he', hagain']
    exact ⟨_, _, f', events, rfl, .sees hs hr htag⟩

theorem resume_spec (h : w.state.Ready due) (f : F) (log : List FragmentizerEvent)
    (arg : Option Bytes) (env : ImapMailboxWatchEnv) :
    ∃ out w' f' events, w.resume (⟨f, log⟩ : Logged F) arg env = (out, w', ⟨f', log ++ events⟩) ∧
      Resumed w f env arg out w' f' events := by
  have hstate : (w.wake env).state = w.state := rfl
  unfold resume
  cases hs : w.state with
  | idle idle =>
    rw [hs] at h
    simp only [hstate, hs]
    exact idle_spec hs h f log arg env
  | beginIdle =>
    have hbare : w.state.isBare = true := by rw [hs]; rfl
    refine ⟨_, _, f, [], ?_, .proceeds hbare⟩
    simp only [hstate, hs, proceed, List.append_nil]
  | waiting =>
    have hbare : w.state.isBare = true := by rw [hs]; rfl
    refine ⟨_, _, f, [], ?_, .proceeds hbare⟩
    simp only [hstate, hs, proceed, List.append_nil]
  | emitDeltas =>
    have hbare : w.state.isBare = true := by rw [hs]; rfl
    refine ⟨_, _, f, [], ?_, .proceeds hbare⟩
    simp only [hstate, hs, proceed, List.append_nil]
  | terminal =>
    have hbare : w.state.isBare = true := by rw [hs]; rfl
    refine ⟨_, _, f, [], ?_, .proceeds hbare⟩
    simp only [hstate, hs, proceed, List.append_nil]
  | enableQresync send =>
    rw [hs] at h
    simp only [hstate, hs]
    have hcommand : w.state.command? = some send := by rw [hs]; rfl
    have hinto : ∀ send', State.enableQresync send' = w.state.withCommand send' := by
      intro send'
      rw [hs]
      rfl
    exact exchange_spec hcommand h.1 hinto f log arg env
      fun out => by simp only [answered, hstate, hs]
  | examineInitial send =>
    rw [hs] at h
    simp only [hstate, hs]
    have hcommand : w.state.command? = some send := by rw [hs]; rfl
    have hinto : ∀ send', State.examineInitial send' = w.state.withCommand send' := by
      intro send'
      rw [hs]
      rfl
    exact exchange_spec hcommand h.1 hinto f log arg env
      fun out => by simp only [answered, hstate, hs]; rfl
  | fetchBaseline send =>
    rw [hs] at h
    simp only [hstate, hs]
    have hcommand : w.state.command? = some send := by rw [hs]; rfl
    have hinto : ∀ send', State.fetchBaseline send' = w.state.withCommand send' := by
      intro send'
      rw [hs]
      rfl
    exact exchange_spec hcommand h.1 hinto f log arg env
      fun out => by simp only [answered, hstate, hs]
  | examineQresync send =>
    rw [hs] at h
    simp only [hstate, hs]
    have hcommand : w.state.command? = some send := by rw [hs]; rfl
    have hinto : ∀ send', State.examineQresync send' = w.state.withCommand send' := by
      intro send'
      rw [hs]
      rfl
    exact exchange_spec hcommand h.1 hinto f log arg env
      fun out => by simp only [answered, hstate, hs]; rfl
  | examineResync send =>
    rw [hs] at h
    simp only [hstate, hs]
    have hcommand : w.state.command? = some send := by rw [hs]; rfl
    have hinto : ∀ send', State.examineResync send' = w.state.withCommand send' := by
      intro send'
      rw [hs]
      rfl
    exact exchange_spec hcommand h.1 hinto f log arg env
      fun out => by simp only [answered, hstate, hs]; rfl
  | fetchResync send =>
    rw [hs] at h
    simp only [hstate, hs]
    have hcommand : w.state.command? = some send := by rw [hs]; rfl
    have hinto : ∀ send', State.fetchResync send' = w.state.withCommand send' := by
      intro send'
      rw [hs]
      rfl
    exact exchange_spec hcommand h.1 hinto f log arg env
      fun out => by simp only [answered, hstate, hs]

end Spec

/-! ### What follows the end of a sub-coroutine -/

/-- An error that the watcher finds itself, and no coroutine of it. -/
def Own : ImapMailboxWatchError → Prop
  | .examine _ => False
  | .fetch _ => False
  | .idle _ => False
  | .enable _ => False
  | _ => True

/-- What the watcher goes on to by itself: its end, the next EXAMINE, a wait, IDLE, or the
next of the pending events. -/
inductive Continues [Base64Codec] [TryFrom String Mailbox] (w : ImapMailboxWatch)
    (env : ImapMailboxWatchEnv) : Outcome → Prop where
  | completes {r : Except ImapMailboxWatchError Unit} (hr : ∀ err, r = .error err → Own err) :
      Continues w env (w.complete r)
  | reexamines {into : ImapSend Command → State} (opts : ImapMailboxExamineOptions)
      (hinto : into = .examineQresync ∨ into = .examineResync) :
      Continues w env (w.startCommand into (ImapMailboxExamine.body w.mailbox opts))
  | waits : Continues w env (.yielded .wantsWait, { w with state := .waiting })
  | idles : Continues w env
      ({ w with idleDone := false, idleSawData := false }.startIdle ⟨w.opts.idleTimeout⟩ env)
  | tells {event : ImapMailboxWatchEvent} {pending : List ImapMailboxWatchEvent}
      (h : w.pending = event :: pending) :
      Continues w env (.yielded (.event event), { w with pending, state := .emitDeltas })

/-- What ensues from the success of a command: the EXAMINE or the FETCH that is next, or
what the watcher goes on to with what the reply told it. -/
inductive Ensues [Base64Codec] [TryFrom String Mailbox] (w : ImapMailboxWatch)
    (env : ImapMailboxWatchEnv) : Outcome → Prop where
  | examines (opts : ImapMailboxExamineOptions) :
      Ensues w env (w.startCommand .examineInitial (ImapMailboxExamine.body w.mailbox opts))
  | fetches {w' : ImapMailboxWatch} {into : ImapSend Command → State}
      (hw : w'.mailbox = w.mailbox ∧ w'.idleSawData = w.idleSawData)
      (hinto : into = .fetchBaseline ∨ into = .fetchResync) :
      Ensues w env (w'.startCommand into fetchUidFlags)
  | continues {w' : ImapMailboxWatch} {o : Outcome} (h : Continues w' env o)
      (hw : w'.mailbox = w.mailbox ∧ w'.idleSawData = w.idleSawData) : Ensues w env o

/-- The watcher completes, starts a command or IDLE, which asks for its tag, or rests. -/
inductive Outcome.Starts : Outcome → Prop where
  | completes {r : Except ImapMailboxWatchError Unit} {w : ImapMailboxWatch} :
      Outcome.Starts (.complete r, w)
  | asks {body : CommandBody} {w : ImapMailboxWatch}
      (hs : w.state.command? = some (.fresh (.tag ⟨body, id⟩ true) [])) :
      Outcome.Starts (.yielded .wantsTag, w)
  | idles {idle : ImapIdle} {w : ImapMailboxWatch} (hs : w.state = .idle idle)
      (hidle : idle.state = .idle (.fresh (.tag ⟨.idle, id⟩ true) []))
      (hdata : idle.data = [] ∧ idle.untagged = []) : Outcome.Starts (.yielded .wantsTag, w)
  | rests {y : ImapMailboxWatchYield} {w : ImapMailboxWatch}
      (hy : y = .wantsWait ∨ ∃ event, y = .event event) (hs : w.state.isBare = true) :
      Outcome.Starts (.yielded y, w)

def Outcome.Ready (o : Outcome) : Prop := ∀ y, o.1 = .yielded y → o.2.state.Ready y.request

theorem Outcome.Starts.ready {o : Outcome} (h : o.Starts) : o.Ready := by
  intro y hy
  cases h with
  | completes => simp at hy
  | @asks body w hs =>
    obtain rfl := CoroutineState.yielded.inj hy
    exact (State.ready_command hs).mpr (started_ready body)
  | idles hs hidle hdata =>
    obtain rfl := CoroutineState.yielded.inj hy
    simp only [hs]
    refine ⟨hdata.1, hdata.2, ?_⟩
    rw [hidle]
    exact started_ready _
  | rests hrest hs =>
    obtain rfl := CoroutineState.yielded.inj hy
    rcases hrest with rfl | ⟨event, rfl⟩
    · exact (State.ready_bare hs).mpr rfl
    · exact (State.ready_bare hs).mpr rfl

theorem checkUidValidity_own {w : ImapMailboxWatch} {data : ExamineData} {err : ImapMailboxWatchError}
    (h : w.checkUidValidity data = .error err) : Own err := by
  unfold checkUidValidity at h
  split at h
  · split at h
    · rw [← Except.error.inj h]
      trivial
    · simp at h
  · simp at h

section Outcomes

variable [Base64Codec] [TryFrom String Mailbox] {w : ImapMailboxWatch} {env : ImapMailboxWatchEnv}
  {o : Outcome}

theorem beginIdle_continues : Continues w env (w.beginIdle env) := by
  unfold beginIdle
  split
  · exact .completes (by simp)
  · split
    · exact .waits
    · exact .idles

theorem emitDeltas_continues : Continues w env (w.emitDeltas env) := by
  unfold emitDeltas
  split
  · rename_i event pending hpending
    exact .tells hpending
  · exact beginIdle_continues

theorem resync_continues : Continues w env w.resync := by
  unfold resync
  split
  · exact .reexamines _ (.inr rfl)
  · exact .reexamines _ (.inl rfl)
  · exact .completes (by simp [Own])

theorem idled_continues : Continues w env (w.idled env) := by
  unfold idled
  split
  · exact .completes (by simp)
  · split
    · exact resync_continues
    · exact beginIdle_continues

theorem proceed_continues : Continues w env (w.proceed env) := by
  unfold proceed
  split
  · exact beginIdle_continues
  · unfold waited
    split
    · exact .completes (by simp)
    · exact resync_continues
  · exact emitDeltas_continues
  · exact .completes (by simp)

theorem Ensues.completes {r : Except ImapMailboxWatchError Unit}
    (hr : ∀ err, r = .error err → Own err) : Ensues w env (w.complete r) :=
  .continues (.completes hr) ⟨rfl, rfl⟩

variable (env) in
theorem examinedInitial_ensues (data : ExamineData) : Ensues w env (w.examinedInitial data) := by
  unfold examinedInitial
  split
  · exact .completes (by simp [Own])
  · simp only
    split
    · split
      · exact .continues (.completes (by simp [Own])) ⟨rfl, rfl⟩
      · exact .fetches ⟨rfl, rfl⟩ (.inl rfl)
    · exact .fetches ⟨rfl, rfl⟩ (.inl rfl)

theorem examinedQresync_ensues (data : ExamineData) :
    Ensues w env (w.examinedQresync data env) := by
  unfold examinedQresync
  split
  · rename_i err herr
    exact .completes fun _ he => Except.error.inj he ▸ checkUidValidity_own herr
  · exact .continues emitDeltas_continues ⟨rfl, rfl⟩

variable (env) in
theorem examinedResync_ensues (data : ExamineData) : Ensues w env (w.examinedResync data) := by
  unfold examinedResync
  split
  · rename_i err herr
    exact .completes fun _ he => Except.error.inj he ▸ checkUidValidity_own herr
  · exact .fetches ⟨rfl, rfl⟩ (.inr rfl)

theorem answered_ensues (out : ImapSendOutput Command) : Ensues w env (w.answered env out) := by
  unfold answered
  split
  · exact .examines _
  · exact examinedInitial_ensues env _
  · exact .continues beginIdle_continues ⟨rfl, rfl⟩
  · exact examinedQresync_ensues _
  · exact examinedResync_ensues env _
  · exact .continues emitDeltas_continues ⟨rfl, rfl⟩
  · exact .completes (by simp)

theorem Continues.starts (h : Continues w env o) : o.Starts := by
  cases h with
  | completes => exact .completes
  | reexamines opts hinto => rcases hinto with rfl | rfl <;> exact .asks rfl
  | waits => exact .rests (.inl rfl) rfl
  | idles => exact .idles rfl rfl ⟨rfl, rfl⟩
  | tells => exact .rests (.inr ⟨_, rfl⟩) rfl

theorem Ensues.starts (h : Ensues w env o) : o.Starts := by
  cases h with
  | examines => exact .asks rfl
  | fetches hw hinto => rcases hinto with rfl | rfl <;> exact .asks rfl
  | continues h => exact h.starts

end Outcomes

theorem ofYield_request (y : ImapYield) : (ImapMailboxWatchYield.ofYield y).request = y.request := by
  cases y <;> rfl

theorem Resumed.ready [Fragmentizer F] [Encoder IdleDone] [LawfulEncoder IdleDone] [Base64Codec]
    [TryFrom String Mailbox] {w w' : ImapMailboxWatch} {f f' : F} {env : ImapMailboxWatchEnv}
    {due : Request} {arg : Option Bytes} {y : ImapMailboxWatchYield}
    {events : List FragmentizerEvent} (h : Resumed w f env arg (.yielded y) w' f' events)
    (hw : w.state.Ready due) : w'.state.Ready y.request := by
  generalize ho : CoroutineState.yielded y = out at h
  cases h with
  | goesOn hs hr =>
    obtain rfl := CoroutineState.yielded.inj ho
    rw [ofYield_request, State.ready_withCommand hs]
    exact hr.ready ((State.ready_command hs).mp hw).1
  | fails hs hr hout => simp at ho
  | succeeds hs hr hout => exact (answered_ensues _).starts.ready y ho.symm
  | idles hs hr =>
    obtain rfl := CoroutineState.yielded.inj ho
    rw [hs] at hw
    rw [ofYield_request, ← ImapIdle.ofYield_request]
    exact hr.ready hw
  | sees hs hr htag =>
    obtain rfl := CoroutineState.yielded.inj ho
    rw [hs] at hw
    have hstops : ImapIdle.Resumed _ f' (idleEnvAgain env) none _ _ f' [] := .stops htag rfl
    exact hstops.ready (hr.ready hw)
  | idleFails hs hr => simp at ho
  | idleEnds hs hr => exact idled_continues.starts.ready y ho.symm
  | proceeds hs => exact proceed_continues.starts.ready y ho.symm

theorem new_ready [Encoder Command] [LawfulEncoder Command] [Base64Codec] [TryFrom String Mailbox]
    (capability : List Capability) (mailbox : Mailbox) (opts : ImapMailboxWatchOptions) :
    (new capability mailbox opts).state.Ready .nothing := by
  have hinitial (body : CommandBody) : (ImapSend.command body).Initial := .command _
  unfold new
  simp only
  split
  · exact ⟨(hinitial _).ready, (hinitial _).awaits⟩
  · exact ⟨(hinitial _).ready, (hinitial _).awaits⟩

/-! ### Runs -/

abbrev Step (F : Type) :=
  Turn ImapMailboxWatch F ImapMailboxWatchEnv ImapMailboxWatchYield (Except ImapMailboxWatchError Unit)

def ReadyConfig (a : Config ImapMailboxWatch F) : Prop := ∀ due, a.due = some due → a.state.state.Ready due

theorem start_ready [Encoder Command] [LawfulEncoder Command] [Base64Codec]
    [TryFrom String Mailbox] (capability : List Capability) (mailbox : Mailbox)
    (opts : ImapMailboxWatchOptions) (f : F) :
    ReadyConfig (Coroutine.start (new capability mailbox opts) f) := by
  intro due hdue
  obtain rfl : Request.nothing = due := by simpa [Coroutine.start] using hdue
  exact new_ready capability mailbox opts

section Runs

variable [Fragmentizer F] [TryFrom Bytes Tag] [Encoder Command] [Encoder IdleDone]
  [LawfulEncoder Command] [LawfulEncoder IdleDone] [Base64Codec] [TryFrom String Mailbox]

theorem step_resumed {a b : Config ImapMailboxWatch F} {t : Step F} (ha : ReadyConfig a)
    (h : imapMailboxWatch.Step a t b) :
    (Resumed t.before t.frag t.env t.arg t.out t.after t.fragAfter t.log ∧
      t.before.state.Ready t.due ∧ t.due.answeredBy t.arg = true) ∧
    t.before = a.state ∧ b.state = t.after ∧ ReadyConfig b := by
  obtain ⟨due, arg, env, hdue, hans, rfl, rfl⟩ := h
  have hready := ha due hdue
  obtain ⟨out, w', f', events, he, hr⟩ := resume_spec hready a.frag [] arg env
  have ht : imapMailboxWatch.turn a due arg env =
      ⟨a.state, a.frag, due, arg, env, out, w', f', events⟩ := by
    simp only [Coroutine.turn, imapMailboxWatch, he, List.nil_append]
  rw [ht]
  refine ⟨⟨hr, hready, hans⟩, rfl, rfl, fun due' hd => ?_⟩
  obtain ⟨y, ho, rfl⟩ := Coroutine.finish_due hd
  obtain rfl : out = .yielded y := ho
  exact hr.ready hready

end Runs
end ImapMailboxWatch
end IoImap
