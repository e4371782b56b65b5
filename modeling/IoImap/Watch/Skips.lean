import IoImap.Rfc2177.IdleOctets
import IoImap.Rfc2177.IdleSkips
import IoImap.Watch.Replay

/-!
# An undecodable response during a watch

The commands of the watcher pass over an untagged response that cannot be decoded, and
so does IDLE, but while it reads.
-/

namespace IoImap
open Fragmentizer ServerMessage Transition

namespace ImapMailboxWatch

variable {F G : Type}

/-- How the watcher reports that the exchange of its command failed. -/
def State.sendError (state : State) (err : ImapSendError) : ImapMailboxWatchError :=
  match state with
  | enableQresync _ => .enable (.send err)
  | fetchBaseline _ => .fetch (.send err)
  | fetchResync _ => .fetch (.send err)
  | _ => .examine (.send err)

/-- The error that a read which completes these messages fails with. -/
def failure (w : ImapMailboxWatch) (env : ImapMailboxWatchEnv) (ms : List ServerMessage) :
    Option ImapMailboxWatchError :=
  match w.state with
  | .idle idle => (idle.failure (w.idleEnv env) ms).map .idle
  | state => (ms.findSome? ServerMessage.refusal?).map state.sendError

def limboLiteral (w : ImapMailboxWatch) : Option Bytes :=
  match w.state with
  | .idle idle => idle.limboLiteral
  | state => state.command?.bind fun send => send.limboLiteral

def reading (w : ImapMailboxWatch) : Bool :=
  match w.state with
  | .idle idle => idle.reading
  | _ => false

def stopping (w : ImapMailboxWatch) (env : ImapMailboxWatchEnv) : Bool :=
  match w.state with
  | .idle idle => idle.stopping (w.idleEnv env)
  | _ => false

def Outcome.Own (o : Outcome) : Prop :=
  ∀ err, o.1 = .complete (.error err) → ImapMailboxWatch.Own err

theorem Outcome.Own.of_yielded {o : Outcome} {y : ImapMailboxWatchYield} (h : o.1 = .yielded y) :
    o.Own := by
  intro err he
  simp [h] at he

section Outcomes

variable [Base64Codec] [TryFrom String Mailbox] {w : ImapMailboxWatch} {env : ImapMailboxWatchEnv}
  {o : Outcome}

theorem Continues.own (h : Continues w env o) : o.Own := by
  cases h with
  | completes hr => exact fun err he => hr err (CoroutineState.complete.inj he)
  | _ => exact .of_yielded rfl

theorem Ensues.own (h : Ensues w env o) : o.Own := by
  cases h with
  | continues h => exact h.own
  | _ => exact .of_yielded rfl

end Outcomes

/-! ### The exchanges of the watcher -/

theorem commandOutcome_not_send {V : Type} (decode : ImapSendOutput Command → V)
    (out : ImapSendOutput Command) (err : ImapSendError) :
    commandOutcome decode out ≠ .error (.send err) := by
  unfold commandOutcome
  split
  · simp
  · simp
  · split <;> simp

section Exchange

variable [TryFrom Bytes Tag] [Encoder Command] {w : ImapMailboxWatch} {V : Type}
  {decode : ImapSendOutput Command → V} {into : ImapSend Command → State}
  {error : ImapCommandError → ImapMailboxWatchError} {next : V → Outcome} {send : ImapSend Command}
  {arg arg' : Option Bytes} [Fragmentizer F] [Fragmentizer G] {f : F} {g : G}

theorem exchange_upshot (h : upshot (send.resume g arg') = upshot (send.resume f arg)) :
    upshot (w.exchange into error next (commandResume decode send g arg')) =
      upshot (w.exchange into error next (commandResume decode send f arg)) := by
  unfold commandResume
  generalize send.resume f arg = r at *
  generalize send.resume g arg' = r' at *
  obtain ⟨out, send', f'⟩ := r
  obtain ⟨out', send'', g'⟩ := r'
  obtain ⟨rfl, rfl⟩ := Prod.mk.inj h
  rfl

theorem exchange_failing {err : ImapSendError} (h : (send.resume f arg).1 = .complete (.error err)) :
    (w.exchange into error next (commandResume decode send f arg)).1 =
      .complete (.error (error (.send err))) := by
  unfold commandResume
  generalize send.resume f arg = r at *
  obtain ⟨out, send', f'⟩ := r
  obtain rfl := h
  rfl

end Exchange

section Exchanges

variable [TryFrom Bytes Tag] [Encoder Command] [Encoder IdleDone] [Base64Codec]
  [TryFrom String Mailbox] {w : ImapMailboxWatch} {env : ImapMailboxWatchEnv}

/-- The watcher resumes the command it holds and goes on from what that comes to. -/
structure Commands {V : Type} (w : ImapMailboxWatch) (env : ImapMailboxWatchEnv)
    (send : ImapSend Command) (decode : ImapSendOutput Command → V)
    (into : ImapSend Command → State) (error : ImapCommandError → ImapMailboxWatchError)
    (next : V → Outcome) : Prop where
  resume : ∀ {F : Type} [Fragmentizer F] (f : F) (arg : Option Bytes), w.resume f arg env =
    (w.wake env).exchange into error next (commandResume decode send f arg)
  holds : into send = w.state
  fails : ∀ err, error (.send err) = w.state.sendError err
  injective : Function.Injective error
  foreign : ∀ err, ¬ Own (error err)
  own : ∀ v, (next v).Own

variable (env) in
theorem exists_commands {send : ImapSend Command} (hs : w.state.command? = some send) :
    ∃ (V : Type) (decode : ImapSendOutput Command → V) (into : ImapSend Command → State)
      (error : ImapCommandError → ImapMailboxWatchError) (next : V → Outcome),
      Commands w env send decode into error next := by
  have hstate : (w.wake env).state = w.state := rfl
  have henable : Function.Injective ImapMailboxWatchError.enable :=
    fun _ _ => ImapMailboxWatchError.enable.inj
  have hexamine : Function.Injective ImapMailboxWatchError.examine :=
    fun _ _ => ImapMailboxWatchError.examine.inj
  have hfetch : Function.Injective ImapMailboxWatchError.fetch :=
    fun _ _ => ImapMailboxWatchError.fetch.inj
  cases hst : w.state with
  | enableQresync send' =>
    obtain rfl : send' = send := by simpa [hst, State.command?] using hs
    refine ⟨_, ImapExtensionEnable.decode, .enableQresync, .enable,
      fun _ => (w.wake env).enabledQresync, fun f arg => ?_, hst.symm, fun _ => by rw [hst]; rfl,
      henable, fun _ => id, fun v => .of_yielded rfl⟩
    simp only [ImapMailboxWatch.resume, hstate, hst]
    rfl
  | examineInitial send' =>
    obtain rfl : send' = send := by simpa [hst, State.command?] using hs
    refine ⟨_, ImapMailboxExamine.decode, .examineInitial, .examine,
      (w.wake env).examinedInitial, fun f arg => ?_, hst.symm, fun _ => by rw [hst]; rfl,
      hexamine, fun _ => id, fun data => (examinedInitial_ensues env data).own⟩
    simp only [ImapMailboxWatch.resume, hstate, hst]
    rfl
  | fetchBaseline send' =>
    obtain rfl : send' = send := by simpa [hst, State.command?] using hs
    refine ⟨_, ImapMessageFetch.decode, .fetchBaseline, .fetch,
      ((w.wake env).fetchedBaseline · env), fun f arg => ?_, hst.symm, fun _ => by rw [hst]; rfl,
      hfetch, fun _ => id, fun _ => beginIdle_continues.own⟩
    simp only [ImapMailboxWatch.resume, hstate, hst]
    rfl
  | examineQresync send' =>
    obtain rfl : send' = send := by simpa [hst, State.command?] using hs
    refine ⟨_, ImapMailboxExamine.decode, .examineQresync, .examine,
      ((w.wake env).examinedQresync · env), fun f arg => ?_, hst.symm, fun _ => by rw [hst]; rfl,
      hexamine, fun _ => id, fun data => (examinedQresync_ensues data).own⟩
    simp only [ImapMailboxWatch.resume, hstate, hst]
    rfl
  | examineResync send' =>
    obtain rfl : send' = send := by simpa [hst, State.command?] using hs
    refine ⟨_, ImapMailboxExamine.decode, .examineResync, .examine,
      (w.wake env).examinedResync, fun f arg => ?_, hst.symm, fun _ => by rw [hst]; rfl,
      hexamine, fun _ => id, fun data => (examinedResync_ensues env data).own⟩
    simp only [ImapMailboxWatch.resume, hstate, hst]
    rfl
  | fetchResync send' =>
    obtain rfl : send' = send := by simpa [hst, State.command?] using hs
    refine ⟨_, ImapMessageFetch.decode, .fetchResync, .fetch,
      ((w.wake env).fetchedResync · env), fun f arg => ?_, hst.symm, fun _ => by rw [hst]; rfl,
      hfetch, fun _ => id, fun _ => emitDeltas_continues.own⟩
    simp only [ImapMailboxWatch.resume, hstate, hst]
    rfl
  | _ => simp [hst, State.command?] at hs

variable {V : Type} {decode : ImapSendOutput Command → V} {into : ImapSend Command → State}
  {error : ImapCommandError → ImapMailboxWatchError} {next : V → Outcome} {send : ImapSend Command}
  {arg : Option Bytes} [Fragmentizer F] {f : F}

theorem Commands.unfailing (hc : Commands w env send decode into error next)
    (h : ∀ err, (send.resume f arg).1 ≠ .complete (.error err)) (err : ImapSendError) :
    (w.resume f arg env).1 ≠ .complete (.error (w.state.sendError err)) := by
  rw [hc.resume, ← hc.fails, commandResume]
  generalize send.resume f arg = r at *
  obtain ⟨y | (err' | out), send', f'⟩ := r
  · simp [exchange, CoroutineState.tryOk]
  · exact absurd rfl (h err')
  · simp only [exchange, CoroutineState.tryOk]
    cases hout : commandOutcome decode out with
    | error err' =>
      intro he
      simp only [complete, CoroutineState.complete.injEq, Except.error.injEq] at he
      exact commandOutcome_not_send decode out err (hout.trans (congrArg _ (hc.injective he)))
    | ok v =>
      intro he
      exact hc.foreign _ (hc.own v _ he)

theorem Commands.waiting (hc : Commands w env send decode into error next)
    (hwake : w.wake env = w) (h : upshot (send.resume f arg) = (.yielded .wantsRead, send)) :
    upshot (w.resume f arg env) = (.yielded .wantsRead, w) := by
  rw [hc.resume, commandResume, hwake]
  generalize send.resume f arg = r at *
  obtain ⟨out, send', f'⟩ := r
  obtain ⟨rfl, rfl⟩ := Prod.mk.inj h
  simp only [exchange, CoroutineState.tryOk, upshot, hc.holds]
  rfl

end Exchanges

section Idle

variable [TryFrom Bytes Tag] [Encoder Command] [Encoder IdleDone] [LawfulEncoder IdleDone]
  [Base64Codec] [TryFrom String Mailbox] [Fragmentizer F] [Fragmentizer G] {w : ImapMailboxWatch}
  {env : ImapMailboxWatchEnv} {idle : ImapIdle} {arg arg' : Option Bytes} {f : F} {g : G}

omit [LawfulEncoder IdleDone] [TryFrom Bytes Tag] [Encoder Command] [Encoder IdleDone]
  [Fragmentizer F] [Fragmentizer G] in
theorem afterIdle_congr {idle' : ImapIdle} {r r' : ImapIdleResult} (hr : r' = r) (hidle : idle' = idle)
    (h : ImapIdle.isEvent r = false) (h' : ImapIdle.isEvent r' = false) :
    w.afterIdle idle' env r' h' = w.afterIdle idle env r h := by
  subst hr hidle
  rfl

theorem resumeIdle_upshot
    (h : upshot (idle.resume g arg' ⟨w.idleDone, env.clock.1, env.clock.2⟩) =
      upshot (idle.resume f arg ⟨w.idleDone, env.clock.1, env.clock.2⟩)) :
    upshot (w.resumeIdle idle g arg' env) = upshot (w.resumeIdle idle f arg env) := by
  obtain ⟨out, idle', f', hr⟩ : ∃ out idle' f',
      idle.resume f arg ⟨w.idleDone, env.clock.1, env.clock.2⟩ = (out, idle', f') := ⟨_, _, _, rfl⟩
  obtain ⟨out', idle'', g', hr'⟩ : ∃ out idle' g',
      idle.resume g arg' ⟨w.idleDone, env.clock.1, env.clock.2⟩ = (out, idle', g') := ⟨_, _, _, rfl⟩
  rw [hr, hr'] at h
  unfold resumeIdle
  obtain ⟨rfl, rfl⟩ := Prod.mk.inj h
  by_cases hevent : ImapIdle.isEvent out' = false
  · rw [dif_pos (by rw [hr']; exact hevent), dif_pos (by rw [hr]; exact hevent)]
    simp only [hr, hr', upshot]
  · rw [dif_neg (by rw [hr']; exact hevent), dif_neg (by rw [hr]; exact hevent)]
    have hagain := ImapIdle.resume_none_upshot idle'' f' g'
      ⟨true, env.clockAgain.1, env.clockAgain.2⟩
    obtain ⟨hout, hidle⟩ := Prod.mk.inj hagain
    simp only [hr, hr', upshot]
    rw [afterIdle_congr hout hidle]

omit [LawfulEncoder IdleDone] [Fragmentizer G] in
theorem resumeIdle_failing {err : ImapIdleError}
    (h : (idle.resume f arg ⟨w.idleDone, env.clock.1, env.clock.2⟩).1 = .complete (.error err)) :
    (w.resumeIdle idle f arg env).1 = .complete (.error (.idle err)) := by
  obtain ⟨out, idle', f', hr⟩ : ∃ out idle' f',
      idle.resume f arg ⟨w.idleDone, env.clock.1, env.clock.2⟩ = (out, idle', f') := ⟨_, _, _, rfl⟩
  rw [hr] at h
  obtain rfl := h
  unfold resumeIdle
  rw [dif_pos (by rw [hr]; rfl)]
  simp only [hr]
  rfl

omit [LawfulEncoder IdleDone] [Fragmentizer G] in
theorem resumeIdle_waiting (hs : w.state = .idle idle)
    (h : upshot (idle.resume f arg ⟨w.idleDone, env.clock.1, env.clock.2⟩) =
      (.yielded .wantsRead, idle)) :
    upshot (w.resumeIdle idle f arg env) = (.yielded .wantsRead, w) := by
  obtain ⟨out, idle', f', hr⟩ : ∃ out idle' f',
      idle.resume f arg ⟨w.idleDone, env.clock.1, env.clock.2⟩ = (out, idle', f') := ⟨_, _, _, rfl⟩
  rw [hr] at h
  obtain ⟨hout, hidle⟩ := Prod.mk.inj h
  dsimp only at hout hidle
  subst hout hidle
  unfold resumeIdle
  rw [dif_pos (by rw [hr]; rfl)]
  simp only [hr, upshot]
  simp only [afterIdle, ← hs]

omit [Fragmentizer G] in
theorem resumeIdle_unfailing [LawfulEncoder Command] {due : Request} (hready : idle.Ready due)
    {err : ImapIdleError}
    (h : (idle.resume (⟨f, []⟩ : Logged F) arg ⟨w.idleDone, env.clock.1, env.clock.2⟩).1 ≠
      .complete (.error err)) :
    (w.resumeIdle idle (⟨f, []⟩ : Logged F) arg env).1 ≠ .complete (.error (.idle err)) := by
  obtain ⟨out, idle', f', events, he, hr⟩ := ImapIdle.resume_spec hready f [] arg
    ⟨w.idleDone, env.clock.1, env.clock.2⟩
  rw [he] at h
  unfold resumeIdle
  by_cases hevent : ImapIdle.isEvent out = false
  · rw [dif_pos (by rw [he]; exact hevent)]
    simp only [he]
    rcases out with (- | - | - | event) | (err' | -)
    · simp [afterIdle]
    · simp [afterIdle]
    · simp [afterIdle]
    · simp [ImapIdle.isEvent] at hevent
    · simpa [afterIdle, complete] using h
    · exact fun herr => idled_continues.own _ herr
  · rw [dif_neg (by rw [he]; exact hevent)]
    obtain ⟨event, rfl⟩ := isEvent_event hevent
    obtain ⟨tag, htag⟩ := event_reads hr
    have hagain := resume_flagged htag (⟨f', [] ++ events⟩ : Logged F) env
    simp only [he, hagain]
    simp [afterIdle]

end Idle

/-! ### One resume -/

section Failures

variable {w : ImapMailboxWatch} {env : ImapMailboxWatchEnv} {ms ms' : List ServerMessage}

theorem sendError_injective (state : State) : Function.Injective state.sendError := by
  intro a b h
  cases state <;> simpa [State.sendError] using h

theorem failure_exchange (hs : ∀ idle, w.state ≠ .idle idle) :
    w.failure env ms = (ms.findSome? ServerMessage.refusal?).map w.state.sendError := by
  unfold failure
  split
  · rename_i idle hst
    exact absurd hst (hs idle)
  · rfl

theorem failure_command {send : ImapSend Command} (hs : w.state.command? = some send) :
    w.failure env ms = (ms.findSome? ServerMessage.refusal?).map w.state.sendError := by
  apply failure_exchange
  intro idle hst
  simp [hst, State.command?] at hs

theorem limboLiteral_command {send : ImapSend Command} (hs : w.state.command? = some send) :
    w.limboLiteral = send.limboLiteral := by
  unfold limboLiteral
  split
  · rename_i idle hst
    simp [hst, State.command?] at hs
  · rw [hs]
    rfl

theorem failure_idle {idle : ImapIdle} (hs : w.state = .idle idle) :
    w.failure env ms = (idle.failure (w.idleEnv env) ms).map .idle := by
  rw [failure, hs]

theorem failure_nil : w.failure env [] = none := by
  unfold failure
  split
  · rw [ImapIdle.failure_nil]
    rfl
  · rfl

theorem failure_added {m : ServerMessage} (h : Adds m ms ms')
    (hfail : w.failure env ms' ≠ w.failure env ms) : ∃ err, w.failure env ms' = some err := by
  by_cases hs : ∃ idle, w.state = .idle idle
  · obtain ⟨idle, hidle⟩ := hs
    rw [failure_idle hidle, failure_idle hidle] at hfail
    obtain ⟨err, herr⟩ := ImapIdle.failure_added h fun he => hfail (congrArg _ he)
    exact ⟨.idle err, by rw [failure_idle hidle, herr]; rfl⟩
  · have hexchange : ∀ idle, w.state ≠ .idle idle := fun idle hidle => hs ⟨idle, hidle⟩
    rw [failure_exchange hexchange, failure_exchange hexchange] at hfail
    obtain ⟨err, herr⟩ := h.refused fun he => hfail (congrArg _ he)
    exact ⟨w.state.sendError err, by rw [failure_exchange hexchange, herr]; rfl⟩

theorem failure_loop {m : ServerMessage} (hm : m.Undecodable)
    (hs : w.reading = true) (hgo : w.stopping env = false) : w.failure env [m] ≠ none := by
  unfold reading at hs
  split at hs
  · rename_i idle hst
    rw [stopping, hst] at hgo
    rw [failure_idle hst, Ne, Option.map_eq_none_iff]
    exact ImapIdle.failure_loop hm hs hgo
  · simp at hs

theorem State.cases (state : State) :
    (∃ send, state.command? = some send) ∨ (∃ idle, state = .idle idle) ∨ state.isBare = true := by
  cases state <;> simp [State.command?, State.isBare]

end Failures

section Resume

variable [TryFrom Bytes Tag] [Encoder Command] [Encoder IdleDone] [Base64Codec]
  [TryFrom String Mailbox] [Fragmentizer F] {w : ImapMailboxWatch} {env : ImapMailboxWatchEnv}

theorem resume_bare (hs : w.state.isBare = true) (f : F) (arg : Option Bytes) :
    upshot (w.resume f arg env) = (w.wake env).proceed env := by
  have hstate : (w.wake env).state = w.state := rfl
  unfold resume
  cases hst : w.state with
  | beginIdle => simp only [hstate, hst, proceed]; rfl
  | waiting => simp only [hstate, hst, proceed]; rfl
  | emitDeltas => simp only [hstate, hst, proceed]; rfl
  | terminal => simp only [hstate, hst, proceed]; rfl
  | _ => simp [hst, State.isBare] at hs

theorem resume_idle {idle : ImapIdle} (hs : w.state = .idle idle) (f : F) (arg : Option Bytes) :
    w.resume f arg env = (w.wake env).resumeIdle idle f arg env := by
  have hstate : (w.wake env).state = w.state := rfl
  unfold resume
  simp only [hstate, hs]

variable {due : Request} {arg arg' : Option Bytes} {f : F} {data : Bytes} {m : ServerMessage}
  {ms ms' : List ServerMessage}

theorem resume_failing {err : ImapMailboxWatchError} (h : w.state.Ready .read) (hne : data ≠ [])
    (hfail : w.failure env (messages (enqueueBytes f data)) = some err) :
    (w.resume f (some data) env).1 = .complete (.error err) := by
  rcases w.state.cases with ⟨send, hs⟩ | ⟨idle, hs⟩ | hs
  · obtain ⟨V, decode, into, error, next, hc⟩ := exists_commands env hs
    rw [failure_command hs, Option.map_eq_some_iff] at hfail
    obtain ⟨e, hfirst, rfl⟩ := hfail
    obtain ⟨sent, hsent⟩ := ImapSend.awaits_read ((State.ready_command hs).mp h).2
    rw [hc.resume, ← hc.fails]
    apply exchange_failing
    rw [ImapSend.resume_read hsent]
    exact congrArg Prod.fst (ImapSend.read_refused_upshot hne hfirst)
  · rw [failure_idle hs, Option.map_eq_some_iff] at hfail
    obtain ⟨e, hfirst, rfl⟩ := hfail
    rw [hs] at h
    rw [resume_idle hs]
    exact resumeIdle_failing (ImapIdle.resume_failing h hne hfirst)
  · exact absurd ((State.ready_bare hs).mp h) (by decide)

/-- A read that completes nothing but the message leaves an exchange waiting. -/
theorem resume_aside (hm : m.Undecodable) (h : w.state.Ready .read)
    (htimer : ∀ idle, w.state = .idle idle → idle.timer.isSome) (hwake : w.wake env = w)
    (hs : w.reading = false) (hlimbo : w.limboLiteral = none) (hne : data ≠ [])
    (hadds : Adds m [] (messages (enqueueBytes f data)))
    (hfail : w.failure env (messages (enqueueBytes f data)) = none) :
    upshot (w.resume f (some data) env) = (.yielded .wantsRead, w) := by
  rcases w.state.cases with ⟨send, hst⟩ | ⟨idle, hst⟩ | hst
  · obtain ⟨V, decode, into, error, next, hc⟩ := exists_commands env hst
    obtain ⟨hready, hawaits⟩ := (State.ready_command hst).mp h
    obtain ⟨sent, hsent⟩ := ImapSend.awaits_read hawaits
    rw [failure_command hst, Option.map_eq_none_iff] at hfail
    rw [limboLiteral_command hst] at hlimbo
    apply hc.waiting hwake
    rw [ImapSend.resume_read hsent]
    exact ImapSend.read_aside_upshot hm hsent hready.goesOn hlimbo hne hadds hfail
  · rw [failure_idle hst, Option.map_eq_none_iff] at hfail
    simp only [reading, limboLiteral, hst] at hs hlimbo
    rw [hst] at h
    have haside := ImapIdle.resume_aside hm h (htimer idle hst) hs hlimbo hne hadds hfail
    have hwaiting := resumeIdle_waiting (w := w.wake env) hst haside
    rw [resume_idle hst, hwaiting, hwake]
  · exact absurd ((State.ready_bare hst).mp h) (by decide)

variable [LawfulEncoder IdleDone]

/-- Resumes that are given the same but for a message that fails neither come to the same. -/
theorem resume_given [Fragmentizer G] {g : G} (hm : m.Undecodable) (h : w.state.Ready due)
    (hg : Given f g ms ms' due arg arg') (hadds : Adds m ms ms')
    (hfail : w.failure env ms' = w.failure env ms) :
    upshot (w.resume g arg' env) = upshot (w.resume f arg env) := by
  rcases w.state.cases with ⟨send, hs⟩ | ⟨idle, hs⟩ | hs
  · obtain ⟨V, decode, into, error, next, hc⟩ := exists_commands env hs
    rw [failure_command hs, failure_command hs] at hfail
    have hrefused := Option.map_injective (sendError_injective w.state) hfail
    rw [hc.resume, hc.resume]
    exact exchange_upshot
      (ImapSend.resume_given hm ((State.ready_command hs).mp h).2 hg hadds hrefused)
  · rw [failure_idle hs, failure_idle hs] at hfail
    have hidle := Option.map_injective (fun _ _ => ImapMailboxWatchError.idle.inj) hfail
    rw [hs] at h
    rw [resume_idle hs, resume_idle hs]
    exact resumeIdle_upshot (ImapIdle.resume_given hm h hg hadds hidle)
  · rw [resume_bare hs, resume_bare hs]

theorem resume_unfailing [LawfulEncoder Command] {err : ImapMailboxWatchError} {f : F}
    (h : w.state.Ready .read) (hne : data ≠ [])
    (hnone : w.failure env (messages (enqueueBytes (⟨f, []⟩ : Logged F) data)) = none)
    (hfail : w.failure env ms = some err) :
    (w.resume (⟨f, []⟩ : Logged F) (some data) env).1 ≠ .complete (.error err) := by
  rcases w.state.cases with ⟨send, hs⟩ | ⟨idle, hs⟩ | hs
  · obtain ⟨V, decode, into, error, next, hc⟩ := exists_commands env hs
    rw [failure_command hs, Option.map_eq_some_iff] at hfail
    rw [failure_command hs, Option.map_eq_none_iff] at hnone
    obtain ⟨e, -, rfl⟩ := hfail
    obtain ⟨sent, hsent⟩ := ImapSend.awaits_read ((State.ready_command hs).mp h).2
    refine hc.unfailing ?_ e
    rw [ImapSend.resume_read hsent]
    exact ImapSend.read_accepted_upshot hne hnone
  · rw [failure_idle hs, Option.map_eq_some_iff] at hfail
    rw [failure_idle hs, Option.map_eq_none_iff] at hnone
    obtain ⟨e, hfirst, rfl⟩ := hfail
    rw [hs] at h
    rw [resume_idle hs]
    exact resumeIdle_unfailing h (ImapIdle.resume_unfailing h hne hnone hfirst)
  · exact absurd ((State.ready_bare hs).mp h) (by decide)

end Resume

/-! ### Two runs -/

/-- What holds between two resumes: IDLE never asks for a read before its timer runs. -/
structure Timed (w : ImapMailboxWatch) (due : Request) : Prop where
  ready : w.state.Ready due
  timer : due = .read → ∀ idle, w.state = .idle idle → idle.timer.isSome

def addEvent (events : List ImapMailboxWatchEvent) (out : ImapMailboxWatchResult) :
    List ImapMailboxWatchEvent := events ++ (event? out).toList

theorem observed_events (es : List (Step F)) : observed addEvent [] es = eventsOf es := by
  induction es using List.reverseRecOn with
  | nil => rfl
  | append_singleton es t ih =>
    rw [observed_concat, ih, eventsOf, eventsOf, List.filterMap_append, addEvent]
    cases h : event? t.out <;> simp [h]

theorem Outcome.Starts.unread {o : Outcome} (h : o.Starts) {y : ImapMailboxWatchYield}
    (hy : o.1 = .yielded y) : y.request ≠ .read := by
  cases h with
  | completes => simp at hy
  | asks hs =>
    rw [← CoroutineState.yielded.inj hy]
    simp [ImapMailboxWatchYield.request]
  | idles hs hidle hdata =>
    rw [← CoroutineState.yielded.inj hy]
    simp [ImapMailboxWatchYield.request]
  | rests hrest hs =>
    rw [← CoroutineState.yielded.inj hy]
    rcases hrest with rfl | ⟨event, rfl⟩
    · simp [ImapMailboxWatchYield.request]
    · simp [ImapMailboxWatchYield.request]

theorem Resumed.timer [Fragmentizer F] [Encoder IdleDone] [Base64Codec] [TryFrom String Mailbox]
    {w w' : ImapMailboxWatch} {f f' : F} {env : ImapMailboxWatchEnv} {arg : Option Bytes}
    {y : ImapMailboxWatchYield} {events : List FragmentizerEvent}
    (h : Resumed w f env arg (.yielded y) w' f' events) (hy : y.request = .read) {idle : ImapIdle}
    (hidle : w'.state = .idle idle) : idle.timer.isSome := by
  generalize ho : CoroutineState.yielded y = out at h
  cases h with
  | @goesOn send send' _ _ _ hs hr =>
    have hcommand : (w.state.withCommand send').command? = none := by
      rw [show w.state.withCommand send' = .idle idle from hidle]
      rfl
    cases hst : w.state <;> simp [hst, State.command?, State.withCommand] at hs hcommand
  | fails => simp at ho
  | succeeds => exact absurd hy ((answered_ensues _).starts.unread ho.symm)
  | idles hs hr =>
    obtain rfl := CoroutineState.yielded.inj ho
    obtain rfl := State.idle.inj hidle
    rw [ofYield_request, ← ImapIdle.ofYield_request] at hy
    exact hr.timer hy
  | sees =>
    obtain rfl := CoroutineState.yielded.inj ho
    simp [ImapMailboxWatchYield.request] at hy
  | idleFails => simp at ho
  | idleEnds => exact absurd hy (idled_continues.starts.unread ho.symm)
  | proceeds => exact absurd hy (proceed_continues.starts.unread ho.symm)

abbrev WatchSpot (G : Type) :=
  Spot ImapMailboxWatch G ImapMailboxWatchEnv ImapMailboxWatchYield
    (Except ImapMailboxWatchError Unit)

section Runs

variable [Fragmentizer G]

/-- Reads for the message alone, which find neither `shutdown` set nor the timer expired.
A read while a literal is held back has the literal written, and one that completes
nothing while IDLE reads has the watcher resync, with or without the message. -/
inductive Aside (m : ServerMessage) : List (Step G) → List (WatchSpot G) → Prop where
  | exchange {u : Step G} (hdue : u.due = .read) (harg : u.arg ≠ some [])
      (hs : u.before.reading = false) (hlimbo : u.before.limboLiteral = none)
      (hwake : u.before.wake u.env = u.before) (hadds : Adds m [] u.received) :
      Aside m [u] [⟨u, []⟩]
  | loop {u : Step G} (hdue : u.due = .read) (hs : u.before.reading = true)
      (hgo : u.before.stopping u.env = false) (hms : u.received = [m]) : Aside m [u] [⟨u, []⟩]

variable [TryFrom Bytes Tag] [Encoder Command] [Encoder IdleDone] [LawfulEncoder Command]
  [LawfulEncoder IdleDone] [Base64Codec] [TryFrom String Mailbox] {m : ServerMessage}
  {es : List (Step F)} {us : List (Step G)} {a : Config ImapMailboxWatch F}
  {c d : Config ImapMailboxWatch G}

omit [Fragmentizer G] in
theorem timed_step [Fragmentizer F] {b : Config ImapMailboxWatch F} {t : Step F}
    (ha : ∀ due, a.due = some due → a.state.Timed due) (hstep : imapMailboxWatch.Step a t b) :
    ∀ due, b.due = some due → b.state.Timed due := by
  obtain ⟨⟨hr, -, -⟩, -, hb, hready⟩ := step_resumed (fun due hdue => (ha due hdue).ready) hstep
  obtain ⟨-, -, -, -, hfinish⟩ := imapMailboxWatch.step_upshot hstep
  intro due hdue
  refine ⟨hready due hdue, fun hread idle hidle => ?_⟩
  rw [hb] at hidle
  rw [hfinish] at hdue
  obtain ⟨y, ho, hy⟩ := Coroutine.finish_due hdue
  rw [ho] at hr
  exact hr.timer (hy.trans hread) hidle

omit [Fragmentizer G] in
theorem passes (hm : m.Undecodable) : Passes imapMailboxWatch m failure Timed where
  given h hg hadds hfail := resume_given hm h.ready hg hadds hfail
  failing h hne hfail := resume_failing h.ready hne hfail
  unfailing h hne hnone hfail := resume_unfailing h.ready hne hnone hfail
  unread _ _ := failure_nil
  added := failure_added
  keeps := timed_step

theorem turns_aside {vs : List (Step G)} {qs : List (WatchSpot G)} (hm : m.Undecodable)
    (hr : Aligned Timed a c) (hagree : Agree addEvent [] es us)
    (hrun : Run imapMailboxWatch.Step c vs d) (haside : Aside m vs qs) :
    Turns imapMailboxWatch.Step (Aligned Timed) (Agree addEvent []) (∀ q ∈ qs, Unheeded failure q) es
      (us ++ vs) a d := by
  cases haside with
  | @exchange u hdue harg hs hlimbo hwake hadds =>
    obtain ⟨d', hstep, hnil⟩ := hrun.cons_inv
    obtain rfl := hnil.nil_inv
    refine ((passes hm).turns_read hr hagree hstep hdue harg (y := .wantsRead) rfl
      List.append_nil ?_).of_iff List.forall_mem_singleton
    intro htimed data hdata hne hfail hreceived
    rw [hreceived] at hadds hfail
    exact resume_aside hm htimed.ready (htimed.timer rfl) hwake hs hlimbo hne hadds hfail
  | @loop u hdue hs hgo hms =>
    obtain ⟨d', hstep, hnil⟩ := hrun.cons_inv
    obtain rfl := hnil.nil_inv
    have harg := ne_eof_of_received hms
    refine ((passes hm).turns_read hr hagree hstep hdue harg (y := .wantsRead) rfl
      List.append_nil ?_).of_iff List.forall_mem_singleton
    intro htimed data hdata hne hfail hreceived
    rw [hms] at hfail
    exact absurd hfail (failure_loop hm hs hgo)

variable [Fragmentizer F]

/-- The second run is given what the first is, and `m` in between. -/
abbrev Inserts (m : ServerMessage) : List (WatchSpot G) → List (Step F) → List (Step G) → Prop :=
  Paired (AlikeAt m) (Aside m)

theorem compares (hm : m.Undecodable) :
    Compares (imapMailboxWatch.Step (F := F)) (imapMailboxWatch.Step (F := G)) (AlikeAt m) (Aside m)
      (Aligned Timed) (Agree addEvent []) (Unheeded failure) where
  both := (passes hm).turns_both
  aside := turns_aside hm
  nonempty h := by cases h <;> exact List.cons_ne_nil _ _

/-- An undecodable response goes unnoticed exactly when no read fails because of it. -/
theorem agree_iff (hm : m.Undecodable) {capability : List Capability} {mailbox : Mailbox}
    {opts : ImapMailboxWatchOptions} {f : F} {g : G} {ps : List (WatchSpot G)}
    (h : Inserts m ps es us) (hrun : imapMailboxWatch.Runs (.new capability mailbox opts) f es a)
    (hrun' : imapMailboxWatch.Runs (.new capability mailbox opts) g us c) :
    eventsOf es = eventsOf us ∧ results es = results us ↔ ∀ p ∈ ps, Unheeded failure p := by
  rw [← observed_events, ← observed_events]
  refine (compares hm).agree_iff ⟨rfl, rfl, fun due hdue => ?_⟩ ⟨rfl, rfl⟩ h hrun hrun'
  refine ⟨start_ready capability mailbox opts f due hdue, fun hread => ?_⟩
  obtain rfl : Request.nothing = due := Option.some.inj hdue
  exact absurd hread (by decide)

end Runs

end ImapMailboxWatch

/-- A message that cannot be decoded, put into what the server sends, changes neither what
IDLE or the watcher reports nor how it ends, exactly when no read that completes it
fails because of it. -/
theorem idle_skips_iff {F G : Type} [Fragmentizer F] [Fragmentizer G] [TryFrom Bytes Tag]
    [Encoder Command] [Encoder IdleDone] [LawfulEncoder Command] [LawfulEncoder IdleDone]
    [LawfulIdle] [Base64Codec] [TryFrom String Mailbox] {m : ServerMessage} (hm : m.Undecodable) :
    (∀ (opts : ImapIdleOptions) (f : F) (g : G) (ps : List (ImapIdle.IdleSpot G))
      (es : List (ImapIdle.Step F)) (us : List (ImapIdle.Step G)) (a : Config ImapIdle F)
      (c : Config ImapIdle G), ImapIdle.Inserts m ps es us → imapIdle.Runs (.new opts) f es a →
        imapIdle.Runs (.new opts) g us c →
        (ImapIdle.reported es = ImapIdle.reported us ∧ results es = results us ↔
          ∀ p ∈ ps, Unheeded ImapIdle.failure p)) ∧
    ∀ (capability : List Capability) (mailbox : Mailbox) (opts : ImapMailboxWatchOptions) (f : F)
      (g : G) (ps : List (ImapMailboxWatch.WatchSpot G)) (es : List (ImapMailboxWatch.Step F))
      (us : List (ImapMailboxWatch.Step G)) (a : Config ImapMailboxWatch F)
      (c : Config ImapMailboxWatch G), ImapMailboxWatch.Inserts m ps es us →
        imapMailboxWatch.Runs (.new capability mailbox opts) f es a →
        imapMailboxWatch.Runs (.new capability mailbox opts) g us c →
        (ImapMailboxWatch.eventsOf es = ImapMailboxWatch.eventsOf us ∧ results es = results us ↔
          ∀ p ∈ ps, Unheeded ImapMailboxWatch.failure p) :=
  ⟨fun _ _ _ _ _ _ _ _ h hrun hrun' => ImapIdle.agree_iff hm h hrun hrun',
    fun _ _ _ _ _ _ _ _ _ _ h hrun hrun' => ImapMailboxWatch.agree_iff hm h hrun hrun'⟩

section Concrete

open Concrete

deriving instance DecidableEq for ImapIdleEnv

def junk : ServerMessage := ⟨ascii "* JUNK\r\n", .error .decodingFailure⟩

theorem junk_undecodable : junk.Undecodable := ⟨by decide, _, rfl⟩

/-- IDLE from its start to its end, sent `idles` and `ends`. -/
def playSkips (idles ends : String) :=
  playIdling [idling none, idling (some (ascii "A1")),
    idling none, idling (some (ascii idles)),
    idling (some (ascii "* 5 EXISTS\r\n")), windingDown none,
    windingDown none, windingDown (some (ascii ends))]

theorem idle_skips_exchanges : ∃ es us a c,
    playSkips "+ idling\r\n" "A1 OK done\r\n" = some (es, a) ∧
    playSkips "* JUNK\r\n+ idling\r\n" "* JUNK\r\nA1 OK done\r\n" = some (us, c) ∧
      (results us).length = 1 ∧ ImapIdle.reported es = ImapIdle.reported us ∧
        results es = results us := by
  have hrun : (playSkips "+ idling\r\n" "A1 OK done\r\n").any (fun r =>
      (playSkips "* JUNK\r\n+ idling\r\n" "* JUNK\r\nA1 OK done\r\n").any fun r' =>
        decide (r.1.length = r'.1.length ∧ (∀ x ∈ r.1.zip r'.1, Alike junk x.1 x.2) ∧
          (results r'.1).length = 1 ∧
            ∀ x ∈ r.1.zip r'.1, Unheeded ImapIdle.failure ⟨x.2, x.1.received⟩)) = true := by
    decide +kernel
  obtain ⟨⟨es, a⟩, hplay, hrest⟩ := (Option.any_eq_true _ _).mp hrun
  obtain ⟨⟨us, c⟩, hplay', hdec⟩ := (Option.any_eq_true _ _).mp hrest
  obtain ⟨hlen, halike, hended, hunheeded⟩ := of_decide_eq_true hdec
  have hiff := (idle_skips_iff junk_undecodable).1 _ _ _ _ es us a c (paired_zip hlen halike)
    (Coroutine.play_run _ hplay) (Coroutine.play_run _ hplay')
  exact ⟨es, us, a, c, hplay, hplay', hended,
    hiff.mpr (List.forall_mem_map.mpr hunheeded)⟩

def playReads (reads : String) :=
  playIdling [idling none, idling (some (ascii "A1")), idling none,
    idling (some (ascii "+ idling\r\n")), idling (some (ascii reads))]

/-- While IDLE reads, the response that cannot be decoded ends it. -/
theorem idle_fails_reading :
    ¬ ∀ (m : ServerMessage)
        (ps : List (ImapIdle.IdleSpot (LineFragmentizer (decodeTable idleMessages))))
        (es us : List (ImapIdle.Step (LineFragmentizer (decodeTable idleMessages))))
        (a c : Config ImapIdle (LineFragmentizer (decodeTable idleMessages))), m.Undecodable →
        ImapIdle.Inserts m ps es us → imapIdle.Runs (.new ⟨none⟩) LineFragmentizer.empty es a →
        imapIdle.Runs (.new ⟨none⟩) LineFragmentizer.empty us c →
          ImapIdle.reported es = ImapIdle.reported us ∧ results es = results us := by
  intro h
  have hrun : (playReads "* 5 EXISTS\r\n").any (fun r =>
      (playReads "* 5 EXISTS\r\n* JUNK\r\n").any fun r' =>
        decide (r.1.length = r'.1.length ∧ (∀ x ∈ r.1.zip r'.1, Alike junk x.1 x.2) ∧
          ImapIdle.reported r.1 ≠ ImapIdle.reported r'.1)) = true := by decide +kernel
  obtain ⟨⟨es, a⟩, hplay, hrest⟩ := (Option.any_eq_true _ _).mp hrun
  obtain ⟨⟨us, c⟩, hplay', hdec⟩ := (Option.any_eq_true _ _).mp hrest
  obtain ⟨hlen, halike, hreported⟩ := of_decide_eq_true hdec
  exact hreported (h junk _ es us a c junk_undecodable (paired_zip hlen halike)
    (Coroutine.play_run _ hplay) (Coroutine.play_run _ hplay')).1

end Concrete
end IoImap
