import IoImap.Discipline
import IoImap.Rfc2177.IdleOctets
import IoImap.Watch.Resume

/-!
# The discipline of IDLE and of the watcher

Tags are never at stake. The octets of a read that arrives with the end of the idling
are, and no others.
-/

namespace IoImap
open Fragmentizer Transition ImapSend

instance : Utters ImapIdleYield where
  utterance
    | .wantsTag => .asksTag
    | .wantsRead => .silent
    | .wantsWrite bytes => .writes bytes
    | .event _ => .silent
  request := ImapIdleYield.request

instance : Utters ImapMailboxWatchYield where
  utterance
    | .wantsTag => .asksTag
    | .wantsRead => .silent
    | .wantsWait => .silent
    | .wantsWrite bytes => .writes bytes
    | .event _ => .silent
  request := ImapMailboxWatchYield.request

instance : Converses ImapIdle where
  exchange s := match s.state with
    | .idle send => ImapSend.exchange send
    | .read _ => .speaks []
    | .done send => ImapSend.exchange send

instance : Converses ImapMailboxWatch where
  exchange w := match w.state with
    | .idle idle => Converses.exchange idle
    | state => match state.command? with
      | some send => ImapSend.exchange send
      | none => .speaks []

variable {F : Type} {due : Request} {f : F} {log : List FragmentizerEvent} {l : Logged F}
  {arg : Option Bytes}

/-! ### IDLE -/

namespace ImapIdle

variable {s s' : ImapIdle} {env : ImapIdleEnv} {out : ImapIdleResult}

theorem ofYield_utters (y : ImapYield) :
    Utters.utterance (ImapIdleYield.ofYield y) = Utters.utterance y ∧
      Utters.request (ImapIdleYield.ofYield y) = Utters.request y := by
  cases y <;> exact ⟨rfl, rfl⟩

def InConversation [Encoder Command] (s : ImapIdle) (due : Request) : Prop :=
  match s.state with
  | .idle send => ImapSend.InConversation send due
  | .read _ => due = .nothing ∨ due = .read
  | .done send => send.Reading due

section Voices

variable [TryFrom Bytes Tag] [Encoder Command] [Encoder AuthenticateData] [Encoder IdleDone]

theorem done_step {before : List Bytes} (tag : Tag) :
    (Exchange.speaks before).Step arg (some (.writes (doneBytes tag))) (doneWritten tag).exchange := by
  have hwrites : buffers [] (Encoder.encode IdleDone.idleDone) =
      doneBytes tag :: (doneWritten tag).unwritten :=
    takeBuffer_buffers (ImapSend.new IdleDone.idleDone tag)
  exact .leavesOff hwrites

theorem doneOver_voices {o : ImapSendOutput IdleDone} {send send' : ImapSend IdleDone}
    (h : Abides Reading send due arg log (.complete (.ok o) : ImapSendResult IdleDone) send' l)
    {l' : Logged F} (he : s.doneOver o l env = (out, s', l')) :
    Voices InConversation (Converses.exchange send) due arg out s' := by
  unfold doneOver at he
  split at he
  · cases he
    exact h.voicesNothing _
  · cases he
    exact h.voicesNothing _
  · simp only at he
    split at he
    · split at he
      · cases he
        refine h.voicesNext .asks fun y hy => ?_
        rw [← CoroutineState.yielded.inj hy]
        exact inConversation_asked .idle
      · cases he
        exact h.voicesNothing _
    · cases he
      exact h.voicesNothing _
    · cases he
      exact h.voicesNothing _

variable [Fragmentizer F] [LawfulEncoder IdleDone]

theorem resumeRead_none_voices {tag : Tag}
    (he : s.resumeRead tag (⟨f, log⟩ : Logged F) none env = (out, s', l)) :
    (Exchange.speaks []).Step none out.utterance (Converses.exchange s') ∧
      ∀ y, out = .yielded y → s'.InConversation (Utters.request y) := by
  rw [resumeRead_none] at he
  split at he
  · cases he
    refine ⟨done_step tag, fun y hy => ?_⟩
    rw [← CoroutineState.yielded.inj hy]
    exact reading_new IdleDone.idleDone tag
  · cases he
    refine ⟨.listens (.inl rfl), fun y hy => ?_⟩
    rw [← CoroutineState.yielded.inj hy]
    exact .inr rfl

theorem read_voices {tag : Tag} {f' : F} {events : List FragmentizerEvent}
    (hdue : due = .nothing ∨ due = .read) (hs : s.state = .read tag)
    (h : s.Resumed f env arg out s' f' events) : Voices InConversation (.speaks []) due arg out s' := by
  have hasked : due = .tag ↔ ∃ body, Exchange.speaks [] = .awaits body := by
    rcases hdue with rfl | rfl <;> simp
  have hlistens : ∀ {y : ImapIdleYield} {tag : Tag}, s'.state = .read tag →
      Utters.utterance y = .silent → Utters.request y = .nothing ∨ Utters.request y = .read →
      Voices (R := Except ImapIdleError Unit) InConversation (.speaks []) due arg (.yielded y) s' := by
    intro y tag hs' hy hrequest
    have hexchange : Converses.exchange s' = .speaks [] := by simp [Converses.exchange, hs']
    refine ⟨⟨hasked, ?_⟩, fun z hz => ?_⟩
    · rw [hexchange, CoroutineState.utterance, hy]
      exact .listens (.inl rfl)
    · rw [← CoroutineState.yielded.inj hz, InConversation, hs']
      exact hrequest
  cases h with
  | idles hst => simp [hs] at hst
  | idleEnds hst => simp [hs] at hst
  | reports hst => simp [hs] at hst
  | enters hst => simp [hs] at hst
  | turnsBack hst => simp [hs] at hst
  | finishes hst => simp [hs] at hst
  | ends hst => simp [hs] at hst
  | renews hst => simp [hs] at hst
  | stops hst =>
    refine ⟨⟨hasked, done_step _⟩, fun y hy => ?_⟩
    rw [← CoroutineState.yielded.inj hy]
    exact reading_new IdleDone.idleDone _
  | waits hst => exact hlistens rfl rfl (.inr rfl)
  | eof => exact ⟨⟨hasked, .ends⟩, by simp⟩
  | refused => exact ⟨⟨hasked, .ends⟩, by simp⟩
  | hears hst => exact hlistens rfl rfl (.inl rfl)

theorem idleOver_voices {o : ImapSendOutput Command} {send send' : ImapSend Command} {f' : F}
    {log' : List FragmentizerEvent}
    (h : Abides ImapSend.InConversation send due arg log
      (.complete (.ok o) : ImapSendResult Command) send' (⟨f', log'⟩ : Logged F))
    (he : s.idleOver o (⟨f', log'⟩ : Logged F) env = (out, s', l)) :
    Voices InConversation (Converses.exchange send) due arg out s' := by
  unfold idleOver at he
  split at he
  · cases he
    exact h.voicesNothing _
  · split at he
    · cases he
      exact h.voicesNothing _
    · cases he
      exact h.voicesNothing _
    · cases he
      exact h.voicesNothing _
  · cases he
    exact h.voicesNothing _
  · simp only at he
    split at he
    · cases he
      refine h.voicesNext (.listens (.inl rfl)) fun y hy => ?_
      rw [← CoroutineState.yielded.inj hy]
      exact .inl rfl
    · obtain ⟨hstep, hgoesOn⟩ := resumeRead_none_voices he
      exact h.voicesNext hstep hgoesOn

variable [LawfulTag] [LawfulEncoder Command]

/-- IDLE keeps to the discipline as far as tags are concerned. -/
theorem resume_voices (h : s.InConversation due) (hready : s.Ready due) (hans : due.answeredBy arg = true)
    (he : s.resume (⟨f, log⟩ : Logged F) arg env = (out, s', l)) :
    Voices InConversation (Converses.exchange s) due arg out s' := by
  rw [InConversation] at h
  cases hs : s.state with
  | read tag =>
    obtain ⟨out', s'', f', events, he', hr⟩ := resume_spec hready f log arg env
    cases he'.symm.trans he
    rw [hs] at h
    have hexchange : Converses.exchange s = .speaks [] := by simp [Converses.exchange, hs]
    rw [hexchange]
    exact read_voices h hs hr
  | idle send =>
    rw [hs] at h
    have hexchange : Converses.exchange s = Converses.exchange send := by simp [Converses.exchange, hs]
    rw [hexchange]
    simp only [resume, startTimer_state, hs] at he
    obtain ⟨⟨y | err | o, send', l'⟩, hsend⟩ :
      ∃ x, send.resume (⟨f, log⟩ : Logged F) arg = x := ⟨_, rfl⟩
    all_goals
      have habides := ImapSend.abides h hans hsend
      simp only [resumeIdle, hsend] at he
    · cases he
      exact habides.voicesOn rfl (ofYield_utters y) (fun hI => hI)
    · cases he
      exact habides.voicesNothing _
    · exact idleOver_voices habides he
  | done send =>
    rw [hs] at h
    have hexchange : Converses.exchange s = Converses.exchange send := by simp [Converses.exchange, hs]
    rw [hexchange]
    simp only [resume, startTimer_state, hs] at he
    obtain ⟨⟨y | err | o, send', l'⟩, hsend⟩ :
      ∃ x, send.resume (⟨f, log⟩ : Logged F) arg = x := ⟨_, rfl⟩
    all_goals
      have habides := abides_read h hans hsend
      simp only [resumeDone, hsend] at he
    · cases he
      exact habides.voicesOn rfl (ofYield_utters y) (fun hI => hI)
    · cases he
      exact habides.voicesNothing _
    · exact doneOver_voices habides he

end Voices

/-! ### Runs of IDLE -/

theorem new_inConversation [Encoder Command] (opts : ImapIdleOptions) :
    (new opts).InConversation .nothing :=
  inConversation_command .idle

theorem disciplined_iff [Fragmentizer F] [TryFrom Bytes Tag] [LawfulTag] [Encoder Command]
    [Encoder AuthenticateData] [Encoder IdleDone] [LawfulEncoder Command] [LawfulEncoder IdleDone]
    {opts : ImapIdleOptions} {es : List (Step F)} {b : Config ImapIdle F}
    (hrun : imapIdle.Runs (new opts) f es b) : (∀ t ∈ es, Disciplined t) ↔ ∀ t ∈ es, ¬ Drops t := by
  have hiff : ∀ t ∈ es, (Disciplined t ↔ ¬ Drops t) := by
    refine Run.labels (I := fun a => ∀ due, a.due = some due →
      a.state.Ready due ∧ a.state.InConversation due) ?_ ?_ hrun
    · intro due hdue
      obtain rfl : Request.nothing = due := Option.some.inj hdue
      exact ⟨new_ready opts, new_inConversation opts⟩
    · intro a t b ha hstep
      obtain ⟨⟨hr, hs, hans⟩, -, -, hb⟩ := step_resumed (fun due hd => (ha due hd).1) hstep
      obtain ⟨due, arg, env, out, s', f', log, hd, hans, he, rfl, rfl⟩ := imapIdle.step_cases hstep
      have hvoices := resume_voices (ha due hd).2 (ha due hd).1 hans he
      refine ⟨fun due' hd' => ⟨hb due' hd', ?_⟩, ?_⟩
      · rcases out with y | r
        · obtain rfl : y.request = due' := Option.some.inj hd'
          exact hvoices.goesOn y rfl
        · simp at hd'
      · rw [← fed_iff hr hs hans]
        constructor
        · intro hdisciplined
          exact hdisciplined.fed rfl
        · intro hfed
          refine ⟨?_, hvoices.kept.step, fun _ => hfed, ?_⟩
          · exact hvoices.kept.asked
          · intro unread y hu
            simp [Converses.unread] at hu
  exact forall₂_congr hiff

end ImapIdle

/-! ### The watcher -/

namespace ImapMailboxWatch

variable {w w' : ImapMailboxWatch} {env : ImapMailboxWatchEnv} {out : ImapMailboxWatchResult}

theorem ofYield_utters (y : ImapYield) :
    Utters.utterance (ImapMailboxWatchYield.ofYield y) = Utters.utterance y ∧
      Utters.request (ImapMailboxWatchYield.ofYield y) = Utters.request y := by
  cases y <;> exact ⟨rfl, rfl⟩

def InConversation [Encoder Command] (w : ImapMailboxWatch) (due : Request) : Prop :=
  match w.state with
  | .idle idle => idle.InConversation due
  | state => match state.command? with
    | some send => ImapSend.InConversation send due
    | none => due = .nothing

section Command

variable {send : ImapSend Command}

theorem exchange_command (h : w.state.command? = some send) :
    Converses.exchange w = ImapSend.exchange send := by
  cases hs : w.state <;> simp_all [Converses.exchange, State.command?]

theorem inConversation_command [Encoder Command] (h : w.state.command? = some send) :
    w.InConversation due ↔ ImapSend.InConversation send due := by
  cases hs : w.state <;> simp_all [InConversation, State.command?]

theorem exchange_bare (h : w.state.isBare = true) : Converses.exchange w = .speaks [] := by
  cases hs : w.state <;> simp_all [Converses.exchange, State.command?, State.isBare]

theorem inConversation_bare [Encoder Command] (h : w.state.isBare = true) :
    w.InConversation due ↔ due = .nothing := by
  cases hs : w.state <;> simp_all [InConversation, State.command?, State.isBare]

end Command

/-- The resume is given octets while IDLE reads, and finds that reading is over. -/
def Drops (t : Step F) : Prop :=
  ∃ idle, t.before.state = .idle idle ∧ (∃ tag, idle.state = .read tag) ∧
    idle.stopping (t.before.idleEnv t.env) = true ∧ t.answer ≠ []

theorem fed_iff [Fragmentizer F] [Encoder IdleDone] [Base64Codec] [TryFrom String Mailbox] {t : Step F}
    (hr : Resumed t.before t.frag t.env t.arg t.out t.after t.fragAfter t.log)
    (hw : t.before.state.Ready t.due) (hans : t.due.answeredBy t.arg = true) :
    t.fed = t.answer ↔ ¬ Drops t := by
  have hquiet : (∀ idle, t.before.state ≠ .idle idle) → t.fed = t.answer → (t.fed = t.answer ↔ ¬ Drops t) := by
    intro hno hfed
    apply iff_of_true hfed
    intro hdrops
    obtain ⟨idle, hs, -⟩ := hdrops
    exact hno idle hs
  have hcommand : ∀ {send : ImapSend Command} {idle : ImapIdle},
      t.before.state.command? = some send → t.before.state ≠ .idle idle := by
    intro send idle hs hidle
    simp [hidle, State.command?] at hs
  generalize ha : t.arg = arg, ho : t.out = out, haft : t.after = after,
    hfr : t.fragAfter = fragAfter, hlog : t.log = log at hr
  have hfed : t.fed = log.filterMap FragmentizerEvent.bytes? := by rw [Turn.fed, hlog]
  have hanswer : t.answer = t.due.octets arg := by rw [Turn.answer, ha]
  rw [ha] at hans
  have hidles : ∀ {idle idle' : ImapIdle} {out : ImapIdleResult} {f' : F},
      t.before.state = .idle idle →
      idle.Resumed t.frag (t.before.idleEnv t.env) arg out idle' f' log →
      (t.fed = t.answer ↔ ¬ Drops t) := by
    intro idle idle' out f' hs hr
    rw [hs] at hw
    let u : ImapIdle.Step F :=
      ⟨idle, t.frag, t.due, arg, t.before.idleEnv t.env, out, idle', f', log⟩
    have hiff : u.fed = u.answer ↔ ¬ ImapIdle.Drops u := ImapIdle.fed_iff hr hw hans
    have hsame : t.answer = u.answer := hanswer
    have hdrops : Drops t ↔ ImapIdle.Drops u := by
      constructor
      · intro h
        obtain ⟨idle₁, hs₁, htag, hstop, hne⟩ := h
        obtain rfl : idle₁ = idle := State.idle.inj (hs₁.symm.trans hs)
        exact ⟨htag, hstop, hsame ▸ hne⟩
      · intro h
        obtain ⟨htag, hstop, hne⟩ := h
        exact ⟨idle, hs, htag, hstop, hsame.symm ▸ hne⟩
    rw [hdrops, ← hiff, hfed, hsame]
    rfl
  cases hr with
  | goesOn hs hr =>
    obtain ⟨-, hawaits⟩ := (State.ready_command hs).mp hw
    exact hquiet (fun _ => hcommand hs) (by rw [hfed, hanswer, hr.fed hawaits hans])
  | fails hs hr =>
    obtain ⟨-, hawaits⟩ := (State.ready_command hs).mp hw
    exact hquiet (fun _ => hcommand hs) (by rw [hfed, hanswer, hr.fed hawaits hans])
  | succeeds hs hr =>
    obtain ⟨-, hawaits⟩ := (State.ready_command hs).mp hw
    exact hquiet (fun _ => hcommand hs) (by rw [hfed, hanswer, hr.fed hawaits hans])
  | idles hs hr => exact hidles hs hr
  | sees hs hr => exact hidles hs hr
  | idleFails hs hr => exact hidles hs hr
  | idleEnds hs hr => exact hidles hs hr
  | proceeds hs =>
    have hdue := (State.ready_bare hs).mp hw
    refine hquiet (fun idle hidle => ?_) ?_
    · simp [hidle, State.isBare] at hs
    · rw [hfed, hanswer, hdue]
      rfl

variable [TryFrom Bytes Tag] [Encoder Command] [Encoder AuthenticateData] [Encoder IdleDone]

/-- What follows a sub-coroutine is said without an argument. -/
theorem Outcome.Starts.voices {o : Outcome} (h : o.Starts) :
    (Exchange.speaks []).Step none o.1.utterance (Converses.exchange o.2) ∧
      ∀ y, o.1 = .yielded y → o.2.InConversation (Utters.request y) := by
  cases h with
  | completes => exact ⟨.ends, by simp⟩
  | @asks body w hs =>
    refine ⟨?_, fun y hy => ?_⟩
    · rw [exchange_command hs]
      exact .asks
    · rw [← CoroutineState.yielded.inj hy, inConversation_command hs]
      exact inConversation_asked body
  | @idles idle w hs hidle hdata =>
    refine ⟨?_, fun y hy => ?_⟩
    · have hexchange : Converses.exchange w = .awaits .idle := by
        simp [Converses.exchange, hs, hidle, ImapSend.exchange, ImapSend.fresh]
      rw [hexchange]
      exact .asks
    · rw [← CoroutineState.yielded.inj hy]
      simp only [InConversation, hs, ImapIdle.InConversation, hidle]
      exact inConversation_asked .idle
  | @rests y w hy hs =>
    have hutters : Utters.utterance y = .silent ∧ Utters.request y = .nothing := by
      rcases hy with rfl | ⟨event, rfl⟩
      · exact ⟨rfl, rfl⟩
      · exact ⟨rfl, rfl⟩
    refine ⟨?_, fun z hz => ?_⟩
    · rw [exchange_bare hs, CoroutineState.utterance, hutters.1]
      exact .listens (.inl rfl)
    · rw [← CoroutineState.yielded.inj hz, inConversation_bare hs]
      exact hutters.2

theorem quietly_voices {o : Outcome} (h : o.Starts) (hw : w.state.isBare = true) (hdue : due = .nothing)
    (hans : due.answeredBy arg = true) : Voices InConversation (Converses.exchange w) due arg o.1 o.2 := by
  obtain ⟨hstep, hgoesOn⟩ := h.voices
  obtain rfl := hdue
  obtain rfl := Request.answeredBy_nothing.mp hans
  rw [exchange_bare hw]
  exact ⟨⟨by simp, hstep⟩, hgoesOn⟩

variable [Fragmentizer F] [LawfulTag] [LawfulEncoder Command]

theorem exchange_voices {V : Type} {decode : ImapSendOutput Command → V}
    {into : ImapSend Command → State} {error : ImapCommandError → ImapMailboxWatchError}
    {next : V → Outcome} {send : ImapSend Command} (h : w.InConversation due)
    (hans : due.answeredBy arg = true) (hs : w.state.command? = some send)
    (hinto : ∀ send, (into send).command? = some send) (hnext : ∀ v, (next v).Starts)
    (he : (w.wake env).exchange into error next (commandResume decode send (⟨f, log⟩ : Logged F) arg) =
      (out, w', l)) :
    Voices InConversation (Converses.exchange w) due arg out w' := by
  rw [inConversation_command hs] at h
  rw [exchange_command hs]
  obtain ⟨⟨y | err | v, send', l'⟩, hsend⟩ :
    ∃ x, commandResume decode send (⟨f, log⟩ : Logged F) arg = x := ⟨_, rfl⟩
  all_goals
    have habides := commandResume_abides h hans hsend
    simp only [exchange, hsend] at he
    cases he
  · have hcommand : ({ w.wake env with state := into send' } : ImapMailboxWatch).state.command? =
        some send' := hinto send'
    exact habides.voicesOn (exchange_command hcommand) (ofYield_utters y)
      (inConversation_command hcommand).mpr
  · exact habides.voicesNothing _
  · obtain ⟨hstep, hgoesOn⟩ := (hnext v).voices
    exact habides.voicesNext hstep hgoesOn

variable [LawfulEncoder IdleDone] [Base64Codec] [TryFrom String Mailbox]

omit [Fragmentizer F] [LawfulTag] [LawfulEncoder Command] [LawfulEncoder IdleDone] [Base64Codec]
  [TryFrom String Mailbox] in
theorem forwarded_voices {idle idle' : ImapIdle} {y : ImapYield}
    (h : Voices ImapIdle.InConversation (Converses.exchange idle) due arg
      (.yielded (.ofYield y) : ImapIdleResult) idle') (hw : w.state = .idle idle') :
    Voices InConversation (Converses.exchange idle) due arg
      (.yielded (.ofYield y) : ImapMailboxWatchResult) w := by
  have hexchange : Converses.exchange w = Converses.exchange idle' := by simp [Converses.exchange, hw]
  refine ⟨?_, fun z hz => ?_⟩
  · have hkept := h.kept
    rw [CoroutineState.utterance, (ImapIdle.ofYield_utters y).1] at hkept
    rw [hexchange, CoroutineState.utterance, (ofYield_utters y).1]
    exact hkept
  · have hgoesOn := h.goesOn _ rfl
    rw [(ImapIdle.ofYield_utters y).2] at hgoesOn
    rw [← CoroutineState.yielded.inj hz, (ofYield_utters y).2, InConversation, hw]
    exact hgoesOn

omit [TryFrom Bytes Tag] [LawfulTag] [LawfulEncoder Command] [LawfulEncoder IdleDone]
  [Base64Codec] [TryFrom String Mailbox] [Encoder AuthenticateData] in
theorem ended_speaks {idle idle' : ImapIdle} {idleEnv : ImapIdleEnv} {f' : F}
    {events : List FragmentizerEvent} (h : idle.InConversation due)
    (hr : idle.Resumed f idleEnv arg (.complete (.ok ())) idle' f' events) :
    ∃ rest, Converses.exchange idle = .speaks rest := by
  cases hr with
  | @ends _ send _ _ _ _ _ _ hs =>
    rw [ImapIdle.InConversation, hs] at h
    obtain ⟨sent, hsent⟩ := h.reads
    exact ⟨send.unwritten, by simp [Converses.exchange, hs, exchange_read hsent]⟩

theorem resumeIdle_voices {idle : ImapIdle} (h : idle.InConversation due) (hready : idle.Ready due)
    (hans : due.answeredBy arg = true)
    (he : (w.wake env).resumeIdle idle (⟨f, log⟩ : Logged F) arg env = (out, w', l)) :
    Voices InConversation (Converses.exchange idle) due arg out w' := by
  obtain ⟨r, idle', f', events, hr, hresumed⟩ := ImapIdle.resume_spec hready f log arg (w.idleEnv env)
  have hvoices := ImapIdle.resume_voices h hready hans hr
  have hr' : idle.resume (⟨f, log⟩ : Logged F) arg
      ⟨(w.wake env).idleDone, env.clock.1, env.clock.2⟩ = (r, idle', ⟨f', log ++ events⟩) := hr
  unfold resumeIdle at he
  by_cases hevent : ImapIdle.isEvent r = false
  · have hsilent : ImapIdle.isEvent (idle.resume (⟨f, log⟩ : Logged F) arg
        ⟨(w.wake env).idleDone, env.clock.1, env.clock.2⟩).1 = false := by rw [hr']; exact hevent
    rw [dif_pos hsilent] at he
    simp only [hr'] at he
    rcases r with (_ | _ | bytes | event) | (err | ⟨⟩)
    · cases he
      exact forwarded_voices (y := .wantsTag) hvoices rfl
    · cases he
      exact forwarded_voices (y := .wantsRead) hvoices rfl
    · cases he
      exact forwarded_voices (y := .wantsWrite bytes) hvoices rfl
    · simp [ImapIdle.isEvent] at hevent
    · cases he
      refine ⟨hvoices.kept.completes _, fun y hy => ?_⟩
      cases hy
    · cases he
      obtain ⟨rest, hspeaks⟩ := ended_speaks h hresumed
      have hstarts : ((w.wake env).idled env).Starts := idled_continues.starts
      obtain ⟨hstep, hgoesOn⟩ := hstarts.voices
      have hkept := hvoices.kept
      rw [hspeaks] at hkept ⊢
      exact ⟨(hkept.completes _).handsOver hstep, hgoesOn⟩
  · obtain ⟨event, rfl⟩ := isEvent_event hevent
    have hsilent : ¬ ImapIdle.isEvent (idle.resume (⟨f, log⟩ : Logged F) arg
        ⟨(w.wake env).idleDone, env.clock.1, env.clock.2⟩).1 = false := by rw [hr']; exact hevent
    rw [dif_neg hsilent] at he
    obtain ⟨tag, htag⟩ := event_reads hresumed
    have hagain := resume_flagged htag (⟨f', log ++ events⟩ : Logged F) env
    simp only [hr', hagain] at he
    cases he
    obtain ⟨rest, hspeaks⟩ := hvoices.kept.step.speaks
    refine ⟨⟨hvoices.kept.asked, ?_⟩, fun y hy => ?_⟩
    · rw [hspeaks]
      exact ImapIdle.done_step tag
    · rw [← CoroutineState.yielded.inj hy]
      exact reading_new IdleDone.idleDone tag

/-- The watcher keeps to the discipline as far as tags are concerned. -/
theorem resume_voices (h : w.InConversation due) (hready : w.state.Ready due)
    (hans : due.answeredBy arg = true)
    (he : w.resume (⟨f, log⟩ : Logged F) arg env = (out, w', l)) :
    Voices InConversation (Converses.exchange w) due arg out w' := by
  have hstate : (w.wake env).state = w.state := rfl
  unfold resume at he
  cases hs : w.state with
  | idle idle =>
    simp only [InConversation, hs] at h
    rw [hs] at hready
    simp only [hstate, hs] at he
    have hexchange : Converses.exchange w = Converses.exchange idle := by simp [Converses.exchange, hs]
    rw [hexchange]
    exact resumeIdle_voices h hready hans he
  | beginIdle =>
    have hbare : w.state.isBare = true := by rw [hs]; rfl
    simp only [hstate, hs] at he
    cases he
    exact quietly_voices beginIdle_continues.starts hbare ((State.ready_bare hbare).mp hready) hans
  | waiting =>
    have hbare : w.state.isBare = true := by rw [hs]; rfl
    have hproceeds : ((w.wake env).proceed env).Starts := proceed_continues.starts
    rw [proceed, hstate, hs] at hproceeds
    simp only [hstate, hs] at he
    cases he
    exact quietly_voices hproceeds hbare ((State.ready_bare hbare).mp hready) hans
  | emitDeltas =>
    have hbare : w.state.isBare = true := by rw [hs]; rfl
    simp only [hstate, hs] at he
    cases he
    exact quietly_voices emitDeltas_continues.starts hbare ((State.ready_bare hbare).mp hready) hans
  | terminal =>
    have hbare : w.state.isBare = true := by rw [hs]; rfl
    simp only [hstate, hs] at he
    cases he
    exact quietly_voices .completes hbare ((State.ready_bare hbare).mp hready) hans
  | enableQresync send =>
    have hcommand : w.state.command? = some send := by rw [hs]; rfl
    simp only [hstate, hs] at he
    exact exchange_voices h hans hcommand (fun _ => rfl) (fun _ => .asks rfl) he
  | examineInitial send =>
    have hcommand : w.state.command? = some send := by rw [hs]; rfl
    simp only [hstate, hs] at he
    exact exchange_voices h hans hcommand (fun _ => rfl) (fun _ => (examinedInitial_ensues env _).starts) he
  | fetchBaseline send =>
    have hcommand : w.state.command? = some send := by rw [hs]; rfl
    simp only [hstate, hs] at he
    exact exchange_voices h hans hcommand (fun _ => rfl) (fun _ => beginIdle_continues.starts) he
  | examineQresync send =>
    have hcommand : w.state.command? = some send := by rw [hs]; rfl
    simp only [hstate, hs] at he
    exact exchange_voices h hans hcommand (fun _ => rfl) (fun _ => (examinedQresync_ensues _).starts) he
  | examineResync send =>
    have hcommand : w.state.command? = some send := by rw [hs]; rfl
    simp only [hstate, hs] at he
    exact exchange_voices h hans hcommand (fun _ => rfl) (fun _ => (examinedResync_ensues env _).starts) he
  | fetchResync send =>
    have hcommand : w.state.command? = some send := by rw [hs]; rfl
    simp only [hstate, hs] at he
    exact exchange_voices h hans hcommand (fun _ => rfl) (fun _ => emitDeltas_continues.starts) he

/-! ### Runs of the watcher -/

omit [TryFrom Bytes Tag] [Encoder AuthenticateData] [Encoder IdleDone] [Fragmentizer F] [LawfulTag]
  [LawfulEncoder Command] [LawfulEncoder IdleDone] in
theorem new_inConversation (capability : List Capability) (mailbox : Mailbox)
    (opts : ImapMailboxWatchOptions) : (new capability mailbox opts).InConversation .nothing := by
  unfold new
  simp only
  split
  · exact ImapSend.inConversation_command _
  · exact ImapSend.inConversation_command _

theorem disciplined_iff {capability : List Capability} {mailbox : Mailbox}
    {opts : ImapMailboxWatchOptions} {es : List (Step F)} {b : Config ImapMailboxWatch F}
    (hrun : imapMailboxWatch.Runs (new capability mailbox opts) f es b) :
    (∀ t ∈ es, Disciplined t) ↔ ∀ t ∈ es, ¬ Drops t := by
  have hiff : ∀ t ∈ es, (Disciplined t ↔ ¬ Drops t) := by
    refine Run.labels (I := fun a => ReadyConfig a ∧ ∀ due, a.due = some due →
      a.state.InConversation due) ?_ ?_ hrun
    · refine ⟨start_ready capability mailbox opts f, fun due hdue => ?_⟩
      obtain rfl : Request.nothing = due := Option.some.inj hdue
      exact new_inConversation capability mailbox opts
    · intro a t b ha hstep
      obtain ⟨⟨hr, hw, hans⟩, -, -, hb⟩ := step_resumed ha.1 hstep
      obtain ⟨due, arg, env, out, s', f', log, hd, hans, he, rfl, rfl⟩ :=
        imapMailboxWatch.step_cases hstep
      have hvoices := resume_voices (ha.2 due hd) (ha.1 due hd) hans he
      refine ⟨⟨hb, fun due' hd' => ?_⟩, ?_⟩
      · rcases out with y | r
        · obtain rfl : y.request = due' := Option.some.inj hd'
          exact hvoices.goesOn y rfl
        · simp at hd'
      · rw [← fed_iff hr hw hans]
        constructor
        · intro hdisciplined
          exact hdisciplined.fed rfl
        · intro hfed
          refine ⟨hvoices.kept.asked, hvoices.kept.step, fun _ => hfed, ?_⟩
          intro unread y hu
          simp [Converses.unread] at hu
  exact forall₂_congr hiff

end ImapMailboxWatch
end IoImap
