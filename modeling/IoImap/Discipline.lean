import IoImap.Exchange
import IoImap.Rfc2971.Id
import IoImap.Rfc3501.Capability

/-!
# Composites and the discipline

A composite keeps to the discipline when its parts do and each part that succeeds
had taken the argument before the next one is resumed, without any.
-/

namespace IoImap
open Fragmentizer Transition

section Kept

variable [TryFrom Bytes Tag] [Encoder Command] [Encoder AuthenticateData] [Encoder IdleDone]

namespace Exchange

variable {arg : Option Bytes} {u : Option Utterance} {before after : Exchange}

theorem Step.completes (h : before.Step arg none after) (after' : Exchange) :
    before.Step arg none after' := by
  cases h with
  | refuses harg htag => exact .refuses harg htag
  | ends => exact .ends

/-- What a coroutine says first when it is resumed without an argument can be said
behind the end of another one, whose argument is not looked at again. -/
theorem Step.handsOver {rest : List Bytes} (h : (Exchange.speaks []).Step none u after) :
    (Exchange.speaks rest).Step arg u after := by
  cases h with
  | asks => exact .asks
  | answers data hwrites => exact .answers data hwrites
  | leavesOff hwrites => exact .leavesOff hwrites
  | listens hrest =>
    obtain rfl : _ = [] := by simpa using hrest
    exact .listens (.inr rfl)
  | ends => exact .ends

theorem Step.speaks (h : before.Step arg (some .silent) after) : ∃ rest, before = .speaks rest := by
  cases h with
  | listens => exact ⟨_, rfl⟩

end Exchange

/-- A resume from `before` to `after`, of which `due` was asked. -/
structure Kept (before : Exchange) (due : Request) (arg : Option Bytes) (u : Option Utterance)
    (after : Exchange) : Prop where
  asked : due = .tag ↔ ∃ body, before = .awaits body
  step : before.Step arg u after

namespace Kept

variable {due : Request} {arg : Option Bytes} {u : Option Utterance} {before after : Exchange}
  {rest : List Bytes}

theorem completes (h : Kept before due arg none after) (after' : Exchange) :
    Kept before due arg none after' :=
  ⟨h.asked, h.step.completes after'⟩

theorem handsOver (h : Kept (.speaks rest) due arg none after)
    (hnext : (Exchange.speaks []).Step none u after) : Kept (.speaks rest) due arg u after :=
  ⟨h.asked, hnext.handsOver⟩

end Kept
end Kept

/-! ### One resume -/

section Abides

variable [TryFrom Bytes Tag] [Encoder Command] [Encoder AuthenticateData] [Encoder IdleDone]
  {S S' Y Y' E E' V V' F : Type} [Converses S] [Converses S'] [Utters Y] [Utters Y']

/-- One resume of a coroutine that keeps to the discipline. Between two resumes its states
satisfy `I`, and no success comes of a resume that parses a tag. -/
structure Abides (I : S → Request → Prop) (s : S) (due : Request) (arg : Option Bytes)
    (log : List FragmentizerEvent) (out : CoroutineState Y (Except E V)) (s' : S) (l : Logged F) :
    Prop where
  kept : Kept (Converses.exchange s) due arg out.utterance (Converses.exchange s')
  fed : ∃ events, l.log = log ++ events ∧
    events.filterMap FragmentizerEvent.bytes? = due.octets arg
  goesOn : ∀ y, out = .yielded y → I s' (Utters.request y)
  done : ∀ v, out = .complete (.ok v) → ∃ rest, Converses.exchange s = .speaks rest

namespace Abides

variable {I : S → Request → Prop} {I' : S' → Request → Prop} {s s' : S} {t t' t'' : S'}
  {due : Request} {arg : Option Bytes} {log : List FragmentizerEvent} {l l' : Logged F}

theorem yields {y : Y} {y' : Y'} (h : Abides (E := E) (V := V) I s due arg log (.yielded y) s' l)
    (ht : Converses.exchange t = Converses.exchange s)
    (ht' : Converses.exchange t' = Converses.exchange s')
    (hy : Utters.utterance y' = Utters.utterance y ∧ Utters.request y' = Utters.request y)
    (hI : I s' (Utters.request y) → I' t' (Utters.request y)) :
    Abides (E := E') (V := V') I' t due arg log (.yielded y') t' l := by
  refine ⟨?_, h.fed, ?_, ?_⟩
  · rw [ht, ht', CoroutineState.utterance, hy.1]
    exact h.kept
  · intro z hz
    rw [← CoroutineState.yielded.inj hz, hy.2]
    exact hI (h.goesOn y rfl)
  · intro v hv
    simp at hv

theorem completes {r : Except E V} {r' : Except E' V'}
    (h : Abides (Y := Y) I s due arg log (.complete r) s' l)
    (ht : Converses.exchange t = Converses.exchange s) (hr : (∃ v, r = .ok v) ∨ ∃ err, r' = .error err)
    (t' : S') : Abides (Y := Y') I' t due arg log (.complete r') t' l := by
  refine ⟨?_, h.fed, ?_, ?_⟩
  · rw [ht]
    exact h.kept.completes _
  · intro y hy
    simp at hy
  · intro v hv
    rw [ht]
    rcases hr with ⟨w, rfl⟩ | ⟨err, rfl⟩
    · exact h.done w rfl
    · simp at hv

/-- The next part is resumed within the resume that the one before it succeeds in. -/
theorem handsOver {v : V} {out : CoroutineState Y' (Except E' V')}
    (h : Abides (E := E) (Y := Y) I s due arg log (.complete (.ok v)) s' l)
    (ht : Converses.exchange t = Converses.exchange s)
    (hnext : Abides I' t' .nothing none l.log out t'' l')
    (ht' : Converses.exchange t' = .speaks []) : Abides I' t due arg log out t'' l' := by
  obtain ⟨rest, hs⟩ := h.done v rfl
  obtain ⟨events, hlog, hfed⟩ := h.fed
  obtain ⟨more, hlog', hmore⟩ := hnext.fed
  have hsilent : more.filterMap FragmentizerEvent.bytes? = [] := hmore
  refine ⟨?_, ⟨events ++ more, ?_, ?_⟩, hnext.goesOn, fun _ _ => ⟨rest, ht.trans hs⟩⟩
  · have hkept := h.kept.completes (Converses.exchange t'')
    have hstep := hnext.kept.step
    rw [ht'] at hstep
    rw [hs] at hkept
    rw [ht, hs]
    exact hkept.handsOver hstep
  · rw [hlog', hlog, List.append_assoc]
  · rw [List.filterMap_append, hsilent, hfed, List.append_nil]

theorem tryOk {x : CoroutineState Y (Except E V)} {err : E → E'} {finish : V → Except E' V'}
    (h : Abides I s due arg log x s' l) :
    Abides I s due arg log (x.tryOk id err finish) s' l := by
  rcases x with y | (e | v)
  · exact h.yields rfl rfl ⟨rfl, rfl⟩ id
  · exact h.completes rfl (.inr ⟨err e, rfl⟩) s'
  · exact h.completes rfl (.inl ⟨v, rfl⟩) s'

end Abides

/-- A resume that neither looks at an argument nor touches the fragmentizer. -/
theorem abides_silent {I : S → Request → Prop} {s s' : S} {out : CoroutineState Y (Except E V)}
    {l : Logged F} (hs : Converses.exchange s = .speaks [])
    (hstep : (Exchange.speaks []).Step none out.utterance (Converses.exchange s'))
    (hI : ∀ y, out = .yielded y → I s' (Utters.request y)) :
    Abides I s .nothing none l.log out s' l := by
  refine ⟨⟨by simp [hs], ?_⟩, ⟨[], by rw [List.append_nil], rfl⟩, hI, fun _ _ => ⟨[], hs⟩⟩
  rw [hs]
  exact hstep

end Abides

/-! ### The discipline of tags alone -/

section Voices

variable [TryFrom Bytes Tag] [Encoder Command] [Encoder AuthenticateData] [Encoder IdleDone]
  {S S' Y Y' E V R F : Type} [Converses S] [Converses S'] [Utters Y] [Utters Y']

/-- One resume from `before`, as far as tags are concerned. -/
structure Voices (I : S → Request → Prop) (before : Exchange) (due : Request) (arg : Option Bytes)
    (out : CoroutineState Y R) (s' : S) : Prop where
  kept : Kept before due arg out.utterance (Converses.exchange s')
  goesOn : ∀ y, out = .yielded y → I s' (Utters.request y)

namespace Abides

variable {I : S → Request → Prop} {I' : S' → Request → Prop} {s s' : S} {t' : S'} {due : Request}
  {arg : Option Bytes} {log : List FragmentizerEvent} {l : Logged F}

theorem voicesOn {y : Y} {y' : Y'} (h : Abides (E := E) (V := V) I s due arg log (.yielded y) s' l)
    (ht' : Converses.exchange t' = Converses.exchange s')
    (hy : Utters.utterance y' = Utters.utterance y ∧ Utters.request y' = Utters.request y)
    (hI : I s' (Utters.request y) → I' t' (Utters.request y)) :
    Voices (R := R) I' (Converses.exchange s) due arg (.yielded y') t' := by
  constructor
  · rw [ht', CoroutineState.utterance, hy.1]
    exact h.kept
  · intro z hz
    rw [← CoroutineState.yielded.inj hz, hy.2]
    exact hI (h.goesOn y rfl)

theorem voicesNothing {r : Except E V} {r' : R}
    (h : Abides (Y := Y) I s due arg log (.complete r) s' l) (t' : S') :
    Voices (Y := Y') I' (Converses.exchange s) due arg (.complete r') t' :=
  ⟨h.kept.completes _, by simp⟩

theorem voicesNext {v : V} {out : CoroutineState Y' R}
    (h : Abides (E := E) (Y := Y) I s due arg log (.complete (.ok v)) s' l)
    (hnext : (Exchange.speaks []).Step none out.utterance (Converses.exchange t'))
    (hI : ∀ y, out = .yielded y → I' t' (Utters.request y)) :
    Voices I' (Converses.exchange s) due arg out t' := by
  obtain ⟨rest, hs⟩ := h.done v rfl
  have hkept := h.kept.completes (Converses.exchange t')
  rw [hs] at hkept ⊢
  exact ⟨hkept.handsOver hnext, hI⟩

end Abides
end Voices

/-- A run of a coroutine that keeps to the discipline, one resume at a time. -/
theorem disciplined_run {S Env Y E V F : Type} [Converses S] [Utters Y] [Fragmentizer F]
    [TryFrom Bytes Tag] [Encoder Command] [Encoder AuthenticateData] [Encoder IdleDone]
    {c : Coroutine S Env Y (Except E V)} {I : S → Request → Prop} {s : S} {f : F}
    {es : List (Turn S F Env Y (Except E V))} {b : Config S F}
    (hrequest : c.request = Utters.request) (hunread : ∀ s : S, Converses.unread s = none)
    (hresume : ∀ {s s' : S} {due : Request} {f : F} {arg : Option Bytes} {env : Env}
      {out : CoroutineState Y (Except E V)} {l : Logged F}, I s due → due.answeredBy arg = true →
      c.resume s (⟨f, []⟩ : Logged F) arg env = (out, s', l) → Abides I s due arg [] out s' l)
    (hs : I s .nothing) (hrun : c.Runs s f es b) : ∀ t ∈ es, Disciplined t := by
  refine Run.labels (I := fun a => ∀ due, a.due = some due → I a.state due) ?_ ?_ hrun
  · intro due hdue
    obtain rfl : Request.nothing = due := Option.some.inj hdue
    exact hs
  · intro a t b ha hstep
    obtain ⟨due, arg, env, out, s', f', log, hd, hans, hr, rfl, rfl⟩ := c.step_cases hstep
    have habides := hresume (ha due hd) hans hr
    obtain ⟨events, hlog, hfed⟩ := habides.fed
    refine ⟨?_, habides.kept.asked, habides.kept.step, fun _ => ?_, ?_⟩
    · intro due' hd'
      rcases out with y | r
      · obtain rfl : c.request y = due' := Option.some.inj hd'
        rw [hrequest]
        exact habides.goesOn y rfl
      · simp at hd'
    · have hevents : log = events := hlog
      rw [Turn.fed, hevents, hfed, Turn.answer]
    · intro unread y hu
      rw [hunread] at hu
      simp at hu

/-! ### The send primitive and the commands -/

instance (M : Type) : Converses (ImapSend M) where
  exchange := ImapSend.exchange

namespace ImapSend

variable {F M : Type}

theorem Awaits.asked {s : ImapSend M} {due : Request} (h : s.Awaits due) :
    due = .tag ↔ ∃ body, s.exchange = .awaits body := by
  unfold Awaits at h
  unfold exchange
  cases hs : s.state with
  | tag command requested =>
    rw [hs] at h
    cases requested with
    | true => simpa using h
    | false => simp [h]
  | serialize sent =>
    rw [hs] at h
    simp [h]
  | read sent =>
    rw [hs] at h
    rcases h with rfl | rfl
    · simp
    · simp

/-- Some command is on its way. -/
def InConversation [Encoder Command] (s : ImapSend Command) (due : Request) : Prop :=
  ∃ body, s.Conversing body due

theorem inConversation_command [Encoder Command] (body : CommandBody) :
    (ImapSend.command body).InConversation .nothing :=
  ⟨body, conversing_command body⟩

theorem inConversation_asked [Encoder Command] (body : CommandBody) :
    (ImapSend.fresh (.tag ⟨body, id⟩ true) [] : ImapSend Command).InConversation .tag :=
  ⟨body, conversing_asked body⟩

/-- Behind its message, a send reads. -/
structure Reading (s : ImapSend M) (due : Request) : Prop where
  ready : s.Ready
  awaits : s.Awaits due
  reads : ∃ sent, s.state = .read sent

theorem reading_new [Encoder M] [LawfulEncoder M] (message : M) (tag : Tag) :
    ((new message tag).written ⟨message, tag⟩).Reading .nothing :=
  have h : (new message tag).Initial := .new message tag
  ⟨written_ready _ h.ready.goesOn (LawfulEncoder.framed message), .inl rfl, _, rfl⟩

theorem Tells.done [TryFrom Bytes Tag] [Encoder M] {s s' : ImapSend M} {arg : Option Bytes}
    {v : ImapSendOutput M} (h : Tells arg s (.complete (.ok v)) s') :
    ∃ rest, s.exchange = .speaks rest := by
  cases h with
  | ends hs => exact ⟨_, exchange_read hs⟩

section Resume

variable [Fragmentizer F] [TryFrom Bytes Tag] [Encoder Command] [Encoder AuthenticateData]
  [Encoder IdleDone] {due : Request} {f : F} {log : List FragmentizerEvent} {arg : Option Bytes} {l : Logged F}

theorem abides [LawfulTag] [LawfulEncoder Command] {s s' : ImapSend Command}
    {out : ImapSendResult Command} (h : s.InConversation due) (hans : due.answeredBy arg = true)
    (he : s.resume (⟨f, log⟩ : Logged F) arg = (out, s', l)) :
    Abides InConversation s due arg log out s' l := by
  obtain ⟨body, h⟩ := h
  have htells := resume_tells h.ready h.awaits hans he
  obtain ⟨out', s'', f', events, he', hr⟩ := resume_spec h.ready f log arg
  refine ⟨⟨h.awaits.asked, (htells.step h.plain).1⟩, ⟨events, ?_, hr.fed h.awaits hans⟩, ?_, ?_⟩
  · rw [he] at he'
    cases he'
    rfl
  · intro y hy
    rw [hy] at he
    exact ⟨body, (h.step hans he).1⟩
  · intro v hv
    rw [hv] at htells
    exact htells.done

theorem abides_read [Encoder M] [LawfulEncoder M] {s s' : ImapSend M} {out : ImapSendResult M}
    (h : s.Reading due) (hans : due.answeredBy arg = true)
    (he : s.resume (⟨f, log⟩ : Logged F) arg = (out, s', l)) : Abides Reading s due arg log out s' l := by
  obtain ⟨sent, hs⟩ := h.reads
  have htells := resume_tells h.ready h.awaits hans he
  obtain ⟨out', s'', f', events, he', hr⟩ := resume_spec h.ready f log arg
  cases he'.symm.trans he
  refine ⟨⟨h.awaits.asked, htells.step_read hs⟩, ⟨events, rfl, hr.fed h.awaits hans⟩, ?_, ?_⟩
  · intro y hy
    rw [hy] at hr htells
    obtain ⟨hready, hawaits⟩ := hr.ready h.ready
    refine ⟨hready, hawaits, ?_⟩
    cases htells with
    | asks hst => simp [hs] at hst
    | tags hst => simp [hs] at hst
    | starts hst => simp [hs] at hst
    | continues _ _ hs' => exact ⟨_, hs'⟩
    | listens _ _ hs' => exact ⟨_, hs'⟩
  · intro v hv
    rw [hv] at htells
    exact htells.done

end Resume
end ImapSend

open ImapSend

section Commands

variable {V F : Type} [Fragmentizer F] [TryFrom Bytes Tag] [LawfulTag] [Encoder Command]
  [Encoder AuthenticateData] [Encoder IdleDone] [LawfulEncoder Command] {s s' : ImapSend Command}
  {due : Request} {f : F} {log : List FragmentizerEvent} {arg : Option Bytes} {l : Logged F}

theorem commandResume_abides {decode : ImapSendOutput Command → V}
    {out : CoroutineState ImapYield (Except ImapCommandError V)} (h : s.InConversation due)
    (hans : due.answeredBy arg = true)
    (he : commandResume decode s (⟨f, log⟩ : Logged F) arg = (out, s', l)) :
    Abides InConversation s due arg log out s' l := by
  obtain ⟨⟨x, s'', l'⟩, hr⟩ : ∃ r, s.resume (⟨f, log⟩ : Logged F) arg = r := ⟨_, rfl⟩
  rw [commandResume, hr] at he
  cases he
  exact (ImapSend.abides h hans hr).tryOk

theorem ImapCapabilityGet.abides {out : ImapCapabilityGetResult} (h : s.InConversation due)
    (hans : due.answeredBy arg = true)
    (he : ImapCapabilityGet.resume s (⟨f, log⟩ : Logged F) arg = (out, s', l)) :
    Abides InConversation s due arg log out s' l := by
  obtain ⟨⟨x, s'', l'⟩, hr⟩ : ∃ r, commandResume decode s (⟨f, log⟩ : Logged F) arg = r := ⟨_, rfl⟩
  rw [ImapCapabilityGet.resume, hr] at he
  cases he
  exact (commandResume_abides h hans hr).tryOk

end Commands
end IoImap
