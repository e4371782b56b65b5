import IoImap.Discipline
import IoImap.Rfc3501.Greeting
import IoImap.Rfc5256.Sort

/-!
# The discipline of the greeting and of SORT
-/

namespace IoImap
open Fragmentizer ImapSend

/-! ### Fragments without octets -/

namespace Logged

variable {F : Type}

/-- The fragmentizer went on, and was given no octets. -/
def GoesOn (l l' : Logged F) : Prop :=
  ∃ events, l'.log = l.log ++ events ∧ events.filterMap FragmentizerEvent.bytes? = []

theorem goesOn_refl (l : Logged F) : l.GoesOn l := ⟨[], by rw [List.append_nil], rfl⟩

theorem GoesOn.trans {l l' l'' : Logged F} (h : l.GoesOn l') (h' : l'.GoesOn l'') : l.GoesOn l'' := by
  obtain ⟨events, hlog, hsilent⟩ := h
  obtain ⟨more, hlog', hsilent'⟩ := h'
  refine ⟨events ++ more, ?_, ?_⟩
  · rw [hlog', hlog, List.append_assoc]
  · rw [List.filterMap_append, hsilent, hsilent']
    rfl

theorem progress_goesOn [Fragmentizer F] (l : Logged F) : l.GoesOn (progress l).2 := by
  unfold progress
  split
  · split
    · exact ⟨_, rfl, rfl⟩
    · exact goesOn_refl _
  · exact goesOn_refl _

end Logged

variable {F : Type} {due : Request} {arg : Option Bytes} {log : List FragmentizerEvent}

/-! ### The greeting -/

instance : Converses ImapGreetingGet where
  exchange s := match s.state with
    | .read => .speaks []
    | .capability capability => ImapSend.exchange capability

namespace ImapGreetingGet

def InConversation [Encoder Command] (s : ImapGreetingGet) (due : Request) : Prop :=
  match s.state with
  | .read => due = .nothing ∨ due = .read
  | .capability capability => ImapSend.InConversation capability due

variable [Fragmentizer F] [TryFrom Bytes Tag] [Encoder Command] {s s' : ImapGreetingGet} {f : F}
  {l l' : Logged F} {out : ImapGreetingGetResult}

/-- What the first message comes to, from the state that waits for it. -/
inductive Deserialized (l : Logged F) :
    ImapGreetingGetResult → ImapGreetingGet → Logged F → Prop where
  | reads {s' : ImapGreetingGet} {l' : Logged F} (hs' : s'.state = .read) (hl : l.GoesOn l') :
      Deserialized l (.yielded .wantsRead) s' l'
  | asks {s' : ImapGreetingGet} {l' : Logged F}
      (hs' : s'.state = .capability (.fresh (.tag ⟨.capability, id⟩ true) [])) (hl : l.GoesOn l') :
      Deserialized l (.yielded .wantsTag) s' l'
  | ends {r : Except ImapGreetingGetError ImapGreetingOk} {s' : ImapGreetingGet} {l' : Logged F}
      (hl : l.GoesOn l') : Deserialized l (.complete r) s' l'

omit [Fragmentizer F] [TryFrom Bytes Tag] [Encoder Command] in
theorem Deserialized.goesOn (h : Deserialized l' out s' l) {l₀ : Logged F} (hl : l₀.GoesOn l') :
    Deserialized l₀ out s' l := by
  cases h with
  | reads hs' hl' => exact .reads hs' (hl.trans hl')
  | asks hs' hl' => exact .asks hs' (hl.trans hl')
  | ends hl' => exact .ends (hl.trans hl')

theorem greeted_deserialized (s : ImapGreetingGet) (l : Logged F) :
    Deserialized l (s.greeted l).1 (s.greeted l).2.1 (s.greeted l).2.2 := by
  unfold greeted
  cases hg : decodeGreeting l with
  | error err => cases err <;> exact .ends (Logged.goesOn_refl l)
  | ok greeting =>
    simp only
    split
    · exact .ends (Logged.goesOn_refl l)
    · split
      · split
        · exact .asks rfl (Logged.goesOn_refl l)
        · exact .ends (Logged.goesOn_refl l)
      · split
        · exact .asks rfl (Logged.goesOn_refl l)
        · exact .ends (Logged.goesOn_refl l)

theorem deserialize_deserialized (s : ImapGreetingGet) (l : Logged F) :
    Deserialized l (s.deserialize l).1 (s.deserialize l).2.1 (s.deserialize l).2.2 := by
  fun_induction deserialize s l with
  | case1 l l' hp =>
    have hl := Logged.progress_goesOn l
    rw [← Logged.progress_eq, hp] at hl
    exact .reads rfl hl
  | case2 l l' hp hcomplete =>
    have hl := Logged.progress_goesOn l
    rw [← Logged.progress_eq, hp] at hl
    exact (greeted_deserialized s l').goesOn hl
  | case3 l l' hp hcomplete ih =>
    have hl := Logged.progress_goesOn l
    rw [← Logged.progress_eq, hp] at hl
    exact ih.goesOn hl
  | case4 l l' info hline hp =>
    have hl := Logged.progress_goesOn l
    rw [← Logged.progress_eq, hp] at hl
    exact .ends hl

variable [LawfulTag] [Encoder AuthenticateData] [Encoder IdleDone] [LawfulEncoder Command]

omit [LawfulTag] [LawfulEncoder Command] in
theorem Deserialized.abides {b : Byte} {bs : Bytes}
    (h : Deserialized (enqueueBytes (⟨f, log⟩ : Logged F) (b :: bs)) out s' l) (hs : s.state = .read) :
    Abides InConversation s .read (some (b :: bs)) log out s' l := by
  have hexchange : Converses.exchange s = .speaks [] := by simp [Converses.exchange, hs]
  have hasked : Request.read = .tag ↔ ∃ body, Converses.exchange s = .awaits body := by simp [hexchange]
  have hfed : ∀ l', (enqueueBytes (⟨f, log⟩ : Logged F) (b :: bs)).GoesOn l' →
      ∃ events, l'.log = log ++ events ∧
        events.filterMap FragmentizerEvent.bytes? = Request.octets .read (some (b :: bs)) := by
    intro l' hl
    obtain ⟨events, hlog, hsilent⟩ := hl
    refine ⟨.fed (b :: bs) :: events, by rw [hlog]; simp [Logged.enqueueBytes_eq], ?_⟩
    have hcons : (FragmentizerEvent.fed (b :: bs) :: events).filterMap FragmentizerEvent.bytes? =
        (b :: bs) :: events.filterMap FragmentizerEvent.bytes? := rfl
    rw [hcons, hsilent]
    rfl
  cases h with
  | reads hs' hl =>
    refine ⟨⟨hasked, ?_⟩, hfed _ hl, fun y hy => ?_, by simp⟩
    · have hexchange' : Converses.exchange s' = .speaks [] := by simp [Converses.exchange, hs']
      rw [hexchange, hexchange']
      exact .listens (.inl rfl)
    · obtain rfl := CoroutineState.yielded.inj hy
      rw [InConversation, hs']
      exact .inr rfl
  | asks hs' hl =>
    refine ⟨⟨hasked, ?_⟩, hfed _ hl, fun y hy => ?_, by simp⟩
    · have hexchange' : Converses.exchange s' = .awaits .capability := by
        simp [Converses.exchange, hs', ImapSend.exchange, ImapSend.fresh]
      rw [hexchange, hexchange']
      exact .asks
    · obtain rfl := CoroutineState.yielded.inj hy
      rw [InConversation, hs']
      exact inConversation_asked .capability
  | ends hl =>
    refine ⟨⟨hasked, ?_⟩, hfed _ hl, by simp, fun v hv => ⟨[], hexchange⟩⟩
    rw [hexchange]
    exact .ends

theorem abides (h : s.InConversation due) (hans : due.answeredBy arg = true)
    (he : s.resume (⟨f, log⟩ : Logged F) arg = (out, s', l)) :
    Abides InConversation s due arg log out s' l := by
  rw [resume] at he
  rw [InConversation] at h
  cases hs : s.state with
  | capability capability =>
    rw [hs] at h he
    have hexchange : Converses.exchange s = ImapSend.exchange capability := by
      simp [Converses.exchange, hs]
    obtain ⟨⟨y | err | v, capability', l'⟩, hc⟩ :
      ∃ x, capability.resume (⟨f, log⟩ : Logged F) arg = x := ⟨_, rfl⟩
    all_goals
      have habides := ImapCapabilityGet.abides h hans hc
      simp only [resumeCapability, hc] at he
      cases he
    · exact habides.yields hexchange rfl ⟨rfl, rfl⟩ (fun hI => hI)
    · exact habides.completes hexchange (.inr ⟨_, rfl⟩) _
    · exact habides.completes hexchange (.inl ⟨v, rfl⟩) _
  | read =>
    rw [hs] at h he
    have hexchange : Converses.exchange s = .speaks [] := by simp [Converses.exchange, hs]
    have hasked : due = .tag ↔ ∃ body, Converses.exchange s = .awaits body := by
      rcases h with rfl | rfl <;> simp [hexchange]
    have hstep : ∀ {u}, (Exchange.speaks []).Step arg u (.speaks []) →
        (Converses.exchange s).Step arg u (Converses.exchange s) := by
      intro u hu
      rw [hexchange]
      exact hu
    rcases arg with - | (- | ⟨b, bs⟩)
    · cases he
      refine ⟨⟨hasked, hstep (.listens (.inl rfl))⟩, ⟨[], by simp, by rw [Request.octets_none]; rfl⟩, ?_,
        by simp⟩
      intro y hy
      obtain rfl := CoroutineState.yielded.inj hy
      rw [InConversation, hs]
      exact .inr rfl
    · cases he
      exact ⟨⟨hasked, hstep .ends⟩, ⟨[], by simp, by rw [Request.octets_eof]; rfl⟩, by simp, by simp⟩
    · obtain rfl : due = .read := by
        rcases h with rfl | rfl
        · simp [Request.answeredBy] at hans
        · rfl
      have hdeserialized := deserialize_deserialized s (enqueueBytes (⟨f, log⟩ : Logged F) (b :: bs))
      have he' : s.deserialize (enqueueBytes (⟨f, log⟩ : Logged F) (b :: bs)) = (out, s', l) := he
      rw [he'] at hdeserialized
      exact hdeserialized.abides hs

theorem disciplined {opts : ImapGreetingGetOptions}
    {es : List (Turn ImapGreetingGet F Unit ImapYield (Except ImapGreetingGetError ImapGreetingOk))}
    {b : Config ImapGreetingGet F} (hrun : imapGreetingGet.Runs (new opts) f es b) :
    ∀ t ∈ es, Disciplined t :=
  disciplined_run rfl (fun _ => rfl) abides (.inl rfl) hrun

end ImapGreetingGet

/-! ### SORT -/

instance : Converses ImapMessageSort where
  exchange s := match s.state with
    | .sort send => ImapSend.exchange send
    | .search search => ImapSend.exchange search
    | .fetch fetch => ImapSend.exchange fetch

namespace ImapMessageSort

theorem exchange_sort (s : ImapMessageSort) :
    Converses.exchange { s with state := .sort (.command .capability) } = .speaks [] := rfl

def InConversation [Encoder Command] (s : ImapMessageSort) (due : Request) : Prop :=
  match s.state with
  | .sort send => ImapSend.InConversation send due
  | .search search => ImapSend.InConversation search due
  | .fetch fetch => ImapSend.InConversation fetch due

variable [Rfc2822] [Fragmentizer F] [TryFrom Bytes Tag] [LawfulTag] [Encoder Command]
  [Encoder AuthenticateData] [Encoder IdleDone] [LawfulEncoder Command] {s s' s₀ : ImapMessageSort}
  {f : F} {l l' : Logged F} {out : ImapMessageSortResult}

omit [Rfc2822] [Fragmentizer F] [LawfulTag] [LawfulEncoder Command] in
theorem nextFetch_abides {done : ImapMessageSort → List NonZeroU32}
    (hs₀ : Converses.exchange s₀ = .speaks []) (he : s.nextFetch l done = (out, s', l')) :
    Abides InConversation s₀ .nothing none l.log out s' l' := by
  unfold nextFetch at he
  split at he
  · cases he
    exact abides_silent hs₀ .ends (by simp)
  · simp only at he
    split at he
    · cases he
      exact abides_silent hs₀ .ends (by simp)
    · cases he
      refine abides_silent hs₀ .asks ?_
      intro y hy
      obtain rfl := CoroutineState.yielded.inj hy
      exact inConversation_asked _

theorem abides (h : s.InConversation due) (hans : due.answeredBy arg = true)
    (he : s.resume (⟨f, log⟩ : Logged F) arg = (out, s', l)) :
    Abides InConversation s due arg log out s' l := by
  rw [resume] at he
  rw [InConversation] at h
  cases hs : s.state with
  | sort send =>
    rw [hs] at h he
    have hexchange : Converses.exchange s = ImapSend.exchange send := by simp [Converses.exchange, hs]
    obtain ⟨⟨x, send', l'⟩, hc⟩ :
      ∃ x, commandResume decode send (⟨f, log⟩ : Logged F) arg = x := ⟨_, rfl⟩
    have habides := commandResume_abides h hans hc
    simp only [resumeSort, hc] at he
    cases he
    rcases x with y | (err | v)
    · exact habides.yields hexchange rfl ⟨rfl, rfl⟩ (fun hI => hI)
    · exact habides.completes hexchange (.inr ⟨_, rfl⟩) _
    · exact habides.completes hexchange (.inl ⟨v, rfl⟩) _
  | search search =>
    rw [hs] at h he
    have hexchange : Converses.exchange s = ImapSend.exchange search := by
      simp [Converses.exchange, hs]
    obtain ⟨⟨y | err | v, search', l'⟩, hc⟩ :
      ∃ x, search.resume (⟨f, log⟩ : Logged F) arg = x := ⟨_, rfl⟩
    all_goals
      have habides := commandResume_abides h hans hc
      simp only [resumeSearch, hc] at he
    · cases he
      exact habides.yields hexchange rfl ⟨rfl, rfl⟩ (fun hI => hI)
    · cases he
      exact habides.completes hexchange (.inr ⟨_, rfl⟩) _
    · exact habides.handsOver hexchange (nextFetch_abides (exchange_sort s) he) rfl
  | fetch fetch =>
    rw [hs] at h he
    have hexchange : Converses.exchange s = ImapSend.exchange fetch := by
      simp [Converses.exchange, hs]
    obtain ⟨⟨y | err | v, fetch', l'⟩, hc⟩ :
      ∃ x, fetch.resume (⟨f, log⟩ : Logged F) arg = x := ⟨_, rfl⟩
    all_goals
      have habides := commandResume_abides h hans hc
      simp only [resumeFetch, hc] at he
    · cases he
      exact habides.yields hexchange rfl ⟨rfl, rfl⟩ (fun hI => hI)
    · cases he
      exact habides.completes hexchange (.inr ⟨_, rfl⟩) _
    · exact habides.handsOver hexchange (nextFetch_abides (exchange_sort s) he) rfl

theorem disciplined {sortCriteria : Vec1 SortCriterion} {searchCriteria : Vec1 SearchKey}
    {opts : ImapMessageSortOptions}
    {es : List (Turn ImapMessageSort F Unit ImapYield (Except ImapMessageSortError (List NonZeroU32)))}
    {b : Config ImapMessageSort F}
    (hrun : imapMessageSort.Runs (new sortCriteria searchCriteria opts) f es b) :
    ∀ t ∈ es, Disciplined t := by
  have hnew : (new sortCriteria searchCriteria opts).InConversation .nothing := by
    cases hfallback : opts.fallback with
    | true =>
      simp only [new, InConversation, hfallback]
      exact inConversation_command _
    | false =>
      simp only [new, InConversation, hfallback]
      exact inConversation_command _
  exact disciplined_run rfl (fun _ => rfl) abides hnew hrun

end ImapMessageSort
end IoImap
