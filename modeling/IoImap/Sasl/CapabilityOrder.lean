import IoImap.Rfc3501.CapabilityOrder
import IoImap.Sasl.Success

/-!
# The capabilities that a SASL coroutine returns

The announcements of AUTHENTICATE are merged as those of CAPABILITY are, but only
those of its last round: what the server announced in front of a challenge went with
the exchange that the challenge ended.
-/

namespace IoImap
open Fragmentizer ServerMessage Transition

/-! ### The rounds -/

namespace AuthRounds

def asksCapability (r : AuthRounds) : Bool :=
  match r.round with
  | .capability _ => true
  | _ => false

variable {F : Type} [Fragmentizer F] [TryFrom Bytes Tag] [Encoder Command] {r r' : AuthRounds} {f f' : F}
  {arg : Option Bytes} {out : AuthRoundsResult} {observed : List Capability}

/-- What the rounds come to when the capabilities are not asked for. -/
def Keeps (observed : List Capability) (out : AuthRoundsResult) (r : AuthRounds) : Prop :=
  r.asksCapability = true ∨
    ((∀ y, out = .yielded y → r.observed = observed) ∧ ∀ v, out = .complete (.ok v) → v = observed)

omit [Fragmentizer F] [TryFrom Bytes Tag] [Encoder Command] in
theorem complete_keeps (r : AuthRounds) (f : F) :
    Keeps r.observed (r.complete f).1 (r.complete f).2.1 :=
  .inr ⟨by simp [complete], by simp [complete, eq_comm]⟩

theorem resumeId_keeps {id : ImapServerId} (he : r.resumeId id f arg = (out, r', f')) :
    Keeps r.observed out r' := by
  obtain ⟨⟨y | err | v, id', l⟩, hid⟩ : ∃ x, id.resume f arg = x := ⟨_, rfl⟩
  all_goals simp only [resumeId, hid] at he
  · cases he
    exact .inr ⟨fun _ _ => rfl, by simp⟩
  · cases he
    exact .inr ⟨by simp, by simp⟩
  · cases he
    exact complete_keeps r f'

theorem thenId_keeps (he : r.thenId f = (out, r', f')) : Keeps r.observed out r' := by
  unfold thenId wantsId at he
  split at he
  · rename_i id r₁ hid
    split at hid
    · simp at hid
    · cases hid
      exact resumeId_keeps (r := { r with autoId := none }) he
  · rename_i r₁ hid
    split at hid
    · cases hid
      cases he
      exact complete_keeps r f
    · simp at hid

/-- Behind a success the rounds keep what was observed in it. -/
theorem start_keeps {newCapability : Option (Vec1 Capability)} (hr : r.observed = [])
    (he : r.start newCapability f = (out, r', f')) : Keeps (newCapability.getD []) out r' := by
  have hobserve : (r.observe newCapability).observed = newCapability.getD [] := by
    cases newCapability <;> simp [observe, hr]
  unfold start at he
  simp only [wantsCapability] at he
  split at he
  · rename_i capability hw
    split at hw
    · obtain rfl := Option.some.inj hw
      cases he
      exact .inl rfl
    · simp at hw
  · rw [← hobserve]
    exact thenId_keeps he

theorem resume_keeps (hr : r.asksCapability = false) (he : r.resume f arg = (out, r', f')) :
    Keeps r.observed out r' := by
  unfold resume at he
  cases hround : r.round with
  | none =>
    rw [hround] at he
    cases he
    exact complete_keeps r f
  | capability capability => simp [asksCapability, hround] at hr
  | id id =>
    rw [hround] at he
    exact resumeId_keeps he

end AuthRounds

namespace ImapAuth

open ImapSend (Accepted heard heard_concat)

/-! ### What was announced -/

variable {K F : Type}

abbrev SaslTurn (K F : Type) := Turn (ImapAuth K) F Unit ImapYield (Except ImapAuthError (List Capability))

/-- AUTHENTICATE is not over when the resume starts. -/
def underway (t : SaslTurn K F) : Bool :=
  match t.before.state with
  | .rounds => false
  | _ => true

section Heard

variable [Fragmentizer F]

/-- All that the server says until AUTHENTICATE is over. -/
def dialogue (es : List (SaslTurn K F)) : List ServerMessage := heard (es.filter underway)

/-- What it says of this since the last write. -/
def lastRound (es : List (SaslTurn K F)) : List ServerMessage :=
  heard ((es.filter underway).rtakeWhile (·.payload?.isNone))

def authTag (es : List (SaslTurn K F)) : Option Tag := es.findSome? fun t => t.before.tag?

variable {es : List (SaslTurn K F)} {t : SaslTurn K F}

theorem lastRound_over (h : underway t = false) : lastRound (es ++ [t]) = lastRound es := by
  rw [lastRound, lastRound, List.filter_append, List.filter_singleton, h]
  simp

theorem lastRound_silent (h : underway t = true) (hwrites : t.payload? = none) :
    lastRound (es ++ [t]) = lastRound es ++ t.received := by
  have hfilter : [t].filter underway = [t] := by simp [h]
  rw [lastRound, List.filter_append, hfilter, List.rtakeWhile_concat_pos _ _ _ (by simp [hwrites]),
    heard_concat]
  rfl

theorem lastRound_writes {bytes : Bytes} (h : underway t = true) (hwrites : t.payload? = some bytes) :
    lastRound (es ++ [t]) = [] := by
  have hfilter : [t].filter underway = [t] := by simp [h]
  rw [lastRound, List.filter_append, hfilter, List.rtakeWhile_concat_neg _ _ _ (by simp [hwrites])]
  rfl

theorem dialogue_lastRound (es : List (SaslTurn K F)) :
    ∃ earlier, dialogue es = earlier ++ lastRound es := by
  obtain ⟨earlier, hsplit⟩ := List.rtakeWhile_suffix (p := fun t => t.payload?.isNone)
    (l := es.filter underway)
  refine ⟨heard earlier, ?_⟩
  conv_lhs => rw [dialogue, ← hsplit]
  exact List.flatMap_append

omit [Fragmentizer F] in
theorem authTag_concat : authTag (es ++ [t]) = (authTag es).or t.before.tag? := by
  simp [authTag, List.findSome?_append]

end Heard

/-! ### One resume -/

section Step

variable [SaslCoroutine K] [Fragmentizer F] [TryFrom Bytes Tag] [Encoder Command]
  [Encoder AuthenticateData] {s s' : ImapAuth K} {tag : Tag} {past : List ServerMessage} {phase : Phase}
  {due : Request} {f f' : F} {data : Bytes} {arg : Option Bytes} {es : List (SaslTurn K F)} {t : SaslTurn K F}

theorem Reads.resume_accepts {tagged : Tagged} (h : s.Reads tag past phase) (hne : data ≠ [])
    (hms : Accepted (messages (enqueueBytes f data)))
    (hbye : lastSome bye? (messages (enqueueBytes f data)) = none)
    (hcr : lastSome cr? (messages (enqueueBytes f data)) = none)
    (htagged : lastSome (·.ownTagged? tag) (messages (enqueueBytes f data)) = some tagged)
    (hkind : tagged.body.kind = .ok) (hok : phase.acceptsOk = true) :
    s.resume (⟨f, []⟩ : Logged F) (some data) = s.succeed tagged.body.code
      ((past ++ messages (enqueueBytes f data)).filterMap data?)
      ((past ++ messages (enqueueBytes f data)).filterMap untagged?)
      ⟨drained (enqueueBytes f data), .fed data :: (messages (enqueueBytes f data)).map .completed⟩ := by
  have hsig : lastSome (·.signal? tag) (messages (enqueueBytes f data)) ≠ none := by
    intro hnone
    obtain ⟨m, hm, hown⟩ := exists_of_lastSome htagged
    have hquiet := (signal?_eq_none.mp (lastSome_eq_none.mp hnone m hm)).1
    rw [hown] at hquiet
    simp at hquiet
  cases h with
  | @send send pending message hs h =>
    obtain ⟨out, send', f', events, he, hlistens⟩ := h.resume_spec f (some data)
    simp only [resume, hs, resumeSend, he]
    cases hlistens with
    | eof => exact absurd rfl hne
    | refused _ hms' _ hm => exact absurd hms (not_accepted hms' hm)
    | readsOn _ _ hquiet => exact absurd hquiet hsig
    | ended =>
      simp only [sendOver, ImapSend.outputOf, hbye, hcr, htagged, hkind]
      rw [if_pos hok]
  | @«continue» send message hs h =>
    obtain ⟨out, send', f', events, he, hlistens⟩ := h.resume_spec f (some data)
    simp only [resume, hs, resumeContinue, he]
    cases hlistens with
    | eof => exact absurd rfl hne
    | refused _ hms' _ hm => exact absurd hms (not_accepted hms' hm)
    | readsOn _ _ hquiet => exact absurd hquiet hsig
    | ended => simp only [continueOver, ImapSend.outputOf, hbye, hcr, htagged, hkind]

def FollowsUp (es : List (SaslTurn K F)) : Prop := ∃ e ∈ es, e.after.rounds.asksCapability = true

omit [SaslCoroutine K] [Fragmentizer F] [TryFrom Bytes Tag] [Encoder Command]
  [Encoder AuthenticateData] in
theorem FollowsUp.concat (h : FollowsUp es) : FollowsUp (es ++ [t]) := by
  obtain ⟨e, he, hasks⟩ := h
  exact ⟨e, List.mem_append_left _ he, hasks⟩

/-- The list is that of the last round, unless the capabilities were asked for. -/
def Returns (es : List (SaslTurn K F)) (observed : List Capability) : Prop :=
  ∀ tag, authTag es = some tag → FollowsUp es ∨ observed = (merged tag (lastRound es)).getD []

/-- The messages are collected alike, and none of them completes AUTHENTICATE. -/
structure SameRound (tag : Tag) (past ms : List ServerMessage) : Prop where
  data : past.filterMap data? = ms.filterMap data?
  untagged : past.filterMap untagged? = ms.filterMap untagged?
  quiet : ∀ m ∈ ms, m.ownTagged? tag = none

/-- What has been heard between two resumes. -/
inductive Heeding (es : List (SaslTurn K F)) (s : ImapAuth K) : Request → Prop where
  | early {due : Request} (hstage : s.Stage due) (hs : s.tag? = none) (hstate : s.state ≠ .rounds)
      (hobserved : s.rounds.observed = []) (htag : authTag es = none) : Heeding es s due
  | reads {tag : Tag} {past : List ServerMessage} {phase : Phase} {due : Request}
      (hs : s.Reads tag past phase) (hdue : due = .nothing ∨ due = .read)
      (hobserved : s.rounds.observed = []) (hpast : SameRound tag past (lastRound es))
      (htag : authTag es = none ∨ authTag es = some tag) : Heeding es s due
  | rounds {due : Request} (hs : s.state = .rounds) (h : s.rounds.Conversing due)
      (hasks : s.rounds.asksCapability = true → FollowsUp es) (hobserved : Returns es s.rounds.observed) :
      Heeding es s due

omit [SaslCoroutine K] [Encoder AuthenticateData] [TryFrom Bytes Tag] in
theorem Heeding.stage (h : Heeding es s due) : s.Stage due := by
  cases h with
  | early hstage => exact hstage
  | reads hs hdue => exact .reads hs hdue
  | rounds hs h => exact .rounds hs h

omit [SaslCoroutine K] [Fragmentizer F] [TryFrom Bytes Tag] [Encoder Command]
  [Encoder AuthenticateData] in
/-- What an exchange has collected is the same whichever messages it is put down to. -/
theorem Reads.collected {past' : List ServerMessage} {phase' : Phase} (h : s.Reads tag past phase)
    (h' : s.Reads tag past' phase') : past.filterMap data? = past'.filterMap data? ∧
      past.filterMap untagged? = past'.filterMap untagged? := by
  cases h with
  | send hs hlistening => cases h' with
    | send hs' hlistening' =>
      obtain ⟨rfl, -⟩ := State.send.inj (hs.symm.trans hs')
      exact ⟨hlistening.data.symm.trans hlistening'.data,
        hlistening.untagged.symm.trans hlistening'.untagged⟩
    | «continue» hs' => simp [hs] at hs'
  | «continue» hs hlistening => cases h' with
    | send hs' => simp [hs] at hs'
    | «continue» hs' hlistening' =>
      obtain rfl := State.continue.inj (hs.symm.trans hs')
      exact ⟨hlistening.data.symm.trans hlistening'.data,
        hlistening.untagged.symm.trans hlistening'.untagged⟩

omit [SaslCoroutine K] [Fragmentizer F] [TryFrom Bytes Tag] [Encoder Command]
  [Encoder AuthenticateData] in
theorem SameRound.append {ms ns : List ServerMessage} (h : SameRound tag past ms)
    (hns : ∀ m ∈ ns, m.ownTagged? tag = none) : SameRound tag (past ++ ns) (ms ++ ns) := by
  refine ⟨?_, ?_, fun m hm => ?_⟩
  · rw [List.filterMap_append, List.filterMap_append, h.data]
  · rw [List.filterMap_append, List.filterMap_append, h.untagged]
  · rcases List.mem_append.mp hm with hm | hm
    · exact h.quiet m hm
    · exact hns m hm

omit [SaslCoroutine K] [Fragmentizer F] [TryFrom Bytes Tag] [Encoder Command]
  [Encoder AuthenticateData] in
/-- What is collected up to the completion is what is left of the round. -/
theorem SameRound.merged {ms ns : List ServerMessage} {tagged : Tagged} (h : SameRound tag past ms)
    (htagged : lastSome (·.ownTagged? tag) ns = some tagged) :
    ImapCapabilityGet.newCapability tagged.body.code ((past ++ ns).filterMap data?)
      ((past ++ ns).filterMap untagged?) = merged tag (ms ++ ns) := by
  rw [← newCapability_merged, lastSome_append, htagged, List.filterMap_append, List.filterMap_append,
    List.filterMap_append, List.filterMap_append, h.data, h.untagged]
  rfl

structure Steps (es : List (SaslTurn K F)) (t : SaslTurn K F) : Prop where
  yields : ∀ y, t.out = .yielded y → Heeding (es ++ [t]) t.after y.request
  returns : ∀ v, t.out = .complete (.ok v) → Returns (es ++ [t]) v

omit [SaslCoroutine K] [TryFrom Bytes Tag] [Encoder AuthenticateData] in
theorem steps_failed {err : ImapAuthError} (h : t.out = .complete (.error err)) : Steps es t :=
  ⟨by simp [h], by simp [h]⟩

omit [SaslCoroutine K] [TryFrom Bytes Tag] [Encoder AuthenticateData] in
theorem steps_rounds {observed : List Capability} {out : AuthRoundsResult}
    (hstate : t.after.state = .rounds) (hout : t.out = out.tryOk id .ofRounds .ok)
    (hkeeps : AuthRounds.Keeps observed out t.after.rounds)
    (hconversing : ∀ y, out = .yielded y → t.after.rounds.Conversing y.request)
    (hreturns : Returns (es ++ [t]) observed) : Steps es t := by
  have hfollows (hasks : t.after.rounds.asksCapability = true) : FollowsUp (es ++ [t]) :=
    ⟨t, by simp, hasks⟩
  constructor
  · intro y hy
    obtain ⟨y', hy', rfl⟩ := CoroutineState.tryOk_yielded (hout.symm.trans hy)
    refine .rounds hstate (hconversing y' hy') hfollows fun tag htag => ?_
    rcases hkeeps with hasks | ⟨hobserved, -⟩
    · exact .inl (hfollows hasks)
    · rw [hobserved y' hy']
      exact hreturns tag htag
  · intro v hv tag htag
    rcases hkeeps with hasks | ⟨-, hobserved⟩
    · exact .inl (hfollows hasks)
    · obtain ⟨v', hv', hsame⟩ := CoroutineState.tryOk_ok (hout.symm.trans hv)
      obtain rfl : v' = v := Except.ok.inj hsame
      rw [hobserved v' hv']
      exact hreturns tag htag

variable [LawfulEncoder Command]

theorem Heeding.step_rounds {events : List FragmentizerEvent} {out : ImapAuthResult}
    (hs : s.state = .rounds) (h : s.rounds.Conversing due)
    (hasks : s.rounds.asksCapability = true → FollowsUp es) (hobserved : Returns es s.rounds.observed)
    (hans : due.answeredBy arg = true)
    (he : s.resume (⟨f, []⟩ : Logged F) arg = (out, s', ⟨f', events⟩)) :
    Steps es ⟨s, f, due, arg, (), out, s', f', events⟩ := by
  simp only [resume, hs] at he
  obtain ⟨⟨r, rounds, l⟩, hr⟩ : ∃ x, s.rounds.resume (⟨f, []⟩ : Logged F) arg = x := ⟨_, rfl⟩
  rw [hr, ofRounds] at he
  cases he
  have hover : underway (⟨s, f, due, arg, (), r.tryOk id .ofRounds .ok,
      { s with state := .rounds, rounds }, f', events⟩ : SaslTurn K F) = false := by
    simp [underway, hs]
  have htag : s.tag? = none := by rw [tag?, hs]
  have hreturns : Returns (es ++ [⟨s, f, due, arg, (), r.tryOk id .ofRounds .ok,
      { s with state := .rounds, rounds }, f', events⟩]) s.rounds.observed := by
    intro tag ht
    rw [authTag_concat, htag, Option.or_none] at ht
    rw [lastRound_over hover]
    exact (hobserved tag ht).imp FollowsUp.concat id
  cases hkeeps : s.rounds.asksCapability with
  | false =>
    refine steps_rounds rfl rfl (AuthRounds.resume_keeps hkeeps hr) (fun y hy => ?_) hreturns
    obtain rfl : r = .yielded y := hy
    exact (h.step hans hr).1
  | true =>
    -- the capabilities have been asked for already
    have hfollows := (hasks hkeeps).concat (t := ⟨s, f, due, arg, (), r.tryOk id .ofRounds .ok,
      { s with state := .rounds, rounds }, f', events⟩)
    refine ⟨fun y hy => ?_, fun v _ _ _ => .inl hfollows⟩
    obtain ⟨y', rfl, rfl⟩ := CoroutineState.tryOk_yielded hy
    exact .rounds rfl (h.step hans hr).1 (fun _ => hfollows) fun _ _ => .inl hfollows

omit [SaslCoroutine K] [TryFrom Bytes Tag] [Encoder AuthenticateData] [LawfulEncoder Command] in
theorem steps_written {bytes : Bytes} (hout : t.out = .yielded (.wantsWrite bytes))
    (hunder : underway t = true) (hreads : t.after.Reads tag [] phase)
    (hobserved : t.after.rounds.observed = []) (htag : authTag (es ++ [t]) = none ∨
      authTag (es ++ [t]) = some tag) : Steps es t := by
  refine ⟨fun y hy => ?_, by simp [hout]⟩
  obtain rfl : ImapYield.wantsWrite bytes = y := CoroutineState.yielded.inj (hout.symm.trans hy)
  have hround : lastRound (es ++ [t]) = [] := lastRound_writes hunder (by rw [Turn.payload?, hout])
  refine .reads hreads (.inl rfl) hobserved ?_ htag
  rw [hround]
  exact ⟨rfl, rfl, by simp⟩

omit [Fragmentizer F] [TryFrom Bytes Tag] [Encoder Command] [Encoder AuthenticateData]
  [LawfulEncoder Command] in
theorem resumeSasl_rounds {arg : SaslArg} {r : Except ImapAuthError (Option Bytes)}
    (h : s.resumeSasl arg = (r, s')) : s'.rounds = s.rounds := by
  rw [resumeSasl, Prod.mk.injEq] at h
  obtain ⟨-, rfl⟩ := h
  rfl

omit [Encoder AuthenticateData] [LawfulEncoder Command] in
theorem steps_succeeded {events : List FragmentizerEvent} {out : ImapAuthResult}
    {ms ns : List ServerMessage} {tagged : Tagged} {payload : Option Bytes} {s₁ : ImapAuth K}
    {l : Logged F} (hobserved : s.rounds.observed = [])
    (hpast : SameRound tag past ms) (htagged : lastSome (·.ownTagged? tag) ns = some tagged)
    (hsasl : s.resumeSasl .done = (.ok payload, s₁))
    (he : s.succeed tagged.body.code ((past ++ ns).filterMap data?) ((past ++ ns).filterMap untagged?) l =
      (out, s', ⟨f', events⟩))
    (hround : lastRound (es ++ [⟨s, f, due, arg, (), out, s', f', events⟩]) = ms ++ ns)
    (htag : authTag (es ++ [⟨s, f, due, arg, (), out, s', f', events⟩]) = some tag)
    (hstage : ∀ y, out = .yielded y → s'.Stage y.request) :
    Steps es ⟨s, f, due, arg, (), out, s', f', events⟩ := by
  rw [succeed, hsasl] at he
  simp only [ofRounds, hpast.merged htagged] at he
  obtain ⟨⟨r, rounds, l'⟩, hr⟩ : ∃ x, s₁.rounds.start (merged tag (ms ++ ns)) l = x := ⟨_, rfl⟩
  rw [hr] at he
  cases he
  have hkeeps := AuthRounds.start_keeps ((congrArg _ (resumeSasl_rounds hsasl)).trans hobserved) hr
  refine steps_rounds rfl rfl hkeeps (fun y hy => ?_) fun tag' htag' => ?_
  · obtain rfl : r = .yielded y := hy
    exact (hstage y rfl).rounds_conversing rfl
  · obtain rfl : tag = tag' := Option.some.inj (htag.symm.trans htag')
    rw [hround]
    exact .inr rfl

variable [LawfulEncoder AuthenticateData] [LawfulAuthenticate]

omit [LawfulEncoder Command] in
theorem Heeding.step_reads {events : List FragmentizerEvent} {out : ImapAuthResult}
    (hs : s.Reads tag past phase) (hdue : due = .nothing ∨ due = .read) (hobserved : s.rounds.observed = [])
    (hpast : SameRound tag past (lastRound es)) (htag : authTag es = none ∨ authTag es = some tag)
    (hans : due.answeredBy arg = true)
    (he : s.resume (⟨f, []⟩ : Logged F) arg = (out, s', ⟨f', events⟩)) :
    Steps es ⟨s, f, due, arg, (), out, s', f', events⟩ := by
  obtain ⟨out', s'', f'', events', he', hr⟩ := hs.resume_spec f arg
  cases he'.symm.trans he
  generalize ht : (⟨s, f, due, arg, (), out, s', f', events⟩ : SaslTurn K F) = t
  have hunder : underway t = true := by
    subst ht
    unfold underway
    split
    · rename_i hst
      exact absurd hst (reads_ne hs).2
    · rfl
  have hauth : authTag (es ++ [t]) = some tag := by
    rw [authTag_concat, ← ht]
    rcases htag with htag | htag <;> simp [htag, tag?_reads hs]
  have hread (data : Bytes) (harg : arg = some data) : due = .read := by
    rcases hdue with rfl | rfl
    · simp [harg, Request.answeredBy] at hans
    · rfl
  -- the messages the exchange was sent so far, whatever list the case names
  have hsame {past' : List ServerMessage} {phase' : Phase} (hs' : s.Reads tag past' phase') :
      SameRound tag past' (lastRound es) := by
    obtain ⟨hdata, huntagged⟩ := hs'.collected hs
    exact ⟨hdata.trans hpast.data, huntagged.trans hpast.untagged, hpast.quiet⟩
  cases hr with
  | starts hst => exact absurd hst (reads_ne hs).1
  | unstarted hst => exact absurd hst (reads_ne hs).1
  | invalid hst => exact absurd (tag?_reads hs) (by simp [tag?_asks hst])
  | sends hst => exact absurd (tag?_reads hs) (by simp [tag?_asks hst])
  | waits =>
    have hsilent : lastRound (es ++ [t]) = lastRound es := by
      rw [lastRound_silent hunder (by rw [← ht]; rfl), ImapSend.received_unread (.inr (by rw [← ht])),
        List.append_nil]
    rw [← ht] at hsilent hauth ⊢
    refine ⟨fun y hy => ?_, by simp⟩
    obtain rfl := CoroutineState.yielded.inj hy
    exact .reads hs (.inr rfl) hobserved (hsilent ▸ hpast) (.inr hauth)
  | eof => exact steps_failed (by rw [← ht])
  | refused => exact steps_failed (by rw [← ht])
  | @readsOn tag' past' phase' data _ hst hne hms hsig hs' hrest =>
    obtain ⟨rfl, rfl⟩ := hst.unique hs
    have hround : lastRound (es ++ [t]) = lastRound es ++ messages (enqueueBytes f data) := by
      rw [lastRound_silent hunder (by rw [← ht]; rfl), ← ht]
      exact congrArg _ (ImapSend.received_read (hread data rfl) rfl hne)
    have hquiet : ∀ m ∈ messages (enqueueBytes f data), m.ownTagged? tag' = none :=
      fun m hm => (signal?_eq_none.mp (lastSome_eq_none.mp hsig m hm)).1
    have hrounds : s'.rounds = s.rounds := by rw [hrest]
    rw [← ht] at hround hauth ⊢
    refine ⟨fun y hy => ?_, by simp⟩
    obtain rfl := CoroutineState.yielded.inj hy
    refine .reads hs' (.inr rfl) ((congrArg _ hrounds).trans hobserved) ?_ (.inr hauth)
    rw [hround]
    exact (hsame hst).append hquiet
  | @ended tag' past' phase' data _ _ hst hne hms hsig hover =>
    obtain ⟨rfl, rfl⟩ := hst.unique hs
    cases hover with
    | bye => exact steps_failed (by rw [← ht])
    | refuses => exact steps_failed (by rw [← ht])
    | unexpectedOk => exact steps_failed (by rw [← ht])
    | refusesDone => exact steps_failed (by rw [← ht])
    | no => exact steps_failed (by rw [← ht])
    | bad => exact steps_failed (by rw [← ht])
    | initial =>
      exact steps_written (by rw [← ht]) hunder (by rw [← ht]; exact reads_answered ..)
        (by rw [← ht]; exact hobserved) (.inr hauth)
    | answers _ _ _ hsasl =>
      exact steps_written (by rw [← ht]) hunder (by rw [← ht]; exact reads_answered ..)
        (by rw [← ht]; exact (congrArg _ (resumeSasl_rounds hsasl)).trans hobserved) (.inr hauth)
    | @succeeds tagged payload s₁ r rounds hbye hcr htagged hkind hok hsasl hstarts =>
      have haccepts := hst.resume_accepts hne hms hbye hcr htagged hkind hok
      have hround : lastRound (es ++ [t]) = lastRound es ++ messages (enqueueBytes f data) := by
        have hpayload : t.payload? = none := by
          rw [← ht]
          cases hstarts <;> rfl
        rw [lastRound_silent hunder hpayload, ← ht]
        exact congrArg _ (ImapSend.received_read (hread data rfl) rfl hne)
      rw [← ht] at hround hauth ⊢
      refine steps_succeeded hobserved (hsame hst) htagged hsasl (haccepts.symm.trans he) hround hauth
        fun y hy => ?_
      cases hstarts with
      | asks hconversing =>
        obtain rfl := CoroutineState.yielded.inj hy
        exact .rounds rfl hconversing
      | completes => simp [CoroutineState.tryOk] at hy
  | rounds hst => exact absurd hst (reads_ne hs).2

theorem Heeding.step_early {events : List FragmentizerEvent} {out : ImapAuthResult}
    (hstage : s.Stage due) (hs : s.tag? = none) (hstate : s.state ≠ .rounds)
    (hobserved : s.rounds.observed = []) (htag : authTag es = none) (hans : due.answeredBy arg = true)
    (he : s.resume (⟨f, []⟩ : Logged F) arg = (out, s', ⟨f', events⟩)) :
    Steps es ⟨s, f, due, arg, (), out, s', f', events⟩ := by
  obtain ⟨out', s'', f'', events', he', hr⟩ := resume_spec hstage hans f
  cases he'.symm.trans he
  generalize ht : (⟨s, f, due, arg, (), out, s', f', events⟩ : SaslTurn K F) = t
  have hauth : authTag (es ++ [t]) = none := by
    rw [authTag_concat, htag, ← ht, hs, Option.or_none]
  have hunread {tag : Tag} {past : List ServerMessage} {phase : Phase} (hst : s.Reads tag past phase) :
      False := by
    rw [tag?_reads hst] at hs
    simp at hs
  cases hr with
  | starts hst hsasl =>
    rw [← ht] at hauth ⊢
    refine ⟨fun y hy => ?_, by simp⟩
    obtain rfl := CoroutineState.yielded.inj hy
    refine .early (.asks rfl) (tag?_asks rfl) (by simp [asked]) ?_ hauth
    exact (congrArg _ (resumeSasl_rounds hsasl)).trans hobserved
  | unstarted => exact steps_failed (by rw [← ht])
  | invalid => exact steps_failed (by rw [← ht])
  | sends =>
    have hunder : underway t = true := by
      subst ht
      unfold underway
      split
      · rename_i hst
        exact absurd hst hstate
      · rfl
    exact steps_written (by rw [← ht]) hunder (by rw [← ht]; exact reads_sent ..)
      (by rw [← ht]; exact hobserved) (.inl hauth)
  | waits hst => exact (hunread hst).elim
  | eof hst => exact (hunread hst).elim
  | refused hst => exact (hunread hst).elim
  | readsOn hst => exact (hunread hst).elim
  | ended hst => exact (hunread hst).elim
  | rounds hst => exact absurd hst hstate

theorem Heeding.step {events : List FragmentizerEvent} {out : ImapAuthResult} (h : Heeding es s due)
    (hans : due.answeredBy arg = true)
    (he : s.resume (⟨f, []⟩ : Logged F) arg = (out, s', ⟨f', events⟩)) :
    Steps es ⟨s, f, due, arg, (), out, s', f', events⟩ := by
  cases h with
  | early hstage hs hstate hobserved htag =>
    exact step_early hstage hs hstate hobserved htag hans he
  | reads hs hdue hobserved hpast htag => exact step_reads hs hdue hobserved hpast htag hans he
  | rounds hs h hasks hobserved => exact step_rounds hs h hasks hobserved hans he

/-! ### Runs -/

variable {framing : SaslFraming} {mechanism : K} {opts : ImapAuthOptions} {a b : Config (ImapAuth K) F}
  {capability : List Capability}

theorem run_heeds (hrun : (imapAuth K).Runs (.new framing mechanism opts) f es a) :
    ∀ due, a.due = some due → Heeding es a.state due := by
  refine Run.history (P := fun es a => ∀ due, a.due = some due → Heeding es a.state due) ?_ ?_ hrun
  · intro due hdue
    obtain rfl : Request.nothing = due := Option.some.inj hdue
    exact .early (.start rfl) rfl (by simp [Coroutine.start, new]) rfl rfl
  · intro es a t b h hstep due hdue
    obtain ⟨due', arg, env, out, s', f', events, hdue', hans, he, rfl, rfl⟩ := (imapAuth K).step_cases hstep
    rcases out with y | r
    · obtain rfl : y.request = due := Option.some.inj hdue
      exact ((h due' hdue').step hans he).yields y rfl
    · simp at hdue

theorem run_returns (hrun : (imapAuth K).Runs (.new framing mechanism opts) f (es ++ [t]) b)
    (hout : t.out = .complete (.ok capability)) : Returns (es ++ [t]) capability := by
  obtain ⟨a, hbefore, hstep⟩ := hrun.snoc_inv
  obtain ⟨due, arg, env, out, s', f', events, hdue, hans, he, rfl, rfl⟩ := (imapAuth K).step_cases hstep
  exact ((run_heeds hbefore due hdue).step hans he).returns capability hout

/-- What AUTHENTICATE announced last is returned exactly when nothing disputes it within
the last round, and the last round announced something if any did. -/
theorem auth_newest_iff (hrun : (imapAuth K).Runs (.new framing mechanism opts) f (es ++ [t]) b)
    (hout : t.out = .complete (.ok capability)) (hfollow : ¬ FollowsUp (es ++ [t]))
    (htag : authTag (es ++ [t]) = some tag)
    (hvec : ∀ m ∈ dialogue (es ++ [t]), ∀ announced ∈ m.announcement? tag, announced.2 ≠ []) :
    (∀ kind newest, lastSome (·.announcement? tag) (dialogue (es ++ [t])) = some (kind, newest) →
        capability = newest) ↔
      Undisputed tag (lastRound (es ++ [t])) ∧
        (lastSome (·.announcement? tag) (lastRound (es ++ [t])) = none →
          lastSome (·.announcement? tag) (dialogue (es ++ [t])) = none) := by
  have hreturns : capability = (merged tag (lastRound (es ++ [t]))).getD [] :=
    (run_returns hrun hout tag htag).resolve_left hfollow
  obtain ⟨earlier, hsplit⟩ := dialogue_lastRound (es ++ [t])
  have hne {kind : AnnouncementKind} {newest : Vec1 Capability}
      (h : lastSome (·.announcement? tag) (dialogue (es ++ [t])) = some (kind, newest)) : newest ≠ [] := by
    obtain ⟨m, hm, hannounced⟩ := exists_of_lastSome h
    exact hvec m hm _ hannounced
  rw [← merged_iff]
  rcases hlast : lastSome (·.announcement? tag) (lastRound (es ++ [t])) with - | ⟨kind, newest⟩
  · rw [merged_silent hlast] at hreturns
    subst hreturns
    constructor
    · intro h
      refine ⟨by simp, fun _ => ?_⟩
      rcases hall : lastSome (·.announcement? tag) (dialogue (es ++ [t])) with - | ⟨kind, newest⟩
      · rfl
      · exact absurd (h kind newest hall).symm (hne hall)
    · intro h kind newest hall
      simp [h.2 rfl] at hall
  · have hall : lastSome (·.announcement? tag) (dialogue (es ++ [t])) = some (kind, newest) := by
      rw [hsplit, lastSome_append, hlast, Option.some_or]
    rw [hall]
    constructor
    · intro h
      refine ⟨fun kind' newest' hsame => ?_, by simp⟩
      obtain ⟨rfl, rfl⟩ : kind = kind' ∧ newest = newest' := by simpa using hsame
      have hcapability := h kind newest rfl
      cases hmerged : merged tag (lastRound (es ++ [t])) with
      | none =>
        rw [hmerged] at hreturns
        exact absurd (hcapability.symm.trans hreturns) (hne hall)
      | some other =>
        rw [hmerged] at hreturns
        rw [← hcapability, hreturns]
        rfl
    · intro h kind' newest' hsame
      obtain ⟨rfl, rfl⟩ : kind = kind' ∧ newest = newest' := by simpa using hsame
      rw [hreturns, h.1 kind newest rfl]
      rfl

end Step
end ImapAuth

open ImapAuth

/-- The capabilities announced last are returned exactly when no announcement of the same
exchange takes precedence that lists others: of CAPABILITY, and of AUTHENTICATE when no
CAPABILITY follows it. An announcement in front of the last challenge is not returned. -/
theorem newest_capability_iff {K F : Type} [SaslCoroutine K] [Fragmentizer F] [TryFrom Bytes Tag]
    [Encoder Command] [Encoder AuthenticateData] [LawfulEncoder Command]
    [LawfulEncoder AuthenticateData] [LawfulAuthenticate] :
    (∀ {f : F} {es : List (CapabilityTurn F)} {t : CapabilityTurn F} {b : Config ImapCapabilityGet F}
        {out : ImapSendOutput Command},
      imapCapabilityGet.Runs .new f (es ++ [t]) b → exchanged t = .complete (.ok out) → Succeeds out →
        ((∀ kind newest, lastSome (·.announcement? out.tag) (ImapSend.heard (es ++ [t])) =
              some (kind, newest) → t.out = .complete (.ok newest)) ↔
          Undisputed out.tag (ImapSend.heard (es ++ [t])))) ∧
      ∀ {framing : SaslFraming} {mechanism : K} {opts : ImapAuthOptions} {f : F}
        {es : List (SaslTurn K F)} {t : SaslTurn K F} {b : Config (ImapAuth K) F}
        {capability : List Capability} {tag : Tag},
      (imapAuth K).Runs (.new framing mechanism opts) f (es ++ [t]) b →
        t.out = .complete (.ok capability) → ¬ FollowsUp (es ++ [t]) → authTag (es ++ [t]) = some tag →
        (∀ m ∈ dialogue (es ++ [t]), ∀ announced ∈ m.announcement? tag, announced.2 ≠ []) →
        ((∀ kind newest, lastSome (·.announcement? tag) (dialogue (es ++ [t])) = some (kind, newest) →
              capability = newest) ↔
          Undisputed tag (lastRound (es ++ [t])) ∧
            (lastSome (·.announcement? tag) (lastRound (es ++ [t])) = none →
              lastSome (·.announcement? tag) (dialogue (es ++ [t])) = none)) :=
  ⟨capability_get_iff, auth_newest_iff⟩

section Concrete

open Concrete

instance {K F : Type} (es : List (SaslTurn K F)) : Decidable (FollowsUp es) :=
  inferInstanceAs (Decidable (∃ e ∈ es, _))

def tagA1 : Tag := ⟨ascii "A1"⟩

def announcedBefore : Vec1 Capability := [.saslIr]

def announcedNow : Vec1 Capability := [.saslIr, .qResync]

def announcements : List (Bytes × Response) :=
  [(ascii "* CAPABILITY SASL-IR\r\n", .data (.capability announcedBefore)),
    (ascii "+ \r\n", .commandContinuationRequest (.basic "")),
    (ascii "A1 OK [CAPABILITY SASL-IR QRESYNC] done\r\n",
      .status (.tagged ⟨tagA1, ⟨.ok, some (.capability announcedNow), "done"⟩⟩)),
    (ascii "A1 OK done\r\n", .status (.tagged ⟨tagA1, ⟨.ok, none, "done"⟩⟩))]

abbrev AnnouncementLines := LineFragmentizer (decodeTable announcements)

/-- CAPABILITY, answered with `read`. -/
def playCapability (read : Bytes) := imapCapabilityGet.play
  (Coroutine.start .new (LineFragmentizer.empty : AnnouncementLines))
  ([none, some (ascii "A1"), none, some read].map (·, ()))

/-- PLAIN, with an inline initial response or not, and the reads that answer it. -/
def playPlainAuth (initialRequest : Bool) (reads : List (Option Bytes)) := (imapAuth Scripted).play
  (Coroutine.start (ImapAuthPlain.new none "alice" "secret" ⟨initialRequest, false, none⟩)
    (LineFragmentizer.empty : AnnouncementLines))
  (([none, some (ascii "A1"), none] ++ reads).map (·, ()))

/-- The last resume of the run ends well and returns a list, and another was announced last. -/
def CapabilityTold (es : List (CapabilityTurn AnnouncementLines)) (t : CapabilityTurn AnnouncementLines)
    (newest result : Vec1 Capability) : Prop :=
  ∃ out, exchanged t = .complete (.ok out) ∧ Succeeds out ∧
    lastSome (·.announcement? out.tag) (ImapSend.heard es) = some (.completion, newest) ∧
    t.out = .complete (.ok result)

def SaslTold (es : List (SaslTurn Scripted AnnouncementLines)) (t : SaslTurn Scripted AnnouncementLines)
    (newest : AnnouncementKind × Vec1 Capability) (result : List Capability) : Prop :=
  (¬ FollowsUp es ∧ authTag es = some tagA1 ∧
    (∀ m ∈ dialogue es, ∀ announced ∈ m.announcement? tagA1, announced.2 ≠ []) ∧
    lastSome (·.announcement? tagA1) (dialogue es) = some newest) ∧ t.out = .complete (.ok result)

theorem capabilityTold_run (read : Bytes) (newest result : Vec1 Capability)
    (h : (playCapability read).any (fun r => r.1.getLast?.any fun t =>
      (exchanged t).returned?.any fun out => Succeeds out ∧
        lastSome (·.announcement? out.tag) (ImapSend.heard r.1) = some (.completion, newest) ∧
        t.out.returned? = some result) = true) :
    ∃ es t b, imapCapabilityGet.Runs .new (LineFragmentizer.empty : AnnouncementLines) (es ++ [t]) b ∧
      CapabilityTold (es ++ [t]) t newest result := by
  obtain ⟨⟨es, b⟩, hplay, h⟩ := (Option.any_eq_true _ _).mp h
  obtain ⟨t, hlast, h⟩ := (Option.any_eq_true _ _).mp h
  obtain ⟨out, hout, h⟩ := (Option.any_eq_true _ _).mp h
  obtain ⟨hsucceeds, hannounced, hresult⟩ := of_decide_eq_true h
  obtain ⟨es, rfl⟩ := List.getLast?_eq_some_iff.mp hlast
  exact ⟨es, t, b, Coroutine.play_run _ hplay, out, CoroutineState.returned?_eq_some.mp hout, hsucceeds,
    hannounced, CoroutineState.returned?_eq_some.mp hresult⟩

theorem saslTold_run (initialRequest : Bool) (reads : List (Option Bytes))
    (newest : AnnouncementKind × Vec1 Capability) (result : List Capability)
    (h : (playPlainAuth initialRequest reads).any (fun r => r.1.getLast?.any fun t =>
      (¬ FollowsUp r.1 ∧ authTag r.1 = some tagA1 ∧
        (∀ m ∈ dialogue r.1, ∀ announced ∈ m.announcement? tagA1, announced.2 ≠ []) ∧
        lastSome (·.announcement? tagA1) (dialogue r.1) = some newest) ∧
        t.out.returned? = some result) = true) :
    ∃ es t b, (imapAuth Scripted).Runs
        (ImapAuthPlain.new none "alice" "secret" ⟨initialRequest, false, none⟩)
        (LineFragmentizer.empty : AnnouncementLines) (es ++ [t]) b ∧
      SaslTold (es ++ [t]) t newest result := by
  obtain ⟨⟨es, b⟩, hplay, h⟩ := (Option.any_eq_true _ _).mp h
  obtain ⟨t, hlast, h⟩ := (Option.any_eq_true _ _).mp h
  obtain ⟨htold, hresult⟩ := of_decide_eq_true h
  obtain ⟨es, rfl⟩ := List.getLast?_eq_some_iff.mp hlast
  exact ⟨es, t, b, Coroutine.play_run _ hplay, htold, CoroutineState.returned?_eq_some.mp hresult⟩

/-- The completion alone announces the capabilities, of CAPABILITY and of PLAIN. -/
theorem newest_capability_completion :
    (∃ es t b, ∃ out : ImapSendOutput Command,
      imapCapabilityGet.Runs .new (LineFragmentizer.empty : AnnouncementLines) (es ++ [t]) b ∧
      ((∀ kind newest, lastSome (·.announcement? out.tag) (ImapSend.heard (es ++ [t])) =
          some (kind, newest) → t.out = .complete (.ok newest)) ↔
        Undisputed out.tag (ImapSend.heard (es ++ [t])))) ∧
      ∃ es t b, (imapAuth Scripted).Runs (ImapAuthPlain.new none "alice" "secret" ⟨true, false, none⟩)
          (LineFragmentizer.empty : AnnouncementLines) (es ++ [t]) b ∧
        ((∀ kind newest, lastSome (·.announcement? tagA1) (dialogue (es ++ [t])) = some (kind, newest) →
            announcedNow = newest) ↔
          Undisputed tagA1 (lastRound (es ++ [t])) ∧
            (lastSome (·.announcement? tagA1) (lastRound (es ++ [t])) = none →
              lastSome (·.announcement? tagA1) (dialogue (es ++ [t])) = none)) := by
  obtain ⟨es, t, b, hrun, out, hout, hsucceeds, -⟩ := capabilityTold_run
    (ascii "A1 OK [CAPABILITY SASL-IR QRESYNC] done\r\n") announcedNow announcedNow
    (by decide +kernel)
  obtain ⟨es', t', b', hrun', ⟨hfollow, htag, hvec, -⟩, hout'⟩ := saslTold_run true
    [some (ascii "A1 OK [CAPABILITY SASL-IR QRESYNC] done\r\n")] (.completion, announcedNow)
    announcedNow (by decide +kernel)
  exact ⟨⟨es, t, b, out, hrun, (newest_capability_iff (K := Scripted)).1 hrun hout hsucceeds⟩,
    es', t', b', hrun', newest_capability_iff.2 hrun' hout' hfollow htag hvec⟩

/-- Capabilities announced before the completion override those it announces, of CAPABILITY
and of PLAIN; and those announced in front of a challenge are lost. -/
theorem newest_capability_overridden : announcedBefore ≠ announcedNow ∧ announcedBefore ≠ [] ∧
    (∃ es t b, imapCapabilityGet.Runs .new (LineFragmentizer.empty : AnnouncementLines) (es ++ [t]) b ∧
      CapabilityTold (es ++ [t]) t announcedNow announcedBefore) ∧
    (∃ es t b, (imapAuth Scripted).Runs (ImapAuthPlain.new none "alice" "secret" ⟨true, false, none⟩)
        (LineFragmentizer.empty : AnnouncementLines) (es ++ [t]) b ∧
      SaslTold (es ++ [t]) t (.completion, announcedNow) announcedBefore) ∧
    ∃ es t b, (imapAuth Scripted).Runs (ImapAuthPlain.new none "alice" "secret" ⟨false, false, none⟩)
        (LineFragmentizer.empty : AnnouncementLines) (es ++ [t]) b ∧
      SaslTold (es ++ [t]) t (.data, announcedBefore) [] := by
  refine ⟨by decide, by decide, ?_, ?_, ?_⟩
  · exact capabilityTold_run
      (ascii "* CAPABILITY SASL-IR\r\nA1 OK [CAPABILITY SASL-IR QRESYNC] done\r\n") _ _
      (by decide +kernel)
  · exact saslTold_run _
      [some (ascii "* CAPABILITY SASL-IR\r\nA1 OK [CAPABILITY SASL-IR QRESYNC] done\r\n")] _ _
      (by decide +kernel)
  · exact saslTold_run _
      [some (ascii "* CAPABILITY SASL-IR\r\n+ \r\n"), none, some (ascii "A1 OK done\r\n")] _ _
      (by decide +kernel)

end Concrete
end IoImap
