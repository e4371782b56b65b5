import IoImap.Sasl.Verdict

/-!
# Successful authentications

What a run has told the mechanism, what challenges it was sent for it and what it has
written, from the first resume to the success. A read with two continuation requests
loses the first, so the account is kept for runs without one.
-/

namespace IoImap
open Fragmentizer ServerMessage Transition

namespace ImapAuth

open ImapSend (Accepted)

variable {K F : Type}

/-! ### The account of a run -/

def payload? : SaslState → Option Bytes
  | .yielded (.wantsWrite payload) => some payload
  | _ => none

theorem saslPayload_ok {state : SaslState} {payload : Option Bytes} (h : saslPayload state = .ok payload) :
    payload = payload? state := by
  unfold saslPayload at h
  split at h
  · exact (Except.ok.inj h).symm
  · exact (Except.ok.inj h).symm
  · exact (Except.ok.inj h).symm
  · simp at h

/-- The continuation requests that this resume decodes for AUTHENTICATE. -/
def challenges (t : AuthTurn K F) : List CommandContinuationRequest :=
  if t.before.tag?.isSome then t.completed.filterMap cr? else []

/-- What this resume writes of AUTHENTICATE. -/
def written? (t : AuthTurn K F) : Option Bytes :=
  match t.before.state, t.out with
  | .rounds, _ => none
  | _, .yielded (.wantsWrite bytes) => some bytes
  | _, _ => none

/-- The mechanism was given nothing and then the challenges in order, but for the one that
was answered with what had been held back; what it answered has been written once each,
in order, an empty answer where it had none. -/
structure Answered [Encoder Command] [Encoder AuthenticateData] (start : ImapAuth (Recorded K))
    (tag : Tag) (es : List (AuthTurn K F)) (record : List (SaslArg × SaslState)) (initial : SaslState)
    (heldBack : Option Bytes) (answers : List (Bytes × SaslState)) : Prop where
  told : record = (.none, initial) :: answers.map fun a => (.input a.1, a.2)
  challenged : ∃ held crs, es.flatMap challenges = held ++ crs ∧
    held.length = heldBack.toList.length ∧ crs.map (extractChallenge start.framing) = answers.map Prod.fst
  written : es.filterMap written? =
    commandOctets start.framing (start.inline (payload? initial)) tag ::
      (heldBack.toList ++ answers.map fun a => (payload? a.2).getD []).map dataOctets

/-- AUTHENTICATE succeeded with this resume: the mechanism was told of the tagged OK and
accepted it, once it had been given all the challenges and all its answers had been
written. -/
structure Succeeds [SaslCoroutine K] [Encoder Command] [Encoder AuthenticateData]
    (start : ImapAuth (Recorded K)) (pre : List (AuthTurn K F)) (t : AuthTurn K F) : Prop where
  answered : ∃ tag initial answers, Answered start tag pre t.before.mechanism.record initial
      (start.heldBack (payload? initial)) answers ∧
    ∃ m ∈ t.completed, ∃ tagged, m.ownTagged? tag = some tagged ∧ tagged.body.kind = .ok
  accepted : (SaslCoroutine.resume t.before.mechanism.mechanism .done).1 = .complete (.ok ())
  done : t.after.mechanism.record = t.before.mechanism.record ++ [(.done, .complete (.ok ()))]

/-- Nothing of AUTHENTICATE happens in this resume. -/
structure Past (t : AuthTurn K F) : Prop where
  told : t.after.mechanism.record = t.before.mechanism.record
  challenged : challenges t = []
  written : written? t = none

/-- The run authenticated. -/
def Authenticated [SaslCoroutine K] [Encoder Command] [Encoder AuthenticateData]
    (start : ImapAuth (Recorded K)) (es : List (AuthTurn K F)) : Prop :=
  ∃ pre t post, es = pre ++ t :: post ∧ Succeeds start pre t ∧ challenges t = [] ∧ written? t = none ∧
    ∀ e ∈ post, Past e

/-- At most one challenge comes in one read, and the mechanism does not go on when it is
told that the exchange is over. -/
structure Orderly [SaslCoroutine K] [Fragmentizer F] (t : AuthTurn K F) : Prop where
  one : t.before.tag?.isSome → (t.received.filterMap cr?).length ≤ 1
  ends : ∀ tag ∈ t.before.tag?, settled tag t.received = some .ok →
    ∀ y, (SaslCoroutine.resume t.before.mechanism.mechanism .done).1 ≠ .yielded y

/-! ### One resume -/

/-- Where a run stands between two resumes. -/
inductive Place [SaslCoroutine K] [Encoder Command] [Encoder AuthenticateData]
    (start : ImapAuth (Recorded K)) (es : List (AuthTurn K F)) (s : ImapAuth (Recorded K)) :
    Request → Prop where
  | start (hs : s.state = .start) (hrecord : s.mechanism.record = [])
      (hsame : s.framing = start.framing ∧ s.initialRequest = start.initialRequest)
      (hchallenges : es.flatMap challenges = []) (hwritten : es.filterMap written? = []) :
      Place start es s .nothing
  | asks {initial : SaslState}
      (hs : s.Asks (start.inline (payload? initial)) (start.heldBack (payload? initial)))
      (hrecord : s.mechanism.record = [(.none, initial)])
      (hsame : s.framing = start.framing ∧ s.initialRequest = start.initialRequest)
      (hchallenges : es.flatMap challenges = []) (hwritten : es.filterMap written? = []) :
      Place start es s .tag
  | reads {tag : Tag} {past : List ServerMessage} {phase : Phase} {initial : SaslState}
      {heldBack : Option Bytes} {answers : List (Bytes × SaslState)} {due : Request}
      (hs : s.Reads tag past phase) (hdue : due = .nothing ∨ due = .read)
      (hsame : s.framing = start.framing ∧ s.initialRequest = start.initialRequest)
      (h : Answered start tag es s.mechanism.record initial heldBack answers)
      (hpending : phase.pending = none ∧ heldBack = start.heldBack (payload? initial) ∨
        phase.pending = start.heldBack (payload? initial) ∧ heldBack = none ∧ answers = []) :
      Place start es s due
  | rounds {due : Request} (hs : s.state = .rounds) (h : s.rounds.Conversing due)
      (hdone : Authenticated start es) : Place start es s due

theorem Place.stage [SaslCoroutine K] [Encoder Command] [Encoder AuthenticateData]
    {start s : ImapAuth (Recorded K)} {es : List (AuthTurn K F)} {due : Request}
    (h : Place start es s due) : s.Stage due := by
  cases h with
  | start hs => exact .start hs
  | asks hs => exact .asks hs
  | reads hs hdue => exact .reads hs hdue
  | rounds hs h => exact .rounds hs h

section Step

variable {start s s' : ImapAuth (Recorded K)} {es : List (AuthTurn K F)} {t : AuthTurn K F}
  {due : Request} {tag : Tag} {past : List ServerMessage} {phase : Phase}

theorem reads_ne {K : Type} {s : ImapAuth K} (h : s.Reads tag past phase) :
    s.state ≠ .start ∧ s.state ≠ .rounds := by
  cases h with
  | send hs => simp [hs]
  | «continue» hs => simp [hs]

theorem Reads.unique {K : Type} {s : ImapAuth K} {tag' : Tag} {past' : List ServerMessage}
    {phase' : Phase} (h : s.Reads tag past phase) (h' : s.Reads tag' past' phase') :
    tag = tag' ∧ phase = phase' := by
  refine ⟨Option.some.inj ((tag?_reads h).symm.trans (tag?_reads h')), ?_⟩
  cases h with
  | send hs => cases h' with
    | send hs' =>
      obtain ⟨-, rfl⟩ := State.send.inj (hs.symm.trans hs')
      rfl
    | «continue» hs' => simp [hs] at hs'
  | «continue» hs => cases h' with
    | send hs' => simp [hs] at hs'
    | «continue» hs' => rfl

variable [SaslCoroutine K] [Encoder Command] [Encoder AuthenticateData]

theorem Place.at_start (h : Place start es s due) (hs : s.state = .start) :
    s.mechanism.record = [] ∧ (s.framing = start.framing ∧ s.initialRequest = start.initialRequest) ∧
      es.flatMap challenges = [] ∧ es.filterMap written? = [] := by
  cases h with
  | start _ hrecord hsame hchallenges hwritten => exact ⟨hrecord, hsame, hchallenges, hwritten⟩
  | asks hst =>
    have hstate : s.state = _ := hst
    simp [hstate] at hs
  | reads hst => exact absurd hs (reads_ne hst).1
  | rounds hst => simp [hst] at hs

theorem Place.at_asks {initialResponse pending : Option Bytes} (h : Place start es s due)
    (hs : s.Asks initialResponse pending) : ∃ initial,
    initialResponse = start.inline (payload? initial) ∧ pending = start.heldBack (payload? initial) ∧
      s.mechanism.record = [(.none, initial)] ∧
      (s.framing = start.framing ∧ s.initialRequest = start.initialRequest) ∧
      es.flatMap challenges = [] ∧ es.filterMap written? = [] := by
  have hstate : s.state = _ := hs
  cases h with
  | start hst => simp [hstate] at hst
  | @asks initial hst hrecord hsame hchallenges hwritten =>
    obtain ⟨hsend, rfl⟩ := State.send.inj (hs.symm.trans hst)
    simp only [ImapSend.fresh, ImapSend.mk.injEq, ImapSend.State.tag.injEq, UntaggedCommand.mk.injEq,
      CommandBody.authenticate.injEq, true_and, and_true] at hsend
    exact ⟨initial, hsend, rfl, hrecord, hsame, hchallenges, hwritten⟩
  | reads hst =>
    have htag := tag?_reads hst
    rw [tag?_asks hs] at htag
    simp at htag
  | rounds hst => simp [hstate] at hst

theorem Place.at_reads (h : Place start es s due) (hs : s.Reads tag past phase) :
    ∃ initial heldBack answers,
      (s.framing = start.framing ∧ s.initialRequest = start.initialRequest) ∧
      Answered start tag es s.mechanism.record initial heldBack answers ∧
      (phase.pending = none ∧ heldBack = start.heldBack (payload? initial) ∨
        phase.pending = start.heldBack (payload? initial) ∧ heldBack = none ∧ answers = []) := by
  cases h with
  | start hst => exact absurd hst (reads_ne hs).1
  | asks hst =>
    have htag := tag?_reads hs
    rw [tag?_asks hst] at htag
    simp at htag
  | reads hst _ hsame hanswered hpending =>
    obtain ⟨rfl, rfl⟩ := hs.unique hst
    exact ⟨_, _, _, hsame, hanswered, hpending⟩
  | rounds hst => exact absurd hst (reads_ne hs).2

theorem Place.at_rounds (h : Place start es s due) (hs : s.state = .rounds) : Authenticated start es := by
  cases h with
  | start hst => simp [hst] at hs
  | asks hst =>
    have hstate : s.state = _ := hst
    simp [hstate] at hs
  | reads hst => exact absurd hs (reads_ne hst).2
  | rounds _ _ hdone => exact hdone

/-! The account of one more resume. -/

omit [SaslCoroutine K] [Encoder Command] [Encoder AuthenticateData] in
theorem challenges_unread (h : t.before.tag? = none ∨ t.completed = []) : challenges t = [] := by
  rcases h with h | h
  · rw [challenges, h]
    rfl
  · rw [challenges, h]
    exact ite_self []

omit [SaslCoroutine K] [Encoder Command] [Encoder AuthenticateData] in
theorem written?_reads {bytes : Bytes} (h : t.before.state ≠ .rounds)
    (ho : t.out = .yielded (.wantsWrite bytes)) : written? t = some bytes := by
  unfold written?
  rw [ho]
  cases hst : t.before.state with
  | rounds => exact absurd hst h
  | _ => rfl

omit [SaslCoroutine K] [Encoder Command] [Encoder AuthenticateData] in
theorem written?_none (h : t.before.state = .rounds ∨ ∀ bytes, t.out ≠ .yielded (.wantsWrite bytes)) :
    written? t = none := by
  unfold written?
  split
  · rfl
  · rename_i hout hst
    rcases h with h | h
    · exact (hst h).elim
    · exact absurd hout (h _)
  · rfl

variable {record : List (SaslArg × SaslState)} {initial : SaslState} {heldBack : Option Bytes}
  {answers : List (Bytes × SaslState)}

omit [SaslCoroutine K] in
theorem Answered.quiet (h : Answered start tag es record initial heldBack answers)
    (hchallenges : challenges t = []) (hwritten : written? t = none) :
    Answered start tag (es ++ [t]) record initial heldBack answers := by
  refine ⟨h.told, ?_, ?_⟩
  · rw [List.flatMap_append, List.flatMap_singleton, hchallenges, List.append_nil]
    exact h.challenged
  · rw [List.filterMap_append, List.filterMap_cons_none hwritten, List.filterMap_nil, List.append_nil]
    exact h.written

omit [SaslCoroutine K] in
theorem answered_sent (hchallenges : es.flatMap challenges = []) (hwritten : es.filterMap written? = [])
    (ht : challenges t = [])
    (hwrite : written? t = some (commandOctets start.framing (start.inline (payload? initial)) tag)) :
    Answered start tag (es ++ [t]) [(.none, initial)] initial none [] := by
  refine ⟨rfl, ⟨[], [], ?_, rfl, rfl⟩, ?_⟩
  · rw [List.flatMap_append, List.flatMap_singleton, hchallenges, ht, List.append_nil]
  · rw [List.filterMap_append, hwritten, List.filterMap_cons_some hwrite]
    rfl

omit [SaslCoroutine K] in
theorem Answered.answersInitial {payload : Bytes} {cr : CommandContinuationRequest}
    (h : Answered start tag es record initial none []) (hchallenges : challenges t = [cr])
    (hwrite : written? t = some (dataOctets payload)) :
    Answered start tag (es ++ [t]) record initial (some payload) [] := by
  obtain ⟨held, crs, hes, hheld, hcrs⟩ := h.challenged
  obtain rfl : held = [] := List.eq_nil_of_length_eq_zero hheld
  obtain rfl : crs = [] := List.map_eq_nil_iff.mp hcrs
  refine ⟨h.told, ⟨[cr], [], ?_, rfl, rfl⟩, ?_⟩
  · rw [List.flatMap_append, List.flatMap_singleton, hes, hchallenges]
    rfl
  · rw [List.filterMap_append, h.written, List.filterMap_cons_some hwrite]
    rfl

omit [SaslCoroutine K] in
theorem Answered.answersNext {state : SaslState} {cr : CommandContinuationRequest}
    (h : Answered start tag es record initial heldBack answers) (hchallenges : challenges t = [cr])
    (hwrite : written? t = some (dataOctets ((payload? state).getD []))) :
    Answered start tag (es ++ [t]) (record ++ [(.input (extractChallenge start.framing cr), state)])
      initial heldBack (answers ++ [(extractChallenge start.framing cr, state)]) := by
  obtain ⟨held, crs, hes, hheld, hcrs⟩ := h.challenged
  refine ⟨?_, ⟨held, crs ++ [cr], ?_, hheld, ?_⟩, ?_⟩
  · rw [h.told, List.map_append]
    rfl
  · rw [List.flatMap_append, List.flatMap_singleton, hes, hchallenges, List.append_assoc]
  · rw [List.map_append, hcrs, List.map_append]
    rfl
  · rw [List.filterMap_append, h.written, List.filterMap_cons_some hwrite]
    simp

theorem Authenticated.goesOn (h : Authenticated start es) (ht : Past t) : Authenticated start (es ++ [t]) := by
  obtain ⟨pre, e, post, rfl, hsucceeds, hchallenges, hwritten, hpost⟩ := h
  refine ⟨pre, e, post ++ [t], by simp, hsucceeds, hchallenges, hwritten, fun x hx => ?_⟩
  rcases List.mem_append.mp hx with hx | hx
  · exact hpost x hx
  · rw [List.mem_singleton.mp hx]
    exact ht

variable [Fragmentizer F] [TryFrom Bytes Tag] {f f' : F} {arg : Option Bytes} {out : ImapAuthResult}
  {events : List FragmentizerEvent}

omit [SaslCoroutine K] [Encoder Command] [Encoder AuthenticateData] [Fragmentizer F]
  [TryFrom Bytes Tag] in
theorem crs_one {ms : List ServerMessage} {cr : CommandContinuationRequest}
    (h : lastSome cr? ms = some cr) (hone : (ms.filterMap cr?).length ≤ 1) : ms.filterMap cr? = [cr] := by
  rw [lastSome] at h
  cases hms : ms.filterMap cr? with
  | nil => simp [hms] at h
  | cons x rest =>
    rw [hms] at h hone
    obtain rfl : rest = [] := List.eq_nil_of_length_eq_zero (by simpa using hone)
    rw [List.getLast?_singleton] at h
    rw [Option.some.inj h]

omit [SaslCoroutine K] [Encoder Command] [Encoder AuthenticateData] [Fragmentizer F]
  [TryFrom Bytes Tag] in
theorem crs_none {ms : List ServerMessage} (h : lastSome cr? ms = none) : ms.filterMap cr? = [] :=
  List.filterMap_eq_nil_iff.mpr (lastSome_eq_none.mp h)

omit [Encoder Command] [Encoder AuthenticateData] [SaslCoroutine K] [Fragmentizer F]
  [TryFrom Bytes Tag] in
/-- With something held back no completion is a success. -/
theorem acceptsOk_pending (h : s.Reads tag past phase) (hok : phase.acceptsOk = true) :
    phase.pending = none := by
  cases h with
  | @send send pending =>
    rw [Bool.and_eq_true, Option.isNone_iff_eq_none] at hok
    exact hok.2
  | «continue» => rfl

omit [Encoder Command] [Encoder AuthenticateData] [SaslCoroutine K] [Fragmentizer F]
  [TryFrom Bytes Tag] in
theorem accepted_of_ends {state : SaslState} {payload : Option Bytes}
    (h : saslPayload state = .ok payload) (hends : ∀ y, state ≠ .yielded y) : state = .complete (.ok ()) := by
  unfold saslPayload at h
  split at h
  · exact absurd rfl (hends _)
  · exact absurd rfl (hends _)
  · rfl
  · simp at h

omit [TryFrom Bytes Tag] in
theorem Place.ended {due : Request} {ms : List ServerMessage} (hplace : Place start es t.before due)
    (hs : t.before.Reads tag past phase) (hover : t.before.Over phase tag ms t.out t.after)
    (hcompleted : t.completed = ms) (hreceived : t.received = ms) (horderly : Orderly t) :
    (∀ y, t.out = .yielded y → Place start (es ++ [t]) t.after y.request) ∧
      ∀ v, t.out = .complete (.ok v) → Authenticated start (es ++ [t]) := by
  obtain ⟨initial, heldBack, answers, hsame, hanswered, hpending⟩ := hplace.at_reads hs
  have htag := tag?_reads hs
  have hchallenges : challenges t = ms.filterMap cr? := by
    rw [challenges, htag, hcompleted]
    rfl
  have hone : (ms.filterMap cr?).length ≤ 1 := hreceived ▸ horderly.one (by rw [htag]; rfl)
  have hheld : phase.pending = none → heldBack = start.heldBack (payload? initial) := by
    intro hp
    rcases hpending with ⟨-, hheld⟩ | ⟨hheld, rfl, -⟩
    · exact hheld
    · exact hp.symm.trans hheld
  generalize hout : t.out = out at hover
  generalize hafter : t.after = s' at hover
  cases hover with
  | bye => exact ⟨by simp, by simp⟩
  | @initial cr payload hbye hcr hp =>
    refine ⟨fun y hy => ?_, by simp⟩
    obtain rfl := CoroutineState.yielded.inj hy
    rcases hpending with ⟨hnone, -⟩ | ⟨hpending, rfl, rfl⟩
    · simp [hp] at hnone
    · have hwrite := written?_reads (reads_ne hs).2 hout
      have hnext := hanswered.answersInitial (hchallenges.trans (crs_one hcr hone)) hwrite
      exact .reads (reads_answered ..) (.inl rfl) hsame hnext (.inl ⟨rfl, hp.symm.trans hpending⟩)
  | refuses => exact ⟨by simp, by simp⟩
  | @answers cr payload s' hbye hcr hp hsasl =>
    refine ⟨fun y hy => ?_, by simp⟩
    obtain rfl := CoroutineState.yielded.inj hy
    obtain ⟨hpayload, hrecord⟩ := resumeSasl_record hsasl
    obtain rfl := saslPayload_ok hpayload.symm
    have hwrite := written?_reads (reads_ne hs).2 hout
    have hnext := hanswered.answersNext (hchallenges.trans (crs_one hcr hone)) hwrite
    rw [← hsame.1, ← hrecord] at hnext
    have hkept := resumeSasl_same hsasl
    exact .reads (reads_answered ..) (.inl rfl) ⟨hkept.1.trans hsame.1, hkept.2.1.trans hsame.2⟩ hnext
      (.inl ⟨rfl, hheld hp⟩)
  | unexpectedOk => exact ⟨by simp, by simp⟩
  | refusesDone => exact ⟨by simp, by simp⟩
  | @succeeds tagged payload s' out r hbye hcr htagged hkind hok hsasl hstarts =>
    obtain ⟨hpayload, hrecord⟩ := resumeSasl_record hsasl
    have hsettled : settled tag ms = some .ok := by
      simp [settled, hbye, hcr, htagged, Verdict.ofTagged, hkind]
    have hends := horderly.ends tag htag (hreceived ▸ hsettled)
    have haccepted := accepted_of_ends hpayload.symm hends
    rw [haccepted] at hrecord
    have hquiet : written? t = none := by
      refine written?_none (.inr fun bytes => ?_)
      rw [hout]
      cases hstarts <;> simp [CoroutineState.tryOk]
    obtain ⟨m, hm, hmtagged⟩ := exists_of_lastSome htagged
    have hpending' := acceptsOk_pending hs hok
    have hsucceeds : Succeeds start es t :=
      ⟨⟨tag, initial, answers, hheld hpending' ▸ hanswered, m, hcompleted ▸ hm, tagged, hmtagged, hkind⟩,
        haccepted, by rw [hafter]; exact hrecord⟩
    have hdone : Authenticated start (es ++ [t]) :=
      ⟨es, t, [], rfl, hsucceeds, hchallenges.trans (crs_none hcr), hquiet, by simp⟩
    refine ⟨fun y hy => ?_, fun _ _ => hdone⟩
    cases hstarts with
    | asks hr =>
      obtain rfl := CoroutineState.yielded.inj hy
      exact .rounds rfl hr hdone
    | completes => simp [CoroutineState.tryOk] at hy
  | no => exact ⟨by simp, by simp⟩
  | bad => exact ⟨by simp, by simp⟩

theorem Place.step [LawfulEncoder Command] (hplace : Place start es s due)
    (hans : due.answeredBy arg = true)
    (he : s.resume (⟨f, []⟩ : Logged F) arg = (out, s', ⟨f', events⟩))
    (hr : s.Resumed f arg out s' f' events) :
    let t : AuthTurn K F := ⟨s, f, due, arg, (), out, s', f', events⟩
    Orderly t → (∀ y, out = .yielded y → Place start (es ++ [t]) s' y.request) ∧
      ∀ v, out = .complete (.ok v) → Authenticated start (es ++ [t]) := by
  intro t horderly
  have hcommand : s.state = .start ∨ (∃ ir pending, s.Asks ir pending) →
      (∀ bytes, out ≠ .yielded (.wantsWrite bytes)) → es.flatMap challenges = [] →
      es.filterMap written? = [] →
      (es ++ [t]).flatMap challenges = [] ∧ (es ++ [t]).filterMap written? = [] := by
    intro hst hout hchallenges hwritten
    have htag : t.before.tag? = none := by
      rcases hst with hst | ⟨ir, pending, hst⟩
      · simp only [t, tag?, hst]
      · exact tag?_asks hst
    constructor
    · rw [List.flatMap_append, List.flatMap_singleton, hchallenges, challenges_unread (.inl htag)]
      rfl
    · rw [List.filterMap_append, hwritten, List.filterMap_cons_none (written?_none (.inr hout))]
      rfl
  have hsilent : (∀ bytes, out ≠ .yielded (.wantsWrite bytes)) → t.completed = [] →
      ∀ {tag record initial heldBack answers},
        Answered start tag es record initial heldBack answers →
          Answered start tag (es ++ [t]) record initial heldBack answers :=
    fun hout hcompleted _ _ _ _ _ h => h.quiet (challenges_unread (.inr hcompleted))
      (written?_none (.inr hout))
  cases hr with
  | starts hs hsasl =>
    obtain ⟨hrecord, hsame, hchallenges, hwritten⟩ := hplace.at_start hs
    obtain ⟨hpayload, hrecord'⟩ := resumeSasl_record hsasl
    obtain rfl := saslPayload_ok hpayload.symm
    have hkept := resumeSasl_same hsasl
    obtain ⟨hchallenges', hwritten'⟩ := hcommand (.inl hs) (by simp) hchallenges hwritten
    refine ⟨fun y hy => ?_, by simp⟩
    obtain rfl := CoroutineState.yielded.inj hy
    rename_i s''
    have hrequest : s''.initialRequest = start.initialRequest := hkept.2.1.trans hsame.2
    refine .asks ?_ (by rw [hrecord] at hrecord'; exact hrecord') ⟨hkept.1.trans hsame.1, hrequest⟩
      hchallenges' hwritten'
    simp only [Asks, asked, inline, heldBack, hrequest]
  | unstarted => exact ⟨by simp, by simp⟩
  | invalid => exact ⟨by simp, by simp⟩
  | @sends ir pending bytes tag hs htag =>
    obtain ⟨initial, rfl, rfl, hrecord, hsame, hchallenges, hwritten⟩ := hplace.at_asks hs
    refine ⟨fun y hy => ?_, by simp⟩
    obtain rfl := CoroutineState.yielded.inj hy
    have hrounds : s.state ≠ .rounds := by
      have hstate : s.state = _ := hs
      simp [hstate]
    have hwrite : written? t = some (commandOctets start.framing (start.inline (payload? initial)) tag) :=
      hsame.1 ▸ written?_reads hrounds rfl
    have hnext := answered_sent hchallenges hwritten (challenges_unread (.inl (tag?_asks hs))) hwrite
    exact .reads (reads_sent ..) (.inl rfl) hsame (hrecord ▸ hnext) (.inr ⟨rfl, rfl, rfl⟩)
  | @waits tag past phase hs =>
    obtain ⟨initial, heldBack, answers, hsame, hanswered, hpending⟩ := hplace.at_reads hs
    refine ⟨fun y hy => ?_, by simp⟩
    obtain rfl := CoroutineState.yielded.inj hy
    exact .reads hs (.inr rfl) hsame (hsilent (by simp) rfl hanswered) hpending
  | eof => exact ⟨by simp, by simp⟩
  | refused => exact ⟨by simp, by simp⟩
  | @readsOn tag past phase data s' hs hne hms hsig hs' hsame' =>
    obtain ⟨initial, heldBack, answers, hsame, hanswered, hpending⟩ := hplace.at_reads hs
    refine ⟨fun y hy => ?_, by simp⟩
    obtain rfl := CoroutineState.yielded.inj hy
    have hunsaid : challenges t = [] := by
      have hcompleted : t.completed = messages (enqueueBytes f data) := Turn.completed_read rfl
      rw [challenges, show t.before.tag? = some tag from tag?_reads hs, hcompleted]
      exact List.filterMap_eq_nil_iff.mpr fun m hm =>
        (signal?_eq_none.mp (lastSome_eq_none.mp hsig m hm)).2.2
    have hnext := hanswered.quiet hunsaid (written?_none (.inr (by simp [t])))
    rw [hsame'] at hs' ⊢
    exact .reads hs' (.inr rfl) hsame hnext hpending
  | @ended tag past phase data out s' hs hne hms hsig hover =>
    exact Place.ended (t := t) hplace hs hover (Turn.completed_read rfl)
      (hplace.stage.received hs hans hne) horderly
  | @rounds _ out r _ _ hs h =>
    have hpast : Past t := ⟨rfl, challenges_unread (.inl (by simp only [t, tag?, hs])),
      written?_none (.inl hs)⟩
    have hdone := (hplace.at_rounds hs).goesOn hpast
    refine ⟨fun y hy => ?_, fun _ _ => hdone⟩
    obtain ⟨y', rfl, rfl⟩ := CoroutineState.tryOk_yielded hy
    exact .rounds rfl (h y' rfl).1 hdone

omit [Encoder Command] [Encoder AuthenticateData] [Fragmentizer F] [TryFrom Bytes Tag] in
theorem no_state (s : ImapAuth (Recorded K)) (text : String) : (s.no text).2.state = s.state := by
  unfold no
  split <;> rfl

/-- The resume in which the mechanism was told that the exchange is over, and did not refuse. -/
def Vouches (t : AuthTurn K F) : Prop :=
  told t = [.done] ∧
    ∀ err, (SaslCoroutine.resume t.before.mechanism.mechanism .done).1 ≠ .complete (.error err)

omit [TryFrom Bytes Tag] [Fragmentizer F] in
theorem ended_vouches {ms : List ServerMessage} (hs : t.before.Reads tag past phase)
    (hover : t.before.Over phase tag ms t.out t.after) :
    (t.after.state = .rounds ∨ ∃ v, t.out = .complete (.ok v)) → Vouches t := by
  have hrounds := (reads_ne hs).2
  generalize hout : t.out = out at hover
  generalize hafter : t.after = s' at hover
  cases hover with
  | @succeeds tagged payload s' out r hbye hcr htagged hkind hok hsasl hstarts =>
    intro _
    obtain ⟨hpayload, -⟩ := resumeSasl_record hsasl
    refine ⟨told_sasl hsasl (by rw [hafter]), fun err herr => ?_⟩
    rw [herr] at hpayload
    simp [saslPayload] at hpayload
  | initial => simp [answered]
  | answers => simp [answered]
  | bye => simp [hrounds]
  | refuses hbye hcr hpending hsasl => simp [(resumeSasl_same hsasl).2.2, hrounds]
  | unexpectedOk => simp [hrounds]
  | refusesDone hbye hcr htagged hkind hok hsasl => simp [(resumeSasl_same hsasl).2.2, hrounds]
  | no => simp [no_state, hrounds]
  | bad => simp [hrounds]

theorem Resumed.vouches (h : s.Resumed f arg out s' f' events) (hs : s.state ≠ .rounds) :
    (s'.state = .rounds ∨ ∃ v, out = .complete (.ok v)) →
      Vouches (⟨s, f, due, arg, (), out, s', f', events⟩ : AuthTurn K F) := by
  cases h with
  | starts => simp [asked]
  | unstarted _ hsasl => simp [(resumeSasl_same hsasl).2.2, hs]
  | invalid => simp [hs]
  | sends => simp [sent]
  | waits => simp [hs]
  | eof => simp [hs]
  | refused => simp [hs]
  | readsOn _ _ _ _ hs' => simp [(reads_ne hs').2]
  | ended hreads _ _ _ hover => exact ended_vouches (t := ⟨s, f, due, _, (), out, s', _, _⟩) hreads hover
  | rounds hst => exact absurd hst hs

end Step

/-! ### Runs -/

section Runs

variable [SaslCoroutine K] [Fragmentizer F] [TryFrom Bytes Tag] [Encoder Command]
  [Encoder AuthenticateData] [LawfulEncoder Command] [LawfulEncoder AuthenticateData]
  [LawfulAuthenticate] {start : ImapAuth (Recorded K)} {es : List (AuthTurn K F)} {t : AuthTurn K F}
  {f : F} {a b : Config (ImapAuth (Recorded K)) F}

/-- A run up to now. -/
structure Accounted (start : ImapAuth (Recorded K)) (es : List (AuthTurn K F))
    (a : Config (ImapAuth (Recorded K)) F) : Prop where
  place : ∀ due, a.due = some due → Place start es a.state due
  done : ∀ t ∈ es.getLast?, ∀ v, t.out = .complete (.ok v) → Authenticated start es

theorem accounted_run (hstart : start.state = .start) (hrecord : start.mechanism.record = [])
    (hrun : (imapAuth (Recorded K)).Runs start f es a) (horderly : ∀ t ∈ es, Orderly t) :
    Accounted start es a := by
  refine Run.history_under (P := fun es a => Accounted start es a) ?_ ?_ hrun horderly
  · refine ⟨fun due hdue => ?_, by simp⟩
    obtain rfl : Request.nothing = due := Option.some.inj hdue
    exact .start hstart hrecord ⟨rfl, rfl⟩ rfl rfl
  · intro es a t b h hstep hone
    obtain ⟨due, arg, env, out, s', f', events, hdue, hans, he, rfl, rfl⟩ :=
      (imapAuth (Recorded K)).step_cases hstep
    have hplace := h.place due hdue
    obtain ⟨out', s'', f'', events', he', hresumed⟩ := resume_spec hplace.stage hans a.frag
    cases he'.symm.trans he
    obtain ⟨hnext, hdone⟩ := hplace.step hans he hresumed hone
    refine ⟨fun due' hdue' => ?_, fun x hx v hv => ?_⟩
    · rcases out with y | r
      · obtain rfl : y.request = due' := Option.some.inj hdue'
        exact hnext y rfl
      · simp at hdue'
    · rw [List.getLast?_concat] at hx
      obtain rfl := Option.some.inj hx
      exact hdone v hv

/-- Behind the first success, whatever came before it, some resume vouches for it. -/
structure Vouched (es : List (AuthTurn K F)) (a : Config (ImapAuth (Recorded K)) F) : Prop where
  stage : ∀ due, a.due = some due → a.state.Stage due
  rounds : a.state.state = .rounds → ∃ e ∈ es, Vouches e
  done : ∀ t ∈ es.getLast?, ∀ v, t.out = .complete (.ok v) → ∃ e ∈ es, Vouches e

theorem vouched_run (hstart : start.state = .start)
    (hrun : (imapAuth (Recorded K)).Runs start f es a) : Vouched es a := by
  refine Run.history (P := fun es a => Vouched es a) ?_ ?_ hrun
  · refine ⟨fun due hdue => ?_, by simp [Coroutine.start, hstart], by simp⟩
    obtain rfl : Request.nothing = due := Option.some.inj hdue
    exact .start hstart
  · intro es a t b h hstep
    obtain ⟨due, arg, env, out, s', f', events, hdue, hans, he, ht, rfl⟩ :=
      (imapAuth (Recorded K)).step_cases hstep
    have hstage := h.stage due hdue
    obtain ⟨out', s'', f'', events', he', hresumed⟩ := resume_spec hstage hans a.frag
    cases he'.symm.trans he
    have hvouched : (s'.state = .rounds ∨ ∃ v, out = .complete (.ok v)) →
        ∃ e ∈ es ++ [t], Vouches e := by
      intro hx
      by_cases hs : a.state.state = .rounds
      · obtain ⟨e, hmem, hvouches⟩ := h.rounds hs
        exact ⟨e, List.mem_append_left _ hmem, hvouches⟩
      · exact ⟨t, by simp, ht ▸ hresumed.vouches hs hx⟩
    refine ⟨fun due' hdue' => ?_, fun hs => hvouched (.inl hs), fun x hx v hv => ?_⟩
    · rcases out with y | r
      · obtain rfl : y.request = due' := Option.some.inj hdue'
        exact hresumed.stage
      · simp at hdue'
    · rw [List.getLast?_concat] at hx
      obtain rfl := Option.some.inj hx
      rw [ht] at hv
      exact hvouched (.inr ⟨v, hv⟩)

end Runs

/-- Every challenge has an answer. -/
theorem Authenticated.count [SaslCoroutine K] [Encoder Command] [Encoder AuthenticateData]
    {start : ImapAuth (Recorded K)} {es : List (AuthTurn K F)} (h : Authenticated start es) :
    (es.filterMap written?).length = (es.flatMap challenges).length + 1 := by
  obtain ⟨pre, t, post, rfl, hsucceeds, hchallenges, hwritten, hpost⟩ := h
  obtain ⟨tag, initial, answers, hanswered, -⟩ := hsucceeds.answered
  obtain ⟨held, crs, hes, hheld, hcrs⟩ := hanswered.challenged
  have hlen := congrArg List.length hcrs
  have hnone : (t :: post).filterMap written? = [] := by
    rw [List.filterMap_cons_none hwritten]
    exact List.filterMap_eq_nil_iff.mpr fun e he => (hpost e he).written
  have hquiet : (t :: post).flatMap challenges = [] := by
    rw [List.flatMap_cons, hchallenges, List.nil_append]
    exact List.flatMap_eq_nil_iff.mpr fun e he => (hpost e he).challenged
  rw [List.filterMap_append, hnone, List.flatMap_append, hquiet, hanswered.written, hes]
  simp only [List.length_map] at hlen
  simp [hheld, hlen]

end ImapAuth

open ImapAuth

/-- A SASL coroutine succeeds only on a success that the mechanism accepted. When at most
one challenge comes in a read and the mechanism ends when it is told to, a run that
completes has told the mechanism all of the challenges and written all of its answers,
and the mechanism accepted the tagged OK behind them. And in any run that completes, a
mechanism that refuses until it has verified the server had verified it. -/
theorem auth_success_accepted {K F : Type} [SaslCoroutine K] [Fragmentizer F] [TryFrom Bytes Tag]
    [Encoder Command] [Encoder AuthenticateData] [LawfulEncoder Command]
    [LawfulEncoder AuthenticateData] [LawfulAuthenticate] {framing : SaslFraming} {mechanism : K}
    {opts : ImapAuthOptions} {f : F} {es : List (AuthTurn K F)} {t : AuthTurn K F}
    {b : Config (ImapAuth (Recorded K)) F} {capability : List Capability}
    (hrun : (imapAuth (Recorded K)).Runs (.new framing ⟨mechanism, []⟩ opts) f (es ++ [t]) b)
    (hout : t.out = .complete (.ok capability)) :
    ((∀ e ∈ es ++ [t], Orderly e) → Authenticated (.new framing ⟨mechanism, []⟩ opts) (es ++ [t])) ∧
      ∀ verified : K → Prop,
        (∀ k, ¬ verified k → ∃ err, (SaslCoroutine.resume k .done).1 = .complete (.error err)) →
        ∃ e ∈ es ++ [t], told e = [.done] ∧ verified e.before.mechanism.mechanism := by
  have hlast : t ∈ (es ++ [t]).getLast? := by rw [List.getLast?_concat]; rfl
  constructor
  · intro horderly
    exact (accounted_run rfl rfl hrun horderly).done t hlast capability hout
  · intro verified hrefuses
    obtain ⟨e, hmem, htold, haccepts⟩ := (vouched_run rfl hrun).done t hlast capability hout
    refine ⟨e, hmem, htold, ?_⟩
    by_contra hno
    obtain ⟨err, herr⟩ := hrefuses _ hno
    exact haccepts err herr

section Concrete

open Concrete

instance (x : SaslState) : Decidable (∀ y, x ≠ .yielded y) :=
  match x with
  | .yielded y => isFalse fun h => h y rfl
  | .complete _ => isTrue (by simp)

instance {K F : Type} [SaslCoroutine K] [Fragmentizer F] (t : AuthTurn K F) : Decidable (Orderly t) :=
  decidable_of_iff ((t.before.tag?.isSome → (t.received.filterMap ServerMessage.cr?).length ≤ 1) ∧
      ∀ tag ∈ t.before.tag?, settled tag t.received = some .ok →
        ∀ y, (SaslCoroutine.resume t.before.mechanism.mechanism .done).1 ≠ .yielded y)
    ⟨fun h => ⟨h.1, h.2⟩, fun h => ⟨h.one, h.ends⟩⟩

def successTable : List (Bytes × Response) :=
  [(ascii "+ \r\n", .commandContinuationRequest (.basic "")),
    (ascii "A1 OK done\r\n", .status (.tagged ⟨⟨ascii "A1"⟩, ⟨.ok, none, "done"⟩⟩))]

/-- PLAIN to its end, `challenge` in answer to AUTHENTICATE. -/
def playChallenged (challenge : Bytes) :=
  (imapAuth (Recorded Scripted)).play (Coroutine.start plainHeldBack
    (LineFragmentizer.empty : LineFragmentizer (decodeTable successTable)))
    ([none, some (ascii "A1"), none, some challenge, none, some (ascii "A1 OK done\r\n")].map (·, ()))

/-- The last resume of a run that completed, with those before it. -/
def authCompletion {K F : Type} (es : List (AuthTurn K F)) : Option (List (AuthTurn K F) × AuthTurn K F) :=
  es.getLast?.bind fun t =>
    match t.out with
    | .complete (.ok _) => some (es.dropLast, t)
    | _ => none

theorem authCompletion_eq {K F : Type} {es pre : List (AuthTurn K F)} {t : AuthTurn K F}
    (h : authCompletion es = some (pre, t)) : es = pre ++ [t] ∧ ∃ v, t.out = .complete (.ok v) := by
  obtain ⟨t', hlast, hmatch⟩ := Option.bind_eq_some_iff.mp h
  split at hmatch
  · rename_i v hout
    obtain ⟨rfl, rfl⟩ := Prod.mk.inj (Option.some.inj hmatch)
    exact ⟨(List.dropLast_append_getLast? t' hlast).symm, v, hout⟩
  · simp at hmatch

theorem auth_success_plain : ∃ es b, playChallenged (ascii "+ \r\n") = some (es, b) ∧
    Authenticated plainHeldBack es := by
  have hrun : (playChallenged (ascii "+ \r\n")).any (fun r =>
      (authCompletion r.1).isSome && decide (∀ t ∈ r.1, Orderly t)) = true := by decide +kernel
  obtain ⟨⟨es, b⟩, hplay, hboth⟩ := (Option.any_eq_true _ _).mp hrun
  rw [Bool.and_eq_true] at hboth
  obtain ⟨⟨pre, t⟩, hcompletion⟩ := Option.isSome_iff_exists.mp hboth.1
  obtain ⟨hsplit, v, hout⟩ := authCompletion_eq hcompletion
  have hes : es = pre ++ [t] := hsplit
  have horderly := of_decide_eq_true hboth.2
  have hruns := Coroutine.play_run _ hplay
  simp only [hes] at horderly hruns
  exact ⟨es, b, hplay, hes ▸ (auth_success_accepted hruns hout).1 horderly⟩

/-- Two continuation requests come in one read: the first is lost. -/
theorem auth_success_loses_challenge :
    ¬ ∀ (es : List (AuthTurn Scripted (LineFragmentizer (decodeTable successTable))))
        (t : AuthTurn Scripted (LineFragmentizer (decodeTable successTable)))
        (b : Config (ImapAuth (Recorded Scripted)) (LineFragmentizer (decodeTable successTable)))
        (capability : List Capability),
        (imapAuth (Recorded Scripted)).Runs plainHeldBack LineFragmentizer.empty (es ++ [t]) b →
          t.out = .complete (.ok capability) → Authenticated plainHeldBack (es ++ [t]) := by
  intro h
  have hrun : (playChallenged (ascii "+ \r\n+ \r\n")).any (fun r => (authCompletion r.1).isSome &&
      decide ((r.1.filterMap written?).length ≠ (r.1.flatMap challenges).length + 1)) = true := by
    decide +kernel
  obtain ⟨⟨es, b⟩, hplay, hboth⟩ := (Option.any_eq_true _ _).mp hrun
  rw [Bool.and_eq_true] at hboth
  obtain ⟨⟨pre, t⟩, hcompletion⟩ := Option.isSome_iff_exists.mp hboth.1
  obtain ⟨hsplit, v, hout⟩ := authCompletion_eq hcompletion
  have hes : es = pre ++ [t] := hsplit
  have hcount := of_decide_eq_true hboth.2
  have hruns := Coroutine.play_run _ hplay
  simp only [hes] at hcount hruns
  exact hcount (h pre t b v hruns hout).count

end Concrete
end IoImap
