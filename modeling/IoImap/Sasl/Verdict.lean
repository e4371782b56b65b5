import IoImap.Codec.CommandEncoder
import IoImap.Sasl.Exchange

/-!
# Completions of AUTHENTICATE

A read may complete AUTHENTICATE and bring more besides: a continuation request, a
BYE, a message that cannot be decoded. The send behind the coroutine drains the read
first, and the coroutine then goes by the last BYE, else by the last continuation
request, else by the last completion. So the first completion decides the run exactly
when nothing else in its read overrules it.
-/

namespace IoImap
open Fragmentizer ServerMessage Transition

/-- What a message says of the end of AUTHENTICATE. -/
inductive Verdict where
  | bye (text : String)
  | ok
  | no (text : String)
  | bad (text : String)
  deriving DecidableEq

def Verdict.ofTagged (tagged : Tagged) : Verdict :=
  match tagged.body.kind with
  | .ok => .ok
  | .no => .no tagged.body.text
  | .bad => .bad tagged.body.text

def ServerMessage.verdict? (tag : Tag) (m : ServerMessage) : Option Verdict :=
  (m.bye?.map fun bye => .bye bye.text).or ((m.ownTagged? tag).map .ofTagged)

theorem verdict?_of_signal {tag : Tag} {m : ServerMessage} (h : m.signal? tag = none) :
    m.verdict? tag = none := by
  obtain ⟨htagged, hbye, -⟩ := signal?_eq_none.mp h
  rw [verdict?, htagged, hbye]
  rfl

theorem verdict?_of_refusal {tag : Tag} {m : ServerMessage} {err : ImapSendError}
    (h : m.refusal? = some err) : m.verdict? tag = none := by
  refine verdict?_of_signal (Option.not_isSome_iff_eq_none.mp fun hsig => ?_)
  rw [refusal?_of_signal hsig] at h
  simp at h

namespace ImapAuth

open ImapSend (Accepted)

/-! ### What a read comes to -/

/-- The messages in front of the first that is refused. -/
def decodable (ms : List ServerMessage) : List ServerMessage := ms.takeWhile (·.refusal?.isNone)

theorem decodable_accepted {ms : List ServerMessage} (h : Accepted ms) : decodable ms = ms := by
  rw [decodable, List.takeWhile_eq_self_iff]
  intro m hm
  simp [h m hm]

theorem decodable_refused {pre post : List ServerMessage} {m : ServerMessage} {err : ImapSendError}
    (hpre : Accepted pre) (hm : m.refusal? = some err) : decodable (pre ++ m :: post) = pre := by
  have hall : ∀ x ∈ pre, x.refusal?.isNone = true := fun x hx => by simp [hpre x hx]
  rw [decodable, List.takeWhile_append_of_pos hall, List.takeWhile_cons_of_neg (by simp [hm])]
  simp

/-- What a coroutine goes by once it has read the messages, none when it goes on. -/
def settled (tag : Tag) (ms : List ServerMessage) : Option Verdict :=
  match lastSome bye? ms, lastSome cr? ms with
  | some bye, _ => some (.bye bye.text)
  | none, some _ => none
  | none, none => (lastSome (·.ownTagged? tag) ms).map .ofTagged

/-- Nothing in the read overrules its first completion. -/
def Stands (tag : Tag) (ms : List ServerMessage) : Verdict → Prop
  | .bye text => (lastSome bye? ms).map (·.text) = some text
  | v => lastSome bye? ms = none ∧ lastSome cr? ms = none ∧ lastSome (·.verdict? tag) ms = some v

theorem lastSome_verdict {tag : Tag} {ms : List ServerMessage} (hbye : lastSome bye? ms = none) :
    lastSome (·.verdict? tag) ms = (lastSome (·.ownTagged? tag) ms).map .ofTagged := by
  induction ms using List.reverseRecOn with
  | nil => rfl
  | append_singleton ms m ih =>
    rw [lastSome_concat, Option.or_eq_none_iff] at hbye
    rw [lastSome_concat, lastSome_concat, ih hbye.2, verdict?, hbye.1]
    cases m.ownTagged? tag <;> rfl

theorem stands_iff {tag : Tag} {ms : List ServerMessage} {v : Verdict} :
    Stands tag ms v ↔ settled tag ms = some v := by
  unfold settled
  cases hbye : lastSome bye? ms with
  | some bye => cases v <;> simp [Stands, hbye]
  | none =>
    have hverdict : lastSome (·.verdict? tag) ms = (lastSome (·.ownTagged? tag) ms).map .ofTagged :=
      lastSome_verdict hbye
    cases hcr : lastSome cr? ms with
    | some cr => cases v <;> simp [Stands, hbye, hcr]
    | none =>
      cases v with
      | bye text =>
        have hne : ∀ tagged, Verdict.ofTagged tagged ≠ .bye text := by
          intro tagged
          unfold Verdict.ofTagged
          split <;> simp
        simp [Stands, hbye, hne]
      | _ => simp [Stands, hbye, hcr, hverdict]

/-! ### What the mechanism is told -/

section Mechanism

variable {K : Type} [SaslCoroutine K] {s s' : ImapAuth (Recorded K)} {arg : SaslArg}

theorem resumeSasl_record {r : Except ImapAuthError (Option Bytes)} (h : s.resumeSasl arg = (r, s')) :
    r = saslPayload (SaslCoroutine.resume s.mechanism.mechanism arg).1 ∧
      s'.mechanism.record =
        s.mechanism.record ++ [(arg, (SaslCoroutine.resume s.mechanism.mechanism arg).1)] := by
  rw [resumeSasl, Prod.mk.injEq] at h
  obtain ⟨rfl, rfl⟩ := h
  exact ⟨rfl, rfl⟩

theorem resumeSasl_same {r : Except ImapAuthError (Option Bytes)} (h : s.resumeSasl arg = (r, s')) :
    s'.framing = s.framing ∧ s'.initialRequest = s.initialRequest ∧ s'.state = s.state := by
  rw [resumeSasl, Prod.mk.injEq] at h
  obtain ⟨-, rfl⟩ := h
  exact ⟨rfl, rfl, rfl⟩

theorem saslPayload_error {state : SaslState} {err : ImapAuthError} (h : saslPayload state = .error err) :
    ∃ e, err = .mechanism e := by
  unfold saslPayload at h
  split at h
  · simp at h
  · simp at h
  · simp at h
  · exact ⟨_, (Except.error.inj h).symm⟩

end Mechanism
/-! ### One resume -/

section Turn

variable {K F : Type}

abbrev AuthTurn (K F : Type) :=
  Turn (ImapAuth (Recorded K)) F Unit ImapYield (Except ImapAuthError (List Capability))

/-- The tag of AUTHENTICATE, while it is being carried out. -/
def tag? {K : Type} (s : ImapAuth K) : Option Tag :=
  match s.state with
  | .send send _ => send.tag?
  | .continue send => send.tag?
  | .start | .rounds => none

/-- The first completion that this resume decodes. -/
def verdict? (t : AuthTurn K F) : Option Verdict :=
  t.before.tag?.bind fun tag => t.completed.findSome? (·.verdict? tag)

/-- What this resume gave the mechanism. -/
def told (t : AuthTurn K F) : List SaslArg :=
  (t.after.mechanism.record.drop t.before.mechanism.record.length).map Prod.fst

/-- The completion decides what the resume comes to. -/
def Decides (t : AuthTurn K F) : Verdict → Prop
  | .bye text => t.out = .complete (.error (.bye text))
  | .ok => t.out = .complete (.error .unexpectedOk) ∨ told t = [.done] ∧
      ((∃ err, t.out = .complete (.error (.mechanism err))) ∨
        (∃ capability, t.out = .complete (.ok capability)) ∨
        t.out = .yielded .wantsTag ∧ t.after.state = .rounds)
  | .no text => t.out = .complete (.error (.no text)) ∨
      ∃ err, t.out = .complete (.error (.noWithError text err))
  | .bad text => t.out = .complete (.error (.bad text))

/-- A completion decides the resume that decodes it, and behind it the mechanism is told
nothing and nothing is written but CAPABILITY and ID. -/
structure Heeds [Encoder Command] (pre : List (AuthTurn K F)) (t : AuthTurn K F) : Prop where
  decides : ∀ v, verdict? t = some v → Decides t v
  ended : (∃ e ∈ pre, (verdict? e).isSome) → t.before.state = .rounds ∧ t.after.state = .rounds ∧
    told t = [] ∧ ∀ bytes, t.out = .yielded (.wantsWrite bytes) → AuthRounds.IsAsked bytes

/-- The first completion in the read is overruled by nothing that came with it. -/
def Alone [Fragmentizer F] (t : AuthTurn K F) : Prop :=
  ∀ tag ∈ t.before.tag?, ∀ v ∈ (decodable t.received).findSome? (·.verdict? tag),
    Accepted t.received ∧ Stands tag t.received v

theorem told_sasl [SaslCoroutine K] {t : AuthTurn K F} {arg : SaslArg} {s' : ImapAuth (Recorded K)}
    {r : Except ImapAuthError (Option Bytes)} (h : t.before.resumeSasl arg = (r, s'))
    (ha : t.after.mechanism = s'.mechanism) : told t = [arg] := by
  obtain ⟨-, hrecord⟩ := resumeSasl_record h
  rw [told, ha, hrecord, List.drop_left]
  rfl

theorem told_nothing {t : AuthTurn K F} (ha : t.after.mechanism = t.before.mechanism) : told t = [] := by
  rw [told, ha, List.drop_length]
  rfl

theorem tag?_reads {K : Type} {s : ImapAuth K} {tag : Tag} {past : List ServerMessage} {phase : Phase}
    (h : s.Reads tag past phase) : s.tag? = some tag := by
  cases h with
  | send hs h => simp only [tag?, hs, ImapSend.tag?, h.state]
  | «continue» hs h => simp only [tag?, hs, ImapSend.tag?, h.state]

theorem tag?_asks {K : Type} {s : ImapAuth K} {initialResponse pending : Option Bytes}
    (h : s.Asks initialResponse pending) : s.tag? = none := by
  have hstate : s.state = _ := h
  simp only [tag?, hstate, ImapSend.tag?, ImapSend.fresh]

theorem no_cases [SaslCoroutine K] (s : ImapAuth K) (text : String) :
    (s.no text).1 = .no text ∨ ∃ err, (s.no text).1 = .noWithError text err := by
  unfold no
  split
  · dsimp only
    split
    · exact .inr ⟨_, rfl⟩
    · exact .inl rfl
  · exact .inl rfl

theorem over_decides [SaslCoroutine K] [Encoder Command] [Encoder AuthenticateData] {t : AuthTurn K F}
    {phase : Phase} {tag : Tag} {ms : List ServerMessage}
    (hover : t.before.Over phase tag ms t.out t.after) (v : Verdict) :
    Decides t v ↔ settled tag ms = some v := by
  generalize hout : t.out = out at hover
  generalize hafter : t.after = s' at hover
  cases hover with
  | @bye bye hbye =>
    have hsettled : settled tag ms = some (.bye bye.text) := by simp [settled, hbye]
    rw [hsettled]
    cases v <;> simp [Decides, hout]
  | @initial cr payload hbye hcr hpending =>
    have hsettled : settled tag ms = none := by simp [settled, hbye, hcr]
    rw [hsettled]
    cases v <;> simp [Decides, hout]
  | @refuses cr err s' hbye hcr hpending hsasl =>
    have hsettled : settled tag ms = none := by simp [settled, hbye, hcr]
    have htold := told_sasl hsasl (congrArg _ hafter)
    obtain ⟨hpayload, -⟩ := resumeSasl_record hsasl
    obtain ⟨e, rfl⟩ := saslPayload_error hpayload.symm
    rw [hsettled]
    cases v <;> simp [Decides, hout, htold]
  | @answers cr payload s' hbye hcr hpending hsasl =>
    have hsettled : settled tag ms = none := by simp [settled, hbye, hcr]
    rw [hsettled]
    cases v <;> simp [Decides, hout]
  | @unexpectedOk tagged hbye hcr htagged hkind hok =>
    have hsettled : settled tag ms = some .ok := by
      simp [settled, hbye, hcr, htagged, Verdict.ofTagged, hkind]
    rw [hsettled]
    cases v <;> simp [Decides, hout]
  | @refusesDone tagged err s' hbye hcr htagged hkind hok hsasl =>
    have hsettled : settled tag ms = some .ok := by
      simp [settled, hbye, hcr, htagged, Verdict.ofTagged, hkind]
    have htold := told_sasl hsasl (congrArg _ hafter)
    obtain ⟨hpayload, -⟩ := resumeSasl_record hsasl
    obtain ⟨e, rfl⟩ := saslPayload_error hpayload.symm
    rw [hsettled]
    cases v <;> simp [Decides, hout, htold]
  | @succeeds tagged payload s' out r hbye hcr htagged hkind hok hsasl hstarts =>
    have hsettled : settled tag ms = some .ok := by
      simp [settled, hbye, hcr, htagged, Verdict.ofTagged, hkind]
    have htold := told_sasl hsasl (by rw [hafter])
    have hstate : t.after.state = .rounds := by rw [hafter]
    rw [hsettled]
    cases hstarts <;> cases v <;> simp [Decides, hout, htold, hstate, CoroutineState.tryOk]
  | @no tagged hbye hcr htagged hkind =>
    have hsettled : settled tag ms = some (.no tagged.body.text) := by
      simp [settled, hbye, hcr, htagged, Verdict.ofTagged, hkind]
    rw [hsettled]
    rcases no_cases t.before tagged.body.text with hno | ⟨err, hno⟩ <;> cases v <;>
      simp [Decides, hout, hno]
  | @bad tagged hbye hcr htagged hkind =>
    have hsettled : settled tag ms = some (.bad tagged.body.text) := by
      simp [settled, hbye, hcr, htagged, Verdict.ofTagged, hkind]
    rw [hsettled]
    cases v <;> simp [Decides, hout]

theorem decides_over {t : AuthTurn K F} {v : Verdict} (h : Decides t v) :
    (∃ r, t.out = .complete r) ∨ t.after.state = .rounds := by
  cases v with
  | bye text => exact .inl ⟨_, h⟩
  | ok =>
    rcases h with h | ⟨-, ⟨err, h⟩ | ⟨capability, h⟩ | ⟨-, h⟩⟩
    · exact .inl ⟨_, h⟩
    · exact .inl ⟨_, h⟩
    · exact .inl ⟨_, h⟩
    · exact .inr h
  | no text =>
    rcases h with h | ⟨err, h⟩
    · exact .inl ⟨_, h⟩
    · exact .inl ⟨_, h⟩
  | bad text => exact .inl ⟨_, h⟩

section Step

variable [SaslCoroutine K] [Fragmentizer F] [TryFrom Bytes Tag] [Encoder Command]
  [Encoder AuthenticateData] {s s' : ImapAuth (Recorded K)} {f f' : F} {due : Request}
  {arg : Option Bytes} {out : ImapAuthResult} {events : List FragmentizerEvent}

omit [SaslCoroutine K] [Fragmentizer F] [TryFrom Bytes Tag] [Encoder AuthenticateData] in
theorem Stage.due_reads {tag : Tag} {past : List ServerMessage} {phase : Phase} (h : s.Stage due)
    (hs : s.Reads tag past phase) : due = .nothing ∨ due = .read := by
  cases h with
  | start hst => cases hs with
    | send hs => simp [hst] at hs
    | «continue» hs => simp [hst] at hs
  | asks hst =>
    have htag := tag?_reads hs
    rw [tag?_asks hst] at htag
    simp at htag
  | reads _ hdue => exact hdue
  | rounds hst => cases hs with
    | send hs => simp [hst] at hs
    | «continue» hs => simp [hst] at hs

omit [SaslCoroutine K] [TryFrom Bytes Tag] [Encoder AuthenticateData] in
theorem Stage.received {tag : Tag} {past : List ServerMessage} {phase : Phase} {data : Bytes}
    {out : ImapAuthResult} (h : s.Stage due) (hs : s.Reads tag past phase)
    (hans : due.answeredBy (some data) = true) (hne : data ≠ []) :
    (⟨s, f, due, some data, (), out, s', f', events⟩ : AuthTurn K F).received =
      messages (enqueueBytes f data) := by
  have hdue : due = .read := by
    rcases h.due_reads hs with rfl | hdue
    · simp [Request.answeredBy] at hans
    · exact hdue
  rw [Turn.received, Turn.answer, hdue, Request.octets_read hne]
  simp

omit [SaslCoroutine K] [TryFrom Bytes Tag] [Encoder Command] [Encoder AuthenticateData] in
theorem decides_of_unseen {t : AuthTurn K F} (hseen : ∀ tag ∈ t.before.tag?,
      t.completed.findSome? (·.verdict? tag) = none ∧
        (decodable t.received).findSome? (·.verdict? tag) = none) :
    (∀ v, verdict? t = some v → Decides t v) ↔ Alone t := by
  have hnone : verdict? t = none := Option.bind_eq_none_iff.mpr fun tag htag => (hseen tag htag).1
  constructor
  · intro _ tag htag v hv
    rw [(hseen tag htag).2] at hv
    simp at hv
  · intro _ v hv
    rw [hnone] at hv
    simp at hv

/-- One resume: what was decoded decides just when nothing overrules it. -/
theorem Resumed.decides (h : s.Resumed f arg out s' f' events) (hstage : s.Stage due)
    (hans : due.answeredBy arg = true) :
    let t : AuthTurn K F := ⟨s, f, due, arg, (), out, s', f', events⟩
    (∀ v, verdict? t = some v → Decides t v) ↔ Alone t := by
  intro t
  have huntagged : s.tag? = none → ((∀ v, verdict? t = some v → Decides t v) ↔ Alone t) := by
    intro hnone
    refine decides_of_unseen fun tag htag => ?_
    rw [hnone] at htag
    simp at htag
  have hsilent : due.octets arg = [] → events = [] →
      ((∀ v, verdict? t = some v → Decides t v) ↔ Alone t) := by
    intro hanswer hevents
    refine decides_of_unseen fun tag htag => ?_
    have hcompleted : t.completed = [] := Turn.completed_silent hevents
    have hreceived : t.received = [] := by rw [Turn.received, Turn.answer, hanswer]; rfl
    rw [hcompleted, hreceived]
    exact ⟨rfl, rfl⟩
  cases h with
  | starts hs => exact huntagged (by simp only [tag?, hs])
  | unstarted hs => exact huntagged (by simp only [tag?, hs])
  | invalid hs => exact huntagged (tag?_asks hs)
  | sends hs => exact huntagged (tag?_asks hs)
  | waits => exact hsilent (Request.octets_none due) rfl
  | eof => exact hsilent (Request.octets_eof due) rfl
  | @refused tag past phase data f' pre post m err hs hne hms hpre hm =>
    have hcompleted : t.completed = pre ++ [m] := Turn.completed_read rfl
    have hreceived : t.received = pre ++ m :: post := (hstage.received hs hans hne).trans hms
    have hseen : t.completed.findSome? (·.verdict? tag) = pre.findSome? (·.verdict? tag) := by
      rw [hcompleted, List.findSome?_append]
      simp [verdict?_of_refusal hm]
    have hnot : ¬ Accepted t.received := by
      intro hall
      have hnone := hall m (by rw [hreceived]; simp)
      simp [hm] at hnone
    have htag : t.before.tag? = some tag := tag?_reads hs
    cases hv : pre.findSome? (·.verdict? tag) with
    | none =>
      refine decides_of_unseen fun tag' htag' => ?_
      obtain rfl : tag = tag' := Option.some.inj (htag.symm.trans htag')
      rw [hseen, hreceived, decodable_refused hpre hm]
      exact ⟨hv, hv⟩
    | some v =>
      have hverdict : verdict? t = some v := by
        rw [verdict?, htag, Option.bind_some, hseen, hv]
      constructor
      · intro hdecides
        have hfails : Decides t v := hdecides v hverdict
        cases v <;> simp [Decides, t] at hfails
      · intro halone
        have hv' : v ∈ (decodable t.received).findSome? (·.verdict? tag) := by
          rw [hreceived, decodable_refused hpre hm]
          exact hv
        exact absurd (halone tag htag v hv').1 hnot
  | @readsOn tag past phase data s' hs hne hms hsig =>
    have hnone : ∀ m ∈ messages (enqueueBytes f data), m.verdict? tag = none :=
      fun m hm => verdict?_of_signal (lastSome_eq_none.mp hsig m hm)
    refine decides_of_unseen fun tag' htag' => ?_
    obtain rfl : tag = tag' := Option.some.inj ((tag?_reads hs).symm.trans htag')
    have hcompleted : t.completed = messages (enqueueBytes f data) := Turn.completed_read rfl
    have hreceived : t.received = messages (enqueueBytes f data) := hstage.received hs hans hne
    rw [hcompleted, hreceived, decodable_accepted hms]
    exact ⟨List.findSome?_eq_none_iff.mpr hnone, List.findSome?_eq_none_iff.mpr hnone⟩
  | @ended tag past phase data out s' hs hne hms hsig hover =>
    have hcompleted : t.completed = messages (enqueueBytes f data) := Turn.completed_read rfl
    have hreceived : t.received = messages (enqueueBytes f data) := hstage.received hs hans hne
    have htag : t.before.tag? = some tag := tag?_reads hs
    have hverdict : verdict? t = (messages (enqueueBytes f data)).findSome? (·.verdict? tag) := by
      rw [verdict?, htag, Option.bind_some, hcompleted]
    have hdecides : ∀ v, Decides t v ↔ Stands tag t.received v := by
      intro v
      rw [hreceived, stands_iff]
      exact over_decides (t := t) hover v
    rw [Alone, hverdict]
    constructor
    · intro hall tag' htag' v hv
      obtain rfl : tag = tag' := Option.some.inj (htag.symm.trans htag')
      rw [hreceived, decodable_accepted hms] at hv
      exact ⟨hreceived ▸ hms, (hdecides v).mp (hall v hv)⟩
    · intro halone v hv
      refine (hdecides v).mpr (halone tag htag v ?_).2
      rw [hreceived, decodable_accepted hms]
      exact hv
  | rounds hs => exact huntagged (by simp only [tag?, hs])

omit [SaslCoroutine K] [Fragmentizer F] [TryFrom Bytes Tag] [Encoder AuthenticateData] in
theorem Stage.rounds_conversing {K : Type} {s : ImapAuth K} (h : s.Stage due)
    (hs : s.state = .rounds) : s.rounds.Conversing due := by
  cases h with
  | start hst => simp [hst] at hs
  | asks hst =>
    have hstate : s.state = _ := hst
    simp [hstate] at hs
  | reads hst => cases hst with
    | send hst => simp [hst] at hs
    | «continue» hst => simp [hst] at hs
  | rounds _ h => exact h

/-- The rounds go on as rounds, and do not touch the mechanism. -/
theorem Stage.rounds_over [LawfulEncoder Command] (hstage : s.Stage due) (hs : s.state = .rounds)
    (hans : due.answeredBy arg = true)
    (he : s.resume (⟨f, []⟩ : Logged F) arg = (out, s', ⟨f', events⟩)) :
    s'.state = .rounds ∧ s'.mechanism = s.mechanism ∧
      ∀ bytes, out = .yielded (.wantsWrite bytes) → AuthRounds.IsAsked bytes := by
  simp only [resume, hs] at he
  obtain ⟨⟨r, rounds, l⟩, hr⟩ : ∃ x, s.rounds.resume (⟨f, []⟩ : Logged F) arg = x := ⟨_, rfl⟩
  rw [hr, ofRounds] at he
  cases he
  refine ⟨rfl, rfl, fun bytes hbytes => ?_⟩
  obtain ⟨y, rfl, rfl⟩ := CoroutineState.tryOk_yielded hbytes
  exact ((hstage.rounds_conversing hs).step hans hr).2 bytes rfl

end Step

/-! ### Runs -/

/-- Between two resumes: the coroutine stands somewhere, in the rounds once AUTHENTICATE is over. -/
structure Settling (es : List (AuthTurn K F)) (a : Config (ImapAuth (Recorded K)) F) [Encoder Command] :
    Prop where
  stage : ∀ due, a.due = some due → a.state.Stage due
  ended : (∃ e ∈ es, (verdict? e).isSome) → ∀ due, a.due = some due → a.state.state = .rounds

theorem settling_step [SaslCoroutine K] [Fragmentizer F] [TryFrom Bytes Tag] [Encoder Command]
    [Encoder AuthenticateData] [LawfulEncoder Command] [LawfulEncoder AuthenticateData]
    [LawfulAuthenticate] {es : List (AuthTurn K F)} {t : AuthTurn K F}
    {a b : Config (ImapAuth (Recorded K)) F} (h : Settling es a)
    (hstep : (imapAuth (Recorded K)).Step a t b) :
    (Heeds es t ↔ Alone t) ∧ (Alone t → Settling (es ++ [t]) b) := by
  obtain ⟨due, arg, env, out, s', f', events, hdue, hans, he, rfl, rfl⟩ :=
    (imapAuth (Recorded K)).step_cases hstep
  have hstage := h.stage due hdue
  obtain ⟨out', s'', f'', events', he', hresumed⟩ := resume_spec hstage hans a.frag
  cases he'.symm.trans he
  have hdecides := hresumed.decides hstage hans
  have hover : (∃ e ∈ es, (verdict? e).isSome) → a.state.state = .rounds := fun hx => h.ended hx due hdue
  refine ⟨⟨fun hheeds => hdecides.mp hheeds.decides, fun halone => ⟨hdecides.mpr halone, fun hx => ?_⟩⟩,
    fun halone => ⟨fun due' hdue' => ?_, fun hx due' hdue' => ?_⟩⟩
  · obtain ⟨hstate, hmechanism, hwrites⟩ := hstage.rounds_over (hover hx) hans he
    exact ⟨hover hx, hstate, told_nothing hmechanism, hwrites⟩
  · rcases out with y | r
    · obtain rfl : y.request = due' := Option.some.inj hdue'
      exact hresumed.stage
    · simp at hdue'
  · obtain ⟨e, hmem, hverdict⟩ := hx
    rcases List.mem_append.mp hmem with hmem | hmem
    · exact (hstage.rounds_over (hover ⟨e, hmem, hverdict⟩) hans he).1
    · obtain rfl := List.mem_singleton.mp hmem
      obtain ⟨v, hv⟩ := Option.isSome_iff_exists.mp hverdict
      rcases decides_over (hdecides.mpr halone v hv) with ⟨r, hr⟩ | hstate
      · obtain rfl : out = .complete r := hr
        simp at hdue'
      · exact hstate

end Turn
end ImapAuth

open ImapAuth

/-- In a run of a SASL coroutine every completion of AUTHENTICATE decides what the run
comes to, and nothing of the mechanism is sent behind it, exactly when no read brings
anything else that overrules the completion. -/
theorem auth_heeds_completion_iff {K F : Type} [SaslCoroutine K] [Fragmentizer F] [TryFrom Bytes Tag]
    [Encoder Command] [Encoder AuthenticateData] [LawfulEncoder Command]
    [LawfulEncoder AuthenticateData] [LawfulAuthenticate] {framing : SaslFraming}
    {mechanism : Recorded K} {opts : ImapAuthOptions} {f : F} {es : List (AuthTurn K F)}
    {b : Config (ImapAuth (Recorded K)) F}
    (hrun : (imapAuth (Recorded K)).Runs (.new framing mechanism opts) f es b) :
    Always Heeds es ↔ ∀ t ∈ es, Alone t := by
  refine Run.always_iff (P := fun es a => Settling es a) ⟨fun due hdue => ?_, fun hx => ?_⟩
    (fun es a t b h hstep => settling_step h hstep) hrun
  · obtain rfl : Request.nothing = due := Option.some.inj hdue
    exact .start rfl
  · simp at hx

section Concrete

open Concrete

instance (tag : Tag) (ms : List ServerMessage) (v : Verdict) : Decidable (Stands tag ms v) :=
  match v with
  | .bye _ => inferInstanceAs (Decidable (_ = _))
  | .ok | .no _ | .bad _ => inferInstanceAs (Decidable (_ ∧ _ ∧ _))

instance {K F : Type} [Fragmentizer F] (t : AuthTurn K F) : Decidable (Alone t) :=
  inferInstanceAs (Decidable (∀ tag ∈ t.before.tag?, ∀ v ∈ (decodable t.received).findSome? _, _ ∧ _))

def refusalTable : List (Bytes × Response) :=
  [(ascii "+ \r\n", .commandContinuationRequest (.basic "")),
    (ascii "A1 NO denied\r\n", .status (.tagged ⟨⟨ascii "A1"⟩, ⟨.no, none, "denied"⟩⟩))]

/-- PLAIN, its credentials held back for the empty challenge. -/
def plainHeldBack : ImapAuth (Recorded Scripted) :=
  .new .plain ⟨SaslMechanisms.plain ⟨none, "alice", "secret"⟩, []⟩ ⟨false, false, none⟩

/-- PLAIN up to the reads that `reads` answers. -/
def playPlain (reads : List (Option Bytes)) :=
  (imapAuth (Recorded Scripted)).play (Coroutine.start plainHeldBack
    (LineFragmentizer.empty : LineFragmentizer (decodeTable refusalTable)))
    (([none, some (ascii "A1"), none] ++ reads).map (·, ()))

theorem auth_heeds_refusal : ∃ es b,
    playPlain [some (ascii "+ \r\n"), none, some (ascii "A1 NO denied\r\n")] = some (es, b) ∧
      Always Heeds es := by
  have hrun : (playPlain [some (ascii "+ \r\n"), none, some (ascii "A1 NO denied\r\n")]).any
      (fun r => decide (∀ t ∈ r.1, Alone t)) = true := by decide +kernel
  obtain ⟨⟨es, b⟩, hplay, halone⟩ := (Option.any_eq_true _ _).mp hrun
  have hiff := auth_heeds_completion_iff (Coroutine.play_run _ hplay)
  exact ⟨es, b, hplay, hiff.mpr (of_decide_eq_true halone)⟩

/-- The continuation request and the refusal come in one read. -/
theorem auth_overlooks_refusal :
    ¬ ∀ (es : List (AuthTurn Scripted (LineFragmentizer (decodeTable refusalTable))))
        (b : Config (ImapAuth (Recorded Scripted)) (LineFragmentizer (decodeTable refusalTable))),
        (imapAuth (Recorded Scripted)).Runs plainHeldBack LineFragmentizer.empty es b →
          Always Heeds es := by
  intro h
  have hrun : (playPlain [some (ascii "+ \r\nA1 NO denied\r\n")]).any
      (fun r => decide (¬ ∀ t ∈ r.1, Alone t)) = true := by decide +kernel
  obtain ⟨⟨es, b⟩, hplay, hno⟩ := (Option.any_eq_true _ _).mp hrun
  have hes := Coroutine.play_run _ hplay
  exact of_decide_eq_true hno ((auth_heeds_completion_iff hes).mp (h es b hes))

end Concrete
end IoImap
