import IoImap.Sasl.Resume
import IoImap.Send.Listening

/-!
# The AUTHENTICATE exchange

One resume of a SASL coroutine, case by case. AUTHENTICATE and the answers to
challenges have no literals: each of them is one write, and the first read in which
the server says anything about the exchange ends the send that reads it.
-/

namespace IoImap
open Fragmentizer ServerMessage

/-! ### The rounds -/

namespace AuthRounds

/-- Between two resumes of the rounds: CAPABILITY or ID is on its way. -/
def Conversing [Encoder Command] (r : AuthRounds) (due : Request) : Prop :=
  match r.round with
  | .none => due = .nothing
  | .capability capability => ImapSend.Conversing .capability capability due
  | .id id => ∃ parameters, ImapSend.Conversing (.id parameters) id due

/-- The octets are written for CAPABILITY or ID. -/
def IsAsked [Encoder Command] (bytes : Bytes) : Prop :=
  ImapSend.IsPiece .capability bytes ∨ ∃ parameters, ImapSend.IsPiece (.id parameters) bytes

/-- The rounds begin with a request for a tag, or there are none. -/
inductive Starts [Encoder Command] : AuthRoundsResult → AuthRounds → Prop where
  | asks {r : AuthRounds} (h : r.Conversing .tag) : Starts (.yielded .wantsTag) r
  | completes {r : AuthRounds} (capability : List Capability) : Starts (.complete (.ok capability)) r

variable {F : Type} [Fragmentizer F] [TryFrom Bytes Tag] [Encoder Command]

theorem thenId_starts (r : AuthRounds) (f : F) : ∃ out r', r.thenId f = (out, r', f) ∧ Starts out r' := by
  unfold thenId wantsId
  split
  · rename_i id r' hid
    split at hid
    · simp at hid
    · cases hid
      exact ⟨_, _, rfl, .asks ⟨_, ImapSend.conversing_asked _⟩⟩
  · exact ⟨_, _, rfl, .completes _⟩

theorem start_starts (r : AuthRounds) (newCapability : Option (Vec1 Capability)) (f : F) :
    ∃ out r', r.start newCapability f = (out, r', f) ∧ Starts out r' := by
  unfold start
  simp only [wantsCapability]
  split
  · rename_i capability hw
    split at hw
    · obtain rfl := Option.some.inj hw
      exact ⟨_, _, rfl, .asks (ImapSend.conversing_asked .capability)⟩
    · simp at hw
  · exact thenId_starts _ f

variable [LawfulEncoder Command] {r r' : AuthRounds} {due : Request} {f : F}
  {log : List FragmentizerEvent} {l : Logged F} {arg : Option Bytes} {y : ImapYield}

omit [Fragmentizer F] [TryFrom Bytes Tag] [LawfulEncoder Command] in
theorem Starts.step (h : Starts (.yielded y) r) :
    r.Conversing y.request ∧ ∀ bytes, y = .wantsWrite bytes → IsAsked bytes := by
  cases h with
  | asks h => exact ⟨h, by simp⟩

theorem Conversing.step (h : r.Conversing due) (hans : due.answeredBy arg = true)
    (he : r.resume (⟨f, log⟩ : Logged F) arg = (.yielded y, r', l)) :
    r'.Conversing y.request ∧ ∀ bytes, y = .wantsWrite bytes → IsAsked bytes := by
  rw [resume] at he
  rw [Conversing] at h
  cases hr : r.round with
  | none =>
    rw [hr] at he
    simp [complete] at he
  | capability capability =>
    rw [hr] at h he
    obtain ⟨⟨y' | err | v, capability', l'⟩, hc⟩ :
      ∃ x, capability.resume (⟨f, log⟩ : Logged F) arg = x := ⟨_, rfl⟩
    all_goals simp only [resumeCapability, hc] at he
    · cases he
      obtain ⟨hnext, hwrites⟩ := h.step hans (ImapCapabilityGet.resume_yielded hc)
      exact ⟨hnext, fun bytes hy => .inl (hwrites bytes hy)⟩
    · simp at he
    · obtain ⟨out, r'', hthen, hstarts⟩ := thenId_starts { r with observed := v } l'
      cases hthen.symm.trans he
      exact hstarts.step
  | id id =>
    rw [hr] at h he
    obtain ⟨parameters, h⟩ := h
    obtain ⟨⟨y' | err | v, id', l'⟩, hid⟩ : ∃ x, id.resume (⟨f, log⟩ : Logged F) arg = x := ⟨_, rfl⟩
    all_goals simp only [resumeId, hid] at he
    · cases he
      obtain ⟨hnext, hwrites⟩ := h.step hans (commandResume_yielded hid)
      exact ⟨⟨parameters, hnext⟩, fun bytes hy => .inr ⟨parameters, hwrites bytes hy⟩⟩
    · simp at he
    · simp [complete] at he

end AuthRounds

namespace ImapAuth

open ImapSend (Accepted)

variable {K : Type}

/-! ### The end of an exchange -/

/-- AUTHENTICATE, and the answer to a challenge, as they are written. -/
def commandOctets [Encoder Command] (framing : SaslFraming) (initialResponse : Option Bytes) (tag : Tag) :
    Bytes :=
  Encoder.octets (⟨tag, .authenticate framing.mechanism initialResponse⟩ : Command)

def dataOctets [Encoder AuthenticateData] (payload : Bytes) : Bytes :=
  Encoder.octets (AuthenticateData.continue payload)

/-- AUTHENTICATE has been written, the initial response held back or not. -/
def sent (s : ImapAuth K) (initialResponse pending : Option Bytes) (tag : Tag) : ImapAuth K :=
  { s with
    state := .send (.receive ⟨tag, .authenticate s.framing.mechanism initialResponse⟩ tag) pending }

/-- The answer to a challenge has been written. -/
def answered (s : ImapAuth K) (payload : Bytes) (tag : Tag) : ImapAuth K :=
  { s with state := .continue (.receive (.continue payload) tag) }

/-- What is held back, and whether a completion may be a success. -/
structure Phase where
  pending : Option Bytes
  acceptsOk : Bool

/-- The exchange with this tag is read, of which `past` has come so far. -/
inductive Reads (s : ImapAuth K) (tag : Tag) (past : List ServerMessage) : Phase → Prop where
  | send {send : ImapSend Command} {pending : Option Bytes} {message : Command}
      (hs : s.state = .send send pending) (h : send.Listening ⟨message, tag⟩ past) :
      Reads s tag past ⟨pending, s.framing.acceptsEarlyOk && pending.isNone⟩
  | continue {send : ImapSend AuthenticateData} {message : AuthenticateData}
      (hs : s.state = .continue send) (h : send.Listening ⟨message, tag⟩ past) :
      Reads s tag past ⟨none, true⟩

theorem reads_sent (s : ImapAuth K) (initialResponse pending : Option Bytes) (tag : Tag) :
    (s.sent initialResponse pending tag).Reads tag []
      ⟨pending, s.framing.acceptsEarlyOk && pending.isNone⟩ :=
  .send rfl (ImapSend.listening_receive _ tag)

theorem reads_answered (s : ImapAuth K) (payload : Bytes) (tag : Tag) :
    (s.answered payload tag).Reads tag [] ⟨none, true⟩ :=
  .continue rfl (ImapSend.listening_receive _ tag)

section Over

variable [SaslCoroutine K] [Encoder Command] [Encoder AuthenticateData]

/-- What the messages that end an exchange come to. -/
inductive Over (s : ImapAuth K) (phase : Phase) (tag : Tag) (ms : List ServerMessage) :
    ImapAuthResult → ImapAuth K → Prop where
  | bye {bye : Bye} (hbye : lastSome bye? ms = some bye) :
      Over s phase tag ms (.complete (.error (.bye bye.text))) s
  | initial {cr : CommandContinuationRequest} {payload : Bytes} (hbye : lastSome bye? ms = none)
      (hcr : lastSome cr? ms = some cr) (hpending : phase.pending = some payload) :
      Over s phase tag ms (.yielded (.wantsWrite (dataOctets payload))) (s.answered payload tag)
  | refuses {cr : CommandContinuationRequest} {err : ImapAuthError} {s' : ImapAuth K}
      (hbye : lastSome bye? ms = none) (hcr : lastSome cr? ms = some cr)
      (hpending : phase.pending = none)
      (hsasl : s.resumeSasl (.input (extractChallenge s.framing cr)) = (.error err, s')) :
      Over s phase tag ms (.complete (.error err)) s'
  | answers {cr : CommandContinuationRequest} {payload : Option Bytes} {s' : ImapAuth K}
      (hbye : lastSome bye? ms = none) (hcr : lastSome cr? ms = some cr)
      (hpending : phase.pending = none)
      (hsasl : s.resumeSasl (.input (extractChallenge s.framing cr)) = (.ok payload, s')) :
      Over s phase tag ms (.yielded (.wantsWrite (dataOctets (payload.getD []))))
        (s'.answered (payload.getD []) tag)
  | unexpectedOk {tagged : Tagged} (hbye : lastSome bye? ms = none) (hcr : lastSome cr? ms = none)
      (htagged : lastSome (·.ownTagged? tag) ms = some tagged) (hkind : tagged.body.kind = .ok)
      (hok : phase.acceptsOk = false) : Over s phase tag ms (.complete (.error .unexpectedOk)) s
  | refusesDone {tagged : Tagged} {err : ImapAuthError} {s' : ImapAuth K}
      (hbye : lastSome bye? ms = none) (hcr : lastSome cr? ms = none)
      (htagged : lastSome (·.ownTagged? tag) ms = some tagged) (hkind : tagged.body.kind = .ok)
      (hok : phase.acceptsOk = true) (hsasl : s.resumeSasl .done = (.error err, s')) :
      Over s phase tag ms (.complete (.error err)) s'
  | succeeds {tagged : Tagged} {payload : Option Bytes} {s' : ImapAuth K} {out : AuthRoundsResult}
      {r : AuthRounds}
      (hbye : lastSome bye? ms = none) (hcr : lastSome cr? ms = none)
      (htagged : lastSome (·.ownTagged? tag) ms = some tagged) (hkind : tagged.body.kind = .ok)
      (hok : phase.acceptsOk = true) (hsasl : s.resumeSasl .done = (.ok payload, s'))
      (hstarts : AuthRounds.Starts out r) :
      Over s phase tag ms (out.tryOk id .ofRounds .ok) { s' with state := .rounds, rounds := r }
  | no {tagged : Tagged} (hbye : lastSome bye? ms = none) (hcr : lastSome cr? ms = none)
      (htagged : lastSome (·.ownTagged? tag) ms = some tagged) (hkind : tagged.body.kind = .no) :
      Over s phase tag ms (.complete (.error (s.no tagged.body.text).1)) (s.no tagged.body.text).2
  | bad {tagged : Tagged} (hbye : lastSome bye? ms = none) (hcr : lastSome cr? ms = none)
      (htagged : lastSome (·.ownTagged? tag) ms = some tagged) (hkind : tagged.body.kind = .bad) :
      Over s phase tag ms (.complete (.error (.bad tagged.body.text))) s

variable {F : Type} [Fragmentizer F] [TryFrom Bytes Tag] [LawfulAuthenticate] {s : ImapAuth K}

omit [SaslCoroutine K] in
theorem wantsContinue_eq [LawfulEncoder AuthenticateData] (s : ImapAuth K) (payload : Bytes) (tag : Tag)
    (f : F) : s.wantsContinue payload tag f =
      (.yielded (.wantsWrite (dataOctets payload)), s.answered payload tag, f) := by
  have hplain := (LawfulAuthenticate.data (AuthenticateData.continue payload)).plain
  obtain ⟨hwrite, hreceive⟩ := ImapSend.new_plain hplain tag
  rw [wantsContinue, ImapSend.new_resume, hwrite, hreceive]
  rfl

omit [LawfulAuthenticate] in
theorem succeed_over {phase : Phase} {tag : Tag} {ms : List ServerMessage} {tagged : Tagged}
    {code : Option Code} {data : List Data} {untagged : List StatusBody} (f : F)
    (hbye : lastSome bye? ms = none) (hcr : lastSome cr? ms = none)
    (htagged : lastSome (·.ownTagged? tag) ms = some tagged) (hkind : tagged.body.kind = .ok)
    (hok : phase.acceptsOk = true) : ∃ out s', s.succeed code data untagged f = (out, s', f) ∧
      s.Over phase tag ms out s' := by
  rw [succeed]
  rcases hsasl : s.resumeSasl .done with ⟨err | payload, s'⟩
  · exact ⟨_, _, rfl, .refusesDone hbye hcr htagged hkind hok hsasl⟩
  · obtain ⟨out, r, hstart, hstarts⟩ := AuthRounds.start_starts s'.rounds
      (ImapCapabilityGet.newCapability code data untagged) f
    refine ⟨_, _, ?_, .succeeds hbye hcr htagged hkind hok hsasl hstarts⟩
    simp only [hstart]
    rfl

theorem challenged_over [LawfulEncoder AuthenticateData] {phase : Phase} {tag : Tag}
    {ms : List ServerMessage} {cr : CommandContinuationRequest} (f : F)
    (hbye : lastSome bye? ms = none) (hcr : lastSome cr? ms = some cr) (hpending : phase.pending = none) :
    ∃ out s', s.challenged cr tag f = (out, s', f) ∧ s.Over phase tag ms out s' := by
  rw [challenged]
  rcases hsasl : s.resumeSasl (.input (extractChallenge s.framing cr)) with ⟨err | payload, s'⟩
  · exact ⟨_, _, rfl, .refuses hbye hcr hpending hsasl⟩
  · exact ⟨_, _, wantsContinue_eq s' (payload.getD []) tag f, .answers hbye hcr hpending hsasl⟩

omit [SaslCoroutine K] [Encoder Command] [Encoder AuthenticateData] [Fragmentizer F]
  [TryFrom Bytes Tag] [LawfulAuthenticate] in
theorem exists_tagged {tag : Tag} {ms : List ServerMessage}
    (hsig : (lastSome (·.signal? tag) ms).isSome) (hbye : lastSome bye? ms = none)
    (hcr : lastSome cr? ms = none) : ∃ tagged, lastSome (·.ownTagged? tag) ms = some tagged := by
  obtain ⟨g, hg⟩ := Option.isSome_iff_exists.mp hsig
  obtain ⟨m, hm, hmg⟩ := exists_of_lastSome hg
  refine Option.isSome_iff_exists.mp (Option.isSome_iff_ne_none.mpr fun htagged => ?_)
  have hnone : m.signal? tag = none := signal?_eq_none.mpr
    ⟨lastSome_eq_none.mp htagged m hm, lastSome_eq_none.mp hbye m hm, lastSome_eq_none.mp hcr m hm⟩
  simp [hnone] at hmg

variable [LawfulEncoder AuthenticateData] {tag : Tag} {past ms : List ServerMessage}

theorem sendOver_over (message : Command) (pending : Option Bytes) (f : F)
    (hsig : (lastSome (·.signal? tag) ms).isSome) :
    ∃ out s', s.sendOver (ImapSend.outputOf ⟨message, tag⟩ past ms) pending f = (out, s', f) ∧
      s.Over ⟨pending, s.framing.acceptsEarlyOk && pending.isNone⟩ tag ms out s' := by
  unfold sendOver
  simp only [ImapSend.outputOf]
  cases hbye : lastSome bye? ms with
  | some bye => exact ⟨_, _, rfl, .bye hbye⟩
  | none =>
    cases hcr : lastSome cr? ms with
    | some cr =>
      cases pending with
      | some payload => exact ⟨_, _, wantsContinue_eq s payload tag f, .initial hbye hcr rfl⟩
      | none => exact challenged_over f hbye hcr rfl
    | none =>
      obtain ⟨tagged, htagged⟩ := exists_tagged hsig hbye hcr
      simp only [htagged]
      cases hkind : tagged.body.kind with
      | ok =>
        cases hok : s.framing.acceptsEarlyOk && pending.isNone with
        | true =>
          simp only [if_true]
          exact succeed_over f hbye hcr htagged hkind rfl
        | false => exact ⟨_, _, rfl, .unexpectedOk hbye hcr htagged hkind rfl⟩
      | no => exact ⟨_, _, rfl, .no hbye hcr htagged hkind⟩
      | bad => exact ⟨_, _, rfl, .bad hbye hcr htagged hkind⟩

theorem continueOver_over (message : AuthenticateData) (f : F)
    (hsig : (lastSome (·.signal? tag) ms).isSome) :
    ∃ out s', s.continueOver (ImapSend.outputOf ⟨message, tag⟩ past ms) f = (out, s', f) ∧
      s.Over ⟨none, true⟩ tag ms out s' := by
  unfold continueOver
  simp only [ImapSend.outputOf]
  cases hbye : lastSome bye? ms with
  | some bye => exact ⟨_, _, rfl, .bye hbye⟩
  | none =>
    cases hcr : lastSome cr? ms with
    | some cr => exact challenged_over f hbye hcr rfl
    | none =>
      obtain ⟨tagged, htagged⟩ := exists_tagged hsig hbye hcr
      simp only [htagged]
      cases hkind : tagged.body.kind with
      | ok => exact succeed_over f hbye hcr htagged hkind rfl
      | no => exact ⟨_, _, rfl, .no hbye hcr htagged hkind⟩
      | bad => exact ⟨_, _, rfl, .bad hbye hcr htagged hkind⟩

end Over

/-! ### One resume -/

/-- The tag of AUTHENTICATE has been asked for. -/
def Asks (s : ImapAuth K) (initialResponse pending : Option Bytes) : Prop :=
  s.state =
    .send (.fresh (.tag ⟨.authenticate s.framing.mechanism initialResponse, id⟩ true) []) pending

/-- Where a SASL coroutine stands between two resumes. -/
inductive Stage [Encoder Command] (s : ImapAuth K) : Request → Prop where
  | start (hs : s.state = .start) : Stage s .nothing
  | asks {initialResponse pending : Option Bytes} (hs : s.Asks initialResponse pending) : Stage s .tag
  | reads {tag : Tag} {past : List ServerMessage} {phase : Phase} {due : Request}
      (hs : s.Reads tag past phase) (hdue : due = .nothing ∨ due = .read) : Stage s due
  | rounds {due : Request} (hs : s.state = .rounds) (h : s.rounds.Conversing due) : Stage s due

section Resume

variable [SaslCoroutine K] [Encoder Command] [Encoder AuthenticateData] {F : Type} [Fragmentizer F]
  [TryFrom Bytes Tag]

inductive Resumed (s : ImapAuth K) (f : F) :
    Option Bytes → ImapAuthResult → ImapAuth K → F → List FragmentizerEvent → Prop where
  | starts {payload : Option Bytes} {s' : ImapAuth K} (hs : s.state = .start)
      (hsasl : s.resumeSasl .none = (.ok payload, s')) :
      Resumed s f none (.yielded .wantsTag) (s'.asked payload) f []
  | unstarted {err : ImapAuthError} {s' : ImapAuth K} (hs : s.state = .start)
      (hsasl : s.resumeSasl .none = (.error err, s')) :
      Resumed s f none (.complete (.error err)) s' f []
  | invalid {initialResponse pending : Option Bytes} {bytes : Bytes} {err : ImapSendError}
      (hs : s.Asks initialResponse pending) :
      Resumed s f (some bytes) (.complete (.error (.send err))) s f []
  | sends {initialResponse pending : Option Bytes} {bytes : Bytes} {tag : Tag}
      (hs : s.Asks initialResponse pending) (htag : TryFrom.tryFrom bytes = Except.ok tag) :
      Resumed s f (some bytes) (.yielded (.wantsWrite (commandOctets s.framing initialResponse tag)))
        (s.sent initialResponse pending tag) f []
  | waits {tag : Tag} {past : List ServerMessage} {phase : Phase} (hs : s.Reads tag past phase) :
      Resumed s f none (.yielded .wantsRead) s f []
  | eof {tag : Tag} {past : List ServerMessage} {phase : Phase} {err : ImapSendError}
      (hs : s.Reads tag past phase) : Resumed s f (some []) (.complete (.error (.send err))) s f []
  | refused {tag : Tag} {past : List ServerMessage} {phase : Phase} {data : Bytes} {f' : F}
      {pre post : List ServerMessage} {m : ServerMessage} {err : ImapSendError}
      (hs : s.Reads tag past phase) (hne : data ≠ [])
      (hms : messages (enqueueBytes f data) = pre ++ m :: post) (hpre : Accepted pre)
      (hm : m.refusal? = some err) :
      Resumed s f (some data) (.complete (.error (.send err))) s f'
        (.fed data :: (pre ++ [m]).map .completed)
  | readsOn {tag : Tag} {past : List ServerMessage} {phase : Phase} {data : Bytes} {s' : ImapAuth K}
      (hs : s.Reads tag past phase) (hne : data ≠ [])
      (hms : Accepted (messages (enqueueBytes f data)))
      (hsig : lastSome (·.signal? tag) (messages (enqueueBytes f data)) = none)
      (hs' : s'.Reads tag (past ++ messages (enqueueBytes f data)) phase)
      (hsame : s' = { s with state := s'.state }) :
      Resumed s f (some data) (.yielded .wantsRead) s' (drained (enqueueBytes f data))
        (.fed data :: (messages (enqueueBytes f data)).map .completed)
  | ended {tag : Tag} {past : List ServerMessage} {phase : Phase} {data : Bytes} {out : ImapAuthResult}
      {s' : ImapAuth K} (hs : s.Reads tag past phase) (hne : data ≠ [])
      (hms : Accepted (messages (enqueueBytes f data)))
      (hsig : (lastSome (·.signal? tag) (messages (enqueueBytes f data))).isSome)
      (hover : s.Over phase tag (messages (enqueueBytes f data)) out s') :
      Resumed s f (some data) out s' (drained (enqueueBytes f data))
        (.fed data :: (messages (enqueueBytes f data)).map .completed)
  | rounds {arg : Option Bytes} {out : AuthRoundsResult} {r : AuthRounds} {f' : F}
      {events : List FragmentizerEvent} (hs : s.state = .rounds)
      (h : ∀ y, out = .yielded y → r.Conversing y.request ∧
        ∀ bytes, y = .wantsWrite bytes → AuthRounds.IsAsked bytes) :
      Resumed s f arg (out.tryOk id .ofRounds .ok) { s with state := .rounds, rounds := r } f' events

variable [LawfulEncoder Command] [LawfulAuthenticate] {s s' : ImapAuth K} {due : Request}
  {arg : Option Bytes}

omit [LawfulEncoder Command] in
theorem Reads.resume_spec [LawfulEncoder AuthenticateData] {tag : Tag} {past : List ServerMessage}
    {phase : Phase} (h : s.Reads tag past phase) (f : F) (arg : Option Bytes) :
    ∃ out s' f' events, s.resume (⟨f, []⟩ : Logged F) arg = (out, s', ⟨f', events⟩) ∧
      s.Resumed f arg out s' f' events := by
  have hreads := h
  cases h with
  | @send send pending message hs h =>
    obtain ⟨out, send', f', events, he, hlistens⟩ := h.resume_spec f arg
    simp only [resume, hs, resumeSend, he]
    cases hlistens with
    | waits =>
      have hsame : ({ s with state := .send send pending } : ImapAuth K) = s := by rw [← hs]
      exact ⟨.yielded .wantsRead, s, f, [], Prod.ext rfl (Prod.ext hsame rfl), .waits hreads⟩
    | eof => exact ⟨_, _, _, _, rfl, .eof hreads⟩
    | refused hne hms hpre hm => exact ⟨_, _, _, _, rfl, .refused hreads hne hms hpre hm⟩
    | readsOn hne hms hsig hsend =>
      exact ⟨_, _, _, _, rfl, .readsOn hreads hne hms hsig (.send rfl hsend) rfl⟩
    | @ended data _ hne hms hsig =>
      obtain ⟨out, s', hend, hover⟩ := sendOver_over (s := s) message pending
        (⟨drained (enqueueBytes f data),
          .fed data :: (messages (enqueueBytes f data)).map .completed⟩ : Logged F) hsig
      exact ⟨_, _, _, _, hend, .ended hreads hne hms hsig hover⟩
  | @«continue» send message hs h =>
    obtain ⟨out, send', f', events, he, hlistens⟩ := h.resume_spec f arg
    simp only [resume, hs, resumeContinue, he]
    cases hlistens with
    | waits =>
      have hsame : ({ s with state := .continue send } : ImapAuth K) = s := by rw [← hs]
      exact ⟨.yielded .wantsRead, s, f, [], Prod.ext rfl (Prod.ext hsame rfl), .waits hreads⟩
    | eof => exact ⟨_, _, _, _, rfl, .eof hreads⟩
    | refused hne hms hpre hm => exact ⟨_, _, _, _, rfl, .refused hreads hne hms hpre hm⟩
    | readsOn hne hms hsig hsend =>
      exact ⟨_, _, _, _, rfl, .readsOn hreads hne hms hsig (.continue rfl hsend) rfl⟩
    | @ended data _ hne hms hsig =>
      obtain ⟨out, s', hend, hover⟩ := continueOver_over (s := s) message
        (⟨drained (enqueueBytes f data),
          .fed data :: (messages (enqueueBytes f data)).map .completed⟩ : Logged F) hsig
      exact ⟨_, _, _, _, hend, .ended hreads hne hms hsig hover⟩

theorem resume_spec [LawfulEncoder AuthenticateData] (h : s.Stage due)
    (hans : due.answeredBy arg = true) (f : F) :
    ∃ out s' f' events, s.resume (⟨f, []⟩ : Logged F) arg = (out, s', ⟨f', events⟩) ∧
      s.Resumed f arg out s' f' events := by
  cases h with
  | start hs =>
    obtain rfl := Request.answeredBy_nothing.mp hans
    simp only [resume, hs]
    rcases hsasl : s.resumeSasl .none with ⟨err | payload, s'⟩
    · exact ⟨_, _, _, _, resumeStart_error hsasl _ _, .unstarted hs hsasl⟩
    · exact ⟨_, _, _, _, resumeStart_ok hsasl _, .starts hs hsasl⟩
  | @asks initialResponse pending hs =>
    obtain ⟨bytes, rfl⟩ := Option.isSome_iff_exists.mp hans
    have hstate : s.state = _ := hs
    simp only [resume, hstate, resumeSend]
    cases htag : (TryFrom.tryFrom bytes : Except ValidationError Tag) with
    | error err =>
      simp only [ImapSend.asked_invalid _ htag]
      exact ⟨_, _, _, _, rfl, .invalid hs⟩
    | ok tag =>
      have hplain :=
        (LawfulAuthenticate.command tag s.framing.mechanism initialResponse).plain
      simp only [ImapSend.asked_valid _ htag hplain]
      exact ⟨_, _, _, _, rfl, .sends hs htag⟩
  | reads hs => exact hs.resume_spec f arg
  | rounds hs h =>
    simp only [resume, hs]
    obtain ⟨⟨out, r, f', events⟩, he⟩ : ∃ x, s.rounds.resume (⟨f, []⟩ : Logged F) arg = x := ⟨_, rfl⟩
    rw [he]
    refine ⟨_, _, _, _, rfl, .rounds hs ?_⟩
    intro y hy
    obtain rfl : out = .yielded y := hy
    exact h.step hans he

omit [LawfulEncoder Command] [LawfulAuthenticate] in
theorem Resumed.stage {f f' : F} {y : ImapYield} {events : List FragmentizerEvent}
    (h : s.Resumed f arg (.yielded y) s' f' events) : s'.Stage y.request := by
  generalize hout : (CoroutineState.yielded y : ImapAuthResult) = out at h
  cases h with
  | starts hs hsasl =>
    obtain rfl := CoroutineState.yielded.inj hout
    exact .asks rfl
  | unstarted => simp at hout
  | invalid => simp at hout
  | sends hs htag =>
    obtain rfl := CoroutineState.yielded.inj hout
    exact .reads (reads_sent ..) (.inl rfl)
  | waits hs =>
    obtain rfl := CoroutineState.yielded.inj hout
    exact .reads hs (.inr rfl)
  | eof => simp at hout
  | refused => simp at hout
  | readsOn hs hne hms hsig hs' =>
    obtain rfl := CoroutineState.yielded.inj hout
    exact .reads hs' (.inr rfl)
  | ended hs hne hms hsig hover =>
    cases hover with
    | initial =>
      obtain rfl := CoroutineState.yielded.inj hout
      exact .reads (reads_answered ..) (.inl rfl)
    | answers =>
      obtain rfl := CoroutineState.yielded.inj hout
      exact .reads (reads_answered ..) (.inl rfl)
    | succeeds hbye hcr htagged hkind hok hsasl hstarts =>
      cases hstarts with
      | asks hr =>
        obtain rfl := CoroutineState.yielded.inj hout
        exact .rounds rfl hr
      | completes => simp [CoroutineState.tryOk] at hout
    | _ => simp at hout
  | rounds hs hr =>
    obtain ⟨y', hy', rfl⟩ := CoroutineState.tryOk_yielded hout.symm
    exact .rounds rfl (hr y' hy').1

end Resume
end ImapAuth
end IoImap
