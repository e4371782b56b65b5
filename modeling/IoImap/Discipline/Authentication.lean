import IoImap.Discipline
import IoImap.Rfc3501.Login
import IoImap.Sasl.Resume

/-!
# The discipline of authentication

LOGIN and the SASL coroutines, with the rounds behind them.
-/

namespace IoImap
open Fragmentizer ImapSend

variable {F : Type} {due : Request} {arg : Option Bytes} {log : List FragmentizerEvent}

/-! ### The rounds -/

instance : Converses AuthRounds where
  exchange r := match r.round with
    | .none => .speaks []
    | .capability capability => ImapSend.exchange capability
    | .id id => ImapSend.exchange id

namespace AuthRounds

theorem exchange_new : Converses.exchange (new false none) = .speaks [] := rfl

def InConversation [Encoder Command] (r : AuthRounds) (due : Request) : Prop :=
  match r.round with
  | .none => due = .nothing
  | .capability capability => ImapSend.InConversation capability due
  | .id id => ImapSend.InConversation id due

variable [Fragmentizer F] [TryFrom Bytes Tag] [LawfulTag] [Encoder Command]
  [Encoder AuthenticateData] [Encoder IdleDone] [LawfulEncoder Command]
  {r r' r₀ : AuthRounds} {f : F} {l l' : Logged F} {out : AuthRoundsResult}

omit [Fragmentizer F] [LawfulTag] [LawfulEncoder Command] in
theorem complete_abides (hr₀ : Converses.exchange r₀ = .speaks []) (he : r.complete l = (out, r', l')) :
    Abides InConversation r₀ .nothing none l.log out r' l' := by
  cases he
  exact abides_silent hr₀ .ends (by simp)

theorem resumeId_abides {id : ImapServerId} (h : ImapSend.InConversation id due)
    (hans : due.answeredBy arg = true) (hr₀ : Converses.exchange r₀ = ImapSend.exchange id)
    (he : r.resumeId id (⟨f, log⟩ : Logged F) arg = (out, r', l)) :
    Abides InConversation r₀ due arg log out r' l := by
  obtain ⟨⟨y | err | v, id', l'⟩, hid⟩ : ∃ x, id.resume (⟨f, log⟩ : Logged F) arg = x := ⟨_, rfl⟩
  all_goals
    have habides := commandResume_abides h hans hid
    rw [resumeId, hid] at he
  · cases he
    exact habides.yields hr₀ rfl ⟨rfl, rfl⟩ (fun hI => hI)
  · cases he
    exact habides.completes hr₀ (.inr ⟨_, rfl⟩) _
  · exact habides.handsOver hr₀ (complete_abides exchange_new he) rfl

theorem thenId_abides (hr₀ : Converses.exchange r₀ = .speaks [])
    (he : r.thenId (⟨f, log⟩ : Logged F) = (out, r', l)) :
    Abides InConversation r₀ .nothing none log out r' l := by
  rw [thenId] at he
  cases hid : r.wantsId with
  | mk id r₁ =>
    rw [hid] at he
    cases id with
    | none => exact complete_abides hr₀ he
    | some id =>
      have hnew : ∃ body, id = ImapSend.command body := by
        unfold wantsId at hid
        split at hid
        · simp at hid
        · cases hid
          exact ⟨_, rfl⟩
      obtain ⟨body, rfl⟩ := hnew
      exact resumeId_abides (inConversation_command body) rfl hr₀ he

theorem resumeCapability_abides {capability : ImapCapabilityGet}
    (h : ImapSend.InConversation capability due) (hans : due.answeredBy arg = true)
    (hr₀ : Converses.exchange r₀ = ImapSend.exchange capability)
    (he : r.resumeCapability capability (⟨f, log⟩ : Logged F) arg = (out, r', l)) :
    Abides InConversation r₀ due arg log out r' l := by
  obtain ⟨⟨y | err | v, capability', l'⟩, hc⟩ :
    ∃ x, capability.resume (⟨f, log⟩ : Logged F) arg = x := ⟨_, rfl⟩
  all_goals
    have habides := ImapCapabilityGet.abides h hans hc
    rw [resumeCapability, hc] at he
  · cases he
    exact habides.yields hr₀ rfl ⟨rfl, rfl⟩ (fun hI => hI)
  · cases he
    exact habides.completes hr₀ (.inr ⟨_, rfl⟩) _
  · exact habides.handsOver hr₀ (thenId_abides exchange_new he) rfl

theorem start_abides {newCapability : Option (Vec1 Capability)}
    (hr₀ : Converses.exchange r₀ = .speaks [])
    (he : r.start newCapability (⟨f, log⟩ : Logged F) = (out, r', l)) :
    Abides InConversation r₀ .nothing none log out r' l := by
  rw [start] at he
  simp only [wantsCapability] at he
  split at he
  · rename_i capability hw
    split at hw
    · obtain rfl := Option.some.inj hw
      exact resumeCapability_abides (inConversation_command .capability) rfl hr₀ he
    · simp at hw
  · exact thenId_abides hr₀ he

theorem abides (h : r.InConversation due) (hans : due.answeredBy arg = true)
    (he : r.resume (⟨f, log⟩ : Logged F) arg = (out, r', l)) :
    Abides InConversation r due arg log out r' l := by
  rw [resume] at he
  rw [InConversation] at h
  cases hr : r.round with
  | none =>
    rw [hr] at h he
    obtain rfl := h
    obtain rfl := Request.answeredBy_nothing.mp hans
    exact complete_abides (by simp [Converses.exchange, hr]) he
  | capability capability =>
    rw [hr] at h he
    exact resumeCapability_abides h hans (by simp [Converses.exchange, hr]) he
  | id id =>
    rw [hr] at h he
    exact resumeId_abides h hans (by simp [Converses.exchange, hr]) he

end AuthRounds

/-! ### LOGIN -/

instance : Converses ImapLogin where
  exchange s := match s.state with
    | .send send => ImapSend.exchange send
    | .rounds => Converses.exchange s.rounds

namespace ImapLogin

def InConversation [Encoder Command] (s : ImapLogin) (due : Request) : Prop :=
  match s.state with
  | .send send => ImapSend.InConversation send due
  | .rounds => s.rounds.InConversation due

variable [Fragmentizer F] [TryFrom Bytes Tag] [LawfulTag] [Encoder Command]
  [Encoder AuthenticateData] [Encoder IdleDone] [LawfulEncoder Command]
  {s s' s₀ : ImapLogin} {f : F} {l : Logged F} {out : ImapLoginResult}

omit [Fragmentizer F] [LawfulTag] [LawfulEncoder Command] in
theorem ofRounds_abides {r : AuthRoundsResult × AuthRounds × Logged F} {r₀ : AuthRounds}
    (h : Abides AuthRounds.InConversation r₀ due arg log r.1 r.2.1 r.2.2)
    (hs₀ : Converses.exchange s₀ = Converses.exchange r₀) (he : s.ofRounds r = (out, s', l)) :
    Abides InConversation s₀ due arg log out s' l := by
  obtain ⟨y | err | v, r', l'⟩ := r
  all_goals cases he
  · exact h.yields hs₀ rfl ⟨rfl, rfl⟩ (fun hI => hI)
  · exact h.completes hs₀ (.inr ⟨_, rfl⟩) _
  · exact h.completes hs₀ (.inl ⟨v, rfl⟩) _

theorem abides (h : s.InConversation due) (hans : due.answeredBy arg = true)
    (he : s.resume (⟨f, log⟩ : Logged F) arg = (out, s', l)) :
    Abides InConversation s due arg log out s' l := by
  rw [resume] at he
  rw [InConversation] at h
  cases hs : s.state with
  | rounds =>
    rw [hs] at h he
    exact ofRounds_abides (AuthRounds.abides h hans rfl) (by simp [Converses.exchange, hs]) he
  | send send =>
    rw [hs] at h he
    have hexchange : Converses.exchange s = ImapSend.exchange send := by simp [Converses.exchange, hs]
    obtain ⟨⟨y | err | v, send', l'⟩, hc⟩ :
      ∃ x, commandResume id send (⟨f, log⟩ : Logged F) arg = x := ⟨_, rfl⟩
    all_goals
      have habides := commandResume_abides h hans hc
      simp only [resumeSend, hc] at he
    · cases he
      exact habides.yields hexchange rfl ⟨rfl, rfl⟩ (fun hI => hI)
    · cases he
      exact habides.completes hexchange (.inr ⟨_, rfl⟩) _
    · generalize hr : AuthRounds.start s.rounds _ l' = r at he
      have hstart := AuthRounds.start_abides AuthRounds.exchange_new hr
      have hrounds : Converses.exchange (⟨.rounds, .new false none⟩ : ImapLogin) =
          Converses.exchange (AuthRounds.new false none) := rfl
      exact habides.handsOver hexchange (ofRounds_abides hstart hrounds he) rfl

omit [LawfulTag] [LawfulEncoder Command] [Fragmentizer F] [TryFrom Bytes Tag]
  [Encoder AuthenticateData] [Encoder IdleDone] in
theorem new_inConversation [TryFrom String AString] {user password : String} {opts : ImapLoginOptions}
    (h : new user password opts = .ok s) : s.InConversation .nothing := by
  unfold new at h
  split at h
  · obtain rfl := Except.ok.inj h
    exact inConversation_command _
  · simp at h
  · simp at h

theorem disciplined [TryFrom String AString] {user password : String} {opts : ImapLoginOptions}
    {es : List (Turn ImapLogin F Unit ImapYield (Except ImapLoginError (List Capability)))}
    {b : Config ImapLogin F} (hnew : new user password opts = .ok s) (hrun : imapLogin.Runs s f es b) :
    ∀ t ∈ es, Disciplined t :=
  disciplined_run rfl (fun _ => rfl) abides (new_inConversation hnew) hrun

end ImapLogin

/-! ### SASL -/

instance (K : Type) : Converses (ImapAuth K) where
  exchange s := match s.state with
    | .start => .speaks []
    | .send send _ => ImapSend.exchange send
    | .continue send => ImapSend.exchange send
    | .rounds => Converses.exchange s.rounds

namespace ImapAuth

variable {K : Type}

theorem exchange_start (s : ImapAuth K) :
    Converses.exchange { s with state := .start } = .speaks [] := rfl

def InConversation [Encoder Command] (s : ImapAuth K) (due : Request) : Prop :=
  match s.state with
  | .start => due = .nothing
  | .send send _ => ImapSend.InConversation send due
  | .continue send => send.Reading due
  | .rounds => s.rounds.InConversation due

variable {s s' s₀ : ImapAuth K} {f : F} {l l' : Logged F} {out : ImapAuthResult}

section Ends

variable [TryFrom Bytes Tag] [Encoder Command] [Encoder AuthenticateData] [Encoder IdleDone]

theorem ofRounds_abides {r : AuthRoundsResult × AuthRounds × Logged F} {r₀ : AuthRounds}
    (h : Abides AuthRounds.InConversation r₀ due arg log r.1 r.2.1 r.2.2)
    (hs₀ : Converses.exchange s₀ = Converses.exchange r₀) (he : s.ofRounds r = (out, s', l)) :
    Abides InConversation s₀ due arg log out s' l := by
  obtain ⟨y | err | v, r', l'⟩ := r
  all_goals cases he
  · exact h.yields hs₀ rfl ⟨rfl, rfl⟩ (fun hI => hI)
  · exact h.completes hs₀ (.inr ⟨_, rfl⟩) _
  · exact h.completes hs₀ (.inl ⟨v, rfl⟩) _

theorem fail_abides {err : ImapAuthError} (hs₀ : Converses.exchange s₀ = .speaks [])
    (he : s.fail err l = (out, s', l')) : Abides InConversation s₀ .nothing none l.log out s' l' := by
  cases he
  exact abides_silent hs₀ .ends (by simp)

theorem wantsContinue_abides [Fragmentizer F] [LawfulEncoder AuthenticateData] {payload : Bytes}
    {tag : Tag} (hs₀ : Converses.exchange s₀ = .speaks [])
    (he : s.wantsContinue payload tag (⟨f, log⟩ : Logged F) = (out, s', l)) :
    Abides InConversation s₀ .nothing none log out s' l := by
  rw [wantsContinue, new_resume] at he
  cases he
  obtain ⟨hwrites, hexchange⟩ := new_exchange (AuthenticateData.continue payload) tag
  have hstep : (Exchange.speaks []).Step none
      (some (.writes (ImapSend.new (AuthenticateData.continue payload) tag).takeBuffer.1))
      ((ImapSend.new (AuthenticateData.continue payload) tag).written
        ⟨.continue payload, tag⟩).exchange := by
    rw [hexchange]
    exact .answers (.continue payload) hwrites
  refine abides_silent (l := ⟨f, log⟩) hs₀ hstep ?_
  intro y hy
  obtain rfl := CoroutineState.yielded.inj hy
  exact reading_new (AuthenticateData.continue payload) tag

end Ends

variable [SaslCoroutine K] [Fragmentizer F] [TryFrom Bytes Tag] [LawfulTag] [Encoder Command]
  [Encoder AuthenticateData] [Encoder IdleDone] [LawfulEncoder Command]

theorem succeed_abides {code : Option Code} {data : List Data} {untagged : List StatusBody}
    (hs₀ : Converses.exchange s₀ = .speaks [])
    (he : s.succeed code data untagged (⟨f, log⟩ : Logged F) = (out, s', l)) :
    Abides InConversation s₀ .nothing none log out s' l := by
  rw [succeed] at he
  split at he
  · exact fail_abides hs₀ he
  · generalize hr : AuthRounds.start _ _ (⟨f, log⟩ : Logged F) = r at he
    have hstart := AuthRounds.start_abides AuthRounds.exchange_new hr
    exact ofRounds_abides hstart hs₀ he

theorem completion_abides {tagged : Tagged} {code : Option Code} {data : List Data}
    {untagged : List StatusBody} (accepted : Bool) (err : ImapAuthError)
    (hs₀ : Converses.exchange s₀ = .speaks [])
    (he : (match tagged.body.kind with
      | .ok => if accepted then s.succeed code data untagged (⟨f, log⟩ : Logged F) else s.fail err ⟨f, log⟩
      | .no => (s.no tagged.body.text).2.fail (s.no tagged.body.text).1 ⟨f, log⟩
      | .bad => s.fail (.bad tagged.body.text) ⟨f, log⟩) = (out, s', l)) :
    Abides InConversation s₀ .nothing none log out s' l := by
  split at he
  · split at he
    · exact succeed_abides hs₀ he
    · exact fail_abides hs₀ he
  · exact fail_abides hs₀ he
  · exact fail_abides hs₀ he

variable [LawfulEncoder AuthenticateData]

omit [LawfulTag] [LawfulEncoder Command] in
theorem challenged_abides {cr : CommandContinuationRequest} {tag : Tag}
    (hs₀ : Converses.exchange s₀ = .speaks [])
    (he : s.challenged cr tag (⟨f, log⟩ : Logged F) = (out, s', l)) :
    Abides InConversation s₀ .nothing none log out s' l := by
  rw [challenged] at he
  split at he
  · exact fail_abides hs₀ he
  · exact wantsContinue_abides hs₀ he

theorem sendOver_abides {o : ImapSendOutput Command} {pending : Option Bytes}
    (hs₀ : Converses.exchange s₀ = .speaks [])
    (he : s.sendOver o pending (⟨f, log⟩ : Logged F) = (out, s', l)) :
    Abides InConversation s₀ .nothing none log out s' l := by
  unfold sendOver at he
  split at he
  · exact fail_abides hs₀ he
  · exact wantsContinue_abides hs₀ he
  · exact challenged_abides hs₀ he
  · exact fail_abides hs₀ he
  · exact completion_abides _ _ hs₀ he

theorem continueOver_abides {o : ImapSendOutput AuthenticateData}
    (hs₀ : Converses.exchange s₀ = .speaks [])
    (he : s.continueOver o (⟨f, log⟩ : Logged F) = (out, s', l)) :
    Abides InConversation s₀ .nothing none log out s' l := by
  unfold continueOver at he
  split at he
  · exact fail_abides hs₀ he
  · exact challenged_abides hs₀ he
  · exact fail_abides hs₀ he
  · exact completion_abides true .missingTagged hs₀ he

theorem abides (h : s.InConversation due) (hans : due.answeredBy arg = true)
    (he : s.resume (⟨f, log⟩ : Logged F) arg = (out, s', l)) :
    Abides InConversation s due arg log out s' l := by
  rw [resume] at he
  rw [InConversation] at h
  cases hs : s.state with
  | start =>
    rw [hs] at h he
    obtain rfl := h
    obtain rfl := Request.answeredBy_nothing.mp hans
    have hexchange : Converses.exchange s = .speaks [] := by simp [Converses.exchange, hs]
    obtain ⟨⟨err | payload, s''⟩, hsasl⟩ : ∃ x, s.resumeSasl .none = x := ⟨_, rfl⟩
    · simp only [resumeStart_error hsasl] at he
      cases he
      exact abides_silent (l := ⟨f, log⟩) hexchange .ends (by simp)
    · simp only [resumeStart_ok hsasl] at he
      cases he
      refine abides_silent (l := ⟨f, log⟩) hexchange .asks ?_
      intro y hy
      obtain rfl := CoroutineState.yielded.inj hy
      exact inConversation_asked _
  | send send pending =>
    rw [hs] at h he
    have hexchange : Converses.exchange s = ImapSend.exchange send := by simp [Converses.exchange, hs]
    obtain ⟨⟨y | err | o, send', l'⟩, hsend⟩ :
      ∃ x, send.resume (⟨f, log⟩ : Logged F) arg = x := ⟨_, rfl⟩
    all_goals
      have habides := ImapSend.abides h hans hsend
      simp only [resumeSend, hsend] at he
    · cases he
      exact habides.yields hexchange rfl ⟨rfl, rfl⟩ (fun hI => hI)
    · cases he
      exact habides.completes hexchange (.inr ⟨_, rfl⟩) _
    · exact habides.handsOver hexchange (sendOver_abides (exchange_start s) he) rfl
  | «continue» send =>
    rw [hs] at h he
    have hexchange : Converses.exchange s = ImapSend.exchange send := by simp [Converses.exchange, hs]
    obtain ⟨⟨y | err | o, send', l'⟩, hsend⟩ :
      ∃ x, send.resume (⟨f, log⟩ : Logged F) arg = x := ⟨_, rfl⟩
    all_goals
      have habides := abides_read h hans hsend
      simp only [resumeContinue, hsend] at he
    · cases he
      exact habides.yields hexchange rfl ⟨rfl, rfl⟩ (fun hI => hI)
    · cases he
      exact habides.completes hexchange (.inr ⟨_, rfl⟩) _
    · exact habides.handsOver hexchange (continueOver_abides (exchange_start s) he) rfl
  | rounds =>
    rw [hs] at h he
    exact ofRounds_abides (AuthRounds.abides h hans rfl) (by simp [Converses.exchange, hs]) he

theorem disciplined {framing : SaslFraming} {mechanism : K} {opts : ImapAuthOptions}
    {es : List (Turn (ImapAuth K) F Unit ImapYield (Except ImapAuthError (List Capability)))}
    {b : Config (ImapAuth K) F} (hrun : (imapAuth K).Runs (new framing mechanism opts) f es b) :
    ∀ t ∈ es, Disciplined t :=
  disciplined_run rfl (fun _ => rfl) abides rfl hrun

end ImapAuth
end IoImap
