import IoImap.Rfc3501.StartTlsBuffer
import IoImap.Send.Budget
import IoImap.Session.Resume

/-!
# What a session lives on

A session and every coroutine that it resumes ask for a bounded number of things between two
reads, whatever the server says.
-/

namespace IoImap
open Fragmentizer

variable {F : Type} {before : Nat}

/-! ### The rounds behind an authentication -/

theorem ImapCapabilityGet.resume_frugal [Fragmentizer F] [TryFrom Bytes Tag] [Encoder Command]
    (capability : ImapCapabilityGet) (f : F) (arg : Option Bytes) :
    Frugal ImapYield.request ImapSend.budget (ImapSend.budget capability arg)
      (ImapCapabilityGet.resume capability f arg).1 (ImapCapabilityGet.resume capability f arg).2.1 :=
  (commandResume_frugal _ capability f arg).tryOk

namespace AuthRounds

/-- The state without a round is never resumed. -/
def budget (r : AuthRounds) (arg : Option Bytes) : Nat :=
  match r.round with
  | .none => PER_READ
  | .capability capability => ImapSend.budget capability arg
  | .id id => ImapSend.budget id arg

abbrev FrugalAt (before : Nat) (r : AuthRoundsResult × AuthRounds × F) : Prop :=
  Frugal ImapYield.request budget before r.1 r.2.1

theorem complete_frugal (r : AuthRounds) (f : F) : FrugalAt PER_READ (r.complete f) :=
  Nat.le_refl PER_READ

variable [Fragmentizer F] [TryFrom Bytes Tag] [Encoder Command] (r : AuthRounds) (f : F)

theorem resumeId_frugal (id : ImapServerId) (arg : Option Bytes) :
    FrugalAt (ImapSend.budget id arg) (r.resumeId id f arg) := by
  have hfrugal := commandResume_frugal ImapServerId.decode id f arg
  have hresume : id.resume f arg = commandResume ImapServerId.decode id f arg := rfl
  rw [resumeId, hresume]
  generalize commandResume ImapServerId.decode id f arg = r at hfrugal ⊢
  obtain ⟨y | err | v, id', f'⟩ := r
  · exact hfrugal.forwards rfl fun _ => rfl
  · trivial
  · exact (r.complete_frugal f').mono hfrugal

theorem thenId_frugal : FrugalAt PER_READ (r.thenId f) := by
  rw [thenId, wantsId]
  cases r.autoId with
  | none => exact r.complete_frugal f
  | some params => exact (resumeId_frugal _ f _ none).mono (Nat.le_succ 4)

theorem resumeCapability_frugal (capability : ImapCapabilityGet) (arg : Option Bytes) :
    FrugalAt (ImapSend.budget capability arg) (r.resumeCapability capability f arg) := by
  have hfrugal := capability.resume_frugal f arg
  rw [resumeCapability]
  generalize ImapCapabilityGet.resume capability f arg = r at hfrugal ⊢
  obtain ⟨y | err | v, capability', f'⟩ := r
  · exact hfrugal.forwards rfl fun _ => rfl
  · trivial
  · exact (thenId_frugal _ f').mono hfrugal

theorem start_frugal (newCapability : Option (Vec1 Capability)) :
    FrugalAt PER_READ (r.start newCapability f) := by
  rw [start, wantsCapability]
  split
  · rename_i capability hw
    split at hw
    · obtain rfl := Option.some.inj hw
      exact (resumeCapability_frugal _ f .new none).mono (Nat.le_succ 4)
    · simp at hw
  · exact thenId_frugal _ f

theorem resume_frugal (arg : Option Bytes) : FrugalAt (r.budget arg) (r.resume f arg) := by
  rw [resume, budget]
  cases r.round with
  | none => exact r.complete_frugal f
  | capability capability => exact r.resumeCapability_frugal f capability arg
  | id id => exact r.resumeId_frugal f id arg

end AuthRounds

/-! ### LOGIN and the SASL coroutines -/

namespace ImapLogin

def budget (s : ImapLogin) (arg : Option Bytes) : Nat :=
  match s.state with
  | .send send => ImapSend.budget send arg
  | .rounds => s.rounds.budget arg

abbrev FrugalAt (before : Nat) (r : ImapLoginResult × ImapLogin × F) : Prop :=
  Frugal ImapYield.request budget before r.1 r.2.1

theorem ofRounds_frugal (s : ImapLogin) {r : AuthRoundsResult × AuthRounds × F}
    (h : AuthRounds.FrugalAt before r) : FrugalAt before (s.ofRounds r) := by
  obtain ⟨y | err | v, r', f'⟩ := r
  · exact h.forwards rfl fun _ => rfl
  · trivial
  · exact h

theorem budget_new [TryFrom String AString] {user password : String} {opts : ImapLoginOptions}
    {s : ImapLogin} (h : new user password opts = .ok s) (arg : Option Bytes) : s.budget arg = 4 := by
  unfold new at h
  split at h
  · obtain rfl := Except.ok.inj h
    rfl
  · simp at h
  · simp at h

theorem resume_frugal [Fragmentizer F] [TryFrom Bytes Tag] [Encoder Command] (s : ImapLogin) (f : F)
    (arg : Option Bytes) : FrugalAt (s.budget arg) (s.resume f arg) := by
  rw [resume, budget]
  cases s.state with
  | rounds => exact s.ofRounds_frugal (s.rounds.resume_frugal f arg)
  | send send =>
    have hfrugal := commandResume_frugal id send f arg
    dsimp only
    rw [resumeSend]
    generalize commandResume id send f arg = r at hfrugal ⊢
    obtain ⟨y | err | out, send', f'⟩ := r
    · exact hfrugal.forwards rfl fun _ => rfl
    · trivial
    · exact (s.ofRounds_frugal (s.rounds.start_frugal f' _)).mono hfrugal

end ImapLogin

namespace ImapAuth

variable {K : Type}

def budget (s : ImapAuth K) (arg : Option Bytes) : Nat :=
  match s.state with
  | .start => 4
  | .send send _ => send.budget arg
  | .continue send => send.budget arg
  | .rounds => s.rounds.budget arg

abbrev FrugalAt (before : Nat) (r : Outcome K F) : Prop := Frugal ImapYield.request budget before r.1 r.2.1

theorem ofRounds_frugal (s : ImapAuth K) {r : AuthRoundsResult × AuthRounds × F}
    (h : AuthRounds.FrugalAt before r) : FrugalAt before (s.ofRounds r) := by
  obtain ⟨y | err | v, r', f'⟩ := r
  · exact h.forwards rfl fun _ => rfl
  · trivial
  · exact h

theorem fail_frugal (s : ImapAuth K) (err : ImapAuthError) (f : F) : FrugalAt before (s.fail err f) :=
  trivial

variable [SaslCoroutine K] [Fragmentizer F] [TryFrom Bytes Tag] [Encoder Command]
  [Encoder AuthenticateData] (s : ImapAuth K) (f : F)

omit [Encoder AuthenticateData] in
theorem succeed_frugal (code : Option Code) (data : List Data) (untagged : List StatusBody) :
    FrugalAt PER_READ (s.succeed code data untagged f) := by
  rw [succeed]
  split
  · exact fail_frugal _ _ f
  · exact ofRounds_frugal _ (AuthRounds.start_frugal _ f _)

omit [SaslCoroutine K] [Encoder Command] in
theorem wantsContinue_frugal (payload : Bytes) (tag : Tag) :
    FrugalAt PER_READ (s.wantsContinue payload tag f) := by
  have hfrugal := (ImapSend.new (.continue payload) tag : ImapSend AuthenticateData).resume_frugal f none
  rw [wantsContinue]
  generalize (ImapSend.new (.continue payload) tag : ImapSend AuthenticateData).resume f none = r at hfrugal ⊢
  obtain ⟨y | err | out, send, f'⟩ := r
  · exact (hfrugal.mono (Nat.le_add_right 3 2)).forwards rfl fun _ => rfl
  · trivial
  · trivial

omit [Encoder Command] in
theorem challenged_frugal (cr : CommandContinuationRequest) (tag : Tag) :
    FrugalAt PER_READ (s.challenged cr tag f) := by
  rw [challenged]
  split
  · exact fail_frugal _ _ f
  · exact wantsContinue_frugal _ f _ tag

theorem sendOver_frugal (out : ImapSendOutput Command) (pending : Option Bytes) :
    FrugalAt PER_READ (s.sendOver out pending f) := by
  unfold sendOver
  split
  · exact fail_frugal _ _ f
  · exact wantsContinue_frugal s f _ _
  · exact challenged_frugal s f _ _
  · exact fail_frugal _ _ f
  · split
    · split
      · exact succeed_frugal s f _ _ _
      · exact fail_frugal _ _ f
    · exact fail_frugal _ _ f
    · exact fail_frugal _ _ f

theorem continueOver_frugal (out : ImapSendOutput AuthenticateData) :
    FrugalAt PER_READ (s.continueOver out f) := by
  unfold continueOver
  split
  · exact fail_frugal _ _ f
  · exact challenged_frugal s f _ _
  · exact fail_frugal _ _ f
  · split
    · exact succeed_frugal s f _ _ _
    · exact fail_frugal _ _ f
    · exact fail_frugal _ _ f

theorem resumeSend_frugal (send : ImapSend Command) (pending : Option Bytes) (arg : Option Bytes) :
    FrugalAt (send.budget arg) (s.resumeSend send pending f arg) := by
  have hfrugal := send.resume_frugal f arg
  rw [resumeSend]
  generalize send.resume f arg = r at hfrugal ⊢
  obtain ⟨y | err | out, send', f'⟩ := r
  · exact hfrugal.forwards rfl fun _ => rfl
  · trivial
  · exact (sendOver_frugal s f' out pending).mono hfrugal

theorem resumeContinue_frugal (send : ImapSend AuthenticateData) (arg : Option Bytes) :
    FrugalAt (send.budget arg) (s.resumeContinue send f arg) := by
  have hfrugal := send.resume_frugal f arg
  rw [resumeContinue]
  generalize send.resume f arg = r at hfrugal ⊢
  obtain ⟨y | err | out, send', f'⟩ := r
  · exact hfrugal.forwards rfl fun _ => rfl
  · trivial
  · exact (continueOver_frugal s f' out).mono hfrugal

theorem resume_frugal (arg : Option Bytes) : FrugalAt (s.budget arg) (s.resume f arg) := by
  rw [resume, budget]
  cases s.state with
  | start =>
    dsimp only
    rw [resumeStart]
    split
    · exact fail_frugal _ _ f
    · exact resumeSend_frugal _ f _ _ arg
  | send send pending => exact s.resumeSend_frugal f send pending arg
  | «continue» send => exact s.resumeContinue_frugal f send arg
  | rounds => exact s.ofRounds_frugal (s.rounds.resume_frugal f arg)

end ImapAuth

/-! ### The greeting and STARTTLS -/

namespace ImapGreetingGet

def budget (s : ImapGreetingGet) (arg : Option Bytes) : Nat :=
  match s.state with
  | .read => readBudget arg
  | .capability capability => ImapSend.budget capability arg

abbrev FrugalAt (before : Nat) (r : ImapGreetingGetResult × ImapGreetingGet × F) : Prop :=
  Frugal ImapYield.request budget before r.1 r.2.1

variable [Fragmentizer F] [TryFrom Bytes Tag] [Encoder Command] (s : ImapGreetingGet) (f : F)

theorem resumeCapability_frugal (capability : ImapCapabilityGet) (arg : Option Bytes) :
    FrugalAt (ImapSend.budget capability arg) (s.resumeCapability capability f arg) := by
  have hfrugal := capability.resume_frugal f arg
  rw [resumeCapability]
  generalize ImapCapabilityGet.resume capability f arg = r at hfrugal ⊢
  obtain ⟨y | err | v, capability', f'⟩ := r
  · exact hfrugal.forwards rfl fun _ => rfl
  · trivial
  · exact hfrugal

theorem greeted_frugal : FrugalAt PER_READ (s.greeted f) := by
  unfold greeted
  cases decodeGreeting f with
  | error err => cases err <;> trivial
  | ok greeting =>
    dsimp only
    -- a BYE, capabilities to ask for, or the greeting alone
    split_ifs
    · trivial
    · exact (resumeCapability_frugal _ f .new none).mono (Nat.le_succ 4)
    · exact Nat.le_refl PER_READ

theorem deserialize_frugal : FrugalAt PER_READ (s.deserialize f) := by
  fun_induction deserialize s f with
  | case1 f f' => exact .reads rfl (fun _ => rfl) (by decide)
  | case2 f f' => exact s.greeted_frugal f'
  | case3 f f' hp hcomplete ih => exact ih
  | case4 => trivial

theorem resume_frugal (arg : Option Bytes) : FrugalAt (s.budget arg) (s.resume f arg) := by
  unfold resume budget
  cases hs : s.state with
  | read =>
    rcases arg with - | (- | ⟨b, bs⟩)
    · refine .reads rfl (fun answer => ?_) (Nat.le_refl 1)
      simp only [resumeRead, budget, hs]
    · trivial
    · exact s.deserialize_frugal _
  | capability capability => exact s.resumeCapability_frugal f capability arg

end ImapGreetingGet

namespace ImapStartTls

def budget (s : ImapStartTls) (arg : Option Bytes) : Nat :=
  match s.state with
  | .tag => 3
  | _ => readBudget arg

abbrev FrugalAt (before : Nat) (r : ImapStartTlsResult × ImapStartTls) : Prop :=
  Frugal ImapYield.request budget before r.1 r.2

theorem budget_reading {s : ImapStartTls} (h : s.state ≠ .tag) (arg : Option Bytes) :
    s.budget arg = readBudget arg := by
  unfold budget
  split
  · exact absurd ‹_› h
  · rfl

theorem discardGreeting_frugal {s : ImapStartTls} (hs : s.state ≠ .tag) (arg : Option Bytes) :
    FrugalAt (readBudget arg) (s.discardGreeting arg) := by
  rcases arg with - | (- | ⟨b, bs⟩)
  · exact .reads rfl (budget_reading hs) (Nat.le_refl 1)
  · trivial
  · have hstate := nextLine_state { s with buf := s.buf ++ b :: bs }
    rw [discardGreeting]
    · generalize nextLine _ = r at hstate ⊢
      obtain ⟨err | - | line, s'⟩ := r
      · trivial
      · exact .reads rfl (budget_reading (hstate.trans_ne hs)) (Nat.le_add_left 1 4)
      · exact .asks fun _ _ => Nat.le_succ 4
    · simp

theorem discardLines_frugal {s : ImapStartTls} (hs : s.state ≠ .tag) (tagBytes : Bytes) :
    FrugalAt PER_READ (s.discardLines tagBytes) := by
  fun_induction discardLines s tagBytes with
  | case1 => trivial
  | case2 s s' hn =>
    have hstate := nextLine_state s
    rw [hn] at hstate
    exact .reads rfl (budget_reading (hstate.trans_ne hs)) (by decide)
  | case3 => exact Nat.le_refl PER_READ
  | case4 s line s' hn hline ih =>
    have hstate := nextLine_state s
    rw [hn] at hstate
    exact ih (hstate.trans_ne hs)

theorem discardStartTls_frugal (s : ImapStartTls) (tagBytes : Bytes) (arg : Option Bytes) :
    FrugalAt (readBudget arg) (s.discardStartTls tagBytes arg) := by
  rcases arg with - | (- | ⟨b, bs⟩)
  · exact .reads rfl (fun _ => rfl) (Nat.le_refl 1)
  · trivial
  · exact discardLines_frugal (by simp) tagBytes

theorem sendStartTls_frugal [TryFrom Bytes Tag] [Encoder Command] (s : ImapStartTls) (arg : Option Bytes) :
    FrugalAt 3 (s.sendStartTls arg) := by
  unfold sendStartTls
  split
  · trivial
  · split
    · trivial
    · split
      · refine .asks fun answer hans => ?_
        obtain rfl := Request.answeredBy_nothing.mp hans
        exact Nat.lt_of_succ_lt (Nat.lt_succ_self 2)
      · trivial

theorem resume_frugal [TryFrom Bytes Tag] [Encoder Command] (s : ImapStartTls) (arg : Option Bytes) :
    FrugalAt (s.budget arg) (s.resume arg) := by
  unfold resume budget
  cases hs : s.state with
  | discardGreeting => exact discardGreeting_frugal (by simp [hs]) arg
  | tag => exact s.sendStartTls_frugal arg
  | writeStartTls tagBytes => exact s.discardStartTls_frugal tagBytes arg
  | discardStartTls tagBytes => exact s.discardStartTls_frugal tagBytes arg

end ImapStartTls

/-! ### The session -/

namespace ImapSessionOpen

variable {K : Type}

def Auth.budget : Auth K → Option Bytes → Nat
  | .login auth, arg => auth.budget arg
  | .sasl auth, arg => auth.budget arg

def budget (s : ImapSessionOpen K) (arg : Option Bytes) : Nat :=
  match s.state with
  | .connect => 2
  | .connected => readBudget arg
  | .startTls startTls => startTls.budget arg
  | .upgraded => 4
  | .capability capability => ImapSend.budget capability arg
  | .greeting greeting => greeting.budget arg
  | .auth auth => auth.budget arg

abbrev FrugalAt (before : Nat) (r : Outcome K F) : Prop :=
  Frugal ImapSessionOpenYield.request budget before r.1 r.2.1

theorem fail_frugal (s : ImapSessionOpen K) (err : ImapSessionOpenError) (f : F) :
    FrugalAt before (s.fail err f) :=
  trivial

theorem complete_frugal (s : ImapSessionOpen K) (f : F) : FrugalAt PER_READ (s.complete f) :=
  Nat.le_refl PER_READ

variable [SaslMechanisms K] [TryFrom String AString]

theorem Auth.budget_new {sasl : Sasl} {initialRequest : Bool} {autoId : Option IdParameters}
    {auth : Auth K} (h : Auth.new sasl initialRequest autoId = .ok auth) (arg : Option Bytes) :
    auth.budget arg = 4 := by
  unfold Auth.new at h
  cases sasl with
  | login creds =>
    dsimp only at h
    split at h
    · rename_i login hnew
      obtain rfl := Except.ok.inj h
      exact ImapLogin.budget_new hnew arg
    · simp at h
  | other mechanism => simp at h
  | _ =>
    obtain rfl := Except.ok.inj h
    rfl

variable [Fragmentizer F] [TryFrom Bytes Tag] [Encoder Command] [Encoder AuthenticateData]
  (s : ImapSessionOpen K) (f : F)

omit [TryFrom String AString] in
theorem Auth.resume_frugal (auth : Auth K) (arg : Option Bytes) : Frugal ImapYield.request Auth.budget
    (auth.budget arg) (auth.resume f arg).1 (auth.resume f arg).2.1 := by
  cases auth with
  | login login =>
    have hfrugal := login.resume_frugal f arg
    rw [Auth.resume]
    generalize login.resume f arg = r at hfrugal ⊢
    obtain ⟨y | err | capability, login', f'⟩ := r
    · exact hfrugal.forwards rfl fun _ => rfl
    · trivial
    · exact hfrugal
  | sasl auth =>
    have hfrugal := auth.resume_frugal f arg
    rw [Auth.resume]
    generalize auth.resume f arg = r at hfrugal ⊢
    obtain ⟨y | err | capability, auth', f'⟩ := r
    · exact hfrugal.forwards rfl fun _ => rfl
    · trivial
    · exact hfrugal

omit [TryFrom String AString] in
theorem resumeAuth_frugal (auth : Auth K) (arg : Option Bytes) :
    FrugalAt (auth.budget arg) (s.resumeAuth auth f arg) := by
  have hfrugal := auth.resume_frugal f arg
  rw [resumeAuth]
  generalize auth.resume f arg = r at hfrugal ⊢
  obtain ⟨y | err | capability, auth', f'⟩ := r
  · exact hfrugal.forwards (ofYield_request y) fun _ => rfl
  · exact fail_frugal _ _ f'
  · exact (complete_frugal _ f').mono hfrugal

theorem authenticate_frugal : FrugalAt PER_READ (s.authenticate f) := by
  rw [authenticate, wantsAuth]
  split_ifs
  · exact complete_frugal _ f
  · cases s.sasl with
    | none => exact complete_frugal _ f
    | some sasl =>
      dsimp only
      cases hnew : (Auth.new sasl s.initialRequest s.opts.autoId : Except _ (Auth K)) with
      | error err => exact fail_frugal _ _ f
      | ok auth =>
        refine (resumeAuth_frugal _ f auth none).mono ?_
        rw [Auth.budget_new hnew]
        decide

theorem resumeCapability_frugal (capability : ImapCapabilityGet) (arg : Option Bytes) :
    FrugalAt (ImapSend.budget capability arg) (s.resumeCapability capability f arg) := by
  have hfrugal := capability.resume_frugal f arg
  rw [resumeCapability]
  generalize ImapCapabilityGet.resume capability f arg = r at hfrugal ⊢
  obtain ⟨y | err | v, capability', f'⟩ := r
  · exact hfrugal.forwards (ofYield_request y) fun _ => rfl
  · exact fail_frugal _ _ f'
  · exact (authenticate_frugal _ f').mono hfrugal

theorem resumeGreeting_frugal (greeting : ImapGreetingGet) (arg : Option Bytes) :
    FrugalAt (greeting.budget arg) (s.resumeGreeting greeting f arg) := by
  have hfrugal := greeting.resume_frugal f arg
  rw [resumeGreeting]
  generalize greeting.resume f arg = r at hfrugal ⊢
  obtain ⟨y | err | v, greeting', f'⟩ := r
  · exact hfrugal.forwards (ofYield_request y) fun _ => rfl
  · exact fail_frugal _ _ f'
  · exact (authenticate_frugal _ f').mono hfrugal

omit [SaslMechanisms K] [TryFrom String AString] [Fragmentizer F] [Encoder AuthenticateData] in
theorem resumeStartTls_frugal (startTls : ImapStartTls) (arg : Option Bytes) :
    FrugalAt (startTls.budget arg) (s.resumeStartTls startTls f arg) := by
  have hfrugal := startTls.resume_frugal arg
  unfold resumeStartTls
  generalize startTls.resume arg = r at hfrugal ⊢
  obtain ⟨y | err | leftover, startTls'⟩ := r
  · exact hfrugal.forwards (ofYield_request y) fun _ => rfl
  · exact fail_frugal _ _ f
  · dsimp only
    split_ifs
    · exact fail_frugal _ _ f
    · exact .asks fun _ _ => hfrugal

theorem resume_frugal (arg : Option Bytes) : FrugalAt (s.budget arg) (s.resume f arg) := by
  unfold resume budget
  cases s.state with
  | connect =>
    dsimp only
    unfold resumeConnect
    split_ifs
    · exact fail_frugal _ _ f
    · have hconnect : s.transport.connect.request = .nothing := by cases s.transport <;> rfl
      refine .asks fun answer hans => ?_
      rw [hconnect] at hans
      obtain rfl := Request.answeredBy_nothing.mp hans
      exact Nat.lt_succ_self 1
  | connected =>
    dsimp only
    split_ifs
    · exact resumeStartTls_frugal s f .new arg
    · exact resumeGreeting_frugal s f _ arg
  | startTls startTls => exact resumeStartTls_frugal s f startTls arg
  | upgraded => exact resumeCapability_frugal s f .new arg
  | capability capability => exact resumeCapability_frugal s f capability arg
  | greeting greeting => exact resumeGreeting_frugal s f greeting arg
  | auth auth => exact resumeAuth_frugal s f auth arg

end ImapSessionOpen

theorem imapSessionOpen_spends (K : Type) [SaslMechanisms K] [TryFrom String AString]
    [TryFrom Bytes Tag] [Encoder Command] [Encoder AuthenticateData] :
    (imapSessionOpen K).Spends PER_READ ImapSessionOpen.budget :=
  Coroutine.spends_of fun s f arg => s.resume_frugal f arg

end IoImap
