import IoImap.Send.Unlogged
import IoImap.Session

/-!
# Sessions do not see the log

Every coroutine that a session resumes does to the fragmentizer what it does without the
log, and so does the session.
-/

namespace IoImap
open Fragmentizer

variable {F : Type} [Fragmentizer F] [TryFrom Bytes Tag] [Encoder Command]

theorem ImapCapabilityGet.resume_erase (capability : ImapCapabilityGet) (l : Logged F)
    (arg : Option Bytes) :
    ImapCapabilityGet.resume capability l.frag arg =
      Logged.erase (ImapCapabilityGet.resume capability l arg) := by
  rw [ImapCapabilityGet.resume, ImapCapabilityGet.resume, commandResume_erase]
  rfl

/-! ### The rounds behind an authentication -/

namespace AuthRounds

variable (r : AuthRounds) (l : Logged F) (arg : Option Bytes)

theorem resumeId_erase (id : ImapServerId) :
    r.resumeId id l.frag arg = Logged.erase (r.resumeId id l arg) := by
  have hid : id.resume l.frag arg = Logged.erase (id.resume l arg) := commandResume_erase _ id l arg
  rw [resumeId, resumeId, hid]
  rcases id.resume l arg with ⟨y | err | out, id', l'⟩ <;> rfl

theorem thenId_erase : r.thenId l.frag = Logged.erase (r.thenId l) := by
  rw [thenId, thenId]
  rcases r.wantsId with ⟨- | id, r'⟩
  · rfl
  · exact resumeId_erase r' l none id

theorem resumeCapability_erase (capability : ImapCapabilityGet) :
    r.resumeCapability capability l.frag arg = Logged.erase (r.resumeCapability capability l arg) := by
  rw [resumeCapability, resumeCapability, ImapCapabilityGet.resume_erase]
  rcases ImapCapabilityGet.resume capability l arg with ⟨y | err | observed, capability', l'⟩
  · rfl
  · rfl
  · exact thenId_erase _ l'

theorem start_erase (newCapability : Option (Vec1 Capability)) :
    r.start newCapability l.frag = Logged.erase (r.start newCapability l) := by
  rw [start, start]
  cases (r.observe newCapability).wantsCapability with
  | none => exact thenId_erase _ l
  | some capability => exact resumeCapability_erase _ l none capability

theorem resume_erase : r.resume l.frag arg = Logged.erase (r.resume l arg) := by
  rw [resume, resume]
  cases r.round with
  | none => rfl
  | capability capability => exact resumeCapability_erase r l arg capability
  | id id => exact resumeId_erase r l arg id

end AuthRounds

/-! ### LOGIN and the SASL coroutines -/

theorem ImapLogin.resume_erase (s : ImapLogin) (l : Logged F) (arg : Option Bytes) :
    s.resume l.frag arg = Logged.erase (s.resume l arg) := by
  rw [resume, resume]
  cases s.state with
  | rounds => exact congrArg s.ofRounds (s.rounds.resume_erase l arg)
  | send send =>
    dsimp only
    rw [resumeSend, resumeSend, commandResume_erase]
    rcases commandResume id send l arg with ⟨y | err | out, send', l'⟩
    · rfl
    · rfl
    · exact congrArg s.ofRounds (s.rounds.start_erase l' _)

namespace ImapAuth

variable {K : Type} [SaslCoroutine K] [Encoder AuthenticateData] (s : ImapAuth K) (l : Logged F)
  (arg : Option Bytes)

omit [Encoder AuthenticateData] in
theorem succeed_erase (code : Option Code) (data : List Data) (untagged : List StatusBody) :
    s.succeed code data untagged l.frag = Logged.erase (s.succeed code data untagged l) := by
  rw [succeed, succeed]
  rcases s.resumeSasl .done with ⟨err | payload, s'⟩
  · rfl
  · exact congrArg s'.ofRounds (s'.rounds.start_erase l _)

omit [SaslCoroutine K] [Encoder Command] in
theorem wantsContinue_erase (payload : Bytes) (tag : Tag) :
    s.wantsContinue payload tag l.frag = Logged.erase (s.wantsContinue payload tag l) := by
  rw [wantsContinue, wantsContinue, ImapSend.resume_erase]
  rcases (ImapSend.new (.continue payload) tag : ImapSend AuthenticateData).resume l none with
    ⟨y | err | out, send, l'⟩ <;> rfl

omit [Encoder Command] in
theorem challenged_erase (cr : CommandContinuationRequest) (tag : Tag) :
    s.challenged cr tag l.frag = Logged.erase (s.challenged cr tag l) := by
  rw [challenged, challenged]
  rcases s.resumeSasl (.input (extractChallenge s.framing cr)) with ⟨err | payload, s'⟩
  · rfl
  · exact wantsContinue_erase s' l _ tag

theorem sendOver_erase (out : ImapSendOutput Command) (pending : Option Bytes) :
    s.sendOver out pending l.frag = Logged.erase (s.sendOver out pending l) := by
  unfold sendOver
  split
  · rfl
  · exact wantsContinue_erase s l _ _
  · exact challenged_erase s l _ _
  · rfl
  · rename_i tagged _ _ _
    cases tagged.body.kind with
    | ok =>
      dsimp only
      split_ifs
      · exact succeed_erase s l _ _ _
      · rfl
    | no => rfl
    | bad => rfl

theorem continueOver_erase (out : ImapSendOutput AuthenticateData) :
    s.continueOver out l.frag = Logged.erase (s.continueOver out l) := by
  unfold continueOver
  split
  · rfl
  · exact challenged_erase s l _ _
  · rfl
  · rename_i tagged _ _ _
    cases tagged.body.kind with
    | ok => exact succeed_erase s l _ _ _
    | no => rfl
    | bad => rfl

theorem resumeSend_erase (send : ImapSend Command) (pending : Option Bytes) :
    s.resumeSend send pending l.frag arg = Logged.erase (s.resumeSend send pending l arg) := by
  rw [resumeSend, resumeSend, ImapSend.resume_erase]
  rcases send.resume l arg with ⟨y | err | out, send', l'⟩
  · rfl
  · rfl
  · exact sendOver_erase s l' out pending

theorem resumeContinue_erase (send : ImapSend AuthenticateData) :
    s.resumeContinue send l.frag arg = Logged.erase (s.resumeContinue send l arg) := by
  rw [resumeContinue, resumeContinue, ImapSend.resume_erase]
  rcases send.resume l arg with ⟨y | err | out, send', l'⟩
  · rfl
  · rfl
  · exact continueOver_erase s l' out

theorem resume_erase : s.resume l.frag arg = Logged.erase (s.resume l arg) := by
  unfold resume
  cases s.state with
  | start =>
    dsimp only
    rw [resumeStart, resumeStart]
    rcases s.resumeSasl .none with ⟨err | payload, s'⟩
    · rfl
    · exact resumeSend_erase s' l arg _ _
  | send send pending => exact resumeSend_erase s l arg send pending
  | «continue» send => exact resumeContinue_erase s l arg send
  | rounds => exact congrArg s.ofRounds (s.rounds.resume_erase l arg)

end ImapAuth

/-! ### The greeting -/

namespace ImapGreetingGet

variable (s : ImapGreetingGet) (l : Logged F) (arg : Option Bytes)

theorem resumeCapability_erase (capability : ImapCapabilityGet) :
    s.resumeCapability capability l.frag arg = Logged.erase (s.resumeCapability capability l arg) := by
  rw [resumeCapability, resumeCapability, ImapCapabilityGet.resume_erase]
  rcases ImapCapabilityGet.resume capability l arg with ⟨y | err | observed, capability', l'⟩ <;> rfl

theorem greeted_erase : s.greeted l.frag = Logged.erase (s.greeted l) := by
  have hdecode : decodeGreeting l = decodeGreeting l.frag := rfl
  unfold greeted
  rw [hdecode]
  rcases decodeGreeting l.frag with (- | - | - | -) | greeting
  · rfl
  · rfl
  · rfl
  · rfl
  · dsimp only
    split_ifs
    · rfl
    · exact resumeCapability_erase _ l none .new
    · rfl

theorem deserialize_erase : s.deserialize l.frag = Logged.erase (s.deserialize l) := by
  fun_induction deserialize s l with
  | case1 l l' hp =>
    have hf := Logged.progress_frag l
    rw [hp] at hf
    rw [deserialize]
    split <;> simp_all [Logged.erase]
  | case2 l l' hp hcomplete =>
    have hf := Logged.progress_frag l
    rw [hp] at hf
    have hcomplete' : isMessageComplete l'.frag = true := hcomplete
    rw [deserialize]
    split <;> simp_all [greeted_erase]
  | case3 l l' hp hcomplete ih =>
    have hf := Logged.progress_frag l
    rw [hp] at hf
    have hcomplete' : ¬ isMessageComplete l'.frag = true := hcomplete
    rw [deserialize]
    split <;> simp_all
  | case4 l info l' hline hp =>
    have hf := Logged.progress_frag l
    rw [hp] at hf
    rw [deserialize]
    split <;> simp_all [Logged.erase]
    rfl

theorem resume_erase : s.resume l.frag arg = Logged.erase (s.resume l arg) := by
  unfold resume
  cases s.state with
  | read =>
    rcases arg with - | (- | ⟨b, bs⟩)
    · rfl
    · rfl
    · exact deserialize_erase s (enqueueBytes l (b :: bs))
  | capability capability => exact resumeCapability_erase s l arg capability

end ImapGreetingGet

/-! ### The session -/

namespace ImapSessionOpen

variable {K : Type} [SaslMechanisms K] [TryFrom String AString] [Encoder AuthenticateData]
  (s : ImapSessionOpen K) (l : Logged F) (arg : Option Bytes)

omit [TryFrom String AString] in
theorem Auth.resume_erase (auth : Auth K) : auth.resume l.frag arg = Logged.erase (auth.resume l arg) := by
  cases auth with
  | login auth =>
    rw [Auth.resume, Auth.resume, ImapLogin.resume_erase]
    rfl
  | sasl auth =>
    rw [Auth.resume, Auth.resume, ImapAuth.resume_erase]
    rfl

omit [TryFrom String AString] in
theorem resumeAuth_erase (auth : Auth K) :
    s.resumeAuth auth l.frag arg = Logged.erase (s.resumeAuth auth l arg) := by
  rw [resumeAuth, resumeAuth, Auth.resume_erase]
  rcases auth.resume l arg with ⟨y | err | capability, auth', l'⟩ <;> rfl

theorem authenticate_erase : s.authenticate l.frag = Logged.erase (s.authenticate l) := by
  rw [authenticate, authenticate]
  rcases s.wantsAuth with ⟨err | - | auth, s'⟩
  · rfl
  · rfl
  · exact resumeAuth_erase s' l none auth

theorem resumeCapability_erase (capability : ImapCapabilityGet) :
    s.resumeCapability capability l.frag arg = Logged.erase (s.resumeCapability capability l arg) := by
  rw [resumeCapability, resumeCapability, ImapCapabilityGet.resume_erase]
  rcases ImapCapabilityGet.resume capability l arg with ⟨y | err | observed, capability', l'⟩
  · rfl
  · rfl
  · exact authenticate_erase _ l'

theorem resumeGreeting_erase (greeting : ImapGreetingGet) :
    s.resumeGreeting greeting l.frag arg = Logged.erase (s.resumeGreeting greeting l arg) := by
  rw [resumeGreeting, resumeGreeting, ImapGreetingGet.resume_erase]
  rcases greeting.resume l arg with ⟨y | err | ok, greeting', l'⟩
  · rfl
  · rfl
  · exact authenticate_erase _ l'

omit [SaslMechanisms K] [TryFrom String AString] [Fragmentizer F] [Encoder AuthenticateData] in
theorem resumeStartTls_erase (startTls : ImapStartTls) :
    s.resumeStartTls startTls l.frag arg = Logged.erase (s.resumeStartTls startTls l arg) := by
  unfold resumeStartTls
  rcases startTls.resume arg with ⟨y | err | leftover, startTls'⟩
  · rfl
  · rfl
  · dsimp only
    split_ifs <;> rfl

theorem resume_erase : s.resume l.frag arg = Logged.erase (s.resume l arg) := by
  unfold resume
  cases s.state with
  | connect =>
    dsimp only
    unfold resumeConnect
    split_ifs <;> rfl
  | connected =>
    dsimp only
    split_ifs
    · exact resumeStartTls_erase s l arg .new
    · exact resumeGreeting_erase s l arg _
  | startTls startTls => exact resumeStartTls_erase s l arg startTls
  | upgraded => exact resumeCapability_erase s l arg .new
  | capability capability => exact resumeCapability_erase s l arg capability
  | greeting greeting => exact resumeGreeting_erase s l arg greeting
  | auth auth => exact resumeAuth_erase s l arg auth

end ImapSessionOpen

theorem imapSessionOpen_unlogged (K : Type) [SaslMechanisms K] [TryFrom String AString]
    [Encoder AuthenticateData] : (imapSessionOpen K).Unlogged :=
  fun s l arg _ => s.resume_erase l arg

end IoImap
