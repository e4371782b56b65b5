import IoImap.Discipline.Authentication
import IoImap.Discipline.Commands
import IoImap.Session.Secrecy

/-!
# The discipline of opening a session

Up to the upgrade the octets go to the line buffer of STARTTLS, which is empty when
the capabilities follow. Everything else hands them to the fragmentizer.
-/

namespace IoImap
open Fragmentizer Transition ImapSend

instance : Utters ImapSessionOpenYield where
  utterance
    | .wantsTag => .asksTag
    | .wantsWrite bytes => .writes bytes
    | _ => .silent
  request := ImapSessionOpenYield.request

/-- The command whose tag STARTTLS waits for. -/
def ImapStartTls.exchange (s : ImapStartTls) : Exchange :=
  match s.state with
  | .tag => .awaits .startTls
  | _ => .speaks []

instance (K : Type) : Converses (ImapSessionOpen.Auth K) where
  exchange
    | .login auth => Converses.exchange auth
    | .sasl auth => Converses.exchange auth

/-- What STARTTLS has read and not looked through. -/
def ImapSessionOpen.unread {K : Type} (s : ImapSessionOpen K) : Option Bytes :=
  match s.state with
  | .startTls startTls => some startTls.buf
  | _ => none

instance (K : Type) : Converses (ImapSessionOpen K) where
  exchange s := match s.state with
    | .connect | .connected | .upgraded => .speaks []
    | .startTls startTls => startTls.exchange
    | .capability capability => ImapSend.exchange capability
    | .greeting greeting => Converses.exchange greeting
    | .auth auth => Converses.exchange auth
  unread := ImapSessionOpen.unread

namespace ImapSessionOpen

variable {K F : Type}

theorem exchange_connect (s : ImapSessionOpen K) :
    Converses.exchange ({ s with state := .connect } : ImapSessionOpen K) = .speaks [] := rfl

theorem ofYield_utters (y : ImapYield) :
    Utters.utterance (ImapSessionOpenYield.ofYield y) = Utters.utterance y ∧
      Utters.request (ImapSessionOpenYield.ofYield y) = Utters.request y := by
  cases y <;> exact ⟨rfl, rfl⟩

def Auth.InConversation [Encoder Command] (auth : Auth K) (due : Request) : Prop :=
  match auth with
  | .login auth => auth.InConversation due
  | .sasl auth => auth.InConversation due

def InConversation [Encoder Command] (s : ImapSessionOpen K) (due : Request) : Prop :=
  match s.state with
  | .connect | .connected | .upgraded => due = .nothing
  | .startTls startTls => ∃ tag seen, startTls.At tag seen due
  | .capability capability => ImapSend.InConversation capability due
  | .greeting greeting => greeting.InConversation due
  | .auth auth => auth.InConversation due

theorem unread_of_ne {s : ImapSessionOpen K} (h : ∀ startTls, s.state ≠ .startTls startTls) :
    Converses.unread s = none := by
  show s.unread = none
  unfold unread
  split
  · rename_i startTls hs
    exact absurd hs (h startTls)
  · rfl

section Resume

variable [SaslMechanisms K] [TryFrom String AString] [Fragmentizer F] [TryFrom Bytes Tag] [LawfulTag]
  [Encoder Command] [Encoder AuthenticateData] [Encoder IdleDone] [LawfulEncoder Command]
  [LawfulEncoder AuthenticateData] {s s' s₀ : ImapSessionOpen K} {due : Request} {f : F}
  {log : List FragmentizerEvent} {l l' : Logged F} {arg : Option Bytes} {out : ImapSessionOpenResult}

/-! ### The authentication -/

omit [TryFrom String AString] in
theorem Auth.abides {auth auth' : Auth K}
    {out : CoroutineState ImapYield (Except ImapSessionOpenError (List Capability))}
    (h : auth.InConversation due) (hans : due.answeredBy arg = true)
    (he : auth.resume (⟨f, log⟩ : Logged F) arg = (out, auth', l)) :
    Abides Auth.InConversation auth due arg log out auth' l := by
  cases auth with
  | login auth =>
    have hexchange : Converses.exchange (Auth.login auth : Auth K) = Converses.exchange auth := rfl
    obtain ⟨⟨y | err | v, login', l'⟩, hr⟩ :
      ∃ r, auth.resume (⟨f, log⟩ : Logged F) arg = r := ⟨_, rfl⟩
    all_goals
      have habides := ImapLogin.abides h hans hr
      simp only [Auth.resume, hr, CoroutineState.tryOk] at he
      cases he
    · exact habides.yields hexchange rfl ⟨rfl, rfl⟩ (fun hI => hI)
    · exact habides.completes hexchange (.inr ⟨_, rfl⟩) _
    · exact habides.completes hexchange (.inl ⟨v, rfl⟩) _
  | sasl auth =>
    have hexchange : Converses.exchange (Auth.sasl auth : Auth K) = Converses.exchange auth := rfl
    obtain ⟨⟨y | err | v, sasl', l'⟩, hr⟩ :
      ∃ r, auth.resume (⟨f, log⟩ : Logged F) arg = r := ⟨_, rfl⟩
    all_goals
      have habides := ImapAuth.abides h hans hr
      simp only [Auth.resume, hr, CoroutineState.tryOk] at he
      cases he
    · exact habides.yields hexchange rfl ⟨rfl, rfl⟩ (fun hI => hI)
    · exact habides.completes hexchange (.inr ⟨_, rfl⟩) _
    · exact habides.completes hexchange (.inl ⟨v, rfl⟩) _

omit [Fragmentizer F] [TryFrom Bytes Tag] [LawfulTag] [Encoder AuthenticateData] [Encoder IdleDone]
  [LawfulEncoder Command] [LawfulEncoder AuthenticateData] in
theorem Auth.new_inConversation {sasl : Sasl} {initialRequest : Bool} {autoId : Option IdParameters}
    {auth : Auth K} (h : Auth.new sasl initialRequest autoId = .ok auth) :
    auth.InConversation .nothing ∧ Converses.exchange auth = .speaks [] := by
  unfold Auth.new at h
  cases sasl with
  | login creds =>
    simp only at h
    split at h
    · rename_i login hlogin
      obtain rfl := Except.ok.inj h
      refine ⟨ImapLogin.new_inConversation hlogin, ?_⟩
      unfold ImapLogin.new at hlogin
      split at hlogin
      · obtain rfl := Except.ok.inj hlogin
        rfl
      · simp at hlogin
      · simp at hlogin
    · simp at h
  | other => simp at h
  | _ =>
    obtain rfl := Except.ok.inj h
    exact ⟨rfl, rfl⟩

omit [TryFrom String AString] in
theorem AuthResumed.abides {auth : Auth K} (h : AuthResumed s auth (⟨f, log⟩ : Logged F) arg out s' l)
    (hauth : auth.InConversation due) (hans : due.answeredBy arg = true)
    (hs₀ : Converses.exchange s₀ = Converses.exchange auth) :
    Abides InConversation s₀ due arg log out s' l := by
  cases h with
  | yields hr => exact (Auth.abides hauth hans hr).yields hs₀ rfl (ofYield_utters _) (fun hI => hI)
  | fails hr => exact (Auth.abides hauth hans hr).completes hs₀ (.inr ⟨_, rfl⟩) _
  | completes hr => exact (Auth.abides hauth hans hr).completes hs₀ (.inl ⟨_, rfl⟩) _

theorem Authenticated.abides (h : Authenticated s (⟨f, log⟩ : Logged F) out s' l)
    (hs₀ : Converses.exchange s₀ = .speaks []) : Abides InConversation s₀ .nothing none log out s' l := by
  cases h with
  | skips => exact abides_silent (l := ⟨f, log⟩) hs₀ .ends (by simp)
  | refuses => exact abides_silent (l := ⟨f, log⟩) hs₀ .ends (by simp)
  | starts hpre hsasl hnew hr =>
    obtain ⟨hauth, hexchange⟩ := Auth.new_inConversation hnew
    exact hr.abides hauth rfl (hs₀.trans hexchange.symm)

/-! ### Behind the upgrade, or without one -/

omit [SaslMechanisms K] [TryFrom String AString] [Fragmentizer F] [TryFrom Bytes Tag] [LawfulTag]
  [Encoder AuthenticateData] [Encoder IdleDone] [LawfulEncoder Command]
  [LawfulEncoder AuthenticateData] in
theorem AtGreeting.inConversation {greeting : ImapGreetingGet} (hs : s.AtGreeting greeting)
    (h : s.InConversation due) : greeting.InConversation due ∧
      Converses.exchange s = Converses.exchange greeting ∧ Converses.unread s = none := by
  rw [InConversation] at h
  obtain hs | ⟨hs, -, rfl⟩ := hs
  · rw [hs] at h
    exact ⟨h, by simp [Converses.exchange, hs], unread_of_ne (by simp [hs])⟩
  · rw [hs] at h
    exact ⟨.inl h, by simp [Converses.exchange, hs, ImapGreetingGet.new], unread_of_ne (by simp [hs])⟩

omit [SaslMechanisms K] [TryFrom String AString] [Fragmentizer F] [TryFrom Bytes Tag] [LawfulTag]
  [Encoder AuthenticateData] [Encoder IdleDone] [LawfulEncoder Command]
  [LawfulEncoder AuthenticateData] in
theorem AtCapability.inConversation {capability : ImapCapabilityGet} (hs : s.AtCapability capability)
    (h : s.InConversation due) : ImapSend.InConversation capability due ∧
      Converses.exchange s = ImapSend.exchange capability ∧ Converses.unread s = none := by
  rw [InConversation] at h
  obtain hs | ⟨hs, rfl⟩ := hs
  · rw [hs] at h
    exact ⟨h, by simp [Converses.exchange, hs], unread_of_ne (by simp [hs])⟩
  · rw [hs] at h
    obtain rfl := h
    have hexchange : Converses.exchange s = .speaks [] := by simp [Converses.exchange, hs]
    exact ⟨inConversation_command .capability, hexchange, unread_of_ne (by simp [hs])⟩

theorem Resumed.abides (h : Resumed s (⟨f, log⟩ : Logged F) arg out s' l) (hs : s.InConversation due)
    (hans : due.answeredBy arg = true) :
    (Abides InConversation s due arg log out s' l ∧ Converses.unread s = none) ∨
      ∃ startTls, s.AtStartTls startTls ∧ s.resumeStartTls startTls ⟨f, log⟩ arg = (out, s', l) := by
  have hconnect : s.state = .connect → due = .nothing ∧ arg = none ∧
      Converses.exchange s = .speaks [] := by
    intro hst
    rw [InConversation, hst] at hs
    obtain rfl := hs
    exact ⟨rfl, Request.answeredBy_nothing.mp hans, by simp [Converses.exchange, hst]⟩
  cases h with
  | overTls hst =>
    obtain ⟨rfl, rfl, hexchange⟩ := hconnect hst
    exact .inl ⟨abides_silent (l := ⟨f, log⟩) hexchange .ends (by simp), unread_of_ne (by simp [hst])⟩
  | connects hst =>
    obtain ⟨rfl, rfl, hexchange⟩ := hconnect hst
    have hutters : Utters.utterance s.transport.connect = .silent ∧
        Utters.request s.transport.connect = .nothing := by
      cases s.transport <;> exact ⟨rfl, rfl⟩
    refine .inl ⟨abides_silent (l := ⟨f, log⟩) hexchange ?_ fun y hy => ?_, unread_of_ne (by simp [hst])⟩
    · rw [CoroutineState.utterance, hutters.1]
      exact .listens (.inl rfl)
    · rw [← CoroutineState.yielded.inj hy, hutters.2]
      rfl
  | startTls hst hr => exact .inr ⟨_, hst, hr⟩
  | greets hst hr =>
    obtain ⟨hgreeting, hexchange, hunread⟩ := hst.inConversation hs
    exact .inl ⟨(ImapGreetingGet.abides hgreeting hans hr).yields hexchange rfl (ofYield_utters _)
      (fun hI => hI), hunread⟩
  | greetingFails hst hr =>
    obtain ⟨hgreeting, hexchange, hunread⟩ := hst.inConversation hs
    exact .inl ⟨(ImapGreetingGet.abides hgreeting hans hr).completes hexchange (.inr ⟨_, rfl⟩) _, hunread⟩
  | @greeted _ _ _ _ _ l' _ hst hr hauth =>
    obtain ⟨hgreeting, hexchange, hunread⟩ := hst.inConversation hs
    have hnext := hauth.abides (exchange_connect s)
    exact .inl ⟨(ImapGreetingGet.abides hgreeting hans hr).handsOver hexchange hnext rfl, hunread⟩
  | asks hst hr =>
    obtain ⟨hcapability, hexchange, hunread⟩ := hst.inConversation hs
    exact .inl ⟨(ImapCapabilityGet.abides hcapability hans hr).yields hexchange rfl (ofYield_utters _)
      (fun hI => hI), hunread⟩
  | capabilityFails hst hr =>
    obtain ⟨hcapability, hexchange, hunread⟩ := hst.inConversation hs
    exact .inl ⟨(ImapCapabilityGet.abides hcapability hans hr).completes hexchange (.inr ⟨_, rfl⟩) _, hunread⟩
  | told hst hr hauth =>
    obtain ⟨hcapability, hexchange, hunread⟩ := hst.inConversation hs
    have hnext := hauth.abides (exchange_connect s)
    exact .inl ⟨(ImapCapabilityGet.abides hcapability hans hr).handsOver hexchange hnext rfl, hunread⟩
  | auth hst hr =>
    rw [InConversation, hst] at hs
    exact .inl ⟨hr.abides hs hans (by simp [Converses.exchange, hst]), unread_of_ne (by simp [hst])⟩

end Resume

/-! ### STARTTLS -/

section StartTls

variable {s s' : ImapSessionOpen K} {startTls startTls' : ImapStartTls} {tag : Option Tag}
  {seen : Bytes} {due : Request} {l l' : Logged F} {arg : Option Bytes} {out : ImapSessionOpenResult}

theorem exchange_untagged (h : startTls.state ≠ .tag) : startTls.exchange = .speaks [] := by
  unfold ImapStartTls.exchange
  split
  · rename_i hs
    exact absurd hs h
  · rfl

theorem exchange_at (h : startTls.At tag seen due) :
    due = .tag ↔ ∃ body, startTls.exchange = .awaits body := by
  rw [startTls_due_tag h]
  by_cases hs : startTls.state = .tag
  · simp [ImapStartTls.exchange, hs]
  · simp [hs, exchange_untagged hs]

theorem startTls_writes [Encoder Command] [LawfulStartTls] {tag : Tag} {line : Bytes}
    (h : ImapStartTls.startTlsLine tag = some line) :
    buffers [] (Encoder.encode (⟨tag, .startTls⟩ : Command)) = [line] := by
  obtain ⟨rest, hencode⟩ := startTlsLine_eq_some h
  obtain ⟨data, hline⟩ := LawfulStartTls.line tag
  rw [hline] at hencode ⊢
  simp only [List.cons.injEq, Fragment.line.injEq] at hencode
  rw [hencode.1]
  rfl

variable [TryFrom Bytes Tag] [LawfulTag] [Encoder Command] [Encoder AuthenticateData]
  [Encoder IdleDone] [LawfulStartTls]

/-- STARTTLS goes on, or it ends with no octets left. -/
structure StartTlsKept (s : ImapSessionOpen K) (startTls : ImapStartTls) (due : Request)
    (arg : Option Bytes) (out : ImapSessionOpenResult) (s' : ImapSessionOpen K) : Prop where
  kept : Kept startTls.exchange due arg out.utterance (Converses.exchange s')
  goesOn : ∀ y, out = .yielded y → s'.InConversation y.request ∧
    StripsLines (startTls.buf ++ (due.octets arg).flatten) ((Converses.unread s').getD [])

theorem startTls_kept (h : startTls.At tag seen due) (hans : due.answeredBy arg = true)
    (he : s.resumeStartTls startTls l arg = (out, s', l')) :
    StartTlsKept s startTls due arg out s' ∧ l' = l := by
  have hspec := ImapStartTls.resume_spec h hans
  have hasked := exchange_at h
  obtain ⟨⟨x, startTls'⟩, hr⟩ : ∃ r, startTls.resume arg = r := ⟨_, rfl⟩
  rw [hr] at hspec
  rw [resumeStartTls, hr] at he
  generalize hoctets : (due.octets arg).flatten = octets at hspec
  cases hspec with
  | reads hs hat hnone hrest =>
    cases he
    have hs' : startTls'.state ≠ .tag := mt (startTls_due_tag hat).mpr (by simp)
    refine ⟨⟨⟨hasked, ?_⟩, fun y hy => ?_⟩, rfl⟩
    · have hexchange : Converses.exchange ({ s with state := .startTls startTls' } : ImapSessionOpen K) =
          .speaks [] := exchange_untagged hs'
      rw [exchange_untagged hs, hexchange]
      exact .listens (.inl rfl)
    · rw [← CoroutineState.yielded.inj hy, hoctets]
      exact ⟨⟨_, _, hat⟩, hrest⟩
  | asks hs htag hat hrest =>
    cases he
    have hs' : startTls'.state = .tag := (startTls_due_tag hat).mp rfl
    refine ⟨⟨⟨hasked, ?_⟩, fun y hy => ?_⟩, rfl⟩
    · have hexchange : Converses.exchange ({ s with state := .startTls startTls' } : ImapSessionOpen K) =
          .awaits .startTls := by
        simp [Converses.exchange, ImapStartTls.exchange, hs']
      rw [exchange_untagged hs, hexchange]
      exact .asks
    · rw [← CoroutineState.yielded.inj hy, hoctets]
      exact ⟨⟨_, _, hat⟩, hrest⟩
  | @writes tag bytes line _ hs htag harg htry hline hat hrest =>
    cases he
    have hs' : startTls'.state ≠ .tag := mt (startTls_due_tag hat).mpr (by simp)
    refine ⟨⟨⟨hasked, ?_⟩, fun y hy => ?_⟩, rfl⟩
    · have hexchange : Converses.exchange ({ s with state := .startTls startTls' } : ImapSessionOpen K) =
          .speaks [] := exchange_untagged hs'
      have hbefore : startTls.exchange = .awaits .startTls := by simp [ImapStartTls.exchange, hs]
      obtain rfl := LawfulTag.inner bytes tag htry
      rw [hbefore, hexchange]
      exact .tags harg htry (startTls_writes hline)
    · have hdue : due = .tag := (startTls_due_tag h).mpr hs
      have hempty : octets = [] := by
        rw [← hoctets, hdue]
        rfl
      rw [← CoroutineState.yielded.inj hy, hoctets, hempty, List.append_nil, ← hrest]
      exact ⟨⟨_, _, hat⟩, stripsLines_refl _⟩
  | @ends tag line rest _ hs htag hne hrest hl =>
    simp only at he
    rw [exchange_untagged hs] at hasked
    split at he
    · cases he
      refine ⟨⟨⟨?_, ?_⟩, by simp⟩, rfl⟩
      · rw [exchange_untagged hs]
        exact hasked
      · rw [exchange_untagged hs]
        exact .ends
    · rename_i hleftover
      cases he
      obtain rfl : rest = [] := by simpa using hleftover
      refine ⟨⟨⟨?_, ?_⟩, fun y hy => ?_⟩, rfl⟩
      · rw [exchange_untagged hs]
        exact hasked
      · rw [exchange_untagged hs]
        exact .listens (.inl rfl)
      · rw [← CoroutineState.yielded.inj hy, hoctets]
        exact ⟨rfl, hrest⟩
  | @fails err _ hnone hsilent =>
    cases he
    refine ⟨⟨⟨hasked, ?_⟩, by simp⟩, rfl⟩
    by_cases hs : startTls.state = .tag
    · obtain rfl : due = .tag := (startTls_due_tag h).mpr hs
      obtain ⟨bytes, rfl⟩ := Option.isSome_iff_exists.mp hans
      have hbefore : startTls.exchange = .awaits .startTls := by simp [ImapStartTls.exchange, hs]
      rw [hbefore]
      cases htry : (TryFrom.tryFrom bytes : Except ValidationError Tag) with
      | error e => exact .refuses rfl htry
      | ok tag =>
        have hline := hsilent hs bytes tag rfl htry
        obtain ⟨data, hdata⟩ := LawfulStartTls.line tag
        simp [ImapStartTls.startTlsLine, hdata] at hline
    · rw [exchange_untagged hs]
      exact .ends

end StartTls

/-! ### Runs -/

theorem AtStartTls.at [Encoder Command] {s : ImapSessionOpen K} {startTls : ImapStartTls} {due : Request}
    (hs : s.AtStartTls startTls) (h : s.InConversation due) :
    (∃ tag seen, startTls.At tag seen due) ∧ Converses.exchange s = startTls.exchange ∧
      (Converses.unread s = some startTls.buf ∨ Converses.unread s = none ∧ due = .nothing) := by
  rw [InConversation] at h
  obtain hs | ⟨hs, -, rfl⟩ := hs
  · rw [hs] at h
    exact ⟨h, by simp [Converses.exchange, hs], .inl (by simp [Converses.unread, unread, hs])⟩
  · rw [hs] at h
    obtain rfl := h
    refine ⟨⟨none, [], ImapStartTls.new_at⟩, by simp [Converses.exchange, hs]; rfl, .inr ⟨?_, rfl⟩⟩
    exact unread_of_ne (by simp [hs])

section Runs

variable [SaslMechanisms K] [TryFrom String AString] [Fragmentizer F] [TryFrom Bytes Tag] [LawfulTag]
  [Encoder Command] [Encoder AuthenticateData] [Encoder IdleDone] [LawfulEncoder Command]
  [LawfulEncoder AuthenticateData] [LawfulStartTls]

theorem turn_disciplined {a : Config (ImapSessionOpen K) F} {due : Request} {arg : Option Bytes}
    {out : ImapSessionOpenResult} {s' : ImapSessionOpen K} {f' : F} {log : List FragmentizerEvent}
    (h : a.state.InConversation due) (hans : due.answeredBy arg = true)
    (hr : a.state.resume (⟨a.frag, []⟩ : Logged F) arg = (out, s', ⟨f', log⟩)) :
    (∀ y, out = .yielded y → s'.InConversation y.request) ∧
      Disciplined (⟨a.state, a.frag, due, arg, (), out, s', f', log⟩ : Step K F) := by
  rcases (resume_cases hr).abides h hans with ⟨habides, hunread⟩ | ⟨startTls, hst, hr'⟩
  · obtain ⟨events, hlog, hfed⟩ := habides.fed
    obtain rfl : log = events := hlog
    refine ⟨habides.goesOn, habides.kept.asked, habides.kept.step, fun _ => hfed, ?_⟩
    intro unread y hu
    simp [hunread] at hu
  · obtain ⟨⟨tag, seen, hat⟩, hexchange, hunread⟩ := hst.at h
    obtain ⟨hkept, hl⟩ := startTls_kept hat hans hr'
    obtain rfl : log = [] := congrArg Logged.log hl
    have hstep := hkept.kept.step
    have hasked := hkept.kept.asked
    rw [← hexchange] at hstep hasked
    refine ⟨fun y hy => (hkept.goesOn y hy).1, hasked, hstep, fun hu => ?_, fun unread y hu hy => ?_⟩
    · rcases hunread with hbuf | ⟨-, rfl⟩
      · simp [hbuf] at hu
      · rfl
    · rcases hunread with hbuf | ⟨hnone, -⟩
      · obtain rfl := Option.some.inj (hbuf.symm.trans hu)
        exact (hkept.goesOn y hy).2
      · simp [hnone] at hu

theorem disciplined {transport : ImapSessionTransport} {sasl : Option Sasl}
    {opts : ImapSessionOpenOptions} {f : F} {es : List (Step K F)} {b : Config (ImapSessionOpen K) F}
    (hrun : (imapSessionOpen K).Runs (.new transport sasl opts) f es b) :
    ∀ t ∈ es, Disciplined t := by
  refine Run.labels (I := fun a => ∀ due, a.due = some due → a.state.InConversation due) ?_ ?_ hrun
  · intro due hdue
    obtain rfl : Request.nothing = due := Option.some.inj hdue
    rfl
  · intro a t b ha hstep
    obtain ⟨due, arg, env, out, s', f', log, hd, hans, hr, rfl, rfl⟩ :=
      (imapSessionOpen K).step_cases hstep
    obtain ⟨hgoesOn, hdisciplined⟩ := turn_disciplined (ha due hd) hans hr
    refine ⟨fun due' hd' => ?_, hdisciplined⟩
    rcases out with y | r
    · obtain rfl : y.request = due' := Option.some.inj hd'
      exact hgoesOn y rfl
    · simp at hd'

end Runs
end ImapSessionOpen
end IoImap
