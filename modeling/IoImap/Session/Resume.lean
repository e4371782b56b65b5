import IoImap.Session

/-!
# One resume of a session

What a resume can do, told once: it connects, it goes on with STARTTLS, or it
resumes a sub-coroutine and goes on from what this one completes with.
-/

namespace IoImap
namespace ImapSessionOpen

variable {K F : Type} {s s' : ImapSessionOpen K} {f f' : F} {arg : Option Bytes}
  {out : ImapSessionOpenResult}

theorem ofYield_request (y : ImapYield) : (ImapSessionOpenYield.ofYield y).request = y.request := by
  cases y <;> rfl

/-- `startTls` is resumed next. -/
def AtStartTls (s : ImapSessionOpen K) (startTls : ImapStartTls) : Prop :=
  s.state = .startTls startTls ∨
    s.state = .connected ∧ s.opts.starttls = true ∧ startTls = .new

def AtGreeting (s : ImapSessionOpen K) (greeting : ImapGreetingGet) : Prop :=
  s.state = .greeting greeting ∨
    s.state = .connected ∧ s.opts.starttls = false ∧ greeting = .new ⟨true⟩

def AtCapability (s : ImapSessionOpen K) (capability : ImapCapabilityGet) : Prop :=
  s.state = .capability capability ∨ s.state = .upgraded ∧ capability = .new

section Resumed

variable [SaslMechanisms K] [TryFrom String AString] [Fragmentizer F] [TryFrom Bytes Tag]
  [Encoder Command] [Encoder AuthenticateData]

inductive AuthResumed (s : ImapSessionOpen K) (auth : Auth K) (f : F) (arg : Option Bytes) :
    ImapSessionOpenResult → ImapSessionOpen K → F → Prop where
  | yields {y : ImapYield} {auth' : Auth K} {f' : F} (hr : auth.resume f arg = (.yielded y, auth', f')) :
      AuthResumed s auth f arg (.yielded (.ofYield y)) { s with state := .auth auth' } f'
  | fails {err : ImapSessionOpenError} {auth' : Auth K} {f' : F}
      (hr : auth.resume f arg = (.complete (.error err), auth', f')) :
      AuthResumed s auth f arg (.complete (.error err)) s f'
  | completes {capability : List Capability} {auth' : Auth K} {f' : F}
      (hr : auth.resume f arg = (.complete (.ok capability), auth', f')) :
      AuthResumed s auth f arg (.complete (.ok ⟨capability, s.preAuthenticated⟩))
        { s with capability := [] } f'

/-- What follows the capabilities. -/
inductive Authenticated (s : ImapSessionOpen K) (f : F) :
    ImapSessionOpenResult → ImapSessionOpen K → F → Prop where
  | skips (h : s.preAuthenticated = true ∨ s.sasl = none) :
      Authenticated s f (.complete (.ok ⟨s.capability, s.preAuthenticated⟩))
        { s with capability := [] } f
  | refuses {sasl : Sasl} {err : ImapSessionOpenError} {s' : ImapSessionOpen K}
      (hpre : s.preAuthenticated = false) (hsasl : s.sasl = some sasl)
      (hnew : Auth.new (K := K) sasl s.initialRequest s.opts.autoId = .error err)
      (hs' : s'.state = s.state) :
      Authenticated s f (.complete (.error err)) s' f
  | starts {sasl : Sasl} {auth : Auth K} {out : ImapSessionOpenResult} {s' : ImapSessionOpen K} {f' : F}
      (hpre : s.preAuthenticated = false) (hsasl : s.sasl = some sasl)
      (hnew : Auth.new sasl s.initialRequest s.opts.autoId = .ok auth)
      (hr : AuthResumed { s with sasl := none, opts := { s.opts with autoId := none } } auth f none
        out s' f') :
      Authenticated s f out s' f'

inductive Resumed (s : ImapSessionOpen K) (f : F) (arg : Option Bytes) :
    ImapSessionOpenResult → ImapSessionOpen K → F → Prop where
  | overTls (hs : s.state = .connect) (htls : (s.opts.starttls && s.transport.isTls) = true) :
      Resumed s f arg (.complete (.error .startTlsOverTls)) s f
  | connects (hs : s.state = .connect) (htls : (s.opts.starttls && s.transport.isTls) = false) :
      Resumed s f arg (.yielded s.transport.connect) { s with state := .connected } f
  | startTls {startTls : ImapStartTls} {out : ImapSessionOpenResult} {s' : ImapSessionOpen K} {f' : F}
      (hs : s.AtStartTls startTls) (hr : s.resumeStartTls startTls f arg = (out, s', f')) :
      Resumed s f arg out s' f'
  | greets {greeting greeting' : ImapGreetingGet} {y : ImapYield} {f' : F} (hs : s.AtGreeting greeting)
      (hr : greeting.resume f arg = (.yielded y, greeting', f')) :
      Resumed s f arg (.yielded (.ofYield y)) { s with state := .greeting greeting' } f'
  | greetingFails {greeting greeting' : ImapGreetingGet} {err : ImapGreetingGetError} {f' : F}
      (hs : s.AtGreeting greeting) (hr : greeting.resume f arg = (.complete (.error err), greeting', f')) :
      Resumed s f arg (.complete (.error (.greeting err))) s f'
  | greeted {greeting greeting' : ImapGreetingGet} {ok : ImapGreetingOk} {out : ImapSessionOpenResult}
      {s' : ImapSessionOpen K} {f' f'' : F} (hs : s.AtGreeting greeting)
      (hr : greeting.resume f arg = (.complete (.ok ok), greeting', f'))
      (hauth : Authenticated
        { s with capability := ok.capability, preAuthenticated := ok.preAuthenticated } f' out s' f'') :
      Resumed s f arg out s' f''
  | asks {capability capability' : ImapCapabilityGet} {y : ImapYield} {f' : F}
      (hs : s.AtCapability capability)
      (hr : capability.resume f arg = (.yielded y, capability', f')) :
      Resumed s f arg (.yielded (.ofYield y)) { s with state := .capability capability' } f'
  | capabilityFails {capability capability' : ImapCapabilityGet} {err : ImapCapabilityGetError} {f' : F}
      (hs : s.AtCapability capability)
      (hr : capability.resume f arg = (.complete (.error err), capability', f')) :
      Resumed s f arg (.complete (.error (.capability err))) s f'
  | told {capability capability' : ImapCapabilityGet} {observed : List Capability}
      {out : ImapSessionOpenResult} {s' : ImapSessionOpen K} {f' f'' : F} (hs : s.AtCapability capability)
      (hr : capability.resume f arg = (.complete (.ok observed), capability', f'))
      (hauth : Authenticated { s with capability := observed } f' out s' f'') :
      Resumed s f arg out s' f''
  | auth {auth : Auth K} {out : ImapSessionOpenResult} {s' : ImapSessionOpen K} {f' : F}
      (hs : s.state = .auth auth) (hr : AuthResumed s auth f arg out s' f') :
      Resumed s f arg out s' f'

omit [TryFrom String AString] in
theorem resumeAuth_cases (auth : Auth K) (h : s.resumeAuth auth f arg = (out, s', f')) :
    AuthResumed s auth f arg out s' f' := by
  obtain ⟨⟨y | err | capability, auth', f''⟩, hr⟩ : ∃ r, auth.resume f arg = r := ⟨_, rfl⟩
  all_goals
    rw [resumeAuth, hr] at h
    cases h
  · exact .yields hr
  · exact .fails hr
  · exact .completes hr

theorem authenticate_cases (h : s.authenticate f = (out, s', f')) : Authenticated s f out s' f' := by
  rw [authenticate] at h
  cases hpre : s.preAuthenticated with
  | true =>
    have hw : s.wantsAuth = (.ok none, s) := if_pos hpre
    rw [hw] at h
    cases h
    exact .skips (.inl hpre)
  | false =>
    cases hsasl : s.sasl with
    | none =>
      have hw : s.wantsAuth = (.ok none, s) := by simp [wantsAuth, hpre, hsasl]
      rw [hw] at h
      cases h
      exact .skips (.inr hsasl)
    | some sasl =>
      have hw : s.wantsAuth = ((Auth.new sasl s.initialRequest s.opts.autoId).map some,
          { s with sasl := none, opts := { s.opts with autoId := none } }) := by
        simp [wantsAuth, hpre, hsasl]
      cases hnew : Auth.new (K := K) sasl s.initialRequest s.opts.autoId with
      | error err =>
        rw [hw, hnew] at h
        cases h
        exact .refuses hpre hsasl hnew rfl
      | ok auth =>
        rw [hw, hnew] at h
        exact .starts hpre hsasl hnew (resumeAuth_cases auth h)

theorem resumeGreeting_cases {greeting : ImapGreetingGet} (hs : s.AtGreeting greeting)
    (h : s.resumeGreeting greeting f arg = (out, s', f')) : Resumed s f arg out s' f' := by
  obtain ⟨⟨y | err | ok, greeting', f''⟩, hr⟩ : ∃ r, greeting.resume f arg = r := ⟨_, rfl⟩
  all_goals rw [resumeGreeting, hr] at h
  · cases h
    exact .greets hs hr
  · cases h
    exact .greetingFails hs hr
  · exact .greeted hs hr (authenticate_cases h)

theorem resumeCapability_cases {capability : ImapCapabilityGet} (hs : s.AtCapability capability)
    (h : s.resumeCapability capability f arg = (out, s', f')) : Resumed s f arg out s' f' := by
  obtain ⟨⟨y | err | observed, capability', f''⟩, hr⟩ : ∃ r, capability.resume f arg = r := ⟨_, rfl⟩
  all_goals rw [resumeCapability, hr] at h
  · cases h
    exact .asks hs hr
  · cases h
    exact .capabilityFails hs hr
  · exact .told hs hr (authenticate_cases h)

theorem resume_cases (h : s.resume f arg = (out, s', f')) : Resumed s f arg out s' f' := by
  unfold resume at h
  cases hs : s.state with
  | connect =>
    rw [hs] at h
    cases htls : (s.opts.starttls && s.transport.isTls) with
    | true =>
      rw [resumeConnect, if_pos htls] at h
      cases h
      exact .overTls hs htls
    | false =>
      rw [resumeConnect, if_neg (by simp [htls])] at h
      cases h
      exact .connects hs htls
  | connected =>
    rw [hs] at h
    cases hstarttls : s.opts.starttls with
    | true =>
      rw [if_pos hstarttls] at h
      exact .startTls (.inr ⟨hs, hstarttls, rfl⟩) h
    | false =>
      rw [if_neg (by simp [hstarttls])] at h
      exact resumeGreeting_cases (.inr ⟨hs, hstarttls, rfl⟩) h
  | startTls startTls =>
    rw [hs] at h
    exact .startTls (.inl hs) h
  | upgraded =>
    rw [hs] at h
    exact resumeCapability_cases (.inr ⟨hs, rfl⟩) h
  | capability capability =>
    rw [hs] at h
    exact resumeCapability_cases (.inl hs) h
  | greeting greeting =>
    rw [hs] at h
    exact resumeGreeting_cases (.inl hs) h
  | auth auth =>
    rw [hs] at h
    exact .auth hs (resumeAuth_cases auth h)

omit [SaslMechanisms K] [TryFrom String AString] [Fragmentizer F] [Encoder AuthenticateData] in
theorem resumeStartTls_cases {startTls : ImapStartTls}
    (h : s.resumeStartTls startTls f arg = (out, s', f')) : f' = f ∧
      ((∃ y startTls', out = .yielded (.ofYield y) ∧ s' = { s with state := .startTls startTls' }) ∨
        (out = .yielded .wantsTlsUpgrade ∧ s' = { s with state := .upgraded }) ∨
        ∃ err, out = .complete (.error err) ∧ s' = s) := by
  obtain ⟨⟨y | err | leftover, startTls'⟩, hr⟩ : ∃ r, startTls.resume arg = r := ⟨_, rfl⟩
  all_goals rw [resumeStartTls, hr] at h
  · cases h
    exact ⟨rfl, .inl ⟨y, startTls', rfl, rfl⟩⟩
  · cases h
    exact ⟨rfl, .inr (.inr ⟨_, rfl, rfl⟩)⟩
  · simp only at h
    split at h
    · cases h
      exact ⟨rfl, .inr (.inr ⟨_, rfl, rfl⟩)⟩
    · cases h
      exact ⟨rfl, .inr (.inl ⟨rfl, rfl⟩)⟩

end Resumed

/-! ### Behind the connection -/

/-- The output of a resume that neither connects nor upgrades. -/
def Quiet (out : ImapSessionOpenResult) : Prop :=
  (∃ y, out = .yielded (.ofYield y)) ∨ ∃ r, out = .complete r

theorem Quiet.ne_upgrade (h : Quiet out) : out ≠ .yielded .wantsTlsUpgrade := by
  obtain ⟨y, rfl⟩ | ⟨r, rfl⟩ := h
  · cases y <;> simp [ImapSessionOpenYield.ofYield]
  · simp

section Quiet

variable [SaslMechanisms K] [TryFrom String AString] [Fragmentizer F] [TryFrom Bytes Tag]
  [Encoder Command] [Encoder AuthenticateData] {P : State K → Prop}

omit [TryFrom String AString] in
theorem AuthResumed.quiet {auth : Auth K} (h : AuthResumed s auth f arg out s' f')
    (hauth : ∀ auth, P (.auth auth)) (hs : P s.state) : P s'.state ∧ Quiet out := by
  cases h with
  | yields => exact ⟨hauth _, .inl ⟨_, rfl⟩⟩
  | fails => exact ⟨hs, .inr ⟨_, rfl⟩⟩
  | completes => exact ⟨hs, .inr ⟨_, rfl⟩⟩

theorem Authenticated.quiet (h : Authenticated s f out s' f') (hauth : ∀ auth, P (.auth auth))
    (hs : P s.state) : P s'.state ∧ Quiet out := by
  cases h with
  | skips => exact ⟨hs, .inr ⟨_, rfl⟩⟩
  | refuses hpre hsasl hnew hs' => exact ⟨hs' ▸ hs, .inr ⟨_, rfl⟩⟩
  | starts hpre hsasl hnew hr => exact hr.quiet hauth hs

/-- Behind the connection only STARTTLS yields anything but tags, reads and writes. -/
theorem Resumed.quiet (h : Resumed s f arg out s' f') (hauth : ∀ auth, P (.auth auth))
    (hgreeting : ∀ greeting, P (.greeting greeting))
    (hcapability : ∀ capability, P (.capability capability)) (hs : P s.state)
    (hconnect : s.state ≠ .connect) :
    (P s'.state ∧ Quiet out) ∨
      ∃ startTls, s.AtStartTls startTls ∧ s.resumeStartTls startTls f arg = (out, s', f') := by
  cases h with
  | overTls hst => exact absurd hst hconnect
  | connects hst => exact absurd hst hconnect
  | startTls hst hr => exact .inr ⟨_, hst, hr⟩
  | greets => exact .inl ⟨hgreeting _, .inl ⟨_, rfl⟩⟩
  | greetingFails => exact .inl ⟨hs, .inr ⟨_, rfl⟩⟩
  | greeted hst hr hauth' => exact .inl (hauth'.quiet hauth hs)
  | asks => exact .inl ⟨hcapability _, .inl ⟨_, rfl⟩⟩
  | capabilityFails => exact .inl ⟨hs, .inr ⟨_, rfl⟩⟩
  | told hst hr hauth' => exact .inl (hauth'.quiet hauth hs)
  | auth hst hr => exact .inl (hr.quiet hauth hs)

end Quiet
end ImapSessionOpen
end IoImap
