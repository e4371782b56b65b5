import IoImap.Rfc3501.Capability

/-!
# The greeting (rfc3501/greeting.rs)

`State::Deserialize` never lasts from one resume to the next: it is the function
`deserialize`.
-/

namespace IoImap
open Fragmentizer

inductive ImapGreetingGetError where
  | bye (text : String)
  | eof
  | decodingFailure (bytes : Bytes)
  | messageIsPoisoned (bytes : Bytes)
  | messageTooLong (bytes : Bytes)
  | capability (err : ImapCapabilityGetError)
  deriving DecidableEq

structure ImapGreetingOk where
  capability : List Capability
  preAuthenticated : Bool
  deriving DecidableEq

structure ImapGreetingGetOptions where
  ensureCapabilities : Bool

inductive ImapGreetingGet.State where
  | read
  | capability (capability : ImapCapabilityGet)

structure ImapGreetingGet where
  state : ImapGreetingGet.State
  observed : List Capability
  preAuthenticated : Bool
  opts : ImapGreetingGetOptions

abbrev ImapGreetingGetResult := CoroutineState ImapYield (Except ImapGreetingGetError ImapGreetingOk)

namespace ImapGreetingGet

def new (opts : ImapGreetingGetOptions) : ImapGreetingGet := ⟨.read, [], false, opts⟩

variable {F : Type} [Fragmentizer F] [TryFrom Bytes Tag] [Encoder Command]

def resumeCapability (s : ImapGreetingGet) (capability : ImapCapabilityGet) (f : F)
    (arg : Option Bytes) : ImapGreetingGetResult × ImapGreetingGet × F :=
  match capability.resume f arg with
  | (.yielded y, capability, f) => (.yielded y, { s with state := .capability capability }, f)
  | (.complete (.error err), _, f) => (.complete (.error (.capability err)), s, f)
  | (.complete (.ok capability), _, f) => (.complete (.ok ⟨capability, s.preAuthenticated⟩), s, f)

def greeted (s : ImapGreetingGet) (f : F) : ImapGreetingGetResult × ImapGreetingGet × F :=
  match decodeGreeting f with
  | .ok greeting =>
    if greeting.kind = .bye then (.complete (.error (.bye greeting.text)), s, f)
    else
      let s := { s with preAuthenticated := decide (greeting.kind = GreetingKind.preAuth) }
      let s := match greeting.code with
        | some (.capability capability) => { s with observed := capability }
        | _ => s
      if s.opts.ensureCapabilities && s.observed.isEmpty then s.resumeCapability .new f none
      else (.complete (.ok ⟨s.observed, s.preAuthenticated⟩), { s with observed := [] }, f)
  | .error .decodingFailure | .error .decodingRemainder =>
    (.complete (.error (.decodingFailure (messageBytes f))), s, f)
  | .error .messageTooLong => (.complete (.error (.messageTooLong (messageBytes f))), s, f)
  | .error .messagePoisoned => (.complete (.error (.messageIsPoisoned (messageBytes f))), s, f)

/-- `State::Deserialize`. A greeting has no literal, and none is waited for. -/
def deserialize (s : ImapGreetingGet) (f : F) : ImapGreetingGetResult × ImapGreetingGet × F :=
  match _h : progress f with
  | (none, f') => (.yielded .wantsRead, { s with state := .read }, f')
  | (some (.line none), f') => if isMessageComplete f' then s.greeted f' else s.deserialize f'
  | (some _, f') => (.complete (.error (.decodingFailure (messageBytes f'))), s, f')
termination_by backlog f
decreasing_by exact backlog_progress f _ f' _h

def resumeRead (s : ImapGreetingGet) (f : F) :
    Option Bytes → ImapGreetingGetResult × ImapGreetingGet × F
  | some [] => (.complete (.error .eof), s, f)
  | some bytes => s.deserialize (enqueueBytes f bytes)
  | none => (.yielded .wantsRead, s, f)

def resume (s : ImapGreetingGet) (f : F) (arg : Option Bytes) :
    ImapGreetingGetResult × ImapGreetingGet × F :=
  match s.state with
  | .read => s.resumeRead f arg
  | .capability capability => s.resumeCapability capability f arg

/-! ### One resume -/

omit [TryFrom Bytes Tag] [Encoder Command] in
/-- The first message that a fragmentizer holds, taken for a greeting. -/
def greetingOf (f : F) : Option (Except DecodeMessageError Greeting) :=
  match _h : progress f with
  | (none, _) => none
  | (some (.line none), f') => if isMessageComplete f' then some (decodeGreeting f') else greetingOf f'
  | (some _, _) => some (.error .decodingFailure)
termination_by backlog f
decreasing_by exact backlog_progress f _ f' _h

omit [TryFrom Bytes Tag] [Encoder Command] in
theorem greetingOf_frag (l : Logged F) : greetingOf l = greetingOf l.frag := by
  fun_induction greetingOf l with
  | case1 l l' hp =>
    have hf := Logged.progress_frag l
    rw [hp] at hf
    unfold greetingOf
    split <;> simp_all
  | case2 l l' hp hcomplete =>
    have hf := Logged.progress_frag l
    rw [hp] at hf
    have hcomplete' : isMessageComplete l'.frag = true := hcomplete
    unfold greetingOf
    split <;> simp_all
    rfl
  | case3 l l' hp hcomplete ih =>
    have hf := Logged.progress_frag l
    rw [hp] at hf
    have hcomplete' : ¬ isMessageComplete l'.frag = true := hcomplete
    rw [ih]
    conv_rhs => unfold greetingOf
    split <;> simp_all
  | case4 l l' info hline hp =>
    have hf := Logged.progress_frag l
    rw [hp] at hf
    unfold greetingOf
    split <;> simp_all

/-- Everything one resume can do. -/
inductive Resumed (s : ImapGreetingGet) (f : F) (arg : Option Bytes) :
    ImapGreetingGetResult → ImapGreetingGet → Prop where
  | reads (hs : s.state = .read)
      (hnone : ∀ b bs, arg = some (b :: bs) → greetingOf (enqueueBytes f (b :: bs)) = none) :
      Resumed s f arg (.yielded .wantsRead) { s with state := .read }
  | fails {err : ImapGreetingGetError} {s' : ImapGreetingGet} : Resumed s f arg (.complete (.error err)) s'
  | greets {b : Byte} {bs : Bytes} {greeting : Greeting} {observed : List Capability}
      {s' : ImapGreetingGet} (hs : s.state = .read) (harg : arg = some (b :: bs))
      (hg : greetingOf (enqueueBytes f (b :: bs)) = some (.ok greeting)) :
      Resumed s f arg
        (.complete (.ok ⟨observed, decide (greeting.kind = GreetingKind.preAuth)⟩)) s'
  | asks {b : Byte} {bs : Bytes} {greeting : Greeting} {s' : ImapGreetingGet} (hs : s.state = .read)
      (harg : arg = some (b :: bs))
      (hg : greetingOf (enqueueBytes f (b :: bs)) = some (.ok greeting))
      (hs' : s'.state = .capability (.fresh (.tag ⟨.capability, id⟩ true) []))
      (hpre : s'.preAuthenticated = decide (greeting.kind = GreetingKind.preAuth)) :
      Resumed s f arg (.yielded .wantsTag) s'
  | goesOn {capability capability' : ImapCapabilityGet} {y : ImapYield} {f' : F}
      (hs : s.state = .capability capability)
      (hr : capability.resume f arg = (.yielded y, capability', f')) :
      Resumed s f arg (.yielded y) { s with state := .capability capability' }
  | told {capability capability' : ImapCapabilityGet} {observed : List Capability} {f' : F}
      (hs : s.state = .capability capability)
      (hr : capability.resume f arg = (.complete (.ok observed), capability', f')) :
      Resumed s f arg (.complete (.ok ⟨observed, s.preAuthenticated⟩)) s

/-- What the message taken for the greeting comes to. -/
inductive Greeted (f : F) : ImapGreetingGetResult → ImapGreetingGet → Prop where
  | fails {err : ImapGreetingGetError} {s' : ImapGreetingGet} : Greeted f (.complete (.error err)) s'
  | greets {greeting : Greeting} {observed : List Capability} {s' : ImapGreetingGet}
      (hg : decodeGreeting f = .ok greeting) :
      Greeted f (.complete (.ok ⟨observed, decide (greeting.kind = GreetingKind.preAuth)⟩)) s'
  | asks {greeting : Greeting} {s' : ImapGreetingGet} (hg : decodeGreeting f = .ok greeting)
      (hs' : s'.state = .capability (.fresh (.tag ⟨.capability, id⟩ true) []))
      (hpre : s'.preAuthenticated = decide (greeting.kind = GreetingKind.preAuth)) :
      Greeted f (.yielded .wantsTag) s'

theorem greeted_cases (s : ImapGreetingGet) (f : F) : Greeted f (s.greeted f).1 (s.greeted f).2.1 := by
  unfold greeted
  cases hg : decodeGreeting f with
  | error err => cases err <;> exact .fails
  | ok greeting =>
    simp only
    split
    · exact .fails
    · -- whether the greeting brought the capabilities, and whether they are asked for
      split
      · split
        · exact .asks hg rfl rfl
        · exact .greets hg
      · split
        · exact .asks hg rfl rfl
        · exact .greets hg

theorem deserialize_cases (s : ImapGreetingGet) (f : F) :
    (greetingOf f = none ∧ (s.deserialize f).1 = .yielded .wantsRead ∧
      (s.deserialize f).2.1 = { s with state := .read }) ∨
    (∃ err, (s.deserialize f).1 = .complete (.error err)) ∨
    ∃ f' : F, greetingOf f = some (decodeGreeting f') ∧
      Greeted f' (s.deserialize f).1 (s.deserialize f).2.1 := by
  fun_induction deserialize s f with
  | case1 f f' hp =>
    refine .inl ⟨?_, rfl, rfl⟩
    unfold greetingOf
    split <;> simp_all
  | case2 f f' hp hcomplete =>
    refine .inr (.inr ⟨f', ?_, greeted_cases s f'⟩)
    unfold greetingOf
    split <;> simp_all
  | case3 f f' hp hcomplete ih =>
    have hg : greetingOf f = greetingOf f' := by
      conv_lhs => unfold greetingOf
      split <;> simp_all
    rw [hg]
    exact ih
  | case4 f f' => exact .inr (.inl ⟨_, rfl⟩)

theorem resume_cases {s s' : ImapGreetingGet} {f f' : F} {arg : Option Bytes}
    {out : ImapGreetingGetResult} (h : s.resume f arg = (out, s', f')) : Resumed s f arg out s' := by
  unfold resume at h
  cases hs : s.state with
  | capability capability =>
    simp only [hs, resumeCapability] at h
    obtain ⟨⟨y | err | observed, capability', f''⟩, hr⟩ : ∃ r, capability.resume f arg = r := ⟨_, rfl⟩
    all_goals
      rw [hr] at h
      cases h
    · exact .goesOn hs hr
    · exact .fails
    · exact .told hs hr
  | read =>
    simp only [hs] at h
    have hread : { s with state := .read } = s := by rw [← hs]
    rcases arg with - | (- | ⟨b, bs⟩)
    · cases h
      have hreads : Resumed s f none (.yielded .wantsRead) { s with state := .read } :=
        .reads hs (by simp)
      rwa [hread] at hreads
    · cases h
      exact .fails
    · obtain ⟨rfl, rfl, -⟩ : (s.deserialize (enqueueBytes f (b :: bs))).1 = out ∧
          (s.deserialize (enqueueBytes f (b :: bs))).2.1 = s' ∧ _ = f' := by
        rw [show s.deserialize (enqueueBytes f (b :: bs)) = (out, s', f') from h]
        exact ⟨rfl, rfl, rfl⟩
      rcases deserialize_cases s (enqueueBytes f (b :: bs)) with ⟨hg, ho, hs'⟩ | ⟨err, ho⟩ | ⟨f'', hg, hgreeted⟩
      · rw [ho, hs']
        refine .reads hs fun b' bs' harg => ?_
        obtain ⟨rfl, rfl⟩ := List.cons.inj (Option.some.inj harg)
        exact hg
      · rw [ho]
        exact .fails
      · generalize (s.deserialize (enqueueBytes f (b :: bs))).1 = out at hgreeted
        generalize (s.deserialize (enqueueBytes f (b :: bs))).2.1 = s' at hgreeted
        cases hgreeted with
        | fails => exact .fails
        | greets hdecoded => exact .greets hs rfl (hg.trans (congrArg some hdecoded))
        | asks hdecoded hs' hpre => exact .asks hs rfl (hg.trans (congrArg some hdecoded)) hs' hpre

end ImapGreetingGet

def imapGreetingGet [TryFrom Bytes Tag] [Encoder Command] :
    Coroutine ImapGreetingGet Unit ImapYield (Except ImapGreetingGetError ImapGreetingOk) where
  resume s f arg _ := s.resume f arg
  request := ImapYield.request

end IoImap
