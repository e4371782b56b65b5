import IoImap.Codec.CommandEncoder
import IoImap.Sasl.Resume
import IoImap.Session.Refusal

/-!
# What a session was opened by

A session is open only behind the phases that lead there: the greeting or the
capabilities, and the authentication unless there is nothing to authenticate. Each
phase is a run of its own sub-coroutine, served with what the session was served.
-/

namespace IoImap
open Transition

/-! ### The greeting -/

namespace ImapGreetingGet

/-- A greeting that is being read, or the CAPABILITY behind it. -/
def Conversing [Encoder Command] (g : ImapGreetingGet) (due : Request) : Prop :=
  match g.state with
  | .read => due = .nothing ∨ due = .read
  | .capability capability => ImapSend.Conversing .capability capability due

section Conversing

variable [Encoder Command] {g : ImapGreetingGet} {due : Request}

theorem conversing_read (hs : g.state = .read) : g.Conversing due ↔ due = .nothing ∨ due = .read := by
  rw [Conversing, hs]

theorem conversing_capability {capability : ImapCapabilityGet} (hs : g.state = .capability capability) :
    g.Conversing due ↔ ImapSend.Conversing .capability capability due := by
  rw [Conversing, hs]

variable {F : Type} [Fragmentizer F] [TryFrom Bytes Tag] [LawfulEncoder Command]

theorem conversing_step {g' : ImapGreetingGet} {f : F} {arg : Option Bytes} {y : ImapYield}
    (h : g.Conversing due) (hans : due.answeredBy arg = true)
    (hr : g.Resumed (⟨f, []⟩ : Logged F) arg (.yielded y) g') : g'.Conversing y.request ∧
      ∀ bytes, y = .wantsWrite bytes → ImapSend.IsPiece .capability bytes := by
  cases hr with
  | reads hs => exact ⟨(conversing_read rfl).mpr (.inr rfl), by simp⟩
  | asks hs harg hg hs' hpre =>
    exact ⟨(conversing_capability hs').mpr (ImapSend.conversing_asked .capability), by simp⟩
  | goesOn hs hr =>
    have hsend := ImapCapabilityGet.resume_yielded hr
    obtain ⟨hconversing, hwrites⟩ := ((conversing_capability hs).mp h).step hans hsend
    exact ⟨(conversing_capability rfl).mpr hconversing, hwrites⟩

end Conversing
end ImapGreetingGet

/-! ### The authentication -/

/-- LOGIN or one of the SASL coroutines, as a coroutine of its own. -/
def imapSessionAuth (K : Type) [SaslMechanisms K] [TryFrom Bytes Tag] [Encoder Command]
    [Encoder AuthenticateData] :
    Coroutine (ImapSessionOpen.Auth K) Unit ImapYield
      (Except ImapSessionOpenError (List Capability)) where
  resume s f arg _ := s.resume f arg
  request := ImapYield.request

namespace ImapSessionOpen

variable {K F : Type}

/-- The first resume of an authentication asks for a tag or fails: it does not look at
the fragmentizer. -/
theorem Auth.new_resume [SaslMechanisms K] [TryFrom String AString] [TryFrom Bytes Tag]
    [Encoder Command] [Encoder AuthenticateData] {sasl : Sasl} {initialRequest : Bool}
    {autoId : Option IdParameters} {auth : Auth K} (h : Auth.new sasl initialRequest autoId = .ok auth) :
    ∃ (r : CoroutineState ImapYield (Except ImapSessionOpenError (List Capability)) × Auth K),
      (∀ {G : Type} [Fragmentizer G] (g : G), auth.resume g none = (r.1, r.2, g)) ∧
      ∀ capability, r.1 ≠ .complete (.ok capability) := by
  have hsasl : ∀ (framing : SaslFraming) (mechanism : K) (opts : ImapAuthOptions),
      ∃ (r : CoroutineState ImapYield (Except ImapSessionOpenError (List Capability)) × Auth K),
        (∀ {G : Type} [Fragmentizer G] (g : G),
          (Auth.sasl (ImapAuth.new framing mechanism opts)).resume g none = (r.1, r.2, g)) ∧
        ∀ capability, r.1 ≠ .complete (.ok capability) := by
    intro framing mechanism opts
    let start : ImapAuth K := .new framing mechanism opts
    obtain ⟨⟨err | payload, started⟩, hp⟩ : ∃ r, start.resumeSasl .none = r := ⟨_, rfl⟩
    · refine ⟨(.complete (.error (.auth err)), .sasl started), fun g => ?_, by simp⟩
      have hr : start.resume g none = (.complete (.error err), started, g) :=
        ImapAuth.resumeStart_error hp g none
      show ((start.resume g none).1.tryOk id ImapSessionOpenError.auth .ok,
        Auth.sasl (start.resume g none).2.1, _) = _
      rw [hr]
      rfl
    · refine ⟨(.yielded .wantsTag, .sasl (started.asked payload)), fun g => ?_, by simp⟩
      have hr : start.resume g none = (.yielded .wantsTag, started.asked payload, g) :=
        ImapAuth.resumeStart_ok hp g
      show ((start.resume g none).1.tryOk id ImapSessionOpenError.auth .ok,
        Auth.sasl (start.resume g none).2.1, _) = _
      rw [hr]
      rfl
  cases sasl with
  | login creds =>
    simp only [Auth.new] at h
    split at h
    · rename_i login hlogin
      obtain rfl := Except.ok.inj h
      unfold ImapLogin.new at hlogin
      split at hlogin
      · rename_i username password _ _
        obtain rfl := Except.ok.inj hlogin
        exact ⟨(.yielded .wantsTag, .login ⟨.send (.fresh (.tag ⟨.login username password, id⟩ true) []),
          .new true autoId⟩), fun g => rfl, by simp⟩
      · simp at hlogin
      · simp at hlogin
    · simp at h
  | other mechanism => simp [Auth.new] at h
  | _ =>
    obtain rfl := Except.ok.inj h
    exact hsasl _ _ _

/-! ### The phases of a session -/

/-- The greeting that the octets of this resume complete. -/
def greetingAt [Fragmentizer F] (t : Step K F) : Option (Except DecodeMessageError Greeting) :=
  t.answer.findSome? fun bytes => ImapGreetingGet.greetingOf (Fragmentizer.enqueueBytes t.frag bytes)

def AskedOnly [Encoder Command] (es : List (Step K F)) : Prop :=
  ∀ t ∈ es, ∀ bytes, written t = some bytes → ImapSend.IsPiece .capability bytes

section Phases

variable [SaslMechanisms K] [TryFrom String AString] [Fragmentizer F] [TryFrom Bytes Tag]
  [Encoder Command] [Encoder AuthenticateData]

omit [SaslMechanisms K] [TryFrom String AString] [Encoder AuthenticateData] in
/-- The capabilities that the resumes `es` were told, by the greeting or behind the upgrade. -/
inductive Told (opts : ImapSessionOpenOptions) (f : F) : List (Step K F) → ImapGreetingOk → F → Prop where
  | greeted {t : Step K F} {gs : List (Step K F)} {ok : ImapGreetingOk} {f' : F}
      (hstarttls : opts.starttls = false)
      (hgreeting : imapGreetingGet.Completes (.new ⟨true⟩) f (gs.map Turn.given) ok f') :
      Told opts f (t :: gs) ok f'
  | upgraded {pre cs : List (Step K F)} {t : Step K F} {capability : List Capability} {f' : F}
      (hstarttls : opts.starttls = true) (hup : upgrades t = true)
      (hcapability : imapCapabilityGet.Completes .new f (cs.map Turn.given) capability f') :
      Told opts f (pre ++ t :: cs) ⟨capability, false⟩ f'

/-- How a session comes to be open. -/
inductive OpenedBy (sasl : Option Sasl) (opts : ImapSessionOpenOptions) (f : F) (es : List (Step K F))
    (data : ImapSessionOpenData) : Prop where
  | unauthenticated {f' : F} (hsasl : sasl = none)
      (htold : Told opts f es ⟨data.capability, data.preAuthenticated⟩ f')
  | preAuthenticated {greeting : Greeting} {f' : F} (hstarttls : opts.starttls = false)
      (hgreeting : es.findSome? greetingAt = some (.ok greeting)) (hkind : greeting.kind = .preAuth)
      (hasked : AskedOnly es) (htold : Told opts f es ⟨data.capability, true⟩ f')
  | authenticated {creds : Sasl} {auth : Auth K} {pre as : List (Step K F)} {ok : ImapGreetingOk}
      {f' f'' : F} (hsasl : sasl = some creds) (hes : es = pre ++ as) (htold : Told opts f pre ok f')
      (hauth : Auth.new creds (opts.saslIr.getD (ok.capability.contains .saslIr)) opts.autoId = .ok auth)
      (hcompletes : (imapSessionAuth K).Completes auth f' ((f', .nothing, none) :: as.map Turn.given)
        data.capability f'')

structure AtGreet (start : ImapSessionOpen K) (f : F) (es : List (Step K F))
    (a : Config (ImapSessionOpen K) F) (greeting : ImapGreetingGet) (due : Request) : Prop where
  starttls : start.opts.starttls = false
  fields : a.state = { start with state := a.state.state }
  reaches : ∃ t gs, es = t :: gs ∧
    imapGreetingGet.Reaches (.new ⟨true⟩) f (gs.map Turn.given) ⟨greeting, a.frag, some due⟩
  conversing : greeting.Conversing due
  asked : AskedOnly es
  found : match greeting.state with
    | .read => es.findSome? greetingAt = none
    | .capability _ => ∃ g, es.findSome? greetingAt = some (.ok g) ∧
      greeting.preAuthenticated = decide (g.kind = .preAuth)

structure AtTell (start : ImapSessionOpen K) (f : F) (es : List (Step K F))
    (a : Config (ImapSessionOpen K) F) (capability : ImapCapabilityGet) (due : Request) : Prop where
  starttls : start.opts.starttls = true
  fields : a.state = { start with state := a.state.state }
  reaches : ∃ pre t cs, es = pre ++ t :: cs ∧ upgrades t = true ∧
    imapCapabilityGet.Reaches .new f (cs.map Turn.given) ⟨capability, a.frag, some due⟩

structure AtAuth (start : ImapSessionOpen K) (f : F) (es : List (Step K F))
    (a : Config (ImapSessionOpen K) F) (auth : Auth K) (due : Request) : Prop where
  started : ∃ creds first pre as ok f', start.sasl = some creds ∧ es = pre ++ as ∧
    Told start.opts f pre ok f' ∧
    Auth.new creds (start.opts.saslIr.getD (ok.capability.contains .saslIr)) start.opts.autoId =
      .ok first ∧
    (imapSessionAuth K).Reaches first f' ((f', .nothing, none) :: as.map Turn.given)
      ⟨auth, a.frag, some due⟩

/-- Where a session stands between two resumes. -/
def Phase (start : ImapSessionOpen K) (f : F) (es : List (Step K F))
    (a : Config (ImapSessionOpen K) F) (due : Request) : Prop :=
  match a.state.state with
  | .connect => es = [] ∧ a.state = start ∧ a.frag = f ∧ due = .nothing
  | .connected => (∃ t, es = [t] ∧ t.due = .nothing ∧ written t = none) ∧
    a.state = { start with state := .connected } ∧ a.frag = f ∧ due = .nothing
  | .startTls startTls => start.opts.starttls = true ∧
    a.state = { start with state := .startTls startTls } ∧ a.frag = f
  | .upgraded => start.opts.starttls = true ∧ a.state = { start with state := .upgraded } ∧
    a.frag = f ∧ due = .nothing ∧ ∃ pre t, es = pre ++ [t] ∧ upgrades t = true
  | .greeting greeting => AtGreet start f es a greeting due
  | .capability capability => AtTell start f es a capability due
  | .auth auth => AtAuth start f es a auth due

section AtPhase

variable {start : ImapSessionOpen K} {f : F} {es : List (Step K F)} {a : Config (ImapSessionOpen K) F}
  {due : Request}

theorem phase_startTls {startTls : ImapStartTls} (h : Phase start f es a due)
    (hs : a.state.AtStartTls startTls) : start.opts.starttls = true ∧
      a.state = { start with state := a.state.state } ∧ a.frag = f := by
  rcases hs with hs | ⟨hs, hstarttls, -⟩
  · simp only [Phase, hs] at h
    exact ⟨h.1, by rw [h.2.1], h.2.2⟩
  · simp only [Phase, hs] at h
    obtain ⟨-, hstate, hfrag, -⟩ := h
    rw [hstate] at hstarttls ⊢
    exact ⟨hstarttls, rfl, hfrag⟩

theorem phase_greeting {greeting : ImapGreetingGet} (h : Phase start f es a due)
    (hs : a.state.AtGreeting greeting) : AtGreet start f es a greeting due := by
  rcases hs with hs | ⟨hs, hstarttls, rfl⟩
  · simpa only [Phase, hs] using h
  · simp only [Phase, hs] at h
    obtain ⟨⟨t, rfl, hdue, hw⟩, hstate, hfrag, rfl⟩ := h
    have hnone : greetingAt t = none := by
      rw [greetingAt, Turn.answer, hdue, Request.octets_of_ne (by simp)]
      rfl
    refine ⟨by rw [hstate] at hstarttls; exact hstarttls, by rw [hstate], ⟨t, [], rfl, ?_⟩,
      .inl rfl, ?_, ?_⟩
    · rw [hfrag]
      exact Coroutine.reaches_start
    · intro e he bytes hbytes
      rw [List.mem_singleton.mp he, hw] at hbytes
      simp at hbytes
    · simp [ImapGreetingGet.new, hnone]

theorem phase_capability {capability : ImapCapabilityGet} (h : Phase start f es a due)
    (hs : a.state.AtCapability capability) : AtTell start f es a capability due := by
  rcases hs with hs | ⟨hs, rfl⟩
  · simpa only [Phase, hs] using h
  · simp only [Phase, hs] at h
    obtain ⟨hstarttls, hstate, hfrag, rfl, pre, t, rfl, hup⟩ := h
    refine ⟨hstarttls, by rw [hstate], pre, t, [], rfl, hup, ?_⟩
    rw [hfrag]
    exact Coroutine.reaches_start

/-- What follows the capabilities is the authentication, or the session is open. -/
theorem told_authenticates {s s' : ImapSessionOpen K} {ok : ImapGreetingOk} {f' f'' : F}
    {log log' : List FragmentizerEvent} {out : ImapSessionOpenResult}
    (htold : Told start.opts f es ok f') (hsasl : s.sasl = start.sasl) (hopts : s.opts = start.opts)
    (hcapability : s.capability = ok.capability) (hpre : s.preAuthenticated = ok.preAuthenticated)
    (h : Authenticated s (⟨f', log⟩ : Logged F) out s' ⟨f'', log'⟩) :
    (∀ y, out = .yielded y → ∃ auth, s'.state = .auth auth ∧
      AtAuth start f es ⟨s', f'', some y.request⟩ auth y.request) ∧
    ∀ data, out = .complete (.ok data) → data = ⟨ok.capability, ok.preAuthenticated⟩ ∧
      (ok.preAuthenticated = true ∨ start.sasl = none) := by
  cases h with
  | skips hskips =>
    refine ⟨by simp, fun data hdata => ?_⟩
    rw [hcapability, hpre] at hdata
    rw [hpre, hsasl] at hskips
    simp only [CoroutineState.complete.injEq, Except.ok.injEq] at hdata
    exact ⟨hdata.symm, hskips⟩
  | refuses => simp
  | @starts creds auth _ _ _ hpre' hsasl' hnew hr =>
    rw [initialRequest, hopts, hcapability] at hnew
    obtain ⟨⟨first, auth'⟩, hfirst, hnever⟩ := Auth.new_resume hnew
    cases hr with
    | @yields y auth'' _ hr =>
      rw [hfirst] at hr
      simp only [Prod.mk.injEq, Logged.mk.injEq] at hr
      obtain ⟨rfl, rfl, rfl, -⟩ := hr
      have hstarts : (imapSessionAuth K).resume auth (⟨f', []⟩ : Logged F) none () =
          (.yielded y, auth', ⟨f', []⟩) := hfirst _
      have hreaches := (Coroutine.reaches_start (c := imapSessionAuth K)).yields () rfl hstarts
      refine ⟨fun y' hy' => ⟨auth', rfl, creds, auth, es, [], ok, f', ?_, ?_, htold, hnew, ?_⟩, by simp⟩
      · rw [← hsasl, hsasl']
      · rw [List.append_nil]
      · have hrequest : y'.request = y.request := by
          rw [← CoroutineState.yielded.inj hy']
          cases y <;> rfl
        rw [hrequest]
        exact hreaches
    | fails => simp
    | completes hr =>
      rw [hfirst] at hr
      simp only [Prod.mk.injEq] at hr
      exact absurd hr.1 (hnever _)

section Greeting

variable {t : Step K F} {arg : Option Bytes}

omit [SaslMechanisms K] [TryFrom String AString] [TryFrom Bytes Tag] [Encoder Command]
  [Encoder AuthenticateData] in
theorem greetingAt_none (hgiven : t.given = (a.frag, due, arg))
    (hnone : ∀ b bs, arg = some (b :: bs) → ImapGreetingGet.greetingOf
      (Fragmentizer.enqueueBytes (⟨a.frag, []⟩ : Logged F) (b :: bs)) = none) : greetingAt t = none := by
  simp only [Turn.given, Prod.mk.injEq] at hgiven
  obtain ⟨hf, hdue, harg⟩ := hgiven
  rw [greetingAt, Turn.answer, hf, hdue, harg]
  unfold Request.octets
  split
  · rename_i b bs
    rw [List.findSome?_singleton, ← hnone b bs rfl, ImapGreetingGet.greetingOf_frag]
    rfl
  · rfl

omit [SaslMechanisms K] [TryFrom String AString] [TryFrom Bytes Tag] [Encoder Command]
  [Encoder AuthenticateData] in
theorem greetingAt_some {b : Byte} {bs : Bytes} {g : Greeting}
    (hgiven : t.given = (a.frag, .read, some (b :: bs)))
    (hg : ImapGreetingGet.greetingOf
      (Fragmentizer.enqueueBytes (⟨a.frag, []⟩ : Logged F) (b :: bs)) = some (.ok g)) :
    greetingAt t = some (.ok g) := by
  simp only [Turn.given, Prod.mk.injEq] at hgiven
  obtain ⟨hf, hdue, harg⟩ := hgiven
  rw [greetingAt, Turn.answer, hf, hdue, harg]
  rw [ImapGreetingGet.greetingOf_frag] at hg
  exact List.findSome?_singleton.trans hg

omit [SaslMechanisms K] [TryFrom String AString] [TryFrom Bytes Tag] [Encoder AuthenticateData]
  [Fragmentizer F] in
theorem asked_concat (h : AskedOnly es)
    (ht : ∀ bytes, written t = some bytes → ImapSend.IsPiece .capability bytes) :
    AskedOnly (es ++ [t]) := by
  intro e he bytes hbytes
  rcases List.mem_append.mp he with he | he
  · exact h e he bytes hbytes
  · rw [List.mem_singleton.mp he] at hbytes
    exact ht bytes hbytes

omit [SaslMechanisms K] [TryFrom String AString] [Encoder AuthenticateData] in
theorem AtGreet.reading {greeting : ImapGreetingGet} (h : AtGreet start f es a greeting due)
    (hs : greeting.state = .read) (hans : due.answeredBy arg = true) {b : Byte} {bs : Bytes}
    (harg : arg = some (b :: bs)) : due = .read ∧ es.findSome? greetingAt = none := by
  have hfound := h.found
  rw [hs] at hfound
  refine ⟨?_, hfound⟩
  rcases (ImapGreetingGet.conversing_read hs).mp h.conversing with rfl | rfl
  · simp [Request.answeredBy, harg] at hans
  · rfl

omit [SaslMechanisms K] [TryFrom String AString] [Encoder AuthenticateData] in
theorem AtGreet.yields [LawfulEncoder Command] {greeting greeting' : ImapGreetingGet} {y : ImapYield}
    {f' : F} {log : List FragmentizerEvent} (h : AtGreet start f es a greeting due)
    (hans : due.answeredBy arg = true) (hgiven : t.given = (a.frag, due, arg))
    (hout : t.out = .yielded (.ofYield y))
    (hr : greeting.resume (⟨a.frag, []⟩ : Logged F) arg = (.yielded y, greeting', ⟨f', log⟩)) :
    AtGreet start f (es ++ [t])
      ⟨{ a.state with state := .greeting greeting' }, f', some y.request⟩ greeting' y.request := by
  have hcases := ImapGreetingGet.resume_cases hr
  obtain ⟨hconversing, hwrites⟩ := ImapGreetingGet.conversing_step h.conversing hans hcases
  obtain ⟨t₀, gs, rfl, hreaches⟩ := h.reaches
  refine ⟨h.starttls, by rw [h.fields], ⟨t₀, gs ++ [t], rfl, ?_⟩, hconversing, ?_, ?_⟩
  · rw [Turn.given_concat hgiven]
    exact hreaches.yields () hans hr
  · refine asked_concat h.asked fun bytes hbytes => ?_
    rw [written, hout] at hbytes
    cases y with
    | wantsWrite data => exact hwrites bytes (congrArg _ (Option.some.inj hbytes))
    | wantsTag => simp [ImapSessionOpenYield.ofYield] at hbytes
    | wantsRead => simp [ImapSessionOpenYield.ofYield] at hbytes
  · have hfound := h.found
    rw [List.findSome?_append]
    cases hcases with
    | reads hs hnone =>
      rw [hs] at hfound
      simp [hfound, greetingAt_none hgiven hnone]
    | @asks b bs g _ hs harg hg hs' hpre =>
      obtain ⟨rfl, hnone⟩ := h.reading hs hans harg
      rw [harg] at hgiven
      simp only [hs']
      exact ⟨g, by simp [hnone, greetingAt_some hgiven hg], hpre⟩
    | goesOn hs hr' =>
      rw [hs] at hfound
      obtain ⟨g, hg, hpre⟩ := hfound
      exact ⟨g, by rw [hg]; rfl, hpre⟩

omit [SaslMechanisms K] [TryFrom String AString] [Encoder AuthenticateData] in
/-- Where the greeting ends, the session was told the capabilities, and PREAUTH only if the
greeting was one. -/
theorem AtGreet.completes {greeting greeting' : ImapGreetingGet} {ok : ImapGreetingOk} {f' : F}
    {log : List FragmentizerEvent} (h : AtGreet start f es a greeting due)
    (hans : due.answeredBy arg = true) (hgiven : t.given = (a.frag, due, arg))
    (hr : greeting.resume (⟨a.frag, []⟩ : Logged F) arg = (.complete (.ok ok), greeting', ⟨f', log⟩)) :
    Told start.opts f (es ++ [t]) ok f' ∧ ∃ g, (es ++ [t]).findSome? greetingAt = some (.ok g) ∧
      ok.preAuthenticated = decide (g.kind = .preAuth) := by
  have hcases := ImapGreetingGet.resume_cases hr
  obtain ⟨t₀, gs, rfl, hreaches⟩ := h.reaches
  constructor
  · rw [List.cons_append]
    refine .greeted h.starttls ?_
    rw [Turn.given_concat hgiven]
    exact hreaches.completes () hans hr
  · have hfound := h.found
    rw [List.findSome?_append]
    cases hcases with
    | @greets b bs g observed _ hs harg hg =>
      obtain ⟨rfl, hnone⟩ := h.reading hs hans harg
      rw [harg] at hgiven
      exact ⟨g, by simp [hnone, greetingAt_some hgiven hg], rfl⟩
    | told hs hr' =>
      rw [hs] at hfound
      obtain ⟨g, hg, hpre⟩ := hfound
      exact ⟨g, by rw [hg]; rfl, hpre⟩

end Greeting

variable [LawfulEncoder Command]

theorem phase_step {arg : Option Bytes} {t : Step K F} {out : ImapSessionOpenResult}
    {s' : ImapSessionOpen K} {f' : F} {log : List FragmentizerEvent}
    (hnotPre : start.preAuthenticated = false) (h : Phase start f es a due)
    (hans : due.answeredBy arg = true)
    (hr : a.state.resume (⟨a.frag, []⟩ : Logged F) arg = (out, s', ⟨f', log⟩))
    (ht : t = ⟨a.state, a.frag, due, arg, (), out, s', f', log⟩) :
    (∀ y, out = .yielded y → Phase start f (es ++ [t]) ⟨s', f', some y.request⟩ y.request) ∧
      ∀ data, out = .complete (.ok data) → OpenedBy start.sasl start.opts f (es ++ [t]) data := by
  have hgiven : t.given = (a.frag, due, arg) := by rw [ht]; rfl
  have hout : t.out = out := by rw [ht]
  cases resume_cases hr with
  | overTls => simp
  | connects hs htls =>
    simp only [Phase, hs] at h
    obtain ⟨rfl, hstate, hfrag, rfl⟩ := h
    refine ⟨fun y hy => ?_, by simp⟩
    have hy' : y = a.state.transport.connect := (CoroutineState.yielded.inj hy).symm
    have hw : written t = none := by
      rw [written, hout]
      cases a.state.transport <;> rfl
    have hdue : t.due = .nothing := by rw [ht]
    refine ⟨⟨t, rfl, hdue, hw⟩, by rw [hstate], hfrag, ?_⟩
    rw [hy']
    cases a.state.transport <;> rfl
  | startTls hs hr' =>
    obtain ⟨hstarttls, hfields, hfrag⟩ := phase_startTls h hs
    obtain ⟨hl, ⟨y, startTls', rfl, rfl⟩ | ⟨rfl, rfl⟩ | ⟨err, rfl, -⟩⟩ := resumeStartTls_cases hr'
    · obtain rfl : f' = a.frag := congrArg Logged.frag hl
      refine ⟨fun y' hy' => ⟨hstarttls, ?_, hfrag⟩, by simp⟩
      rw [hfields]
    · obtain rfl : f' = a.frag := congrArg Logged.frag hl
      refine ⟨fun y' hy' => ⟨hstarttls, ?_, hfrag, ?_, es, t, rfl, ?_⟩, by simp⟩
      · rw [hfields]
      · rw [← CoroutineState.yielded.inj hy']
        rfl
      · rw [upgrades, hout]
    · simp
  | greets hs hr' =>
    refine ⟨fun y hy => ?_, by simp⟩
    rw [← CoroutineState.yielded.inj hy, ofYield_request]
    exact (phase_greeting h hs).yields hans hgiven hout hr'
  | greetingFails => simp
  | @greeted _ _ ok _ _ l _ hs hr' hauth =>
    obtain ⟨htold, g, hfound, hpre⟩ := (phase_greeting h hs).completes hans hgiven hr'
    have hfields := (phase_greeting h hs).fields
    obtain ⟨hyields, hdone⟩ := told_authenticates htold (by rw [hfields]) (by rw [hfields]) rfl rfl hauth
    refine ⟨fun y hy => ?_, fun data hdata => ?_⟩
    · obtain ⟨auth, hs', hat⟩ := hyields y hy
      simp only [Phase, hs']
      exact hat
    · obtain ⟨capability, pre⟩ := ok
      obtain ⟨rfl, hskips⟩ := hdone data hdata
      cases pre with
      | false => exact .unauthenticated (by simpa using hskips) htold
      | true =>
        have hkind : g.kind = .preAuth := of_decide_eq_true hpre.symm
        refine .preAuthenticated (phase_greeting h hs).starttls hfound hkind ?_ htold
        refine asked_concat (phase_greeting h hs).asked fun bytes hbytes => ?_
        rw [written, hout, hdata] at hbytes
        simp at hbytes
  | @asks _ capability' y l hs hr' =>
    refine ⟨fun y' hy => ?_, by simp⟩
    rw [← CoroutineState.yielded.inj hy, ofYield_request]
    obtain ⟨hstarttls, hfields, pre, u, cs, rfl, hup, hreaches⟩ := phase_capability h hs
    refine ⟨hstarttls, by rw [hfields], pre, u, cs ++ [t], by simp, hup, ?_⟩
    rw [Turn.given_concat hgiven]
    exact hreaches.yields () hans hr'
  | capabilityFails => simp
  | @told _ capability' observed _ _ l _ hs hr' hauth =>
    obtain ⟨hstarttls, hfields, pre, u, cs, rfl, hup, hreaches⟩ := phase_capability h hs
    have htold : Told start.opts f (pre ++ u :: cs ++ [t]) ⟨observed, false⟩ l.frag := by
      rw [List.append_assoc, List.cons_append]
      refine .upgraded hstarttls hup ?_
      rw [Turn.given_concat hgiven]
      exact hreaches.completes () hans hr'
    obtain ⟨hyields, hdone⟩ := told_authenticates htold (by rw [hfields]) (by rw [hfields]) rfl
      (by rw [hfields]; exact hnotPre) hauth
    refine ⟨fun y hy => ?_, fun data hdata => ?_⟩
    · obtain ⟨auth, hs', hat⟩ := hyields y hy
      simp only [Phase, hs']
      exact hat
    · obtain ⟨rfl, hskips⟩ := hdone data hdata
      exact .unauthenticated (by simpa using hskips) htold
  | auth hs hr' =>
    simp only [Phase, hs] at h
    obtain ⟨creds, first, pre, as, ok, f₀, hsasl, rfl, htold, hnew, hreaches⟩ := h
    cases hr' with
    | @yields y auth' _ hr'' =>
      refine ⟨fun y' hy => ?_, by simp⟩
      rw [← CoroutineState.yielded.inj hy, ofYield_request]
      refine ⟨creds, first, pre, as ++ [t], ok, f₀, hsasl, by simp, htold, hnew, ?_⟩
      rw [Turn.given_concat hgiven, ← List.cons_append]
      exact hreaches.yields () hans hr''
    | fails => simp
    | @completes capability auth' _ hr'' =>
      refine ⟨by simp, fun data hdata => ?_⟩
      simp only [CoroutineState.complete.injEq, Except.ok.injEq] at hdata
      obtain rfl := hdata
      have hcompletes : (imapSessionAuth K).Completes first f₀
          ((f₀, .nothing, none) :: (as ++ [t]).map Turn.given) capability f' := by
        rw [Turn.given_concat hgiven, ← List.cons_append]
        exact hreaches.completes () hans hr''
      exact .authenticated hsasl (List.append_assoc pre as [t]) htold hnew hcompletes

/-- What a step of a session does to its phase. -/
theorem step_phase {t : Step K F} {b : Config (ImapSessionOpen K) F}
    (hnotPre : start.preAuthenticated = false) (hphase : ∀ due, a.due = some due → Phase start f es a due)
    (hstep : (imapSessionOpen K).Step a t b) :
    (∀ due, b.due = some due → Phase start f (es ++ [t]) b due) ∧
      ∀ data, t.out = .complete (.ok data) → OpenedBy start.sasl start.opts f (es ++ [t]) data := by
  obtain ⟨due, arg, env, out, s', f', log, hd, hans, hr, ht, rfl⟩ := (imapSessionOpen K).step_cases hstep
  obtain ⟨hyields, hopens⟩ := phase_step hnotPre (hphase due hd) hans hr ht
  refine ⟨fun due' hd' => ?_, fun data hdata => hopens data (by rw [ht] at hdata; exact hdata)⟩
  rcases out with y | r
  · obtain rfl : y.request = due' := Option.some.inj hd'
    exact hyields y rfl
  · simp at hd'

end AtPhase
end Phases

def connects (t : Step K F) : Bool :=
  match t.out with
  | .yielded (.wantsTcpConnect _ _) | .yielded (.wantsTlsConnect _ _)
  | .yielded (.wantsUnixConnect _) => true
  | _ => false

theorem connects_quiet {t : Step K F} (h : Quiet t.out) : connects t = false := by
  unfold connects
  obtain ⟨y, ho⟩ | ⟨r, ho⟩ := h
  · rw [ho]
    cases y <;> rfl
  · rw [ho]

/-- There is no second connection. -/
theorem connected_run [SaslMechanisms K] [TryFrom String AString] [Fragmentizer F] [TryFrom Bytes Tag]
    [Encoder Command] [Encoder AuthenticateData] {a b : Config (ImapSessionOpen K) F}
    {es : List (Step K F)} (hrun : Run (imapSessionOpen K).Step a es b)
    (ha : a.state.state ≠ .connect) : ∀ t ∈ es, connects t = false := by
  refine Run.labels (I := fun a => a.state.state ≠ .connect) ha ?_ hrun
  intro a t b ha hstep
  obtain ⟨due, arg, env, out, s', f', log, -, -, hr, rfl, rfl⟩ := (imapSessionOpen K).step_cases hstep
  rcases (resume_cases hr).quiet (P := fun state => state ≠ .connect) (by simp) (by simp) (by simp)
    ha ha with ⟨hs, hquiet⟩ | ⟨startTls, -, hr⟩
  · exact ⟨hs, connects_quiet hquiet⟩
  · obtain ⟨-, ⟨y, startTls', rfl, rfl⟩ | ⟨rfl, rfl⟩ | ⟨err, rfl, rfl⟩⟩ := resumeStartTls_cases hr
    · exact ⟨by simp, connects_quiet (.inl ⟨y, rfl⟩)⟩
    · exact ⟨by simp, rfl⟩
    · exact ⟨ha, connects_quiet (.inr ⟨_, rfl⟩)⟩

end ImapSessionOpen

open ImapSessionOpen

/-- A session connects first, once and to its transport, and is open only with the
authentication that its credentials ask for behind it. -/
theorem session_open_authenticated {K F : Type} [SaslMechanisms K] [TryFrom String AString]
    [Fragmentizer F] [TryFrom Bytes Tag] [Encoder Command] [Encoder AuthenticateData]
    [LawfulEncoder Command] {transport : ImapSessionTransport} {sasl : Option Sasl}
    {opts : ImapSessionOpenOptions} {f : F} {es : List (Step K F)}
    {b : Config (ImapSessionOpen K) F}
    (hrun : (imapSessionOpen K).Runs (.new transport sasl opts) f es b) :
    (∀ t post, es = t :: post →
      t.out = (if opts.starttls = true ∧ transport.isTls = true then .complete (.error .startTlsOverTls)
        else .yielded transport.connect) ∧ ∀ e ∈ post, connects e = false) ∧
      ∀ pre t data, es = pre ++ [t] → t.out = .complete (.ok data) → OpenedBy sasl opts f es data := by
  constructor
  · intro t post hes
    rw [hes] at hrun
    obtain ⟨a, hstep, hpost⟩ := hrun.cons_inv
    obtain ⟨due, arg, env, out, s', f', log, -, -, hr, rfl, rfl⟩ := (imapSessionOpen K).step_cases hstep
    have hconnect : (ImapSessionOpen.new transport sasl opts : ImapSessionOpen K).resumeConnect
        (⟨f, []⟩ : Logged F) = (out, s', ⟨f', log⟩) := hr
    rw [resumeConnect] at hconnect
    by_cases htls : opts.starttls = true ∧ transport.isTls = true
    · rw [if_pos (by simpa [ImapSessionOpen.new] using htls)] at hconnect
      obtain ⟨rfl, -⟩ := Prod.mk.inj hconnect
      refine ⟨(if_pos htls).symm, ?_⟩
      cases post with
      | nil => simp
      | cons e post =>
        obtain ⟨-, ⟨_, _, _, hd, -⟩, -⟩ := hpost.cons_inv
        simp at hd
    · rw [if_neg (by simpa [ImapSessionOpen.new] using htls)] at hconnect
      obtain ⟨rfl, hs⟩ := Prod.mk.inj hconnect
      refine ⟨(if_neg htls).symm, connected_run hpost ?_⟩
      obtain ⟨rfl, -⟩ := Prod.mk.inj hs
      simp
  · intro pre t data hes hout
    rw [hes] at hrun ⊢
    obtain ⟨a, hpre, hstep⟩ := hrun.snoc_inv
    have hphase : ∀ due, a.due = some due → Phase (.new transport sasl opts) f pre a due := by
      refine Run.history (P := fun es a => ∀ due, a.due = some due →
        Phase (.new transport sasl opts) f es a due) ?_ ?_ hpre
      · intro due hdue
        obtain rfl : Request.nothing = due := Option.some.inj hdue
        exact ⟨rfl, rfl, rfl, rfl⟩
      · intro es a t b hphase hstep
        exact (step_phase rfl hphase hstep).1
    exact (step_phase rfl hphase hstep).2 data hout

section Concrete

open Concrete

def sessionTable : List (Bytes × Response) :=
  [(ascii "* CAPABILITY SASL-IR\r\n", .data (.capability [.saslIr])),
    (ascii "A1 OK done\r\n", .status (.tagged ⟨⟨ascii "A1"⟩, ⟨.ok, none, "done"⟩⟩)),
    (ascii "A2 OK welcome\r\n", .status (.tagged ⟨⟨ascii "A2"⟩, ⟨.ok, some (.capability [.qResync]), "welcome"⟩⟩))]

def plainCreds : Sasl := .plain ⟨none, "alice", "pw"⟩

def authenticating : ImapSessionOpen Scripted :=
  .new (.tls "example.org" 993) (some plainCreds) ⟨false, none, none⟩

def playSession (args : List (Option Bytes)) :=
  (imapSessionOpen Scripted).play (Coroutine.start authenticating
    (LineFragmentizer.empty : LineFragmentizer (decodeTable sessionTable))) (args.map (·, ()))

def opened {F : Type} (es : List (Step Scripted F)) : Option ImapSessionOpenData :=
  es.getLast?.bind fun t =>
    match t.out with
    | .complete (.ok data) => some data
    | _ => none

theorem opened_split {F : Type} {es : List (Step Scripted F)} {data : ImapSessionOpenData}
    (h : opened es = some data) : ∃ pre t, es = pre ++ [t] ∧ t.out = .complete (.ok data) := by
  obtain ⟨t, hlast, hout⟩ := Option.bind_eq_some_iff.mp h
  obtain ⟨pre, rfl⟩ := List.getLast?_eq_some_iff.mp hlast
  refine ⟨pre, t, rfl, ?_⟩
  split at hout
  · rename_i data' ho
    rw [ho, Option.some.inj hout]
  · simp at hout

theorem session_open_plain : ∃ es b,
    playSession [none, none, some (ascii "* OK ready\r\n"), some (ascii "A1"), none,
      some (ascii "* CAPABILITY SASL-IR\r\nA1 OK done\r\n"), some (ascii "A2"), none,
      some (ascii "A2 OK welcome\r\n")] = some (es, b) ∧
      OpenedBy (some plainCreds) ⟨false, none, none⟩ LineFragmentizer.empty es ⟨[.qResync], false⟩ := by
  have hrun : (playSession [none, none, some (ascii "* OK ready\r\n"), some (ascii "A1"), none,
      some (ascii "* CAPABILITY SASL-IR\r\nA1 OK done\r\n"), some (ascii "A2"), none,
      some (ascii "A2 OK welcome\r\n")]).any (fun r =>
        decide (opened r.1 = some ⟨[.qResync], false⟩)) = true := by decide +kernel
  obtain ⟨⟨es, b⟩, hplay, hopened⟩ := (Option.any_eq_true _ _).mp hrun
  obtain ⟨pre, t, hes, hout⟩ := opened_split (of_decide_eq_true hopened)
  exact ⟨es, b, hplay, (session_open_authenticated (Coroutine.play_run _ hplay)).2 pre t _ hes hout⟩

end Concrete
end IoImap
