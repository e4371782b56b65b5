import IoImap.Client.Connecting
import IoImap.Client.Scripted
import IoImap.Session.Opening
import IoImap.Session.Secrecy

/-!
# What connecting comes to (client/connect.rs)

`connect` opens the connection of its URL once, and with STARTTLS nothing but the STARTTLS
line goes over the stream before it is upgraded. The client has what the session left of
its stream, its fragmentizer and its tags.
-/

namespace IoImap
open Transition

/-! ### The session that connects -/

namespace ImapSessionOpen

variable {K F : Type} [SaslMechanisms K] [TryFrom String AString] [Fragmentizer F] [TryFrom Bytes Tag]
  [Encoder Command] [Encoder AuthenticateData]

section Resumed

variable {s s' : ImapSessionOpen K} {f f' : F} {arg : Option Bytes} {out : ImapSessionOpenResult}

/-- A session without STARTTLS goes on without it. -/
theorem Resumed.plain {y : ImapSessionOpenYield} (h : Resumed s f arg (.yielded y) s' f')
    (hplain : s.opts.starttls = false) (hs : ∀ startTls, s.state ≠ .startTls startTls) :
    y ≠ .wantsTlsUpgrade ∧ s'.opts.starttls = false ∧ ∀ startTls, s'.state ≠ .startTls startTls := by
  have hquiet : ∀ y : ImapYield, ImapSessionOpenYield.ofYield y ≠ .wantsTlsUpgrade := by
    intro y
    cases y <;> simp [ImapSessionOpenYield.ofYield]
  have hauth : ∀ {r r' : ImapSessionOpen K} {g : F} {y : ImapSessionOpenYield},
      Authenticated r g (.yielded y) r' f' → r.opts.starttls = false →
        y ≠ .wantsTlsUpgrade ∧ r'.opts.starttls = false ∧ ∀ startTls, r'.state ≠ .startTls startTls := by
    intro r r' g y hr hopts
    cases hr with
    | starts hpre hsasl hnew hresumed =>
      cases hresumed with
      | @yields y => exact ⟨hquiet y, hopts, by simp⟩
  cases h with
  | connects hst htls =>
    refine ⟨?_, hplain, by simp⟩
    cases s.transport <;> simp [ImapSessionTransport.connect]
  | startTls hst hr =>
    rcases hst with hst | ⟨-, hstarttls, -⟩
    · exact absurd hst (hs _)
    · simp [hplain] at hstarttls
  | @greets _ _ y => exact ⟨hquiet y, hplain, by simp⟩
  | greeted hst hr hauth' => exact hauth hauth' hplain
  | @asks _ _ y => exact ⟨hquiet y, hplain, by simp⟩
  | told hst hr hauth' => exact hauth hauth' hplain
  | auth hst hr =>
    cases hr with
    | @yields y => exact ⟨hquiet y, hplain, by simp⟩

end Resumed

section Run

variable {start : ImapSessionOpen K} {f : F} {a b : Config (ImapSessionOpen K) F}
  {t : Step K F} {es pre post : List (Step K F)}

theorem plain_run (hrun : Run (imapSessionOpen K).Step a es b) (hplain : a.state.opts.starttls = false)
    (hs : ∀ startTls, a.state.state ≠ .startTls startTls) : ∀ t ∈ es, upgrades t = false := by
  refine Run.labels (I := fun a => a.due = none ∨ a.state.opts.starttls = false ∧
    ∀ startTls, a.state.state ≠ .startTls startTls) (.inr ⟨hplain, hs⟩) ?_ hrun
  intro a t b ha hstep
  obtain ⟨due, arg, env, out, s', f', log, hd, -, hr, rfl, rfl⟩ := (imapSessionOpen K).step_cases hstep
  obtain ⟨hplain, hs⟩ := ha.resolve_left (by simp [hd])
  cases out with
  | complete r => exact ⟨.inl rfl, rfl⟩
  | yielded y =>
    have hresumed : Resumed a.state _ _ _ _ _ := resume_cases hr
    obtain ⟨hy, hopts, hstate⟩ := hresumed.plain hplain hs
    refine ⟨.inr ⟨hopts, hstate⟩, ?_⟩
    cases y with
    | wantsTlsUpgrade => exact absurd rfl hy
    | _ => rfl

/-- The first resume connects, and none after it does. -/
theorem first_connects (hstart : start.state = .connect)
    (hrun : (imapSessionOpen K).Runs start f (t :: post) b) :
    (post = [] ∧ ∃ err, t.out = .complete (.error err)) ∨
      t.out = .yielded start.transport.connect ∧ (∀ e ∈ post, connects e = false) ∧
        Run (imapSessionOpen K).Step ⟨{ start with state := .connected }, f, some .nothing⟩ post b := by
  obtain ⟨a, hstep, hpost⟩ := hrun.cons_inv
  obtain ⟨due, arg, env, out, s', f', log, -, -, hr, rfl, rfl⟩ := (imapSessionOpen K).step_cases hstep
  have hconnect : start.resumeConnect (⟨f, []⟩ : Logged F) = (out, s', ⟨f', log⟩) := by
    have hr : start.resume (⟨f, []⟩ : Logged F) arg = (out, s', ⟨f', log⟩) := hr
    rw [resume, hstart] at hr
    exact hr
  rw [resumeConnect] at hconnect
  split at hconnect
  · cases hconnect
    refine .inl ⟨?_, _, rfl⟩
    cases post with
    | nil => rfl
    | cons e post =>
      obtain ⟨-, ⟨_, _, _, hd, -⟩, -⟩ := hpost.cons_inv
      simp at hd
  · cases hconnect
    have hrequest : start.transport.connect.request = .nothing := by cases start.transport <;> rfl
    have hpost' : Run (imapSessionOpen K).Step ⟨{ start with state := .connected }, f,
      some start.transport.connect.request⟩ post b := hpost
    rw [hrequest] at hpost'
    exact .inr ⟨rfl, connected_run hpost (by simp), hpost'⟩

/-- With STARTTLS no session is open before its upgrade. -/
theorem opens_upgraded (hstart : start.state = .connect) (hstarttls : start.opts.starttls = true)
    (hrun : (imapSessionOpen K).Runs start f (pre ++ [t]) b) {data : ImapSessionOpenData}
    (hout : t.out = .complete (.ok data)) : ∃ e ∈ pre, upgrades e = true := by
  by_contra hnone
  have hno : ∀ e ∈ pre, upgrades e = false := fun e he => by
    cases hup : upgrades e with
    | false => rfl
    | true => exact absurd ⟨e, he, hup⟩ hnone
  obtain ⟨a, hpre, hstep⟩ := hrun.snoc_inv
  obtain ⟨due, arg, env, out, s', f', log, hd, -, hr, rfl, rfl⟩ := (imapSessionOpen K).step_cases hstep
  have hplain := plaintext_run hstart hstarttls hpre hno due hd
  have hphase := hplain.phase
  have hopts : a.state.opts.starttls = true := by rw [hplain.fields]; exact hstarttls
  obtain rfl : out = .complete (.ok data) := hout
  -- before the upgrade only STARTTLS is under way, and that completes with a failure only
  have hgreeting : ∀ greeting, ¬ a.state.AtGreeting greeting := by
    intro greeting hs
    rcases hs with hs | ⟨-, hs, -⟩
    · simp [hs] at hphase
    · simp [hopts] at hs
  have hcapability : ∀ capability, ¬ a.state.AtCapability capability := by
    intro capability hs
    rcases hs with hs | ⟨hs, -⟩ <;> simp [hs] at hphase
  cases resume_cases hr with
  | startTls hs hr' =>
    obtain ⟨-, ⟨y, startTls', hy, -⟩ | ⟨hy, -⟩ | ⟨err, hy, -⟩⟩ := resumeStartTls_cases hr' <;> simp at hy
  | greeted hs => exact hgreeting _ hs
  | told hs => exact hcapability _ hs
  | auth hs => simp [hs] at hphase

end Run
end ImapSessionOpen

/-! ### The order of the operations -/

open ImapSessionOpen

/-- At most the first line of a STARTTLS command is written. -/
def StartTlsOnly [Encoder Command] (ops : List StreamOp) : Prop :=
  ops.filterMap StreamOp.written? = [] ∨ ∃ tag line rest,
    Encoder.encode (⟨tag, .startTls⟩ : Command) = .line line :: rest ∧
      ops.filterMap StreamOp.written? = [line]

/-- The operations over a transport: the connection first and once, and with STARTTLS the
upgrade once, before anything but the STARTTLS line goes over the stream. -/
inductive ConnectOp.Ordered [Encoder Command] (transport : ImapSessionTransport) (starttls : Bool) :
    List ConnectOp → Prop
  | nothing : Ordered transport starttls []
  | plain {r : Except String Unit} {ops : List StreamOp} (h : starttls = false) :
      Ordered transport starttls (.connects transport r :: ops.map .stream)
  | starting {r : Except String Unit} {plain : List StreamOp} (h : starttls = true)
      (hplain : StartTlsOnly plain) :
      Ordered transport starttls (.connects transport r :: plain.map .stream)
  | secured {r r' : Except String Unit} {plain ops : List StreamOp} (h : starttls = true)
      (hplain : StartTlsOnly plain) : Ordered transport starttls
        (.connects transport r :: (plain.map .stream ++ .upgrades r' :: ops.map .stream))

namespace ConnectOp

variable {ops : List ConnectOp} {ys : List ImapSessionOpenYield}

theorem Answers.connect_inv {op : ConnectOp} {y : ImapSessionOpenYield} {transport : ImapSessionTransport}
    (h : op.Answers y) (hy : y = transport.connect) : ∃ r, op = .connects transport r := by
  cases h with
  | connects transport' r =>
    refine ⟨r, ?_⟩
    cases transport' <;> cases transport <;> simp_all [ImapSessionTransport.connect]
  | upgrades => cases transport <;> simp [ImapSessionTransport.connect] at hy
  | @stream op y h =>
    cases y <;> cases transport <;>
      simp [ImapSessionTransport.connect, ImapSessionOpenYield.ofYield] at hy

theorem Answers.upgrade_inv {op : ConnectOp} (h : op.Answers .wantsTlsUpgrade) :
    ∃ r, op = .upgrades r := by
  generalize hy : ImapSessionOpenYield.wantsTlsUpgrade = y at h
  cases h with
  | connects transport => cases transport <;> simp [ImapSessionTransport.connect] at hy
  | upgrades r => exact ⟨r, rfl⟩
  | @stream op y h => cases y <;> simp [ImapSessionOpenYield.ofYield] at hy

theorem Answers.stream_inv {op : ConnectOp} {y : ImapYield} (h : op.Answers (.ofYield y)) :
    ∃ sop : StreamOp, op = .stream sop ∧ sop.Answers y := by
  generalize hy : ImapSessionOpenYield.ofYield y = y' at h
  cases h with
  | connects transport =>
    cases y <;> cases transport <;>
      simp [ImapSessionTransport.connect, ImapSessionOpenYield.ofYield] at hy
  | upgrades => cases y <;> simp [ImapSessionOpenYield.ofYield] at hy
  | @stream op y' h =>
    obtain rfl : y = y' := by cases y <;> cases y' <;> simp_all [ImapSessionOpenYield.ofYield]
    exact ⟨op, rfl, h⟩

/-- What tags, reads and writes ask for is done on the stream. -/
theorem stream_ops (h : List.Forall₂ Answers ops ys) (hys : ∀ y ∈ ys, ∃ y', y = .ofYield y') :
    ∃ sops : List StreamOp, ops = sops.map .stream := by
  induction h with
  | nil => exact ⟨[], rfl⟩
  | @cons op y ops ys hop _ ih =>
    obtain ⟨y', rfl⟩ := hys y (List.mem_cons_self ..)
    obtain ⟨sop, rfl, -⟩ := hop.stream_inv
    obtain ⟨sops, rfl⟩ := ih fun x hx => hys x (List.mem_cons_of_mem _ hx)
    exact ⟨sop :: sops, rfl⟩

end ConnectOp

def ImapSessionOpenYield.written? : ImapSessionOpenYield → Option Bytes
  | .wantsWrite bytes => some bytes
  | _ => none

theorem ConnectOp.Answers.written? {op : ConnectOp} {y : ImapSessionOpenYield} (h : op.Answers y) :
    op.written? = y.written? := by
  cases h with
  | connects transport => cases transport <;> rfl
  | upgrades => rfl
  | stream h => cases h <;> rfl

theorem ConnectOp.written_eq {ops : List ConnectOp} {ys : List ImapSessionOpenYield}
    (h : List.Forall₂ Answers ops ys) :
    ops.filterMap written? = ys.filterMap ImapSessionOpenYield.written? := by
  induction h with
  | nil => rfl
  | cons hy _ ih => rw [List.filterMap_cons, List.filterMap_cons, hy.written?, ih]

theorem exists_answer {ops : List ConnectOp} {ys : List ImapSessionOpenYield} {y : ImapSessionOpenYield}
    (h : List.Forall₂ ConnectOp.Answers ops ys) (hy : y ∈ ys) : ∃ op ∈ ops, op.Answers y := by
  induction h with
  | nil => simp at hy
  | @cons op y' ops ys hop _ ih =>
    rcases List.mem_cons.mp hy with rfl | hy
    · exact ⟨op, List.mem_cons_self .., hop⟩
    · obtain ⟨op', hmem, hop'⟩ := ih hy
      exact ⟨op', List.mem_cons_of_mem _ hmem, hop'⟩

theorem ConnectOp.Ordered.connected [Encoder Command] {transport : ImapSessionTransport} {starttls : Bool}
    {ops : List ConnectOp} (h : Ordered transport starttls ops) (hne : ops ≠ [])
    (hok : ∀ op ∈ ops, op.failure? (E := ImapSessionOpenError) = none) :
    .connects transport (.ok ()) ∈ ops := by
  have hfirst : ∀ {r : Except String Unit} {rest : List ConnectOp},
      (∀ op ∈ connects transport r :: rest, op.failure? (E := ImapSessionOpenError) = none) →
        connects transport (.ok ()) ∈ connects transport r :: rest := by
    intro r rest hok
    have hr := hok _ (List.mem_cons_self ..)
    cases r with
    | error err => simp [failure?] at hr
    | ok u => exact List.mem_cons_self ..
  cases h with
  | nothing => exact absurd rfl hne
  | plain => exact hfirst hok
  | starting => exact hfirst hok
  | secured => exact hfirst hok

theorem ConnectOp.written_stream (ops : List StreamOp) :
    (ops.map .stream).filterMap written? = ops.filterMap StreamOp.written? := by
  rw [List.filterMap_map]
  rfl

section Ordered

variable {K F : Type} [SaslMechanisms K] [TryFrom String AString] [Fragmentizer F] [TryFrom Bytes Tag]
  [Encoder Command] [Encoder AuthenticateData] {start : ImapSessionOpen K} {f : F}
  {ts : List (Step K F)} {b : Config (ImapSessionOpen K) F} {ops : List ConnectOp}

omit [Fragmentizer F] in
theorem written_asked (ts : List (Step K F)) : ts.filterMap written =
    (ts.filterMap (imapSessionOpen K).asked?).filterMap ImapSessionOpenYield.written? := by
  rw [List.filterMap_filterMap]
  refine List.filterMap_congr fun t _ => ?_
  rw [written, Coroutine.asked?]
  rcases t.out with y | r
  · cases y <;> rfl
  · rfl

omit [Fragmentizer F] in
/-- Behind the connection and without an upgrade, everything is asked of the stream. -/
theorem asked_quiet {es : List (Step K F)} (hconnects : ∀ e ∈ es, connects e = false)
    (hupgrades : ∀ e ∈ es, upgrades e = false) :
    ∀ y ∈ es.filterMap (imapSessionOpen K).asked?, ∃ y', y = .ofYield y' := by
  intro y hy
  obtain ⟨e, he, hasked⟩ := List.mem_filterMap.mp hy
  have hc := hconnects e he
  have hu := hupgrades e he
  rw [connects] at hc
  rw [upgrades] at hu
  rw [Coroutine.asked?] at hasked
  rcases hout : e.out with y' | r
  · rw [hout] at hc hu hasked
    obtain rfl : y' = y := by
      simp only at hasked
      split at hasked
      · simp at hasked
      · exact Option.some.inj hasked
    cases y' with
    | wantsRead => exact ⟨.wantsRead, rfl⟩
    | wantsTag => exact ⟨.wantsTag, rfl⟩
    | wantsWrite bytes => exact ⟨.wantsWrite bytes, rfl⟩
    | _ => simp at hc hu
  · simp [hout] at hasked

omit [Fragmentizer F] in
theorem asked_upgrade {e : Step K F} (h : upgrades e = true) :
    (imapSessionOpen K).asked? e = some .wantsTlsUpgrade := by
  rw [upgrades] at h
  split at h
  · rename_i hout
    rw [Coroutine.asked?, hout]
    rfl
  · simp at h

theorem startTlsOnly (hstart : start.state = .connect) (hstarttls : start.opts.starttls = true)
    (hrun : (imapSessionOpen K).Runs start f ts b) (hno : ∀ t ∈ ts, upgrades t = false)
    {plain : List StreamOp} (hwrites : plain.filterMap StreamOp.written? = ts.filterMap written) :
    StartTlsOnly plain := by
  rw [StartTlsOnly, hwrites, plaintext_writes hstart hstarttls hrun hno]
  cases htag : ImapSessionOpen.commandTag ts with
  | none => exact .inl rfl
  | some tag =>
    cases hline : ImapStartTls.startTlsLine tag with
    | none => exact .inl (by simp [hline])
    | some line =>
      obtain ⟨rest, hencode⟩ := startTlsLine_eq_some hline
      exact .inr ⟨tag, line, rest, hencode, by simp [hline]⟩

section Connected

variable {t : Step K F} {post : List (Step K F)} {rest : List ConnectOp}

omit [Fragmentizer F] in
theorem asked_connect {transport : ImapSessionTransport} (hout : t.out = .yielded transport.connect) :
    (imapSessionOpen K).asked? t = some transport.connect ∧ written t = none ∧ upgrades t = false := by
  rw [Coroutine.asked?, written, upgrades, hout]
  refine ⟨if_neg ?_, ?_⟩
  · cases transport <;> exact Request.noConfusion
  · cases transport <;> exact ⟨rfl, rfl⟩

theorem ordered_plain (hstart : start.state = .connect) (hrun : (imapSessionOpen K).Runs start f (t :: post) b)
    (hwritten : written t = none) (hup : upgrades t = false) (hconnects : ∀ e ∈ post, connects e = false)
    (hno : ∀ e ∈ post, upgrades e = false) (r : Except String Unit)
    (h : List.Forall₂ ConnectOp.Answers rest (post.filterMap (imapSessionOpen K).asked?)) :
    ConnectOp.Ordered start.transport start.opts.starttls (.connects start.transport r :: rest) := by
  obtain ⟨sops, rfl⟩ := ConnectOp.stream_ops h (asked_quiet hconnects hno)
  cases hstarttls : start.opts.starttls with
  | false => exact .plain rfl
  | true =>
    refine .starting rfl (startTlsOnly hstart hstarttls hrun (List.forall_mem_cons.mpr ⟨hup, hno⟩) ?_)
    rw [List.filterMap_cons_none hwritten, written_asked, ← ConnectOp.written_eq h,
      ConnectOp.written_stream]

/-- What is asked for behind the first upgrade is asked of the stream again. -/
theorem ordered_secured {pre tail : List (Step K F)} {e : Step K F} (hstart : start.state = .connect)
    (hstarttls : start.opts.starttls = true)
    (hrun : (imapSessionOpen K).Runs start f (t :: (pre ++ e :: tail)) b) (hwritten : written t = none)
    (hnone : upgrades t = false) (hconnects : ∀ x ∈ pre ++ e :: tail, connects x = false)
    (hpre : ∀ x ∈ pre, upgrades x = false) (hup : upgrades e = true) (r : Except String Unit)
    (h : List.Forall₂ ConnectOp.Answers rest
      ((pre ++ e :: tail).filterMap (imapSessionOpen K).asked?)) :
    ConnectOp.Ordered start.transport true (.connects start.transport r :: rest) := by
  have hsplit : t :: (pre ++ e :: tail) = ((t :: pre) ++ [e]) ++ tail := by simp
  rw [hsplit] at hrun
  obtain ⟨c, hbefore, htail⟩ := hrun.split
  have hall : ∀ x ∈ t :: pre, upgrades x = false := List.forall_mem_cons.mpr ⟨hnone, hpre⟩
  have hsecured : c.state.state.secured = true := by
    -- the run so far ends in the upgrade, which no step before it was
    cases opens_run hstart hstarttls hbefore hall with
    | goesOn hup' => simp [hup] at hup'
    | fails hup' => simp [hup] at hup'
    | upgrades _ _ _ _ _ _ hc => rw [hc]; rfl
  rw [List.filterMap_append, List.filterMap_cons_some (asked_upgrade hup)] at h
  have hplain := List.forall₂_take_append _ _ _ h
  obtain ⟨op, more, hop, hmore, heq⟩ := List.forall₂_cons_right_iff.mp (List.forall₂_drop_append _ _ _ h)
  obtain ⟨r', rfl⟩ := hop.upgrade_inv
  obtain ⟨plain, hp⟩ := ConnectOp.stream_ops hplain
    (asked_quiet (fun x hx => hconnects x (by simp [hx])) hpre)
  obtain ⟨sops, rfl⟩ := ConnectOp.stream_ops hmore
    (asked_quiet (fun x hx => hconnects x (by simp [hx])) (secured_run htail hsecured))
  rw [← List.take_append_drop (pre.filterMap (imapSessionOpen K).asked?).length rest, heq, hp]
  obtain ⟨d, hrun', -⟩ := hbefore.snoc_inv
  refine .secured rfl (startTlsOnly hstart hstarttls hrun' hall ?_)
  rw [List.filterMap_cons_none hwritten, written_asked, ← ConnectOp.written_eq hplain, hp,
    ConnectOp.written_stream]

end Connected

/-- The operations that a session asks for are in order. -/
theorem ordered (hstart : start.state = .connect) (hrun : (imapSessionOpen K).Runs start f ts b)
    (h : List.Forall₂ ConnectOp.Answers ops (ts.filterMap (imapSessionOpen K).asked?)) :
    ConnectOp.Ordered start.transport start.opts.starttls ops := by
  cases ts with
  | nil =>
    cases h
    exact .nothing
  | cons t post =>
    rcases first_connects hstart hrun with ⟨rfl, err, hout⟩ | ⟨hout, hconnects, hpost⟩
    · have hasked : [t].filterMap (imapSessionOpen K).asked? = [] := by simp [Coroutine.asked?, hout]
      rw [hasked] at h
      cases h
      exact .nothing
    · obtain ⟨hasked, hwritten, hnone⟩ := asked_connect hout
      rw [List.filterMap_cons_some hasked] at h
      obtain ⟨op, rest, hop, hrest, rfl⟩ := List.forall₂_cons_right_iff.mp h
      obtain ⟨r, rfl⟩ := hop.connect_inv rfl
      by_cases hno : ∀ e ∈ post, upgrades e = false
      · exact ordered_plain hstart hrun hwritten hnone hconnects hno r hrest
      · have hstarttls : start.opts.starttls = true := by
          cases hstarttls : start.opts.starttls with
          | true => rfl
          | false => exact absurd (plain_run hpost hstarttls (by simp)) hno
        obtain ⟨pre, e, tail, rfl, hpre, hup⟩ := exists_first hno
        exact hstarttls ▸ ordered_secured hstart hstarttls hrun hwritten hnone hconnects hpre hup r hrest

end Ordered

/-! ### What `connect` returns -/

section Connect

variable {K F N St G : Type} [SaslMechanisms K] [TryFrom String AString] [TryFrom Bytes Tag]
  [Encoder Command] [Encoder AuthenticateData] [Fragmentizer F] [Network N St] [ImapStream St]
  [TagGenerator G]

/-- What `connect` has to show for its result: the client has the stream, the fragmentizer
and the tags that the session left, or the last operation failed, or the session did. -/
def Concludes (ts : List (Step K F)) (ops : List ConnectOp) (stream : Option St) (tags : G) :
    Option (Except ImapConnectError (ImapClientStd F St G × List Capability)) → Prop
  | none => ∀ op ∈ ops, op.failure? (E := ImapSessionOpenError) = none
  | some (.ok (client, capability)) => (∀ op ∈ ops, op.failure? (E := ImapSessionOpenError) = none) ∧
      stream = some client.stream ∧ tags = client.tags ∧
      ∃ t, ts.getLast? = some t ∧ t.out = .complete (.ok ⟨capability, client.preAuthenticated⟩) ∧
        t.fragAfter = client.fragmentizer
  | some (.error (.client err)) => (∃ pre op, ops = pre ++ [op] ∧
        (∀ x ∈ pre, x.failure? (E := ImapSessionOpenError) = none) ∧ op.failure? = some err) ∨
      ((∀ op ∈ ops, op.failure? (E := ImapSessionOpenError) = none) ∧
        ∃ t e, ts.getLast? = some t ∧ t.out = .complete (.error e) ∧ err = .coroutine e)
  | some (.error (.url _)) => False

omit [TryFrom String AString] [TryFrom Bytes Tag] [Encoder Command] [Encoder AuthenticateData]
  [Fragmentizer F] [TagGenerator G] [SaslMechanisms K] in
/-- Operations that went well leave a stream. -/
theorem ConnectOp.Performs.stream_some {op : ConnectOp} {w w' : N × Option St} (h : op.Performs w w')
    (hok : op.failure? (E := ImapSessionOpenError) = none) : w'.2.isSome = true := by
  cases h with
  | @connects _ _ _ _ r h =>
    cases r with
    | error err => simp [failure?, Except.map] at hok
    | ok stream => rfl
  | @upgrades _ _ _ r h =>
    cases r with
    | error err => simp [failure?, Except.map] at hok
    | ok stream => rfl
  | stream h => rfl

/-- The call between its start and after so many passes. -/
abbrev Dialed (network : N) (f : F) (tags : G) (transport : ImapSessionTransport)
    (opts : ImapClientStdConnectOptions) (ts : List (Step K F)) (b : Config (ImapSessionOpen K) F)
    (call : Call (ImapSessionOpen K) F (Dialing N St G) ImapSessionOpenError ImapSessionOpenData)
    (ops : List ConnectOp) (issued : List Tag) : Prop :=
  (imapSessionOpen K).Runs (.new transport (withNonce network opts.sasl).1 opts.session) f ts b ∧
    call.Drives b ∧ (Dialing.operations N St G ImapSessionOpenError).Driven (imapSessionOpen K)
      ⟨(withNonce network opts.sasl).2, none, tags⟩ ts b call ops issued

theorem ImapClientStd.connect_eq {network : N} {f : F} {tags : G} {url : Url}
    {transport : ImapSessionTransport} {opts : ImapClientStdConnectOptions} {n : Nat}
    (hurl : ImapSessionTransport.fromUrl url = .ok transport) :
    connect K network f tags url opts n = (dial K network f tags transport opts n).result.map
      (connected (dial K network f tags transport opts n).fragmentizer
        (dial K network f tags transport opts n).world) := by
  rw [connect, hurl]

theorem ImapClientStd.dial_driven (network : N) (f : F) (tags : G) (transport : ImapSessionTransport)
    (opts : ImapClientStdConnectOptions) (n : Nat) : ∃ ts b ops issued,
      Dialed network f tags transport opts ts b (dial K network f tags transport opts n) ops issued := by
  obtain ⟨ts, b, ops, issued, hrun, hdrives, h, -⟩ :=
    (Dialing.serves_operations (K := K) (N := N) (G := G)).driven
      (imapSessionOpen_unlogged K) (.new transport (withNonce network opts.sasl).1 opts.session) f
      ⟨(withNonce network opts.sasl).2, none, tags⟩ (fun hne => absurd rfl hne) n
  exact ⟨ts, b, ops, issued, hrun, hdrives, h⟩

section Dialed

variable {network : N} {f : F} {tags : G} {transport : ImapSessionTransport}
  {opts : ImapClientStdConnectOptions} {ts : List (Step K F)} {b : Config (ImapSessionOpen K) F}
  {call : Call (ImapSessionOpen K) F (Dialing N St G) ImapSessionOpenError ImapSessionOpenData}
  {ops : List ConnectOp} {issued : List Tag}

omit [SaslMechanisms K] [TryFrom String AString] [TryFrom Bytes Tag] [Encoder Command]
  [Encoder AuthenticateData] [Fragmentizer F] [TagGenerator G] in
/-- Operations without a failure, and one at least, leave a stream. -/
theorem stream_left {w w' : N × Option St} (h : Run ConnectOp.Performs w ops w')
    (hok : ∀ op ∈ ops, op.failure? (E := ImapSessionOpenError) = none) (hne : ops ≠ []) :
    w'.2.isSome = true := by
  obtain ⟨pre, op, rfl⟩ := (List.eq_nil_or_concat ops).resolve_left hne
  rw [List.concat_eq_append] at h hok
  obtain ⟨w₁, -, hop⟩ := h.snoc_inv
  exact hop.stream_some (hok op (by simp))

/-- A session that is open has connected. -/
theorem Dialed.connected (h : Dialed network f tags transport opts ts b call ops issued) {t : Step K F}
    (hlast : ts.getLast? = some t) {data : ImapSessionOpenData} (hout : t.out = .complete (.ok data)) :
    ops ≠ [] := by
  obtain ⟨hrun, -, hd⟩ := h
  rintro rfl
  have hnil := List.forall₂_nil_left_iff.mp hd.answers
  cases ts with
  | nil => simp at hlast
  | cons t₀ post =>
    rcases first_connects rfl hrun with ⟨rfl, err, hout'⟩ | ⟨hout', -⟩
    · obtain rfl : t₀ = t := by simpa using hlast
      rw [hout] at hout'
      simp at hout'
    · rw [List.filterMap_cons_some (asked_connect hout').1] at hnil
      simp at hnil

theorem Dialed.concludes (h : Dialed network f tags transport opts ts b call ops issued) :
    Concludes ts ops call.world.stream call.world.tags
      (call.result.map (IoImap.connected call.fragmentizer call.world)) := by
  have hshows := h.2.2.shows
  cases hresult : call.result with
  | none =>
    rw [hresult] at hshows
    exact hshows
  | some result =>
    rw [hresult] at hshows
    cases result with
    | error err => exact hshows
    | ok data =>
      obtain ⟨hfine, t, hlast, hout⟩ := hshows
      obtain ⟨stream, hstream⟩ := Option.isSome_iff_exists.mp
        (stream_left h.2.2.performed hfine (h.connected hlast hout))
      have hstream : call.world.stream = some stream := hstream
      obtain ⟨pre, rfl⟩ := List.getLast?_eq_some_iff.mp hlast
      obtain ⟨a, -, due, arg, -, -, -, -, hb⟩ := h.1.snoc_inv
      have hfrag : t.fragAfter = call.fragmentizer := by
        rw [← h.2.1.frag, hb]
        rfl
      rw [Option.map_some, IoImap.connected, hstream]
      exact ⟨hfine, rfl, rfl, t, hlast, hout, hfrag⟩

end Dialed

/-- `connect` does what its session asks for, in this order and no more, answers each resume
with what its operation came to, and never lacks the stream that it needs. -/
theorem ImapClientStd.connect_performs (network : N) (f : F) (tags : G) {url : Url}
    {transport : ImapSessionTransport} (opts : ImapClientStdConnectOptions) (n : Nat)
    (hurl : ImapSessionTransport.fromUrl url = .ok transport) :
    ∃ (ts : List (Step K F)) (b : Config (ImapSessionOpen K) F) (ops : List ConnectOp)
      (issued : List Tag) (w : N × Option St) (tags' : G),
      (imapSessionOpen K).Runs (.new transport (withNonce network opts.sasl).1 opts.session) f ts b ∧
      Run ConnectOp.Performs ((withNonce network opts.sasl).2, none) ops w ∧
      Run Issues tags issued tags' ∧
      List.Forall₂ ConnectOp.Answers ops (ts.filterMap (imapSessionOpen K).asked?) ∧
      ts.filterMap Turn.given? <+: ops.filterMap ConnectOp.received? ∧
      ts.filterMap Turn.tag? <+: issued.map Tag.inner ∧
      Concludes ts ops w.2 tags' (ImapClientStd.connect K network f tags url opts n) := by
  obtain ⟨ts, b, ops, issued, h⟩ := ImapClientStd.dial_driven (K := K) network f tags transport opts n
  rw [ImapClientStd.connect_eq hurl]
  exact ⟨ts, b, ops, issued, _, _, h.1, h.2.2.performed, h.2.2.issued, h.2.2.answers, ⟨_, h.2.2.reads⟩,
    ⟨_, h.2.2.tagged⟩, h.concludes⟩

/-- However a call to `connect` ends, what it does opens the connection of its URL first and
once, and with STARTTLS upgrades the stream once, which carries nothing but the STARTTLS line
before; the client that is returned has the upgraded stream. -/
theorem ImapClientStd.connect_secures (network : N) (f : F) (tags : G) {url : Url}
    {transport : ImapSessionTransport} (opts : ImapClientStdConnectOptions) (n : Nat)
    (hurl : ImapSessionTransport.fromUrl url = .ok transport) :
    ∃ (ts : List (Step K F)) (b : Config (ImapSessionOpen K) F) (ops : List ConnectOp)
      (issued : List Tag) (w : N × Option St) (tags' : G),
      (imapSessionOpen K).Runs (.new transport (withNonce network opts.sasl).1 opts.session) f ts b ∧
      Run ConnectOp.Performs ((withNonce network opts.sasl).2, none) ops w ∧
      Run Issues tags issued tags' ∧
      List.Forall₂ ConnectOp.Answers ops (ts.filterMap (imapSessionOpen K).asked?) ∧
      ts.filterMap Turn.given? <+: ops.filterMap ConnectOp.received? ∧
      ts.filterMap Turn.tag? <+: issued.map Tag.inner ∧
      Concludes ts ops w.2 tags' (ImapClientStd.connect K network f tags url opts n) ∧
      ConnectOp.Ordered transport opts.session.starttls ops ∧
      ∀ client capability, ImapClientStd.connect K network f tags url opts n =
          some (.ok (client, capability)) → w.2 = some client.stream ∧
        .connects transport (.ok ()) ∈ ops ∧
        (opts.session.starttls = true → .upgrades (.ok ()) ∈ ops) := by
  obtain ⟨ts, b, ops, issued, h⟩ := ImapClientStd.dial_driven (K := K) network f tags transport opts n
  rw [ImapClientStd.connect_eq hurl]
  have hordered : ConnectOp.Ordered transport opts.session.starttls ops := ordered rfl h.1 h.2.2.answers
  have hconcludes := h.concludes
  refine ⟨ts, b, ops, issued, _, _, h.1, h.2.2.performed, h.2.2.issued, h.2.2.answers, ⟨_, h.2.2.reads⟩,
    ⟨_, h.2.2.tagged⟩, hconcludes, hordered, fun client capability hok => ?_⟩
  rw [hok] at hconcludes
  obtain ⟨hfine, hstream, -, t, hlast, hout, -⟩ := hconcludes
  refine ⟨hstream, hordered.connected (h.connected hlast hout) hfine, fun hstarttls => ?_⟩
  obtain ⟨pre, rfl⟩ := List.getLast?_eq_some_iff.mp hlast
  obtain ⟨e, he, hup⟩ := opens_upgraded rfl hstarttls h.1 hout
  have hasked := List.mem_filterMap.mpr ⟨e, List.mem_append_left [t] he, asked_upgrade hup⟩
  obtain ⟨op, hmem, hop⟩ := exists_answer h.2.2.answers hasked
  obtain ⟨r, rfl⟩ := hop.upgrade_inv
  cases r with
  | error err =>
    have hfails := hfine _ hmem
    simp [ConnectOp.failure?] at hfails
  | ok u => exact hmem

end Connect

section Concrete

open Concrete

/-- Sockets whose streams are known: what is read before and behind the upgrade. -/
structure ScriptedSockets where
  plain : List Bytes
  secured : List Bytes

instance : Network ScriptedSockets ScriptedStream where
  connectTcp w _ _ := (.ok ⟨w.plain, []⟩, { w with plain := [] })
  connectTls w _ _ := (.ok ⟨w.secured, []⟩, { w with secured := [] })
  connectUnix w _ := (.ok ⟨w.plain, []⟩, { w with plain := [] })
  upgradeTls w st := (.ok ⟨w.secured, st.sent⟩, { w with secured := [] })
  sample w := (0x61, w)

def imapUrl : Url := ⟨"imap", some "example.org", none, "", "imap://example.org"⟩

def startTlsSockets : ScriptedSockets :=
  ⟨[ascii "* OK ready\r\n", ascii "A1 OK go\r\n"],
    [ascii "* CAPABILITY SASL-IR\r\nA2 OK done\r\n"]⟩

def capabilityLines : LineFragmentizer (decodeTable capabilityTable) := .empty

/-- A connection that is upgraded, up to the capabilities behind the upgrade. -/
def connectStartTls := ImapClientStd.connect Scripted startTlsSockets capabilityLines (⟨1⟩ : CountedTags)
  imapUrl ⟨none, ⟨true, none, none⟩⟩ 10

theorem imapUrl_transport : ImapSessionTransport.fromUrl imapUrl = .ok (.tcp "example.org" 143) := by
  decide +kernel

theorem connect_performs_starttls : ∃ (ts : List (Step Scripted (LineFragmentizer (decodeTable
    capabilityTable)))) (ops : List ConnectOp) (w : ScriptedSockets × Option ScriptedStream)
    (tags' : CountedTags), List.Forall₂ ConnectOp.Answers ops
      (ts.filterMap (imapSessionOpen Scripted).asked?) ∧ Concludes ts ops w.2 tags' connectStartTls := by
  obtain ⟨ts, b, ops, issued, w, tags', -, -, -, hanswers, -, -, hconcludes⟩ :=
    ImapClientStd.connect_performs (K := Scripted) startTlsSockets capabilityLines (⟨1⟩ : CountedTags)
      ⟨none, ⟨true, none, none⟩⟩ 10 imapUrl_transport
  exact ⟨ts, ops, w, tags', hanswers, hconcludes⟩

def sentBy {F : Type} (r : Except ImapConnectError (ImapClientStd F ScriptedStream CountedTags ×
    List Capability)) : Option Bytes :=
  match r with
  | .ok (client, _) => some client.stream.sent
  | .error _ => none

theorem connect_secures_starttls : ∃ client capability ops w,
    connectStartTls = some (.ok (client, capability)) ∧
      client.stream.sent = ascii "A1 STARTTLS\r\nA2 CAPABILITY\r\n" ∧
      Run ConnectOp.Performs (startTlsSockets, none) ops w ∧ w.2 = some client.stream ∧
      ConnectOp.Ordered (.tcp "example.org" 143) true ops ∧ .upgrades (.ok ()) ∈ ops := by
  have hsent : connectStartTls.bind sentBy = some (ascii "A1 STARTTLS\r\nA2 CAPABILITY\r\n") := by
    decide +kernel
  obtain ⟨r, hr, hsent⟩ := Option.bind_eq_some_iff.mp hsent
  cases r with
  | error err => simp [sentBy] at hsent
  | ok x =>
    obtain ⟨client, capability⟩ := x
    obtain ⟨ts, b, ops, issued, w, tags', -, hperformed, -, -, -, -, -, hordered, hopen⟩ :=
      ImapClientStd.connect_secures (K := Scripted) startTlsSockets capabilityLines
        (⟨1⟩ : CountedTags) ⟨none, ⟨true, none, none⟩⟩ 10 imapUrl_transport
    obtain ⟨hstream, -, hupgraded⟩ := hopen client capability hr
    exact ⟨client, capability, ops, w, hr, Option.some.inj hsent, hperformed, hstream, hordered,
      hupgraded rfl⟩

end Concrete
end IoImap
