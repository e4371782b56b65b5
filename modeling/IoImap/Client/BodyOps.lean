import IoImap.Client.Sinks

/-!
# What a loop does with a body

The operations of a loop on its stream and on the sinks of its caller, and what they add up
to. A loop that serves every yield of a streaming coroutine as it is asked to has told its
caller, at any point, a beginning of what the octets it received come to.
-/

namespace IoImap
open Fragmentizer StreamsBodies Transition

/-- An operation of a loop, with what came of it. -/
inductive BodyOp where
  | stream (op : StreamOp)
  | opens (uid : Nat) (result : Except IoError Unit)
  | writes (bytes : Bytes) (result : Except IoError Unit)
  | commits (uid : Nat) (result : Except IoError Unit)

namespace BodyOp

def error? : BodyOp → Option IoError
  | .stream (.read _ (.error err)) => some err
  | .stream (.write _ (.error err)) => some err
  | .opens _ (.error err) => some err
  | .writes _ (.error err) => some err
  | .commits _ (.error err) => some err
  | _ => none

def octets : BodyOp → Bytes
  | .stream (.read _ (.ok bytes)) => bytes
  | _ => []

/-- The octets that the operations took off the stream. -/
def received (ops : List BodyOp) : Bytes := ops.flatMap octets

@[simp] theorem received_nil : received [] = [] := rfl

@[simp] theorem received_append (ops ops' : List BodyOp) :
    received (ops ++ ops') = received ops ++ received ops' := List.flatMap_append

/-- The last operation failed with `err`, or found the connection closed; none did before. -/
def FailWith (ops : List BodyOp) (err : IoError) : Prop :=
  ∃ pre op, ops = pre ++ [op] ∧ (∀ x ∈ pre, x.error? = none) ∧
    (op.error? = some err ∨
      (op = .stream (.read READ_BUFFER_SIZE (.ok [])) ∧ err = closedConnection))

theorem FailWith.after {pre ops : List BodyOp} {err : IoError} (h : FailWith ops err)
    (hpre : ∀ x ∈ pre, x.error? = none) : FailWith (pre ++ ops) err := by
  obtain ⟨ps, op, rfl, hps, hop⟩ := h
  refine ⟨pre ++ ps, op, (List.append_assoc ..).symm, ?_, hop⟩
  intro x hx
  rcases List.mem_append.mp hx with hx | hx
  · exact hpre x hx
  · exact hps x hx

theorem FailWith.single {op : BodyOp} {err : IoError} (h : op.error? = some err) :
    FailWith [op] err :=
  ⟨[], op, rfl, by simp, .inl h⟩

end BodyOp

open BodyOp

namespace Intake

variable {σ T E : Type} (i : Intake σ T E) (starts : Nat → List T)

/-- What an operation tells the caller of the bodies. -/
def tellsOf : BodyOp → List T
  | .opens uid (.ok ()) => starts uid
  | .writes bytes (.ok ()) => bytes.map i.octet
  | .commits _ (.ok ()) => i.close
  | _ => []

def toldBy (ops : List BodyOp) : List T := ops.flatMap (i.tellsOf starts)

@[simp] theorem toldBy_nil : i.toldBy starts [] = [] := rfl

@[simp] theorem toldBy_append (ops ops' : List BodyOp) :
    i.toldBy starts (ops ++ ops') = i.toldBy starts ops ++ i.toldBy starts ops' := List.flatMap_append

/-- What serving a request came to, where the yield tells `ts`. -/
def Serves (request : Request) (ts : List T) (ops : List BodyOp) :
    Except (ImapClientError E) (Option Bytes) → Prop
  | .ok arg => request.answeredBy arg = true ∧ request.Takes arg (received ops) ∧
      i.toldBy starts ops = ts ++ (request.copied (received ops)).map i.octet ∧
      ∀ op ∈ ops, op.error? = none
  | .error (.io err) => request.Takes (some []) (received ops) ∧
      i.toldBy starts ops <+: ts ++ (request.copied (received ops)).map i.octet ∧ FailWith ops err
  | .error _ => False

/-- An operation that takes nothing off the stream. -/
theorem serves_op {starts : Nat → List T} {request : Request} {ts : List T} {op : BodyOp}
    {result : Except (ImapClientError E) (Option Bytes)} (hoctets : op.octets = [])
    (hrequest : request = .nothing)
    (hresult : (op.error? = none ∧ i.tellsOf starts op = ts ∧ result = .ok none) ∨
      ∃ err, op.error? = some err ∧ i.tellsOf starts op = [] ∧ result = .error (.io err)) :
    i.Serves starts request ts [op] result := by
  have hreceived : received [op] = [] := by simp [received, hoctets]
  subst hrequest
  rcases hresult with ⟨hnone, htells, rfl⟩ | ⟨err, herr, htells, rfl⟩
  · refine ⟨rfl, hreceived, ?_, by simp [hnone]⟩
    simp [toldBy, htells, Request.copied]
  · refine ⟨hreceived, ?_, .single herr⟩
    simp [toldBy, htells]

theorem serves_tag {bytes : Bytes} : i.Serves starts .tag [] [] (.ok (some bytes)) :=
  ⟨rfl, rfl, rfl, by simp⟩

/-- What an operation of `ImapClientStd::run` comes to. -/
theorem serves_io {op : StreamOp} {y : ImapYield} (h : op.Answers y) :
    i.Serves starts y.request [] [.stream op] (match op.failure? with
      | some err => .error (.io err)
      | none => .ok op.received?) := by
  have htold : i.toldBy starts [.stream op] = [] := by simp [toldBy, tellsOf]
  cases h with
  | write bytes result =>
    rcases result with err | ⟨⟩
    · exact ⟨rfl, by simp [htold], .single rfl⟩
    · exact ⟨rfl, rfl, by simp [htold, Request.copied, ImapYield.request],
        by simp [error?]⟩
  | read result =>
    rcases result with err | (- | ⟨b, bs⟩)
    · exact ⟨rfl, by simp [htold], .single rfl⟩
    · exact ⟨rfl, by simp [htold], [], _, rfl, by simp, .inr ⟨rfl, rfl⟩⟩
    · exact ⟨rfl, by simp [received, octets, StreamOp.received?, Request.Takes, ImapYield.request],
        by simp [htold, Request.copied, ImapYield.request], by simp [error?]⟩

end Intake

/-! ### The copy -/

section Copy

variable {St Sk : Type} [ImapStream St] [Sink Sk]

/-- What an operation does to the stream and to the sink that is open. -/
def BodyOp.Copies (w : St × Sk) (op : BodyOp) (w' : St × Sk) : Prop :=
  match op with
  | .stream op => op.Performs w.1 w'.1 ∧ w'.2 = w.2
  | .writes bytes result => w'.1 = w.1 ∧ Sink.writeAll w.2 bytes = (result, w'.2)
  | _ => False

omit [ImapStream St] [Sink Sk] in
/-- A part of a copy that went well goes in front of the rest. -/
theorem Intake.Serves.behind {σ T E : Type} {i : Intake σ T E} {starts : Nat → List T} {len size : Nat}
    {part : Bytes} {ops : List BodyOp} {result : Except (ImapClientError E) (Option Bytes)}
    (hle : part.length ≤ len) (h : i.Serves starts (.stream (len - part.length)) [] ops result) :
    i.Serves starts (.stream len) []
      ([.stream (.read size (.ok part)), .writes part (.ok ())] ++ ops) result := by
  have hreceived : received ([.stream (.read size (.ok part)), .writes part (.ok ())] ++ ops) =
      part ++ received ops := by simp [received, octets]
  have htold : i.toldBy starts ([.stream (.read size (.ok part)), .writes part (.ok ())] ++ ops) =
      part.map i.octet ++ i.toldBy starts ops := by simp [Intake.toldBy, Intake.tellsOf]
  have hfine : ∀ x ∈ [BodyOp.stream (.read size (.ok part)), .writes part (.ok ())],
      x.error? = none := by simp [error?]
  have hlength : (part ++ received ops).length = part.length + (received ops).length :=
    List.length_append
  rcases result with (err | err | err | -) | arg
  · exact h.elim
  · obtain ⟨htakes, hbegins, hfails⟩ := h
    have htakes : (received ops).length ≤ len - part.length := htakes
    refine ⟨?_, ?_, hfails.after hfine⟩
    · rw [hreceived]
      show (part ++ received ops).length ≤ len
      omega
    · rw [hreceived, htold, Request.copied, List.map_append, List.nil_append,
        List.prefix_append_right_inj]
      exact hbegins
  · exact h.elim
  · exact h.elim
  · obtain ⟨hans, htakes, htells, hall⟩ := h
    refine ⟨hans, ?_, ?_, ?_⟩
    · rw [hreceived]
      cases arg with
      | none =>
        have htakes : (received ops).length = len - part.length := htakes
        show (part ++ received ops).length = len
        omega
      | some bytes =>
        have htakes : (received ops).length ≤ len - part.length := htakes
        show (part ++ received ops).length ≤ len
        omega
    · rw [hreceived, htold, htells, Request.copied, Request.copied, List.map_append, List.nil_append,
        List.nil_append]
    · intro x hx
      rcases List.mem_append.mp hx with hx | hx
      · exact hfine x hx
      · exact hall x hx

theorem copies_part {st st' : St} {sk sk' : Sk} {size : Nat} {part : Bytes}
    {result : Except IoError Unit} (hread : ImapStream.read st size = (.ok part, st'))
    (hwrite : Sink.writeAll sk part = (result, sk')) :
    Run Copies (st, sk) [.stream (.read size (.ok part)), .writes part result] (st', sk') := by
  have hr : Copies (st, sk) (.stream (.read size (.ok part))) (st', sk) := ⟨hread, rfl⟩
  have hw : Copies (st', sk) (.writes part result) (st', sk') := ⟨rfl, hwrite⟩
  exact (Run.single hr).snoc hw

/-- The copy takes the octets asked for off the stream and writes them to the sink as they
come; when it stops short, because of the stream or of the sink, it has written those
before. -/
theorem copyBody_serves [LawfulStream St] {σ T E : Type} (i : Intake σ T E) (starts : Nat → List T)
    (stream : St) (sink : Sk) (len : Nat) :
    ∃ ops, Run Copies (stream, sink) ops (copyBody stream sink len).2 ∧
      i.Serves starts (.stream len) [] ops ((copyBody stream sink len).1.mapError .io) := by
  fun_induction copyBody stream sink len with
  | case1 stream sink => exact ⟨[], .nil, rfl, rfl, rfl, by simp⟩
  | case2 stream sink len hlen err stream' hread =>
    refine ⟨[.stream (.read _ (.error err))], .single ⟨hread, rfl⟩, Nat.zero_le _, ?_, .single rfl⟩
    simp [Intake.toldBy, Intake.tellsOf]
  | case3 stream sink len hlen stream' hread =>
    refine ⟨[.stream (.read _ (.ok []))], .single ⟨hread, rfl⟩, rfl, Nat.zero_le _, ?_, ?_⟩
    · simp [Intake.toldBy, Intake.tellsOf, received, octets, Request.copied]
    · simp [error?]
  | case4 stream sink len hlen b bs stream' hread err sink' hwrite =>
    have hle := LawfulStream.read_le _ _ _ _ hread
    refine ⟨_, copies_part hread hwrite, ?_, ?_, ?_⟩
    · simp only [received, octets, List.flatMap_cons, List.flatMap_nil, List.append_nil]
      exact Nat.le_trans hle (Nat.min_le_left _ _)
    · simp [Intake.toldBy, Intake.tellsOf]
    · exact ⟨[_], _, rfl, by simp [error?], .inl rfl⟩
  | case5 stream sink len hlen b bs stream' hread sink' hwrite ih =>
    obtain ⟨ops, hrun, hserves⟩ := ih
    have hle := LawfulStream.read_le _ _ _ _ hread
    exact ⟨_, (copies_part hread hwrite).append hrun,
      hserves.behind (Nat.le_trans hle (Nat.min_le_left _ _))⟩

end Copy

/-! ### The loop -/

/-- A failure before the command is written. -/
def BodyStreamError.ofCommand : BodyStreamError → Bool
  | .missingTag | .invalidTag _ => true
  | _ => false

def BodyStreamError.ofLoss : BodyStreamError → Bool
  | .missingTagged | .shortBody => true
  | _ => false

/-- What a call has returned, against what the octets that it received come to. -/
def Returns {σ T E : Type} (i : Intake σ T E) (outcome : List T × Option (Except E Unit)) (told : List T)
    (ops : List BodyOp) : Option (Except (ImapClientError E) Unit) → Prop
  | none => ∀ op ∈ ops, op.error? = none
  | some (.ok ()) => outcome = (told, some (.ok ()))
  | some (.error (.coroutine err)) => outcome = (told, some (.error err)) ∨
      ∃ e, err = i.error e ∧ (e.ofCommand = true ∨ (e.ofLoss = true ∧ outcome.2 = none))
  | some (.error (.io err)) => FailWith ops err
  | some (.error (.tls _)) | some (.error .panicked) => False

theorem Returns.ok {σ T E : Type} {i : Intake σ T E} {outcome : List T × Option (Except E Unit)}
    {told : List T} {ops : List BodyOp} {result : Option (Except (ImapClientError E) Unit)}
    (h : Returns i outcome told ops result) (hok : result = some (.ok ())) :
    outcome = (told, some (.ok ())) := by
  rw [hok] at h
  exact h

/-- A loop that serves every yield of a streaming coroutine: `view` is what its operations
work on, `holds` what it keeps between two resumes. -/
structure Hosts {S Y E σ T W P : Type} [StreamsBodies S] (c : Coroutine S Unit Y (Except E Unit))
    (i : Intake σ T E) (told : Y → List T) (starts : Nat → List T) (serve : Serve W Y E) (view : W → P)
    (performs : P → BodyOp → P → Prop) (holds : S → W → Prop) : Prop where
  honours : serve.Honours c.request
  serves : ∀ {F : Type} [Fragmentizer F] (s : S) (f : F) (arg : Option Bytes) (w : W) {y : Y},
    (c.resume s f arg ()).1 = .yielded y → holds s w →
    ∃ ops, Run performs (view w) ops (view (serve w y).2) ∧
      i.Serves starts (c.request y) (told y) ops (serve w y).1 ∧
      ∀ answer, (serve w y).1 = .ok answer → holds (c.resume s f arg ()).2.1 (serve w y).2
  command : ∀ {F : Type} [Fragmentizer F] (s : S) (f : F) (arg : Option Bytes) (result : Except E Unit),
    phase s = .command → (c.resume s f arg ()).1 = .complete result →
    ∃ e, result = .error (i.error e) ∧ e.ofCommand = true

section Hosting

variable {S Y E F σ T W P : Type} [StreamsBodies S] [Fragmentizer F]

/-- How the operations of a call add up, `part` being what they took off the stream for the
next resume. -/
def Tallies (i : Intake σ T E) (told : Y → List T) (starts : Nat → List T)
    (ts : List (Call.Resume S F Y E Unit)) (b : Config S F) (call : Call S F W E Unit)
    (ops : List BodyOp) (pieces : List Bytes) (part : Bytes) : Prop :=
  match call.result with
  | none => (∀ op ∈ ops, op.error? = none) ∧ ∃ due, b.due = some due ∧ due.Takes call.arg part ∧
      i.toldBy starts ops = tokens i told ts pieces ++ (due.copied part).map i.octet
  | some (.error (.io err)) => FailWith ops err ∧ ∃ due, b.due = some due ∧ due.Takes (some []) part ∧
      i.toldBy starts ops <+: tokens i told ts pieces ++ (due.copied part).map i.octet
  | some (.error (.tls _)) | some (.error .panicked) => False
  | some (.error (.coroutine err)) => part = [] ∧ i.toldBy starts ops = tokens i told ts pieces ∧
      ∃ init t, ts = init ++ [t] ∧ t.out = .complete (.error err)
  | some (.ok ()) => part = [] ∧ i.toldBy starts ops = tokens i told ts pieces ∧
      ∃ init t, ts = init ++ [t] ∧ t.out = .complete (.ok ())

structure Hosted (i : Intake σ T E) (told : Y → List T) (starts : Nat → List T) (view : W → P)
    (performs : P → BodyOp → P → Prop) (holds : S → W → Prop) (w : W)
    (ts : List (Call.Resume S F Y E Unit)) (b : Config S F) (call : Call S F W E Unit)
    (ops : List BodyOp) : Prop where
  performed : Run performs (view w) ops (view call.world)
  holds : call.result = none → holds b.state call.world
  tallies : ∃ pieces part, List.Forall₂ Turn.Takes ts pieces ∧
    received ops = pieces.flatten ++ part ∧ Tallies i told starts ts b call ops pieces part

variable {c : Coroutine S Unit Y (Except E Unit)} {i : Intake σ T E} {told : Y → List T}
  {starts : Nat → List T} {serve : Serve W Y E} {view : W → P} {performs : P → BodyOp → P → Prop}
  {holds : S → W → Prop} {w : W} {ts : List (Call.Resume S F Y E Unit)} {b : Config S F}
  {call : Call S F W E Unit} {ops : List BodyOp} {t : Call.Resume S F Y E Unit}

omit [StreamsBodies S] [Fragmentizer F] in
theorem tokens_concat {pieces : List Bytes} {part : Bytes}
    (h : List.Forall₂ Turn.Takes ts pieces) :
    tokens i told (ts ++ [t]) (pieces ++ [part]) = tokens i told ts pieces ++ turnTokens i told t part := by
  simp [tokens, List.zipWith_append h.length_eq]

omit [StreamsBodies S] [Fragmentizer F] in
theorem Tallies.goes {pieces : List Bytes} {part : Bytes}
    (h : Tallies i told starts ts b call ops pieces part) (hgoes : call.result = none)
    (hdue : b.due = some t.due) : (∀ op ∈ ops, op.error? = none) ∧ t.due.Takes call.arg part ∧
      i.toldBy starts ops = tokens i told ts pieces ++ (t.due.copied part).map i.octet := by
  rw [Tallies, hgoes] at h
  obtain ⟨hfine, due, hdue', htakes, htold⟩ := h
  obtain rfl := Option.some.inj (hdue'.symm.trans hdue)
  exact ⟨hfine, htakes, htold⟩

omit [StreamsBodies S] [Fragmentizer F] in
/-- A resume that completes takes what was left for it, and the call asks for nothing more. -/
theorem Tallies.completed {pieces : List Bytes} {part : Bytes} {result : Except E Unit}
    (h : Tallies i told starts ts b call ops pieces part) (hgoes : call.result = none)
    (hdue : b.due = some t.due) (hpieces : List.Forall₂ Turn.Takes ts pieces)
    (hout : t.out = .complete result) : Tallies i told starts (ts ++ [t]) (c.finish t)
      (Call.after serve t call.world) ops (pieces ++ [part]) [] := by
  obtain ⟨-, -, htold⟩ := h.goes hgoes hdue
  have htokens : turnTokens i told t part = (t.due.copied part).map i.octet := by
    simp [turnTokens, hout]
  rw [Call.after, hout]
  rcases result with err | ⟨⟩ <;>
    exact ⟨rfl, by rw [tokens_concat hpieces, htokens, htold], ts, t, rfl, hout⟩

omit [StreamsBodies S] [Fragmentizer F] in
/-- A resume that yields takes what was left for it, and what its yield is served with is left
for the next. -/
theorem Tallies.served {pieces : List Bytes} {part : Bytes} {y : Y} {ops' : List BodyOp}
    (h : Tallies i told starts ts b call ops pieces part) (hgoes : call.result = none)
    (hdue : b.due = some t.due) (hpieces : List.Forall₂ Turn.Takes ts pieces)
    (hout : t.out = .yielded y)
    (hserves : i.Serves starts (c.request y) (told y) ops' (serve call.world y).1) :
    Tallies i told starts (ts ++ [t]) (c.finish t) (Call.after serve t call.world) (ops ++ ops')
      (pieces ++ [part]) (received ops') := by
  obtain ⟨hfine, -, htold⟩ := h.goes hgoes hdue
  have htokens : turnTokens i told t part = (t.due.copied part).map i.octet ++ told y := by
    simp [turnTokens, hout]
  have hnext : (c.finish t).due = some (c.request y) := by rw [Coroutine.finish, hout]
  rw [Call.after, hout]
  dsimp only
  generalize serve call.world y = r at hserves ⊢
  rcases r with ⟨(err | err | err | -) | arg, world⟩
  · exact hserves.elim
  · obtain ⟨htakes', hbegins, hfails⟩ := hserves
    -- an operation failed: the octets before it may be fewer than were asked for
    refine ⟨hfails.after hfine, c.request y, hnext, htakes', ?_⟩
    rw [Intake.toldBy_append, tokens_concat hpieces, htokens, htold, List.append_assoc,
      List.append_assoc, List.append_assoc, List.prefix_append_right_inj,
      List.prefix_append_right_inj]
    exact hbegins
  · exact hserves.elim
  · exact hserves.elim
  · obtain ⟨hans, htakes', htold', hfine'⟩ := hserves
    refine ⟨?_, c.request y, hnext, htakes', ?_⟩
    · intro x hx
      rcases List.mem_append.mp hx with hx | hx
      · exact hfine x hx
      · exact hfine' x hx
    · rw [Intake.toldBy_append, tokens_concat hpieces, htokens, htold, htold']
      simp only [List.append_assoc]

theorem Hosted.step (hh : Hosts c i told starts serve view performs holds)
    (h : Hosted i told starts view performs holds w ts b call ops) (hgoes : call.result = none)
    {due : Request} (hdue : b.due = some due) (ht : t = c.turn b due call.arg ()) :
    ∃ ops', Hosted i told starts view performs holds w (ts ++ [t]) (c.finish t)
      (Call.after serve t call.world) ops' := by
  obtain ⟨pieces, part, hpieces, hreceived, htallies⟩ := h.tallies
  have hdue' : b.due = some t.due := by rw [hdue, ht]; rfl
  have hpart : t.Takes part := by
    have htakes := (htallies.goes hgoes hdue').2.1
    rw [ht] at htakes ⊢
    exact htakes
  have hpieces' : List.Forall₂ Turn.Takes (ts ++ [t]) (pieces ++ [part]) :=
    List.rel_append hpieces (.cons hpart .nil)
  have hflatten : (pieces ++ [part]).flatten = pieces.flatten ++ part := by simp
  cases hout : t.out with
  | complete result =>
    refine ⟨ops, ?_, ?_, pieces ++ [part], [], hpieces', by simp [hreceived],
      htallies.completed hgoes hdue' hpieces hout⟩
    · rw [Call.after, hout]
      cases result <;> exact h.performed
    · rw [Call.after, hout]
      cases result <;> simp
  | yielded y =>
    -- a step of the run resumes over an empty log
    have hy : (c.resume b.state (⟨b.frag, []⟩ : Logged F) call.arg ()).1 = .yielded y := by
      rw [← hout, ht]
      rfl
    obtain ⟨ops', hrun, hserves, hholds⟩ := hh.serves b.state _ call.arg call.world hy (h.holds hgoes)
    have hafter : (c.finish t).state = (c.resume b.state (⟨b.frag, []⟩ : Logged F) call.arg ()).2.1 := by
      rw [ht]
      rfl
    rw [← hafter] at hholds
    refine ⟨ops ++ ops', ?_, ?_, pieces ++ [part], received ops', hpieces', ?_,
      htallies.served hgoes hdue' hpieces hout hserves⟩
    · rw [Call.after, hout]
      dsimp only
      generalize serve call.world y = r at hrun ⊢
      rcases r with ⟨err | arg, world⟩ <;> exact h.performed.append hrun
    · rw [Call.after, hout]
      dsimp only
      generalize serve call.world y = r at hholds ⊢
      rcases r with ⟨err | arg, world⟩
      · simp
      · exact fun _ => hholds arg rfl
    · rw [received_append, hflatten, hreceived]

variable {memory : S → σ} {byTagged : Except E Unit → Bool} {s₀ : S} {f : F} {due : Request}
  {pieces : List Bytes} {part : Bytes} {arg : Option Bytes}

/-- Octets copied for a body are told as they come. -/
theorem copied_prefix {s : S} (h : Awaits s due) (htakes : due.Takes arg part) :
    (due.copied part).map i.octet <+: (i.outcomeAt (place memory s f) part).1 := by
  unfold Awaits at h
  cases hp : phase s with
  | command =>
    rw [hp] at h
    rcases h.2 with rfl | rfl <;> exact List.nil_prefix
  | lines =>
    rw [hp] at h
    rcases h.2 with rfl | rfl <;> exact List.nil_prefix
  | literal =>
    rw [hp] at h
    cases h with
    | goesOn => exact List.nil_prefix
    | copies hscanned hstream hpending hrem =>
      have hle : part.length ≤ (stream s).remaining := by
        cases arg with
        | none => exact Nat.le_of_eq htakes
        | some bytes => exact htakes
      simp only [Intake.outcomeAt, place, hp, if_true, hpending, List.nil_append, Intake.body,
        Request.copied]
      split
      · rw [List.take_of_length_le hle, Intake.tells, List.append_assoc]
        exact List.prefix_append ..
      · exact List.prefix_refl _

/-- What a run has told, with what is copied for its next resume, begins what the octets it
took off the stream come to. -/
theorem BodyIntake.tokens_prefix (hc : BodyStreaming c byTagged) (hi : BodyIntake c i memory told)
    (h0 : Awaits s₀ .nothing) (hrun : c.Runs s₀ f ts b) (hdue : b.due = some due)
    (hpieces : List.Forall₂ Turn.Takes ts pieces) (htakes : due.Takes arg part) :
    tokens i told ts pieces ++ (due.copied part).map i.octet <+:
      (i.outcomeAt (place memory s₀ f) (pieces.flatten ++ part)).1 := by
  obtain ⟨hawaits, -, htells⟩ := hi.inside hc h0 hrun due hdue
  rw [htells pieces hpieces part, Intake.tells, List.prefix_append_right_inj]
  exact copied_prefix hawaits htakes

/-- What a completed run has told against what its octets come to. -/
theorem Hosts.completes (hc : BodyStreaming c byTagged) (hi : BodyIntake c i memory told)
    (hh : Hosts c i told starts serve view performs holds) (h0 : Awaits s₀ .nothing)
    (hrun : c.Runs s₀ f (ts ++ [t]) b) (hpieces : List.Forall₂ Turn.Takes (ts ++ [t]) pieces)
    {result : Except E Unit} (hout : t.out = .complete result) :
    tokens i told (ts ++ [t]) pieces <+: (i.outcomeAt (place memory s₀ f) pieces.flatten).1 ∧
      (i.outcomeAt (place memory s₀ f) pieces.flatten = (tokens i told (ts ++ [t]) pieces, some result) ∨
        ∃ e, result = .error (i.error e) ∧ (e.ofCommand = true ∨ (e.ofLoss = true ∧
          (i.outcomeAt (place memory s₀ f) pieces.flatten).2 = none))) := by
  obtain ⟨a, hbefore, hstep⟩ := hrun.snoc_inv
  have hdue : a.due = some t.due := by
    obtain ⟨due, arg, env, hdue, -, rfl, -⟩ := hstep
    exact hdue
  constructor
  · obtain ⟨ps, taken, hps, htaken, rfl⟩ := forall₂_concat hpieces
    have hbegins := hi.tokens_prefix hc h0 hbefore hdue hps htaken
    rw [tokens_concat hps]
    simpa [turnTokens, hout] using hbegins
  · by_cases hphase : phase t.before = .command
    · obtain ⟨e, he, hcommand⟩ := hh.command t.before (⟨a.frag, []⟩ : Logged F) t.arg result hphase (by
        obtain ⟨due, arg, env, -, -, rfl, -⟩ := hstep
        exact hout)
      exact .inr ⟨e, he, .inl hcommand⟩
    · by_cases hlost : t.arg = some []
      · obtain ⟨herr, hnone⟩ := hi.unsettled hc h0 hrun hpieces hphase hlost
        rw [hout] at herr
        simp only [CoroutineState.complete.injEq] at herr
        rcases herr with rfl | rfl
        · exact .inr ⟨_, rfl, .inr ⟨rfl, hnone⟩⟩
        · exact .inr ⟨_, rfl, .inr ⟨rfl, hnone⟩⟩
      · have hsettled := hi.settled hc h0 hrun hpieces hout hphase hlost []
        rw [List.append_nil] at hsettled
        exact .inl hsettled

/-- What a call has told and returned against what its octets come to. -/
theorem Hosted.delivers (hc : BodyStreaming c byTagged) (hi : BodyIntake c i memory told)
    (hh : Hosts c i told starts serve view performs holds) (h0 : Awaits s₀ .nothing)
    (h : Hosted i told starts view performs holds w ts b call ops) (hrun : c.Runs s₀ f ts b) :
    i.toldBy starts ops <+: (i.outcomeAt (place memory s₀ f) (received ops)).1 ∧
      Returns i (i.outcomeAt (place memory s₀ f) (received ops)) (i.toldBy starts ops) ops
        call.result := by
  obtain ⟨pieces, part, hpieces, hreceived, htallies⟩ := h.tallies
  rw [hreceived]
  rcases hr : call.result with - | ((err | err | err | -) | ⟨⟩)
  all_goals rw [Tallies, hr] at htallies
  · obtain ⟨hfine, due, hdue, htakes, htold⟩ := htallies
    rw [htold]
    exact ⟨hi.tokens_prefix hc h0 hrun hdue hpieces htakes, hfine⟩
  · obtain ⟨rfl, htold, init, t, rfl, hout⟩ := htallies
    obtain ⟨hbegins, hresult⟩ := hh.completes hc hi h0 hrun hpieces hout
    rw [htold, List.append_nil]
    refine ⟨hbegins, hresult.imp_right fun hx => ?_⟩
    obtain ⟨e, he, hcases⟩ := hx
    exact ⟨e, Except.error.inj he, hcases⟩
  · obtain ⟨hfails, due, hdue, htakes, htold⟩ := htallies
    exact ⟨htold.trans (hi.tokens_prefix hc h0 hrun hdue hpieces htakes), hfails⟩
  · exact htallies.elim
  · exact htallies.elim
  · obtain ⟨rfl, htold, init, t, rfl, hout⟩ := htallies
    obtain ⟨hbegins, hresult⟩ := hh.completes hc hi h0 hrun hpieces hout
    rw [htold, List.append_nil]
    refine ⟨hbegins, hresult.resolve_right fun hx => ?_⟩
    obtain ⟨e, he, -⟩ := hx
    simp at he

/-- A loop that hosts a streaming coroutine tells its caller a beginning of what the octets
it received come to, and all of it when it returns their result. -/
theorem Hosts.delivers (hc : BodyStreaming c byTagged) (hi : BodyIntake c i memory told)
    (hh : Hosts c i told starts serve view performs holds) (s₀ : S) (w : W)
    (hphase : phase s₀ = .command) (hstream : stream s₀ = .new) (hholds : holds s₀ w) (f : F)
    (n : Nat) : ∃ ops, Run performs (view w) ops (view ((Call.start s₀ f w).run c serve n).world) ∧
      i.toldBy starts ops <+: (i.outcome (memory s₀) f (received ops)).1 ∧
      Returns i (i.outcome (memory s₀) f (received ops)) (i.toldBy starts ops) ops
        ((Call.start s₀ f w).run c serve n).result := by
  have h0 := awaits_new hphase hstream
  have hplace : place memory s₀ f = ⟨memory s₀, f, [], none⟩ := by
    rw [place, hphase, hstream]
    rfl
  have hunlogged : c.Unlogged := fun s l arg _ => hc.erase s l arg
  have hall : ∃ ts b, c.Runs s₀ f ts b ∧ ((Call.start s₀ f w).run c serve n).Drives b ∧
      (∃ ops, Hosted i told starts view performs holds w ts b ((Call.start s₀ f w).run c serve n) ops) ∧
      (((Call.start s₀ f w).run c serve n).result = none → ts.length = n) := by
    refine Call.history hunlogged hh.honours
      (P := fun ts b call => ∃ ops, Hosted i told starts view performs holds w ts b call ops) ?_ ?_ n
    · exact ⟨[], .nil, fun _ => hholds, [], [], .nil, rfl, by simp, .nothing, rfl, rfl, rfl⟩
    · intro ts b call due t hrun hx hdrives hgoes hdue hstep ht
      obtain ⟨ops, hops⟩ := hx
      exact hops.step hh hgoes hdue ht
  obtain ⟨ts, b, hrun, -, ⟨ops, hhosted⟩, -⟩ := hall
  have hdelivers := hhosted.delivers hc hi hh h0 hrun
  rw [hplace] at hdelivers
  exact ⟨ops, hhosted.performed, hdelivers⟩

end Hosting
end IoImap
