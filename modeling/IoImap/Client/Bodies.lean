import IoImap.Client.BodyOps
import IoImap.Client.Scripted
import Mathlib.Data.List.TakeWhile

/-!
# What the body calls deliver (client.rs)

`fetch_body_stream` and `fetch_bodies_stream` host their coroutines: what they write into
sinks and hand back is decided by the octets that come from the server, however the stream
cuts them and however far the coroutine read ahead.
-/

namespace IoImap
open Fragmentizer StreamsBodies Transition BodyOp

/-! ### The literals on the wire -/

section Literals

variable {F : Type} [Fragmentizer F]

/-- The literals that the coroutines find in `wire`, each behind the line that announces it. -/
def literals (f : F) (wire : Bytes) : List (Bytes × Bytes) :=
  match _h : splitLine wire with
  | none => []
  | some (line, rest) =>
    match progress (enqueueBytes f line) with
    | (some (.line (some announcement)), f') =>
      (line, rest.take announcement.length) ::
        literals (skipMessage f') (rest.drop announcement.length)
    | (some (.line none), f') =>
      match BodyStream.decodeTerminal f' with
      | some _ => []
      | none => literals f' rest
    | (_, f') => literals f' rest
termination_by wire.length
decreasing_by
  all_goals
    obtain ⟨hw, hne⟩ := splitLine_eq _h
    have hpos := List.length_pos_of_ne_nil hne
    simp only [hw, List.length_append, List.length_drop]
    omega

theorem literals_line {f : F} {wire line rest : Bytes} (hl : splitLine wire = some (line, rest)) :
    literals f wire =
      match progress (enqueueBytes f line) with
      | (some (.line (some announcement)), f') =>
        (line, rest.take announcement.length) ::
          literals (skipMessage f') (rest.drop announcement.length)
      | (some (.line none), f') =>
        match BodyStream.decodeTerminal f' with
        | some _ => []
        | none => literals f' rest
      | (_, f') => literals f' rest := by
  rw [literals]
  split
  · simp_all
  · rename_i l r heq
    rw [hl] at heq
    obtain ⟨rfl, rfl⟩ : line = l ∧ rest = r := by simpa using heq
    rfl

end Literals

namespace Intake

variable {F σ T E : Type} [Fragmentizer F] {i : Intake σ T E}

/-- What ends well is told literal by literal. -/
theorem tells_of_outcome {s : σ} {f : F} {wire : Bytes} {ts : List T}
    (h : i.outcome s f wire = (ts, some (.ok ()))) : i.Tells s (literals f wire) ts := by
  have hended : ∀ {result : Except BodyStreamError Unit}, i.ended result = (ts, some (.ok ())) →
      ts = [] := by
    intro result he
    exact (congrArg Prod.fst he).symm
  fun_induction Intake.outcome i s f wire generalizing ts with
  | case1 s f wire hl hlen => simp [ended, Except.mapError] at h
  | case2 s f wire hl hlen => simp at h
  | case3 s f wire line rest hl hlen => simp [ended, Except.mapError] at h
  | case4 s f wire line rest hl hlen a f' hp err ha => simp at h
  | case5 s f wire line rest hl hlen a f' hp ts₀ s' ha hle ih =>
    rw [literals_line hl, hp]
    dsimp only
    have hsnd : (i.outcome s' (skipMessage f') (rest.drop a.length)).2 = some (.ok ()) :=
      congrArg Prod.snd h
    obtain ⟨us, hus⟩ : ∃ us, i.outcome s' (skipMessage f') (rest.drop a.length) =
      (us, some (.ok ())) := ⟨_, Prod.ext rfl hsnd⟩
    obtain rfl : ts₀ ++ ((rest.take a.length).map i.octet ++ i.close) ++ us = ts := by
      rw [hus] at h
      exact congrArg Prod.fst h
    exact .cons ha (ih hus fun he => (congrArg Prod.fst he).symm)
  | case6 s f wire line rest hl hlen a f' hp ts₀ s' ha hle => simp at h
  | case7 s f wire line rest hl hlen f' hp result hd =>
    rw [literals_line hl, hp]
    simp only [hd]
    rw [hended h]
    exact .nil
  | case8 s f wire line rest hl hlen f' hp hd ih =>
    rw [literals_line hl, hp]
    simp only [hd]
    exact ih h hended
  | case9 s f wire line rest hl hlen info f' hliteral hplain hp ih =>
    rw [literals_line hl, hp]
    rcases info with - | ((- | a) | -)
    · exact ih h hended
    · exact absurd rfl hplain
    · exact absurd rfl (hliteral a)
    · exact ih h hended

end Intake

/-! ### What the calls serve -/

section Converse

variable {St G σ T E : Type} [ImapStream St] [TagGenerator G]

/-- What the arms shared with `ImapClientStd::run` come to. -/
theorem Connection.serves (i : Intake σ T E) (starts : Nat → List T) (w : Connection St G)
    (y : ImapYield) :
    ∃ ops, Run StreamOp.Performs w.stream ops (Connection.serve (E := E) w y).2.stream ∧
      i.Serves starts y.request [] (ops.map .stream) (Connection.serve w y).1 := by
  by_cases hy : y = .wantsTag
  · obtain ⟨tag, tags, -, he⟩ := Connection.serve_tag (E := E) w
    rw [hy, he]
    exact ⟨[], .nil, i.serves_tag starts⟩
  · obtain ⟨op, stream, hop, hperforms, he⟩ := Connection.serve_io (E := E) w hy
    rw [he]
    exact ⟨[op], .single hperforms, i.serves_io starts hop⟩

/-- Before its command is written a coroutine fails on its tag only. -/
theorem BodyStream.sendCommand_fails [TryFrom Bytes Tag] [Encoder Command] {s s' : BodyStream}
    {body : CommandBody} {arg : Option Bytes} {err : BodyStreamError}
    (h : s.sendCommand body arg = (.fails err, s')) : err.ofCommand = true := by
  unfold sendCommand at h
  split at h
  · split at h
    · simp at h
    · rw [← SendOutcome.fails.inj (Prod.mk.inj h).1]
      rfl
  · split at h
    · rw [← SendOutcome.fails.inj (Prod.mk.inj h).1]
      rfl
    · simp at h

end Converse

/-! ### One body -/

namespace BodyCall

variable {St G Sk : Type} [ImapStream St] [TagGenerator G] [Sink Sk]

def view (w : BodyCall St G Sk) : St × Sk := (w.stream, w.sink)

theorem converse_serves (w : BodyCall St G Sk) (y : ImapYield) :
    ∃ ops, Run Copies w.view ops (w.converse y).2.view ∧
      ImapMessageFetchStream.intake.Serves (fun _ => []) y.request [] ops (w.converse y).1 := by
  obtain ⟨ops, hrun, hserves⟩ := w.toConnection.serves ImapMessageFetchStream.intake (fun _ => []) y
  have hstream : ∀ (st : St) op st', StreamOp.Performs st op st' →
      Copies (st, w.sink) (.stream op) (st', w.sink) := fun _ _ _ h => ⟨h, rfl⟩
  have hlifted := hrun.map _ _ hstream
  exact ⟨_, hlifted, hserves⟩

theorem chunk_serves (w : BodyCall St G Sk) (bytes : Bytes) :
    ∃ ops, Run Copies w.view ops (serve w (.bodyChunk bytes)).2.view ∧
      ImapMessageFetchStream.intake.Serves (fun _ => []) .nothing bytes ops
        (serve w (.bodyChunk bytes)).1 := by
  rcases hw : Sink.writeAll w.sink bytes with ⟨err | ⟨⟩, sink⟩
  · refine ⟨[.writes bytes (.error err)], .single ?_, ?_⟩
    · simp only [serve, hw]
      exact ⟨rfl, hw⟩
    · simp only [serve, hw]
      exact Intake.serves_op _ rfl rfl (.inr ⟨err, rfl, rfl, rfl⟩)
  · refine ⟨[.writes bytes (.ok ())], .single ?_, ?_⟩
    · simp only [serve, hw]
      exact ⟨rfl, hw⟩
    · simp only [serve, hw]
      exact Intake.serves_op _ rfl rfl (.inl ⟨rfl, List.map_id bytes, rfl⟩)

theorem stream_serves [LawfulStream St] (w : BodyCall St G Sk) (len : Nat) :
    ∃ ops, Run Copies w.view ops (serve w (.wantsStream len)).2.view ∧
      ImapMessageFetchStream.intake.Serves (fun _ => []) (.stream len) [] ops
        (serve w (.wantsStream len)).1 := by
  obtain ⟨ops, hrun, hserves⟩ :=
    copyBody_serves ImapMessageFetchStream.intake (fun _ => []) w.stream w.sink len
  refine ⟨ops, ?_⟩
  rw [serve]
  generalize copyBody w.stream w.sink len = r at hrun hserves ⊢
  rcases r with ⟨err | arg, stream, sink⟩ <;> exact ⟨hrun, hserves⟩

/-- Every yield is served as it asks. -/
theorem serve_serves [LawfulStream St] (w : BodyCall St G Sk) (y : ImapMessageFetchStreamYield) :
    ∃ ops, Run Copies w.view ops (serve w y).2.view ∧
      ImapMessageFetchStream.intake.Serves (fun _ => []) y.request (ImapMessageFetchStream.told y) ops
        (serve w y).1 := by
  cases y with
  | wantsTag => exact w.converse_serves .wantsTag
  | wantsRead => exact w.converse_serves .wantsRead
  | wantsWrite bytes => exact w.converse_serves (.wantsWrite bytes)
  | bodyChunk bytes => exact w.chunk_serves bytes
  | wantsStream len => exact w.stream_serves len

theorem serve_honours : Serve.Honours (serve : Serve (BodyCall St G Sk) _ _)
    ImapMessageFetchStreamYield.request := by
  intro w y arg w' h
  cases y with
  | wantsTag => exact Connection.serve_honours _ .wantsTag _ _ (converse_inv .wantsTag h)
  | wantsRead => exact Connection.serve_honours _ .wantsRead _ _ (converse_inv .wantsRead h)
  | wantsWrite bytes =>
    exact Connection.serve_honours _ (.wantsWrite bytes) _ _ (converse_inv (.wantsWrite bytes) h)
  | bodyChunk bytes =>
    rw [serve] at h
    split at h
    · simp at h
    · obtain rfl := Except.ok.inj (Prod.mk.inj h).1
      rfl
  | wantsStream len =>
    rw [serve] at h
    split at h
    · simp at h
    · rename_i answer stream sink hcopy
      obtain rfl := Except.ok.inj (Prod.mk.inj h).1
      exact copyBody_answers _ _ _ (congrArg Prod.fst hcopy)

theorem hosts [LawfulStream St] [TryFrom Bytes Tag] [Encoder Command] :
    Hosts imapMessageFetchStream ImapMessageFetchStream.intake ImapMessageFetchStream.told
      (fun _ => []) (serve : Serve (BodyCall St G Sk) _ _) view Copies (fun _ _ => True) where
  honours := serve_honours
  serves s f arg w y _ _ := by
    obtain ⟨ops, hrun, hserves⟩ := w.serve_serves y
    exact ⟨ops, hrun, hserves, fun _ _ => trivial⟩
  command s f arg result hphase hout := by
    obtain ⟨b, state⟩ := s
    cases state with
    | sendCommand body =>
      simp only [imapMessageFetchStream, ImapMessageFetchStream.resume,
        ImapMessageFetchStream.resumeSend] at hout
      rcases hs : b.sendCommand body arg with ⟨- | bytes | err, b'⟩
      · simp [hs] at hout
      · simp [hs] at hout
      · simp only [hs, ImapMessageFetchStream.complete, CoroutineState.complete.injEq] at hout
        exact ⟨err, hout.symm, BodyStream.sendCommand_fails hs⟩
    | header => simp [phase] at hphase
    | stream => simp [phase] at hphase
    | trailer => simp [phase] at hphase

end BodyCall

/-! ### Many bodies -/

/-- What the operations of `fetch_bodies_stream` work on. -/
structure SinksPlace (St C Sk : Type) where
  stream : St
  caller : C
  current : Option (Nat × Sk)

/-- A sink is opened, written to and handed back by the closures of the caller; the one
handed back is the one that was opened, with what was written to it. -/
inductive BodyOp.Performs {St C Sk : Type} [ImapStream St] [Sink Sk] [OpensSinks C Sk] :
    SinksPlace St C Sk → BodyOp → SinksPlace St C Sk → Prop where
  | stream {st st' : St} {caller : C} {current : Option (Nat × Sk)} {op : StreamOp}
      (h : op.Performs st st') : Performs ⟨st, caller, current⟩ (.stream op) ⟨st', caller, current⟩
  | opens {st : St} {caller caller' : C} {current : Option (Nat × Sk)} {uid : Nat} {sink : Sk}
      (h : OpensSinks.openSink caller uid = (.ok sink, caller')) :
      Performs ⟨st, caller, current⟩ (.opens uid (.ok ())) ⟨st, caller', some (uid, sink)⟩
  | refuses {st : St} {caller caller' : C} {current : Option (Nat × Sk)} {uid : Nat} {err : IoError}
      (h : OpensSinks.openSink caller uid = (.error err, caller')) :
      Performs ⟨st, caller, current⟩ (.opens uid (.error err)) ⟨st, caller', current⟩
  | writes {st : St} {caller : C} {uid : Nat} {sink sink' : Sk} {bytes : Bytes}
      {result : Except IoError Unit} (h : Sink.writeAll sink bytes = (result, sink')) :
      Performs ⟨st, caller, some (uid, sink)⟩ (.writes bytes result) ⟨st, caller, some (uid, sink')⟩
  | commits {st : St} {caller caller' : C} {uid : Nat} {sink : Sk} {result : Except IoError Unit}
      (h : OpensSinks.done caller uid sink = (result, caller')) :
      Performs ⟨st, caller, some (uid, sink)⟩ (.commits uid result) ⟨st, caller', none⟩

namespace BodiesCall

open ImapMessageFetchStreamBatch

variable {St G C Sk : Type} [ImapStream St] [TagGenerator G] [Sink Sk] [OpensSinks C Sk]

def view (w : BodiesCall St G C Sk) : SinksPlace St C Sk := ⟨w.stream, w.caller, w.current⟩

abbrev starts (uid : Nat) : List Token := [.start uid]

theorem converse_serves (w : BodiesCall St G C Sk) (y : ImapYield) :
    ∃ ops, Run Performs w.view ops (w.converse y).2.view ∧
      intake.Serves starts y.request [] ops (w.converse y).1 := by
  obtain ⟨ops, hrun, hserves⟩ := w.toConnection.serves intake starts y
  have hstream : ∀ (st : St) op st', StreamOp.Performs st op st' →
      BodyOp.Performs ⟨st, w.caller, w.current⟩ (.stream op) ⟨st', w.caller, w.current⟩ :=
    fun _ _ _ h => .stream h
  have hlifted := hrun.map _ _ hstream
  exact ⟨_, hlifted, hserves⟩

theorem start_serves (w : BodiesCall St G C Sk) (uid : Nat) :
    ∃ ops, Run Performs w.view ops (serve w (.messageStart uid)).2.view ∧
      intake.Serves starts .nothing [.start uid] ops (serve w (.messageStart uid)).1 ∧
      ∀ answer, (serve w (.messageStart uid)).1 = .ok answer →
        (serve w (.messageStart uid)).2.current.isSome = true := by
  rcases ho : OpensSinks.openSink w.caller uid with ⟨err | sink, caller⟩
  · refine ⟨[.opens uid (.error err)], .single ?_, ?_, ?_⟩
    · simp only [serve, ho]
      exact .refuses ho
    · simp only [serve, ho]
      exact Intake.serves_op _ rfl rfl (.inr ⟨err, rfl, rfl, rfl⟩)
    · simp [serve, ho]
  · refine ⟨[.opens uid (.ok ())], .single ?_, ?_, ?_⟩
    · simp only [serve, ho]
      exact .opens ho
    · simp only [serve, ho]
      exact Intake.serves_op _ rfl rfl (.inl ⟨rfl, rfl, rfl⟩)
    · simp [serve, ho]

section Current

variable {w : BodiesCall St G C Sk} {uid : Nat} {sink : Sk} (hcurrent : w.current = some (uid, sink))

include hcurrent

theorem chunk_serves (bytes : Bytes) :
    ∃ ops, Run Performs w.view ops (serve w (.bodyChunk bytes)).2.view ∧
      intake.Serves starts .nothing (bytes.map .octet) ops (serve w (.bodyChunk bytes)).1 ∧
      (serve w (.bodyChunk bytes)).2.current.isSome = true := by
  have hview : w.view = ⟨w.stream, w.caller, some (uid, sink)⟩ := by rw [view, hcurrent]
  rcases hw : Sink.writeAll sink bytes with ⟨err | ⟨⟩, sink'⟩
  · refine ⟨[.writes bytes (.error err)], .single ?_, ?_, ?_⟩
    · simp only [serve, hcurrent, hw, hview]
      exact .writes hw
    · simp only [serve, hcurrent, hw]
      exact Intake.serves_op _ rfl rfl (.inr ⟨err, rfl, rfl, rfl⟩)
    · simp [serve, hcurrent, hw]
  · refine ⟨[.writes bytes (.ok ())], .single ?_, ?_, ?_⟩
    · simp only [serve, hcurrent, hw, hview]
      exact .writes hw
    · simp only [serve, hcurrent, hw]
      exact Intake.serves_op _ rfl rfl (.inl ⟨rfl, rfl, rfl⟩)
    · simp [serve, hcurrent, hw]

theorem stream_serves [LawfulStream St] (len : Nat) :
    ∃ ops, Run Performs w.view ops (serve w (.wantsStream len)).2.view ∧
      intake.Serves starts (.stream len) [] ops (serve w (.wantsStream len)).1 ∧
      (serve w (.wantsStream len)).2.current.isSome = true := by
  have hview : w.view = ⟨w.stream, w.caller, some (uid, sink)⟩ := by rw [view, hcurrent]
  obtain ⟨ops, hrun, hserves⟩ := copyBody_serves intake starts w.stream sink len
  have hcopies : ∀ (p : St × Sk) (op : BodyOp) (p' : St × Sk), Copies p op p' →
      Performs ⟨p.1, w.caller, some (uid, p.2)⟩ (id op) ⟨p'.1, w.caller, some (uid, p'.2)⟩ := by
    intro p op p' h
    obtain ⟨st, sk⟩ := p
    obtain ⟨st', sk'⟩ := p'
    cases op with
    | stream op =>
      obtain ⟨hop, rfl⟩ : op.Performs st st' ∧ sk' = sk := h
      exact .stream hop
    | writes bytes result =>
      obtain ⟨rfl, hw⟩ : st' = st ∧ Sink.writeAll sk bytes = (result, sk') := h
      exact .writes hw
    | opens uid result => exact h.elim
    | commits uid result => exact h.elim
  have hrun' := hrun.map _ _ hcopies
  rw [List.map_id] at hrun'
  refine ⟨ops, ?_⟩
  simp only [serve, hcurrent, hview]
  generalize copyBody w.stream sink len = r at hrun' hserves ⊢
  rcases r with ⟨err | arg, stream, sink'⟩ <;> exact ⟨hrun', hserves, rfl⟩

theorem end_serves :
    ∃ ops, Run Performs w.view ops (serve w .messageEnd).2.view ∧
      intake.Serves starts .nothing [.finish] ops (serve w .messageEnd).1 := by
  have hview : w.view = ⟨w.stream, w.caller, some (uid, sink)⟩ := by rw [view, hcurrent]
  rcases hd : OpensSinks.done w.caller uid sink with ⟨err | ⟨⟩, caller⟩
  · refine ⟨[.commits uid (.error err)], .single ?_, ?_⟩
    · simp only [serve, hcurrent, hd, hview]
      exact .commits hd
    · simp only [serve, hcurrent, hd]
      exact Intake.serves_op _ rfl rfl (.inr ⟨err, rfl, rfl, rfl⟩)
  · refine ⟨[.commits uid (.ok ())], .single ?_, ?_⟩
    · simp only [serve, hcurrent, hd, hview]
      exact .commits hd
    · simp only [serve, hcurrent, hd]
      exact Intake.serves_op _ rfl rfl (.inl ⟨rfl, rfl, rfl⟩)

end Current

/-- A sink is open while the coroutine is inside a body. -/
def Holds (s : ImapMessageFetchStreamBatch) (w : BodiesCall St G C Sk) : Prop :=
  phase s = .literal → w.current.isSome = true

/-- Where a yield stands in a reply: those that need a sink come from inside a body. -/
def Stays (before after : ImapMessageFetchStreamBatch) : ImapMessageFetchStreamBatchYield → Prop
  | .wantsTag | .wantsRead | .wantsWrite _ => phase after ≠ .literal
  | .messageStart _ => True
  | .bodyChunk _ | .wantsStream _ => phase before = .literal
  | .messageEnd => phase before = .literal ∧ phase after ≠ .literal

theorem resume_stays {F : Type} [Fragmentizer F] [TryFrom Bytes Tag] [Encoder Command]
    {s : ImapMessageFetchStreamBatch} {f : F} {arg : Option Bytes}
    {y : ImapMessageFetchStreamBatchYield} (h : (s.resume f arg).1 = .yielded y) :
    Stays s (s.resume f arg).2.1 y := by
  unfold ImapMessageFetchStreamBatch.resume at h ⊢
  cases hs : s.state with
  | sendCommand body =>
    simp only [hs, resumeSend] at h ⊢
    generalize s.sendCommand body arg = r at h ⊢
    obtain ⟨- | bytes | err, s'⟩ := r
    · obtain rfl := CoroutineState.yielded.inj h
      simp [Stays, goOn, phase]
    · obtain rfl := CoroutineState.yielded.inj h
      simp [Stays, goOn, phase]
    · simp [complete] at h
  | nextItem =>
    simp only [hs, resumeNextItem] at h ⊢
    generalize s.parseLines f arg = r at h ⊢
    obtain ⟨- | ⟨line, a⟩ | result, s', f'⟩ := r
    · obtain rfl := CoroutineState.yielded.inj h
      simp [Stays, goOn, phase]
    · obtain ⟨err, he⟩ | ⟨uid, -, -, he⟩ := startMessage_cases s s' line a
      · simp [he] at h
      · simp only [he] at h ⊢
        obtain rfl := CoroutineState.yielded.inj h
        trivial
    · simp [complete] at h
  | stream =>
    simp only [hs, resumeStream] at h ⊢
    generalize s.streamBody arg = r at h ⊢
    obtain ⟨- | bytes | len | -, s', arg'⟩ := r
    · obtain rfl := CoroutineState.yielded.inj h
      simp [Stays, goOn, phase, hs]
    · obtain rfl := CoroutineState.yielded.inj h
      simp [Stays, phase, hs]
    · obtain rfl := CoroutineState.yielded.inj h
      simp [Stays, phase, hs]
    · simp [complete] at h

/-- Every yield of the coroutine is served as it asks, and a sink is open where one is
needed. -/
theorem serve_serves [LawfulStream St] {before after : ImapMessageFetchStreamBatch}
    {w : BodiesCall St G C Sk} {y : ImapMessageFetchStreamBatchYield} (hstays : Stays before after y)
    (hholds : Holds before w) :
    ∃ ops, Run Performs w.view ops (serve w y).2.view ∧
      intake.Serves starts y.request (told y) ops (serve w y).1 ∧
      ∀ answer, (serve w y).1 = .ok answer → Holds after (serve w y).2 := by
  have hopen : phase before = .literal → ∃ uid sink, w.current = some (uid, sink) := by
    intro hphase
    obtain ⟨⟨uid, sink⟩, hcurrent⟩ := Option.isSome_iff_exists.mp (hholds hphase)
    exact ⟨uid, sink, hcurrent⟩
  cases y with
  | wantsTag =>
    obtain ⟨ops, hrun, hserves⟩ := w.converse_serves .wantsTag
    exact ⟨ops, hrun, hserves, fun _ _ hphase => absurd hphase hstays⟩
  | wantsRead =>
    obtain ⟨ops, hrun, hserves⟩ := w.converse_serves .wantsRead
    exact ⟨ops, hrun, hserves, fun _ _ hphase => absurd hphase hstays⟩
  | wantsWrite bytes =>
    obtain ⟨ops, hrun, hserves⟩ := w.converse_serves (.wantsWrite bytes)
    exact ⟨ops, hrun, hserves, fun _ _ hphase => absurd hphase hstays⟩
  | messageStart uid =>
    obtain ⟨ops, hrun, hserves, hcurrent⟩ := w.start_serves uid
    exact ⟨ops, hrun, hserves, fun answer hanswer _ => hcurrent answer hanswer⟩
  | bodyChunk bytes =>
    obtain ⟨uid, sink, hcurrent⟩ := hopen hstays
    obtain ⟨ops, hrun, hserves, hsome⟩ := chunk_serves hcurrent bytes
    exact ⟨ops, hrun, hserves, fun _ _ _ => hsome⟩
  | wantsStream len =>
    obtain ⟨uid, sink, hcurrent⟩ := hopen hstays
    obtain ⟨ops, hrun, hserves, hsome⟩ := stream_serves hcurrent len
    exact ⟨ops, hrun, hserves, fun _ _ _ => hsome⟩
  | messageEnd =>
    obtain ⟨uid, sink, hcurrent⟩ := hopen hstays.1
    obtain ⟨ops, hrun, hserves⟩ := end_serves hcurrent
    exact ⟨ops, hrun, hserves, fun _ _ hphase => absurd hphase hstays.2⟩

theorem serve_honours : Serve.Honours (serve : Serve (BodiesCall St G C Sk) _ _)
    ImapMessageFetchStreamBatchYield.request := by
  intro w y arg w' h
  cases y with
  | wantsTag => exact Connection.serve_honours _ .wantsTag _ _ (converse_inv .wantsTag h)
  | wantsRead => exact Connection.serve_honours _ .wantsRead _ _ (converse_inv .wantsRead h)
  | wantsWrite bytes =>
    exact Connection.serve_honours _ (.wantsWrite bytes) _ _ (converse_inv (.wantsWrite bytes) h)
  | messageStart uid =>
    rw [serve] at h
    split at h
    · simp at h
    · obtain rfl := Except.ok.inj (Prod.mk.inj h).1
      rfl
  | bodyChunk bytes =>
    rw [serve] at h
    split at h
    · simp at h
    · split at h
      · simp at h
      · obtain rfl := Except.ok.inj (Prod.mk.inj h).1
        rfl
  | wantsStream len =>
    rw [serve] at h
    split at h
    · simp at h
    · split at h
      · simp at h
      · rename_i sink _ answer stream sink' hcopy
        obtain rfl := Except.ok.inj (Prod.mk.inj h).1
        exact copyBody_answers _ _ _ (congrArg Prod.fst hcopy)
  | messageEnd =>
    rw [serve] at h
    split at h
    · simp at h
    · split at h
      · simp at h
      · obtain rfl := Except.ok.inj (Prod.mk.inj h).1
        rfl

theorem hosts [LawfulStream St] [TryFrom Bytes Tag] [Encoder Command] :
    Hosts imapMessageFetchStreamBatch intake told starts
      (serve : Serve (BodiesCall St G C Sk) _ _) view Performs Holds where
  honours := serve_honours
  serves s f arg w y hy hholds := serve_serves (resume_stays hy) hholds
  command s f arg result hphase hout := by
    obtain ⟨b, state, maxLiteralLen, sizes⟩ := s
    cases state with
    | sendCommand body =>
      simp only [imapMessageFetchStreamBatch, ImapMessageFetchStreamBatch.resume, resumeSend] at hout
      rcases hs : b.sendCommand body arg with ⟨- | bytes | err, b'⟩
      · simp [hs] at hout
      · simp [hs] at hout
      · simp only [hs, complete, CoroutineState.complete.injEq] at hout
        exact ⟨err, hout.symm, BodyStream.sendCommand_fails hs⟩
    | nextItem => simp [phase] at hphase
    | stream => simp [phase] at hphase

/-! ### What is handed back -/

/-- The messages handed back, each with what was written to its sink. -/
def committed (ops : List BodyOp) : List (Nat × Bytes) := messages (intake.toldBy starts ops)

theorem messages_of_octets {ts : List Token} (h : ∀ x ∈ ts, isOctet x = true) : messages ts = [] := by
  induction ts with
  | nil => rfl
  | cons x ts ih =>
    have hx := h x List.mem_cons_self
    have hts := ih fun y hy => h y (List.mem_cons_of_mem x hy)
    cases x with
    | start uid => simp [isOctet] at hx
    | octet b => exact hts
    | finish => simp [isOctet] at hx

/-- A beginning of what is told hands back a beginning of the messages. -/
theorem messages_prefix (ps ts : List Token) : messages ps <+: messages (ps ++ ts) := by
  induction ps with
  | nil => exact List.nil_prefix
  | cons x ps ih =>
    cases x with
    | octet b => exact ih
    | finish => exact ih
    | start uid =>
      rw [List.cons_append, ImapMessageFetchStreamBatch.messages, ImapMessageFetchStreamBatch.messages,
        List.dropWhile_append, List.takeWhile_append]
      cases hd : ps.dropWhile isOctet with
      | nil =>
        have hall := List.dropWhile_eq_nil_iff.mp hd
        rw [messages_of_octets hall]
        exact List.nil_prefix
      | cons t rest =>
        have htake : (ps.takeWhile isOctet).length ≠ ps.length := by
          intro hlength
          have hsplit := congrArg List.length (List.takeWhile_append_dropWhile (p := isOctet) (l := ps))
          rw [hd, List.length_append, hlength] at hsplit
          simp at hsplit
        simp only [List.isEmpty_cons, Bool.false_eq_true, if_false, htake, List.cons_append]
        cases t with
        | start uid => exact ih
        | octet b => exact ih
        | finish => exact (List.cons_prefix_cons).mpr ⟨rfl, ih⟩

end BodiesCall

/-! ### The calls -/

namespace ImapClientStd

section Calls

variable {F St G : Type} [Fragmentizer F] [ImapStream St] [TagGenerator G] [TryFrom Bytes Tag]
  [Encoder Command] [LawfulStream St]

section One

open ImapMessageFetchStream

variable {Sk : Type} [Sink Sk]

/-- What was written to the sink of `fetch_body_stream`. -/
def sunk (ops : List BodyOp) : Bytes := intake.toldBy (fun _ => []) ops

/-- `fetch_body_stream` writes a beginning of what the octets of the server come to; when it
succeeds, that is the only literal of the reply, or nothing where there is none. -/
theorem fetch_body_stream_delivers (client : ImapClientStd F St G) (id : NonZeroU32) (uid : Bool)
    (sink : Sk) (n : Nat) :
    ∃ ops, Run Copies (client.stream, sink) ops ((client.fetchBodyStream id uid sink n).2.1.stream,
        (client.fetchBodyStream id uid sink n).2.2) ∧
      sunk ops <+: (intake.outcome false client.fragmentizer (received ops)).1 ∧
      Returns intake (intake.outcome false client.fragmentizer (received ops)) (sunk ops) ops
        (client.fetchBodyStream id uid sink n).1 ∧
      ((client.fetchBodyStream id uid sink n).1 = some (.ok ()) →
        (literals client.fragmentizer (received ops)).map (·.2) = [sunk ops] ∨
          (literals client.fragmentizer (received ops) = [] ∧ sunk ops = [])) := by
  obtain ⟨ops, hrun, hbegins, hreturns⟩ := BodyCall.hosts.delivers bodyStreaming bodyIntake
    (.new id uid) (⟨client.toConnection, sink⟩ : BodyCall St G Sk) rfl rfl trivial
    client.fragmentizer n
  refine ⟨ops, hrun, hbegins, hreturns, fun hok => ?_⟩
  have htells := Intake.tells_of_outcome (hreturns.ok hok)
  rcases tells_fresh htells with ⟨hlits, hsunk⟩ | ⟨line, octets, hlits, hsunk⟩
  · exact .inr ⟨hlits, hsunk⟩
  · exact .inl (by rw [hlits, sunk, hsunk]; rfl)

end One

section Many

open ImapMessageFetchStreamBatch BodiesCall

variable {C Sk : Type} [Sink Sk] [OpensSinks C Sk]

/-- `fetch_bodies_stream` hands back whole messages only, in the order of the reply, each in
the sink that was opened for it; when it succeeds, those are the literals of the reply, and
no `expect` ever fails. -/
theorem fetch_bodies_stream_commits (client : ImapClientStd F St G) (sequenceSet : SequenceSet)
    (uid : Bool) (caller : C) (n : Nat) :
    ∃ ops current,
      Run BodyOp.Performs ⟨client.stream, caller, none⟩ ops
        ⟨(client.fetchBodiesStream sequenceSet uid caller n).2.1.stream,
          (client.fetchBodiesStream sequenceSet uid caller n).2.2, current⟩ ∧
      committed ops <+: ImapMessageFetchStreamBatch.messages (intake.outcome
        (fun _ => DEFAULT_MAX_LITERAL_LEN) client.fragmentizer (received ops)).1 ∧
      Returns intake (intake.outcome (fun _ => DEFAULT_MAX_LITERAL_LEN) client.fragmentizer
          (received ops)) (intake.toldBy starts ops) ops
        (client.fetchBodiesStream sequenceSet uid caller n).1 ∧
      ((client.fetchBodiesStream sequenceSet uid caller n).1 = some (.ok ()) →
        committed ops = (literals client.fragmentizer (received ops)).filterMap fun x =>
          (parseUid x.1).map fun uid => (uid, x.2)) := by
  obtain ⟨ops, hrun, hbegins, hreturns⟩ := BodiesCall.hosts.delivers bodyStreaming bodyIntake
    (.new sequenceSet { uid := uid }) (⟨client.toConnection, caller, none⟩ : BodiesCall St G C Sk) rfl rfl
    (fun hphase => by simp [phase, ImapMessageFetchStreamBatch.new] at hphase) client.fragmentizer n
  have hlimit : (ImapMessageFetchStreamBatch.new sequenceSet { uid := uid }).maxLen =
      fun _ => DEFAULT_MAX_LITERAL_LEN := by
    funext x
    simp [maxLen, ImapMessageFetchStreamBatch.new]
  rw [hlimit] at hbegins hreturns
  refine ⟨ops, _, hrun, ?_, hreturns, fun hok => ?_⟩
  · obtain ⟨more, hmore⟩ := hbegins
    rw [committed, ← hmore]
    exact messages_prefix _ _
  · exact messages_of_tells (Intake.tells_of_outcome (hreturns.ok hok))

end Many
end Calls

section Concrete

open Concrete

instance : LawfulStream ScriptedStream where
  read_le st size bytes st' h := by
    unfold ImapStream.read at h
    obtain ⟨reads, sent⟩ := st
    cases reads with
    | nil =>
      obtain rfl := Except.ok.inj (Prod.mk.inj h).1
      exact Nat.zero_le _
    | cons chunk rest =>
      obtain rfl := Except.ok.inj (Prod.mk.inj h).1
      exact List.length_take_le _ _

instance : Sink Bytes := ⟨fun sink bytes => (.ok (), sink ++ bytes)⟩

/-- A caller that keeps the messages it is handed back. -/
instance : OpensSinks (List (Nat × Bytes)) Bytes :=
  ⟨fun caller _ => (.ok [], caller), fun caller uid sink => (.ok (), caller ++ [(uid, sink)])⟩

def bodyClient (reads : List String) :
    ImapClientStd (LineFragmentizer (decodeTable lateMessages)) ScriptedStream CountedTags where
  stream := ⟨reads.map ascii, []⟩
  tags := ⟨1⟩
  fragmentizer := lateFrag

/-- Two bodies, the first cut by a read and copied from the stream behind it. -/
def twoBodies : List String :=
  ["* 1 FETCH (UID 7 BODY[] \x7b5\x7d\r\nhel", "lo", ")\r\n* 2 FETCH (UID 9 BODY[] \x7b2\x7d\r\nhi)\r\n",
    "A1 OK done\r\n"]

theorem fetch_bodies_stream_commits_two : ∃ ops current,
    Run BodyOp.Performs ⟨(bodyClient twoBodies).stream, ([] : List (Nat × Bytes)), none⟩ ops
      ⟨((bodyClient twoBodies).fetchBodiesStream [.single .asterisk] true ([] : List (Nat × Bytes))
        16).2.1.stream, [(7, ascii "hello"), (9, ascii "hi")], current⟩ ∧
    BodiesCall.committed ops = (literals lateFrag (received ops)).filterMap fun x =>
      (parseUid x.1).map fun uid => (uid, x.2) := by
  have hok : ((bodyClient twoBodies).fetchBodiesStream [.single .asterisk] true
      ([] : List (Nat × Bytes)) 16).1 = some (.ok ()) := by decide +kernel
  have hcaller : ((bodyClient twoBodies).fetchBodiesStream [.single .asterisk] true
      ([] : List (Nat × Bytes)) 16).2.2 = [(7, ascii "hello"), (9, ascii "hi")] := by decide +kernel
  obtain ⟨ops, current, hrun, -, -, hcommits⟩ := fetch_bodies_stream_commits (bodyClient twoBodies)
    [.single .asterisk] true ([] : List (Nat × Bytes)) 16
  rw [hcaller] at hrun
  exact ⟨ops, current, hrun, hcommits hok⟩

/-- One body, with its last octets in a read of their own. -/
def oneBody : List String :=
  ["* 1 FETCH (UID 7 BODY[] \x7b5\x7d\r\nhel", "lo", ")\r\nA1 OK done\r\n"]

theorem fetch_body_stream_delivers_one : ∃ ops,
    Run Copies ((bodyClient oneBody).stream, ([] : Bytes)) ops
      (((bodyClient oneBody).fetchBodyStream (.ofNat 1) false ([] : Bytes) 10).2.1.stream,
        ascii "hello") ∧
    ((literals lateFrag (received ops)).map (·.2) = [sunk ops] ∨
      (literals lateFrag (received ops) = [] ∧ sunk ops = [])) := by
  have hok : ((bodyClient oneBody).fetchBodyStream (.ofNat 1) false ([] : Bytes) 10).1 =
      some (.ok ()) := by decide +kernel
  have hsink : ((bodyClient oneBody).fetchBodyStream (.ofNat 1) false ([] : Bytes) 10).2.2 =
      ascii "hello" := by decide +kernel
  obtain ⟨ops, hrun, -, -, hdelivers⟩ :=
    fetch_body_stream_delivers (bodyClient oneBody) (.ofNat 1) false ([] : Bytes) 10
  rw [hsink] at hrun
  exact ⟨ops, hrun, hdelivers hok⟩

end Concrete
end ImapClientStd
end IoImap
