import IoImap.Codec.LineFragmentizer
import IoImap.Command

/-!
# The tag discipline of a conversation

What a coroutine says on the connection, apart from how it says it: it asks for
the tag of a command, writes the command with that tag, goes on with what a
synchronising literal held back, and writes messages that carry no tag. An
`Exchange` is where it stands between two resumes; `Exchange.Step` is what one
resume may do. There is no step that parses a tag from anything but the answer
to the request for one, and none that writes a command without it.
-/

namespace IoImap
open Fragmentizer

/-! ### The octets of a message -/

/-- The writes a message takes: a synchronising literal starts a new one. -/
def buffers (buf : Bytes) : List Fragment → List Bytes
  | [] => [buf]
  | .line data :: rest => buffers (buf ++ data) rest
  | .literal data .nonSync :: rest => buffers (buf ++ data) rest
  | .literal data .sync :: rest => buf :: buffers data rest

namespace ImapSend

theorem buffers_eq (buf : Bytes) (fragments : List Fragment) :
    buffers buf fragments = (takeFragments fragments buf).1 ::
      match (takeFragments fragments buf).2.1 with
      | none => []
      | some literal => buffers literal (takeFragments fragments buf).2.2 := by
  induction fragments generalizing buf with
  | nil => rfl
  | cons x rest ih =>
    rcases x with data | ⟨data, - | -⟩
    · exact ih (buf ++ data)
    · rfl
    · exact ih (buf ++ data)

end ImapSend

/-! ### Exchanges -/

inductive Exchange where
  /-- The tag of a command with this body has been asked for. -/
  | awaits (body : CommandBody)
  /-- No tag is due, and this is left to write of what is being said. -/
  | speaks (rest : List Bytes)

inductive Utterance where
  | asksTag
  | writes (bytes : Bytes)
  | silent

namespace Exchange

/-- One resume, given `arg`; a coroutine that completes utters nothing. -/
inductive Step [TryFrom Bytes Tag] [Encoder Command] [Encoder AuthenticateData] [Encoder IdleDone]
    (arg : Option Bytes) : Exchange → Option Utterance → Exchange → Prop where
  | asks {rest : List Bytes} {body : CommandBody} :
      Step arg (.speaks rest) (some .asksTag) (.awaits body)
  | tags {body : CommandBody} {bytes first : Bytes} {rest : List Bytes}
      (harg : arg = some bytes) (htag : TryFrom.tryFrom bytes = Except.ok (⟨bytes⟩ : Tag))
      (hwrites : buffers [] (Encoder.encode (⟨⟨bytes⟩, body⟩ : Command)) = first :: rest) :
      Step arg (.awaits body) (some (.writes first)) (.speaks rest)
  | refuses {body : CommandBody} {bytes : Bytes} {err : ValidationError} {after : Exchange}
      (harg : arg = some bytes)
      (htag : (TryFrom.tryFrom bytes : Except ValidationError Tag) = .error err) :
      Step arg (.awaits body) none after
  | continues {next : Bytes} {rest : List Bytes} :
      Step arg (.speaks (next :: rest)) (some (.writes next)) (.speaks rest)
  | answers {before rest : List Bytes} {first : Bytes} (data : AuthenticateData)
      (hwrites : buffers [] (Encoder.encode data) = first :: rest) :
      Step arg (.speaks before) (some (.writes first)) (.speaks rest)
  | leavesOff {before rest : List Bytes} {first : Bytes}
      (hwrites : buffers [] (Encoder.encode IdleDone.idleDone) = first :: rest) :
      Step arg (.speaks before) (some (.writes first)) (.speaks rest)
  | listens {before rest : List Bytes} (hrest : rest = before ∨ rest = []) :
      Step arg (.speaks before) (some .silent) (.speaks rest)
  | ends {before : List Bytes} {after : Exchange} : Step arg (.speaks before) none after

end Exchange

/-- A yield, as far as the discipline is concerned. -/
class Utters (Y : Type) where
  utterance : Y → Utterance
  request : Y → Request

instance : Utters ImapYield where
  utterance
    | .wantsTag => .asksTag
    | .wantsRead => .silent
    | .wantsWrite bytes => .writes bytes
  request := ImapYield.request

def CoroutineState.utterance {Y R : Type} [Utters Y] : CoroutineState Y R → Option Utterance
  | .yielded y => some (Utters.utterance y)
  | .complete _ => none

/-- Where a state of a coroutine stands, and the octets that it holds itself when it
reads lines and not messages. -/
class Converses (S : Type) where
  exchange : S → Exchange
  unread : S → Option Bytes := fun _ => none

/-- A resume keeps to the discipline: it takes its argument for a tag exactly when
one was asked for, does what the exchange allows, and hands the octets it is given
in answer to `WantsRead` to the fragmentizer. While the coroutine reads lines, it
keeps all of them but whole lines, also when it goes on to something else. -/
structure Disciplined {S F Env Y R : Type} [Converses S] [Utters Y] [TryFrom Bytes Tag]
    [Encoder Command] [Encoder AuthenticateData] [Encoder IdleDone] (t : Turn S F Env Y R) :
    Prop where
  asked : t.due = .tag ↔ ∃ body, Converses.exchange t.before = .awaits body
  step : (Converses.exchange t.before).Step t.arg t.out.utterance (Converses.exchange t.after)
  fed : Converses.unread t.before = none → t.fed = t.answer
  kept : ∀ unread y, Converses.unread t.before = some unread → t.out = .yielded y →
    StripsLines (unread ++ t.answer.flatten) ((Converses.unread t.after).getD [])

/-! ### The send primitive -/

namespace ImapSend

variable {M : Type}

/-- What the serialiser has left to write. -/
def unwritten (s : ImapSend M) : List Bytes :=
  match s.limboLiteral with
  | none => []
  | some literal => buffers literal s.fragments

def exchange (s : ImapSend M) : Exchange :=
  match s.state with
  | .tag command true => .awaits command.body
  | .tag _ false => .speaks []
  | .serialize _ => .speaks (buffers [] s.fragments)
  | .read _ => .speaks s.unwritten

theorem takeBuffer_buffers (s : ImapSend M) :
    buffers (s.limboLiteral.getD []) s.fragments = s.takeBuffer.1 :: s.takeBuffer.2.unwritten := by
  rw [buffers_eq]
  rfl

theorem written_exchange (s : ImapSend M) (sent : Sent M) :
    buffers (s.limboLiteral.getD []) s.fragments = s.takeBuffer.1 :: (s.written sent).unwritten ∧
      (s.written sent).exchange = .speaks (s.written sent).unwritten :=
  ⟨s.takeBuffer_buffers, rfl⟩

theorem exchange_read {s : ImapSend M} {sent : Sent M} (h : s.state = .read sent) :
    s.exchange = .speaks s.unwritten := by
  rw [exchange, h]

theorem unwritten_absorbAll (tag : Tag) (s : ImapSend M) (ms : List ServerMessage) :
    (s.absorbAll tag ms).unwritten = s.unwritten := by
  rw [unwritten, absorbAll_limboLiteral, absorbAll_fragments]
  rfl

/-- The command is sent as it is, which is how `ImapSend.command` sends it. -/
def Plain (s : ImapSend Command) : Prop :=
  ∀ command requested, s.state = .tag command requested → command.intoMessage = id

theorem plain_of_untagged {s : ImapSend Command} (h : ∀ command requested, s.state ≠ .tag command requested) :
    s.Plain :=
  fun command requested hs => absurd hs (h command requested)

section Step

variable {F : Type} [Fragmentizer F] [TryFrom Bytes Tag]

/-- One resume of an exchange, as far as what it writes is concerned. -/
inductive Tells [Encoder M] (arg : Option Bytes) (s : ImapSend M) :
    ImapSendResult M → ImapSend M → Prop where
  | asks {command : UntaggedCommand M} (hs : s.state = .tag command false) :
      Tells arg s (.yielded .wantsTag) { s with state := .tag command true }
  | refuses {command : UntaggedCommand M} {bytes : Bytes} {err : ImapSendError}
      {e : ValidationError} (hs : s.state = .tag command true) (harg : arg = some bytes)
      (htag : (TryFrom.tryFrom bytes : Except ValidationError Tag) = .error e) :
      Tells arg s (.complete (.error err)) s
  | tags {command : UntaggedCommand M} {bytes first : Bytes} {tag : Tag} {s' : ImapSend M}
      (hs : s.state = .tag command true) (harg : arg = some bytes)
      (htag : TryFrom.tryFrom bytes = Except.ok tag)
      (hwrites : buffers [] (Encoder.encode (command.intoMessage ⟨tag, command.body⟩)) =
        first :: s'.unwritten)
      (hs' : s'.state = .read ⟨command.intoMessage ⟨tag, command.body⟩, tag⟩) :
      Tells arg s (.yielded (.wantsWrite first)) s'
  | starts {sent : Sent M} {first : Bytes} {s' : ImapSend M} (hs : s.state = .serialize sent)
      (hwrites : buffers [] s.fragments = first :: s'.unwritten) (hs' : s'.state = .read sent) :
      Tells arg s (.yielded (.wantsWrite first)) s'
  | continues {sent : Sent M} {next : Bytes} {s' : ImapSend M} (hs : s.state = .read sent)
      (hwrites : s.unwritten = next :: s'.unwritten) (hs' : s'.state = .read sent) :
      Tells arg s (.yielded (.wantsWrite next)) s'
  | listens {sent : Sent M} {s' : ImapSend M} (hs : s.state = .read sent)
      (hwrites : s'.unwritten = s.unwritten) (hs' : s'.state = .read sent) :
      Tells arg s (.yielded .wantsRead) s'
  | ends {sent : Sent M} {r : Except ImapSendError (ImapSendOutput M)} {s' : ImapSend M}
      (hs : s.state = .read sent) (hwrites : s'.unwritten = s.unwritten)
      (hs' : s'.state = .read sent) : Tells arg s (.complete r) s'

theorem Resumed.tells [Encoder M] {s s' : ImapSend M} {sent : Sent M} {f f' : F} {arg : Option Bytes}
    {out : ImapSendResult M} {events : List FragmentizerEvent} (hs : s.state = .read sent)
    (h : s.Resumed f arg out s' f' events) : Tells arg s out s' := by
  cases h with
  | asks hst => simp [hs] at hst
  | fails => exact .ends hs rfl hs
  | writes hst => exact absurd hs (hst sent)
  | waits => exact .listens hs rfl hs
  | refused => exact .ends hs rfl hs
  | completes => exact .ends hs (unwritten_absorbAll ..) (by rw [absorbAll_state, hs])
  | @continues sent' data hst hne hms hd hl hf =>
    obtain ⟨literal, hlit⟩ := Option.isSome_iff_exists.mp hl
    obtain ⟨hbuf, -⟩ := written_exchange (s.absorbAll sent'.tag (messages (enqueueBytes f data))) sent'
    have hunwritten : s.unwritten = buffers literal s.fragments := by rw [unwritten, hlit]
    rw [absorbAll_limboLiteral, absorbAll_fragments, hlit, Option.getD_some, ← hunwritten] at hbuf
    exact .continues hst hbuf rfl
  | @readsOn sent' data hst =>
    exact .listens hst (unwritten_absorbAll ..) (by rw [absorbAll_state, hst])

omit [TryFrom Bytes Tag] in
theorem new_exchange [Encoder M] [LawfulEncoder M] (message : M) (tag : Tag) :
    buffers [] (Encoder.encode message) = (new message tag).takeBuffer.1 ::
        ((new message tag).written ⟨message, tag⟩).unwritten ∧
      ((new message tag).written ⟨message, tag⟩).exchange =
        .speaks ((new message tag).written ⟨message, tag⟩).unwritten :=
  written_exchange (new message tag) ⟨message, tag⟩

theorem resume_tells [Encoder M] [LawfulEncoder M] {s s' : ImapSend M} {due : Request} {f : F}
    {log : List FragmentizerEvent} {l : Logged F} {arg : Option Bytes} {out : ImapSendResult M}
    (hready : s.Ready) (hdue : s.Awaits due) (hans : due.answeredBy arg = true)
    (he : s.resume (⟨f, log⟩ : Logged F) arg = (out, s', l)) : Tells arg s out s' := by
  cases hs : s.state with
  | read sent =>
    obtain ⟨out, s', f', events, he', hr⟩ := resume_spec hready f log arg
    cases he'.symm.trans he
    exact hr.tells hs
  | serialize sent =>
    have hrest := hready.rest
    simp only [hs] at hrest
    have hwrite : s.resume (⟨f, log⟩ : Logged F) arg =
        (.yielded (.wantsWrite s.takeBuffer.1), s.written sent, ⟨f, log⟩) := by
      unfold resume
      simp only [hs]
      exact serialize_framed sent hrest.2
    obtain ⟨hbuf, -⟩ := written_exchange s sent
    rw [hrest.1, Option.getD_none] at hbuf
    cases hwrite.symm.trans he
    exact .starts hs hbuf rfl
  | tag command requested =>
    have hrest := hready.rest
    simp only [hs] at hrest
    simp only [Awaits, hs] at hdue
    rcases arg with - | bytes
    · cases requested with
      | true =>
        subst hdue
        simp [Request.answeredBy] at hans
      | false =>
        have hasks : s.resume (⟨f, log⟩ : Logged F) none =
            (.yielded .wantsTag, { s with state := .tag command true }, ⟨f, log⟩) := by
          unfold resume
          simp only [hs]
        cases hasks.symm.trans he
        exact .asks hs
    · cases requested with
      | false =>
        subst hdue
        simp [Request.answeredBy] at hans
      | true =>
        cases ht : (TryFrom.tryFrom bytes : Except ValidationError Tag) with
        | error err =>
          have hrefuses : s.resume (⟨f, log⟩ : Logged F) (some bytes) =
              (.complete (.error (.invalidTag err)), s, ⟨f, log⟩) := by
            unfold resume
            simp only [hs, ht]
          cases hrefuses.symm.trans he
          exact .refuses hs rfl ht
        | ok tag =>
          let message : M := command.intoMessage ⟨tag, command.body⟩
          let tagged : ImapSend M :=
            { s with fragments := Encoder.encode message, state := .serialize ⟨message, tag⟩ }
          have hframed : Framed tagged.fragments := LawfulEncoder.framed message
          have hwrite : s.resume (⟨f, log⟩ : Logged F) (some bytes) =
              (.yielded (.wantsWrite tagged.takeBuffer.1), tagged.written ⟨message, tag⟩, ⟨f, log⟩) := by
            unfold resume
            simp only [hs, ht]
            exact serialize_framed (s := tagged) _ hframed
          obtain ⟨hbuf, -⟩ := written_exchange tagged ⟨message, tag⟩
          have hlimbo : tagged.limboLiteral = none := hrest.1
          rw [hlimbo, Option.getD_none] at hbuf
          cases hwrite.symm.trans he
          exact .tags hs rfl ht hbuf rfl

variable [Encoder Command] [Encoder AuthenticateData] [Encoder IdleDone]

omit [Fragmentizer F] in
/-- Behind the tag, an exchange writes what is left, reads or completes. -/
theorem Tells.step_read [Encoder M] {s s' : ImapSend M} {sent : Sent M} {arg : Option Bytes}
    {out : ImapSendResult M} (hs : s.state = .read sent) (h : Tells arg s out s') :
    s.exchange.Step arg out.utterance s'.exchange := by
  rw [exchange_read hs]
  cases h with
  | asks hst => simp [hs] at hst
  | refuses hst => simp [hs] at hst
  | tags hst => simp [hs] at hst
  | starts hst => simp [hs] at hst
  | continues hst hwrites hs' =>
    rw [exchange_read hs', hwrites]
    exact .continues
  | listens hst hwrites hs' =>
    rw [exchange_read hs', hwrites]
    exact .listens (.inl rfl)
  | ends => exact .ends

theorem Tells.step [LawfulTag] {s s' : ImapSend Command} {arg : Option Bytes}
    {out : ImapSendResult Command} (h : Tells arg s out s') (hplain : s.Plain) :
    s.exchange.Step arg out.utterance s'.exchange ∧ s'.Plain := by
  cases h with
  | @asks command hs =>
    have hbefore : s.exchange = .speaks [] := by rw [exchange, hs]
    rw [hbefore]
    refine ⟨.asks, ?_⟩
    intro command' requested' hs'
    obtain ⟨rfl, -⟩ := State.tag.inj hs'
    exact hplain command false hs
  | @refuses command _ _ _ hs harg htag =>
    have hbefore : s.exchange = .awaits command.body := by rw [exchange, hs]
    rw [hbefore]
    exact ⟨.refuses harg htag, hplain⟩
  | @tags command bytes first tag s' hs harg htag hwrites hs' =>
    have hbefore : s.exchange = .awaits command.body := by rw [exchange, hs]
    have hmessage : command.intoMessage ⟨tag, command.body⟩ = ⟨tag, command.body⟩ := by
      rw [hplain command true hs]
      rfl
    obtain rfl := LawfulTag.inner bytes tag htag
    rw [hmessage] at hwrites
    rw [hbefore, exchange_read hs']
    exact ⟨.tags harg htag hwrites, plain_of_untagged (by simp [hs'])⟩
  | @starts sent first s' hs hwrites hs' =>
    have hbefore : s.exchange = .speaks (buffers [] s.fragments) := by rw [exchange, hs]
    rw [hbefore, hwrites, exchange_read hs']
    exact ⟨.continues, plain_of_untagged (by simp [hs'])⟩
  | continues hs hwrites hs' =>
    exact ⟨Tells.step_read hs (.continues hs hwrites hs'), plain_of_untagged (by simp [hs'])⟩
  | listens hs hwrites hs' =>
    exact ⟨Tells.step_read hs (.listens hs hwrites hs'), plain_of_untagged (by simp [hs'])⟩
  | ends hs hwrites hs' =>
    exact ⟨Tells.step_read hs (.ends hs hwrites hs'), plain_of_untagged (by simp [hs'])⟩

/-- The octets are written for a command with this body. -/
def IsPiece (body : CommandBody) (bytes : Bytes) : Prop :=
  ∃ tag, bytes ∈ buffers [] (Encoder.encode (⟨tag, body⟩ : Command))

/-- Nothing but a command with this body is sent. -/
def Conveys (body : CommandBody) (s : ImapSend Command) : Prop :=
  match s.state with
  | .tag command _ => command.body = body ∧ command.intoMessage = id
  | .serialize _ => ∀ bytes ∈ buffers [] s.fragments, IsPiece body bytes
  | .read _ => ∀ bytes ∈ s.unwritten, IsPiece body bytes

omit [Fragmentizer F] [TryFrom Bytes Tag] [Encoder AuthenticateData] [Encoder IdleDone] in
theorem conveys_read {body : CommandBody} {s : ImapSend Command} {sent : Sent Command}
    (hs : s.state = .read sent) : s.Conveys body ↔ ∀ bytes ∈ s.unwritten, IsPiece body bytes := by
  rw [Conveys, hs]

omit [Fragmentizer F] [Encoder AuthenticateData] [Encoder IdleDone] in
theorem Tells.conveys {body : CommandBody} {s s' : ImapSend Command} {arg : Option Bytes}
    {out : ImapSendResult Command} (h : Tells arg s out s') (hbody : s.Conveys body) :
    s'.Conveys body ∧ ∀ bytes, out = .yielded (.wantsWrite bytes) → IsPiece body bytes := by
  cases h with
  | @asks command hs =>
    rw [Conveys, hs] at hbody
    exact ⟨hbody, by simp⟩
  | refuses => exact ⟨hbody, by simp⟩
  | @tags command bytes first tag s' hs harg htag hwrites hs' =>
    rw [Conveys, hs] at hbody
    obtain ⟨rfl, hid⟩ := hbody
    have hpieces : ∀ x ∈ first :: s'.unwritten, IsPiece command.body x := by
      intro x hx
      rw [← hwrites, hid] at hx
      exact ⟨tag, hx⟩
    refine ⟨(conveys_read hs').mpr fun x hx => hpieces x (List.mem_cons_of_mem _ hx), ?_⟩
    intro bytes hout
    simp only [CoroutineState.yielded.injEq, ImapYield.wantsWrite.injEq] at hout
    exact hout ▸ hpieces first (List.mem_cons_self ..)
  | @starts sent first s' hs hwrites hs' =>
    rw [Conveys, hs] at hbody
    rw [hwrites] at hbody
    refine ⟨(conveys_read hs').mpr fun x hx => hbody x (List.mem_cons_of_mem _ hx), ?_⟩
    intro bytes hout
    simp only [CoroutineState.yielded.injEq, ImapYield.wantsWrite.injEq] at hout
    exact hout ▸ hbody first (List.mem_cons_self ..)
  | @continues sent next s' hs hwrites hs' =>
    rw [conveys_read hs, hwrites] at hbody
    refine ⟨(conveys_read hs').mpr fun x hx => hbody x (List.mem_cons_of_mem _ hx), ?_⟩
    intro bytes hout
    simp only [CoroutineState.yielded.injEq, ImapYield.wantsWrite.injEq] at hout
    exact hout ▸ hbody next (List.mem_cons_self ..)
  | @listens sent s' hs hwrites hs' =>
    rw [conveys_read hs, ← hwrites] at hbody
    exact ⟨(conveys_read hs').mpr hbody, by simp⟩
  | @ends sent r s' hs hwrites hs' =>
    rw [conveys_read hs, ← hwrites] at hbody
    exact ⟨(conveys_read hs').mpr hbody, by simp⟩

/-- Between two resumes of a coroutine that sends one command with this body. -/
structure Conversing (body : CommandBody) (s : ImapSend Command) (due : Request) : Prop where
  ready : s.Ready
  awaits : s.Awaits due
  conveys : s.Conveys body

omit [Fragmentizer F] [TryFrom Bytes Tag] [Encoder AuthenticateData] [Encoder IdleDone] in
theorem conversing_command (body : CommandBody) : (ImapSend.command body).Conversing body .nothing :=
  ⟨⟨rfl, rfl, rfl⟩, rfl, rfl, rfl⟩

omit [Fragmentizer F] [TryFrom Bytes Tag] [Encoder AuthenticateData] [Encoder IdleDone] in
theorem conversing_asked (body : CommandBody) :
    (ImapSend.fresh (.tag ⟨body, id⟩ true) [] : ImapSend Command).Conversing body .tag :=
  ⟨⟨rfl, rfl, rfl⟩, rfl, rfl, rfl⟩

omit [Fragmentizer F] [TryFrom Bytes Tag] [Encoder AuthenticateData] [Encoder IdleDone] in
theorem Conversing.plain {body : CommandBody} {s : ImapSend Command} {due : Request}
    (h : s.Conversing body due) : s.Plain := by
  intro command requested hs
  have hconveys := h.conveys
  rw [Conveys, hs] at hconveys
  exact hconveys.2

variable [LawfulEncoder Command]

omit [Encoder AuthenticateData] [Encoder IdleDone] in
theorem Conversing.step {body : CommandBody} {s s' : ImapSend Command} {due : Request} {f : F}
    {log : List FragmentizerEvent} {l : Logged F} {arg : Option Bytes} {y : ImapYield}
    (h : s.Conversing body due) (hans : due.answeredBy arg = true)
    (he : s.resume (⟨f, log⟩ : Logged F) arg = (.yielded y, s', l)) :
    s'.Conversing body y.request ∧ ∀ bytes, y = .wantsWrite bytes → IsPiece body bytes := by
  obtain ⟨hconveys, hwrites⟩ := (resume_tells h.ready h.awaits hans he).conveys h.conveys
  obtain ⟨out, s'', f', events, he', hr⟩ := resume_spec h.ready f log arg
  cases he'.symm.trans he
  obtain ⟨hready, hawaits⟩ := hr.ready h.ready
  exact ⟨⟨hready, hawaits, hconveys⟩, fun bytes hy => hwrites bytes (congrArg _ hy)⟩

end Step
end ImapSend
end IoImap
