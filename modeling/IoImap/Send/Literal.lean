import IoImap.Codec.LineFragmentizer
import IoImap.Send.Fold
import Mathlib.Data.List.DropRight

/-!
# Synchronising literals

The octets of a synchronising literal wait for a continuation request. The
handshake is a property of whole runs: every write behind the first one needs a
continuation request of its own, and none may follow the end of the exchange.
-/

namespace IoImap
open Fragmentizer ServerMessage Transition

abbrev SendTurn (M F : Type) :=
  Turn (ImapSend M) F Unit ImapYield (Except ImapSendError (ImapSendOutput M))

namespace SendTurn

variable {M F : Type}

def writes (t : SendTurn M F) : Bool :=
  match t.out with
  | .yielded (.wantsWrite _) => true
  | _ => false

def writesLiteral (t : SendTurn M F) : Bool := t.before.limboLiteral.isSome && t.writes

end SendTurn

open SendTurn

/-- The messages decoded since the last write of a history. -/
def sinceWrite {M F : Type} (es : List (SendTurn M F)) : List ServerMessage :=
  (es.rtakeWhile (!writes ·)).flatMap Turn.completed

/-- A literal is written only after a continuation request decoded since the
write before it, and never after the end of the exchange was decoded. -/
def LiteralAnswered {M F : Type} (past : List (SendTurn M F)) (t : SendTurn M F) : Prop :=
  writesLiteral t = true →
    (∃ m ∈ sinceWrite past ++ t.completed, m.cr?.isSome) ∧
    ∀ tag ∈ t.before.tag?, ∀ m ∈ past.flatMap Turn.completed ++ t.completed, ¬ m.Ends tag

instance {M F : Type} (past : List (SendTurn M F)) (t : SendTurn M F) :
    Decidable (LiteralAnswered past t) :=
  inferInstanceAs (Decidable (_ → _))

def Handshake {M F : Type} (es : List (SendTurn M F)) : Prop := Always LiteralAnswered es

instance {M F : Type} (es : List (SendTurn M F)) : Decidable (Handshake es) :=
  inferInstanceAs (Decidable (Always _ _))

/-- What a read may bring while a literal is held back: a message that ends the
exchange with an error, an end of the exchange behind which no continuation
request follows, or a continuation request and no end. -/
def Answers (tag : Tag) (ms : List ServerMessage) : Prop :=
  ¬ ImapSend.Accepted ms ∨
  lastSome (·.signal? tag) ms = some .completion ∨ lastSome (·.signal? tag) ms = some .bye ∨
  ((∃ m ∈ ms, m.cr?.isSome) ∧ ∀ m ∈ ms, ¬ m.Ends tag)

instance (tag : Tag) (ms : List ServerMessage) : Decidable (Answers tag ms) :=
  inferInstanceAs (Decidable (_ ∨ _ ∨ _ ∨ _))

/-- A resume that brings, while a literal is held back, such a read or none. -/
def KeepsHandshake {M F : Type} [Fragmentizer F] (t : SendTurn M F) : Prop :=
  t.before.limboLiteral.isSome → t.answer ≠ [] → ∀ tag ∈ t.before.tag?, Answers tag t.received

instance {M F : Type} [Fragmentizer F] (t : SendTurn M F) : Decidable (KeepsHandshake t) :=
  inferInstanceAs (Decidable (_ → _ → _))

variable {M F : Type}

theorem sinceWrite_silent {es : List (SendTurn M F)} {t : SendTurn M F} (hw : t.writes = false) :
    sinceWrite (es ++ [t]) = sinceWrite es ++ t.completed := by
  rw [sinceWrite, List.rtakeWhile_concat_pos _ _ _ (by simp [hw]), List.flatMap_append]
  simp [sinceWrite]

theorem sinceWrite_writes {es : List (SendTurn M F)} {t : SendTurn M F} (hw : t.writes = true) :
    sinceWrite (es ++ [t]) = [] := by
  rw [sinceWrite, List.rtakeWhile_concat_neg _ _ _ (by simp [hw])]
  rfl

/-- What is known between two resumes: nothing was read before the message was
written; while a literal is held back, nothing was read since the last write and
nothing ever read ended the exchange. -/
structure HandshakeState (es : List (SendTurn M F)) (s : ImapSend M) : Prop where
  ready : s.Ready
  unread : (∀ sent, s.state ≠ .read sent) → es.flatMap Turn.completed = []
  sinceWrite : s.limboLiteral.isSome → sinceWrite es = []
  goesOn : s.limboLiteral.isSome → ∀ tag ∈ s.tag?, ∀ m ∈ es.flatMap Turn.completed, ¬ m.Ends tag

theorem absorbAll_done_held {tag : Tag} {s : ImapSend M} (hd : s.done = false)
    (hl : s.limboLiteral.isSome) (ms : List ServerMessage) :
    (s.absorbAll tag ms).done = true ↔
      lastSome (·.signal? tag) ms = some .completion ∨ lastSome (·.signal? tag) ms = some .bye := by
  rw [ImapSend.absorbAll_done, hd]
  generalize lastSome (·.signal? tag) ms = last
  rcases last with - | (- | - | -)
  · simp
  · simp
  · simp
  · simp [Option.ne_none_iff_isSome.mpr hl]

theorem answer_of_read {t : SendTurn M F} {sent : Sent M} {data : Bytes}
    (hw : t.before.Awaits t.due) (hans : t.due.answeredBy t.arg = true)
    (hs : t.before.state = .read sent) (harg : t.arg = some data) (hne : data ≠ []) :
    t.answer = [data] := by
  simp only [ImapSend.Awaits, hs] at hw
  rcases hw with hw | hw
  · simp [hw, harg, Request.answeredBy] at hans
  · rw [Turn.answer, hw, harg]
    exact Request.octets_read hne

theorem not_accepted {ms pre post : List ServerMessage} {m : ServerMessage} {err : ImapSendError}
    (hms : ms = pre ++ m :: post) (hm : m.refusal? = some err) : ¬ ImapSend.Accepted ms := by
  intro hacc
  have hnone := hacc m (by simp [hms])
  rw [hm] at hnone
  simp at hnone

section Runs

variable [Fragmentizer F]

theorem literalAnswered_iff {es : List (SendTurn M F)} {t : SendTurn M F}
    (hst : HandshakeState es t.before) (hw : t.before.Awaits t.due)
    (hans : t.due.answeredBy t.arg = true)
    (hr : ImapSend.Resumed t.before t.frag t.arg t.out t.after t.fragAfter t.log) :
    LiteralAnswered es t ↔ KeepsHandshake t := by
  cases hl : t.before.limboLiteral with
  | none => simp [LiteralAnswered, writesLiteral, KeepsHandshake, hl]
  | some lit =>
    have hread : ∃ sent, t.before.state = .read sent := by
      have hrest := hst.ready.rest
      cases hs : t.before.state with
      | read sent => exact ⟨sent, rfl⟩
      | tag _ _ => simp [hs, hl] at hrest
      | serialize _ => simp [hs, hl] at hrest
    obtain ⟨sent, hs⟩ := hread
    have htag : t.before.tag? = some sent.tag := by simp [ImapSend.tag?, hs]
    have hlimbo : t.before.limboLiteral.isSome := by simp [hl]
    have hgoes := hst.goesOn hlimbo sent.tag htag
    have hsince := hst.sinceWrite hlimbo
    have hkeep : KeepsHandshake t ↔ (t.answer ≠ [] → Answers sent.tag t.received) := by
      simp [KeepsHandshake, hlimbo, htag]
    generalize ha : t.arg = arg, ho : t.out = out, haft : t.after = after,
      hfr : t.fragAfter = fragAfter, hlog : t.log = log at hr
    have hquiet : t.writes = false → (t.answer ≠ [] → Answers sent.tag t.received) →
        (LiteralAnswered es t ↔ KeepsHandshake t) := by
      intro hwr hans
      simp [LiteralAnswered, writesLiteral, hwr, hkeep]
      exact hans
    have hreceived : ∀ data, arg = some data → data ≠ [] →
        t.answer = [data] ∧ t.received = messages (enqueueBytes t.frag data) := by
      intro data hd hne
      have h := answer_of_read hw hans hs (ha.trans hd) hne
      exact ⟨h, by simp [Turn.received, h]⟩
    cases hr with
    | asks hs' => simp [hs] at hs'
    | fails hs' =>
      rcases hs' with hs' | rfl
      · exact absurd hs (hs' sent)
      · have hanswer : t.answer = [] := by simp [Turn.answer, ha, Request.octets_eof]
        exact hquiet (by simp [writes, ho]) fun h => absurd hanswer h
    | writes hs' _ _ => exact absurd hs (hs' sent)
    | waits hs' =>
      have hanswer : t.answer = [] := by simp [Turn.answer, ha, Request.octets_none]
      exact hquiet (by simp [writes, ho]) fun h => absurd hanswer h
    | refused hs' hne hms hpre hm =>
      refine hquiet (by simp [writes, ho]) fun _ => ?_
      rw [(hreceived _ rfl hne).2]
      exact .inl (not_accepted hms hm)
    | @completes sent' data hs' hne hms hd =>
      obtain rfl : sent = sent' := by simpa [hs] using hs'
      refine hquiet (by simp [writes, ho]) fun _ => ?_
      rw [(hreceived _ rfl hne).2]
      exact .inr (((absorbAll_done_held hst.ready.goesOn hlimbo _).mp hd).imp id .inl)
    | @continues sent' data hs' hne hms hd _ _ =>
      obtain rfl : sent = sent' := by simpa [hs] using hs'
      have hend := mt (absorbAll_done_held hst.ready.goesOn hlimbo _).mpr (by rw [hd]; simp)
      obtain ⟨hnc, hnb⟩ := not_or.mp hend
      have hcomp : t.completed = messages (enqueueBytes t.frag data) := Turn.completed_read hlog
      obtain ⟨hanswer, hrec⟩ := hreceived data rfl hne
      have hlit : LiteralAnswered es t ↔ (∃ m ∈ t.received, m.cr?.isSome) ∧
          ∀ m ∈ t.received, ¬ m.Ends sent.tag := by
        have hwr : writesLiteral t = true := by simp [writesLiteral, hlimbo, writes, ho]
        simp only [LiteralAnswered, hwr, hsince, hcomp, hrec, htag, forall_const, List.nil_append,
          Option.mem_def, Option.some.injEq, forall_eq', List.mem_append]
        refine and_congr_right fun _ => ⟨fun h m hm => h m (.inr hm), fun h m hm => ?_⟩
        exact hm.elim (hgoes m) (h m)
      rw [hlit, hkeep]
      simp [Answers, hrec, hms, hnc, hnb, hanswer]
    | readsOn hs' hne hms hd hl' => simp [hl] at hl'

theorem HandshakeState.step {es : List (SendTurn M F)} {t : SendTurn M F} {y : ImapYield}
    (hst : HandshakeState es t.before)
    (hr : ImapSend.Resumed t.before t.frag t.arg t.out t.after t.fragAfter t.log)
    (ho : t.out = .yielded y) (hk : LiteralAnswered es t) : HandshakeState (es ++ [t]) t.after := by
  have hready : t.after.Ready := (ImapSend.Resumed.ready (ho ▸ hr) hst.ready).1
  have hflat : (es ++ [t]).flatMap Turn.completed = es.flatMap Turn.completed ++ t.completed := by
    simp
  have hfirst : (∀ sent, t.before.state ≠ .read sent) → t.before.limboLiteral = none := by
    intro hs
    have hrest := hst.ready.rest
    cases hb : t.before.state with
    | read sent => exact absurd hb (hs sent)
    | tag _ _ => exact (hb ▸ hrest).1
    | serialize _ => exact (hb ▸ hrest).1
  generalize ha : t.arg = arg, haft : t.after = after,
    hfr : t.fragAfter = fragAfter, hlog : t.log = log at hr
  rw [ho] at hr
  cases hr with
  | asks hs =>
    have hnone := hfirst (by simp [hs])
    have hcomp : t.completed = [] := Turn.completed_silent hlog
    refine ⟨haft ▸ hready, fun _ => ?_, by simp [hnone], by simp [hnone]⟩
    rw [hflat, hst.unread (by simp [hs]), hcomp]
    rfl
  | writes hs hbuf hheld =>
    have hcomp : t.completed = [] := Turn.completed_silent hlog
    have hwr : t.writes = true := by simp [writes, ho]
    refine ⟨haft ▸ hready, fun h => absurd rfl (h _), fun _ => sinceWrite_writes hwr, ?_⟩
    rw [hflat, hst.unread hs, hcomp]
    simp
  | waits hs =>
    have hcomp : t.completed = [] := Turn.completed_silent hlog
    have hwr : t.writes = false := by simp [writes, ho]
    refine ⟨hst.ready, fun h => absurd hs (h _), ?_, ?_⟩
    · rw [sinceWrite_silent hwr, hcomp, List.append_nil]
      exact hst.sinceWrite
    · rw [hflat, hcomp, List.append_nil]
      exact hst.goesOn
  | continues hs hne hms hd hl hf =>
    have hwr : t.writes = true := by simp [writes, ho]
    refine ⟨haft ▸ hready, fun h => absurd rfl (h _), fun _ => sinceWrite_writes hwr, ?_⟩
    rw [hflat]
    intro _ tag htag
    have htag' : t.before.tag? = some tag := by
      rw [ImapSend.tag?, hs]
      exact htag
    exact (hk (by simp [writesLiteral, hl, hwr])).2 tag htag'
  | readsOn hs hne hms hd hl =>
    refine ⟨haft ▸ hready, fun h => absurd (by simpa using hs) (h _), ?_, ?_⟩
    all_goals simp [hl]

variable [TryFrom Bytes Tag] [Encoder M] [LawfulEncoder M]

theorem send_step_resumed {a b : Config (ImapSend M) F} {t : SendTurn M F}
    (ha : ∀ due, a.due = some due → a.state.Ready) (h : (imapSend M).Step a t b) :
    ImapSend.Resumed t.before t.frag t.arg t.out t.after t.fragAfter t.log ∧
      t.before = a.state ∧ t.frag = a.frag ∧ a.due = some t.due ∧
      t.due.answeredBy t.arg = true ∧ b = (imapSend M).finish t := by
  obtain ⟨due, arg, env, hdue, hans, rfl, rfl⟩ := h
  obtain ⟨out, s', f', events, he, hr⟩ := ImapSend.resume_spec (ha due hdue) a.frag [] arg
  have ht : (imapSend M).turn a due arg env =
      ⟨a.state, a.frag, due, arg, env, out, s', f', events⟩ := by
    simp only [Coroutine.turn, imapSend, he, List.nil_append]
  rw [ht]
  exact ⟨hr, rfl, rfl, hdue, hans, rfl⟩

/-- The handshake holds of a run exactly when every read answered while a literal
is held back brings a continuation request and no end, or ends the exchange. -/
theorem handshake_iff_keeps {s : ImapSend M} {f : F} {es : List (SendTurn M F)}
    {b : Config (ImapSend M) F} (hs : s.Initial) (h : (imapSend M).Runs s f es b) :
    Handshake es ↔ ∀ t ∈ es, KeepsHandshake t := by
  refine Run.always_iff
    (P := fun es a => ∀ due, a.due = some due → HandshakeState es a.state ∧ a.state.Awaits due)
    ?_ ?_ h
  · intro due hdue
    obtain rfl : Request.nothing = due := by simpa [Coroutine.start] using hdue
    refine ⟨⟨hs.ready, fun _ => rfl, fun hl => ?_, fun hl => ?_⟩, hs.awaits⟩
    all_goals simp [Coroutine.start, hs.limboLiteral] at hl
  · intro es a t b ha hstep
    obtain ⟨hr, hb, -, hdue, hans, rfl⟩ := send_step_resumed (fun due hd => (ha due hd).1.ready) hstep
    obtain ⟨hst, hw⟩ := ha t.due hdue
    rw [← hb] at hst hw
    have hiff := literalAnswered_iff hst hw hans hr
    refine ⟨hiff, fun hk due hd => ?_⟩
    obtain ⟨y, ho, rfl⟩ := Coroutine.finish_due hd
    exact ⟨hst.step hr ho (hiff.mpr hk), (ImapSend.Resumed.ready (ho ▸ hr) hst.ready).2⟩

end Runs

/-! ### Concrete exchanges -/

section Concrete

open Concrete

def appendMessage : EncodedMessage where
  fragments := [.line (ascii "A1 APPEND INBOX {3}\r\n"), .literal (ascii "abc") .sync,
    .line (ascii "\r\n")]
  framed := .literal (by decide) (.line (by decide))

def appendReplies : List (Bytes × Response) :=
  [(ascii "* OK wait\r\n", .status (.untagged ⟨.ok, none, "wait"⟩)),
    (ascii "+ go\r\n", .commandContinuationRequest (.basic "go")),
    (ascii "A1 OK done\r\n", .status (.tagged ⟨⟨ascii "A1"⟩, ⟨.ok, none, "done"⟩⟩))]

def playAppend (args : List (Option Bytes)) :=
  (imapSend EncodedMessage).play
    (Coroutine.start (.new appendMessage ⟨ascii "A1"⟩)
      (LineFragmentizer.empty : LineFragmentizer (decodeTable appendReplies)))
    (args.map fun arg => (arg, ()))

theorem handshake_append : ∃ es b,
    playAppend [none, none, some (ascii "* OK wait\r\n+ go\r\n"), none,
      some (ascii "A1 OK done\r\n")] = some (es, b) ∧ Handshake es := by
  have hrun : (playAppend [none, none, some (ascii "* OK wait\r\n+ go\r\n"), none,
      some (ascii "A1 OK done\r\n")]).any (fun r => decide (∀ t ∈ r.1, KeepsHandshake t)) = true := by
    decide +kernel
  obtain ⟨⟨es, b⟩, hplay, hkeeps⟩ := (Option.any_eq_true _ _).mp hrun
  have hiff := handshake_iff_keeps (.new _ _) (Coroutine.play_run _ hplay)
  exact ⟨es, b, hplay, hiff.mpr (of_decide_eq_true hkeeps)⟩

theorem literal_written_unanswered :
    ¬ ∀ (es : List (SendTurn EncodedMessage (LineFragmentizer (decodeTable appendReplies))))
        (b : Config (ImapSend EncodedMessage) (LineFragmentizer (decodeTable appendReplies))),
        (imapSend EncodedMessage).Runs (.new appendMessage ⟨ascii "A1"⟩) LineFragmentizer.empty es b →
          Handshake es := by
  intro h
  have hrun : (playAppend [none, none, some (ascii "* OK wait\r\n")]).any
      (fun r => decide (¬ Handshake r.1)) = true := by decide +kernel
  obtain ⟨⟨es, b⟩, hplay, hno⟩ := (Option.any_eq_true _ _).mp hrun
  exact of_decide_eq_true hno (h es b (Coroutine.play_run _ hplay))

end Concrete
end IoImap
