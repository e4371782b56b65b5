import IoImap.Send.Response

/-!
# What follows the own completion

The loop of `State::Deserialize` drains the fragmentizer behind the completion
too. The outcome is that of the completion alone exactly when the messages
behind it leave every field of the exchange as it is.
-/

namespace IoImap
open Fragmentizer ServerMessage Transition

namespace ImapSend

variable {M F : Type}

structure Holds (es : List (SendTurn M F)) (s : ImapSend M) : Prop where
  ready : s.Ready
  unread : (∀ sent, s.state ≠ .read sent) → es.flatMap Turn.completed = [] ∧ s.tagged = none
  tagged : ∀ tag ∈ s.tag?, s.tagged = lastSome (·.ownTagged? tag) (es.flatMap Turn.completed)
  bye : s.bye = lastSome bye? (es.flatMap Turn.completed)
  cr : s.cr = lastSome cr? (es.flatMap Turn.completed)

theorem Holds.absorbAll {es : List (SendTurn M F)} {t : SendTurn M F} {s s' : ImapSend M}
    {sent : Sent M} {ms : List ServerMessage} (h : Holds es s) (hs : s.state = .read sent)
    (hcomp : t.completed = ms) (hs' : s'.state = .read sent) (hready : s'.Ready)
    (htagged : s'.tagged = (s.absorbAll sent.tag ms).tagged)
    (hbye : s'.bye = (s.absorbAll sent.tag ms).bye) (hcr : s'.cr = (s.absorbAll sent.tag ms).cr) :
    Holds (es ++ [t]) s' := by
  have htag : s.tag? = some sent.tag := by simp [tag?, hs]
  have hflat : (es ++ [t]).flatMap Turn.completed = es.flatMap Turn.completed ++ ms := by
    simp [hcomp]
  constructor
  · exact hready
  · exact fun hn => absurd hs' (hn sent)
  · intro tag ht
    obtain rfl : sent.tag = tag := by simpa [tag?, hs'] using ht
    rw [htagged, absorbAll_tagged, hflat, lastSome_append, h.tagged sent.tag htag]
  · rw [hbye, absorbAll_bye, hflat, lastSome_append, h.bye]
  · rw [hcr, absorbAll_cr, hflat, lastSome_append, h.cr]

theorem Holds.step [Fragmentizer F] {es : List (SendTurn M F)} {t : SendTurn M F} {y : ImapYield}
    (h : Holds es t.before)
    (hr : Resumed t.before t.frag t.arg t.out t.after t.fragAfter t.log)
    (ho : t.out = .yielded y) : Holds (es ++ [t]) t.after := by
  have hready : t.after.Ready := (Resumed.ready (ho ▸ hr) h.ready).1
  generalize ha : t.arg = arg, haft : t.after = after,
    hfr : t.fragAfter = fragAfter, hlog : t.log = log at hr
  rw [ho] at hr
  rw [haft] at hready
  have hsilent : log = [] → (es ++ [t]).flatMap Turn.completed = es.flatMap Turn.completed := by
    intro hl
    simp [Turn.completed_silent (hlog.trans hl)]
  cases hr with
  | asks hs =>
    obtain ⟨hpast, htagged⟩ := h.unread (by simp [hs])
    refine ⟨hready, fun _ => ?_, by simp [tag?], ?_, ?_⟩
    · exact ⟨by rw [hsilent rfl, hpast], htagged⟩
    · rw [hsilent rfl]
      exact h.bye
    · rw [hsilent rfl]
      exact h.cr
  | writes hs hbuf hheld =>
    obtain ⟨hpast, htagged⟩ := h.unread hs
    refine ⟨hready, fun hn => absurd rfl (hn _), fun tag _ => ?_, ?_, ?_⟩
    · rw [hsilent rfl, hpast]
      exact htagged
    · rw [hsilent rfl]
      exact h.bye
    · rw [hsilent rfl]
      exact h.cr
  | waits hs =>
    obtain ⟨-, hunread, htagged, hbye, hcr⟩ := h
    rw [← hsilent rfl] at hunread htagged hbye hcr
    exact ⟨hready, hunread, htagged, hbye, hcr⟩
  | continues hs hne hms hd hl hf =>
    exact h.absorbAll hs (Turn.completed_read hlog) rfl hready rfl rfl rfl
  | readsOn hs hne hms hd hl =>
    exact h.absorbAll hs (Turn.completed_read hlog) (by simpa using hs) hready rfl rfl rfl

variable [Fragmentizer F] [TryFrom Bytes Tag] [Encoder M] [LawfulEncoder M]

theorem runs_holds {s : ImapSend M} {f : F} {es : List (SendTurn M F)} {b : Config (ImapSend M) F}
    (hs : s.Initial) (h : (imapSend M).Runs s f es b) :
    ∀ due, b.due = some due → Holds es b.state ∧ b.state.Awaits due := by
  refine Run.history
    (P := fun es a => ∀ due, a.due = some due → Holds es a.state ∧ a.state.Awaits due) ?_ ?_ h
  · intro due hdue
    obtain rfl : Request.nothing = due := by simpa [Coroutine.start] using hdue
    refine ⟨⟨hs.ready, ?_, ?_, ?_, ?_⟩, hs.awaits⟩
    all_goals cases hs <;> simp [Coroutine.start, new, receive, fresh]
  · intro es a t b ha hstep due hd
    obtain ⟨hr, hb, -, hdue, -, rfl⟩ := send_step_resumed (fun due hd => (ha due hd).1.ready) hstep
    have hst := (ha t.due hdue).1
    rw [← hb] at hst
    obtain ⟨y, ho, rfl⟩ := Coroutine.finish_due hd
    exact ⟨hst.step hr ho, (Resumed.ready (ho ▸ hr) hst.ready).2⟩

theorem turn_out_ok {b : Config (ImapSend M) F} {sent : Sent M} {data : Bytes}
    {o : ImapSendOutput M} (hready : b.state.Ready) (hst : b.state.state = .read sent)
    (hne : data ≠ []) :
    ((imapSend M).turn b .read (some data) ()).out = .complete (.ok o) ↔
      Accepted (messages (enqueueBytes b.frag data)) ∧
      (b.state.absorbAll sent.tag (messages (enqueueBytes b.frag data))).done = true ∧
      (b.state.absorbAll sent.tag (messages (enqueueBytes b.frag data))).output sent = o := by
  obtain ⟨out, s', f', events, he, hr⟩ := resume_spec hready b.frag [] (some data)
  have hout : ((imapSend M).turn b .read (some data) ()).out = out := by
    simp only [Coroutine.turn, imapSend, he]
  rw [hout]
  generalize harg : some data = arg at hr
  cases hr with
  | asks hs => simp at harg
  | fails hs =>
    rcases hs with hs | hs
    · exact absurd hst (hs sent)
    · exact absurd (Option.some.inj (harg.trans hs)) hne
  | writes hs => exact absurd hst (hs sent)
  | waits hs => simp at harg
  | refused hs hne hms hpre hm =>
    obtain rfl := Option.some.inj harg
    simp [not_accepted hms hm]
  | completes hs hne hms hd =>
    obtain rfl := Option.some.inj harg
    obtain rfl := State.read.inj (hst.symm.trans hs)
    simp [hms, hd]
  | continues hs hne hms hd =>
    obtain rfl := Option.some.inj harg
    obtain rfl := State.read.inj (hst.symm.trans hs)
    simp [hd]
  | readsOn hs hne hms hd =>
    obtain rfl := Option.some.inj harg
    obtain rfl := State.read.inj (hst.symm.trans hs)
    simp [hd]

end ImapSend

/-- The message ends an exchange that stands at `s`. -/
def ServerMessage.Stops {M : Type} (tag : Tag) (s : ImapSend M) (x : ServerMessage) : Prop :=
  x.Ends tag ∨ x.refusal?.isSome ∨ (x.cr?.isSome ∧ s.limboLiteral = none)

instance {M : Type} (tag : Tag) (s : ImapSend M) (x : ServerMessage) : Decidable (x.Stops tag s) :=
  inferInstanceAs (Decidable (_ ∨ _ ∨ _))

/-- The read `r` brings the own completion as the first message to end the exchange. -/
structure BringsCompletion {M F : Type} [Fragmentizer F] (tag : Tag) (s : ImapSend M) (f : F)
    (r : Bytes) (ms : List ServerMessage) (t : Tagged) : Prop where
  nonempty : r ≠ []
  messages : ∃ m, Fragmentizer.messages (enqueueBytes f r) = ms ++ [m] ∧ m.ownTagged? tag = some t
  first : ∀ x ∈ ms, ¬ x.Stops tag s

/-- The messages behind a completion `t` that leave the outcome alone: nothing
refused, no data, no BYE, no other completion, no continuation request but the
one already answered, and none of those last while a literal is held back. -/
structure LeavesOutcome (tag : Tag) (held : Bool) (past : List ServerMessage) (t : Tagged)
    (xs : List ServerMessage) : Prop where
  accepted : ImapSend.Accepted xs
  data : xs.filterMap data? = []
  untagged : xs.filterMap untagged? = []
  completion : ∀ t' ∈ lastSome (·.ownTagged? tag) xs, t' = t
  bye : lastSome bye? xs = none
  continuation : ∀ cr ∈ lastSome cr? xs, lastSome cr? past = some cr
  goesOn : held = true → lastSome (·.signal? tag) xs ≠ some .continuation

namespace ImapSend

variable {M F : Type}

theorem output_eq_iff {tag : Tag} {a : ImapSend M} {sent : Sent M} {t : Tagged}
    {xs : List ServerMessage} (htagged : a.tagged = some t) (hbye : a.bye = none) :
    (a.absorbAll tag xs).output sent = a.output sent ↔
      xs.filterMap data? = [] ∧ xs.filterMap untagged? = [] ∧
      (∀ t' ∈ lastSome (·.ownTagged? tag) xs, t' = t) ∧ lastSome bye? xs = none ∧
      ∀ cr ∈ lastSome cr? xs, a.cr = some cr := by
  simp only [output, absorbAll_data, absorbAll_untagged, absorbAll_tagged, absorbAll_bye,
    absorbAll_cr, htagged, hbye, ImapSendOutput.mk.injEq, true_and, List.append_right_eq_self,
    Option.or_none]
  refine and_congr_right fun _ => and_congr_right fun _ => and_congr ?_ (and_congr_right fun _ => ?_)
  · cases lastSome (·.ownTagged? tag) xs <;> simp
  · cases lastSome cr? xs <;> simp [eq_comm]

theorem done_iff {tag : Tag} {a : ImapSend M} {xs : List ServerMessage} (hd : a.done = true) :
    (a.absorbAll tag xs).done = true ↔
      (a.limboLiteral.isSome = true → lastSome (·.signal? tag) xs ≠ some .continuation) := by
  rw [absorbAll_done]
  generalize lastSome (·.signal? tag) xs = last
  rcases last with - | (- | - | -)
  · simp [hd]
  · simp
  · simp
  · cases a.limboLiteral <;> simp

end ImapSend

theorem absorbAll_completion {M F : Type} {es : List (SendTurn M F)} {s : ImapSend M}
    {sent : Sent M} {ms : List ServerMessage} {m : ServerMessage} {t : Tagged}
    (hheld : ImapSend.Holds es s)
    (hpast : ∀ x ∈ es.flatMap Turn.completed, ¬ x.Ends sent.tag)
    (hfirst : ∀ x ∈ ms, ¬ x.Stops sent.tag s) (hm : m.ownTagged? sent.tag = some t) :
    let a := s.absorbAll sent.tag (ms ++ [m])
    ImapSend.Accepted (ms ++ [m]) ∧ a.done = true ∧ a.tagged = some t ∧ a.bye = none ∧
      a.cr = lastSome cr? (es.flatMap Turn.completed ++ ms) := by
  have hsig : m.signal? sent.tag = some .completion := signal?_completion.mpr (by simp [hm])
  have hbye : m.bye? = none := by
    rw [← Option.not_isSome_iff_eq_none, ← signal?_bye, hsig]
    simp
  have hcr : m.cr? = none := by
    rw [← Option.not_isSome_iff_eq_none, ← signal?_continuation, hsig]
    simp
  have hnobye : ∀ l : List ServerMessage, (∀ x ∈ l, ¬ x.Ends sent.tag) → lastSome bye? l = none :=
    fun l hl => lastSome_eq_none.mpr fun x hx =>
      Option.not_isSome_iff_eq_none.mp fun hb => hl x hx (ends_iff.mpr (.inr hb))
  have haccepted : ImapSend.Accepted ms := fun x hx =>
    Option.not_isSome_iff_eq_none.mp fun hr => hfirst x hx (.inr (.inl hr))
  refine ⟨?_, ?_, ?_, ?_, ?_⟩
  · rw [ImapSend.accepted_append]
    have hrefusal := refusal?_of_signal (Option.isSome_of_mem hsig)
    exact ⟨haccepted, by simpa [ImapSend.Accepted] using hrefusal⟩
  · simp [ImapSend.absorbAll_done, lastSome_concat, hsig]
  · simp [lastSome_concat, hm]
  · simp [lastSome_concat, hbye, hheld.bye, hnobye _ hpast,
      hnobye ms fun x hx he => hfirst x hx (.inl he)]
  · simp [lastSome_singleton, lastSome_append, hcr, hheld.cr]

/-- The outcome of an exchange is independent of what follows its own completion
in the same read exactly when the messages there leave it alone. -/
theorem outcome_iff_leavesOutcome {M F : Type} [Fragmentizer F] [LawfulFragmentizer F]
    [TryFrom Bytes Tag] [Encoder M] [LawfulEncoder M] {s : ImapSend M} {f : F}
    {es : List (SendTurn M F)} {b : Config (ImapSend M) F} {sent : Sent M} {r : Bytes}
    {ms : List ServerMessage} {t : Tagged} (hs : s.Initial) (h : (imapSend M).Runs s f es b)
    (hdue : b.due = some .read) (hst : b.state.state = .read sent)
    (hpast : ∀ x ∈ es.flatMap Turn.completed, ¬ x.Ends sent.tag)
    (hr : BringsCompletion sent.tag b.state b.frag r ms t) (x : Bytes) :
    ((imapSend M).turn b .read (some (r ++ x)) ()).out =
        ((imapSend M).turn b .read (some r) ()).out ↔
      LeavesOutcome sent.tag b.state.limboLiteral.isSome (es.flatMap Turn.completed ++ ms) t
        (messages (enqueueBytes (drained (enqueueBytes b.frag r)) x)) := by
  obtain ⟨hheld, -⟩ := ImapSend.runs_holds hs h _ hdue
  obtain ⟨m, hmsgs, hm⟩ := hr.messages
  obtain ⟨hacc, hdone, htagged, hbye, hcr⟩ := absorbAll_completion hheld hpast hr.first hm
  have hne : r ++ x ≠ [] := by simp [hr.nonempty]
  have hout := (ImapSend.turn_out_ok hheld.ready hst hr.nonempty).mpr
    ⟨hmsgs ▸ hacc, hmsgs ▸ hdone, rfl⟩
  rw [hout, ImapSend.turn_out_ok hheld.ready hst hne, LawfulFragmentizer.messages_append, hmsgs,
    ImapSend.accepted_append, ImapSend.absorbAll_append, ImapSend.done_iff hdone,
    ImapSend.output_eq_iff htagged hbye, hcr, ImapSend.absorbAll_limboLiteral]
  constructor
  · intro hx
    obtain ⟨⟨-, haccx⟩, hgoes, hdata, huntagged, hcompletion, hbyex, hcrx⟩ := hx
    exact ⟨haccx, hdata, huntagged, hcompletion, hbyex, hcrx, hgoes⟩
  · intro hx
    obtain ⟨haccx, hdata, huntagged, hcompletion, hbyex, hcrx, hgoes⟩ := hx
    exact ⟨⟨hacc, haccx⟩, hgoes, hdata, huntagged, hcompletion, hbyex, hcrx⟩

section Concrete

open Concrete

def idleExchange : ImapSend EncodedMessage :=
  .new (idleLine.intoMessage ⟨⟨ascii "A1"⟩, .idle⟩) ⟨ascii "A1"⟩

def completionReplies : List (Bytes × Response) :=
  [(ascii "A1 OK done\r\n", .status (.tagged ⟨⟨ascii "A1"⟩, ⟨.ok, none, "done"⟩⟩)),
    (ascii "* BYE later\r\n", .status (.bye ⟨none, "later"⟩))]

def idleWaiting :
    Config (ImapSend EncodedMessage) (LineFragmentizer (decodeTable completionReplies)) :=
  ⟨.fresh (.read ⟨idleLine.intoMessage ⟨⟨ascii "A1"⟩, .idle⟩, ⟨ascii "A1"⟩⟩) [], .empty, some .read⟩

theorem idleWaiting_reached :
    ∃ es, (imapSend EncodedMessage).Runs idleExchange .empty es idleWaiting ∧
      es.flatMap Turn.completed = [] := by
  have hplay : ∃ es, (imapSend EncodedMessage).play
      (Coroutine.start idleExchange idleWaiting.frag) [(none, ()), (none, ())] =
        some (es, idleWaiting) ∧ es.flatMap Turn.completed = [] := ⟨[_, _], rfl, rfl⟩
  obtain ⟨es, hplay, hcompleted⟩ := hplay
  exact ⟨es, Coroutine.play_run _ hplay, hcompleted⟩

theorem outcome_skips_garbage :
    ((imapSend EncodedMessage).turn idleWaiting .read
        (some (ascii "A1 OK done\r\n" ++ ascii "* garbage\r\n")) ()).out =
      ((imapSend EncodedMessage).turn idleWaiting .read (some (ascii "A1 OK done\r\n")) ()).out := by
  obtain ⟨es, hrun, hcompleted⟩ := idleWaiting_reached
  have hbrings : BringsCompletion ⟨ascii "A1"⟩ idleWaiting.state idleWaiting.frag
      (ascii "A1 OK done\r\n") [] ⟨⟨ascii "A1"⟩, ⟨.ok, none, "done"⟩⟩ :=
    ⟨by decide, ⟨⟨ascii "A1 OK done\r\n",
      .ok (.status (.tagged ⟨⟨ascii "A1"⟩, ⟨.ok, none, "done"⟩⟩))⟩, by decide +kernel, by decide⟩,
      by decide⟩
  refine (outcome_iff_leavesOutcome (.new _ _) hrun rfl rfl (by simp [hcompleted]) hbrings _).mpr ?_
  rw [hcompleted]
  exact ⟨by decide +kernel, by decide +kernel, by decide +kernel, by decide +kernel,
    by decide +kernel, by decide +kernel, by decide +kernel⟩

def reportsBye {M : Type} : CoroutineState ImapYield (Except ImapSendError (ImapSendOutput M)) → Bool
  | .complete (.ok output) => output.bye.isSome
  | _ => false

theorem outcome_follows_bye :
    (∃ es, (imapSend EncodedMessage).Runs idleExchange .empty es idleWaiting) ∧
    ¬ ∀ x, ((imapSend EncodedMessage).turn idleWaiting .read
        (some (ascii "A1 OK done\r\n" ++ x)) ()).out =
      ((imapSend EncodedMessage).turn idleWaiting .read (some (ascii "A1 OK done\r\n")) ()).out := by
  obtain ⟨es, hrun, -⟩ := idleWaiting_reached
  refine ⟨⟨es, hrun⟩, fun h => ?_⟩
  have hbye := congrArg reportsBye (h (ascii "* BYE later\r\n"))
  exact absurd hbye (by decide +kernel)

end Concrete
end IoImap
