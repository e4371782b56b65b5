import IoImap.Command.Runs
import IoImap.Send.Completion

/-!
# What a command coroutine reads its result from

A coroutine that sends one command is its exchange until the exchange is over, and
the output of the exchange is that of all the messages its octets complete.
-/

namespace IoImap
open Fragmentizer ServerMessage Transition

namespace ImapSend

variable {M F : Type} [Fragmentizer F]

/-- The messages that the octets given to a run complete. -/
def heard {S Env Y R : Type} (es : List (Turn S F Env Y R)) : List ServerMessage :=
  es.flatMap fun t => t.received

theorem heard_concat {S Env Y R : Type} (es : List (Turn S F Env Y R)) (t : Turn S F Env Y R) :
    heard (es ++ [t]) = heard es ++ t.received := by
  simp [heard]

/-- The octets that a resume is given, if any, are those of a read. -/
def Receives {S Env Y R : Type} (t : Turn S F Env Y R) : Prop :=
  ∀ data, t.arg = some data → data ≠ [] → t.received = messages (enqueueBytes t.frag data)

theorem received_read {S Env Y R : Type} {t : Turn S F Env Y R} {data : Bytes} (hdue : t.due = .read)
    (harg : t.arg = some data) (hne : data ≠ []) : t.received = messages (enqueueBytes t.frag data) := by
  rw [Turn.received, Turn.answer, hdue, harg, Request.octets_read hne]
  simp

theorem received_unread {S Env Y R : Type} {t : Turn S F Env Y R} (h : t.due ≠ .read ∨ t.arg = none) :
    t.received = [] := by
  have hanswer : t.answer = [] := by
    rcases h with h | h
    · exact Request.octets_of_ne h t.arg
    · rw [Turn.answer, h, Request.octets_none]
  rw [Turn.received, hanswer]
  rfl

/-- The output of an exchange that was sent the messages. -/
structure Reflects (ms : List ServerMessage) (out : ImapSendOutput M) : Prop where
  data : out.data = ms.filterMap data?
  untagged : out.untagged = ms.filterMap untagged?
  tagged : out.tagged = lastSome (·.ownTagged? out.tag) ms
  bye : out.bye = lastSome bye? ms

/-- What an exchange holds of the messages it was sent so far. -/
structure Hears (ms : List ServerMessage) (s : ImapSend M) : Prop where
  data : s.data = ms.filterMap data?
  untagged : s.untagged = ms.filterMap untagged?
  unread : (∀ sent, s.state ≠ .read sent) → ms = [] ∧ s.tagged = none
  tagged : ∀ tag ∈ s.tag?, s.tagged = lastSome (·.ownTagged? tag) ms
  bye : s.bye = lastSome bye? ms

theorem Initial.hears [Encoder M] {s : ImapSend M} (h : s.Initial) : s.Hears [] := by
  cases h <;> exact ⟨rfl, rfl, fun _ => ⟨rfl, rfl⟩, fun _ _ => rfl, rfl⟩

section Resume

variable {s s' : ImapSend M} {f f' : F} {due : Request} {arg : Option Bytes} {out : ImapSendResult M}
  {events : List FragmentizerEvent} {past ms : List ServerMessage} {sent : Sent M}

omit [Fragmentizer F] in
theorem Hears.absorbAll (h : s.Hears past) (hs : s.state = .read sent) :
    (s.absorbAll sent.tag ms).Hears (past ++ ms) := by
  have htag : s.tag? = some sent.tag := by rw [tag?, hs]
  refine ⟨?_, ?_, fun hread => absurd (by rw [absorbAll_state, hs]) (hread sent), fun tag htag' => ?_, ?_⟩
  · rw [absorbAll_data, h.data, List.filterMap_append]
  · rw [absorbAll_untagged, h.untagged, List.filterMap_append]
  · obtain rfl : sent.tag = tag := by simpa [tag?, hs] using htag'
    rw [absorbAll_tagged, h.tagged sent.tag htag, lastSome_append]
  · rw [absorbAll_bye, h.bye, lastSome_append]

theorem Hears.resumed (h : s.Hears past) (hr : s.Resumed f arg out s' f' events)
    (hout : ∀ err, out ≠ .complete (.error err)) :
    s'.Hears (past ++ events.filterMap FragmentizerEvent.message?) := by
  cases hr with
  | asks hs =>
    obtain ⟨rfl, htagged⟩ := h.unread (by simp [hs])
    exact ⟨h.data, h.untagged, fun _ => ⟨rfl, htagged⟩, by simp [tag?], h.bye⟩
  | fails => simp at hout
  | writes hs =>
    obtain ⟨rfl, htagged⟩ := h.unread hs
    exact ⟨h.data, h.untagged, fun _ => ⟨rfl, htagged⟩, fun _ _ => htagged, h.bye⟩
  | waits => simpa using h
  | refused => simp at hout
  | completes hs =>
    rw [FragmentizerEvent.message?_read]
    exact h.absorbAll hs
  | @continues sent data hs =>
    rw [FragmentizerEvent.message?_read]
    have hnext : (s.absorbAll sent.tag (messages (enqueueBytes f data))).Hears
        (past ++ messages (enqueueBytes f data)) := h.absorbAll hs
    exact ⟨hnext.data, hnext.untagged, fun hread => absurd rfl (hread _),
      fun tag htag => hnext.tagged tag (by simpa [tag?, hs, written] using htag), hnext.bye⟩
  | readsOn hs =>
    rw [FragmentizerEvent.message?_read]
    exact h.absorbAll hs

theorem Hears.output {o : ImapSendOutput M} (h : s'.Hears ms)
    (hr : s.Resumed f arg (.complete (.ok o)) s' f' events) : Reflects ms o := by
  cases hr with
  | @completes sent data hs =>
    refine ⟨h.data, h.untagged, h.tagged sent.tag ?_, h.bye⟩
    rw [tag?, absorbAll_state, hs]
    rfl

end Resume
end ImapSend

/-- The coroutine is the exchange until the exchange is over. -/
structure Wraps {R : Type} [TryFrom Bytes Tag] [Encoder Command]
    (c : Coroutine (ImapSend Command) Unit ImapYield R) : Prop where
  rest : ∀ {F : Type} [Fragmentizer F] (s : ImapSend Command) (f : F) (arg : Option Bytes),
    (c.resume s f arg ()).2 = (s.resume f arg).2
  yields : ∀ {F : Type} [Fragmentizer F] (s : ImapSend Command) (f : F) (arg : Option Bytes)
    (y : ImapYield), (c.resume s f arg ()).1 = .yielded y ↔ (s.resume f arg).1 = .yielded y
  request : c.request = ImapYield.request

/-- What the exchange comes to in a resume. -/
def exchanged {R F : Type} [Fragmentizer F] [TryFrom Bytes Tag] [Encoder Command]
    (t : Turn (ImapSend Command) F Unit ImapYield R) : ImapSendResult Command :=
  (t.before.resume (⟨t.frag, []⟩ : Logged F) t.arg).1

/-- The value a resume completes with. -/
def CoroutineState.returned? {Y E V : Type} : CoroutineState Y (Except E V) → Option V
  | .complete (.ok v) => some v
  | _ => none

theorem CoroutineState.returned?_eq_some {Y E V : Type} {x : CoroutineState Y (Except E V)} {v : V} :
    x.returned? = some v ↔ x = .complete (.ok v) := by
  rcases x with y | (err | w) <;> simp [returned?]

instance (out : ImapSendOutput Command) : Decidable (Succeeds out) :=
  decidable_of_iff (out.bye.isNone ∧ (out.tagged.any fun t => t.body.kind = .ok) = true) (by
    simp [Succeeds, Option.any_eq_true])

/-- The run ends with a tagged OK and without a BYE. -/
def EndsWell {R F : Type} [Fragmentizer F] [TryFrom Bytes Tag] [Encoder Command]
    (es : List (Turn (ImapSend Command) F Unit ImapYield R)) : Prop :=
  ∃ t out, es.getLast? = some t ∧ exchanged t = .complete (.ok out) ∧ Succeeds out

theorem wraps_commandCoroutine {V : Type} [TryFrom Bytes Tag] [Encoder Command]
    (decode : ImapSendOutput Command → V) : Wraps (commandCoroutine decode) where
  rest _ _ _ := rfl
  yields s f arg y := by
    constructor
    · intro h
      obtain ⟨y', hy', rfl⟩ := CoroutineState.tryOk_yielded h
      exact hy'
    · intro h
      show (s.resume f arg).1.tryOk id .send (commandOutcome decode) = .yielded y
      rw [h]
      rfl
  request := rfl

section Wraps

variable {R F : Type} [Fragmentizer F] [TryFrom Bytes Tag] [Encoder Command] [LawfulEncoder Command]
  {c : Coroutine (ImapSend Command) Unit ImapYield R} {s : ImapSend Command} {f : F}
  {es : List (Turn (ImapSend Command) F Unit ImapYield R)}
  {t : Turn (ImapSend Command) F Unit ImapYield R} {a b : Config (ImapSend Command) F}

/-- Between two resumes of a run. -/
structure Hearing (es : List (Turn (ImapSend Command) F Unit ImapYield R)) (s : ImapSend Command)
    (due : Request) : Prop where
  ready : s.Ready
  awaits : s.Awaits due
  hears : s.Hears (ImapSend.heard es)

theorem Wraps.step (hc : Wraps c) (ha : ∀ due, a.due = some due → Hearing es a.state due)
    (hstep : c.Step a t b) : (∀ due, b.due = some due → Hearing (es ++ [t]) b.state due) ∧
      ∀ out, exchanged t = .complete (.ok out) → ImapSend.Reflects (ImapSend.heard (es ++ [t])) out := by
  obtain ⟨due, arg, env, out, s', l, log, hdue, hans, he, rfl, rfl⟩ := c.step_cases hstep
  obtain ⟨hready, hawaits, hhears⟩ := ha due hdue
  obtain ⟨x, s'', f', events, hsend, hr⟩ := ImapSend.resume_spec hready a.frag [] arg
  have hrest : (s', (⟨l, log⟩ : Logged F)) = (s'', ⟨f', events⟩) := by
    have hrest := hc.rest a.state (⟨a.frag, []⟩ : Logged F) arg
    rwa [he, hsend] at hrest
  obtain ⟨rfl, hl⟩ := Prod.mk.inj hrest
  obtain ⟨rfl, rfl⟩ := Logged.mk.inj hl
  have hnext : (∀ err, x ≠ .complete (.error err)) →
      s'.Hears (ImapSend.heard (es ++ [⟨a.state, a.frag, due, arg, env, out, s', l, log⟩])) := by
    intro hx
    rw [ImapSend.heard_concat, Turn.received, Turn.answer, ← hr.decoded hawaits hans hx]
    exact hhears.resumed hr hx
  constructor
  · intro due' hdue'
    rcases out with y | r
    · have hx : x = .yielded y := by
        have hx := (hc.yields a.state (⟨a.frag, []⟩ : Logged F) arg y).mp (by rw [he])
        rwa [hsend] at hx
      subst hx
      obtain ⟨hready', hawaits'⟩ := hr.ready hready
      obtain rfl : y.request = due' := by
        rw [hc.request] at hdue'
        exact Option.some.inj hdue'
      exact ⟨hready', hawaits', hnext (by simp)⟩
    · simp at hdue'
  · intro o ho
    obtain rfl : x = .complete (.ok o) := by
      rw [exchanged] at ho
      rwa [hsend] at ho
    exact (hnext (by simp)).output hr

theorem Wraps.run (hc : Wraps c) (hs : s.Initial) (hrun : c.Runs s f es a) :
    ∀ due, a.due = some due → Hearing es a.state due := by
  refine Run.history (P := fun es a => ∀ due, a.due = some due → Hearing es a.state due) ?_ ?_ hrun
  · intro due hdue
    obtain rfl : Request.nothing = due := Option.some.inj hdue
    exact ⟨hs.ready, hs.awaits, hs.hears⟩
  · intro es a t b ha hstep
    exact (hc.step ha hstep).1

/-- The output of the exchange of a run is that of all it was sent. -/
theorem Wraps.output (hc : Wraps c) (hs : s.Initial) (hrun : c.Runs s f (es ++ [t]) b)
    {out : ImapSendOutput Command} (hout : exchanged t = .complete (.ok out)) :
    ImapSend.Reflects (ImapSend.heard (es ++ [t])) out := by
  obtain ⟨a, hbefore, hstep⟩ := hrun.snoc_inv
  exact (hc.step (hc.run hs hbefore) hstep).2 out hout

end Wraps
end IoImap
