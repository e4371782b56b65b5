import IoImap.Incremental.Account
import IoImap.Send.Unlogged

/-!
# Exchanges account for the octets and the messages of their connection

Between two of its messages a fragmentizer may change hands. A coroutine that only feeds
it and pulls from it leaves to the next one what it has not taken, so that over any
sequence of them every message of the connection is taken once, in its order.
-/

namespace IoImap
open Fragmentizer Incremental

namespace Logged

variable {F : Type} [Fragmentizer F]

/-- Between `l` and `l'` the fragmentizer took the octets and gave the messages that are
in the log, and nothing else became of it. -/
def Accounted (l l' : Logged F) : Prop :=
  ∃ (events : List FragmentizerEvent) (items : List (Option ServerMessage)),
    l'.log = l.log ++ events ∧
    Accounts l.frag (events.filterMap FragmentizerEvent.bytes?).flatten items l'.frag ∧
    events.filterMap FragmentizerEvent.message? = items.filterMap id

variable {l l' l'' : Logged F}

theorem Accounted.refl (l : Logged F) : l.Accounted l := ⟨[], [], by simp, .refl _, rfl⟩

theorem Accounted.trans (h : l.Accounted l') (h' : l'.Accounted l'') : l.Accounted l'' := by
  obtain ⟨events, items, hlog, haccounts, hitems⟩ := h
  obtain ⟨events', items', hlog', haccounts', hitems'⟩ := h'
  refine ⟨events ++ events', items ++ items', ?_, ?_, ?_⟩
  · rw [hlog', hlog, List.append_assoc]
  · rw [List.filterMap_append, List.flatten_append]
    exact haccounts.trans haccounts'
  · rw [List.filterMap_append, List.filterMap_append, hitems, hitems']

variable [LawfulFragmentizer F]

theorem accounted_enqueueBytes (l : Logged F) (bytes : Bytes) :
    l.Accounted (enqueueBytes l bytes) := by
  refine ⟨[.fed bytes], [], rfl, ?_, rfl⟩
  have hbytes : (([.fed bytes] : List FragmentizerEvent).filterMap
      FragmentizerEvent.bytes?).flatten = bytes := by simp
  rw [hbytes]
  exact accounts_feed l.frag bytes

theorem accounted_readMessages {σ ε : Type} (accept : σ → ServerMessage → Except ε σ) (s : σ)
    (l : Logged F) : l.Accounted (readMessages accept s l).2 := by
  obtain ⟨f, log⟩ := l
  induction f using drain_induction generalizing s log with
  | dry f f' h =>
    have hp : pull f = (none, f') := h
    have hl : Feed.pull (⟨f, log⟩ : Logged F) = (none, ⟨f', log⟩) := by
      show pull (⟨f, log⟩ : Logged F) = _
      rw [pull_eq, hp]
      simp
    rw [readMessages, consume_dry _ _ hl]
    exact ⟨[], [], by simp, accounts_dry h, rfl⟩
  | item f i f' h ih =>
    have hp : pull f = (some i, f') := h
    have hl : pull (⟨f, log⟩ : Logged F) = (some i, ⟨f', log ++ i.toList.map .completed⟩) := by
      rw [pull_eq, hp]
      simp
    have hpull : (⟨f, log⟩ : Logged F).Accounted ⟨f', log ++ i.toList.map .completed⟩ := by
      refine ⟨i.toList.map .completed, [i], rfl, ?_, ?_⟩
      · rw [FragmentizerEvent.filterMap_bytes?]
        exact accounts_pull h
      · cases i <;> rfl
    cases i with
    | none =>
      rw [readMessages_pull accept s hl]
      exact hpull.trans (ih s _)
    | some m =>
      rw [readMessages_message accept s hl]
      cases accept s m with
      | error err => exact hpull
      | ok s' => exact hpull.trans (ih s' _)

end Logged

/-- The messages that were taken, and those that are left, are all that the octets complete. -/
theorem messages_of_accounts {F : Type} [Fragmentizer F] [LawfulFragmentizer F] {f f' : F}
    {bytes : Bytes} {items : List (Option ServerMessage)} (h : Accounts f bytes items f') :
    messages (enqueueBytes f bytes) = items.filterMap id ++ messages f' ∧
      drained (enqueueBytes f bytes) = drained f' := by
  have hdrain := h []
  have hnil : Feed.feed f' ([] : Bytes) = f' := LawfulFragmentizer.enqueueBytes_nil f'
  rw [List.append_nil, hnil] at hdrain
  constructor
  · have hitems := congrArg (fun r => r.1.filterMap id) hdrain
    rw [List.filterMap_append] at hitems
    exact hitems
  · exact congrArg (fun r => r.2) hdrain

/-- A coroutine does nothing to its fragmentizer but feed it and take its messages. -/
def Coroutine.Accounting {S Env Y R : Type} (c : Coroutine S Env Y R) : Prop :=
  ∀ {F : Type} [Fragmentizer F] [LawfulFragmentizer F] (s : S) (l : Logged F) (arg : Option Bytes)
    (env : Env), l.Accounted (c.resume s l arg env).2.2

/-- A run takes its messages off the octets it is given, and leaves the others. -/
theorem Coroutine.Accounting.run {S F Env Y R : Type} [Fragmentizer F] [LawfulFragmentizer F]
    {c : Coroutine S Env Y R} {s : S} {f : F} {ts : List (Turn S F Env Y R)} {b : Config S F}
    (hc : c.Accounting) (h : c.Runs s f ts b) : ∃ items : List (Option ServerMessage),
      Accounts f (ts.flatMap Turn.fed).flatten items b.frag ∧
      ts.flatMap Turn.completed = items.filterMap id := by
  refine Transition.Run.history (P := fun ts a => ∃ items : List (Option ServerMessage),
    Accounts f (ts.flatMap Turn.fed).flatten items a.frag ∧
    ts.flatMap Turn.completed = items.filterMap id) ?_ ?_ h
  · exact ⟨[], .refl f, rfl⟩
  intro ts a t b hx hstep
  obtain ⟨items, haccounts, hitems⟩ := hx
  obtain ⟨due, arg, env, out, s', f', log, -, -, he, rfl, rfl⟩ := c.step_cases hstep
  obtain ⟨events, items', hlog, haccounts', hitems'⟩ := hc a.state (⟨a.frag, []⟩ : Logged F) arg env
  rw [he] at hlog haccounts'
  obtain rfl : log = events := hlog
  refine ⟨items ++ items', ?_, ?_⟩
  · rw [List.flatMap_append, List.flatten_append, List.flatMap_singleton]
    exact haccounts.trans haccounts'
  · rw [List.flatMap_append, List.filterMap_append, hitems, List.flatMap_singleton]
    exact congrArg _ hitems'

namespace ImapSend

variable {M F : Type} [Fragmentizer F] [LawfulFragmentizer F]

omit [LawfulFragmentizer F] in
theorem serialize_accounted (s : ImapSend M) (sent : Sent M) (l : Logged F)
    {next : ImapSend M → ImapSendResult M × ImapSend M × Logged F}
    (h : ∀ s, l.Accounted (next s).2.2) : l.Accounted (s.serialize sent l next).2.2 := by
  rw [serialize]
  split
  · exact h _
  · exact .refl l

omit [LawfulFragmentizer F] in
theorem settle_accounted (s : ImapSend M) (sent : Sent M) (l : Logged F) :
    l.Accounted (s.settle sent l).2.2 := by
  unfold settle
  split_ifs
  · exact .refl l
  · exact s.serialize_accounted sent l fun _ => .refl l
  · exact .refl l

theorem read_accounted (s : ImapSend M) (sent : Sent M) (l : Logged F) (arg : Option Bytes) :
    l.Accounted (s.read sent l arg).2.2 := by
  rcases arg with - | (- | ⟨b, bs⟩)
  · exact .refl l
  · exact .refl l
  · have hfed := Logged.accounted_enqueueBytes l (b :: bs)
    have hread := Logged.accounted_readMessages (accept sent.tag) s (enqueueBytes l (b :: bs))
    show l.Accounted (s.deserialize sent (enqueueBytes l (b :: bs))).2.2
    rw [deserialize]
    rcases hr : readMessages (accept sent.tag) s (enqueueBytes l (b :: bs)) with ⟨err | s', l'⟩
    · rw [hr] at hread
      exact hfed.trans hread
    · rw [hr] at hread
      exact hfed.trans (hread.trans (settle_accounted s' sent l'))

theorem resume_accounted [TryFrom Bytes Tag] [Encoder M] (s : ImapSend M) (l : Logged F)
    (arg : Option Bytes) : l.Accounted (s.resume l arg).2.2 := by
  unfold resume
  cases s.state with
  | tag command requested =>
    rcases arg with - | bytes
    · cases requested <;> exact .refl l
    · dsimp only
      cases (TryFrom.tryFrom bytes : Except ValidationError Tag) with
      | error err => exact .refl l
      | ok tag => exact serialize_accounted _ _ l fun _ => .refl l
  | serialize sent => exact s.serialize_accounted sent l fun s => s.read_accounted sent l arg
  | read sent => exact s.read_accounted sent l arg

end ImapSend

theorem commandCoroutine_accounting {V : Type} [TryFrom Bytes Tag] [Encoder Command]
    (decode : ImapSendOutput Command → V) : (commandCoroutine decode).Accounting :=
  fun send l arg _ => send.resume_accounted l arg

end IoImap
