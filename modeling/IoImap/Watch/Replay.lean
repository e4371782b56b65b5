import IoImap.Codec.CommandEncoder
import IoImap.Watch.Resume

/-!
# The events of a watch replay its shadow

Whatever the server answers, the events yielded so far and those still pending,
replayed over the baseline, give the current shadow, and none is redundant.
-/

namespace IoImap
open Fragmentizer Replay Transition

namespace ImapMailboxWatch

def event? : ImapMailboxWatchResult → Option ImapMailboxWatchEvent
  | .yielded (.event event) => some event
  | _ => none

theorem event?_ofYield (y : ImapYield) : event? (.yielded (.ofYield y)) = none := by
  cases y <;> rfl

def State.opening : State → Bool
  | enableQresync _ => true
  | examineInitial _ => true
  | fetchBaseline _ => true
  | _ => false

def Outcome.mailbox (o : Outcome) : ShadowedMailbox :=
  ⟨o.2.shadow, (event? o.1).toList ++ o.2.pending⟩

/-! ### What follows a sub-coroutine -/

/-- The outcome yields an event or leaves it pending, and changes nothing else;
the mailbox is open. -/
structure Keeps (w : ImapMailboxWatch) (o : Outcome) : Prop where
  mailbox : o.mailbox = w.toShadowedMailbox
  opening : o.2.state.opening = false

section Outcomes

variable {w : ImapMailboxWatch} {env : ImapMailboxWatchEnv}

theorem Continues.keeps [Base64Codec] [TryFrom String Mailbox] {o : Outcome}
    (h : Continues w env o) : Keeps w o := by
  cases h with
  | reexamines opts hinto => rcases hinto with rfl | rfl <;> exact ⟨rfl, rfl⟩
  | tells hpending => exact ⟨by simp [Outcome.mailbox, event?, ← hpending], rfl⟩
  | _ => exact ⟨rfl, rfl⟩

theorem complete_keeps (r : Except ImapMailboxWatchError Unit) : Keeps w (w.complete r) := ⟨rfl, rfl⟩

theorem examinedResync_keeps (data : ExamineData) : Keeps w (w.examinedResync data) := by
  unfold examinedResync
  split <;> exact ⟨rfl, rfl⟩

variable [Base64Codec] [TryFrom String Mailbox]

theorem examinedQresync_emits (data : ExamineData) :
    ∃ as, ShadowedMailbox.Emits w.toShadowedMailbox (w.examinedQresync data env).mailbox as := by
  unfold examinedQresync
  split
  · exact ⟨[], by rw [(complete_keeps _).mailbox]; exact .refl _⟩
  · rw [emitDeltas_continues.keeps.mailbox]
    exact ShadowedMailbox.computeDeltas_emits _ data

theorem examinedQresync_opening (data : ExamineData) :
    (w.examinedQresync data env).2.state.opening = false := by
  unfold examinedQresync
  split
  · rfl
  · exact emitDeltas_continues.keeps.opening

theorem fetchedResync_emits (data : FetchData) :
    ∃ as, ShadowedMailbox.Emits w.toShadowedMailbox (w.fetchedResync data env).mailbox as := by
  rw [fetchedResync, emitDeltas_continues.keeps.mailbox]
  exact ⟨_, ShadowedMailbox.computeSnapshotDeltas_emits _ _⟩

theorem answered_opening (h : w.state.opening = true) (hpending : w.pending = [])
    (out : ImapSendOutput Command) :
    event? (w.answered env out).1 = none ∧ (w.answered env out).2.pending = [] := by
  have hmailbox : ∀ o : Outcome, o.mailbox.pending = [] → event? o.1 = none ∧ o.2.pending = [] := by
    intro o ho
    simpa [Outcome.mailbox, and_comm] using ho
  unfold answered
  cases hs : w.state with
  | enableQresync send => exact ⟨rfl, hpending⟩
  | examineInitial send =>
    simp only [examinedInitial]
    split
    · exact ⟨rfl, hpending⟩
    · split
      · split <;> exact ⟨rfl, hpending⟩
      · exact ⟨rfl, hpending⟩
  | fetchBaseline send =>
    refine hmailbox _ ?_
    rw [fetchedBaseline, beginIdle_continues.keeps.mailbox]
    exact hpending
  | _ => simp [hs, State.opening] at h

theorem answered_emits (h : w.state.opening = false) (out : ImapSendOutput Command) :
    (w.answered env out).2.state.opening = false ∧
      ∃ as, ShadowedMailbox.Emits w.toShadowedMailbox (w.answered env out).mailbox as := by
  have hkeeps : ∀ {o : Outcome}, Keeps w o →
      o.2.state.opening = false ∧ ∃ as, ShadowedMailbox.Emits w.toShadowedMailbox o.mailbox as :=
    fun ho => ⟨ho.opening, [], by rw [ho.mailbox]; exact .refl _⟩
  unfold answered
  cases hs : w.state with
  | examineQresync send => exact ⟨examinedQresync_opening _, examinedQresync_emits _⟩
  | examineResync send => exact hkeeps (examinedResync_keeps _)
  | fetchResync send => exact ⟨emitDeltas_continues.keeps.opening, fetchedResync_emits _⟩
  | enableQresync send => simp [hs, State.opening] at h
  | examineInitial send => simp [hs, State.opening] at h
  | fetchBaseline send => simp [hs, State.opening] at h
  | _ => exact hkeeps (complete_keeps _)

end Outcomes

theorem State.opening_withCommand (state : State) (send : ImapSend Command) :
    (state.withCommand send).opening = state.opening := by
  cases state <;> rfl

/-! ### One resume -/

section Resumed

variable {F : Type} [Fragmentizer F] [Encoder IdleDone] [Base64Codec] [TryFrom String Mailbox]
  {w w' : ImapMailboxWatch} {f f' : F} {env : ImapMailboxWatchEnv} {arg : Option Bytes}
  {out : ImapMailboxWatchResult} {events : List FragmentizerEvent}

/-- While the mailbox is opened, a resume neither yields an event nor queues one. -/
theorem Resumed.opening (h : Resumed w f env arg out w' f' events) (hw : w.state.opening = true)
    (hpending : w.pending = []) : event? out = none ∧ w'.pending = [] := by
  have hwake : (w.wake env).pending = [] := hpending
  cases h with
  | goesOn hs hr => exact ⟨event?_ofYield _, hwake⟩
  | fails hs hr hout => exact ⟨rfl, hwake⟩
  | succeeds hs hr hout => exact answered_opening (w := w.wake env) hw hwake _
  | proceeds hs => cases hst : w.state <;> simp_all [State.opening, State.isBare]
  | idles hs hr => simp [hs, State.opening] at hw
  | sees hs hr htag => simp [hs, State.opening] at hw
  | idleFails hs hr => simp [hs, State.opening] at hw
  | idleEnds hs hr => simp [hs, State.opening] at hw

theorem Resumed.keeps (h : Resumed w f env arg out w' f' events) (hw : w.state.opening = false) :
    Keeps w (out, w') ∨ ∃ o, (out, w') = (w.wake env).answered env o := by
  cases h with
  | goesOn hs hr =>
    refine .inl ⟨?_, (State.opening_withCommand _ _).trans hw⟩
    rw [Outcome.mailbox, event?_ofYield]
    rfl
  | fails hs hr hout => exact .inl ⟨rfl, rfl⟩
  | succeeds hs hr hout => exact .inr ⟨_, rfl⟩
  | idles hs hr =>
    refine .inl ⟨?_, rfl⟩
    rw [Outcome.mailbox, event?_ofYield]
    rfl
  | sees hs hr htag => exact .inl ⟨rfl, rfl⟩
  | idleFails hs hr => exact .inl ⟨rfl, rfl⟩
  | idleEnds hs hr => exact .inl ⟨idled_continues.keeps.mailbox, idled_continues.keeps.opening⟩
  | proceeds hs => exact .inl ⟨proceed_continues.keeps.mailbox, proceed_continues.keeps.opening⟩

/-- What a resume changes in the shadow of an open mailbox it queues. -/
theorem Resumed.emits (h : Resumed w f env arg out w' f' events) (hw : w.state.opening = false) :
    w'.state.opening = false ∧
      ∃ as, ShadowedMailbox.Emits w.toShadowedMailbox (Outcome.mailbox (out, w')) as := by
  rcases h.keeps hw with hkeeps | ⟨o, ho⟩
  · exact ⟨hkeeps.opening, [], by rw [hkeeps.mailbox]; exact .refl _⟩
  · have hwake : (w.wake env).state.opening = false := hw
    have hanswered : ((w.wake env).answered env o).2.state.opening = false ∧ ∃ as,
        ShadowedMailbox.Emits w.toShadowedMailbox ((w.wake env).answered env o).mailbox as :=
      answered_emits hwake o
    rw [← ho] at hanswered
    exact hanswered

end Resumed

/-! ### Runs -/

section Runs

variable {F : Type}

def eventsOf (es : List (Step F)) : List ImapMailboxWatchEvent := es.filterMap fun t => event? t.out

def openedShadow? (t : Step F) : Option Shadow :=
  if t.before.state.opening then some t.after.shadow else none

/-- The baseline: the shadow as the opening of the mailbox left it. -/
def baseline (es : List (Step F)) : Shadow := (lastSome openedShadow? es).getD ∅

theorem baseline_concat (es : List (Step F)) (t : Step F) :
    baseline (es ++ [t]) = if t.before.state.opening then t.after.shadow else baseline es := by
  rw [baseline, lastSome_concat, openedShadow?]
  split <;> rfl

theorem eventsOf_concat (es : List (Step F)) (t : Step F) :
    eventsOf (es ++ [t]) = eventsOf es ++ (event? t.out).toList := by
  rw [eventsOf, List.filterMap_append]
  cases h : event? t.out <;> simp [eventsOf, h]

structure ReplayState (es : List (Step F)) (w : ImapMailboxWatch) : Prop where
  opening : w.state.opening = true → eventsOf es = [] ∧ w.pending = []
  emits : ∃ as, ShadowedMailbox.Emits ⟨baseline es, []⟩ ⟨w.shadow, eventsOf es ++ w.pending⟩ as

theorem ReplayState.step [Fragmentizer F] [Encoder IdleDone] [Base64Codec] [TryFrom String Mailbox]
    {es : List (Step F)} {t : Step F} (h : ReplayState es t.before)
    (hr : Resumed t.before t.frag t.env t.arg t.out t.after t.fragAfter t.log) :
    ReplayState (es ++ [t]) t.after := by
  cases hw : t.before.state.opening with
  | true =>
    obtain ⟨hevents, hpending⟩ := h.opening hw
    obtain ⟨hevent, hafter⟩ := hr.opening hw hpending
    have hnone : eventsOf (es ++ [t]) = [] := by rw [eventsOf_concat, hevents, hevent]; rfl
    refine ⟨fun _ => ⟨hnone, hafter⟩, [], ?_⟩
    rw [hnone, hafter, baseline_concat, if_pos hw]
    exact .refl _
  | false =>
    obtain ⟨as, has⟩ := h.emits
    obtain ⟨hopen, bs, hbs⟩ := hr.emits hw
    refine ⟨fun ho => (Bool.false_ne_true (hopen.symm.trans ho)).elim, as ++ bs, ?_⟩
    rw [baseline_concat, hw, if_neg Bool.false_ne_true, eventsOf_concat, List.append_assoc]
    exact has.trans (hbs.prepend (eventsOf es))

end Runs
end ImapMailboxWatch

open ImapMailboxWatch

/-- In every run of the watcher the events so far and the pending ones replay
the baseline to the current shadow, and each of them is news where it is
applied. -/
theorem events_replay_shadow {F : Type} [Fragmentizer F] [TryFrom Bytes Tag] [Encoder Command]
    [Encoder IdleDone] [LawfulEncoder Command] [LawfulEncoder IdleDone] [Base64Codec]
    [TryFrom String Mailbox] {capability : List Capability} {mailbox : Mailbox}
    {opts : ImapMailboxWatchOptions} {f : F} {es : List (ImapMailboxWatch.Step F)}
    {b : Config ImapMailboxWatch F}
    (h : imapMailboxWatch.Runs (.new capability mailbox opts) f es b) :
    let changes := (eventsOf es ++ b.state.pending).map ImapMailboxWatchEvent.change
    replay (baseline es).view changes = b.state.shadow.view ∧ FreshAll (baseline es).view changes := by
  have hrun : ReadyConfig b ∧ ReplayState es b.state := by
    refine Run.history (P := fun es a => ReadyConfig a ∧ ReplayState es a.state) ?_ ?_ h
    · exact ⟨start_ready _ _ _ _, fun _ => ⟨rfl, rfl⟩, [], .refl _⟩
    · intro es a t b hx hstep
      obtain ⟨ha, hstate⟩ := hx
      obtain ⟨⟨hr, -, -⟩, hbefore, hafter, hb⟩ := step_resumed ha hstep
      rw [← hbefore] at hstate
      rw [hafter]
      exact ⟨hb, hstate.step hr⟩
  obtain ⟨as, hview, new, hnew, hchanges⟩ := hrun.2.emits
  obtain rfl : eventsOf es ++ b.state.pending = new := hnew
  intro changes
  have he : changes = emits (baseline es).view as := hchanges
  rw [he]
  exact ⟨replay_emits.trans hview.symm, fresh_emits⟩

section Concrete

open Concrete

def completion (tag : String) : Response := .status (.tagged ⟨⟨ascii tag⟩, ⟨.ok, none, "done"⟩⟩)

def watchMessages : List (Bytes × Response) :=
  [(ascii "* OK [UIDVALIDITY 7] ok\r\n",
      .status (.untagged ⟨.ok, some (.uidValidity (.ofNat 7)), "ok"⟩)),
    (ascii "* 1 FETCH (UID 5 FLAGS ())\r\n",
      .data (.fetch (.ofNat 1) [.uid (.ofNat 5), .flags []])),
    (ascii "* 1 FETCH (UID 9 FLAGS ())\r\n",
      .data (.fetch (.ofNat 1) [.uid (.ofNat 9), .flags []])),
    (ascii "* 5 EXISTS\r\n", .data (.exists 5)),
    (ascii "+ idling\r\n", .commandContinuationRequest (.basic "idling")),
    (ascii "A1 OK done\r\n", completion "A1"), (ascii "A2 OK done\r\n", completion "A2"),
    (ascii "A3 OK done\r\n", completion "A3"), (ascii "A4 OK done\r\n", completion "A4"),
    (ascii "A5 OK done\r\n", completion "A5")]

def playWatching (args : List (Option Bytes)) :=
  imapMailboxWatch.play (Coroutine.start (.new [] .inbox ⟨none, false⟩)
    (LineFragmentizer.empty : LineFragmentizer (decodeTable watchMessages)))
    (args.map fun arg => (arg, ⟨false, false, false, (0, 0), (0, 0)⟩))

def exchangeArgs (tag : String) (reads : List String) : List (Option Bytes) :=
  some (ascii tag) :: none :: reads.map fun read => some (ascii read)

/-- The mailbox holds message 5, which is replaced by message 9 while idling. -/
def replacedArgs : List (Option Bytes) :=
  [none] ++ exchangeArgs "A1" ["* OK [UIDVALIDITY 7] ok\r\nA1 OK done\r\n"] ++
    exchangeArgs "A2" ["* 1 FETCH (UID 5 FLAGS ())\r\nA2 OK done\r\n"] ++
    exchangeArgs "A3" ["+ idling\r\n", "* 5 EXISTS\r\n"] ++
    [none, some (ascii "A3 OK done\r\n")] ++
    exchangeArgs "A4" ["* OK [UIDVALIDITY 7] ok\r\nA4 OK done\r\n"] ++
    exchangeArgs "A5" ["* 1 FETCH (UID 9 FLAGS ())\r\nA5 OK done\r\n"]

theorem events_replay_replaced : ∃ es b, playWatching replacedArgs = some (es, b) ∧
    (eventsOf es).length = 1 ∧ b.state.pending.length = 1 ∧
    replay (baseline es).view ((eventsOf es ++ b.state.pending).map ImapMailboxWatchEvent.change) =
      b.state.shadow.view := by
  have hrun : (playWatching replacedArgs).any (fun r =>
      decide ((eventsOf r.1).length = 1 ∧ r.2.state.pending.length = 1)) = true := by decide +kernel
  obtain ⟨⟨es, b⟩, hplay, hlen⟩ := (Option.any_eq_true _ _).mp hrun
  obtain ⟨hevents, hpending⟩ := of_decide_eq_true hlen
  exact ⟨es, b, hplay, hevents, hpending, (events_replay_shadow (Coroutine.play_run _ hplay)).1⟩

end Concrete
end IoImap
