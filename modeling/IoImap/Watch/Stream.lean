import IoImap.Client.Pump
import IoImap.Transition.SyncChannel
import IoImap.Watch.Replay

/-!
# The watch stream of the client (client.rs)

`watch_mailbox` moves the watcher into a worker thread that pumps it and sends its events
through a channel of 256 to the caller, who receives them until he closes the stream or
drops it. The worker waits for the socket, for its interval and for room in the channel;
closing sets `shutdown` and waits for the worker. The two threads are interleaved: a step
is one of either, and what the socket and the generator bring is part of its label.
-/

namespace IoImap
open Fragmentizer Transition

abbrev WatchItem := Except (ImapClientError ImapMailboxWatchError) ImapMailboxWatchEvent

/-- Intervals are in nanoseconds. -/
structure ImapMailboxWatchStreamOptions where
  shutdownPoll : Nat := 5000000000
  idleTimeout : Option Nat := none
  poll : Option Nat := none

def watchClosedConnection : IoError :=
  ⟨.unexpectedEof, "IMAP server closed the connection during watch"⟩

/-- Where the worker stands in its loop. -/
inductive WatchPoint where
  | resumes (arg : Option Bytes)
  | generates
  | reads
  | writes (bytes : Bytes)
  | waits (left : Nat)
  | sends (item : WatchItem)
  | returned

/-- The caller has the stream, has set `shutdown` and waits for the worker, or has done so:
only then is his end of the channel dropped. -/
inductive WatchCaller where
  | watching
  | winding
  | closed
  deriving DecidableEq

structure ImapMailboxWatchStream (F : Type) where
  watcher : Config ImapMailboxWatch F
  point : WatchPoint
  rx : SyncChannel WatchItem 256
  caller : WatchCaller

inductive WatchAct (F : Type) where
  | resume (t : ImapMailboxWatch.Step F)
  | generate (tag : Tag)
  | read (result : Except IoError Bytes)
  | write (result : Except IoError Unit)
  | sleep
  | send (item : WatchItem)
  /-- `send` finds the end of the caller dropped. -/
  | abandon
  | receive (item : WatchItem)
  | close
  | join

namespace WatchPoint

def inFlight : WatchPoint → List WatchItem
  | .sends item => [item]
  | _ => []

def after (opts : ImapMailboxWatchStreamOptions) : ImapMailboxWatchResult → WatchPoint
  | .yielded (.event event) => .sends (.ok event)
  | .complete (.ok ()) => .returned
  | .yielded .wantsTag => .generates
  | .yielded .wantsRead => .reads
  | .yielded (.wantsWrite bytes) => .writes bytes
  | .yielded .wantsWait => .waits (opts.poll.getD 0)
  | .complete (.error err) => .sends (.error (.coroutine err))

def afterRead (shutdown : Bool) : Except IoError Bytes → WatchPoint
  | .ok [] => .sends (.error (.io watchClosedConnection))
  | .ok (b :: bs) => .resumes (some (b :: bs))
  | .error err =>
    match err.kind with
    | .wouldBlock | .timedOut => if shutdown then .returned else .resumes none
    | _ => .sends (.error (.io err))

def afterWrite : Except IoError Unit → WatchPoint
  | .ok () => .resumes none
  | .error err => .sends (.error (.io err))

/-- One round of the loop that sleeps. -/
def afterSleep (opts : ImapMailboxWatchStreamOptions) (shutdown : Bool) (left : Nat) : WatchPoint :=
  if left = 0 then .resumes none
  else if shutdown then .returned
  else .waits (left - min left opts.shutdownPoll)

def afterSend : WatchItem → WatchPoint
  | .ok _ => .resumes none
  | .error _ => .returned

end WatchPoint

/-- What a resume sees of `shutdown`, which the caller may set meanwhile. -/
inductive WatchCaller.Sees : WatchCaller → ImapMailboxWatchEnv → WatchCaller → Prop where
  | unset {env : ImapMailboxWatchEnv}
      (h : env.shutdown = false ∧ env.shutdownAfterIdle = false ∧ env.shutdownBefore = false) :
      Sees .watching env .watching
  | set {caller : WatchCaller} {env : ImapMailboxWatchEnv} (hc : caller ≠ .watching)
      (h : env.shutdown = true ∧ env.shutdownAfterIdle = true ∧ env.shutdownBefore = true) :
      Sees caller env caller
  | meanwhile {env : ImapMailboxWatchEnv} (h : env.shutdown = false ∧ env.shutdownBefore = true) :
      Sees .watching env .winding

theorem WatchCaller.Sees.winding {caller caller' : WatchCaller} {env : ImapMailboxWatchEnv}
    (h : caller.Sees env caller') (hc : caller = .winding) : caller' = .winding := by
  cases h with
  | unset => simp at hc
  | set => exact hc
  | meanwhile => rfl

/-- The stream is not closed in a resume. -/
theorem WatchCaller.Sees.closed {caller : WatchCaller} {env : ImapMailboxWatchEnv}
    (h : caller.Sees env .closed) : caller = .closed := by
  cases h
  rfl

namespace ImapMailboxWatchStream

variable {F : Type}

def shutdown (s : ImapMailboxWatchStream F) : Bool := s.caller ≠ .watching

/-- `watch_mailbox`, its worker about to start. -/
def spawn [Base64Codec] [TryFrom String Mailbox] (capability : List Capability) (mailbox : Mailbox)
    (opts : ImapMailboxWatchStreamOptions) (f : F) : ImapMailboxWatchStream F where
  watcher := Coroutine.start (.new capability mailbox ⟨opts.idleTimeout, opts.poll.isSome⟩) f
  point := .resumes none
  rx := .empty
  caller := .watching

section Step

variable [Fragmentizer F] [TryFrom Bytes Tag] [Encoder Command] [Encoder IdleDone] [Base64Codec]
  [TryFrom String Mailbox]

inductive Step (opts : ImapMailboxWatchStreamOptions) :
    ImapMailboxWatchStream F → WatchAct F → ImapMailboxWatchStream F → Prop where
  | resume {s : ImapMailboxWatchStream F} {due : Request} {arg : Option Bytes}
      {env : ImapMailboxWatchEnv} {caller : WatchCaller} {t : ImapMailboxWatch.Step F}
      (hp : s.point = .resumes arg) (hdue : s.watcher.due = some due)
      (hsees : s.caller.Sees env caller) (ht : t = imapMailboxWatch.turn s.watcher due arg env) :
      Step opts s (.resume t)
        { s with watcher := imapMailboxWatch.finish t, point := .after opts t.out, caller }
  | generate {s : ImapMailboxWatchStream F} (hp : s.point = .generates) (tag : Tag) :
      Step opts s (.generate tag) { s with point := .resumes (some tag.inner) }
  | read {s : ImapMailboxWatchStream F} (hp : s.point = .reads) (result : Except IoError Bytes) :
      Step opts s (.read result) { s with point := .afterRead s.shutdown result }
  | write {s : ImapMailboxWatchStream F} {bytes : Bytes} (hp : s.point = .writes bytes)
      (result : Except IoError Unit) : Step opts s (.write result) { s with point := .afterWrite result }
  | sleep {s : ImapMailboxWatchStream F} {left : Nat} (hp : s.point = .waits left) :
      Step opts s .sleep { s with point := .afterSleep opts s.shutdown left }
  | send {s : ImapMailboxWatchStream F} {item : WatchItem} {rx : SyncChannel WatchItem 256}
      (hp : s.point = .sends item) (hc : s.caller ≠ .closed) (hrx : s.rx.Sends item rx) :
      Step opts s (.send item) { s with point := .afterSend item, rx }
  | abandon {s : ImapMailboxWatchStream F} {item : WatchItem} (hp : s.point = .sends item)
      (hc : s.caller = .closed) : Step opts s .abandon { s with point := .returned }
  | receive {s : ImapMailboxWatchStream F} {item : WatchItem} {rx : SyncChannel WatchItem 256}
      (hc : s.caller = .watching) (hrx : s.rx.Receives item rx) :
      Step opts s (.receive item) { s with rx }
  | close {s : ImapMailboxWatchStream F} (hc : s.caller = .watching) :
      Step opts s .close { s with caller := .winding }
  | join {s : ImapMailboxWatchStream F} (hc : s.caller = .winding) (hp : s.point = .returned) :
      Step opts s .join { s with caller := .closed }

end Step
end ImapMailboxWatchStream

/-! ### What a run of both threads shows -/

theorem ImapMailboxWatch.eventsOf_append {F : Type} (es us : List (ImapMailboxWatch.Step F)) :
    eventsOf (es ++ us) = eventsOf es ++ eventsOf us :=
  List.filterMap_append

namespace WatchAct

variable {F : Type}

def turn? : WatchAct F → Option (ImapMailboxWatch.Step F)
  | .resume t => some t
  | _ => none

def received? : WatchAct F → Option WatchItem
  | .receive item => some item
  | _ => none

/-- The failure that an action of the worker ends the watch with. -/
def failure? : WatchAct F → Option (ImapClientError ImapMailboxWatchError)
  | .resume t =>
    match t.out with
    | .complete (.error err) => some (.coroutine err)
    | _ => none
  | .read (.ok []) => some (.io watchClosedConnection)
  | .read (.error err) =>
    match err.kind with
    | .wouldBlock | .timedOut => none
    | _ => some (.io err)
  | .write (.error err) => some (.io err)
  | _ => none

def turns (es : List (WatchAct F)) : List (ImapMailboxWatch.Step F) := es.filterMap turn?

def received (es : List (WatchAct F)) : List WatchItem := es.filterMap received?

def failures (es : List (WatchAct F)) : List (ImapClientError ImapMailboxWatchError) :=
  es.filterMap failure?

/-- What the worker has for the caller: the events of the watcher, then a failure if any. -/
def produced (es : List (WatchAct F)) : List WatchItem :=
  (ImapMailboxWatch.eventsOf (turns es)).map .ok ++ (failures es).map .error

/-- What one action of the worker adds to it. -/
def produces (act : WatchAct F) : List WatchItem :=
  (ImapMailboxWatch.eventsOf act.turn?.toList).map .ok ++ act.failure?.toList.map .error

theorem turns_concat (es : List (WatchAct F)) (act : WatchAct F) :
    turns (es ++ [act]) = turns es ++ act.turn?.toList := by
  rw [turns, List.filterMap_append]
  cases h : act.turn? <;> simp [turns, h]

theorem received_concat (es : List (WatchAct F)) (act : WatchAct F) :
    received (es ++ [act]) = received es ++ act.received?.toList := by
  rw [received, List.filterMap_append]
  cases h : act.received? <;> simp [received, h]

theorem failures_concat (es : List (WatchAct F)) (act : WatchAct F) :
    failures (es ++ [act]) = failures es ++ act.failure?.toList := by
  rw [failures, List.filterMap_append]
  cases h : act.failure? <;> simp [failures, h]

theorem produces_nil {act : WatchAct F} (hturn : act.turn? = none) (hfail : act.failure? = none) :
    act.produces = [] := by
  rw [produces, hturn, hfail]
  rfl

/-- A watcher that has failed is not resumed again. -/
theorem produced_concat {es : List (WatchAct F)} {act : WatchAct F}
    (h : failures es = [] ∨ act.turn? = none) :
    produced (es ++ [act]) = produced es ++ act.produces := by
  rw [produced, produced, produces, turns_concat, failures_concat, ImapMailboxWatch.eventsOf_append,
    List.map_append, List.map_append]
  rcases h with h | h
  · simp [h]
  · simp [h, ImapMailboxWatch.eventsOf]

theorem toOption_produced (es : List (WatchAct F)) :
    (produced es).filterMap Except.toOption = ImapMailboxWatch.eventsOf (turns es) := by
  rw [produced, List.filterMap_append, List.filterMap_map, List.filterMap_map]
  have hok : Except.toOption ∘ (Except.ok : _ → WatchItem) = some := rfl
  have herror : Except.toOption ∘ (Except.error : _ → WatchItem) = fun _ => none := rfl
  rw [hok, herror]
  simp

end WatchAct

namespace WatchPoint

/-- The worker goes on to resume the watcher. -/
def GoesOn : WatchPoint → Prop
  | .sends (.error _) => False
  | .returned => False
  | _ => True

variable {F : Type} (opts : ImapMailboxWatchStreamOptions)

theorem after_inFlight {t : ImapMailboxWatch.Step F} :
    (after opts t.out).inFlight = (WatchAct.resume t).produces := by
  rw [WatchAct.produces, WatchAct.turn?, WatchAct.failure?]
  rcases h : t.out with (- | - | - | bytes | event) | (err | ⟨⟩) <;>
    simp [after, inFlight, ImapMailboxWatch.eventsOf, ImapMailboxWatch.event?, h]

theorem afterRead_inFlight (shutdown : Bool) (result : Except IoError Bytes) :
    (afterRead shutdown result).inFlight = (WatchAct.read result : WatchAct F).produces := by
  rcases result with ⟨kind, message⟩ | (- | ⟨b, bs⟩)
  · cases kind <;> cases shutdown <;> rfl
  · rfl
  · rfl

theorem afterWrite_inFlight (result : Except IoError Unit) :
    (afterWrite result).inFlight = (WatchAct.write result : WatchAct F).produces := by
  cases result <;> rfl

theorem afterSleep_inFlight (shutdown : Bool) (left : Nat) :
    (afterSleep opts shutdown left).inFlight = [] := by
  unfold afterSleep
  split_ifs <;> rfl

theorem afterSend_inFlight (item : WatchItem) : (afterSend item).inFlight = [] := by
  cases item <;> rfl

theorem exists_sends {point : WatchPoint} (h : point.inFlight.length = 1) :
    ∃ item, point = .sends item := by
  cases point with
  | sends item => exact ⟨item, rfl⟩
  | _ => simp [inFlight] at h

/-- What fails is sent before the worker returns. -/
theorem not_goesOn_of_inFlight {point : WatchPoint} {act : WatchAct F} (hturn : act.turn? = none)
    (hflight : point.inFlight = act.produces) (hgoes : point.GoesOn) : act.failure? = none := by
  rw [WatchAct.produces, hturn] at hflight
  cases hf : act.failure? with
  | none => rfl
  | some err =>
    rw [hf] at hflight
    cases point with
    | sends item =>
      obtain rfl : item = .error err := by simpa [inFlight, ImapMailboxWatch.eventsOf] using hflight
      exact hgoes.elim
    | _ => simp [inFlight, ImapMailboxWatch.eventsOf] at hflight

end WatchPoint

namespace ImapMailboxWatchStream

open WatchAct ImapMailboxWatch

variable {F : Type}

/-- What is known of both threads after any of their actions. -/
structure Flows (es : List (WatchAct F)) (s : ImapMailboxWatchStream F) : Prop where
  ready : ReadyConfig s.watcher
  due : s.point.GoesOn → s.watcher.due.isSome
  sent : received es ++ s.rx.items ++ s.point.inFlight = produced es
  failed : s.point.GoesOn → failures es = []
  once : (failures es).length ≤ 1
  replays : ReplayState (turns es) s.watcher.state
  joined : s.caller = .closed → s.point = .returned

/-- An action that does not resume the watcher. -/
theorem Flows.aside {es : List (WatchAct F)} {s s' : ImapMailboxWatchStream F} {act : WatchAct F}
    (h : Flows es s) (hturn : act.turn? = none) (hw : s'.watcher = s.watcher)
    (hfails : act.failure?.isSome → s.point.GoesOn)
    (hsent : act.received?.toList ++ s'.rx.items ++ s'.point.inFlight =
      s.rx.items ++ s.point.inFlight ++ act.produces)
    (hgoes : s'.point.GoesOn → s.point.GoesOn ∧ act.failure? = none)
    (hjoined : s'.caller = .closed → s'.point = .returned) : Flows (es ++ [act]) s' := by
  have hturns : turns (es ++ [act]) = turns es := by rw [turns_concat, hturn]; simp
  refine ⟨hw ▸ h.ready, fun hg => hw ▸ h.due (hgoes hg).1, ?_, fun hg => ?_, ?_, ?_, hjoined⟩
  · rw [produced_concat (.inr hturn), received_concat, ← h.sent]
    simp only [List.append_assoc] at hsent ⊢
    rw [hsent]
  · obtain ⟨hpoint, hfail⟩ := hgoes hg
    rw [failures_concat, h.failed hpoint, hfail]
    rfl
  · rw [failures_concat]
    cases hf : act.failure? with
    | none => simpa using h.once
    | some err => simp [h.failed (hfails (by simp [hf]))]
  · rw [hturns, hw]
    exact h.replays

/-- What the worker does at a point where it goes on and has nothing to send. -/
theorem Flows.works {es : List (WatchAct F)} {s : ImapMailboxWatchStream F} {act : WatchAct F}
    {point : WatchPoint} (h : Flows es s) (hturn : act.turn? = none) (hreceived : act.received? = none)
    (hgoes : s.point.GoesOn) (hidle : s.point.inFlight = [])
    (hflight : point.inFlight = act.produces) : Flows (es ++ [act]) { s with point } := by
  refine h.aside hturn rfl (fun _ => hgoes) ?_ ?_ ?_
  · rw [hidle, hreceived, ← hflight]
    simp
  · exact fun hg => ⟨hgoes, WatchPoint.not_goesOn_of_inFlight hturn hflight hg⟩
  · intro hc
    -- only a worker that has returned is joined
    rw [h.joined hc] at hgoes
    exact hgoes.elim

section Run

variable [Fragmentizer F] [TryFrom Bytes Tag] [Encoder Command] [Encoder IdleDone]
  [LawfulEncoder Command] [LawfulEncoder IdleDone] [Base64Codec] [TryFrom String Mailbox]

/-- A resume with any answer, the sign of a read that timed out among them. -/
theorem turn_resumed {a : Config ImapMailboxWatch F} {due : Request} (ha : ReadyConfig a)
    (hdue : a.due = some due) (arg : Option Bytes) (env : ImapMailboxWatchEnv) :
    let t := imapMailboxWatch.turn a due arg env
    Resumed t.before t.frag t.env t.arg t.out t.after t.fragAfter t.log ∧
      ReadyConfig (imapMailboxWatch.finish t) := by
  intro t
  have hready := ha due hdue
  obtain ⟨out, w', f', events, he, hr⟩ := resume_spec hready a.frag [] arg env
  have ht : t = ⟨a.state, a.frag, due, arg, env, out, w', f', events⟩ := by
    simp only [t, Coroutine.turn, imapMailboxWatch, he, List.nil_append]
  rw [ht]
  refine ⟨hr, fun due' hd => ?_⟩
  obtain ⟨y, ho, rfl⟩ := Coroutine.finish_due hd
  obtain rfl : out = .yielded y := ho
  exact hr.ready hready

omit [Fragmentizer F] [TryFrom Bytes Tag] [Encoder IdleDone] [LawfulEncoder IdleDone] in
theorem flows_spawn (capability : List Capability) (mailbox : Mailbox)
    (opts : ImapMailboxWatchStreamOptions) (f : F) : Flows [] (spawn capability mailbox opts f) where
  ready := start_ready _ _ _ _
  due _ := rfl
  sent := rfl
  failed _ := rfl
  once := Nat.zero_le 1
  replays := ⟨fun _ => ⟨rfl, rfl⟩, [], .refl _⟩
  joined h := by simp [spawn] at h

section Step

variable {opts : ImapMailboxWatchStreamOptions} {es : List (WatchAct F)}
  {s s' : ImapMailboxWatchStream F} {act : WatchAct F}

theorem Flows.resume {due : Request} {arg : Option Bytes} {env : ImapMailboxWatchEnv}
    {caller : WatchCaller} {t : ImapMailboxWatch.Step F} (h : Flows es s)
    (hp : s.point = .resumes arg) (hdue : s.watcher.due = some due) (hsees : s.caller.Sees env caller)
    (ht : t = imapMailboxWatch.turn s.watcher due arg env) : Flows (es ++ [.resume t])
      { s with watcher := imapMailboxWatch.finish t, point := .after opts t.out, caller } := by
  have hgoes : s.point.GoesOn := by rw [hp]; trivial
  have hfailed := h.failed hgoes
  obtain ⟨hr, hready⟩ := turn_resumed h.ready hdue arg env
  rw [← ht] at hr hready
  have hreplays := h.replays
  have hbefore : s.watcher.state = t.before := by rw [ht]; rfl
  rw [hbefore] at hreplays
  have hnew : (WatchPoint.after opts t.out).GoesOn →
      (imapMailboxWatch.finish t).due.isSome ∧ (WatchAct.resume t).failure? = none := by
    rw [Coroutine.finish, WatchAct.failure?]
    rcases t.out with (- | - | - | bytes | event) | (err | ⟨⟩) <;>
      simp [WatchPoint.after, WatchPoint.GoesOn]
  have hsent := h.sent
  rw [hp] at hsent
  refine ⟨hready, fun hg => (hnew hg).1, ?_, fun hg => ?_, ?_, ?_, fun hclosed => ?_⟩
  · rw [produced_concat (.inl hfailed), received_concat, WatchPoint.after_inFlight, ← hsent]
    simp [received?, WatchPoint.inFlight]
  · rw [failures_concat, hfailed, (hnew hg).2]
    rfl
  · rw [failures_concat, hfailed]
    cases (WatchAct.resume t).failure? <;> simp
  · rw [turns_concat]
    exact hreplays.step hr
  · obtain rfl : caller = .closed := hclosed
    have hreturned := h.joined hsees.closed
    rw [hp] at hreturned
    cases hreturned

theorem Flows.step (h : Flows es s) (hs : Step opts s act s') : Flows (es ++ [act]) s' := by
  cases hs with
  | resume hp hdue hsees ht => exact h.resume hp hdue hsees ht
  | generate hp tag =>
    exact h.works rfl rfl (by rw [hp]; trivial) (by rw [hp]; rfl) (produces_nil rfl rfl).symm
  | read hp result =>
    exact h.works rfl rfl (by rw [hp]; trivial) (by rw [hp]; rfl)
      (WatchPoint.afterRead_inFlight s.shutdown result)
  | write hp result =>
    exact h.works rfl rfl (by rw [hp]; trivial) (by rw [hp]; rfl) (WatchPoint.afterWrite_inFlight result)
  | @sleep left hp =>
    have hafter := WatchPoint.afterSleep_inFlight opts s.shutdown left
    exact h.works rfl rfl (by rw [hp]; trivial) (by rw [hp]; rfl)
      (hafter.trans (produces_nil rfl rfl).symm)
  | @send item rx hp hc hrx =>
    have hflight : s.point.inFlight = [item] := by rw [hp]; rfl
    have hitems : rx.items = s.rx.items ++ [item] := hrx
    refine h.aside rfl rfl (by simp [failure?]) ?_ ?_ fun hclosed => absurd hclosed hc
    · rw [hflight, WatchPoint.afterSend_inFlight, produces_nil rfl rfl, hitems]
      simp [received?]
    · intro hg
      rw [hp]
      cases item with
      | ok event => exact ⟨trivial, rfl⟩
      | error err => exact hg.elim
  | abandon hp hc => simpa [hp] using h.joined hc
  | @receive item rx hc hrx =>
    have hitems : s.rx.items = item :: rx.items := hrx
    refine h.aside rfl rfl (by simp [failure?]) ?_ (fun hg => ⟨hg, rfl⟩) h.joined
    rw [hitems, produces_nil rfl rfl]
    simp [received?]
  | close hc =>
    refine h.aside rfl rfl (by simp [failure?]) ?_ (fun hg => ⟨hg, rfl⟩) (by simp)
    rw [produces_nil rfl rfl]
    simp [received?]
  | join hc hp =>
    refine h.aside rfl rfl (by simp [failure?]) ?_ (fun hg => ⟨hg, rfl⟩) (fun _ => hp)
    rw [produces_nil rfl rfl]
    simp [received?]

theorem flows {capability : List Capability} {mailbox : Mailbox} {f : F}
    (h : Run (Step opts) (spawn capability mailbox opts f) es s) : Flows es s :=
  Run.history (flows_spawn capability mailbox opts f) (fun _ _ _ _ hf hs => hf.step hs) h

end Step
end Run

/-! ### Schedules -/

/-- What the scheduler, the socket and the caller choose. -/
inductive Choice where
  | resume
  | generate (tag : Tag)
  | read (result : Except IoError Bytes)
  | write (result : Except IoError Unit)
  | send
  | receive
  | close
  | join

section Schedules

variable [Fragmentizer F] [TryFrom Bytes Tag] [Encoder Command] [Encoder IdleDone] [Base64Codec]
  [TryFrom String Mailbox] (opts : ImapMailboxWatchStreamOptions)

/-- The environment of a resume that the caller does not set `shutdown` in. -/
def seen (s : ImapMailboxWatchStream F) : ImapMailboxWatchEnv :=
  ⟨s.shutdown, s.shutdown, s.shutdown, (0, 0), (0, 0)⟩

/-- The action that a choice makes of a state, `none` where it is not enabled. -/
def perform (s : ImapMailboxWatchStream F) (choice : Choice) :
    Option (WatchAct F × ImapMailboxWatchStream F) :=
  match choice, s.point with
  | .resume, .resumes arg =>
    s.watcher.due.map fun due =>
      let t := imapMailboxWatch.turn s.watcher due arg s.seen
      (.resume t, { s with watcher := imapMailboxWatch.finish t, point := .after opts t.out })
  | .generate tag, .generates => some (.generate tag, { s with point := .resumes (some tag.inner) })
  | .read result, .reads => some (.read result, { s with point := .afterRead s.shutdown result })
  | .write result, .writes _ => some (.write result, { s with point := .afterWrite result })
  | .send, .sends item =>
    if h : s.caller ≠ .closed ∧ (s.rx.items ++ [item]).length ≤ 256 then
      some (.send item, { s with point := .afterSend item, rx := ⟨s.rx.items ++ [item], h.2⟩ })
    else none
  | .receive, _ =>
    if s.caller = .watching then
      match h : s.rx.items with
      | [] => none
      | item :: rest =>
        some (.receive item, { s with rx := ⟨rest, by have := s.rx.fits; grind⟩ })
    else none
  | .close, _ => if s.caller = .watching then some (.close, { s with caller := .winding }) else none
  | .join, .returned => if s.caller = .winding then some (.join, { s with caller := .closed }) else none
  | _, _ => none

theorem perform_step {s s' : ImapMailboxWatchStream F} {choice : Choice} {act : WatchAct F}
    (h : s.perform opts choice = some (act, s')) : Step opts s act s' := by
  unfold perform at h
  split at h
  · rename_i arg hp
    obtain ⟨due, hdue, he⟩ := Option.map_eq_some_iff.mp h
    obtain ⟨rfl, rfl⟩ := Prod.mk.inj he
    refine .resume hp hdue ?_ rfl
    by_cases hc : s.caller = .watching
    · rw [hc]
      exact .unset (by simp [seen, shutdown, hc])
    · exact .set hc (by simp [seen, shutdown, hc])
  · rename_i hp
    obtain ⟨rfl, rfl⟩ := Prod.mk.inj (Option.some.inj h)
    exact .generate hp _
  · rename_i hp
    obtain ⟨rfl, rfl⟩ := Prod.mk.inj (Option.some.inj h)
    exact .read hp _
  · rename_i hp
    obtain ⟨rfl, rfl⟩ := Prod.mk.inj (Option.some.inj h)
    exact .write hp _
  · rename_i item hp
    split at h
    · rename_i hroom
      obtain ⟨rfl, rfl⟩ := Prod.mk.inj (Option.some.inj h)
      exact .send hp hroom.1 rfl
    · simp at h
  · split at h
    · rename_i hc
      split at h
      · simp at h
      · rename_i item rest hitems
        obtain ⟨rfl, rfl⟩ := Prod.mk.inj (Option.some.inj h)
        exact .receive hc hitems
    · simp at h
  · split at h
    · rename_i hc
      obtain ⟨rfl, rfl⟩ := Prod.mk.inj (Option.some.inj h)
      exact .close hc
    · simp at h
  · rename_i hp
    split at h
    · rename_i hc
      obtain ⟨rfl, rfl⟩ := Prod.mk.inj (Option.some.inj h)
      exact .join hc hp
    · simp at h
  · simp at h

/-- The run of a schedule, `none` when one of its choices is not enabled. -/
def play (s : ImapMailboxWatchStream F) : List Choice → Option (List (WatchAct F) × ImapMailboxWatchStream F)
  | [] => some ([], s)
  | choice :: rest =>
    match s.perform opts choice with
    | none => none
    | some (act, s') => (play s' rest).map fun r => (act :: r.1, r.2)

theorem play_run {s s' : ImapMailboxWatchStream F} {choices : List Choice} {es : List (WatchAct F)}
    (h : s.play opts choices = some (es, s')) : Run (Step opts) s es s' := by
  induction choices generalizing s es with
  | nil =>
    obtain ⟨rfl, rfl⟩ := Prod.mk.inj (Option.some.inj h)
    exact .nil
  | cons choice rest ih =>
    rw [play] at h
    split at h
    · simp at h
    · rename_i act s₁ hp
      obtain ⟨⟨us, s₂⟩, hplay, he⟩ := Option.map_eq_some_iff.mp h
      obtain ⟨rfl, rfl⟩ := Prod.mk.inj he
      exact (Run.single (perform_step opts hp)).append (ih hplay)

end Schedules

/-! ### The two threads together -/

section Threads

variable [Fragmentizer F] [TryFrom Bytes Tag] [Encoder Command] [Encoder IdleDone]
  [LawfulEncoder Command] [LawfulEncoder IdleDone] [Base64Codec] [TryFrom String Mailbox]
  {opts : ImapMailboxWatchStreamOptions} {es : List (WatchAct F)} {s : ImapMailboxWatchStream F}
  {capability : List Capability} {mailbox : Mailbox} {f : F}

/-- In every interleaving the caller receives the events of the watcher in their order, each
once, and behind them the one failure that ended the watch, if any; what he has not received
is in the channel or about to be sent, and no send finds his end of the channel dropped. -/
theorem watch_stream_conserves (h : Run (Step opts) (spawn capability mailbox opts f) es s) :
    received es ++ s.rx.items ++ s.point.inFlight =
        (eventsOf (turns es)).map .ok ++ (failures es).map .error ∧
      (failures es).length ≤ 1 ∧ WatchAct.abandon ∉ es := by
  have hflows := flows h
  refine ⟨hflows.sent, hflows.once, ?_⟩
  have hall : Flows es s ∧ WatchAct.abandon ∉ es := by
    refine Run.history (P := fun es s => Flows es s ∧ WatchAct.abandon ∉ es) ?_ ?_ h
    · exact ⟨flows_spawn capability mailbox opts f, List.not_mem_nil⟩
    · intro es s act s' hx hs
      obtain ⟨hs₁, hnone⟩ := hx
      refine ⟨hs₁.step hs, fun hmem => ?_⟩
      rcases List.mem_append.mp hmem with hmem | hmem
      · exact hnone hmem
      · obtain rfl := List.mem_singleton.mp hmem
        cases hs with
        | abandon hp hc => simpa [hp] using hs₁.joined hc
  exact hall.2

/-- In every interleaving the events that the caller has received, those on their way to him
and those still pending replay the baseline to the shadow of the watcher, and none of them
is redundant where it is applied: reads that time out lose nothing. -/
theorem watch_stream_replays (h : Run (Step opts) (spawn capability mailbox opts f) es s) :
    let told := (received es ++ s.rx.items ++ s.point.inFlight).filterMap Except.toOption
    let changes := (told ++ s.watcher.state.pending).map ImapMailboxWatchEvent.change
    Replay.replay (baseline (turns es)).view changes = s.watcher.state.shadow.view ∧
      Replay.FreshAll (baseline (turns es)).view changes := by
  have hflows := flows h
  have htold : (received es ++ s.rx.items ++ s.point.inFlight).filterMap Except.toOption =
      eventsOf (turns es) := by rw [hflows.sent, toOption_produced]
  obtain ⟨as, hview, new, hnew, hchanges⟩ := hflows.replays.emits
  obtain rfl : eventsOf (turns es) ++ s.watcher.state.pending = new := hnew
  intro told changes
  have he : changes = Replay.emits (baseline (turns es)).view as := by
    rw [← hchanges, ← htold]
  rw [he]
  exact ⟨Replay.replay_emits.trans hview.symm, Replay.fresh_emits⟩

end Threads

section Concrete

open Concrete

def timedOut : IoError := ⟨.timedOut, "timed out"⟩

/-- A command that is asked for, written and answered. -/
def exchangeChoices (tag : String) (reads : List String) : List Choice :=
  [.generate ⟨ascii tag⟩, .resume, .write (.ok ()), .resume] ++
    reads.flatMap fun bytes => [.read (.ok (ascii bytes)), .resume]

/-- The mailbox of the schedule holds message 5, which is replaced by message 9; a read
times out, and the caller receives one of the two events before he closes the stream. -/
def replacedChoices : List Choice :=
  [.resume] ++ exchangeChoices "A1" ["* OK [UIDVALIDITY 7] ok\r\nA1 OK done\r\n"] ++
    exchangeChoices "A2" ["* 1 FETCH (UID 5 FLAGS ())\r\nA2 OK done\r\n"] ++
    exchangeChoices "A3" ["+ idling\r\n"] ++
    [.read (.error timedOut), .resume, .read (.ok (ascii "* 5 EXISTS\r\n")), .resume,
      .write (.ok ()), .resume, .read (.ok (ascii "A3 OK done\r\n")), .resume] ++
    exchangeChoices "A4" ["* OK [UIDVALIDITY 7] ok\r\nA4 OK done\r\n"] ++
    exchangeChoices "A5" ["* 1 FETCH (UID 9 FLAGS ())\r\nA5 OK done\r\n"] ++
    [.send, .resume, .receive, .close]

def playStream (choices : List Choice) :=
  (spawn [] .inbox {} (LineFragmentizer.empty : LineFragmentizer (decodeTable watchMessages))).play {} choices

theorem watch_stream_conserves_replaced : ∃ es s, playStream replacedChoices = some (es, s) ∧
    (received es).length = 1 ∧ s.point.inFlight.length = 1 ∧
    received es ++ s.rx.items ++ s.point.inFlight =
      (eventsOf (turns es)).map .ok ++ (failures es).map .error := by
  have hrun : (playStream replacedChoices).any (fun r =>
      decide ((received r.1).length = 1 ∧ r.2.point.inFlight.length = 1)) = true := by decide +kernel
  obtain ⟨⟨es, s⟩, hplay, hlength⟩ := (Option.any_eq_true _ _).mp hrun
  obtain ⟨hreceived, hflight⟩ := of_decide_eq_true hlength
  exact ⟨es, s, hplay, hreceived, hflight, (watch_stream_conserves (play_run _ hplay)).1⟩

theorem watch_stream_replays_replaced : ∃ es s, playStream replacedChoices = some (es, s) ∧
    (received es).length = 1 ∧
    Replay.replay (baseline (turns es)).view
      (((received es ++ s.rx.items ++ s.point.inFlight).filterMap Except.toOption ++
        s.watcher.state.pending).map ImapMailboxWatchEvent.change) = s.watcher.state.shadow.view := by
  have hrun : (playStream replacedChoices).any (fun r =>
      decide ((received r.1).length = 1)) = true := by decide +kernel
  obtain ⟨⟨es, s⟩, hplay, hlength⟩ := (Option.any_eq_true _ _).mp hrun
  exact ⟨es, s, hplay, of_decide_eq_true hlength, (watch_stream_replays (play_run _ hplay)).1⟩

end Concrete
end ImapMailboxWatchStream
end IoImap
