import IoImap.Codec.CommandEncoder
import IoImap.Rfc2177.IdleResume

/-!
# The octets IDLE is given

Every read belongs to the connection's fragmentizer. `State::Read` looks at the
flag and the timer before it takes its argument, and the DONE it then sends
writes before it takes one: a read that arrives with the end of the idling is
dropped, and only that one.
-/

namespace IoImap
open Fragmentizer Transition

namespace ImapIdle

variable {F : Type}

/-- The resume is given octets and finds that reading is over. -/
def Drops (t : Step F) : Prop :=
  (∃ tag, t.before.state = .read tag) ∧ t.before.stopping t.env = true ∧ t.answer ≠ []

instance (t : Step F) : Decidable (Drops t) :=
  have : Decidable (∃ tag, t.before.state = .read tag) :=
    match h : t.before.state with
    | .read tag => isTrue ⟨tag, rfl⟩
    | .idle _ => isFalse (by simp)
    | .done _ => isFalse (by simp)
  inferInstanceAs (Decidable (_ ∧ _))

section Feeding

variable {t : Step F}

/-- Outside of `State::Read`, and there while reading goes on, nothing is dropped. -/
theorem not_drops (hgo : ∀ tag, t.before.state = .read tag → t.before.stopping t.env = false) :
    ¬ Drops t := by
  intro hdrops
  obtain ⟨⟨tag, htag⟩, hstop, -⟩ := hdrops
  rw [hgo tag htag] at hstop
  exact Bool.false_ne_true hstop

variable [Fragmentizer F]

theorem feeds_idle {send send' : ImapSend Command} {out : ImapSendResult Command} {f' : F}
    (hs : t.before.Ready t.due) (hans : t.due.answeredBy t.arg = true)
    (hst : t.before.state = .idle send) {arg : Option Bytes} {log : List FragmentizerEvent}
    (ha : t.arg = arg) (hlog : t.log = log) (hr : send.Resumed t.frag arg out send' f' log) :
    t.fed = t.answer ↔ ¬ Drops t := by
  subst ha hlog
  have hex := hs.exchange
  rw [hst] at hex
  have hoctets := hr.fed hex.2 hans
  exact iff_of_true hoctets (not_drops (by simp [hst]))

theorem feeds_done {send send' : ImapSend IdleDone} {out : ImapSendResult IdleDone} {f' : F}
    (hs : t.before.Ready t.due) (hans : t.due.answeredBy t.arg = true)
    (hst : t.before.state = .done send) {arg : Option Bytes} {log : List FragmentizerEvent}
    (ha : t.arg = arg) (hlog : t.log = log) (hr : send.Resumed t.frag arg out send' f' log) :
    t.fed = t.answer ↔ ¬ Drops t := by
  subst ha hlog
  have hex := hs.exchange
  rw [hst] at hex
  have hoctets := hr.fed hex.2 hans
  exact iff_of_true hoctets (not_drops (by simp [hst]))

omit [Fragmentizer F] in
theorem answer_read {tag : Tag} {data : Bytes} (hs : t.before.Ready t.due)
    (hans : t.due.answeredBy t.arg = true) (hst : t.before.state = .read tag)
    (harg : t.arg = some data) (hne : data ≠ []) : t.answer = [data] := by
  have hex := hs.exchange
  simp only [hst] at hex
  rw [harg] at hans
  rw [Turn.answer, harg]
  rcases hex with hdue | hdue
  · simp [hdue, Request.answeredBy] at hans
  · rw [hdue]
    exact Request.octets_read hne

theorem fed_iff [Encoder IdleDone]
    (hr : Resumed t.before t.frag t.env t.arg t.out t.after t.fragAfter t.log)
    (hs : t.before.Ready t.due) (hans : t.due.answeredBy t.arg = true) :
    t.fed = t.answer ↔ ¬ Drops t := by
  generalize ha : t.arg = arg, ho : t.out = out, haft : t.after = after,
    hfr : t.fragAfter = fragAfter, hlog : t.log = log at hr
  have hfed : t.fed = log.filterMap FragmentizerEvent.bytes? := by rw [Turn.fed, hlog]
  have hanswer : t.answer = t.due.octets arg := by rw [Turn.answer, ha]
  cases hr with
  | idles hst hr => exact feeds_idle hs hans hst ha hlog hr
  | idleEnds hst hr => exact feeds_idle hs hans hst ha hlog hr
  | reports hst hr => exact feeds_idle hs hans hst ha hlog hr
  | enters hst hr => exact feeds_idle hs hans hst ha hlog hr
  | turnsBack hst hr => exact feeds_idle hs hans hst ha hlog hr
  | @stops arg tag hst hstop =>
    have hdrops : Drops t ↔ t.answer ≠ [] := by simp [Drops, hst, hstop]
    rw [hdrops, hfed, not_not, eq_comm]
    rfl
  | waits hst hgo =>
    have hnone : t.fed = t.answer := by
      rw [hfed, hanswer, Request.octets_none]
      rfl
    exact iff_of_true hnone (not_drops fun _ _ => hgo)
  | eof hst hgo =>
    have heof : t.fed = t.answer := by
      rw [hfed, hanswer, Request.octets_eof]
      rfl
    exact iff_of_true heof (not_drops fun _ _ => hgo)
  | refused hst hgo hne =>
    have hdata : t.fed = t.answer := by rw [Turn.fed_read hlog, answer_read hs hans hst ha hne]
    exact iff_of_true hdata (not_drops fun _ _ => hgo)
  | hears hst hgo hne =>
    have hdata : t.fed = t.answer := by rw [Turn.fed_read hlog, answer_read hs hans hst ha hne]
    exact iff_of_true hdata (not_drops fun _ _ => hgo)
  | finishes hst hr => exact feeds_done hs hans hst ha hlog hr
  | ends hst hr => exact feeds_done hs hans hst ha hlog hr
  | renews hst hr => exact feeds_done hs hans hst ha hlog hr

end Feeding

end ImapIdle

open ImapIdle

/-- In a run of IDLE every read is enqueued once and in order by the resume it
answers, exactly when no read arrives with the end of the idling. -/
theorem idle_enqueues_iff {F : Type} [Fragmentizer F] [TryFrom Bytes Tag] [Encoder Command]
    [Encoder IdleDone] [LawfulEncoder Command] [LawfulEncoder IdleDone] {opts : ImapIdleOptions}
    {f : F} {es : List (ImapIdle.Step F)} {b : Config ImapIdle F}
    (h : imapIdle.Runs (.new opts) f es b) :
    (∀ t ∈ es, t.fed = t.answer) ↔ ∀ t ∈ es, ¬ Drops t := by
  have hiff : ∀ t ∈ es, (t.fed = t.answer ↔ ¬ Drops t) := by
    refine Run.labels (I := fun a => ∀ due, a.due = some due → a.state.Ready due) ?_ ?_ h
    · intro due hdue
      obtain rfl : Request.nothing = due := by simpa [Coroutine.start] using hdue
      exact new_ready opts
    · intro a t b ha hstep
      obtain ⟨⟨hr, hs, hans⟩, -, -, hb⟩ := step_resumed ha hstep
      exact ⟨hb, fed_iff hr hs hans⟩
  exact forall₂_congr hiff

section Concrete

open Concrete

def idleMessages : List (Bytes × Response) :=
  [(ascii "+ idling\r\n", .commandContinuationRequest (.basic "idling")),
    (ascii "* 5 EXISTS\r\n", .data (.exists 5)),
    (ascii "A1 OK done\r\n", .status (.tagged ⟨⟨ascii "A1"⟩, ⟨.ok, none, "done"⟩⟩))]

def playIdling (args : List (Option Bytes × ImapIdleEnv)) :=
  imapIdle.play (Coroutine.start (.new ⟨none⟩)
    (LineFragmentizer.empty : LineFragmentizer (decodeTable idleMessages))) args

def idling (arg : Option Bytes) : Option Bytes × ImapIdleEnv := (arg, ⟨false, 0, 0⟩)

def windingDown (arg : Option Bytes) : Option Bytes × ImapIdleEnv := (arg, ⟨true, 0, 0⟩)

theorem idle_enqueues_exists : ∃ es b,
    playIdling [idling none, idling (some (ascii "A1")), idling none,
      idling (some (ascii "+ idling\r\n")), idling (some (ascii "* 5 EXISTS\r\n")),
      windingDown none, windingDown none, windingDown (some (ascii "A1 OK done\r\n"))] =
        some (es, b) ∧ ∀ t ∈ es, t.fed = t.answer := by
  have hrun : (playIdling [idling none, idling (some (ascii "A1")), idling none,
      idling (some (ascii "+ idling\r\n")), idling (some (ascii "* 5 EXISTS\r\n")),
      windingDown none, windingDown none, windingDown (some (ascii "A1 OK done\r\n"))]).any
        (fun r => decide (∀ t ∈ r.1, ¬ Drops t)) = true := by decide +kernel
  obtain ⟨⟨es, b⟩, hplay, hkeeps⟩ := (Option.any_eq_true _ _).mp hrun
  have hiff := idle_enqueues_iff (Coroutine.play_run _ hplay)
  exact ⟨es, b, hplay, hiff.mpr (of_decide_eq_true hkeeps)⟩

theorem idle_drops_exists :
    ¬ ∀ (es : List (ImapIdle.Step (LineFragmentizer (decodeTable idleMessages))))
        (b : Config ImapIdle (LineFragmentizer (decodeTable idleMessages))),
        imapIdle.Runs (.new ⟨none⟩) LineFragmentizer.empty es b → ∀ t ∈ es, t.fed = t.answer := by
  intro h
  have hrun : (playIdling [idling none, idling (some (ascii "A1")), idling none,
      idling (some (ascii "+ idling\r\n")), windingDown (some (ascii "* 5 EXISTS\r\n"))]).any
        (fun r => decide (¬ ∀ t ∈ r.1, t.fed = t.answer)) = true := by decide +kernel
  obtain ⟨⟨es, b⟩, hplay, hno⟩ := (Option.any_eq_true _ _).mp hrun
  exact of_decide_eq_true hno (h es b (Coroutine.play_run _ hplay))

end Concrete
end IoImap
