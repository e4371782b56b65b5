import IoImap.Codec.CommandEncoder
import IoImap.Rfc2177.IdleResume
import Mathlib.Data.List.DropRight

/-!
# The updates IDLE reports

Updates are collected by the exchange of IDLE, by the reading loop and by the
exchange of DONE. The first two hand them on in an event; what DONE collects,
and what was collected when the coroutine fails, is never reported.
-/

namespace IoImap
open Fragmentizer ServerMessage Transition

namespace ImapIdleEvent

def empty : ImapIdleEvent := ⟨[], []⟩

instance : Append ImapIdleEvent := ⟨fun a b => ⟨a.untagged ++ b.untagged, a.data ++ b.data⟩⟩

def ofMessages (ms : List ServerMessage) : ImapIdleEvent :=
  ⟨ms.filterMap untagged?, ms.filterMap data?⟩

def size (e : ImapIdleEvent) : Nat := e.untagged.length + e.data.length

theorem append_def (a b : ImapIdleEvent) : a ++ b = ⟨a.untagged ++ b.untagged, a.data ++ b.data⟩ :=
  rfl

@[simp] theorem append_empty (a : ImapIdleEvent) : a ++ empty = a := by
  simp [append_def, empty]

@[simp] theorem empty_append (a : ImapIdleEvent) : empty ++ a = a := rfl

theorem append_assoc (a b c : ImapIdleEvent) : a ++ b ++ c = a ++ (b ++ c) := by
  simp [append_def]

@[simp] theorem size_append (a b : ImapIdleEvent) : (a ++ b).size = a.size + b.size := by
  simp only [append_def, size, List.length_append]
  omega

theorem size_eq_zero {a : ImapIdleEvent} : a.size = 0 ↔ a = empty := by
  obtain ⟨u, d⟩ := a
  simp [size, empty]

end ImapIdleEvent

open ImapIdleEvent

namespace ImapIdle

variable {F : Type}

def news (t : Step F) : ImapIdleEvent := ofMessages t.completed

def report (t : Step F) : ImapIdleEvent :=
  match t.out with
  | .yielded (.event e) => e
  | _ => empty

def reports (t : Step F) : Bool :=
  match t.out with
  | .yielded (.event _) => true
  | _ => false

def inExchange (t : Step F) : Bool :=
  match t.before.state with
  | .idle _ => true
  | _ => false

def inDone (t : Step F) : Bool :=
  match t.before.state with
  | .done _ => true
  | _ => false

def reported (es : List (Step F)) : ImapIdleEvent := es.foldl (fun e t => e ++ report t) empty

def decoded (es : List (Step F)) : ImapIdleEvent := es.foldl (fun e t => e ++ news t) empty

def decodedInDone (es : List (Step F)) : ImapIdleEvent := decoded (es.filter inDone)

/-- The resumes since the last report. -/
def sinceReport (es : List (Step F)) : List (Step F) := es.rtakeWhile (!reports ·)

/-- The resumes of the exchange of IDLE that a history ends in, if it ends in one. -/
def exchanging (es : List (Step F)) : List (Step F) := es.rtakeWhile inExchange

/-- The updates decoded since the last report outside of DONE. -/
def unreported (es : List (Step F)) : ImapIdleEvent :=
  decoded ((sinceReport es).filter (!inDone ·))

def pending (b : Config ImapIdle F) : ImapIdleEvent :=
  match b.due, b.state.state with
  | some _, .idle send => ⟨send.untagged, send.data⟩
  | _, _ => empty

/-- Every update decoded so far is in exactly one report, in order, or still held. -/
def AllReported (es : List (Step F)) (b : Config ImapIdle F) : Prop :=
  reported es ++ pending b = decoded es

section Histories

variable (es : List (Step F)) {t : Step F}

theorem reported_concat : reported (es ++ [t]) = reported es ++ report t := by
  simp [reported, List.foldl_append]

theorem decoded_concat : decoded (es ++ [t]) = decoded es ++ news t := by
  simp [decoded, List.foldl_append]

theorem decoded_eq_empty {es : List (Step F)} : decoded es = empty ↔ ∀ t ∈ es, news t = empty := by
  induction es using List.reverseRecOn with
  | nil => simp [decoded]
  | append_singleton es t ih =>
    rw [decoded_concat, ← size_eq_zero, size_append, Nat.add_eq_zero_iff, size_eq_zero,
      size_eq_zero, ih]
    simp [or_imp, forall_and]

theorem decodedInDone_concat (h : inDone t = true) :
    decodedInDone (es ++ [t]) = decodedInDone es ++ news t := by
  rw [decodedInDone, List.filter_append, List.filter_singleton, h]
  exact decoded_concat _

theorem decodedInDone_concat_of_not (h : inDone t = false) :
    decodedInDone (es ++ [t]) = decodedInDone es := by
  rw [decodedInDone, List.filter_append, List.filter_singleton, h]
  simp [decodedInDone]

theorem unreported_reports (h : reports t = true) : unreported (es ++ [t]) = empty := by
  rw [unreported, sinceReport, List.rtakeWhile_concat_neg _ _ _ (by simp [h])]
  rfl

theorem unreported_concat (h : reports t = false) (hd : inDone t = false) :
    unreported (es ++ [t]) = unreported es ++ news t := by
  rw [unreported, sinceReport, List.rtakeWhile_concat_pos _ _ _ (by simp [h]), List.filter_append,
    List.filter_singleton, hd]
  exact decoded_concat _

theorem unreported_concat_of_done (h : reports t = false) (hd : inDone t = true) :
    unreported (es ++ [t]) = unreported es := by
  rw [unreported, sinceReport, List.rtakeWhile_concat_pos _ _ _ (by simp [h]), List.filter_append,
    List.filter_singleton, hd]
  simp [unreported, sinceReport]

theorem exchanging_concat (h : inExchange t = true) : exchanging (es ++ [t]) = exchanging es ++ [t] :=
  List.rtakeWhile_concat_pos _ _ _ h

theorem exchanging_concat_of_not (h : inExchange t = false) : exchanging (es ++ [t]) = [] :=
  List.rtakeWhile_concat_neg _ _ _ (by simp [h])

end Histories

/-! ### The account of a run -/

structure Accounts (es : List (Step F)) : Prop where
  size : (decoded es).size = (reported es).size + (decodedInDone es).size + (unreported es).size
  order : decodedInDone es = empty → decoded es = reported es ++ unreported es

/-- What the exchange of IDLE holds is unreported and was decoded by its resumes; between
the exchanges nothing is. -/
def Links (es : List (Step F)) (s : ImapIdle) : Prop :=
  match s.state with
  | .idle send =>
    unreported es = ⟨send.untagged, send.data⟩ ∧ unreported es = decoded (exchanging es)
  | _ => unreported es = empty

section Accounting

variable {es : List (Step F)} {t : Step F}

theorem report_of_not (hr : reports t = false) : report t = empty := by
  unfold reports at hr
  unfold report
  split <;> simp_all

theorem reports_ofYield {y : ImapYield} (h : t.out = .yielded (.ofYield y)) :
    reports t = false := by
  cases y <;> simp [reports, h, ImapIdleYield.ofYield]

theorem Accounts.collect (h : Accounts es) (hr : reports t = false) (hd : inDone t = false) :
    Accounts (es ++ [t]) := by
  have hsize := h.size
  constructor
  · rw [decoded_concat, reported_concat, decodedInDone_concat_of_not _ hd,
      unreported_concat _ hr hd, report_of_not hr]
    simp only [size_append, append_empty]
    omega
  · intro hlost
    rw [decodedInDone_concat_of_not _ hd] at hlost
    rw [decoded_concat, reported_concat, unreported_concat _ hr hd, report_of_not hr, h.order hlost,
      append_empty, append_assoc]

theorem Accounts.done (h : Accounts es) (hr : reports t = false) (hd : inDone t = true) :
    Accounts (es ++ [t]) := by
  have hsize := h.size
  constructor
  · rw [decoded_concat, reported_concat, decodedInDone_concat _ hd,
      unreported_concat_of_done _ hr hd, report_of_not hr]
    simp only [size_append, append_empty]
    omega
  · intro hlost
    rw [decodedInDone_concat _ hd, ← size_eq_zero, size_append, Nat.add_eq_zero_iff, size_eq_zero,
      size_eq_zero] at hlost
    rw [decoded_concat, reported_concat, unreported_concat_of_done _ hr hd, report_of_not hr,
      h.order hlost.1, hlost.2, append_empty, append_empty]

theorem Accounts.report (h : Accounts es) (hr : reports t = true) (hd : inDone t = false)
    (he : report t = unreported es ++ news t) : Accounts (es ++ [t]) := by
  have hsize := h.size
  constructor
  · rw [decoded_concat, reported_concat, decodedInDone_concat_of_not _ hd, unreported_reports _ hr,
      he]
    simp only [size_append, show empty.size = 0 from rfl]
    omega
  · intro hlost
    rw [decodedInDone_concat_of_not _ hd] at hlost
    rw [decoded_concat, reported_concat, unreported_reports _ hr, he, h.order hlost, append_empty,
      append_assoc]

theorem Accounts.settle (h : Accounts es) (hr : reports t = false) (hd : inDone t = false)
    (he : unreported es ++ news t = empty) :
    Accounts (es ++ [t]) ∧ unreported (es ++ [t]) = empty :=
  ⟨h.collect hr hd, by rw [unreported_concat _ hr hd, he]⟩

theorem Accounts.settle_done (h : Accounts es) (hr : reports t = false) (hd : inDone t = true)
    (he : unreported es = empty) : Accounts (es ++ [t]) ∧ unreported (es ++ [t]) = empty :=
  ⟨h.done hr hd, by rw [unreported_concat_of_done _ hr hd, he]⟩

theorem Links.idle {send : ImapSend Command} (hl : Links es t.before)
    (hst : t.before.state = .idle send) :
    unreported es = ⟨send.untagged, send.data⟩ ∧ inDone t = false := by
  simp only [Links, hst] at hl
  exact ⟨hl.1, by simp [inDone, hst]⟩

theorem Links.read {tag : Tag} (hl : Links es t.before) (hst : t.before.state = .read tag) :
    unreported es = empty ∧ inDone t = false := by
  simp only [Links, hst] at hl
  exact ⟨hl, by simp [inDone, hst]⟩

theorem Links.done {send : ImapSend IdleDone} (hl : Links es t.before)
    (hst : t.before.state = .done send) : unreported es = empty ∧ inDone t = true := by
  simp only [Links, hst] at hl
  exact ⟨hl, by simp [inDone, hst]⟩

theorem news_silent (h : t.log = []) : news t = empty := by
  rw [news, Turn.completed_silent h]
  rfl

/-- What the last resume leaves unreported: what it decoded, and what the exchange of IDLE
decoded in front of it. -/
theorem unreported_last (hl : Links es t.before) (hr : reports t = false)
    (hdone : inDone t = true → news t = empty) : unreported (es ++ [t]) = empty ↔
      news t = empty ∧ ∀ u ∈ exchanging (es ++ [t]), news u = empty := by
  cases hst : t.before.state with
  | idle send =>
    have hidle : inExchange t = true := by simp [inExchange, hst]
    simp only [Links, hst] at hl
    rw [unreported_concat _ hr (by simp [inDone, hst]), hl.2, ← decoded_concat,
      exchanging_concat _ hidle, decoded_eq_empty]
    exact ⟨fun h => ⟨h t (by simp), h⟩, And.right⟩
  | read tag =>
    obtain ⟨hu, hd⟩ := hl.read hst
    rw [unreported_concat _ hr hd, hu, exchanging_concat_of_not _ (by simp [inExchange, hst])]
    simp
  | done send =>
    obtain ⟨hu, hd⟩ := hl.done hst
    rw [unreported_concat_of_done _ hr hd, exchanging_concat_of_not _ (by simp [inExchange, hst])]
    simp [hu, hdone hd]

variable [Fragmentizer F]

/-- What an exchange holds after a resume, when it held what came since the last report. -/
theorem collects_news {M : Type} {s s' : ImapSend M} {arg : Option Bytes}
    {out : ImapSendResult M} {f' : F}
    (hr : s.Resumed t.frag arg out s' f' t.log) (ho : ∀ err, out ≠ .complete (.error err))
    (hu : unreported es = ⟨s.untagged, s.data⟩) :
    unreported es ++ news t = ⟨s'.untagged, s'.data⟩ := by
  obtain ⟨hdata, huntagged⟩ := hr.collected ho
  rw [hu, hdata, huntagged]
  rfl

/-- The output of an exchange is what the exchange held. -/
theorem exchange_quiet {send send' : ImapSend Command} {arg : Option Bytes}
    {out : ImapSendOutput Command} {f' : F}
    (hr : send.Resumed t.frag arg (.complete (.ok out)) send' f' t.log)
    (hu : unreported es = ⟨send.untagged, send.data⟩) (hq : out.data = [] ∧ out.untagged = []) :
    unreported es ++ news t = empty := by
  obtain ⟨sent, -, rfl, -⟩ := hr.succeeds
  rw [collects_news hr (by simp) hu]
  exact congrArg₂ ImapIdleEvent.mk hq.2 hq.1

theorem accounts_step [Encoder IdleDone]
    (hr : Resumed t.before t.frag t.env t.arg t.out t.after t.fragAfter t.log)
    (h : Accounts es) (hl : Links es t.before) :
    Accounts (es ++ [t]) ∧ ∀ y, t.out = .yielded y → Links (es ++ [t]) t.after := by
  generalize ha : t.arg = arg, ho : t.out = out, haft : t.after = after,
    hfr : t.fragAfter = fragAfter, hlog : t.log = log at hr
  cases hr with
  | idles hst hr =>
    obtain ⟨hu, hd⟩ := hl.idle hst
    have hrep := reports_ofYield ho
    have hidle : inExchange t = true := by simp [inExchange, hst]
    simp only [Links, hst] at hl
    refine ⟨h.collect hrep hd, fun _ _ => ?_⟩
    show unreported (es ++ [t]) = _ ∧ unreported (es ++ [t]) = _
    constructor
    · rw [unreported_concat _ hrep hd]
      exact collects_news (hlog ▸ hr) (by simp) hu
    · rw [unreported_concat _ hrep hd, exchanging_concat _ hidle, decoded_concat, hl.2]
  | idleEnds hst hr =>
    exact ⟨h.collect (by simp [reports, ho]) (hl.idle hst).2, by simp⟩
  | reports hst hr hout hnews =>
    obtain ⟨hu, hd⟩ := hl.idle hst
    obtain ⟨sent, -, rfl, -⟩ := hr.succeeds
    have hrep : reports t = true := by simp [reports, ho]
    refine ⟨h.report hrep hd ?_, fun _ _ => unreported_reports _ hrep⟩
    rw [collects_news (hlog ▸ hr) (by simp) hu, report, ho]
    rfl
  | enters hst hr hout hquiet hgo =>
    have hnews := exchange_quiet (hlog ▸ hr) (hl.idle hst).1 hquiet
    obtain ⟨hacc, hun⟩ := h.settle (by simp [reports, ho]) (hl.idle hst).2 hnews
    exact ⟨hacc, fun _ _ => hun⟩
  | turnsBack hst hr hout hquiet hstop =>
    have hnews := exchange_quiet (hlog ▸ hr) (hl.idle hst).1 hquiet
    obtain ⟨hacc, hun⟩ := h.settle (by simp [reports, ho]) (hl.idle hst).2 hnews
    exact ⟨hacc, fun _ _ => hun⟩
  | stops hst hstop =>
    obtain ⟨hu, hd⟩ := hl.read hst
    obtain ⟨hacc, hun⟩ := h.settle (by simp [reports, ho]) hd (by rw [hu, news_silent hlog]; rfl)
    exact ⟨hacc, fun _ _ => hun⟩
  | waits hst hgo =>
    obtain ⟨hu, hd⟩ := hl.read hst
    obtain ⟨hacc, hun⟩ := h.settle (by simp [reports, ho]) hd (by rw [hu, news_silent hlog]; rfl)
    exact ⟨hacc, fun _ _ => hun⟩
  | eof hst hgo => exact ⟨h.collect (by simp [reports, ho]) (hl.read hst).2, by simp⟩
  | refused hst hgo hne hms hpre hm =>
    exact ⟨h.collect (by simp [reports, ho]) (hl.read hst).2, by simp⟩
  | hears hst hgo hne hms =>
    obtain ⟨hu, hd⟩ := hl.read hst
    have hrep : reports t = true := by simp [reports, ho]
    refine ⟨h.report hrep hd ?_, fun _ _ => unreported_reports _ hrep⟩
    rw [hu, empty_append, report, ho, news, Turn.completed_read hlog]
    rfl
  | finishes hst hr =>
    obtain ⟨hu, hd⟩ := hl.done hst
    obtain ⟨hacc, hun⟩ := h.settle_done (reports_ofYield ho) hd hu
    exact ⟨hacc, fun _ _ => hun⟩
  | ends hst hr hok =>
    exact ⟨h.done (by simp [reports, ho]) (hl.done hst).2, by simp⟩
  | renews hst hr hout hexpired =>
    obtain ⟨hu, hd⟩ := hl.done hst
    obtain ⟨hacc, hun⟩ := h.settle_done (by simp [reports, ho]) hd hu
    have hidle : inExchange t = false := by simp [inExchange, hst]
    refine ⟨hacc, fun _ _ => ⟨hun, ?_⟩⟩
    rw [hun, exchanging_concat_of_not _ hidle]
    rfl

end Accounting

def DoneQuiet (es : List (Step F)) : Prop := ∀ t ∈ es, inDone t = true → news t = empty

/-- No update is decoded by the last resume, nor by the exchange of IDLE that the history ends
in, if it ends in one. -/
def EndsQuiet (es : List (Step F)) : Prop :=
  (∀ t ∈ es.getLast?, news t = empty) ∧ ∀ t ∈ exchanging es, news t = empty

/-- No update is decoded by the exchange of DONE, nor by what a run ends with. -/
def Quiet (es : List (Step F)) (b : Config ImapIdle F) : Prop :=
  DoneQuiet es ∧ (b.due = none → EndsQuiet es)

theorem decodedInDone_eq_empty {es : List (Step F)} :
    decodedInDone es = empty ↔ DoneQuiet es := by
  rw [decodedInDone, decoded_eq_empty]
  simp [DoneQuiet, List.mem_filter]

theorem Accounts.allReported_iff {es : List (Step F)} {b : Config ImapIdle F} (h : Accounts es)
    (hl : ∀ due, b.due = some due → Links es b.state)
    (hend : b.due = none → DoneQuiet es → (unreported es = empty ↔ EndsQuiet es)) :
    AllReported es b ↔ Quiet es b := by
  have hsize := h.size
  have hpending : (b.due = none ∧ pending b = empty) ∨
      ((∃ due, b.due = some due) ∧ pending b = unreported es) := by
    cases hdue : b.due with
    | none => exact .inl ⟨rfl, by simp [pending, hdue]⟩
    | some due =>
      have hlink := hl due hdue
      refine .inr ⟨⟨due, rfl⟩, ?_⟩
      unfold Links at hlink
      unfold pending
      split at hlink
      · rename_i send hst
        rw [hdue, hst, hlink.1]
      · rename_i hst
        rw [hlink, hdue]
        split
        · rename_i send _ hst'
          exact absurd hst' (hst send)
        · rfl
  rcases hpending with ⟨hdue, hp⟩ | ⟨⟨due, hdue⟩, hp⟩
  · simp only [AllReported, Quiet, hp, append_empty, hdue, forall_const]
    constructor
    · intro he
      rw [← he] at hsize
      have hlost : decodedInDone es = empty := size_eq_zero.mp (by omega)
      have hun : unreported es = empty := size_eq_zero.mp (by omega)
      have hdone := decodedInDone_eq_empty.mp hlost
      exact ⟨hdone, (hend hdue hdone).mp hun⟩
    · intro hx
      obtain ⟨hdone, hun⟩ := hx
      rw [h.order (decodedInDone_eq_empty.mpr hdone), (hend hdue hdone).mpr hun, append_empty]
  · simp only [AllReported, Quiet, hp, hdue, reduceCtorEq, false_implies, and_true]
    constructor
    · intro he
      rw [← he, size_append] at hsize
      exact decodedInDone_eq_empty.mp (size_eq_zero.mp (by omega))
    · intro hdone
      rw [h.order (decodedInDone_eq_empty.mpr hdone)]

end ImapIdle

open ImapIdle

/-- In a run of IDLE every update decoded is in exactly one report, in order, exactly when
none is decoded by an exchange of DONE and none by what ends the run. -/
theorem idle_reports_iff_quiet {F : Type} [Fragmentizer F] [TryFrom Bytes Tag] [Encoder Command]
    [Encoder IdleDone] [LawfulEncoder Command] [LawfulEncoder IdleDone] {opts : ImapIdleOptions}
    {f : F} {es : List (ImapIdle.Step F)} {b : Config ImapIdle F}
    (h : imapIdle.Runs (.new opts) f es b) : AllReported es b ↔ Quiet es b := by
  have hrun : Accounts es ∧ (∀ due, b.due = some due → b.state.Ready due ∧ Links es b.state) ∧
      (b.due = none → DoneQuiet es → (unreported es = empty ↔ EndsQuiet es)) := by
    refine Run.history (P := fun es a => Accounts es ∧
      (∀ due, a.due = some due → a.state.Ready due ∧ Links es a.state) ∧
      (a.due = none → DoneQuiet es → (unreported es = empty ↔ EndsQuiet es))) ?_ ?_ h
    · refine ⟨⟨rfl, fun _ => rfl⟩, fun due hdue => ?_, by simp [Coroutine.start]⟩
      obtain rfl : Request.nothing = due := by simpa [Coroutine.start] using hdue
      exact ⟨new_ready opts, rfl, rfl⟩
    · intro es a t b hx hstep
      obtain ⟨hacc, ha, -⟩ := hx
      obtain ⟨⟨hr, -, -⟩, hbefore, rfl, hb⟩ := step_resumed (fun due hd => (ha due hd).1) hstep
      obtain ⟨due, hdue⟩ := hstep.exists_due
      have hlink := (ha due hdue).2
      rw [← hbefore] at hlink
      obtain ⟨hacc', hl'⟩ := accounts_step hr hacc hlink
      refine ⟨hacc', fun due' hd => ⟨hb due' hd, ?_⟩, fun hnone hdone => ?_⟩
      · obtain ⟨y, ho, -⟩ := Coroutine.finish_due hd
        exact hl' y ho
      · have hmute : reports t = false := by
          rcases ho : t.out with y | r
          · simp [Coroutine.finish, ho] at hnone
          · simp [reports, ho]
        rw [unreported_last hlink hmute (hdone t (by simp))]
        simp [EndsQuiet]
  exact hrun.1.allReported_iff (fun due hdue => (hrun.2.1 due hdue).2) hrun.2.2

section Concrete

open Concrete

def idleUpdates : List (Bytes × Response) :=
  [(ascii "+ idling\r\n", .commandContinuationRequest (.basic "idling")),
    (ascii "* 5 EXISTS\r\n", .data (.exists 5)),
    (ascii "A1 OK done\r\n", .status (.tagged ⟨⟨ascii "A1"⟩, ⟨.ok, none, "done"⟩⟩))]

def playUpdates (idling finishing : Bytes) :=
  imapIdle.play (Coroutine.start (.new ⟨none⟩)
    (LineFragmentizer.empty : LineFragmentizer (decodeTable idleUpdates)))
    ([none, some (ascii "A1"), none, some idling].map (fun arg => (arg, ⟨false, 0, 0⟩)) ++
      [none, none, some finishing].map (fun arg => (arg, ⟨true, 0, 0⟩)))

instance (es : List (ImapIdle.Step (LineFragmentizer (decodeTable idleUpdates))))
    (b : Config ImapIdle (LineFragmentizer (decodeTable idleUpdates))) : Decidable (Quiet es b) :=
  inferInstanceAs (Decidable ((∀ t ∈ es, _ → _) ∧ (_ → _ ∧ _)))

instance (es : List (ImapIdle.Step (LineFragmentizer (decodeTable idleUpdates))))
    (b : Config ImapIdle (LineFragmentizer (decodeTable idleUpdates))) :
    Decidable (AllReported es b) :=
  inferInstanceAs (Decidable (_ = _))

theorem idle_reports_piggyback : ∃ es b,
    playUpdates (ascii "+ idling\r\n* 5 EXISTS\r\n") (ascii "A1 OK done\r\n") = some (es, b) ∧
      AllReported es b := by
  have hrun : (playUpdates (ascii "+ idling\r\n* 5 EXISTS\r\n") (ascii "A1 OK done\r\n")).any
      (fun r => decide (Quiet r.1 r.2)) = true := by decide +kernel
  obtain ⟨⟨es, b⟩, hplay, hquiet⟩ := (Option.any_eq_true _ _).mp hrun
  have hiff := idle_reports_iff_quiet (Coroutine.play_run _ hplay)
  exact ⟨es, b, hplay, hiff.mpr (of_decide_eq_true hquiet)⟩

theorem idle_loses_exists :
    ¬ ∀ (es : List (ImapIdle.Step (LineFragmentizer (decodeTable idleUpdates))))
        (b : Config ImapIdle (LineFragmentizer (decodeTable idleUpdates))),
        imapIdle.Runs (.new ⟨none⟩) LineFragmentizer.empty es b → AllReported es b := by
  intro h
  have hrun : (playUpdates (ascii "+ idling\r\n* 5 EXISTS\r\n")
      (ascii "* 5 EXISTS\r\nA1 OK done\r\n")).any
      (fun r => decide (¬ AllReported r.1 r.2)) = true := by decide +kernel
  obtain ⟨⟨es, b⟩, hplay, hno⟩ := (Option.any_eq_true _ _).mp hrun
  exact of_decide_eq_true hno (h es b (Coroutine.play_run _ hplay))

end Concrete
end IoImap
