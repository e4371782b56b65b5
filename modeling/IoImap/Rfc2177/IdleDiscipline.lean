import IoImap.Rfc2177.IdleExchanges
import IoImap.Rfc2177.IdleOctets
import Mathlib.Data.List.DropRight

/-!
# The discipline of IDLE

IDLE and DONE take turns, DONE behind the continuation and IDLE behind the tagged OK.
Shutdown and refresh share the exchange of DONE, and which of them it was is not
remembered: what follows the tagged OK is decided by the clock alone.
-/

namespace IoImap
open Fragmentizer ServerMessage Transition

namespace ImapIdle

variable {F : Type}

/-! ### What is written -/

inductive Said where
  | idle (tag : Tag)
  | done
  deriving DecidableEq

def Said.octets [Encoder Command] [Encoder IdleDone] : Said → Bytes
  | .idle tag => Encoder.octets (⟨tag, .idle⟩ : Command)
  | .done => Encoder.octets IdleDone.idleDone

def Said.tag? : Said → Option Tag
  | .idle tag => some tag
  | .done => none

/-- The message a resume writes. -/
def said? [TryFrom Bytes Tag] (t : Step F) : Option Said :=
  match t.out, t.before.state with
  | .yielded (.wantsWrite _), .idle send =>
    match send.tag? with
    | none =>
      (t.arg.bind fun bytes => (TryFrom.tryFrom bytes : Except ValidationError Tag).toOption).map .idle
    | some _ => some .done
  | .yielded (.wantsWrite _), .read _ => some .done
  | _, _ => none

section Histories

variable [TryFrom Bytes Tag]

def messagesSaid (es : List (Step F)) : List Said := es.filterMap said?

def lastTag? (es : List (Step F)) : Option Tag := lastSome Said.tag? (messagesSaid es)

/-- What was decoded since the last message was written. -/
def answers (es : List (Step F)) : List ServerMessage :=
  (es.rtakeWhile fun t => (said? t).isNone).flatMap Turn.completed

/-- DONE is written because the flag was found set. -/
def SeesDone (t : Step F) : Prop := t.env.done = true ∧ said? t = some .done

instance (t : Step F) : Decidable (SeesDone t) := inferInstanceAs (Decidable (_ ∧ _))

/-- The octets of a write are those of the message whose turn it is. -/
def InTurn [Encoder Command] [Encoder IdleDone] (es : List (Step F)) (t : Step F) : Prop :=
  ∀ bytes, t.out = .yielded (.wantsWrite bytes) →
    ∃ x, said? t = some x ∧ bytes = x.octets ∧ (x.tag?.isSome ↔ (messagesSaid es).length % 2 = 0)

/-- A resume behind the resumes `es` keeps to the discipline. -/
structure KeepsDiscipline [Encoder Command] [Encoder IdleDone] (es : List (Step F)) (t : Step F) :
    Prop where
  inTurn : InTurn es t
  done : said? t = some .done → ∃ m ∈ answers es ++ t.completed, m.cr?.isSome
  idle : ∀ tag, said? t = some (.idle tag) → messagesSaid es = [] ∨
    ∃ last, lastTag? es = some last ∧
      ∃ m ∈ answers es, ∃ tagged, m.ownTagged? last = some tagged ∧ tagged.body.kind = .ok
  stops : (∃ u ∈ es, SeesDone u) → (∀ tag, said? t ≠ some (.idle tag)) ∧
    ∀ last, lastTag? es = some last → (∃ m ∈ t.completed, (m.ownTagged? last).isSome) →
      ∃ r, t.out = .complete r

/-- The read brings the tagged OK of DONE: it fails nothing and announces no BYE. -/
def BringsOk [Fragmentizer F] (t : Step F) (send : ImapSend IdleDone) : Prop :=
  ImapSend.Accepted t.received ∧ lastSome bye? t.received = none ∧
    ∃ tag ∈ send.tag?, ∃ tagged ∈ lastSome (·.ownTagged? tag) t.received, tagged.body.kind = .ok

/-- Once the flag was found set, the refresh timer has not expired when DONE is answered. -/
def InTime [Fragmentizer F] (es : List (Step F)) (t : Step F) : Prop :=
  (∃ u ∈ es, SeesDone u) → ∀ send ∈ t.before.doneSend?, BringsOk t send →
    t.before.expired t.env = false

end Histories

section Decidable

variable [Fragmentizer F]

instance (t : Step F) (send : ImapSend IdleDone) : Decidable (BringsOk t send) :=
  inferInstanceAs (Decidable (ImapSend.Accepted t.received ∧ lastSome bye? t.received = none ∧
    ∃ tag ∈ send.tag?, ∃ tagged ∈ lastSome (·.ownTagged? tag) t.received, tagged.body.kind = .ok))

instance [TryFrom Bytes Tag] (es : List (Step F)) (t : Step F) : Decidable (InTime es t) :=
  inferInstanceAs (Decidable ((∃ u ∈ es, SeesDone u) → ∀ send ∈ t.before.doneSend?,
    BringsOk t send → t.before.expired t.env = false))

end Decidable

/-! ### Histories -/

section Concat

variable [TryFrom Bytes Tag] {es : List (Step F)} {t : Step F}

theorem messagesSaid_silent (h : said? t = none) : messagesSaid (es ++ [t]) = messagesSaid es := by
  simp [messagesSaid, h]

theorem messagesSaid_said {x : Said} (h : said? t = some x) :
    messagesSaid (es ++ [t]) = messagesSaid es ++ [x] := by
  simp [messagesSaid, h]

theorem answers_silent (h : said? t = none) : answers (es ++ [t]) = answers es ++ t.completed := by
  rw [answers, List.rtakeWhile_concat_pos _ _ _ (by simp [h]), List.flatMap_append,
    List.flatMap_singleton]
  rfl

theorem lastTag?_silent (h : said? t = none) : lastTag? (es ++ [t]) = lastTag? es := by
  rw [lastTag?, messagesSaid_silent h]
  rfl

theorem lastTag?_idle {tag : Tag} (h : said? t = some (.idle tag)) :
    lastTag? (es ++ [t]) = some tag := by
  rw [lastTag?, messagesSaid_said h, lastSome_concat]
  rfl

theorem lastTag?_done (h : said? t = some .done) : lastTag? (es ++ [t]) = lastTag? es := by
  rw [lastTag?, messagesSaid_said h, lastSome_concat]
  rfl

theorem seesDone_concat :
    (∃ u ∈ es ++ [t], SeesDone u) ↔ (∃ u ∈ es, SeesDone u) ∨ SeesDone t := by
  simp [or_and_right, exists_or]

end Concat

/-! ### Between two resumes -/

section Invariant

variable [TryFrom Bytes Tag]

/-- The last IDLE was answered with a tagged OK. -/
def Ended (es : List (Step F)) : Prop :=
  ∃ last, lastTag? es = some last ∧
    ∃ m ∈ answers es, ∃ tagged, m.ownTagged? last = some tagged ∧ tagged.body.kind = .ok

/-- Where the conversation stands between two resumes. -/
def Stands (es : List (Step F)) (s : ImapIdle) : Prop :=
  match s.state with
  | .idle send =>
    (¬ ∃ u ∈ es, SeesDone u) ∧
      match send.tag? with
      | none => (messagesSaid es).length % 2 = 0 ∧ (messagesSaid es = [] ∨ Ended es)
      | some tag => (messagesSaid es).length % 2 = 1 ∧ lastTag? es = some tag
  | .read tag =>
    (¬ ∃ u ∈ es, SeesDone u) ∧ (messagesSaid es).length % 2 = 1 ∧ lastTag? es = some tag ∧
      ∃ m ∈ answers es, m.cr?.isSome
  | .done send => (messagesSaid es).length % 2 = 0 ∧ lastTag? es = send.tag?

variable {es : List (Step F)} {t : Step F} {s : ImapIdle} {tag : Tag}

theorem stands_unwritten {send : ImapSend Command} (hst : s.state = .idle send)
    (htag : send.tag? = none) : Stands es s ↔
      (¬ ∃ u ∈ es, SeesDone u) ∧ (messagesSaid es).length % 2 = 0 ∧
        (messagesSaid es = [] ∨ Ended es) := by
  simp only [Stands, hst, htag]

theorem stands_listening {send : ImapSend Command} (hst : s.state = .idle send)
    (htag : send.tag? = some tag) : Stands es s ↔
      (¬ ∃ u ∈ es, SeesDone u) ∧ (messagesSaid es).length % 2 = 1 ∧ lastTag? es = some tag := by
  simp only [Stands, hst, htag]

theorem stands_reading (hst : s.state = .read tag) : Stands es s ↔
    (¬ ∃ u ∈ es, SeesDone u) ∧ (messagesSaid es).length % 2 = 1 ∧ lastTag? es = some tag ∧
      ∃ m ∈ answers es, m.cr?.isSome := by
  simp only [Stands, hst]

theorem stands_done {send : ImapSend IdleDone} (hst : s.state = .done send) : Stands es s ↔
    (messagesSaid es).length % 2 = 0 ∧ lastTag? es = send.tag? := by
  simp only [Stands, hst]

theorem Ended.silent (h : Ended es) (hsaid : said? t = none) : Ended (es ++ [t]) := by
  obtain ⟨last, hlast, m, hm, hok⟩ := h
  refine ⟨last, by rw [lastTag?_silent hsaid, hlast], m, ?_, hok⟩
  rw [answers_silent hsaid]
  exact List.mem_append_left _ hm

theorem not_seesDone_silent (h : ¬ ∃ u ∈ es, SeesDone u) (hsaid : said? t ≠ some .done) :
    ¬ ∃ u ∈ es ++ [t], SeesDone u := by
  rw [seesDone_concat]
  rintro (hsees | hsees)
  · exact h hsees
  · exact hsaid hsees.2

variable [Encoder Command] [Encoder IdleDone]

theorem keeps_silent (hsaid : said? t = none) (hout : ∀ bytes, t.out ≠ .yielded (.wantsWrite bytes))
    (hstops : (∃ u ∈ es, SeesDone u) → ∀ last, lastTag? es = some last →
      (∃ m ∈ t.completed, (m.ownTagged? last).isSome) → ∃ r, t.out = .complete r) :
    KeepsDiscipline es t :=
  ⟨fun bytes hbytes => absurd hbytes (hout bytes), by simp [hsaid], by simp [hsaid],
    fun hsees => ⟨by simp [hsaid], hstops hsees⟩⟩

theorem keeps_completes {r : Except ImapIdleError Unit} (ho : t.out = .complete r) :
    KeepsDiscipline es t :=
  keeps_silent (by simp [said?, ho]) (by simp [ho]) fun _ _ _ _ => ⟨r, ho⟩

variable [Fragmentizer F]

omit [Encoder Command] [Encoder IdleDone] in
theorem inTime_of_not_seen (h : ¬ ∃ u ∈ es, SeesDone u) : InTime es t := fun hsees => absurd hsees h

theorem unseen_silent (h : ¬ ∃ u ∈ es, SeesDone u) (hsaid : said? t = none)
    (hout : ∀ bytes, t.out ≠ .yielded (.wantsWrite bytes)) : KeepsDiscipline es t ↔ InTime es t :=
  iff_of_true (keeps_silent hsaid hout fun hsees => absurd hsees h) (inTime_of_not_seen h)

theorem unseen_completes (h : ¬ ∃ u ∈ es, SeesDone u) {r : Except ImapIdleError Unit}
    (ho : t.out = .complete r) : KeepsDiscipline es t ↔ InTime es t :=
  iff_of_true (keeps_completes ho) (inTime_of_not_seen h)

theorem keeps_idle {tag : Tag} (h : ¬ ∃ u ∈ es, SeesDone u) (hsaid : said? t = some (.idle tag))
    (hout : t.out = .yielded (.wantsWrite (Said.octets (.idle tag))))
    (heven : (messagesSaid es).length % 2 = 0) (hended : messagesSaid es = [] ∨ Ended es) :
    (KeepsDiscipline es t ↔ InTime es t) ∧
      (messagesSaid (es ++ [t])).length % 2 = 1 ∧ lastTag? (es ++ [t]) = some tag := by
  refine ⟨iff_of_true
    ⟨fun bytes hbytes => ?_, by simp [hsaid], fun _ _ => hended, fun hsees => absurd hsees h⟩
    (inTime_of_not_seen h), ?_, lastTag?_idle hsaid⟩
  · refine ⟨.idle tag, hsaid, ?_, by simp [Said.tag?, heven]⟩
    rw [hout] at hbytes
    exact (ImapIdleYield.wantsWrite.inj (CoroutineState.yielded.inj hbytes)).symm
  · rw [messagesSaid_said hsaid, List.length_append, List.length_singleton]
    omega

theorem keeps_done {tag : Tag} (h : ¬ ∃ u ∈ es, SeesDone u) (hsaid : said? t = some .done)
    (hout : t.out = .yielded (.wantsWrite (Said.octets .done)))
    (hodd : (messagesSaid es).length % 2 = 1) (hlast : lastTag? es = some tag)
    (hcr : ∃ m ∈ answers es ++ t.completed, m.cr?.isSome) :
    (KeepsDiscipline es t ↔ InTime es t) ∧
      (messagesSaid (es ++ [t])).length % 2 = 0 ∧ lastTag? (es ++ [t]) = some tag := by
  refine ⟨iff_of_true
    ⟨fun bytes hbytes => ?_, fun _ => hcr, by simp [hsaid], fun hsees => absurd hsees h⟩
    (inTime_of_not_seen h), ?_, by rw [lastTag?_done hsaid, hlast]⟩
  · refine ⟨.done, hsaid, ?_, ?_⟩
    · rw [hout] at hbytes
      exact (ImapIdleYield.wantsWrite.inj (CoroutineState.yielded.inj hbytes)).symm
    · simp [Said.tag?, hodd]
  · rw [messagesSaid_said hsaid, List.length_append, List.length_singleton]
    omega

end Invariant

section Verdicts

theorem doneVerdict_eq_none {out : ImapSendOutput IdleDone} {expired : Bool}
    (h : doneVerdict out expired = none) :
    out.bye = none ∧ (∃ tagged, out.tagged = some tagged ∧ tagged.body.kind = .ok) ∧ expired = true := by
  unfold doneVerdict at h
  split at h
  · simp at h
  · simp at h
  · rename_i tagged hbye htagged
    split at h
    · rename_i hkind
      cases expired with
      | true => exact ⟨hbye, ⟨tagged, htagged, hkind⟩, rfl⟩
      | false => simp at h
    · simp at h
    · simp at h

theorem expired_of_doneVerdict {out : ImapSendOutput IdleDone} {expired : Bool} {tagged : Tagged}
    (hbye : out.bye = none) (htagged : out.tagged = some tagged) (hkind : tagged.body.kind = .ok)
    (h : doneVerdict out expired ≠ none) : expired = false := by
  cases expired with
  | false => rfl
  | true => exact absurd (by simp [doneVerdict, hbye, htagged, hkind]) h

end Verdicts

/-! ### One resume -/

section Step

variable [Fragmentizer F] [TryFrom Bytes Tag] [Encoder Command] [Encoder IdleDone]
  {es : List (Step F)} {t : Step F}

omit [Fragmentizer F] [TryFrom Bytes Tag] in
theorem doneBytes_octets [LawfulIdle] (tag : Tag) : doneBytes tag = Said.octets .done :=
  (ImapSend.new_plain LawfulIdle.done.plain tag).1

omit [Fragmentizer F] [TryFrom Bytes Tag] [Encoder Command] [Encoder IdleDone] in
theorem listening_tag {M : Type} {send : ImapSend M} {sent : Sent M} {past : List ServerMessage}
    (hl : send.Listening sent past) : send.tag? = some sent.tag := by
  simp only [ImapSend.tag?, hl.state]

omit [TryFrom Bytes Tag] [Encoder Command] [Encoder IdleDone] in
/-- The read that ends the exchange of IDLE without an error brings the continuation. -/
theorem brings_continuation {send send' : ImapSend Command} {tag : Tag} {past : List ServerMessage}
    {out : ImapSendOutput Command} {f' : F}
    (hr : send.Listens (idleSent tag) past t.frag t.arg (.complete (.ok out)) send' f' t.log)
    (hv : idleVerdict out = none) : ∃ m ∈ t.completed, m.cr?.isSome := by
  obtain ⟨-, -, hcr⟩ := idleVerdict_eq_none hv
  obtain ⟨data, -, -, -, -, hout, -, hlog⟩ := listens_output hr
  obtain ⟨cr, hcr⟩ := Option.isSome_iff_exists.mp hcr
  rw [hout] at hcr
  obtain ⟨m, hm, hm'⟩ := exists_of_lastSome hcr
  exact ⟨m, by rw [Turn.completed_read hlog]; exact hm, by rw [hm']; rfl⟩

omit [Fragmentizer F] [Encoder Command] [Encoder IdleDone] in
theorem stands_enters {send : ImapSend Command} {tag : Tag}
    {past : List ServerMessage} (hst : t.before.state = .idle send)
    (hl : send.Listening (idleSent tag) past) (hs : Stands es t.before) (hsaid : said? t = none)
    (hcr : ∃ m ∈ t.completed, m.cr?.isSome) {s' : ImapIdle} (hst' : s'.state = .read tag) :
    Stands (es ++ [t]) s' := by
  obtain ⟨hunseen, hodd, hlast⟩ := (stands_listening hst (listening_tag hl)).mp hs
  obtain ⟨m, hm, hcr⟩ := hcr
  refine (stands_reading hst').mpr ⟨not_seesDone_silent hunseen (by simp [hsaid]), ?_, ?_, m, ?_, hcr⟩
  · rw [messagesSaid_silent hsaid, hodd]
  · rw [lastTag?_silent hsaid, hlast]
    rfl
  · rw [answers_silent hsaid]
    exact List.mem_append_right _ hm

theorem discipline_reading [LawfulIdle] {tag : Tag} (hst : t.before.state = .read tag)
    (hr : Resumed t.before t.frag t.env t.arg t.out t.after t.fragAfter t.log)
    (hs : Stands es t.before) :
    (KeepsDiscipline es t ↔ InTime es t) ∧
      (InTime es t → ∀ y, t.out = .yielded y → Stands (es ++ [t]) t.after) := by
  obtain ⟨hunseen, hodd, hlast, m, hm, hcr⟩ := (stands_reading hst).mp hs
  have hstays : said? t = none → t.after.state = .read tag → Stands (es ++ [t]) t.after := by
    intro hsaid hst'
    refine (stands_reading hst').mpr ⟨not_seesDone_silent hunseen (by simp [hsaid]), ?_, ?_, m, ?_, hcr⟩
    · rw [messagesSaid_silent hsaid, hodd]
    · rw [lastTag?_silent hsaid, hlast]
    · rw [answers_silent hsaid]
      exact List.mem_append_left _ hm
  generalize ha : t.arg = arg, ho : t.out = out, haft : t.after = after,
    hfr : t.fragAfter = fragAfter, hlog : t.log = log at hr
  cases hr with
  | @stops _ tag' hst' hstop =>
    obtain rfl : tag' = tag := State.read.inj (hst'.symm.trans hst)
    have hsaid : said? t = some .done := by simp only [said?, ho, hst]
    obtain ⟨hkeeps, heven, hlast'⟩ := keeps_done hunseen hsaid (by rw [ho, doneBytes_octets]) hodd hlast
      ⟨m, List.mem_append_left _ hm, hcr⟩
    have hstate : t.after.state = .done (doneWritten tag') := by rw [haft]; rfl
    refine ⟨hkeeps, fun _ _ _ => haft ▸ (stands_done hstate).mpr ⟨heven, ?_⟩⟩
    rw [hlast', listening_tag (doneWritten_listening tag')]
    rfl
  | @waits tag' hst' =>
    obtain rfl : tag' = tag := State.read.inj (hst'.symm.trans hst)
    have hsaid : said? t = none := by simp [said?, ho]
    exact ⟨unseen_silent hunseen hsaid (by simp [ho]), fun _ _ _ =>
      haft ▸ hstays hsaid (by rw [haft]; rfl)⟩
  | eof => exact ⟨unseen_completes hunseen ho, by simp⟩
  | refused => exact ⟨unseen_completes hunseen ho, by simp⟩
  | @hears tag' _ hst' =>
    obtain rfl : tag' = tag := State.read.inj (hst'.symm.trans hst)
    have hsaid : said? t = none := by simp [said?, ho]
    exact ⟨unseen_silent hunseen hsaid (by simp [ho]), fun _ _ _ =>
      haft ▸ hstays hsaid (by rw [haft]; rfl)⟩
  | idles hst' => simp [hst] at hst'
  | idleEnds hst' => simp [hst] at hst'
  | reports hst' => simp [hst] at hst'
  | enters hst' => simp [hst] at hst'
  | turnsBack hst' => simp [hst] at hst'
  | finishes hst' => simp [hst] at hst'
  | ends hst' => simp [hst] at hst'
  | renews hst' => simp [hst] at hst'

omit [TryFrom Bytes Tag] [Encoder Command] [Encoder IdleDone] in
/-- A resume of an exchange that goes on has no completion to decode. -/
theorem unanswered {M : Type} {send send' : ImapSend M} {sent : Sent M} {past : List ServerMessage}
    {y : ImapYield} {f' : F} (hgiven : ImapSend.Receives t)
    (hr : send.Listens sent past t.frag t.arg (.yielded y) send' f' t.log) :
    (∀ m ∈ t.completed, m.ownTagged? sent.tag = none) ∧
      lastSome (·.ownTagged? sent.tag) t.received = none := by
  generalize ha : t.arg = arg, hlog : t.log = log at hr
  cases hr with
  | waits => simp [Turn.completed_silent hlog, ImapSend.received_unread (.inr ha)]
  | readsOn hne hms hsig =>
    have hnone := fun m hm => (signal?_eq_none.mp (lastSome_eq_none.mp hsig m hm)).1
    constructor
    · rw [Turn.completed_read hlog]
      exact hnone
    · rw [hgiven _ ha hne]
      exact lastSome_eq_none.mpr hnone

omit [TryFrom Bytes Tag] [Encoder Command] [Encoder IdleDone] in
theorem not_bringsOk {send : ImapSend IdleDone} {tag : Tag} (htag : send.tag? = some tag)
    (h : lastSome (·.ownTagged? tag) t.received = none) : ¬ BringsOk t send := by
  intro hok
  obtain ⟨-, -, tag', htag', tagged, htagged, -⟩ := hok
  obtain rfl := Option.some.inj (htag.symm.trans htag')
  rw [h] at htagged
  exact absurd htagged (by simp)

omit [TryFrom Bytes Tag] [Encoder Command] [Encoder IdleDone] in
theorem not_bringsOk_fails {send send' : ImapSend IdleDone} {tag : Tag} {past : List ServerMessage}
    {err : ImapSendError} {f' : F} (hgiven : ImapSend.Receives t)
    (hl : send.Listening (doneSent tag) past)
    (hr : send.Listens (doneSent tag) past t.frag t.arg (.complete (.error err)) send' f' t.log) :
    ¬ BringsOk t send := by
  intro hok
  generalize ha : t.arg = arg, hlog : t.log = log at hr
  cases hr with
  | eof =>
    have hnone : t.received = [] := by
      rw [Turn.received, Turn.answer, ha, Request.octets_eof]
      rfl
    exact not_bringsOk (listening_tag hl) (by simp [hnone]) hok
  | @refused _ _ _ _ m _ hne hms _ hm =>
    have haccepted := hok.1
    rw [hgiven _ ha hne, hms] at haccepted
    have hpass := haccepted m (by simp)
    rw [hm] at hpass
    exact absurd hpass (by simp)

omit [TryFrom Bytes Tag] [Encoder Command] [Encoder IdleDone] in
/-- An exchange of DONE that is over in spite of its tagged OK is over in time. -/
theorem bringsOk_ends {send send' : ImapSend IdleDone} {tag : Tag} {past : List ServerMessage}
    {out : ImapSendOutput IdleDone} {r : Except ImapIdleError Unit} {f' : F} {expired : Bool}
    (hgiven : ImapSend.Receives t) (hl : send.Listening (doneSent tag) past)
    (hr : send.Listens (doneSent tag) past t.frag t.arg (.complete (.ok out)) send' f' t.log)
    (hv : doneVerdict out expired = some r) (hok : BringsOk t send) : expired = false := by
  obtain ⟨data, ha, hne, hms, -, hout, -, -⟩ := listens_output hr
  obtain ⟨-, hbye, tag', htag', tagged, htagged, hkind⟩ := hok
  obtain rfl : (doneSent tag).tag = tag' := Option.some.inj ((listening_tag hl).symm.trans htag')
  rw [hgiven data ha hne] at hbye htagged
  have hbye' : out.bye = none := by rw [hout]; exact hbye
  have htagged' : out.tagged = some tagged := by rw [hout]; exact htagged
  exact expired_of_doneVerdict hbye' htagged' hkind (by simp [hv])

omit [Encoder Command] [Encoder IdleDone] in
theorem inTime_done {send : ImapSend IdleDone} (hst : t.before.state = .done send)
    (h : BringsOk t send → t.before.expired t.env = false) : InTime es t := by
  intro _ send' hsend hok
  obtain rfl : send = send' := by simpa [doneSend?, hst] using hsend
  exact h hok

omit [Encoder Command] [Encoder IdleDone] in
theorem unseen_of_expired {send : ImapSend IdleDone} (hst : t.before.state = .done send)
    (hbrings : BringsOk t send) (hexpired : t.before.expired t.env = true) (h : InTime es t) :
    ¬ ∃ u ∈ es, SeesDone u := by
  intro hsees
  have hintime := h hsees send (by simp [doneSend?, hst]) hbrings
  rw [hexpired] at hintime
  exact absurd hintime (by decide)

/-- IDLE is renewed: in time exactly when the flag was not found set. -/
theorem renews_iff {send send' : ImapSend IdleDone} {tag : Tag} {past : List ServerMessage}
    {out : ImapSendOutput IdleDone} {f' : F} (hgiven : ImapSend.Receives t)
    (hst : t.before.state = .done send) (hl : send.Listening (doneSent tag) past)
    (hr : send.Listens (doneSent tag) past t.frag t.arg (.complete (.ok out)) send' f' t.log)
    (hv : doneVerdict out (t.before.expired t.env) = none) (ho : t.out = .yielded .wantsTag)
    (hs : Stands es t.before) :
    (KeepsDiscipline es t ↔ InTime es t) ∧
      (InTime es t → ∀ {s' : ImapIdle}, s'.state = .idle asked → Stands (es ++ [t]) s') := by
  obtain ⟨heven, hlast⟩ := (stands_done hst).mp hs
  have hsaid : said? t = none := by simp [said?, ho]
  obtain ⟨hbye, ⟨tagged, htagged, hkind⟩, hexpired⟩ := doneVerdict_eq_none hv
  obtain ⟨data, ha, hne, hms, -, hout, -, hlog⟩ := listens_output hr
  rw [hout] at hbye htagged
  have hreceived := hgiven data ha hne
  have hlast' : lastTag? es = some tag := by
    rw [hlast, listening_tag hl]
    rfl
  obtain ⟨m, hm, hown⟩ := exists_of_lastSome htagged
  have hown' : m.ownTagged? tag = some tagged := hown
  have hcompleted : m ∈ t.completed := by
    rw [Turn.completed_read hlog]
    exact hm
  have hbrings : BringsOk t send := by
    rw [BringsOk, hreceived]
    exact ⟨hms, hbye, tag, listening_tag hl, tagged, htagged, hkind⟩
  refine ⟨⟨fun hkeeps => inTime_of_not_seen fun hsees => ?_, fun htime => ?_⟩, fun htime s' hst' => ?_⟩
  · obtain ⟨r, hr'⟩ := (hkeeps.stops hsees).2 tag hlast' ⟨m, hcompleted, by rw [hown']; rfl⟩
    simp [ho] at hr'
  · exact keeps_silent hsaid (by simp [ho]) fun hsees =>
      absurd hsees (unseen_of_expired hst hbrings hexpired htime)
  · refine (stands_unwritten hst' rfl).mpr
      ⟨not_seesDone_silent (unseen_of_expired hst hbrings hexpired htime) (by simp [hsaid]), ?_,
        .inr ⟨tag, ?_, m, ?_, tagged, hown', hkind⟩⟩
    · rw [messagesSaid_silent hsaid, heven]
    · rw [lastTag?_silent hsaid, hlast']
    · rw [answers_silent hsaid]
      exact List.mem_append_right _ hcompleted

theorem discipline_step [LawfulIdle] {a b : Config ImapIdle F} (h : Takes a t b)
    (hs : Stands es t.before) :
    (KeepsDiscipline es t ↔ InTime es t) ∧
      (InTime es t → ∀ y, t.out = .yielded y → Stands (es ++ [t]) t.after) := by
  have hc := h.conducted
  generalize ha : t.arg = arg, ho : t.out = out, haft : t.after = after,
    hfr : t.fragAfter = fragAfter, hlog : t.log = log at hc
  cases hc with
  | asks hst =>
    obtain ⟨hunseen, heven, hended⟩ := (stands_unwritten hst rfl).mp hs
    have hsaid : said? t = none := by simp [said?, ho]
    refine ⟨unseen_silent hunseen hsaid (by simp [ho]), fun _ _ _ => ?_⟩
    refine Iff.mpr (stands_unwritten rfl rfl)
      ⟨not_seesDone_silent hunseen (by simp [hsaid]), ?_, ?_⟩
    · rw [messagesSaid_silent hsaid, heven]
    · rw [messagesSaid_silent hsaid]
      exact hended.imp_right fun hended => hended.silent hsaid
  | misnamed hst =>
    obtain ⟨hunseen, -, -⟩ := (stands_unwritten hst rfl).mp hs
    exact ⟨unseen_completes hunseen ho, by simp⟩
  | @writes bytes tag hst htag =>
    obtain ⟨hunseen, heven, hended⟩ := (stands_unwritten hst rfl).mp hs
    have hsaid : said? t = some (.idle tag) := by
      have hnone : asked.tag? = none := rfl
      simp only [said?, ho, hst, hnone, ha, Option.bind_some, htag]
      rfl
    obtain ⟨hkeeps, hodd, hlast⟩ := keeps_idle hunseen hsaid ho heven hended
    exact ⟨hkeeps, fun _ _ _ => Iff.mpr (stands_listening rfl rfl)
      ⟨not_seesDone_silent hunseen (by simp [hsaid]), hodd, hlast⟩⟩
  | @idles _ send send' tag past _ _ hst hl hr =>
    obtain ⟨hunseen, hodd, hlast⟩ := (stands_listening hst (listening_tag hl)).mp hs
    have hsaid : said? t = none := by simp [said?, ho]
    refine ⟨unseen_silent hunseen hsaid (by simp [ho]), fun _ _ _ => ?_⟩
    refine Iff.mpr (stands_listening rfl (listening_tag (listens_listening hl hr)))
      ⟨not_seesDone_silent hunseen (by simp [hsaid]), ?_, ?_⟩
    · rw [messagesSaid_silent hsaid, hodd]
    · rw [lastTag?_silent hsaid, hlast]
  | idleFails hst hl =>
    obtain ⟨hunseen, -, -⟩ := (stands_listening hst (listening_tag hl)).mp hs
    exact ⟨unseen_completes hunseen ho, by simp⟩
  | idleEnds hst hl =>
    obtain ⟨hunseen, -, -⟩ := (stands_listening hst (listening_tag hl)).mp hs
    exact ⟨unseen_completes hunseen ho, by simp⟩
  | reports hst hl hr hv =>
    subst ha hlog
    obtain ⟨hunseen, -, -⟩ := (stands_listening hst (listening_tag hl)).mp hs
    have hsaid : said? t = none := by simp [said?, ho]
    exact ⟨unseen_silent hunseen hsaid (by simp [ho]), fun _ _ _ =>
      stands_enters hst hl hs hsaid (brings_continuation hr hv) rfl⟩
  | enters hst hl hr hv =>
    subst ha hlog
    obtain ⟨hunseen, -, -⟩ := (stands_listening hst (listening_tag hl)).mp hs
    have hsaid : said? t = none := by simp [said?, ho]
    exact ⟨unseen_silent hunseen hsaid (by simp [ho]), fun _ _ _ =>
      stands_enters hst hl hs hsaid (brings_continuation hr hv) rfl⟩
  | @turnsBack _ send _ tag _ _ _ _ hst hl hr hv =>
    subst ha hlog
    obtain ⟨hunseen, hodd, hlast⟩ := (stands_listening hst (listening_tag hl)).mp hs
    have hsaid : said? t = some .done := by simp only [said?, ho, hst, listening_tag hl]
    obtain ⟨m, hm, hcr⟩ := brings_continuation hr hv
    obtain ⟨hkeeps, heven, hlast'⟩ := keeps_done hunseen hsaid (by rw [ho, doneBytes_octets]) hodd hlast
      ⟨m, List.mem_append_right _ hm, hcr⟩
    refine ⟨hkeeps, fun _ _ _ => Iff.mpr (stands_done rfl) ⟨heven, ?_⟩⟩
    rw [hlast', listening_tag (doneWritten_listening tag)]
    rfl
  | reads hst hr =>
    subst ha ho haft hfr hlog
    exact discipline_reading hst hr hs
  | finishes hst hl hr =>
    subst ha hlog
    obtain ⟨heven, hlast⟩ := (stands_done hst).mp hs
    have hsaid : said? t = none := by simp [said?, ho]
    obtain ⟨hnone, hunread⟩ := unanswered (done_received hst hl h.plain.toReady h.answered) hr
    have hkeeps : KeepsDiscipline es t := by
      refine keeps_silent hsaid (by simp [ho]) fun _ last hlast' hown => ?_
      rw [hlast, listening_tag hl] at hlast'
      obtain rfl := Option.some.inj hlast'
      obtain ⟨m, hm, hsome⟩ := hown
      rw [hnone m hm] at hsome
      exact absurd hsome (by simp)
    have htime : InTime es t :=
      inTime_done hst fun hok => absurd hok (not_bringsOk (listening_tag hl) hunread)
    refine ⟨iff_of_true hkeeps htime, fun _ _ _ => Iff.mpr (stands_done rfl) ⟨?_, ?_⟩⟩
    · rw [messagesSaid_silent hsaid, heven]
    · rw [lastTag?_silent hsaid, hlast, listening_tag hl, listening_tag (listens_listening hl hr)]
  | doneFails hst hl hr =>
    subst ha hlog
    have hgiven := done_received hst hl h.plain.toReady h.answered
    have htime : InTime es t :=
      inTime_done hst fun hok => absurd hok (not_bringsOk_fails hgiven hl hr)
    exact ⟨iff_of_true (keeps_completes ho) htime, by simp⟩
  | doneEnds hst hl hr hv =>
    subst ha hlog
    have hgiven := done_received hst hl h.plain.toReady h.answered
    have htime : InTime es t := inTime_done hst (bringsOk_ends hgiven hl hr hv)
    exact ⟨iff_of_true (keeps_completes ho) htime, by simp⟩
  | renews hst hl hr hv =>
    subst ha hlog
    have hgiven := done_received hst hl h.plain.toReady h.answered
    obtain ⟨hiff, hstands⟩ := renews_iff hgiven hst hl hr hv ho hs
    exact ⟨hiff, fun htime _ _ => hstands htime rfl⟩

end Step
end ImapIdle

open ImapIdle

/-- A run of IDLE keeps to the discipline exactly when, once the flag was found set, the
refresh timer has not expired as DONE is answered with its tagged OK. -/
theorem idle_discipline_iff {F : Type} [Fragmentizer F] [TryFrom Bytes Tag] [Encoder Command]
    [Encoder IdleDone] [LawfulEncoder Command] [LawfulEncoder IdleDone] [LawfulIdle]
    {opts : ImapIdleOptions} {f : F} {es : List (ImapIdle.Step F)} {b : Config ImapIdle F}
    (h : imapIdle.Runs (.new opts) f es b) : Always KeepsDiscipline es ↔ Always InTime es := by
  refine Run.always_iff_always (P := fun es a => ∀ due, a.due = some due →
    a.state.Plain due ∧ Stands es a.state) ?_ ?_ h
  · intro due hdue
    obtain rfl : Request.nothing = due := Option.some.inj hdue
    exact ⟨new_plain opts, (stands_unwritten rfl rfl).mpr ⟨by simp, rfl, .inl rfl⟩⟩
  · intro es a t b ha hstep
    obtain ⟨htakes, hb⟩ := step_conducted (fun due hdue => (ha due hdue).1) hstep
    have hstands := (ha t.due htakes.due).2
    rw [← htakes.before] at hstands
    obtain ⟨hiff, hnext⟩ := discipline_step htakes hstands
    refine ⟨hiff, fun htime due hdue => ⟨hb due hdue, ?_⟩⟩
    rw [htakes.after] at hdue ⊢
    obtain ⟨y, ho, -⟩ := Coroutine.finish_due hdue
    exact hnext htime y ho

section Concrete

open Concrete

/-- IDLE that is wound down behind an EXISTS, with the clock at `check` when DONE is answered. -/
def playDiscipline (check : Nat) :=
  playIdling [idling none, idling (some (ascii "A1")), idling none,
    idling (some (ascii "+ idling\r\n")), idling (some (ascii "* 5 EXISTS\r\n")), windingDown none,
    windingDown none, (some (ascii "A1 OK done\r\n"), ⟨true, 0, check⟩)]

theorem idle_discipline_shutdown : ∃ es b, playDiscipline 0 = some (es, b) ∧
    (∃ u ∈ es, SeesDone u) ∧ Always KeepsDiscipline es := by
  have hrun : (playDiscipline 0).any (fun r =>
      decide ((∃ u ∈ r.1, SeesDone u) ∧ Always InTime r.1)) = true := by decide +kernel
  obtain ⟨⟨es, b⟩, hplay, hdec⟩ := (Option.any_eq_true _ _).mp hrun
  obtain ⟨hsees, htime⟩ := of_decide_eq_true hdec
  have hiff := idle_discipline_iff (Coroutine.play_run _ hplay)
  exact ⟨es, b, hplay, hsees, hiff.mpr htime⟩

/-- The refresh timer expires between DONE and its answer: IDLE is renewed after shutdown. -/
theorem idle_discipline_renewed :
    ¬ ∀ (es : List (ImapIdle.Step (LineFragmentizer (decodeTable idleMessages))))
        (b : Config ImapIdle (LineFragmentizer (decodeTable idleMessages))),
        imapIdle.Runs (.new ⟨none⟩) LineFragmentizer.empty es b → Always KeepsDiscipline es := by
  intro h
  have hrun : (playDiscipline IDLE_DEFAULT_TIMEOUT).any (fun r => decide
      (∃ t ∈ r.1.getLast?, (∃ u ∈ r.1.dropLast, SeesDone u) ∧
        lastTag? r.1.dropLast = some ⟨ascii "A1"⟩ ∧
        (∃ m ∈ t.completed, (m.ownTagged? ⟨ascii "A1"⟩).isSome) ∧
        (imapIdle.finish t).due.isSome = true)) = true := by decide +kernel
  obtain ⟨⟨es, b⟩, hplay, hdec⟩ := (Option.any_eq_true _ _).mp hrun
  obtain ⟨t, ht, hsees, hlast, hown, hdue⟩ := of_decide_eq_true hdec
  obtain ⟨pre, rfl⟩ := List.getLast?_eq_some_iff.mp ht
  rw [List.dropLast_concat] at hsees hlast
  have hkeeps := h _ b (Coroutine.play_run _ hplay) pre t [] rfl
  obtain ⟨r, hr⟩ := (hkeeps.stops hsees).2 _ hlast hown
  rw [Coroutine.finish, hr] at hdue
  exact Bool.false_ne_true hdue

end Concrete
end IoImap
