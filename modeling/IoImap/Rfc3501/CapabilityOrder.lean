import IoImap.Codec.CommandEncoder
import IoImap.Command.Output
import IoImap.Rfc3501.Capability

/-!
# The order of capability announcements (rfc3501/capability.rs)

A server announces its capabilities in untagged data, in the code of an untagged
status and in the code of the completion. The three are collected apart and merged
in a fixed order, the code of the completion first: what was announced on the wire
last is not always what is left.
-/

namespace IoImap
open Fragmentizer ServerMessage Transition

/-! ### Announcements -/

inductive AnnouncementKind where
  | data
  | status
  | completion
  deriving DecidableEq

namespace ServerMessage

variable (tag : Tag) (m : ServerMessage)

def dataCapability? : Option (Vec1 Capability) := m.data?.bind fun d => ImapCapabilityGet.addData none d

def statusCapability? : Option (Vec1 Capability) :=
  m.untagged?.bind fun status => ImapCapabilityGet.addCode none status.code

def taggedCapability? : Option (Vec1 Capability) :=
  (m.ownTagged? tag).bind fun tagged => ImapCapabilityGet.addCode none tagged.body.code

/-- The capabilities a message announces, and how. -/
def announcement? : Option (AnnouncementKind × Vec1 Capability) :=
  ((m.dataCapability?.map (.data, ·)).or (m.statusCapability?.map (.status, ·))).or
    ((m.taggedCapability? tag).map (.completion, ·))

end ServerMessage

/-- The capabilities that the code of the last completion announces. -/
def completionCapability? (tag : Tag) (ms : List ServerMessage) : Option (Vec1 Capability) :=
  (lastSome (·.ownTagged? tag) ms).bind fun tagged => ImapCapabilityGet.addCode none tagged.body.code

/-- Nothing that takes precedence over the last announcement lists other capabilities: not
the last untagged status that announces any, and where none does not the last data. -/
inductive Undisputed (tag : Tag) (ms : List ServerMessage) : Prop where
  | silent (h : lastSome (·.announcement? tag) ms = none)
  | status (capability : Vec1 Capability)
      (h : lastSome (·.announcement? tag) ms = some (.status, capability))
  | data (capability : Vec1 Capability)
      (h : lastSome (·.announcement? tag) ms = some (.data, capability))
      (hstatus : ∀ other, lastSome statusCapability? ms = some other → other = capability)
  | completion (capability : Vec1 Capability)
      (h : lastSome (·.announcement? tag) ms = some (.completion, capability))
      (hstatus : ∀ other, lastSome statusCapability? ms = some other → other = capability)
      (hdata : lastSome statusCapability? ms = none →
        ∀ other, lastSome dataCapability? ms = some other → other = capability)
      (hlast : lastSome statusCapability? ms = none → lastSome dataCapability? ms = none →
        completionCapability? tag ms = some capability)

section Order

variable {tag : Tag} {ms : List ServerMessage}

theorem newCapability_eq (code : Option Code) (data : List Data) (untagged : List StatusBody) :
    ImapCapabilityGet.newCapability code data untagged =
      ((lastSome (fun status => ImapCapabilityGet.addCode none status.code) untagged).or
        ((lastSome (ImapCapabilityGet.addData none) data).or (ImapCapabilityGet.addCode none code))) := by
  have hdata (start : Option (Vec1 Capability)) : data.foldl ImapCapabilityGet.addData start =
      (lastSome (ImapCapabilityGet.addData none) data).or start := by
    induction data using List.reverseRecOn with
    | nil => rfl
    | append_singleton ds d ih =>
      rw [List.foldl_append, lastSome_concat, ih, List.foldl_cons, List.foldl_nil]
      cases d <;> rfl
  unfold ImapCapabilityGet.newCapability
  rw [hdata]
  induction untagged using List.reverseRecOn with
  | nil => rfl
  | append_singleton ss status ih =>
    rw [List.foldl_append, lastSome_concat, ih, List.foldl_cons, List.foldl_nil]
    cases hcode : status.code with
    | none => rfl
    | some code => cases code <;> rfl

theorem lastSome_filterMap {α β γ : Type} (p : β → Option γ) (q : α → Option β) (l : List α) :
    lastSome p (l.filterMap q) = lastSome (fun a => (q a).bind p) l := by
  rw [lastSome, lastSome, List.filterMap_filterMap]

/-- What is left of the announcements of an exchange. -/
def merged (tag : Tag) (ms : List ServerMessage) : Option (Vec1 Capability) :=
  (lastSome statusCapability? ms).or ((lastSome dataCapability? ms).or (completionCapability? tag ms))

theorem newCapability_merged : ImapCapabilityGet.newCapability
    ((lastSome (·.ownTagged? tag) ms).bind fun tagged => tagged.body.code) (ms.filterMap data?)
      (ms.filterMap untagged?) = merged tag ms := by
  rw [newCapability_eq, lastSome_filterMap, lastSome_filterMap, merged, completionCapability?]
  congr 2
  cases lastSome (·.ownTagged? tag) ms <;> rfl

theorem lastSome_kind {α β γ : Type} {p : α → Option β} {q : α → Option γ} {b : β} {c : γ}
    {l : List α}
    (h : lastSome p l = some b) (hsome : ∀ a, p a = some b → q a = some c)
    (hnone : ∀ a, p a = none → q a = none) : lastSome q l = some c := by
  induction l using List.reverseRecOn with
  | nil => simp at h
  | append_singleton l a ih =>
    rw [lastSome_concat] at h ⊢
    cases ha : p a with
    | none =>
      rw [ha, Option.none_or] at h
      rw [hnone a ha, Option.none_or, ih h]
    | some b' =>
      rw [ha, Option.some_or] at h
      rw [hsome a (ha.trans h), Option.some_or]

theorem announcement?_status {m : ServerMessage} {capability : Vec1 Capability}
    (h : m.announcement? tag = some (.status, capability)) : m.statusCapability? = some capability := by
  unfold announcement? at h
  cases hdata : m.dataCapability? <;> cases hstatus : m.statusCapability? <;>
    cases htagged : m.taggedCapability? tag <;> simp_all

theorem announcement?_data {m : ServerMessage} {capability : Vec1 Capability}
    (h : m.announcement? tag = some (.data, capability)) : m.dataCapability? = some capability := by
  unfold announcement? at h
  cases hdata : m.dataCapability? <;> cases hstatus : m.statusCapability? <;>
    cases htagged : m.taggedCapability? tag <;> simp_all

theorem announcement?_none {m : ServerMessage} (h : m.announcement? tag = none) :
    m.statusCapability? = none ∧ m.dataCapability? = none ∧ m.taggedCapability? tag = none := by
  unfold announcement? at h
  cases hdata : m.dataCapability? <;> cases hstatus : m.statusCapability? <;> simp_all

/-- What was announced last is what is left exactly when nothing disputes it. -/
theorem merged_iff : (∀ kind capability, lastSome (·.announcement? tag) ms = some (kind, capability) →
    merged tag ms = some capability) ↔ Undisputed tag ms := by
  have hstatus (capability : Vec1 Capability)
      (h : lastSome (·.announcement? tag) ms = some (.status, capability)) :
      lastSome statusCapability? ms = some capability :=
    lastSome_kind h (fun _ => announcement?_status) fun _ hm => (announcement?_none hm).1
  have hdata (capability : Vec1 Capability)
      (h : lastSome (·.announcement? tag) ms = some (.data, capability)) :
      lastSome dataCapability? ms = some capability :=
    lastSome_kind h (fun _ => announcement?_data) fun _ hm => (announcement?_none hm).2.1
  unfold merged
  constructor
  · intro h
    rcases hlast : lastSome (·.announcement? tag) ms with - | ⟨- | - | -, capability⟩
    · exact .silent hlast
    · have hmerged := h _ _ hlast
      refine .data capability hlast fun other hother => ?_
      simpa [hother] using hmerged
    · exact .status capability hlast
    · have hmerged := h _ _ hlast
      refine .completion capability hlast (fun other hother => ?_) (fun hnone other hother => ?_)
        fun hnone hnone' => ?_
      · simpa [hother] using hmerged
      · simpa [hnone, hother] using hmerged
      · simpa [hnone, hnone'] using hmerged
  · intro h kind capability hlast
    cases h with
    | silent h => simp [h] at hlast
    | status capability' h =>
      obtain ⟨rfl, rfl⟩ : AnnouncementKind.status = kind ∧ capability' = capability := by
        simpa [h] using hlast
      rw [hstatus _ h, Option.some_or]
    | data capability' h hother =>
      obtain ⟨rfl, rfl⟩ : AnnouncementKind.data = kind ∧ capability' = capability := by
        simpa [h] using hlast
      cases hs : lastSome statusCapability? ms with
      | none => rw [Option.none_or, hdata _ h, Option.some_or]
      | some other => rw [Option.some_or, hother other hs]
    | completion capability' h hother hother' hcode =>
      obtain ⟨rfl, rfl⟩ : AnnouncementKind.completion = kind ∧ capability' = capability := by
        simpa [h] using hlast
      cases hs : lastSome statusCapability? ms with
      | some other => rw [Option.some_or, hother other hs]
      | none =>
        cases hd : lastSome dataCapability? ms with
        | some other => rw [Option.none_or, Option.some_or, hother' hs other hd]
        | none => rw [Option.none_or, Option.none_or, hcode hs hd]

theorem merged_silent (h : lastSome (·.announcement? tag) ms = none) : merged tag ms = none := by
  have hnone (m : ServerMessage) (hm : m ∈ ms) := announcement?_none (lastSome_eq_none.mp h m hm)
  have hstatus : lastSome statusCapability? ms = none := lastSome_eq_none.mpr fun m hm => (hnone m hm).1
  have hdata : lastSome dataCapability? ms = none := lastSome_eq_none.mpr fun m hm => (hnone m hm).2.1
  rw [merged, hstatus, hdata, Option.none_or, Option.none_or, completionCapability?]
  cases htagged : lastSome (·.ownTagged? tag) ms with
  | none => rfl
  | some tagged =>
    obtain ⟨m, hm, hown⟩ := exists_of_lastSome htagged
    have hcode := (hnone m hm).2.2
    rwa [taggedCapability?, hown] at hcode

end Order

/-! ### CAPABILITY -/

abbrev CapabilityTurn (F : Type) :=
  Turn ImapCapabilityGet F Unit ImapYield (Except ImapCapabilityGetError (List Capability))

theorem wraps_capabilityGet [TryFrom Bytes Tag] [Encoder Command] : Wraps imapCapabilityGet where
  rest _ _ _ := rfl
  yields s f arg y := by
    constructor
    · intro h
      obtain ⟨y', hy', rfl⟩ := CoroutineState.tryOk_yielded h
      obtain ⟨y'', hy'', rfl⟩ := CoroutineState.tryOk_yielded hy'
      exact hy''
    · intro h
      show ((s.resume f arg).1.tryOk id .send (commandOutcome ImapCapabilityGet.decode)).tryOk id .of
        ImapCapabilityGet.finish = .yielded y
      rw [h]
      rfl
  request := rfl

section Runs

variable {F : Type} [Fragmentizer F] [TryFrom Bytes Tag] [Encoder Command] [LawfulEncoder Command] {f : F}
  {es : List (CapabilityTurn F)} {t : CapabilityTurn F} {b : Config ImapCapabilityGet F}
  {out : ImapSendOutput Command}

/-- A run that ends well returns what is left of the announcements. -/
theorem capability_get_merged (hrun : imapCapabilityGet.Runs .new f (es ++ [t]) b)
    (hout : exchanged t = .complete (.ok out)) (hsucceeds : Succeeds out) :
    t.out = .complete (ImapCapabilityGet.finish (merged out.tag (ImapSend.heard (es ++ [t])))) := by
  have hreflects := wraps_capabilityGet.output (.command ⟨_, id⟩) hrun hout
  have hdecode : ImapCapabilityGet.decode out = merged out.tag (ImapSend.heard (es ++ [t])) := by
    rw [ImapCapabilityGet.decode, ImapCapabilityGet.taggedCode, hreflects.data, hreflects.untagged,
      hreflects.tagged, newCapability_merged]
  obtain ⟨a, -, hstep⟩ := hrun.snoc_inv
  obtain ⟨due, arg, env, -, -, rfl, -⟩ := hstep
  have hres : (imapCapabilityGet.turn a due arg env).out =
      ((exchanged (imapCapabilityGet.turn a due arg env)).tryOk id .send
        (commandOutcome ImapCapabilityGet.decode)).tryOk id .of ImapCapabilityGet.finish := rfl
  rw [hres, hout]
  simp only [CoroutineState.tryOk, commandOutcome_ok.mpr ⟨hsucceeds, rfl⟩, hdecode]

theorem capability_get_iff (hrun : imapCapabilityGet.Runs .new f (es ++ [t]) b)
    (hout : exchanged t = .complete (.ok out)) (hsucceeds : Succeeds out) :
    (∀ kind capability, lastSome (·.announcement? out.tag) (ImapSend.heard (es ++ [t])) =
        some (kind, capability) → t.out = .complete (.ok capability)) ↔
      Undisputed out.tag (ImapSend.heard (es ++ [t])) := by
  rw [← merged_iff, capability_get_merged hrun hout hsucceeds]
  refine forall_congr' fun kind => forall_congr' fun capability => imp_congr_right fun _ => ?_
  cases merged out.tag (ImapSend.heard (es ++ [t])) <;> simp [ImapCapabilityGet.finish]

end Runs
end IoImap
