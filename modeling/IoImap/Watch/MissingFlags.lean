import IoImap.Watch.Agreement

/-!
# Messages told without their flags (watch.rs)

`extract_uid_flags` reads items without FLAGS as a message without flags. So a
resync that tells a known message without its flags keeps what is known only
when there was nothing to lose.
-/

namespace IoImap
open Replay ShadowedMailbox

/-- What a resync reads: the EXAMINE response of QRESYNC, or a snapshot of the mailbox. -/
inductive Resync where
  | changed (data : ImapMailboxSelectData)
  | snapshot (messages : Snapshot)

namespace Resync

def compute (s : ShadowedMailbox) : Resync → ShadowedMailbox
  | .changed data => s.computeDeltas data
  | .snapshot messages => s.computeSnapshotDeltas messages

/-- The messages it tells, by UID, with their items. -/
def told : Resync → List (NonZeroU32 × List MessageDataItem)
  | .changed data =>
    data.changed.filterMap fun fetch => (extractUidFlags fetch.items).1.map (·, fetch.items)
  | .snapshot messages => messages.toList

/-- The flags it assigns to the messages it tells. -/
def assigned (response : Resync) : Assignments NonZeroU32 Flag :=
  response.told.map fun e => (e.1, some (extractUidFlags e.2).2.toFinset)

theorem mem_assigned {response : Resync} {uid : NonZeroU32} {items : List MessageDataItem}
    (h : (uid, items) ∈ response.told) :
    (uid, some (extractUidFlags items).2.toFinset) ∈ response.assigned :=
  List.mem_map.mpr ⟨(uid, items), h, rfl⟩

/-- What it assigns: first the messages that are gone, then those it tells. -/
theorem compute_emits (s : ShadowedMailbox) (response : Resync) :
    ∃ gone, (∀ a ∈ gone, a.2 = none) ∧ Emits s (response.compute s) (gone ++ response.assigned) := by
  cases response with
  | changed data =>
    obtain ⟨gone, hgone, honly, -⟩ := removeRanges_emits s data.vanishedEarlier
    refine ⟨gone, fun a ha => (honly a ha).1, ?_⟩
    have htold : (Resync.changed data).assigned = data.changed.filterMap assignment := by
      rw [assigned, told, List.map_filterMap]
      congr 1
      funext fetch
      rw [assignment, Option.map_map]
      rfl
    rw [htold]
    exact hgone.trans (changeAll_emits _ _)
  | snapshot messages =>
    refine ⟨_, fun a ha => ?_, computeSnapshotDeltas_emits s messages⟩
    obtain ⟨uid, -, rfl⟩ := List.mem_map.mp ha
    rfl

/-- Where nothing is said about the flags of a message, it is left with those it was told
with, each time. -/
theorem view_of_silent {s : ShadowedMailbox} {response : Resync} {gone : Assignments NonZeroU32 Flag}
    (hemits : Emits s (response.compute s) (gone ++ response.assigned)) {uid : NonZeroU32}
    (h : ∀ c ∈ emits s.shadow.view (gone ++ response.assigned), ¬ c.Relabels uid)
    {items : List MessageDataItem} (hitems : (uid, items) ∈ response.told) :
    (response.compute s).shadow.view uid = some (extractUidFlags items).2.toFinset := by
  rw [emits_append] at h
  rw [hemits.view, assignAll_append]
  have hlater : ∀ c ∈ emits (assignAll s.shadow.view gone) response.assigned, ¬ c.Relabels uid :=
    fun c hc => h c (List.mem_append_right _ hc)
  refine (assignAll_of_not_relabelled hlater ?_).2 _ (mem_assigned hitems)
  intro a ha _
  obtain ⟨e, -, rfl⟩ := List.mem_map.mp ha
  simp

end Resync

theorem extractUidFlags_missing {items : List MessageDataItem}
    (h : ∀ fs, MessageDataItem.flags fs ∉ items) : (extractUidFlags items).2 = [] := by
  have hno : lastSome MessageDataItem.flags? items = none := by
    rw [lastSome_eq_none]
    intro item hitem
    cases item with
    | flags fs => exact absurd hitem (h fs)
    | _ => rfl
  rw [extractUidFlags_eq, hno]
  rfl

/-- Nothing is said about the flags of the message, and they stay as they are. -/
structure KeepsFlags (s s' : ShadowedMailbox) (uid : NonZeroU32) : Prop where
  shadow : s'.shadow[uid]? = s.shadow[uid]?
  silent : ∃ new, s'.pending = s.pending ++ new ∧
    ∀ flags, .flagsAdded uid flags ∉ new ∧ .flagsRemoved uid flags ∉ new

theorem ShadowedMailbox.Emits.silent_iff {s s' : ShadowedMailbox}
    {as : Assignments NonZeroU32 Flag} {uid : NonZeroU32}
    (h : Emits s s' as) :
    (∃ new, s'.pending = s.pending ++ new ∧
        ∀ flags, .flagsAdded uid flags ∉ new ∧ .flagsRemoved uid flags ∉ new) ↔
      ∀ c ∈ emits s.shadow.view as, ¬ c.Relabels uid := by
  obtain ⟨new, hnew, hchanges⟩ := h.queued
  rw [← hchanges]
  constructor
  · intro hx c hc hrelabels
    obtain ⟨new', hnew', hsilent⟩ := hx
    obtain rfl : new' = new := List.append_cancel_left (hnew'.symm.trans hnew)
    obtain ⟨event, hevent, rfl⟩ := List.mem_map.mp hc
    cases event with
    | envelopeAdded | envelopeRemoved => exact hrelabels
    | flagsAdded uid' flags =>
      obtain rfl : uid' = uid := hrelabels
      exact (hsilent flags).1 hevent
    | flagsRemoved uid' flags =>
      obtain rfl : uid' = uid := hrelabels
      exact (hsilent flags).2 hevent
  · intro hx
    exact ⟨new, hnew, fun flags => ⟨fun he => hx _ (List.mem_map_of_mem he) rfl,
      fun he => hx _ (List.mem_map_of_mem he) rfl⟩⟩

theorem Shadow.view_eq_empty {shadow : Shadow} {uid : NonZeroU32} :
    shadow.view uid = some ∅ ↔ shadow[uid]? = some [] := by
  rw [Shadow.view, Option.map_eq_some_iff]
  constructor
  · intro h
    obtain ⟨flags, hflags, hempty⟩ := h
    rw [hflags, (List.toFinset_eq_empty_iff _).mp hempty]
  · intro h
    exact ⟨[], h, rfl⟩

/-- A resync that tells a known message without FLAGS keeps its flags exactly when it
has none, and nothing else in the response gives it any. -/
theorem missing_flags_kept_iff (s : ShadowedMailbox) (response : Resync) {uid : NonZeroU32}
    {flags : List Flag} {items : List MessageDataItem} (hshadow : s.shadow[uid]? = some flags)
    (htold : (uid, items) ∈ response.told) (hmissing : ∀ fs, MessageDataItem.flags fs ∉ items) :
    KeepsFlags s (response.compute s) uid ↔
      flags = [] ∧ ∀ items, (uid, items) ∈ response.told → (extractUidFlags items).2 = [] := by
  obtain ⟨gone, hgone, hemits⟩ := response.compute_emits s
  have hnone := extractUidFlags_missing hmissing
  constructor
  · intro hkeeps
    have hsilent := hemits.silent_iff.mp hkeeps.silent
    have hempty : (response.compute s).shadow.view uid = some ∅ := by
      rw [Resync.view_of_silent hemits hsilent htold, hnone]
      rfl
    refine ⟨?_, fun items' hitems' => ?_⟩
    · have hshadow' := hkeeps.shadow
      rw [Shadow.view_eq_empty.mp hempty, hshadow] at hshadow'
      exact (Option.some.inj hshadow').symm
    · have hsame := Resync.view_of_silent hemits hsilent hitems'
      rw [hempty] at hsame
      exact (List.toFinset_eq_empty_iff _).mp (Option.some.inj hsame).symm
  · intro h
    obtain ⟨rfl, hall⟩ := h
    have hbefore : s.shadow.view uid = some ∅ := Shadow.view_eq_empty.mpr hshadow
    have hsilent : ∀ c ∈ emits s.shadow.view (gone ++ response.assigned), ¬ c.Relabels uid := by
      refine not_relabelled_of_constant (.inr hbefore) fun a ha hkey => ?_
      rcases List.mem_append.mp ha with ha | ha
      · exact .inl (hgone a ha)
      · obtain ⟨⟨uid', items'⟩, hmem, rfl⟩ := List.mem_map.mp ha
        obtain rfl : uid' = uid := hkey
        exact .inr (by rw [hall items' hmem]; rfl)
    refine ⟨?_, hemits.silent_iff.mpr hsilent⟩
    rw [hshadow, ← Shadow.view_eq_empty, Resync.view_of_silent hemits hsilent htold, hnone]
    rfl

section Concrete

def modSeqOnly : List MessageDataItem := [.uid uid5, .modSeq 9]

def modSeqChanged : Resync :=
  .changed (.ofOutput ⟨⟨⟨[]⟩, .idle⟩, ⟨[]⟩, [.fetch uid1 modSeqOnly], [], none, none, none⟩)

def flaggedMailbox : ShadowedMailbox := ⟨Std.TreeMap.insert ∅ uid5 [.flagged], []⟩

theorem modSeqOnly_told : (uid5, modSeqOnly) ∈ modSeqChanged.told := by decide +kernel

theorem modSeqOnly_missing (fs : List FlagFetch) : MessageDataItem.flags fs ∉ modSeqOnly := by
  simp [modSeqOnly]

/-- Message 5 has no flags to lose. -/
theorem missing_flags_kept_unflagged :
    KeepsFlags knownMailbox (modSeqChanged.compute knownMailbox) uid5 := by
  have hshadow : knownMailbox.shadow[uid5]? = some [] := by decide +kernel
  refine (missing_flags_kept_iff knownMailbox modSeqChanged hshadow modSeqOnly_told
    modSeqOnly_missing).mpr ⟨rfl, fun items hitems => ?_⟩
  obtain rfl : items = modSeqOnly := by
    have hall : ∀ e ∈ modSeqChanged.told, e.2 = modSeqOnly := by decide +kernel
    exact hall _ hitems
  decide

/-- Message 5 is flagged, and the server tells its new MODSEQ only. -/
theorem missing_flags_lost :
    ¬ KeepsFlags flaggedMailbox (modSeqChanged.compute flaggedMailbox) uid5 := by
  have hshadow : flaggedMailbox.shadow[uid5]? = some [.flagged] := by decide +kernel
  intro h
  have hempty := ((missing_flags_kept_iff flaggedMailbox modSeqChanged hshadow modSeqOnly_told
    modSeqOnly_missing).mp h).1
  simp at hempty

end Concrete
end IoImap
