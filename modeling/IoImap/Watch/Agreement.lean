import IoImap.Watch.Shadow

/-!
# The two resyncs agree (watch.rs)

A mailbox has one content, and a server tells it in one of two ways: as the
delta of an EXAMINE (QRESYNC), or as a snapshot. From any shadow, whichever way
an honest server tells it, the shadow ends as the content and the same changes
are queued.
-/

namespace IoImap
open Replay ShadowedMailbox

structure Gives (items : List MessageDataItem) (uid : NonZeroU32) (flags : Finset Flag) : Prop where
  hasUid : MessageDataItem.uid uid ∈ items
  onlyUid : ∀ u, MessageDataItem.uid u ∈ items → u = uid
  hasFlags : ∃ fs, MessageDataItem.flags fs ∈ items
  onlyFlags : ∀ fs, MessageDataItem.flags fs ∈ items → (setFlags fs).toFinset = flags

/-- The QRESYNC response tells the content to a client that holds `shadow`: it
names the messages that are gone and none that is there, and gives the flags of
the messages that are new or changed, and of no others than those there. -/
structure HonestDelta (shadow : Shadow) (content : View NonZeroU32 Flag) (response : List Data) :
    Prop where
  gone : ∀ uid, uid ∈ shadow → content uid = none →
    ∃ set, Data.vanished true set ∈ response ∧ ∃ x ∈ set, x.Names uid
  goneOnly : ∀ set, Data.vanished true set ∈ response → ∀ x ∈ set, ∀ uid, x.Names uid →
    content uid = none
  changed : ∀ uid flags, content uid = some flags → shadow.view uid ≠ some flags →
    ∃ seq items, Data.fetch seq items ∈ response ∧ Gives items uid flags
  changedOnly : ∀ seq items, Data.fetch seq items ∈ response →
    ∃ uid flags, content uid = some flags ∧ Gives items uid flags

/-- The snapshot holds exactly the messages of the content, with their flags. -/
structure FullSnapshot (content : View NonZeroU32 Flag) (snapshot : Snapshot) : Prop where
  absent : ∀ uid, content uid = none → snapshot[uid]? = none
  present : ∀ uid flags, content uid = some flags →
    ∃ items, snapshot[uid]? = some items ∧ Gives items uid flags

/-! ### Reading items -/

def MessageDataItem.flags? : MessageDataItem → Option (List Flag)
  | .flags list => some (setFlags list)
  | _ => none

theorem extractUidFlags_eq (items : List MessageDataItem) :
    extractUidFlags items =
      (lastSome MessageDataItem.uid? items, (lastSome MessageDataItem.flags? items).getD []) := by
  unfold extractUidFlags
  induction items using List.reverseRecOn with
  | nil => rfl
  | append_singleton items item ih =>
    rw [List.foldl_append, ih]
    cases item <;> simp [extractItem, lastSome_concat, MessageDataItem.uid?, MessageDataItem.flags?]

theorem lastSome_of_mem {α β : Type} {p : α → Option β} {l : List α} {a : α} {b : β} (ha : a ∈ l)
    (hp : p a = some b) : ∃ x ∈ l, ∃ y, p x = some y ∧ lastSome p l = some y := by
  cases h : lastSome p l with
  | none => rw [lastSome_eq_none.mp h a ha] at hp; simp at hp
  | some y =>
    obtain ⟨x, hx, hxy⟩ := exists_of_lastSome h
    exact ⟨x, hx, y, hxy, rfl⟩

theorem extractUidFlags_gives {items : List MessageDataItem} {uid : NonZeroU32}
    {flags : Finset Flag} (h : Gives items uid flags) :
    (extractUidFlags items).1 = some uid ∧ (extractUidFlags items).2.toFinset = flags := by
  rw [extractUidFlags_eq]
  constructor
  · obtain ⟨x, hx, u, hu, hlast⟩ := lastSome_of_mem (p := MessageDataItem.uid?) h.hasUid rfl
    cases x <;> simp only [MessageDataItem.uid?, Option.some.injEq, reduceCtorEq] at hu
    obtain rfl := hu
    rw [hlast, h.onlyUid _ hx]
  · obtain ⟨fs, hfs⟩ := h.hasFlags
    obtain ⟨x, hx, l, hl, hlast⟩ := lastSome_of_mem (p := MessageDataItem.flags?) hfs rfl
    cases x <;> simp only [MessageDataItem.flags?, Option.some.injEq, reduceCtorEq] at hl
    obtain rfl := hl
    rw [hlast, Option.getD_some, h.onlyFlags _ hx]

/-! ### The two ways to the content -/

section Agreement

variable {s : ShadowedMailbox} {content : View NonZeroU32 Flag}

theorem honestDelta_emits {out : ImapSendOutput Command} (h : HonestDelta s.shadow content out.data) :
    ∃ as, Emits s (s.computeDeltas (.ofOutput out)) as ∧ Toward content as ∧
      Reaches s.shadow.view content as := by
  obtain ⟨gone, hgone, honly, hall⟩ :=
    removeRanges_emits s (ImapMailboxSelectData.ofOutput out).vanishedEarlier
  refine ⟨_, hgone.trans (changeAll_emits _ _), ?_, ?_⟩
  · intro a ha
    rcases List.mem_append.mp ha with ha | ha
    · obtain ⟨hnone, hrange⟩ := honly a ha
      obtain ⟨set, hset, x, hx, hnames⟩ := ImapMailboxSelectData.vanishedEarlier_contains.mp hrange
      rw [hnone, h.goneOnly set hset x hx _ hnames]
    · obtain ⟨fetch, hfetch, ha⟩ := List.mem_filterMap.mp ha
      obtain ⟨uid, flags, hcontent, hgives⟩ :=
        h.changedOnly _ _ (ImapMailboxSelectData.mem_changed.mp hfetch)
      obtain ⟨huid, hflags⟩ := extractUidFlags_gives hgives
      rw [assignment, huid, hflags] at ha
      obtain rfl := Option.some.inj ha
      exact hcontent.symm
  · intro uid hne
    rw [List.map_append, List.mem_append]
    cases hcontent : content uid with
    | none =>
      rw [hcontent] at hne
      have hin : uid ∈ s.shadow := by rwa [← Std.TreeMap.mem_keys, Shadow.mem_keys_iff]
      exact .inl (hall uid hne
        (ImapMailboxSelectData.vanishedEarlier_contains.mpr (h.gone uid hin hcontent)))
    | some flags =>
      obtain ⟨seq, items, hdata, hgives⟩ := h.changed uid flags hcontent (hcontent ▸ hne)
      obtain ⟨huid, -⟩ := extractUidFlags_gives hgives
      have hassign : assignment ⟨seq, items⟩ = some (uid, some (extractUidFlags items).2.toFinset) := by
        rw [assignment, huid, Option.map_some]
      exact .inr (List.mem_map.mpr ⟨_, List.mem_filterMap.mpr
        ⟨⟨seq, items⟩, ImapMailboxSelectData.mem_changed.mpr hdata, hassign⟩, rfl⟩)

theorem fullSnapshot_view {snapshot : Snapshot} (h : FullSnapshot content snapshot) :
    snapshot.view = content := by
  funext uid
  cases hcontent : content uid with
  | none => rw [Snapshot.view, h.absent uid hcontent, Option.map_none]
  | some flags =>
    obtain ⟨items, hitems, hgives⟩ := h.present uid flags hcontent
    rw [Snapshot.view, hitems, Option.map_some, (extractUidFlags_gives hgives).2]

theorem fullSnapshot_emits {snapshot : Snapshot} (h : FullSnapshot content snapshot) :
    ∃ as, Emits s (s.computeSnapshotDeltas snapshot) as ∧ Toward content as ∧
      Reaches s.shadow.view content as := by
  rw [← fullSnapshot_view h]
  exact ⟨_, computeSnapshotDeltas_emits s snapshot, diff_toward s snapshot, diff_reaches s snapshot⟩

end Agreement

/-- Whichever way an honest server tells the new content of the mailbox, the
shadow ends the same, as the content, and the same changes are queued, up to
their order and the items that announce a message. -/
theorem resyncs_agree (s : ShadowedMailbox) {content : View NonZeroU32 Flag}
    {out : ImapSendOutput Command} {snapshot : Snapshot}
    (hdelta : HonestDelta s.shadow content out.data) (hfull : FullSnapshot content snapshot) :
    let delta := s.computeDeltas (.ofOutput out)
    let diff := s.computeSnapshotDeltas snapshot
    delta.shadow.view = diff.shadow.view ∧ delta.shadow.view = content ∧
      ∃ events events', delta.pending = s.pending ++ events ∧ diff.pending = s.pending ++ events' ∧
        (events.map ImapMailboxWatchEvent.change).Perm (events'.map ImapMailboxWatchEvent.change) := by
  obtain ⟨as, has, htoward, hreach⟩ := honestDelta_emits hdelta
  obtain ⟨bs, hbs, htoward', hreach'⟩ := fullSnapshot_emits (s := s) hfull
  obtain ⟨events, hevents, hchanges⟩ := has.queued
  obtain ⟨events', hevents', hchanges'⟩ := hbs.queued
  have hview := has.view.trans (assignAll_reaches htoward hreach)
  have hview' := hbs.view.trans (assignAll_reaches htoward' hreach')
  refine ⟨hview.trans hview'.symm, hview, events, events', hevents, hevents', ?_⟩
  rw [hchanges, hchanges']
  exact emits_perm htoward htoward' hreach hreach'

section Concrete

def uid1 : NonZeroU32 := .ofNat 1
def uid4 : NonZeroU32 := .ofNat 4
def uid5 : NonZeroU32 := .ofNat 5
def uid9 : NonZeroU32 := .ofNat 9

def knownMailbox : ShadowedMailbox := ⟨(Std.TreeMap.insert ∅ uid1 []).insert uid5 [], []⟩

def movedContent : View NonZeroU32 Flag := fun uid =>
  if uid = uid5 then some {Flag.flagged} else if uid = uid9 then some ∅ else none

def items5 : List MessageDataItem := [.uid uid5, .flags [.flag .flagged]]
def items9 : List MessageDataItem := [.flags [.recent], .uid uid9]

/-- A reversed range and the messages in no order. -/
def movedDelta : ImapSendOutput Command :=
  ⟨⟨⟨[]⟩, .idle⟩, ⟨[]⟩, [.fetch uid5 items9, .fetch uid1 items5,
    .vanished true [.range (.value uid4) (.value uid1)]], [], none, none, none⟩

def movedSnapshot : Snapshot := (Std.TreeMap.insert ∅ uid5 items5).insert uid9 items9

theorem items5_give : Gives items5 uid5 {Flag.flagged} :=
  ⟨by simp [items5], by simp [items5], ⟨[.flag .flagged], by simp [items5]⟩,
    by simp [items5, setFlags]⟩

theorem items9_give : Gives items9 uid9 ∅ :=
  ⟨by simp [items9], by simp [items9], ⟨[.recent], by simp [items9]⟩, by simp [items9, setFlags]⟩

theorem movedContent_cases {uid : NonZeroU32} {flags : Finset Flag}
    (h : movedContent uid = some flags) :
    (uid = uid5 ∧ flags = {Flag.flagged}) ∨ (uid = uid9 ∧ flags = ∅) := by
  unfold movedContent at h
  split at h
  · exact .inl ⟨‹_›, (Option.some.inj h).symm⟩
  · split at h
    · exact .inr ⟨‹_›, (Option.some.inj h).symm⟩
    · simp at h

theorem movedDelta_honest : HonestDelta knownMailbox.shadow movedContent movedDelta.data where
  gone uid hin hgone := by
    have hkey : compare uid1 uid = .eq ∨ compare uid5 uid = .eq := by
      simpa [knownMailbox, Std.TreeMap.mem_insert, eq_comm, or_comm] using hin
    rcases hkey.imp Std.LawfulEqOrd.eq_of_compare Std.LawfulEqOrd.eq_of_compare with rfl | rfl
    · have hnames : (Sequence.range (.value uid4) (.value uid1)).Names uid1 := .inr (by decide)
      exact ⟨_, by simp [movedDelta], _, List.mem_singleton_self _, hnames⟩
    · exact absurd hgone (by decide)
  goneOnly set hset x hx uid hnames := by
    obtain rfl : set = [.range (.value uid4) (.value uid1)] := by simpa [movedDelta] using hset
    obtain rfl := List.mem_singleton.mp hx
    have hle : uid.get ≤ 4 := by
      rcases hnames with ⟨h4, h1⟩ | ⟨-, h4⟩
      · exact Nat.le_trans h1 (by decide)
      · exact h4
    unfold movedContent
    rw [if_neg (by rintro rfl; revert hle; decide), if_neg (by rintro rfl; revert hle; decide)]
  changed uid flags hcontent _ := by
    rcases movedContent_cases hcontent with ⟨rfl, rfl⟩ | ⟨rfl, rfl⟩
    · exact ⟨uid1, items5, by simp [movedDelta], items5_give⟩
    · exact ⟨uid5, items9, by simp [movedDelta], items9_give⟩
  changedOnly seq items hdata := by
    have hitems : items = items9 ∨ items = items5 := by
      have h : (seq = uid5 ∧ items = items9) ∨ seq = uid1 ∧ items = items5 := by
        simpa [movedDelta] using hdata
      exact h.imp And.right And.right
    rcases hitems with rfl | rfl
    · exact ⟨uid9, ∅, rfl, items9_give⟩
    · exact ⟨uid5, {Flag.flagged}, rfl, items5_give⟩

theorem movedSnapshot_full : FullSnapshot movedContent movedSnapshot where
  absent uid h := by
    unfold movedContent at h
    split at h
    · simp at h
    · split at h
      · simp at h
      · rename_i h5 h9
        simp [movedSnapshot, Ne.symm h5, Ne.symm h9]
  present uid flags h := by
    rcases movedContent_cases h with ⟨rfl, rfl⟩ | ⟨rfl, rfl⟩
    · refine ⟨items5, ?_, items5_give⟩
      rw [movedSnapshot, Std.TreeMap.getElem?_insert, if_neg (by decide),
        Std.TreeMap.getElem?_insert_self]
    · refine ⟨items9, ?_, items9_give⟩
      rw [movedSnapshot, Std.TreeMap.getElem?_insert_self]

theorem resyncs_agree_moved :
    (knownMailbox.computeDeltas (.ofOutput movedDelta)).shadow.view =
      (knownMailbox.computeSnapshotDeltas movedSnapshot).shadow.view :=
  (resyncs_agree knownMailbox movedDelta_honest movedSnapshot_full).1

end Concrete
end IoImap
