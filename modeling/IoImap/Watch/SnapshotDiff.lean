import IoImap.Watch.Agreement

/-!
# The diff of a snapshot (watch.rs)

`compute_snapshot_deltas` takes over the messages and the flags of the snapshot
and queues, for every message, what became of it since: nothing, its arrival, its
removal, or the flags it gained and lost.
-/

namespace IoImap
open Replay ShadowedMailbox

def ImapMailboxWatchEvent.uid (event : ImapMailboxWatchEvent) : NonZeroU32 := event.change.key

/-- One event for a set of flags, and none for the empty one. -/
def TellsFlags (event : List Flag → ImapMailboxWatchEvent) (flags : Finset Flag)
    (events : List ImapMailboxWatchEvent) : Prop :=
  (flags = ∅ ∧ events = []) ∨
    (flags ≠ ∅ ∧ ∃ list : List Flag, list.toFinset = flags ∧ events = [event list])

/-- The events that tell what became of a message, from its flags in the shadow to its
items in the snapshot. -/
inductive TellsMessage (uid : NonZeroU32) :
    Option (List Flag) → Option (List MessageDataItem) → List ImapMailboxWatchEvent → Prop where
  | absent : TellsMessage uid none none []
  | vanished {old : List Flag} : TellsMessage uid (some old) none [.envelopeRemoved uid]
  | new {items : List MessageDataItem} :
      TellsMessage uid none (some items) [.envelopeAdded uid items]
  | kept {old : List Flag} {items : List MessageDataItem} {added removed : List ImapMailboxWatchEvent}
      (hadded : TellsFlags (.flagsAdded uid)
        ((extractUidFlags items).2.toFinset \ old.toFinset) added)
      (hremoved : TellsFlags (.flagsRemoved uid)
        (old.toFinset \ (extractUidFlags items).2.toFinset) removed) :
      TellsMessage uid (some old) (some items) (added ++ removed)

namespace Snapshot

/-- The two tell the same messages with the same flags, in whichever order and however often. -/
def SameFlags (snapshot again : Snapshot) : Prop := again.view = snapshot.view

end Snapshot

namespace ShadowedMailbox

variable {s : ShadowedMailbox} {snapshot : Snapshot}

/-! ### The shadow -/

theorem insertAll_shadow (s : ShadowedMailbox) (entries : List (NonZeroU32 × List MessageDataItem)) :
    (entries.foldl (fun s entry => s.insert entry.1 entry.2) s).shadow =
      s.shadow.insertMany (entries.map fun entry => (entry.1, (extractUidFlags entry.2).2)) := by
  induction entries generalizing s with
  | nil => rfl
  | cons entry entries ih =>
    rw [List.foldl_cons, ih, insert_shadow, List.map_cons, Std.TreeMap.insertMany_cons]

theorem computeSnapshotDeltas_shadow (s : ShadowedMailbox) (snapshot : Snapshot) (uid : NonZeroU32) :
    (s.computeSnapshotDeltas snapshot).shadow[uid]? =
      snapshot[uid]?.map fun items => (extractUidFlags items).2 := by
  have hdistinct : (snapshot.toList.map fun entry => (entry.1, (extractUidFlags entry.2).2)).Pairwise
      fun a b => ¬ compare a.1 b.1 = .eq :=
    List.pairwise_map.mpr Std.TreeMap.distinct_keys_toList
  unfold computeSnapshotDeltas
  rw [insertAll_shadow]
  cases hsnapshot : snapshot[uid]? with
  | some items =>
    have hmem : (uid, (extractUidFlags items).2) ∈
        snapshot.toList.map fun entry => (entry.1, (extractUidFlags entry.2).2) :=
      List.mem_map.mpr ⟨(uid, items), Std.TreeMap.mem_toList_iff_getElem?_eq_some.mpr hsnapshot, rfl⟩
    exact Std.TreeMap.getElem?_insertMany_list_of_mem Std.ReflOrd.compare_self hdistinct hmem
  | none =>
    have hout : uid ∉ snapshot := by
      rw [Std.TreeMap.mem_iff_isSome_getElem?, hsnapshot]
      simp
    have hnot : ((snapshot.toList.map fun entry => (entry.1, (extractUidFlags entry.2).2)).map
        Prod.fst).contains uid = false := by
      rw [List.map_map, Bool.eq_false_iff]
      intro hcontains
      obtain ⟨entry, hentry, rfl⟩ := List.mem_map.mp (List.contains_iff_mem.mp hcontains)
      rw [Function.comp_apply, Std.TreeMap.mem_toList_iff_getElem?_eq_some.mp hentry] at hsnapshot
      simp at hsnapshot
    rw [Std.TreeMap.getElem?_insertMany_list_of_contains_eq_false hnot, removeAll_shadow, Option.map_none]
    split
    · rfl
    · rename_i hkept
      rw [List.mem_filter, Std.TreeMap.mem_keys] at hkept
      have hshadow : uid ∉ s.shadow := fun hin => hkept ⟨hin, by simpa using hout⟩
      exact Std.TreeMap.getElem?_eq_none hshadow

/-! ### The events -/

theorem insertAll_announces (s : ShadowedMailbox)
    (entries : List (NonZeroU32 × List MessageDataItem)) :
    ∃ new, (entries.foldl (fun s entry => s.insert entry.1 entry.2) s).pending = s.pending ++ new ∧
      announced new ⊆ entries := by
  induction entries generalizing s with
  | nil => exact ⟨[], (List.append_nil _).symm, List.Subset.refl _⟩
  | cons entry entries ih =>
    obtain ⟨first, hfirst, hsub, -⟩ := insert_queues s entry.1 entry.2
    obtain ⟨rest, hrest, hsub'⟩ := ih (s.insert entry.1 entry.2)
    refine ⟨first ++ rest, by rw [List.foldl_cons, hrest, hfirst, List.append_assoc], ?_⟩
    rw [announced, List.filterMap_append]
    intro e he
    rcases List.mem_append.mp he with he | he
    · rw [List.mem_singleton.mp (hsub he)]
      exact List.mem_cons_self
    · exact List.mem_cons_of_mem _ (hsub' he)

theorem computeSnapshotDeltas_announces (s : ShadowedMailbox) (snapshot : Snapshot) :
    ∃ new, (s.computeSnapshotDeltas snapshot).pending = s.pending ++ new ∧
      announced new ⊆ snapshot.toList := by
  obtain ⟨new, hnew, hsub⟩ := insertAll_announces
    ((s.shadow.keys.filter fun uid => uid ∉ snapshot).foldl remove s) snapshot.toList
  refine ⟨_, by rw [computeSnapshotDeltas, hnew, removeAll_pending, List.append_assoc], ?_⟩
  have hremoved : announced ((s.shadow.keys.filter fun uid => uid ∉ snapshot).map .envelopeRemoved) =
      [] := by
    rw [announced, List.filterMap_map]
    exact List.filterMap_eq_nil_iff.mpr fun _ _ => rfl
  rw [announced, List.filterMap_append]
  rw [announced] at hremoved
  rw [hremoved, List.nil_append]
  exact hsub

theorem computeSnapshotDeltas_changes {events : List ImapMailboxWatchEvent}
    (hevents : (s.computeSnapshotDeltas snapshot).pending = s.pending ++ events) (uid : NonZeroU32) :
    (events.filter (·.uid = uid)).map ImapMailboxWatchEvent.change =
      changes uid (s.shadow.view uid) (snapshot.view uid) := by
  obtain ⟨new, hnew, hchanges⟩ := (computeSnapshotDeltas_emits s snapshot).queued
  obtain rfl : new = events := List.append_cancel_left (hnew.symm.trans hevents)
  have hmap : (new.filter (·.uid = uid)).map ImapMailboxWatchEvent.change =
      (new.map ImapMailboxWatchEvent.change).filter (·.key = uid) := by
    rw [List.filter_map]
    rfl
  rw [hmap, hchanges, filter_emits (diff_toward s snapshot)]
  split
  · rfl
  · rename_i hnot
    have hsame : s.shadow.view uid = snapshot.view uid :=
      by_contra fun hne => hnot (diff_reaches s snapshot uid hne)
    rw [hsame, changes_self]

end ShadowedMailbox

/-! ### One message -/

section Message

variable {uid : NonZeroU32} {event : ImapMailboxWatchEvent} {events : List ImapMailboxWatchEvent}
  {flags : Finset Flag}

theorem eq_flagsAdded (h : event.change = .labelled uid flags) :
    ∃ list : List Flag, list.toFinset = flags ∧ event = .flagsAdded uid list := by
  cases event <;> simp only [ImapMailboxWatchEvent.change, Change.labelled.injEq, reduceCtorEq] at h
  obtain ⟨rfl, hlist⟩ := h
  exact ⟨_, hlist, rfl⟩

theorem eq_flagsRemoved (h : event.change = .unlabelled uid flags) :
    ∃ list : List Flag, list.toFinset = flags ∧ event = .flagsRemoved uid list := by
  cases event <;> simp only [ImapMailboxWatchEvent.change, Change.unlabelled.injEq, reduceCtorEq] at h
  obtain ⟨rfl, hlist⟩ := h
  exact ⟨_, hlist, rfl⟩

theorem tellsFlags_of_changes {tells : List Flag → ImapMailboxWatchEvent}
    {change : Finset Flag → Change NonZeroU32 Flag}
    (htells : ∀ e : ImapMailboxWatchEvent, e.change = change flags →
      ∃ list : List Flag, list.toFinset = flags ∧ e = tells list)
    (h : events.map ImapMailboxWatchEvent.change = unlessEmpty change flags) :
    TellsFlags tells flags events := by
  unfold unlessEmpty at h
  split at h
  · rename_i hempty
    exact .inl ⟨hempty, List.map_eq_nil_iff.mp h⟩
  · rename_i hne
    obtain ⟨e, rfl, he⟩ := List.map_eq_singleton_iff.mp h
    obtain ⟨list, hlist, rfl⟩ := htells e he
    exact .inr ⟨hne, list, hlist, rfl⟩

theorem tellsMessage_of_changes {old : Option (List Flag)} {new : Option (List MessageDataItem)}
    (hchanges : events.map ImapMailboxWatchEvent.change =
      changes uid (old.map List.toFinset) (new.map fun items => (extractUidFlags items).2.toFinset))
    (hitems : ∀ items, .envelopeAdded uid items ∈ events → new = some items) :
    TellsMessage uid old new events := by
  cases old with
  | none =>
    cases new with
    | none =>
      rw [List.map_eq_nil_iff.mp hchanges]
      exact .absent
    | some items =>
      obtain ⟨e, rfl, he⟩ := List.map_eq_singleton_iff.mp hchanges
      cases e <;> simp only [ImapMailboxWatchEvent.change, Change.added.injEq, reduceCtorEq] at he
      obtain ⟨rfl, -⟩ := he
      rw [hitems _ List.mem_cons_self]
      exact .new
  | some flags =>
    cases new with
    | none =>
      obtain ⟨e, rfl, he⟩ := List.map_eq_singleton_iff.mp hchanges
      cases e <;> simp only [ImapMailboxWatchEvent.change, Change.removed.injEq, reduceCtorEq] at he
      rw [he]
      exact .vanished
    | some items =>
      obtain ⟨added, removed, rfl, hadded, hremoved⟩ := List.map_eq_append_iff.mp hchanges
      exact .kept (tellsFlags_of_changes (fun _ => eq_flagsAdded) hadded)
        (tellsFlags_of_changes (fun _ => eq_flagsRemoved) hremoved)

end Message

open ShadowedMailbox

/-- From any shadow, the diff of a snapshot leaves the messages and the flags of the
snapshot and tells of each message what became of it; the diff of a further snapshot that
tells the same flags queues nothing. -/
theorem snapshot_diff_exact (s : ShadowedMailbox) (snapshot : Snapshot) :
    let s' := s.computeSnapshotDeltas snapshot
    (∀ uid : NonZeroU32, s'.shadow[uid]? = snapshot[uid]?.map fun items => (extractUidFlags items).2) ∧
      (∃ events, s'.pending = s.pending ++ events ∧
        ∀ uid : NonZeroU32, TellsMessage uid s.shadow[uid]? snapshot[uid]? (events.filter (·.uid = uid))) ∧
      ∀ pending again, snapshot.SameFlags again →
        (computeSnapshotDeltas ⟨s'.shadow, pending⟩ again).pending = pending := by
  intro s'
  refine ⟨computeSnapshotDeltas_shadow s snapshot, ?_, ?_⟩
  · obtain ⟨events, hevents, hannounced⟩ := computeSnapshotDeltas_announces s snapshot
    refine ⟨events, hevents, fun uid => tellsMessage_of_changes
      (computeSnapshotDeltas_changes hevents uid) fun items hitems => ?_⟩
    have hmem : (uid, items) ∈ announced events :=
      List.mem_filterMap.mpr ⟨_, List.mem_of_mem_filter hitems, rfl⟩
    exact Std.TreeMap.mem_toList_iff_getElem?_eq_some.mp (hannounced hmem)
  · intro pending again hsame
    obtain ⟨events, hevents, -⟩ := computeSnapshotDeltas_announces ⟨s'.shadow, pending⟩ again
    have hview : s'.shadow.view = again.view := by
      rw [hsame]
      funext uid
      rw [Shadow.view, computeSnapshotDeltas_shadow, Option.map_map]
      rfl
    have hnone : events = [] := by
      rw [List.eq_nil_iff_forall_not_mem]
      intro event hevent
      have hchanges := computeSnapshotDeltas_changes hevents event.uid
      rw [hview, changes_self, List.map_eq_nil_iff] at hchanges
      have hmem : event ∈ events.filter (·.uid = event.uid) :=
        List.mem_filter.mpr ⟨hevent, decide_eq_true rfl⟩
      rw [hchanges] at hmem
      exact List.not_mem_nil hmem
    rw [hevents, hnone, List.append_nil]

section Concrete

/-- The messages of `movedSnapshot`, one with its flag twice. -/
def repeatedSnapshot : Snapshot :=
  (Std.TreeMap.insert ∅ uid5 [.flags [.flag .flagged, .flag .flagged], .uid uid5]).insert uid9 items9

theorem repeatedSnapshot_sameFlags : movedSnapshot.SameFlags repeatedSnapshot := by
  funext uid
  simp only [Snapshot.view, repeatedSnapshot, movedSnapshot, Std.TreeMap.getElem?_insert]
  split
  · rfl
  · split
    · rfl
    · rfl

theorem snapshot_diff_exact_repeated :
    (computeSnapshotDeltas ⟨(knownMailbox.computeSnapshotDeltas movedSnapshot).shadow, []⟩
      repeatedSnapshot).pending = [] :=
  (snapshot_diff_exact knownMailbox movedSnapshot).2.2 [] _ repeatedSnapshot_sameFlags

end Concrete
end IoImap
