import IoImap.Replay.Changes
import IoImap.Rfc3501.Select

/-!
# The shadow of a watched mailbox (watch.rs)

The watcher keeps the flags of every message by UID and queues an event for
every difference that a re-read brings: the ranges and FETCH items of a QRESYNC
EXAMINE, or a snapshot of the whole mailbox. As a view from UIDs to flag sets,
both ways assign new contents to UIDs and queue the changes that replay them.
-/

namespace IoImap
open Replay

inductive ImapMailboxWatchEvent where
  | envelopeAdded (uid : NonZeroU32) (items : List MessageDataItem)
  | flagsAdded (uid : NonZeroU32) (flags : List Flag)
  | flagsRemoved (uid : NonZeroU32) (flags : List Flag)
  | envelopeRemoved (uid : NonZeroU32)
  deriving DecidableEq

/-- The flags of a FLAGS item, `\Recent` left out. -/
def setFlags (flags : List FlagFetch) : List Flag :=
  flags.filterMap fun
    | .flag flag => some flag
    | .recent => none

def extractItem (r : Option NonZeroU32 × List Flag) : MessageDataItem → Option NonZeroU32 × List Flag
  | .uid uid => (some uid, r.2)
  | .flags flags => (r.1, setFlags flags)
  | _ => r

def extractUidFlags (items : List MessageDataItem) : Option NonZeroU32 × List Flag :=
  items.foldl extractItem (none, [])

abbrev Shadow := Std.TreeMap NonZeroU32 (List Flag)

abbrev Snapshot := Std.TreeMap NonZeroU32 (List MessageDataItem)

/-- What the delta computation reads and writes of `ImapMailboxWatch`. -/
structure ShadowedMailbox where
  shadow : Shadow
  pending : List ImapMailboxWatchEvent

namespace ShadowedMailbox

def queue (s : ShadowedMailbox) (event : ImapMailboxWatchEvent) : ShadowedMailbox :=
  { s with pending := s.pending ++ [event] }

def pushFlagDeltas (s : ShadowedMailbox) (uid : NonZeroU32) (oldFlags newFlags : List Flag) :
    ShadowedMailbox :=
  let added := newFlags.filter fun flag => flag ∉ oldFlags
  let removed := oldFlags.filter fun flag => flag ∉ newFlags
  let s := if added = [] then s else s.queue (.flagsAdded uid added)
  if removed = [] then s else s.queue (.flagsRemoved uid removed)

def remove (s : ShadowedMailbox) (uid : NonZeroU32) : ShadowedMailbox :=
  { s with shadow := s.shadow.erase uid }.queue (.envelopeRemoved uid)

def insert (s : ShadowedMailbox) (uid : NonZeroU32) (items : List MessageDataItem) :
    ShadowedMailbox :=
  let newFlags := (extractUidFlags items).2
  let s' := { s with shadow := s.shadow.insert uid newFlags }
  match s.shadow[uid]? with
  | none => s'.queue (.envelopeAdded uid items)
  | some oldFlags => s'.pushFlagDeltas uid oldFlags newFlags

def computeSnapshotDeltas (s : ShadowedMailbox) (snapshot : Snapshot) : ShadowedMailbox :=
  let vanished := s.shadow.keys.filter fun uid => uid ∉ snapshot
  snapshot.toList.foldl (fun s entry => s.insert entry.1 entry.2) (vanished.foldl remove s)

def removeRange (s : ShadowedMailbox) (range : RangeInclusive) : ShadowedMailbox :=
  (s.shadow.keys.filter range.contains).foldl remove s

def change (s : ShadowedMailbox) (fetch : ImapMailboxSelectFetch) : ShadowedMailbox :=
  match (extractUidFlags fetch.items).1 with
  | none => s
  | some uid => s.insert uid fetch.items

def computeDeltas (s : ShadowedMailbox) (data : ImapMailboxSelectData) : ShadowedMailbox :=
  data.changed.foldl change (data.vanishedEarlier.foldl removeRange s)

end ShadowedMailbox

/-! ### The shadow as a view -/

/-- The shadow as a map from UIDs to flag sets. -/
def Shadow.view (shadow : Shadow) : View NonZeroU32 Flag := fun uid => shadow[uid]?.map List.toFinset

def ImapMailboxWatchEvent.change : ImapMailboxWatchEvent → Change NonZeroU32 Flag
  | .envelopeAdded uid items => .added uid (extractUidFlags items).2.toFinset
  | .flagsAdded uid flags => .labelled uid flags.toFinset
  | .flagsRemoved uid flags => .unlabelled uid flags.toFinset
  | .envelopeRemoved uid => .removed uid

namespace Shadow

variable {shadow : Shadow} {uid : NonZeroU32}

theorem view_insert (flags : List Flag) :
    view (shadow.insert uid flags) = Function.update shadow.view uid (some flags.toFinset) := by
  funext x
  by_cases h : x = uid
  · simp [view, h]
  · simp [view, Std.TreeMap.getElem?_insert, Function.update_of_ne h, Ne.symm h]

theorem view_erase : view (shadow.erase uid) = Function.update shadow.view uid none := by
  funext x
  by_cases h : x = uid
  · simp [view, h]
  · simp [view, Std.TreeMap.getElem?_erase, Function.update_of_ne h, Ne.symm h]

theorem mem_keys_iff : uid ∈ shadow.keys ↔ shadow.view uid ≠ none := by
  rw [Std.TreeMap.mem_keys, Std.TreeMap.mem_iff_isSome_getElem?, view, Option.ne_none_iff_isSome,
    Option.isSome_map]

end Shadow

namespace Snapshot

/-- The flags that a snapshot tells, by UID. -/
def view (snapshot : Snapshot) : View NonZeroU32 Flag :=
  fun uid => snapshot[uid]?.map fun items => (extractUidFlags items).2.toFinset

variable {snapshot : Snapshot} {uid : NonZeroU32}

theorem view_eq_none : snapshot.view uid = none ↔ uid ∉ snapshot := by
  rw [view, Option.map_eq_none_iff, Std.TreeMap.mem_iff_isSome_getElem?]
  simp

theorem view_of_mem {items : List MessageDataItem} (h : (uid, items) ∈ snapshot.toList) :
    snapshot.view uid = some (extractUidFlags items).2.toFinset := by
  rw [view, Std.TreeMap.mem_toList_iff_getElem?_eq_some.mp h, Option.map_some]

end Snapshot

namespace ShadowedMailbox

/-- The step from `s` to `s'` makes the assignments `as` and queues what they change. -/
structure Emits (s s' : ShadowedMailbox) (as : Assignments NonZeroU32 Flag) : Prop where
  view : s'.shadow.view = assignAll s.shadow.view as
  queued : ∃ new, s'.pending = s.pending ++ new ∧
    new.map ImapMailboxWatchEvent.change = emits s.shadow.view as

namespace Emits

variable {s t u : ShadowedMailbox} {as bs : Assignments NonZeroU32 Flag}

theorem refl (s : ShadowedMailbox) : Emits s s [] := ⟨rfl, [], by simp, rfl⟩

theorem trans (h : Emits s t as) (k : Emits t u bs) : Emits s u (as ++ bs) := by
  obtain ⟨new, hn, hnew⟩ := h.queued
  obtain ⟨new', hn', hnew'⟩ := k.queued
  refine ⟨by rw [k.view, h.view, assignAll_append], new ++ new', ?_, ?_⟩
  · rw [hn', hn, List.append_assoc]
  · rw [List.map_append, hnew, hnew', h.view, emits_append]

theorem prepend (h : Emits s t as) (events : List ImapMailboxWatchEvent) :
    Emits ⟨s.shadow, events ++ s.pending⟩ ⟨t.shadow, events ++ t.pending⟩ as := by
  obtain ⟨new, hn, hnew⟩ := h.queued
  exact ⟨h.view, new, by rw [hn, List.append_assoc], hnew⟩

end Emits

section Steps

variable {s : ShadowedMailbox} {uid : NonZeroU32}

theorem toFinset_filter_notMem (l l' : List Flag) :
    (l.filter fun flag => flag ∉ l').toFinset = l.toFinset \ l'.toFinset := by
  ext flag
  simp

theorem pushFlagDeltas_queued (s : ShadowedMailbox) (uid : NonZeroU32) (oldFlags newFlags : List Flag) :
    (s.pushFlagDeltas uid oldFlags newFlags).shadow = s.shadow ∧
      ∃ new, (s.pushFlagDeltas uid oldFlags newFlags).pending = s.pending ++ new ∧
        new.map ImapMailboxWatchEvent.change =
          changes uid (some oldFlags.toFinset) (some newFlags.toFinset) := by
  have hadded := toFinset_filter_notMem newFlags oldFlags
  have hremoved := toFinset_filter_notMem oldFlags newFlags
  unfold pushFlagDeltas
  simp only [changes, unlessEmpty, ← hadded, ← hremoved, List.toFinset_eq_empty_iff]
  generalize (newFlags.filter fun flag => flag ∉ oldFlags) = added
  generalize (oldFlags.filter fun flag => flag ∉ newFlags) = removed
  split <;> split
  · exact ⟨rfl, [], by simp, rfl⟩
  · exact ⟨rfl, [.flagsAdded uid added], rfl, rfl⟩
  · exact ⟨rfl, [.flagsRemoved uid removed], rfl, rfl⟩
  · exact ⟨rfl, [.flagsAdded uid added, .flagsRemoved uid removed], by simp [queue], rfl⟩

theorem remove_emits (h : s.shadow.view uid ≠ none) : Emits s (s.remove uid) [(uid, none)] := by
  obtain ⟨flags, hflags⟩ := Option.ne_none_iff_exists'.mp h
  exact ⟨Shadow.view_erase, [.envelopeRemoved uid], rfl, by simp [emits, hflags, changes,
    ImapMailboxWatchEvent.change]⟩

theorem insert_emits (s : ShadowedMailbox) (uid : NonZeroU32) (items : List MessageDataItem) :
    Emits s (s.insert uid items) [(uid, some (extractUidFlags items).2.toFinset)] := by
  have hview : Shadow.view (s.shadow.insert uid (extractUidFlags items).2) =
      Function.update (Shadow.view s.shadow) uid (some (extractUidFlags items).2.toFinset) :=
    Shadow.view_insert _
  have hemits : emits s.shadow.view [(uid, some (extractUidFlags items).2.toFinset)] =
      changes uid (s.shadow[uid]?.map List.toFinset) (some (extractUidFlags items).2.toFinset) := by
    rw [emits, emits, List.append_nil]
    rfl
  unfold insert
  cases h : s.shadow[uid]? with
  | none => exact ⟨hview, [.envelopeAdded uid items], rfl, by rw [hemits, h]; rfl⟩
  | some oldFlags =>
    obtain ⟨hshadow, new, hnew, hchanges⟩ := pushFlagDeltas_queued
      { s with shadow := s.shadow.insert uid (extractUidFlags items).2 } uid oldFlags
      (extractUidFlags items).2
    refine ⟨by rw [hshadow]; exact hview, new, hnew, ?_⟩
    rw [hchanges, hemits, h, Option.map_some]

theorem removeAll_emits {uids : List NonZeroU32} (hnodup : uids.Nodup)
    (h : ∀ uid ∈ uids, s.shadow.view uid ≠ none) :
    Emits s (uids.foldl remove s) (uids.map fun uid => (uid, none)) := by
  induction uids generalizing s with
  | nil => exact .refl s
  | cons uid uids ih =>
    obtain ⟨hnew, hnodup⟩ := List.nodup_cons.mp hnodup
    have hfirst := remove_emits (h uid List.mem_cons_self)
    refine hfirst.trans (ih hnodup fun x hx => ?_)
    have hne : x ≠ uid := fun he => hnew (he ▸ hx)
    rw [hfirst.view, assignAll_cons]
    simpa [assignAll, Function.update_of_ne hne] using h x (List.mem_cons_of_mem _ hx)

theorem removeAll_shadow (s : ShadowedMailbox) (uids : List NonZeroU32) (uid : NonZeroU32) :
    (uids.foldl remove s).shadow[uid]? = if uid ∈ uids then none else s.shadow[uid]? := by
  induction uids generalizing s with
  | nil => rfl
  | cons first uids ih =>
    have hfirst : (s.remove first).shadow[uid]? = if uid = first then none else s.shadow[uid]? := by
      rw [show (s.remove first).shadow = s.shadow.erase first from rfl, Std.TreeMap.getElem?_erase]
      by_cases h : uid = first
      · simp [h]
      · simp [h, Ne.symm h]
    rw [List.foldl_cons, ih, hfirst]
    by_cases hrest : uid ∈ uids
    · simp [hrest]
    · simp [hrest]

theorem keys_filter_emits (s : ShadowedMailbox) (p : NonZeroU32 → Bool) :
    Emits s ((s.shadow.keys.filter p).foldl remove s)
      ((s.shadow.keys.filter p).map fun uid => (uid, none)) :=
  removeAll_emits (Std.TreeMap.nodup_keys.filter _) fun _ h =>
    Shadow.mem_keys_iff.mp (List.mem_filter.mp h).1

theorem insertAll_emits (s : ShadowedMailbox) (entries : List (NonZeroU32 × List MessageDataItem)) :
    Emits s (entries.foldl (fun s entry => s.insert entry.1 entry.2) s)
      (entries.map fun entry => (entry.1, some (extractUidFlags entry.2).2.toFinset)) := by
  induction entries generalizing s with
  | nil => exact .refl s
  | cons entry entries ih => exact (insert_emits s entry.1 entry.2).trans (ih _)

theorem insert_shadow (s : ShadowedMailbox) (uid : NonZeroU32) (items : List MessageDataItem) :
    (s.insert uid items).shadow = s.shadow.insert uid (extractUidFlags items).2 := by
  unfold insert
  cases s.shadow[uid]? with
  | none => rfl
  | some oldFlags => exact (pushFlagDeltas_queued _ uid oldFlags _).1

/-- The messages that the events announce as new. -/
def announced (events : List ImapMailboxWatchEvent) : List (NonZeroU32 × List MessageDataItem) :=
  events.filterMap fun
    | .envelopeAdded uid items => some (uid, items)
    | _ => none

/-- A message that is told may be new to the shadow; it is never queued as removed. -/
theorem insert_queues (s : ShadowedMailbox) (uid : NonZeroU32) (items : List MessageDataItem) :
    ∃ new, (s.insert uid items).pending = s.pending ++ new ∧ announced new ⊆ [(uid, items)] ∧
      ∀ u, .envelopeRemoved u ∉ new := by
  unfold insert
  cases s.shadow[uid]? with
  | none => exact ⟨[.envelopeAdded uid items], rfl, List.Subset.refl _, by simp⟩
  | some oldFlags =>
    simp only [pushFlagDeltas]
    split <;> split
    · exact ⟨[], (List.append_nil _).symm, List.nil_subset _, by simp⟩
    · exact ⟨[_], rfl, List.nil_subset _, by simp⟩
    · exact ⟨[_], rfl, List.nil_subset _, by simp⟩
    · exact ⟨[_, _], List.append_assoc .., List.nil_subset _, by simp⟩

theorem removeAll_pending (s : ShadowedMailbox) (uids : List NonZeroU32) :
    (uids.foldl remove s).pending = s.pending ++ uids.map .envelopeRemoved := by
  induction uids generalizing s with
  | nil => exact (List.append_nil _).symm
  | cons uid uids ih =>
    rw [List.foldl_cons, ih, show (s.remove uid).pending = s.pending ++ [.envelopeRemoved uid] from rfl,
      List.append_assoc]
    rfl

def assignment (fetch : ImapMailboxSelectFetch) : Option (NonZeroU32 × Option (Finset Flag)) :=
  (extractUidFlags fetch.items).1.map fun uid => (uid, some (extractUidFlags fetch.items).2.toFinset)

theorem changeAll_emits (s : ShadowedMailbox) (fetches : List ImapMailboxSelectFetch) :
    Emits s (fetches.foldl change s) (fetches.filterMap assignment) := by
  induction fetches generalizing s with
  | nil => exact .refl s
  | cons fetch fetches ih =>
    rw [List.foldl_cons]
    cases h : (extractUidFlags fetch.items).1 with
    | none =>
      have hskip : s.change fetch = s := by rw [change, h]
      rw [hskip, List.filterMap_cons_none (by rw [assignment, h]; rfl)]
      exact ih s
    | some uid =>
      have hinsert : s.change fetch = s.insert uid fetch.items := by rw [change, h]
      rw [hinsert, List.filterMap_cons_some (by rw [assignment, h]; rfl)]
      exact (insert_emits s uid fetch.items).trans (ih _)

/-- The ranges of a VANISHED, one after the other: they remove exactly the
messages they name. -/
theorem removeRanges_emits (s : ShadowedMailbox) (ranges : List RangeInclusive) :
    ∃ as, Emits s (ranges.foldl removeRange s) as ∧
      (∀ a ∈ as, a.2 = none ∧ ∃ range ∈ ranges, range.contains a.1 = true) ∧
      ∀ uid, s.shadow.view uid ≠ none → (∃ range ∈ ranges, range.contains uid = true) →
        uid ∈ as.map Prod.fst := by
  induction ranges generalizing s with
  | nil => exact ⟨[], .refl s, by simp, by simp⟩
  | cons range ranges ih =>
    let uids := s.shadow.keys.filter range.contains
    have hfirst : Emits s (s.removeRange range) (uids.map fun uid => (uid, none)) :=
      keys_filter_emits s range.contains
    obtain ⟨as, hrest, honly, hall⟩ := ih (s.removeRange range)
    have hmem : ∀ uid, uid ∈ uids ↔ s.shadow.view uid ≠ none ∧ range.contains uid = true := by
      intro uid
      rw [List.mem_filter, Shadow.mem_keys_iff]
    refine ⟨_, hfirst.trans hrest, ?_, ?_⟩
    · intro a ha
      rcases List.mem_append.mp ha with ha | ha
      · obtain ⟨uid, huid, rfl⟩ := List.mem_map.mp ha
        exact ⟨rfl, range, List.mem_cons_self, ((hmem uid).mp huid).2⟩
      · obtain ⟨hnone, r, hr, hc⟩ := honly a ha
        exact ⟨hnone, r, List.mem_cons_of_mem _ hr, hc⟩
    · intro uid hin hx
      obtain ⟨r, hr, hc⟩ := hx
      rw [List.map_append, List.mem_append, List.map_map]
      by_cases hrange : range.contains uid = true
      · exact .inl (List.mem_map.mpr ⟨uid, (hmem uid).mpr ⟨hin, hrange⟩, rfl⟩)
      · -- the message outlives this range, so a later one removes it
        refine .inr (hall uid ?_ ⟨r, ?_, hc⟩)
        · have hout : uid ∉ uids := fun hu => hrange ((hmem uid).mp hu).2
          have htoward : Toward (fun _ => none)
              (uids.map fun uid => (uid, (none : Option (Finset Flag)))) := by
            intro a ha
            obtain ⟨x, -, rfl⟩ := List.mem_map.mp ha
            rfl
          rw [hfirst.view, assignAll_toward htoward, if_neg (by simpa [List.map_map] using hout)]
          exact hin
        · rcases List.mem_cons.mp hr with rfl | hr
          · exact absurd hc hrange
          · exact hr

/-- What a snapshot assigns: the messages it lacks are gone, those it has are as it tells. -/
def diff (s : ShadowedMailbox) (snapshot : Snapshot) : Assignments NonZeroU32 Flag :=
  ((s.shadow.keys.filter fun uid => uid ∉ snapshot).map fun uid => (uid, none)) ++
    snapshot.toList.map fun entry => (entry.1, some (extractUidFlags entry.2).2.toFinset)

theorem computeSnapshotDeltas_emits (s : ShadowedMailbox) (snapshot : Snapshot) :
    Emits s (s.computeSnapshotDeltas snapshot) (s.diff snapshot) :=
  (keys_filter_emits s _).trans (insertAll_emits _ _)

theorem diff_toward (s : ShadowedMailbox) (snapshot : Snapshot) :
    Toward snapshot.view (s.diff snapshot) := by
  intro a ha
  rcases List.mem_append.mp ha with ha | ha
  · obtain ⟨uid, huid, rfl⟩ := List.mem_map.mp ha
    have hout : uid ∉ snapshot := by simpa using (List.mem_filter.mp huid).2
    exact (Snapshot.view_eq_none.mpr hout).symm
  · obtain ⟨⟨uid, items⟩, hentry, rfl⟩ := List.mem_map.mp ha
    exact (Snapshot.view_of_mem hentry).symm

theorem diff_reaches (s : ShadowedMailbox) (snapshot : Snapshot) :
    Reaches s.shadow.view snapshot.view (s.diff snapshot) := by
  intro uid hne
  rw [diff, List.map_append, List.mem_append]
  by_cases hin : uid ∈ snapshot
  · obtain ⟨items, hitems⟩ := Option.isSome_iff_exists.mp (Std.TreeMap.mem_iff_isSome_getElem?.mp hin)
    exact .inr (List.mem_map.mpr ⟨_, List.mem_map.mpr
      ⟨(uid, items), Std.TreeMap.mem_toList_iff_getElem?_eq_some.mpr hitems, rfl⟩, rfl⟩)
  · rw [Snapshot.view_eq_none.mpr hin] at hne
    refine .inl (List.mem_map.mpr ⟨_, List.mem_map.mpr ⟨uid, List.mem_filter.mpr ⟨?_, ?_⟩, rfl⟩, rfl⟩)
    · exact Shadow.mem_keys_iff.mpr hne
    · simpa using hin

theorem computeDeltas_emits (s : ShadowedMailbox) (data : ImapMailboxSelectData) :
    ∃ as, Emits s (s.computeDeltas data) as := by
  obtain ⟨as, has, -, -⟩ := removeRanges_emits s data.vanishedEarlier
  exact ⟨_, has.trans (changeAll_emits _ _)⟩

end Steps
end ShadowedMailbox
end IoImap
