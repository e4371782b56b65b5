import IoImap.Watch.SnapshotDiff

/-!
# The messages a response removes (select.rs, watch.rs)

The uid-sets of a response are read as ranges that never run backwards, and the
walk over them removes the messages of the shadow that they name, each once
however often it is named.
-/

namespace IoImap
open Replay ShadowedMailbox

/-- A VANISHED (EARLIER) of the response names the message; `*` is the largest UID. -/
def AnnouncedGone (data : List Data) (uid : NonZeroU32) : Prop :=
  ∃ set, Data.vanished true set ∈ data ∧ ∃ x ∈ set, x.Names uid

/-- A FETCH of the response is about the message. -/
def Refetched (data : List Data) (uid : NonZeroU32) : Prop :=
  ∃ seq items, Data.fetch seq items ∈ data ∧ (extractUidFlags items).1 = some uid

namespace ShadowedMailbox

variable {s : ShadowedMailbox} {uid : NonZeroU32}

/-- The shadow once the ranges of the response have been walked, before its FETCH items. -/
def walked (s : ShadowedMailbox) (out : ImapSendOutput Command) : ShadowedMailbox :=
  (ImapMailboxSelectData.ofOutput out).vanishedEarlier.foldl removeRange s

/-! ### The ranges -/

theorem removeRange_shadow (s : ShadowedMailbox) (range : RangeInclusive) (uid : NonZeroU32) :
    (s.removeRange range).shadow[uid]? = if range.contains uid then none else s.shadow[uid]? := by
  rw [removeRange, removeAll_shadow]
  simp only [List.mem_filter, Std.TreeMap.mem_keys]
  by_cases hrange : range.contains uid = true
  · by_cases hin : uid ∈ s.shadow
    · simp [hrange, hin]
    · simp [hrange, hin]
  · simp [hrange]

theorem removeRanges_shadow (s : ShadowedMailbox) (ranges : List RangeInclusive) (uid : NonZeroU32) :
    (ranges.foldl removeRange s).shadow[uid]? =
      if ∃ range ∈ ranges, range.contains uid = true then none else s.shadow[uid]? := by
  induction ranges generalizing s with
  | nil => simp
  | cons range ranges ih =>
    rw [List.foldl_cons, ih, removeRange_shadow]
    by_cases hrest : ∃ range ∈ ranges, range.contains uid = true
    · simp [hrest]
    · simp [hrest]

theorem removeRanges_pending (s : ShadowedMailbox) (ranges : List RangeInclusive) :
    ∃ uids : List NonZeroU32, (ranges.foldl removeRange s).pending =
        s.pending ++ uids.map .envelopeRemoved ∧ uids.Nodup ∧
      ∀ uid, uid ∈ uids ↔ uid ∈ s.shadow ∧ ∃ range ∈ ranges, range.contains uid = true := by
  induction ranges generalizing s with
  | nil => exact ⟨[], (List.append_nil _).symm, .nil, by simp⟩
  | cons range ranges ih =>
    obtain ⟨uids, hpending, hnodup, hmem⟩ := ih (s.removeRange range)
    have hfirst := removeAll_pending s (s.shadow.keys.filter range.contains)
    have hkept : ∀ uid, uid ∈ (s.removeRange range).shadow ↔
        uid ∈ s.shadow ∧ range.contains uid = false := by
      intro uid
      rw [Std.TreeMap.mem_iff_isSome_getElem?, removeRange_shadow, Std.TreeMap.mem_iff_isSome_getElem?]
      cases range.contains uid <;> simp
    refine ⟨s.shadow.keys.filter range.contains ++ uids, ?_, ?_, fun uid => ?_⟩
    · rw [List.foldl_cons, hpending, removeRange, hfirst, List.map_append, List.append_assoc]
    · refine List.nodup_append.mpr ⟨Std.TreeMap.nodup_keys.filter _, hnodup, ?_⟩
      intro a ha b hb he
      obtain rfl := he
      have hgone := ((hkept a).mp ((hmem a).mp hb).1).2
      rw [(List.mem_filter.mp ha).2] at hgone
      exact Bool.true_eq_false_eq_False hgone
    · rw [List.mem_append, List.mem_filter, Std.TreeMap.mem_keys, hmem, hkept]
      cases hc : range.contains uid with
      | true => simp [hc]
      | false => simp [hc]

/-! ### The FETCH items -/

theorem changeAll_queues (s : ShadowedMailbox) (fetches : List ImapMailboxSelectFetch) :
    ∃ new, (fetches.foldl change s).pending = s.pending ++ new ∧ ∀ u, .envelopeRemoved u ∉ new := by
  induction fetches generalizing s with
  | nil => exact ⟨[], (List.append_nil _).symm, by simp⟩
  | cons fetch fetches ih =>
    obtain ⟨rest, hrest, hnone⟩ := ih (s.change fetch)
    rw [List.foldl_cons, hrest]
    cases h : (extractUidFlags fetch.items).1 with
    | none =>
      have hskip : s.change fetch = s := by rw [change, h]
      rw [hskip]
      exact ⟨rest, rfl, hnone⟩
    | some uid =>
      have hinsert : s.change fetch = s.insert uid fetch.items := by rw [change, h]
      obtain ⟨first, hfirst, -, hnot⟩ := insert_queues s uid fetch.items
      refine ⟨first ++ rest, by rw [hinsert, hfirst, List.append_assoc], fun u hu => ?_⟩
      rcases List.mem_append.mp hu with hu | hu
      · exact hnot u hu
      · exact hnone u hu

theorem changeAll_shadow {fetches : List ImapMailboxSelectFetch}
    (h : ∀ fetch ∈ fetches, (extractUidFlags fetch.items).1 ≠ some uid) :
    (fetches.foldl change s).shadow[uid]? = s.shadow[uid]? := by
  induction fetches generalizing s with
  | nil => rfl
  | cons fetch fetches ih =>
    rw [List.foldl_cons, ih fun x hx => h x (List.mem_cons_of_mem _ hx)]
    have hne := h fetch List.mem_cons_self
    cases hfetch : (extractUidFlags fetch.items).1 with
    | none => rw [change, hfetch]
    | some uid' =>
      rw [hfetch] at hne
      rw [show s.change fetch = s.insert uid' fetch.items by rw [change, hfetch], insert_shadow,
        Std.TreeMap.getElem?_insert, if_neg]
      simpa using hne

end ShadowedMailbox

/-- The ranges of a response never run backwards and name what it announces as gone. The
walk over them takes exactly the messages announced out of the shadow, and one removal is
queued for each that was there and for no other; what is not fetched again in the same
response stays as the walk left it. -/
structure RemovesAnnounced (s : ShadowedMailbox) (out : ImapSendOutput Command) : Prop where
  forwards : ∀ range ∈ (ImapMailboxSelectData.ofOutput out).vanishedEarlier, range.start ≤ range.stop
  union : ∀ uid, (∃ range ∈ (ImapMailboxSelectData.ofOutput out).vanishedEarlier,
    range.contains uid = true) ↔ AnnouncedGone out.data uid
  gone : ∀ uid, AnnouncedGone out.data uid → uid ∉ (walked s out).shadow
  kept : ∀ uid : NonZeroU32, ¬ AnnouncedGone out.data uid →
    (walked s out).shadow[uid]? = s.shadow[uid]?
  queued : ∃ events, (s.computeDeltas (.ofOutput out)).pending = s.pending ++ events ∧
    (∀ uid, uid ∈ s.shadow → AnnouncedGone out.data uid → events.count (.envelopeRemoved uid) = 1) ∧
    ∀ uid, ¬ (uid ∈ s.shadow ∧ AnnouncedGone out.data uid) → .envelopeRemoved uid ∉ events
  rest : ∀ uid : NonZeroU32, ¬ Refetched out.data uid →
    (s.computeDeltas (.ofOutput out)).shadow[uid]? = (walked s out).shadow[uid]?

theorem vanished_removes_announced (s : ShadowedMailbox) (out : ImapSendOutput Command) :
    RemovesAnnounced s out := by
  have hnames : ∀ uid, (∃ range ∈ (ImapMailboxSelectData.ofOutput out).vanishedEarlier,
      range.contains uid = true) ↔ AnnouncedGone out.data uid :=
    fun uid => ImapMailboxSelectData.vanishedEarlier_contains
  constructor
  case forwards =>
    intro range hrange
    obtain ⟨x, rfl⟩ := ImapMailboxSelectData.mem_vanishedEarlier hrange
    exact uidRange_le x
  case union => exact hnames
  case gone =>
    intro uid hgone hin
    rw [Std.TreeMap.mem_iff_isSome_getElem?, walked, removeRanges_shadow,
      if_pos ((hnames uid).mpr hgone)] at hin
    exact Bool.false_ne_true hin
  case kept =>
    intro uid hkept
    rw [walked, removeRanges_shadow, if_neg (mt (hnames uid).mp hkept)]
  case queued =>
    obtain ⟨uids, huids, hnodup, hmem⟩ :=
      removeRanges_pending s (ImapMailboxSelectData.ofOutput out).vanishedEarlier
    obtain ⟨new, hnew, hnone⟩ := changeAll_queues (walked s out)
      (ImapMailboxSelectData.ofOutput out).changed
    have hinj : Function.Injective ImapMailboxWatchEvent.envelopeRemoved :=
      fun _ _ => ImapMailboxWatchEvent.envelopeRemoved.inj
    refine ⟨uids.map .envelopeRemoved ++ new, ?_, fun uid hin hgone => ?_, fun uid hnot hevent => ?_⟩
    · rw [computeDeltas, ← walked, hnew, walked, huids, List.append_assoc]
    · rw [List.count_append, List.count_eq_zero_of_not_mem (hnone uid),
        List.count_map_of_injective _ _ hinj]
      exact List.count_eq_one_of_mem hnodup ((hmem uid).mpr ⟨hin, (hnames uid).mpr hgone⟩)
    · rcases List.mem_append.mp hevent with hevent | hevent
      · obtain ⟨hin, hrange⟩ := (hmem uid).mp ((List.mem_map_of_injective hinj).mp hevent)
        exact hnot ⟨hin, (hnames uid).mp hrange⟩
      · exact hnone uid hevent
  case rest =>
    intro uid hnot
    rw [computeDeltas, ← walked]
    refine changeAll_shadow fun fetch hfetch huid => hnot ⟨fetch.seq, fetch.items, ?_, huid⟩
    exact ImapMailboxSelectData.mem_changed.mp hfetch

end IoImap
