import IoImap.Command

/-!
# The data of SELECT and EXAMINE (rfc3501/select.rs)

What both read from the output of their exchange, and the ranges of a
`VANISHED (EARLIER)`.
-/

namespace IoImap

structure RangeInclusive where
  start : NonZeroU32
  stop : NonZeroU32
  deriving DecidableEq

def RangeInclusive.contains (range : RangeInclusive) (uid : NonZeroU32) : Bool :=
  range.start ≤ uid && uid ≤ range.stop

structure ImapMailboxSelectFetch where
  seq : NonZeroU32
  items : Vec1 MessageDataItem
  deriving DecidableEq

structure ImapMailboxSelectData where
  flags : Option (List Flag)
  exists' : Option Nat
  recent : Option Nat
  unseen : Option NonZeroU32
  permanentFlags : Option (List FlagPerm)
  uidNext : Option NonZeroU32
  uidValidity : Option NonZeroU32
  highestModSeq : Option Nat
  vanishedEarlier : List RangeInclusive
  changed : List ImapMailboxSelectFetch
  deriving DecidableEq

def ImapMailboxSelectData.default : ImapMailboxSelectData :=
  ⟨none, none, none, none, none, none, none, none, [], []⟩

def uidRange : Sequence → RangeInclusive
  | .single uid =>
    let uid := uid.expand .MAX
    ⟨uid, uid⟩
  | .range a b =>
    let a := a.expand .MAX
    let b := b.expand .MAX
    ⟨a.min b, a.max b⟩

def uidRanges (uidSet : SequenceSet) : List RangeInclusive := uidSet.map uidRange

namespace ImapMailboxSelectData

def addData (output : ImapMailboxSelectData) : Data → ImapMailboxSelectData
  | .flags flags => { output with flags := some flags }
  | .exists count => { output with exists' := some count }
  | .recent count => { output with recent := some count }
  | .fetch seq items => { output with changed := output.changed ++ [⟨seq, items⟩] }
  | .vanished true knownUids =>
    { output with vanishedEarlier := output.vanishedEarlier ++ uidRanges knownUids }
  | _ => output

def addStatus (output : ImapMailboxSelectData) (status : StatusBody) : ImapMailboxSelectData :=
  match status.kind, status.code with
  | .ok, some (.unseen seq) => { output with unseen := some seq }
  | .ok, some (.permanentFlags flags) => { output with permanentFlags := some flags }
  | .ok, some (.uidNext uid) => { output with uidNext := some uid }
  | .ok, some (.uidValidity uid) => { output with uidValidity := some uid }
  | .ok, some (.highestModSeq modseq) => { output with highestModSeq := some modseq }
  | _, _ => output

def ofOutput (out : ImapSendOutput Command) : ImapMailboxSelectData :=
  out.untagged.foldl addStatus (out.data.foldl addData default)

end ImapMailboxSelectData

/-! ### The ranges of a uid-set -/

/-- The UIDs that a sequence names: between its ends, whichever is the larger. -/
def Sequence.Names (uid : NonZeroU32) : Sequence → Prop
  | .single a => uid = a.expand .MAX
  | .range a b =>
    (a.expand .MAX ≤ uid ∧ uid ≤ b.expand .MAX) ∨ (b.expand .MAX ≤ uid ∧ uid ≤ a.expand .MAX)

section Ranges

variable {uid a b : NonZeroU32}

theorem NonZeroU32.le_iff : a ≤ b ↔ a.get ≤ b.get := Iff.rfl

theorem uidRange_contains {s : Sequence} : (uidRange s).contains uid = true ↔ s.Names uid := by
  cases s with
  | single a =>
    simp only [uidRange, RangeInclusive.contains, Sequence.Names, Bool.and_eq_true,
      decide_eq_true_eq, NonZeroU32.le_iff, NonZeroU32.ext_iff]
    omega
  | range a b =>
    simp only [uidRange, RangeInclusive.contains, Sequence.Names, Bool.and_eq_true,
      decide_eq_true_eq, NonZeroU32.min, NonZeroU32.max, NonZeroU32.le_iff]
    split <;> omega

/-- A range never runs backwards, as `BTreeMap::range` requires. -/
theorem uidRange_le (s : Sequence) : (uidRange s).start ≤ (uidRange s).stop := by
  cases s with
  | single a => exact Nat.le_refl _
  | range a b =>
    simp only [uidRange, NonZeroU32.min, NonZeroU32.max, NonZeroU32.le_iff]
    split <;> omega

theorem uidRanges_contains {s : SequenceSet} :
    (∃ range ∈ uidRanges s, range.contains uid = true) ↔ ∃ x ∈ s, x.Names uid := by
  simp [uidRanges, uidRange_contains]

end Ranges

/-! ### What a response leaves in the data -/

/-- The ranges that a data response announces as vanished. -/
def Data.vanishedRanges : Data → List RangeInclusive
  | .vanished true knownUids => uidRanges knownUids
  | _ => []

def Data.selectFetch? : Data → Option ImapMailboxSelectFetch
  | .fetch seq items => some ⟨seq, items⟩
  | _ => none

namespace ImapMailboxSelectData

theorem foldl_addStatus (d : ImapMailboxSelectData) (untagged : List StatusBody) :
    (untagged.foldl addStatus d).vanishedEarlier = d.vanishedEarlier ∧
      (untagged.foldl addStatus d).changed = d.changed := by
  induction untagged generalizing d with
  | nil => exact ⟨rfl, rfl⟩
  | cons status untagged ih =>
    have hone : (d.addStatus status).vanishedEarlier = d.vanishedEarlier ∧
        (d.addStatus status).changed = d.changed := by
      unfold addStatus
      split <;> exact ⟨rfl, rfl⟩
    rw [List.foldl_cons, (ih _).1, (ih _).2]
    exact hone

theorem foldl_addData (d : ImapMailboxSelectData) (data : List Data) :
    (data.foldl addData d).vanishedEarlier = d.vanishedEarlier ++ data.flatMap Data.vanishedRanges ∧
      (data.foldl addData d).changed = d.changed ++ data.filterMap Data.selectFetch? := by
  induction data using List.reverseRecOn with
  | nil => simp
  | append_singleton data x ih =>
    obtain ⟨hv, hc⟩ := ih
    rw [List.foldl_append, List.flatMap_append, List.filterMap_append, ← List.append_assoc,
      ← List.append_assoc, ← hv, ← hc, List.foldl_cons, List.foldl_nil]
    unfold addData
    split
    case h_6 =>
      rename_i hfetch hvanished
      cases x with
      | fetch seq items => exact absurd rfl (hfetch seq items)
      | vanished earlier set =>
        cases earlier with
        | true => exact absurd rfl (hvanished set)
        | false => simp [Data.vanishedRanges, Data.selectFetch?]
      | _ => simp [Data.vanishedRanges, Data.selectFetch?]
    all_goals simp [Data.vanishedRanges, Data.selectFetch?]

theorem ofOutput_vanishedEarlier (out : ImapSendOutput Command) :
    (ofOutput out).vanishedEarlier = out.data.flatMap Data.vanishedRanges := by
  rw [ofOutput, (foldl_addStatus _ _).1, (foldl_addData _ _).1]
  rfl

theorem ofOutput_changed (out : ImapSendOutput Command) :
    (ofOutput out).changed = out.data.filterMap Data.selectFetch? := by
  rw [ofOutput, (foldl_addStatus _ _).2, (foldl_addData _ _).2]
  rfl

theorem mem_vanishedEarlier {out : ImapSendOutput Command} {range : RangeInclusive}
    (h : range ∈ (ofOutput out).vanishedEarlier) : ∃ x, uidRange x = range := by
  rw [ofOutput_vanishedEarlier] at h
  obtain ⟨d, -, hr⟩ := List.mem_flatMap.mp h
  unfold Data.vanishedRanges at hr
  split at hr
  · obtain ⟨x, -, hx⟩ := List.mem_map.mp hr
    exact ⟨x, hx⟩
  · simp at hr

/-- A UID is in a vanished range just when a VANISHED of the response names it. -/
theorem vanishedEarlier_contains {out : ImapSendOutput Command} {uid : NonZeroU32} :
    (∃ range ∈ (ofOutput out).vanishedEarlier, range.contains uid = true) ↔
      ∃ set, Data.vanished true set ∈ out.data ∧ ∃ x ∈ set, x.Names uid := by
  rw [ofOutput_vanishedEarlier]
  constructor
  · intro hx
    obtain ⟨range, hrange, hc⟩ := hx
    obtain ⟨d, hd, hr⟩ := List.mem_flatMap.mp hrange
    unfold Data.vanishedRanges at hr
    split at hr
    · exact ⟨_, hd, uidRanges_contains.mp ⟨range, hr, hc⟩⟩
    · simp at hr
  · intro hx
    obtain ⟨set, hset, hnames⟩ := hx
    obtain ⟨range, hr, hc⟩ := uidRanges_contains.mpr hnames
    exact ⟨range, List.mem_flatMap.mpr ⟨_, hset, hr⟩, hc⟩

theorem mem_changed {out : ImapSendOutput Command} {fetch : ImapMailboxSelectFetch} :
    fetch ∈ (ofOutput out).changed ↔ Data.fetch fetch.seq fetch.items ∈ out.data := by
  rw [ofOutput_changed, List.mem_filterMap]
  constructor
  · intro hx
    obtain ⟨d, hd, hf⟩ := hx
    unfold Data.selectFetch? at hf
    split at hf
    · obtain rfl := Option.some.inj hf
      exact hd
    · simp at hf
  · exact fun h => ⟨_, h, rfl⟩

end ImapMailboxSelectData
end IoImap
