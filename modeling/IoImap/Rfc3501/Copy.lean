import IoImap.Codec.LineFragmentizer
import IoImap.Command
import IoImap.Pairing.Sorted
import IoImap.Rfc3501.Mailbox

/-!
# COPY (rfc3501/copy.rs)

COPY and MOVE return the COPYUID of their reply: the UIDs of the messages and
those of their copies. A server pairs the two uid-sets by position; the code
expands and sorts each of them on its own.
-/

namespace IoImap

/-- `(uid_validity, source, destination)`. -/
abbrev ImapCopyUid := Option (Nat × List Nat × List Nat)

/-! ### uid-sets -/

/-- The UIDs an element stands for, ascending also when a range is written backwards. -/
def UidElement.expand : UidElement → List Nat
  | .single uid => [uid.get]
  | .range start stop =>
    let (lo, hi) := if start ≤ stop then (start.get, stop.get) else (stop.get, start.get)
    List.range' lo (hi + 1 - lo)

def UidSet.expand (uidSet : UidSet) : List Nat := List.flatMap UidElement.expand uidSet

def uidSetToVec (uidSet : UidSet) : List Nat := (UidSet.expand uidSet).mergeSort (· ≤ ·)

/-- `nz-number = digit-nz *DIGIT`, within a `u32`. -/
def nzNumber (bytes : Bytes) : Option NonZeroU32 :=
  match bytes with
  | [] => none
  | first :: _ =>
    if ¬ (49 ≤ first ∧ first ≤ 57) ∨ ¬ bytes.all isDigit then none
    else (parseU32 bytes).bind NonZeroU32.new

def uidElement (element : Bytes) : Option UidElement :=
  match element.idxOf? 58 with
  | some colon => do
    let start ← nzNumber (element.take colon)
    let stop ← nzNumber (element.drop (colon + 1))
    return .range start stop
  | none => do
    let uid ← nzNumber element
    return .single uid

/-- `uid-set = (uniqueid / uid-range) *("," uid-set)`. There is always an element, so
`Vec1::try_from` takes them. -/
def uidSet (bytes : Bytes) : Option UidSet := (bytes.splitOn 44).mapM uidElement

/-! ### COPYUID -/

/-- `copyuid_from_other`, up to the expansion of the sets: the UIDVALIDITY may be `0`. -/
def readCopyuid (bytes : Bytes) : Option (Nat × UidSet × UidSet) :=
  match bytes.splitOn 32 with
  | [word, uidValidity, source, destination] =>
    if word.map asciiLower = ascii "copyuid" then do
      let uidValidity ← if uidValidity = ascii "0" then some 0 else (nzNumber uidValidity).map (·.get)
      let source ← uidSet source
      let destination ← uidSet destination
      return (uidValidity, source, destination)
    else none
  | _ => none

def copyuidFromOther (bytes : Bytes) : ImapCopyUid :=
  (readCopyuid bytes).map fun (uidValidity, source, destination) =>
    (uidValidity, uidSetToVec source, uidSetToVec destination)

def copyuidFromCode : Option Code → ImapCopyUid
  | some (.copyUid uidValidity source destination) =>
    some (uidValidity.get, uidSetToVec source, uidSetToVec destination)
  | some (.other other) => copyuidFromOther other
  | _ => none

/-! ### The coroutine -/

structure ImapMessageCopyOptions where
  uid : Bool

abbrev ImapMessageCopyError := ImapCommandError

abbrev ImapMessageCopy := ImapSend Command

namespace ImapMessageCopy

def body [Base64Codec] [TryFrom String Mailbox] (sequenceSet : SequenceSet) (mailbox : Mailbox)
    (opts : ImapMessageCopyOptions) : CommandBody :=
  .copy sequenceSet (encodeInplace mailbox) opts.uid

def new [Base64Codec] [TryFrom String Mailbox] (sequenceSet : SequenceSet) (mailbox : Mailbox)
    (opts : ImapMessageCopyOptions) : ImapMessageCopy :=
  .command (body sequenceSet mailbox opts)

def decode (out : ImapSendOutput Command) : ImapCopyUid :=
  copyuidFromCode (out.tagged.bind (·.body.code))

def resume {F : Type} [Fragmentizer F] [TryFrom Bytes Tag] [Encoder Command] (copy : ImapMessageCopy)
    (f : F) (arg : Option Bytes) :
    CoroutineState ImapYield (Except ImapMessageCopyError ImapCopyUid) × ImapMessageCopy × F :=
  commandResume decode copy f arg

end ImapMessageCopy

/-! ### The pairing -/

/-- A COPYUID code with these sets, typed or read where the strict grammar rejects it. -/
inductive IsCopyuid : Code → UidSet → UidSet → Prop where
  | typed (uidValidity : NonZeroU32) (source destination : UidSet) :
      IsCopyuid (.copyUid uidValidity source destination) source destination
  | other {bytes : Bytes} {uidValidity : Nat} {source destination : UidSet}
      (hread : readCopyuid bytes = some (uidValidity, source, destination)) :
      IsCopyuid (.other bytes) source destination

/-- The code is returned as the pairs of its two sets, or not at all when the sets do
not pair. -/
def KeepsPairs (code : Code) (source destination : List Nat) : Prop :=
  (source.length = destination.length →
    ∃ uidValidity xs ys, copyuidFromCode (some code) = some (uidValidity, xs, ys) ∧
      (xs.zip ys).Perm (source.zip destination)) ∧
  (source.length ≠ destination.length → copyuidFromCode (some code) = none)

theorem uidSetToVec_perm (uidSet : UidSet) : (uidSetToVec uidSet).Perm (UidSet.expand uidSet) :=
  List.mergeSort_perm ..

theorem uidSetToVec_sorted (uidSet : UidSet) : (uidSetToVec uidSet).SortedLE :=
  List.sortedLE_mergeSort

theorem IsCopyuid.returned {code : Code} {source destination : UidSet}
    (h : IsCopyuid code source destination) :
    ∃ uidValidity, copyuidFromCode (some code) =
      some (uidValidity, uidSetToVec source, uidSetToVec destination) := by
  cases h with
  | typed uidValidity => exact ⟨uidValidity.get, rfl⟩
  | @other bytes uidValidity _ _ hread =>
    exact ⟨uidValidity, by rw [copyuidFromCode, copyuidFromOther, hread]; rfl⟩

/-- A COPYUID keeps the pairs of its sets exactly when the sets have one length and the
destination grows with the source. -/
theorem copyuid_pairs_iff {code : Code} {source destination : UidSet}
    (h : IsCopyuid code source destination) :
    let s := UidSet.expand source
    let d := UidSet.expand destination
    KeepsPairs code s d ↔
      s.length = d.length ∧ ∀ p ∈ s.zip d, ∀ q ∈ s.zip d, p.1 < q.1 → p.2 ≤ q.2 := by
  intro s d
  obtain ⟨uidValidity, hreturned⟩ := h.returned
  have hperm (hlen : s.length = d.length) := Pairing.zip_sorted_perm_iff hlen (uidSetToVec_perm source)
    (uidSetToVec_perm destination) (uidSetToVec_sorted source) (uidSetToVec_sorted destination)
  constructor
  · intro hkeeps
    have hlen : s.length = d.length := by
      by_contra hne
      rw [hkeeps.2 hne] at hreturned
      simp at hreturned
    obtain ⟨uidValidity', xs, ys, hpairs, hzip⟩ := hkeeps.1 hlen
    obtain ⟨rfl, rfl, rfl⟩ : uidValidity = uidValidity' ∧ uidSetToVec source = xs ∧
        uidSetToVec destination = ys := by simpa using hreturned.symm.trans hpairs
    exact ⟨hlen, fun p hp q hq hlt => (hperm hlen).mp hzip hp hq hlt⟩
  · intro hgrows
    obtain ⟨hlen, hmono⟩ := hgrows
    refine ⟨fun _ => ⟨uidValidity, _, _, hreturned, ?_⟩, fun hne => absurd hlen hne⟩
    exact (hperm hlen).mpr fun p hp q hq hlt => hmono p hp q hq hlt

section Concrete

open NonZeroU32

/-- The UIDVALIDITY that the strict grammar rejects, and a range written backwards. -/
theorem copyuid_pairs_lenient :
    KeepsPairs (.other (ascii "COPYUID 0 3:1,7 10:13")) [1, 2, 3, 7] [10, 11, 12, 13] :=
  have hread : readCopyuid (ascii "COPYUID 0 3:1,7 10:13") =
      some (0, [.range (ofNat 3) (ofNat 1), .single (ofNat 7)], [.range (ofNat 10) (ofNat 13)]) := by
    decide +kernel
  (copyuid_pairs_iff (.other hread)).mpr (by decide)

/-- `COPYUID 7 3,1 10,11` and `COPYUID 7 1:2 10`. -/
theorem copyuid_loses_pairs :
    ¬ KeepsPairs (.copyUid (ofNat 7) [.single (ofNat 3), .single (ofNat 1)]
          [.single (ofNat 10), .single (ofNat 11)]) [3, 1] [10, 11] ∧
      ¬ KeepsPairs (.copyUid (ofNat 7) [.range (ofNat 1) (ofNat 2)] [.single (ofNat 10)]) [1, 2] [10] := by
  constructor
  · intro h
    exact absurd ((copyuid_pairs_iff (.typed (ofNat 7) _ _)).mp h).2 (by decide)
  · intro h
    exact absurd ((copyuid_pairs_iff (.typed (ofNat 7) _ _)).mp h).1 (by decide)

end Concrete
end IoImap
