import IoImap.Rfc3501.Copy
import IoImap.Text.Separated

/-!
# The grammar of a lenient COPYUID (rfc3501/copy.rs)

`copyuid_from_other` splits the code at spaces, a uid-set at commas and a range at its
first colon. The grammar is stated on its own, with the numbers each text denotes, and
the readers are shown to take exactly its texts.
-/

namespace IoImap

/-! ### The grammar -/

/-- `digit-nz *DIGIT`. -/
inductive NzDigits : Bytes → Nat → Prop where
  | first {d : Byte} (hd : 49 ≤ d ∧ d ≤ 57) : NzDigits [d] (d.toNat - 48)
  | digit {text : Bytes} {n : Nat} {d : Byte} (htext : NzDigits text n) (hd : 48 ≤ d ∧ d ≤ 57) :
      NzDigits (text ++ [d]) (10 * n + (d.toNat - 48))

/-- An nz-number below 2^32. -/
def IsNzNumber (text : Bytes) (number : NonZeroU32) : Prop := NzDigits text number.get

/-- `uniqueid / uid-range`. -/
inductive IsUidElement : Bytes → UidElement → Prop where
  | single {text : Bytes} {uid : NonZeroU32} (huid : IsNzNumber text uid) :
      IsUidElement text (.single uid)
  | range {first last : Bytes} {start stop : NonZeroU32} (hstart : IsNzNumber first start)
      (hstop : IsNzNumber last stop) : IsUidElement (first ++ 58 :: last) (.range start stop)

/-- `(uniqueid / uid-range) *("," (uniqueid / uid-range))`. -/
def IsUidSet : Bytes → UidSet → Prop := Separated.Fields 44 IsUidElement

/-- The single digit `0` or an nz-number. -/
inductive IsUidValidity : Bytes → Nat → Prop where
  | zero : IsUidValidity (ascii "0") 0
  | number {text : Bytes} {number : NonZeroU32} (hnumber : IsNzNumber text number) :
      IsUidValidity text number.get

/-- `"COPYUID" SP uid-validity SP uid-set SP uid-set`, the word in any case. -/
inductive IsCopyuidText : Bytes → Nat → UidSet → UidSet → Prop where
  | mk {word validity first second : Bytes} {uidValidity : Nat} {source destination : UidSet}
      (hword : word.map asciiLower = ascii "copyuid") (hvalidity : IsUidValidity validity uidValidity)
      (hsource : IsUidSet first source) (hdestination : IsUidSet second destination) :
      IsCopyuidText (word ++ 32 :: (validity ++ 32 :: (first ++ 32 :: second)))
        uidValidity source destination

/-- A range stands for the UIDs between its ends, in whichever order they are written. -/
def UidElement.covers (uid : Nat) : UidElement → Bool
  | .single number => uid = number.get
  | .range start stop => (start.get ≤ uid ∧ uid ≤ stop.get) ∨ (stop.get ≤ uid ∧ uid ≤ start.get)

/-- The UIDs of a set in ascending order, each as often as elements of the set name it. -/
structure SortedUids (uidSet : UidSet) (uids : List Nat) : Prop where
  sorted : uids.SortedLE
  count : ∀ uid, uids.count uid = uidSet.countP (UidElement.covers uid)

/-! ### Numbers -/

theorem NzDigits.ne_nil {text : Bytes} {n : Nat} (h : NzDigits text n) : text ≠ [] := by
  cases h with
  | first => simp
  | digit => simp

theorem NzDigits.isDigit {text : Bytes} {n : Nat} (h : NzDigits text n) :
    ∀ b ∈ text, 48 ≤ b ∧ b ≤ 57 := by
  induction h with
  | @first d hd =>
    intro b hb
    obtain rfl := List.mem_singleton.mp hb
    have hlow : (48 : Byte) ≤ 49 := by decide
    exact ⟨UInt8.le_trans hlow hd.1, hd.2⟩
  | digit _ hd ih =>
    intro b hb
    rcases List.mem_append.mp hb with hb | hb
    · exact ih b hb
    · obtain rfl := List.mem_singleton.mp hb
      exact hd

theorem digitsValue_concat (text : Bytes) (d : Byte) :
    digitsValue (text ++ [d]).reverse = 10 * digitsValue text.reverse + (d.toNat - 48) := by
  rw [List.reverse_append, List.reverse_singleton, List.singleton_append, digitsValue, Nat.add_comm]

/-- A number starts with a digit other than 0 and goes on with digits. -/
theorem nzDigits_cons_iff {first : Byte} {rest : Bytes} {n : Nat} :
    NzDigits (first :: rest) n ↔ (49 ≤ first ∧ first ≤ 57) ∧ (∀ b ∈ rest, 48 ≤ b ∧ b ≤ 57) ∧
      digitsValue (first :: rest).reverse = n := by
  induction rest using List.reverseRecOn generalizing n with
  | nil =>
    constructor
    · intro h
      generalize htext : [first] = text at h
      cases h with
      | first hd =>
        obtain rfl := List.singleton_inj.mp htext
        exact ⟨hd, by simp, by simp [digitsValue]⟩
      | @digit before _ d hbefore =>
        have hnil : before = [] := by simpa using congrArg List.length htext
        exact absurd hnil hbefore.ne_nil
    · rintro ⟨hfirst, -, rfl⟩
      simpa [digitsValue] using NzDigits.first hfirst
  | append_singleton rest d ih =>
    rw [← List.cons_append, digitsValue_concat]
    constructor
    · intro h
      generalize htext : first :: rest ++ [d] = text at h
      cases h with
      | first hd => simpa using congrArg List.length htext
      | digit hbefore hd =>
        obtain ⟨rfl, hlast⟩ := List.append_inj' htext rfl
        obtain rfl := List.singleton_inj.mp hlast
        obtain ⟨hfirst, hrest, rfl⟩ := ih.mp hbefore
        refine ⟨hfirst, fun b hb => ?_, rfl⟩
        rcases List.mem_append.mp hb with hb | hb
        · exact hrest b hb
        · obtain rfl := List.mem_singleton.mp hb
          exact hd
    · rintro ⟨hfirst, hrest, rfl⟩
      have hbefore := ih.mpr ⟨hfirst, fun b hb => hrest b (List.mem_append_left _ hb), rfl⟩
      exact .digit hbefore (hrest d (List.mem_append_right _ (List.mem_singleton_self d)))

theorem NonZeroU32.new_eq_some {n : Nat} {number : NonZeroU32} :
    NonZeroU32.new n = some number ↔ n = number.get := by
  constructor
  · intro h
    unfold NonZeroU32.new at h
    split at h
    · rw [← Option.some.inj h]
    · cases h
  · rintro rfl
    exact dif_pos ⟨number.pos, number.lt⟩

theorem parseU32_bind_eq_some {digits : Bytes} {number : NonZeroU32} :
    (parseU32 digits).bind NonZeroU32.new = some number ↔ digitsValue digits.reverse = number.get := by
  unfold parseU32
  by_cases hlt : digitsValue digits.reverse < 2 ^ 32
  · rw [if_pos hlt, Option.bind_some, NonZeroU32.new_eq_some]
  · rw [if_neg hlt, Option.bind_none]
    constructor
    · intro h
      cases h
    · intro h
      exact absurd (h ▸ number.lt) hlt

theorem nzNumber_eq_some {text : Bytes} {number : NonZeroU32} :
    nzNumber text = some number ↔ IsNzNumber text number := by
  cases text with
  | nil =>
    constructor
    · intro h
      cases h
    · intro h
      exact absurd rfl (NzDigits.ne_nil h)
  | cons first rest =>
    rw [IsNzNumber, nzDigits_cons_iff, ← parseU32_bind_eq_some, nzNumber]
    have hall : (first :: rest).all isDigit = true ↔
        (48 ≤ first ∧ first ≤ 57) ∧ ∀ b ∈ rest, 48 ≤ b ∧ b ≤ 57 := by
      simp [isDigit]
    constructor
    · intro h
      split at h
      · cases h
      · next hguard =>
        rw [not_or, not_not, not_not, hall] at hguard
        exact ⟨hguard.1, hguard.2.2, h⟩
    · rintro ⟨hfirst, hrest, hvalue⟩
      have hlow : (48 : Byte) ≤ first := UInt8.le_trans (by decide) hfirst.1
      rw [if_neg, hvalue]
      rw [not_or, not_not, not_not, hall]
      exact ⟨hfirst, ⟨hlow, hfirst.2⟩, hrest⟩

/-! ### uid-sets -/

/-- No octet of a uid-set is a space. -/
theorem IsUidElement.mem {text : Bytes} {element : UidElement} (h : IsUidElement text element) :
    ∀ b ∈ text, 48 ≤ b ∧ b ≤ 58 := by
  have hdigit {digits : Bytes} {number : NonZeroU32} (hdigits : IsNzNumber digits number) :
      ∀ b ∈ digits, 48 ≤ b ∧ b ≤ 58 := fun b hb =>
    ⟨(hdigits.isDigit b hb).1, UInt8.le_trans (hdigits.isDigit b hb).2 (by decide)⟩
  cases h with
  | single huid => exact hdigit huid
  | range hstart hstop =>
    intro b hb
    rcases List.mem_append.mp hb with hb | hb
    · exact hdigit hstart b hb
    · rcases List.mem_cons.mp hb with rfl | hb
      · decide
      · exact hdigit hstop b hb

theorem IsUidSet.mem {text : Bytes} {uidSet : UidSet} (h : IsUidSet text uidSet) :
    ∀ b ∈ text, 44 ≤ b ∧ b ≤ 58 := by
  refine Separated.Fields.forall_mem (by decide) (fun _ _ helement b hb => ?_) h
  exact ⟨UInt8.le_trans (by decide) (helement.mem b hb).1, (helement.mem b hb).2⟩

theorem IsNzNumber.notMem {text : Bytes} {number : NonZeroU32} {b : Byte}
    (h : IsNzNumber text number) (hb : ¬ (48 ≤ b ∧ b ≤ 57)) : b ∉ text :=
  fun hmem => hb (h.isDigit b hmem)

theorem uidElement_single {text : Bytes} (h : 58 ∉ text) :
    uidElement text = (nzNumber text).map .single := by
  have hnone : text.idxOf? 58 = none := List.idxOf?_eq_none_iff.mpr h
  rw [uidElement, hnone, Option.map_eq_bind]
  rfl

/-- The first colon ends the first number, so a second one is in the second. -/
theorem uidElement_range {first last : Bytes} (h : 58 ∉ first) :
    uidElement (first ++ 58 :: last) =
      (nzNumber first).bind fun start => (nzNumber last).map (.range start) := by
  have hdrop : (first ++ 58 :: last).drop (first.length + 1) = last := by simp
  rw [uidElement, Separated.idxOf?_append_cons h]
  simp only [List.take_left, hdrop, Option.map_eq_bind]
  rfl

theorem uidElement_eq_some {text : Bytes} {element : UidElement} :
    uidElement text = some element ↔ IsUidElement text element := by
  constructor
  · intro h
    by_cases hcolon : (58 : Byte) ∈ text
    · obtain ⟨first, last, rfl, hfirst⟩ := List.eq_append_cons_of_mem hcolon
      rw [uidElement_range hfirst] at h
      obtain ⟨start, hstart, h⟩ := Option.bind_eq_some_iff.mp h
      obtain ⟨stop, hstop, rfl⟩ := Option.map_eq_some_iff.mp h
      exact .range (nzNumber_eq_some.mp hstart) (nzNumber_eq_some.mp hstop)
    · rw [uidElement_single hcolon] at h
      obtain ⟨uid, huid, rfl⟩ := Option.map_eq_some_iff.mp h
      exact .single (nzNumber_eq_some.mp huid)
  · intro h
    cases h with
    | single huid =>
      rw [uidElement_single (huid.notMem (by decide)), nzNumber_eq_some.mpr huid]
      rfl
    | range hstart hstop =>
      rw [uidElement_range (hstart.notMem (by decide)), nzNumber_eq_some.mpr hstart,
        nzNumber_eq_some.mpr hstop]
      rfl

theorem uidSet_eq_some {text : Bytes} {elements : UidSet} :
    uidSet text = some elements ↔ IsUidSet text elements := by
  refine Separated.mapM_splitOn_eq_some (fun _ _ => uidElement_eq_some) (fun text x helement hmem => ?_)
  exact absurd (helement.mem 44 hmem).1 (by decide)

/-! ### The UIDs of a set -/

theorem UidElement.nodup_expand (element : UidElement) : element.expand.Nodup := by
  cases element with
  | single number => exact List.nodup_singleton _
  | range start stop => exact List.nodup_range'

theorem UidElement.mem_expand {uid : Nat} {element : UidElement} :
    uid ∈ element.expand ↔ element.covers uid := by
  cases element with
  | single number => simp [UidElement.expand, UidElement.covers]
  | range start stop =>
    have hle : start ≤ stop ↔ start.get ≤ stop.get := Iff.rfl
    simp only [UidElement.expand, UidElement.covers, decide_eq_true_eq]
    by_cases horder : start.get ≤ stop.get
    · rw [if_pos (hle.mpr horder), List.mem_range'_1]
      omega
    · rw [if_neg (fun h => horder (hle.mp h)), List.mem_range'_1]
      omega

theorem UidSet.count_expand (uid : Nat) (elements : UidSet) :
    (UidSet.expand elements).count uid = elements.countP (UidElement.covers uid) := by
  induction elements with
  | nil => rfl
  | cons element elements ih =>
    have hfirst : element.expand.count uid = if element.covers uid then 1 else 0 := by
      rw [element.nodup_expand.count]
      simp only [UidElement.mem_expand]
    have hsplit : UidSet.expand (element :: elements) = element.expand ++ UidSet.expand elements := rfl
    rw [hsplit, List.count_append, hfirst, ih, List.countP_cons, Nat.add_comm]

theorem uidSetToVec_sortedUids (elements : UidSet) : SortedUids elements (uidSetToVec elements) where
  sorted := uidSetToVec_sorted elements
  count uid := by rw [(uidSetToVec_perm elements).count_eq, UidSet.count_expand]

/-! ### The code -/

theorem uidValidity_eq_some {text : Bytes} {uidValidity : Nat} :
    (if text = ascii "0" then some 0 else (nzNumber text).map (·.get)) = some uidValidity ↔
      IsUidValidity text uidValidity := by
  constructor
  · intro h
    split at h
    · next hzero =>
      obtain rfl := Option.some.inj h
      exact hzero ▸ .zero
    · obtain ⟨number, hnumber, rfl⟩ := Option.map_eq_some_iff.mp h
      exact .number (nzNumber_eq_some.mp hnumber)
  · intro h
    cases h with
    | zero => rfl
    | number hnumber =>
      have hread := nzNumber_eq_some.mpr hnumber
      have hne : text ≠ ascii "0" := by
        rintro rfl
        have hzero : nzNumber (ascii "0") = none := by decide
        rw [hzero] at hread
        cases hread
      rw [if_neg hne, hread]
      rfl

theorem IsUidValidity.notMem {text : Bytes} {uidValidity : Nat} (h : IsUidValidity text uidValidity) :
    32 ∉ text := by
  cases h with
  | zero => decide
  | number hnumber => exact hnumber.notMem (by decide)

theorem IsUidSet.notMem {text : Bytes} {elements : UidSet} (h : IsUidSet text elements) : 32 ∉ text :=
  fun hmem => absurd (h.mem 32 hmem).1 (by decide)

theorem notMem_word {word : Bytes} (h : word.map asciiLower = ascii "copyuid") : 32 ∉ word := by
  intro hmem
  have hlower : asciiLower 32 ∈ ascii "copyuid" := h ▸ List.mem_map_of_mem hmem
  exact absurd hlower (by decide)

theorem readCopyuid_fields {bytes word validity first second : Bytes}
    (hsplit : bytes.splitOn 32 = [word, validity, first, second])
    (hword : word.map asciiLower = ascii "copyuid") :
    readCopyuid bytes =
      (if validity = ascii "0" then some 0 else (nzNumber validity).map (·.get)).bind fun number =>
        (uidSet first).bind fun source => (uidSet second).map fun destination =>
          (number, source, destination) := by
  simp only [readCopyuid, hsplit, if_pos hword, Option.map_eq_bind]
  by_cases hzero : validity = ascii "0"
  · simp only [if_pos hzero]
    rfl
  · simp only [if_neg hzero]
    rfl

theorem readCopyuid_eq_some {bytes : Bytes} {uidValidity : Nat} {source destination : UidSet} :
    readCopyuid bytes = some (uidValidity, source, destination) ↔
      IsCopyuidText bytes uidValidity source destination := by
  constructor
  · intro h
    obtain ⟨word, validity, first, second, hsplit, hword⟩ : ∃ word validity first second,
        bytes.splitOn 32 = [word, validity, first, second] ∧
          word.map asciiLower = ascii "copyuid" := by
      unfold readCopyuid at h
      split at h
      · next word validity first second hsplit =>
        split at h
        · next hword => exact ⟨word, validity, first, second, hsplit, hword⟩
        · cases h
      · cases h
    rw [readCopyuid_fields hsplit hword] at h
    obtain ⟨number, hnumber, h⟩ := Option.bind_eq_some_iff.mp h
    obtain ⟨ss, hss, h⟩ := Option.bind_eq_some_iff.mp h
    obtain ⟨ds, hds, h⟩ := Option.map_eq_some_iff.mp h
    cases h
    have hbytes : word ++ 32 :: (validity ++ 32 :: (first ++ 32 :: second)) = bytes := by
      simpa using (Separated.splitOn_eq_iff.mp hsplit).2.2
    rw [← hbytes]
    exact .mk hword (uidValidity_eq_some.mp hnumber) (uidSet_eq_some.mp hss) (uidSet_eq_some.mp hds)
  · intro h
    cases h with
    | @mk word validity first second _ _ _ hword hvalidity hsource hdestination =>
      have hsplit : (word ++ 32 :: (validity ++ 32 :: (first ++ 32 :: second))).splitOn 32 =
          [word, validity, first, second] := by
        rw [List.splitOn_append_cons_self_of_not_mem (notMem_word hword),
          List.splitOn_append_cons_self_of_not_mem hvalidity.notMem,
          List.splitOn_append_cons_self_of_not_mem hsource.notMem,
          List.splitOn_eq_singleton hdestination.notMem]
      rw [readCopyuid_fields hsplit hword, uidValidity_eq_some.mpr hvalidity,
        uidSet_eq_some.mpr hsource, uidSet_eq_some.mpr hdestination]
      rfl

theorem copyuidFromOther_eq {bytes : Bytes} {uidValidity : Nat} {source destination : UidSet}
    (h : IsCopyuidText bytes uidValidity source destination) :
    copyuidFromOther bytes = some (uidValidity, uidSetToVec source, uidSetToVec destination) := by
  rw [copyuidFromOther, readCopyuid_eq_some.mpr h]
  rfl

/-- `copyuid_from_other` takes the texts of the grammar and no others, and returns what
they denote; with a UIDVALIDITY other than 0 this is what the typed code gives. -/
theorem copyuid_other_reads_grammar (bytes : Bytes) :
    ((copyuidFromOther bytes).isSome ↔
      ∃ uidValidity source destination, IsCopyuidText bytes uidValidity source destination) ∧
    ∀ uidValidity source destination, IsCopyuidText bytes uidValidity source destination →
      (∃ sources destinations, copyuidFromOther bytes = some (uidValidity, sources, destinations) ∧
        SortedUids source sources ∧ SortedUids destination destinations) ∧
      ∀ number : NonZeroU32, number.get = uidValidity →
        copyuidFromOther bytes = copyuidFromCode (some (.copyUid number source destination)) := by
  refine ⟨⟨fun h => ?_, ?_⟩, fun uidValidity source destination htext => ⟨?_, ?_⟩⟩
  · rw [copyuidFromOther, Option.isSome_map] at h
    obtain ⟨⟨uidValidity, source, destination⟩, hread⟩ := Option.isSome_iff_exists.mp h
    exact ⟨uidValidity, source, destination, readCopyuid_eq_some.mp hread⟩
  · rintro ⟨uidValidity, source, destination, htext⟩
    rw [copyuidFromOther_eq htext]
    rfl
  · exact ⟨_, _, copyuidFromOther_eq htext, uidSetToVec_sortedUids source,
      uidSetToVec_sortedUids destination⟩
  · rintro number rfl
    exact copyuidFromOther_eq htext

open NonZeroU32 in
theorem copyuid_other_reads_zero :
    ∃ sources destinations,
      copyuidFromOther (ascii "CopyUID 0 3:1,7 10:13") = some (0, sources, destinations) ∧
      SortedUids [.range (ofNat 3) (ofNat 1), .single (ofNat 7)] sources ∧
      SortedUids [.range (ofNat 10) (ofNat 13)] destinations := by
  have hread : readCopyuid (ascii "CopyUID 0 3:1,7 10:13") =
      some (0, [.range (ofNat 3) (ofNat 1), .single (ofNat 7)], [.range (ofNat 10) (ofNat 13)]) := by
    decide +kernel
  exact ((copyuid_other_reads_grammar _).2 _ _ _ (readCopyuid_eq_some.mp hread)).1

end IoImap
