import IoImap.Rfc3501.MailboxNames
import IoImap.Text.Utf8
import Mathlib.Data.Set.Function

/-!
# Mailbox names of a server

A name that came from the wire is found again when it is written back as it came.
The reading is lenient, so this holds of the names in the form that `encode` writes
and of no others.
-/

namespace IoImap

/-- What imap-types reads a string as: INBOX in any case, and any other name that has
no NUL. -/
class LawfulMailboxName [TryFrom String Mailbox] : Prop where
  inbox : ∀ name : String, TryFrom.tryFrom name = Except.ok Mailbox.inbox →
    name.toList.map Char.toLower = "inbox".toList
  other : ∀ (name : String) (bytes : Bytes), TryFrom.tryFrom name = Except.ok (Mailbox.other bytes) →
    bytes = name.toUTF8.toList
  nul : ∀ name : String, (∃ err, (TryFrom.tryFrom name : Except ValidationError Mailbox) = .error err) ↔
    '\x00' ∈ name.toList

/-- A mailbox other than INBOX, as it comes from the wire and goes there. -/
def Mailbox.named (name : String) : Mailbox := .other name.toUTF8.toList

theorem Mailbox.named_inj {name name' : String} : named name = named name' ↔ name = name' := by
  rw [named, named, Mailbox.other.injEq, Utf8.toList_inj]

/-! ### Names in canonical form -/

section Canonical

variable [Base64Codec]

/-- The names that `encode` writes, those of them behind a shift apart: an ampersand only
stands in `&-` or opens a shift, which holds a whole run of the characters that are not
direct, and no NUL. -/
inductive Canonical : Bool → List Char → Prop where
  | nil {shifted : Bool} : Canonical shifted []
  | direct {shifted : Bool} {c : Char} {cs : List Char} (hc : Direct c) (hne : c ≠ '&')
      (hcs : Canonical false cs) : Canonical shifted (c :: cs)
  | ampersand {shifted : Bool} {cs : List Char} (hcs : Canonical false cs) :
      Canonical shifted ('&' :: '-' :: cs)
  | shift {run cs : List Char} (hne : run ≠ []) (hrun : ∀ c ∈ run, ¬ Direct c) (hnul : '\x00' ∉ run)
      (hcs : Canonical true cs) : Canonical false ('&' :: payload run ++ '-' :: cs)

theorem encodeFrom_run {run : List Char} (h : ∀ c ∈ run, ¬ Direct c) (shifted : Bytes) (cs : List Char) :
    encodeFrom shifted (run ++ cs) = encodeFrom (shifted ++ run.flatMap utf16Bytes) cs := by
  induction run generalizing shifted with
  | nil => simp
  | cons c run ih =>
    rw [List.cons_append, encodeFrom_cons, if_neg (h c (List.mem_cons_self ..)),
      ih fun x hx => h x (List.mem_cons_of_mem c hx), List.flatMap_cons, List.append_assoc]

/-- What is shifted is flushed in front of a direct character, and at the end. -/
theorem encodeFrom_flush {cs : List Char} (h : ∀ c ∈ cs.head?, Direct c) (shifted : Bytes) :
    encodeFrom shifted cs = flushShifted shifted ++ encodeFrom [] cs := by
  cases cs with
  | nil => rw [encodeFrom, encodeFrom, flushShifted_nil, List.append_nil]
  | cons c cs =>
    have hc : Direct c := h c rfl
    rw [encodeFrom_cons, encodeFrom_cons, if_pos hc, if_pos hc, flushShifted_nil, List.nil_append,
      List.append_assoc]

/-- Every name in canonical form is written by `encode`. -/
theorem Canonical.encoded {shifted : Bool} {wire : List Char} (h : Canonical shifted wire) :
    ∃ cs, encodeFrom [] cs = wire ∧ '\x00' ∉ cs ∧ (shifted = true → ∀ c ∈ cs.head?, Direct c) := by
  induction h with
  | nil => exact ⟨[], rfl, by simp, by simp⟩
  | @direct _ c cs hc hne _ ih =>
    obtain ⟨cs', rfl, hnul, -⟩ := ih
    refine ⟨c :: cs', ?_, ?_, fun _ x hx => ?_⟩
    · rw [encodeFrom_cons, if_pos hc, if_neg hne]
      rfl
    · rw [List.mem_cons, not_or]
      refine ⟨fun h => ?_, hnul⟩
      rw [← h] at hc
      exact absurd hc (by decide)
    · obtain rfl : c = x := Option.some.inj hx
      exact hc
  | ampersand _ ih =>
    obtain ⟨cs', rfl, hnul, -⟩ := ih
    refine ⟨'&' :: cs', ?_, ?_, fun _ x hx => ?_⟩
    · rw [encodeFrom_cons, if_pos (by decide), if_pos rfl]
      rfl
    · simpa using hnul
    · obtain rfl : '&' = x := Option.some.inj hx
      decide
  | @shift run cs hne hrun hnul _ ih =>
    obtain ⟨cs', rfl, hnul', hhead⟩ := ih
    refine ⟨run ++ cs', ?_, ?_, by simp⟩
    · rw [encodeFrom_run hrun, List.nil_append, encodeFrom_flush (hhead rfl), flushShifted_run hne]
      simp
    · rw [List.mem_append, not_or]
      exact ⟨hnul, hnul'⟩

/-- What is written behind an open shift is in canonical form. -/
theorem canonical_flushed {run wire : List Char} (hrun : ∀ c ∈ run, ¬ Direct c) (hnul : '\x00' ∉ run)
    (hwire : ∀ shifted, Canonical shifted wire) :
    Canonical false (flushShifted (run.flatMap utf16Bytes) ++ wire) := by
  by_cases hne : run = []
  · rw [hne, List.flatMap_nil, flushShifted_nil]
    exact hwire false
  · rw [flushShifted_run hne, List.append_assoc]
    exact .shift hne hrun hnul (hwire true)

theorem canonical_encodeFrom (run cs : List Char) (hrun : ∀ c ∈ run, ¬ Direct c)
    (hnul : '\x00' ∉ run ++ cs) : Canonical false (encodeFrom (run.flatMap utf16Bytes) cs) := by
  induction cs generalizing run with
  | nil =>
    have hflushed := canonical_flushed hrun (by simpa using hnul) fun shifted => .nil
    rwa [List.append_nil] at hflushed
  | cons c cs ih =>
    rw [List.mem_append, List.mem_cons, not_or, not_or] at hnul
    have hrest := ih [] (by simp) hnul.2.2
    rw [encodeFrom_cons]
    split
    · rename_i hdirect
      rw [List.append_assoc]
      refine canonical_flushed hrun hnul.1 fun shifted => ?_
      by_cases hc : c = '&'
      · rw [if_pos hc]
        exact .ampersand hrest
      · rw [if_neg hc]
        exact .direct hdirect hc hrest
    · rename_i hshift
      have hbytes : run.flatMap utf16Bytes ++ utf16Bytes c = (run ++ [c]).flatMap utf16Bytes := by
        rw [List.flatMap_append, List.flatMap_singleton]
      rw [hbytes]
      refine ih (run ++ [c]) ?_ ?_
      · intro x hx
        rcases List.mem_append.mp hx with hx | hx
        · exact hrun x hx
        · rw [List.mem_singleton.mp hx]
          exact hshift
      · simp only [List.mem_append, List.mem_singleton, not_or]
        exact ⟨⟨hnul.1, hnul.2.1⟩, hnul.2.2⟩

variable [Base64Decoder] [LawfulBase64]

/-- The names that are written back as they came, and have no NUL when read. -/
theorem canonical_iff {wire : String} :
    encode (decode wire) = wire ∧ '\x00' ∉ (decode wire).toList ↔ Canonical false wire.toList := by
  constructor
  · intro hx
    obtain ⟨hback, hnul⟩ := hx
    have hcanonical := canonical_encodeFrom [] (decode wire).toList (by simp) hnul
    rw [← hback, encode, String.toList_ofList]
    exact hcanonical
  · intro h
    obtain ⟨cs, hcs, hnul, -⟩ := h.encoded
    have hwire : encode (String.ofList cs) = wire := by
      rw [encode, String.toList_ofList, hcs, String.ofList_toList]
    have hread : decode wire = String.ofList cs := by
      rw [← hwire, decode_encode]
    rw [hread, String.toList_ofList]
    exact ⟨hwire, hnul⟩

end Canonical

/-! ### There and back -/

section Names

variable [Base64Codec] [TryFrom String Mailbox]

/-- What becomes of a name that is rewritten as another string. -/
def renamed (name new : String) : Mailbox :=
  if new = name then .named name
  else
    match TryFrom.tryFrom new with
    | .ok mailbox => mailbox
    | .error _ => .named name

theorem encodeInplace_named (name : String) : encodeInplace (.named name) = renamed name (encode name) := by
  rw [Mailbox.named, encodeInplace, Utf8.fromUTF8?_toList, renamed]
  simp only [Utf8.toList_inj]
  rfl

theorem decodeInplace_named [Base64Decoder] (name : String) :
    decodeInplace (.named name) = renamed name (decode name) := by
  rw [Mailbox.named, decodeInplace, Utf8.fromUTF8?_toList, renamed]
  simp only [Utf8.toList_inj]
  rfl

variable [LawfulMailboxName]

omit [Base64Codec] in
/-- The string that a name is rewritten as decides what becomes of it. -/
theorem renamed_cases (name new : String) :
    (new = name ∧ renamed name new = .named name) ∨
    (new ≠ name ∧ '\x00' ∈ new.toList ∧ renamed name new = .named name) ∨
    (new ≠ name ∧ '\x00' ∉ new.toList ∧ renamed name new = .named new) ∨
      (new ≠ name ∧ new.toList.map Char.toLower = "inbox".toList ∧ renamed name new = .inbox) := by
  unfold renamed
  by_cases hsame : new = name
  · exact .inl ⟨hsame, if_pos hsame⟩
  · rw [if_neg hsame]
    cases hread : (TryFrom.tryFrom new : Except ValidationError Mailbox) with
    | error err => exact .inr (.inl ⟨hsame, (LawfulMailboxName.nul new).mp ⟨err, hread⟩, rfl⟩)
    | ok mailbox =>
      cases mailbox with
      | inbox => exact .inr (.inr (.inr ⟨hsame, LawfulMailboxName.inbox new hread, rfl⟩))
      | other bytes =>
        obtain rfl := LawfulMailboxName.other new bytes hread
        refine .inr (.inr (.inl ⟨hsame, fun hnul => ?_, rfl⟩))
        obtain ⟨err, herr⟩ := (LawfulMailboxName.nul new).mpr hnul
        rw [hread] at herr
        simp at herr

variable [Base64Decoder] [LawfulBase64]

omit [TryFrom String Mailbox] [LawfulMailboxName] in
/-- A name of direct characters without an ampersand is written and read as it is. -/
theorem plain_name {name : String} (h : ∀ c ∈ name.toList, Direct c ∧ c ≠ '&') :
    encode name = name ∧ decode name = name := by
  have hencode : ∀ cs : List Char, (∀ c ∈ cs, Direct c ∧ c ≠ '&') → encodeFrom [] cs = cs := by
    intro cs hcs
    induction cs with
    | nil => rfl
    | cons c cs ih =>
      have hc := hcs c (List.mem_cons_self ..)
      rw [encodeFrom_cons, if_pos hc.1, if_neg hc.2, ih fun x hx => hcs x (List.mem_cons_of_mem c hx)]
      rfl
  have hwritten : encode name = name := by rw [encode, hencode _ h, String.ofList_toList]
  refine ⟨hwritten, ?_⟩
  calc decode name
    _ = decode (encode name) := by rw [hwritten]
    _ = name := decode_encode name

omit [Base64Codec] [TryFrom String Mailbox] [LawfulMailboxName] [Base64Decoder] [LawfulBase64] in
theorem direct_of_inbox {name : String} (h : name.toList.map Char.toLower = "inbox".toList) :
    ∀ c ∈ name.toList, Direct c ∧ c ≠ '&' := by
  intro c hc
  have hlower : c.toLower ∈ "inbox".toList := h ▸ List.mem_map_of_mem hc
  have hletters : ∀ x ∈ "inbox".toList, 0x61 ≤ x.toNat ∧ x.toNat ≤ 0x7A := by simp
  have hletter := hletters _ hlower
  have hvalue : 0x41 ≤ c.toNat ∧ c.toNat ≤ 0x7A := by
    unfold Char.toLower at hletter
    split at hletter
    · rename_i hupper
      have hlow : 0x41 ≤ c.toNat := UInt32.le_iff_toNat_le.mp hupper.1
      have hhigh : c.toNat ≤ 0x5A := UInt32.le_iff_toNat_le.mp hupper.2
      omega
    · omega
  refine ⟨⟨by omega, by omega⟩, fun hand => ?_⟩
  rw [hand] at hvalue
  exact absurd hvalue (by decide)

/-- Encoded, a mailbox is the name that its encoding spells. -/
theorem encodeInplace_eq_named {name wire : String} :
    encodeInplace (.named name) = .named wire ↔ encode name = wire := by
  rw [encodeInplace_named]
  rcases renamed_cases name (encode name) with ⟨hsame, hx⟩ | ⟨-, hnul, -⟩ | ⟨hne, -, hx⟩ |
    ⟨hne, hinbox, -⟩
  · rw [hx, Mailbox.named_inj, hsame]
  · have hdirect := direct_encode name _ hnul
    exact absurd hdirect (by decide)
  · rw [hx, Mailbox.named_inj]
  · have hread := (plain_name (direct_of_inbox hinbox)).2
    rw [decode_encode] at hread
    exact absurd hread.symm hne

/-- A name that came from the wire is written back as it came just when its reading is
encoded to it, and can be a name. -/
theorem returns_iff {wire : String} (hwire : TryFrom.tryFrom wire = Except.ok (Mailbox.named wire)) :
    encodeInplace (decodeInplace (.named wire)) = .named wire ↔
      encode (decode wire) = wire ∧ '\x00' ∉ (decode wire).toList := by
  rw [decodeInplace_named]
  rcases renamed_cases wire (decode wire) with ⟨hsame, hx⟩ | ⟨hne, hnul, hx⟩ | ⟨hne, hnul, hx⟩ |
    ⟨hne, hinbox, hx⟩
  · have hnul : '\x00' ∉ wire.toList := by
      intro hnul
      obtain ⟨err, herr⟩ := (LawfulMailboxName.nul wire).mpr hnul
      rw [hwire] at herr
      simp at herr
    rw [hx, encodeInplace_eq_named, hsame]
    exact (and_iff_left hnul).symm
  · -- the reading has a NUL: the name stays, and is encoded once more
    rw [hx, encodeInplace_eq_named]
    refine iff_of_false (fun hback => hne ?_) fun hx => hx.2 hnul
    calc decode wire
      _ = decode (encode wire) := by rw [hback]
      _ = wire := decode_encode wire
  · rw [hx, encodeInplace_eq_named]
    exact (and_iff_left hnul).symm
  · rw [hx]
    refine iff_of_false (by simp [encodeInplace, Mailbox.named]) fun hback => hne ?_
    rw [← (plain_name (direct_of_inbox hinbox)).1, hback.1]

end Names

/-- What a caller relies on of the names that a server lists. -/
structure Addressable [Base64Codec] [Base64Decoder] [TryFrom String Mailbox] (names : Set String) :
    Prop where
  returns : ∀ wire ∈ names, encodeInplace (decodeInplace (.named wire)) = .named wire
  inverse : ∀ wire ∈ names, encode (decode wire) = wire
  distinct : Set.InjOn decode names
  notInbox : ∀ wire ∈ names, decodeInplace (.named wire) ≠ .inbox

/-- The names of a server can be addressed just when all of them are in canonical form. -/
theorem mailbox_addressable_iff [Base64Codec] [Base64Decoder] [LawfulBase64] [TryFrom String Mailbox]
    [LawfulMailboxName] (names : Set String)
    (hnames : ∀ wire ∈ names, TryFrom.tryFrom wire = Except.ok (Mailbox.named wire)) :
    Addressable names ↔ ∀ wire ∈ names, Canonical false wire.toList := by
  constructor
  · intro h wire hwire
    exact canonical_iff.mp ((returns_iff (hnames wire hwire)).mp (h.returns wire hwire))
  · intro h
    have hback : ∀ wire ∈ names, encode (decode wire) = wire ∧ '\x00' ∉ (decode wire).toList :=
      fun wire hwire => canonical_iff.mpr (h wire hwire)
    have hreturns : ∀ wire ∈ names, encodeInplace (decodeInplace (.named wire)) = .named wire :=
      fun wire hwire => (returns_iff (hnames wire hwire)).mpr (hback wire hwire)
    refine ⟨hreturns, fun wire hwire => (hback wire hwire).1, fun wire hwire wire' hwire' hsame => ?_,
      fun wire hwire hinbox => ?_⟩
    · calc wire
        _ = encode (decode wire) := (hback wire hwire).1.symm
        _ = encode (decode wire') := congrArg encode hsame
        _ = wire' := (hback wire' hwire').1
    · have hmailbox := hreturns wire hwire
      rw [hinbox] at hmailbox
      simp [encodeInplace, Mailbox.named] at hmailbox

namespace Concrete

theorem tryFrom_named {name : String} (hinbox : name.toLower ≠ "inbox") (hnul : '\x00' ∉ name.toList) :
    TryFrom.tryFrom name = Except.ok (Mailbox.named name) := by
  show (if name.toLower = "inbox" then _ else if '\x00' ∈ name.toList then _ else _) = _
  rw [if_neg hinbox, if_neg hnul]
  rfl

theorem tryFrom_inbox {name : String} (hinbox : name.toLower = "inbox") :
    TryFrom.tryFrom name = Except.ok Mailbox.inbox := if_pos hinbox

theorem tryFrom_nul {name : String} (hinbox : name.toLower ≠ "inbox") (hnul : '\x00' ∈ name.toList) :
    (TryFrom.tryFrom name : Except ValidationError Mailbox) = .error ⟨.invalid⟩ := by
  show (if name.toLower = "inbox" then _ else if '\x00' ∈ name.toList then _ else _) = _
  rw [if_neg hinbox, if_pos hnul]

theorem toLower_toList (name : String) : name.toLower.toList = name.toList.map Char.toLower :=
  String.toList_map

scoped instance : LawfulMailboxName where
  inbox name h := by
    by_cases hinbox : name.toLower = "inbox"
    · rw [← toLower_toList, hinbox]
    · by_cases hnul : '\x00' ∈ name.toList
      · simp [tryFrom_nul hinbox hnul] at h
      · simp [tryFrom_named hinbox hnul, Mailbox.named] at h
  other name bytes h := by
    by_cases hinbox : name.toLower = "inbox"
    · simp [tryFrom_inbox hinbox] at h
    · by_cases hnul : '\x00' ∈ name.toList
      · simp [tryFrom_nul hinbox hnul] at h
      · rw [tryFrom_named hinbox hnul] at h
        exact (Mailbox.other.inj (Except.ok.inj h)).symm
  nul name := by
    by_cases hinbox : name.toLower = "inbox"
    · refine iff_of_false (by simp [tryFrom_inbox hinbox]) fun hnul => ?_
      have hdirect := direct_of_inbox (by rw [← toLower_toList, hinbox]) _ hnul
      exact absurd hdirect.1 (by decide)
    · by_cases hnul : '\x00' ∈ name.toList
      · exact iff_of_true ⟨_, tryFrom_nul hinbox hnul⟩ hnul
      · exact iff_of_false (by simp [tryFrom_named hinbox hnul]) hnul

end Concrete

section Concrete

open Concrete

theorem mailbox_addressable_listed : Addressable {"AT&-T", "Notes/&BBEEQAQ+BEgENQQ9BEs-"} := by
  refine (mailbox_addressable_iff _ ?_).mpr ?_
  · intro wire hwire
    rcases hwire with rfl | rfl
    · exact tryFrom_named (by decide +kernel) (by decide +kernel)
    · exact tryFrom_named (by decide +kernel) (by decide +kernel)
  · intro wire hwire
    rcases hwire with rfl | rfl
    · exact canonical_iff.mp (by decide +kernel)
    · exact canonical_iff.mp (by decide +kernel)

/-- `&AGE-` is read as `a`, which is another mailbox. -/
theorem mailbox_not_addressable :
    ¬ ∀ names : Set String,
        (∀ wire ∈ names, TryFrom.tryFrom wire = Except.ok (Mailbox.named wire)) → Addressable names := by
  intro h
  have hvalid : ∀ wire ∈ ({"&AGE-"} : Set String),
      TryFrom.tryFrom wire = Except.ok (Mailbox.named wire) := by
    intro wire hwire
    obtain rfl := Set.mem_singleton_iff.mp hwire
    exact tryFrom_named (by decide +kernel) (by decide +kernel)
  have hback := (h {"&AGE-"} hvalid).inverse "&AGE-" rfl
  exact absurd hback (by decide +kernel)

end Concrete
end IoImap
