import IoImap.Codec.Encoder
import IoImap.Codec.Fragmentizer

/-!
# A fragmentizer of lines and literals

One fragmentizer that keeps the laws: lines end at LF, a line that ends in
`{n}` or `{n+}` announces a literal of `n` octets, and the message goes on
behind it. What a message decodes to is a parameter. It shows that the laws are
satisfiable and runs the coroutines on concrete streams.
-/

namespace IoImap
open Fragmentizer

/-- The octets up to and with the first LF, and those behind it. -/
def splitLine : Bytes → Option (Bytes × Bytes)
  | [] => none
  | b :: bs => if b = LF then some ([b], bs) else (splitLine bs).map fun r => (b :: r.1, r.2)

theorem splitLine_append {bs line rest : Bytes} (h : splitLine bs = some (line, rest))
    (more : Bytes) : splitLine (bs ++ more) = some (line, rest ++ more) := by
  induction bs generalizing line with
  | nil => simp [splitLine] at h
  | cons b bs ih =>
    simp only [splitLine, List.cons_append] at h ⊢
    split at h
    · rename_i hb
      simp only [Option.some.injEq, Prod.mk.injEq] at h
      obtain ⟨rfl, rfl⟩ := h
      simp [hb]
    · rename_i hb
      obtain ⟨⟨l, r⟩, hl, he⟩ := Option.map_eq_some_iff.mp h
      simp only [Prod.mk.injEq] at he
      obtain ⟨rfl, rfl⟩ := he
      simp [hb, ih hl]

theorem splitLine_eq {bs line rest : Bytes} (h : splitLine bs = some (line, rest)) :
    bs = line ++ rest ∧ line ≠ [] := by
  induction bs generalizing line with
  | nil => simp [splitLine] at h
  | cons b bs ih =>
    simp only [splitLine] at h
    split at h
    · simp only [Option.some.injEq, Prod.mk.injEq] at h
      obtain ⟨rfl, rfl⟩ := h
      simp
    · obtain ⟨⟨l, r⟩, hl, he⟩ := Option.map_eq_some_iff.mp h
      simp only [Prod.mk.injEq] at he
      obtain ⟨rfl, rfl⟩ := he
      simp [(ih hl).1]

theorem splitLine_getLast? {bs line rest : Bytes} (h : splitLine bs = some (line, rest)) :
    line.getLast? = some LF := by
  induction bs generalizing line with
  | nil => simp [splitLine] at h
  | cons b bs ih =>
    simp only [splitLine] at h
    split at h
    · rename_i hb
      simp only [Option.some.injEq, Prod.mk.injEq] at h
      obtain ⟨rfl, rfl⟩ := h
      rw [hb]
      rfl
    · obtain ⟨⟨l, r⟩, hl, he⟩ := Option.map_eq_some_iff.mp h
      simp only [Prod.mk.injEq] at he
      obtain ⟨rfl, rfl⟩ := he
      rw [List.getLast?_cons, ih hl]
      rfl

/-- `rest` is what whole lines leave of the octets. -/
def StripsLines (bs rest : Bytes) : Prop :=
  ∃ lines, bs = lines ++ rest ∧ (lines = [] ∨ lines.getLast? = some LF)

theorem stripsLines_refl (bs : Bytes) : StripsLines bs bs := ⟨[], rfl, .inl rfl⟩

theorem StripsLines.trans {bs rest rest' : Bytes} (h : StripsLines bs rest)
    (h' : StripsLines rest rest') : StripsLines bs rest' := by
  obtain ⟨lines, rfl, hlines⟩ := h
  obtain ⟨more, rfl, hmore⟩ := h'
  refine ⟨lines ++ more, (List.append_assoc ..).symm, ?_⟩
  rcases hmore with rfl | hmore
  · rwa [List.append_nil]
  · rw [List.getLast?_append, hmore]
    exact .inr rfl

theorem splitLine_strips {bs line rest : Bytes} (h : splitLine bs = some (line, rest)) :
    StripsLines bs rest :=
  ⟨line, (splitLine_eq h).1, .inr (splitLine_getLast? h)⟩

theorem splitLine_line {line : Bytes} (h : LF ∉ line) (rest : Bytes) :
    splitLine (line ++ LF :: rest) = some (line ++ [LF], rest) := by
  induction line with
  | nil => simp [splitLine]
  | cons b bs ih =>
    rw [List.mem_cons, not_or] at h
    have hb : b ≠ LF := fun he => h.1 he.symm
    simp [splitLine, hb, ih h.2]

theorem splitLine_of_notMem {bs : Bytes} (h : LF ∉ bs) : splitLine bs = none := by
  induction bs with
  | nil => rfl
  | cons b bs ih =>
    rw [List.mem_cons, not_or] at h
    have hb : b ≠ LF := fun he => h.1 he.symm
    simp [splitLine, hb, ih h.2]

/-- Only the octets not yet scanned have to be searched for the next LF. -/
theorem findIdx?_unscanned {buf : Bytes} {scanned : Nat} (hle : scanned ≤ buf.length)
    (hno : LF ∉ buf.take scanned) :
    buf.findIdx? (· == LF) = ((buf.drop scanned).findIdx? (· == LF)).map (scanned + ·) := by
  have hnone : (buf.take scanned).findIdx? (· == LF) = none := by
    rw [List.findIdx?_eq_none_iff]
    intro b hb
    have hne : b ≠ LF := fun he => hno (he ▸ hb)
    simpa using hne
  have hlen : (buf.take scanned).length = scanned := by
    rw [List.length_take]
    exact Nat.min_eq_left hle
  conv_lhs => rw [← List.take_append_drop scanned buf]
  rw [List.findIdx?_append, hnone, hlen, Option.none_or]
  simp only [Nat.add_comm]

/-- What the search of the octets not yet scanned says of the whole buffer: it has no
line, or this is the first. -/
theorem search_cases {buf : Bytes} {scanned : Nat} (hle : scanned ≤ buf.length)
    (hno : LF ∉ buf.take scanned) :
    ((buf.drop scanned).findIdx? (· == LF) = none ∧ LF ∉ buf) ∨
    ∃ pos line rest, (buf.drop scanned).findIdx? (· == LF) = some pos ∧
      buf = line ++ LF :: rest ∧ LF ∉ line ∧ line.length = scanned + pos ∧
      buf.take (scanned + pos + 1) = line ++ [LF] ∧ buf.drop (scanned + pos + 1) = rest := by
  have hfirst := findIdx?_unscanned hle hno
  cases hpos : (buf.drop scanned).findIdx? (· == LF) with
  | none =>
    rw [hpos, Option.map_none, List.findIdx?_eq_none_iff] at hfirst
    refine .inl ⟨rfl, fun hm => ?_⟩
    simpa using hfirst LF hm
  | some pos =>
    rw [hpos, Option.map_some] at hfirst
    obtain ⟨hlt, hlf, hbefore⟩ := List.findIdx?_eq_some_iff_getElem.mp hfirst
    have hget : buf[scanned + pos] = LF := by simpa using hlf
    have hlen : (buf.take (scanned + pos)).length = scanned + pos :=
      List.length_take_of_le (Nat.le_of_lt hlt)
    refine .inr ⟨pos, buf.take (scanned + pos), buf.drop (scanned + pos + 1), rfl, ?_, ?_, hlen, ?_, rfl⟩
    · rw [← hget, ← List.drop_eq_getElem_cons hlt, List.take_append_drop]
    · intro hm
      obtain ⟨i, hi, he⟩ := List.mem_iff_getElem.mp hm
      have hne := hbefore i (hlen ▸ hi)
      rw [List.getElem_take] at he
      simp [he] at hne
    · rw [← hget, List.take_append_getElem hlt]

/-- What is left behind the LF found is shorter. -/
theorem length_drop_found {buf : Bytes} {scanned pos : Nat}
    (h : (buf.drop scanned).findIdx? (· == LF) = some pos) :
    (buf.drop (scanned + pos + 1)).length < buf.length := by
  obtain ⟨hlt, -⟩ := List.findIdx?_eq_some_iff_getElem.mp h
  rw [List.length_drop] at hlt ⊢
  omega

def digitsValue : Bytes → Nat
  | [] => 0
  | d :: ds => d.toNat - 48 + 10 * digitsValue ds

def isDigit (b : Byte) : Bool := 48 ≤ b && b ≤ 57

def asciiLower (b : Byte) : Byte := if 65 ≤ b ∧ b ≤ 90 then b + 32 else b

def parseU32 (digits : Bytes) : Option Nat :=
  let value := digitsValue digits.reverse
  if value < 2 ^ 32 then some value else none

/-- The literal announced at the end of a line, from the line's end: CRLF, `}`,
`+` for a non-synchronising literal, digits, `{`. -/
def announcementOf (line : Bytes) : Option LiteralAnnouncement :=
  match line.reverse with
  | 10 :: 13 :: 125 :: rest =>
    let (mode, digits) := match rest with
      | 43 :: rest => (LiteralMode.nonSync, rest)
      | rest => (LiteralMode.sync, rest)
    match digits.takeWhile isDigit, digits.dropWhile isDigit with
    | d :: ds, 123 :: _ => some ⟨mode, digitsValue (d :: ds)⟩
    | _, _ => none
  | _ => none

def decodeTable (table : List (Bytes × Response)) (bytes : Bytes) :
    Except DecodeMessageError Response :=
  match table.lookup bytes with
  | some response => .ok response
  | none => .error .decodingFailure

/-- A greeting without a code, by the word its line starts with. -/
def decodeGreetingLine (bytes : Bytes) : Except DecodeMessageError Greeting :=
  if ascii "* OK " <+: bytes then .ok ⟨.ok, none, ""⟩
  else if ascii "* PREAUTH " <+: bytes then .ok ⟨.preAuth, none, ""⟩
  else if ascii "* BYE " <+: bytes then .ok ⟨.bye, none, ""⟩
  else .error .decodingFailure

/-- The octets not yet taken, the length of the literal that is due, and the
message taken so far. -/
structure LineFragmentizer (decode : Bytes → Except DecodeMessageError Response) where
  unread : Bytes
  expects : Option Nat
  message : Bytes
  complete : Bool

namespace LineFragmentizer

variable {decode : Bytes → Except DecodeMessageError Response}

def empty : LineFragmentizer decode := ⟨[], none, [], true⟩

def taken (f : LineFragmentizer decode) : Bytes := if f.complete then [] else f.message

def progress (f : LineFragmentizer decode) : Option FragmentInfo × LineFragmentizer decode :=
  match f.expects with
  | some n =>
    if n ≤ f.unread.length then
      (some .literal, ⟨f.unread.drop n, none, f.taken ++ f.unread.take n, false⟩)
    else (none, f)
  | none =>
    match splitLine f.unread with
    | none => (none, f)
    | some (line, rest) =>
      (some (.line (announcementOf line)),
        ⟨rest, (announcementOf line).map (·.length), f.taken ++ line,
          (announcementOf line).isNone⟩)

instance : Fragmentizer (LineFragmentizer decode) where
  enqueueBytes f b := { f with unread := f.unread ++ b }
  progress := progress
  isMessageComplete f := f.complete
  messageBytes f := f.message
  decodeMessage f := decode f.message
  decodeGreeting f := decodeGreetingLine f.message
  skipMessage f := { f with expects := none, message := [], complete := true }
  backlog f := 2 * f.unread.length + if f.expects.isSome then 1 else 0
  backlog_progress f i f' h := by
    unfold progress at h
    split at h
    · rename_i n hn
      split at h
      · simp only [Prod.mk.injEq, Option.some.injEq] at h
        obtain ⟨-, rfl⟩ := h
        simp only [hn, List.length_drop, Option.isSome_none, Option.isSome_some, if_true,
          Bool.false_eq_true, if_false]
        omega
      · simp at h
    · rename_i hn
      split at h
      · simp at h
      · rename_i line rest hl
        simp only [Prod.mk.injEq, Option.some.injEq] at h
        obtain ⟨-, rfl⟩ := h
        obtain ⟨hu, hne⟩ := splitLine_eq hl
        have hpos := List.length_pos_of_ne_nil hne
        simp only [hu, hn, List.length_append]
        split <;> simp <;> omega

theorem enqueueBytes_eq (f : LineFragmentizer decode) (b : Bytes) :
    enqueueBytes f b = { f with unread := f.unread ++ b } := rfl

theorem progress_eq (f : LineFragmentizer decode) : Fragmentizer.progress f = f.progress := rfl

theorem progress_none {f f' : LineFragmentizer decode} (h : f.progress = (none, f')) : f' = f := by
  unfold progress at h
  split at h <;> split at h <;> simp_all

instance : LawfulFragmentizer (LineFragmentizer decode) where
  enqueueBytes_nil f := by simp [enqueueBytes_eq]
  enqueueBytes_append f a b := by simp [enqueueBytes_eq]
  progress_enqueueBytes f i f' b h := by
    rw [progress_eq] at h ⊢
    unfold progress at h ⊢
    simp only [enqueueBytes_eq, taken]
    split at h
    · rename_i n hn
      split at h
      · rename_i hle
        simp only [Prod.mk.injEq, Option.some.injEq] at h
        obtain ⟨rfl, rfl⟩ := h
        have hle' : n ≤ f.unread.length + b.length := by omega
        simp [hle', taken, List.take_append_of_le_length hle, List.drop_append_of_le_length hle]
      · simp at h
    · rename_i hn
      split at h
      · simp at h
      · rename_i line rest hl
        simp only [Prod.mk.injEq, Option.some.injEq] at h
        obtain ⟨rfl, rfl⟩ := h
        simp [splitLine_append hl, taken]
  progress_dry f f' b h := by rw [progress_none h]
  isMessageComplete_enqueueBytes _ _ := rfl
  messageBytes_enqueueBytes _ _ := rfl
  decodeMessage_enqueueBytes _ _ := rfl

end LineFragmentizer

namespace Concrete

scoped instance : TryFrom Bytes Tag :=
  ⟨fun bytes => if bytes = [] then .error ⟨.empty⟩ else .ok ⟨bytes⟩⟩

scoped instance : LawfulTag where
  inner bytes tag h := by
    have hif : (if bytes = [] then Except.error ⟨.empty⟩ else .ok ⟨bytes⟩ :
      Except ValidationError Tag) = .ok tag := h
    split at hif
    · simp at hif
    · exact (Except.ok.inj hif).symm

end Concrete
end IoImap
