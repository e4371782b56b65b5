import Mathlib.Data.List.Basic

/-!
# UTF-8 octets of a string

The octets of a string as a list, and the string they are read back as, also where
some of them are no UTF-8.
-/

namespace Utf8

theorem loop_eq (bytes : ByteArray) (i : Nat) (seen : List UInt8) :
    ByteArray.toList.loop bytes i seen = seen.reverse ++ bytes.data.toList.drop i := by
  induction i, seen using ByteArray.toList.loop.induct bytes with
  | case1 i seen hlt ih =>
    have hsize : i < bytes.data.size := hlt
    have hget : bytes.get! i = bytes.data[i] := getElem!_pos bytes.data i hsize
    have hdrop : bytes.data[i] :: bytes.data.toList.drop (i + 1) = bytes.data.toList.drop i :=
      (List.drop_eq_getElem_cons hsize).symm
    rw [ByteArray.toList.loop, if_pos hlt, ih, List.reverse_cons, List.append_assoc, hget,
      List.singleton_append, hdrop]
  | case2 i seen hge =>
    have hsize : bytes.data.toList.length ≤ i := by
      rw [Array.length_toList]
      exact Nat.not_lt.mp hge
    rw [ByteArray.toList.loop, if_neg hge, List.drop_eq_nil_of_le hsize, List.append_nil]

theorem toList_eq (bytes : ByteArray) : bytes.toList = bytes.data.toList := by
  rw [ByteArray.toList, loop_eq]
  rfl

/-- A string is read back from its octets. -/
theorem fromUTF8?_toList (s : String) : String.fromUTF8? ⟨s.toUTF8.toList.toArray⟩ = some s := by
  have hbytes : (⟨s.toUTF8.toList.toArray⟩ : ByteArray) = s.toUTF8 := by
    rw [toList_eq, Array.toArray_toList]
  have hvalid : s.toUTF8.IsValidUTF8 := s.isValidUTF8
  rw [hbytes, String.fromUTF8?, dif_pos hvalid]
  exact congrArg some (String.toByteArray_inj.mp rfl)

theorem toList_inj {s t : String} : s.toUTF8.toList = t.toUTF8.toList ↔ s = t := by
  constructor
  · intro h
    have hread := fromUTF8?_toList s
    rw [h, fromUTF8?_toList] at hread
    exact (Option.some.inj hread).symm
  · intro h
    rw [h]

/-! ### Octets that are not all UTF-8 -/

def replacement : Char := '\uFFFD'

def isTail (b : UInt8) : Bool := 0x80 ≤ b && b ≤ 0xBF

/-- Whether the second octet goes on with a character of three or four octets. -/
def goesOn (first second : UInt8) : Bool :=
  if first = 0xE0 then 0xA0 ≤ second && second ≤ 0xBF
  else if first = 0xED then 0x80 ≤ second && second ≤ 0x9F
  else if first = 0xF0 then 0x90 ≤ second && second ≤ 0xBF
  else if first = 0xF4 then 0x80 ≤ second && second ≤ 0x8F
  else 0xE1 ≤ first && first ≤ 0xF3 && isTail second

/-- How many of the octets could have started a character, where none is complete. -/
def invalidLength : List UInt8 → Nat
  | first :: second :: rest =>
    if goesOn first second then
      match rest with
      | third :: _ => if 0xF0 ≤ first && isTail third then 3 else 2
      | [] => 2
    else 1
  | _ => 1

def decodeChar? (bytes : List UInt8) : Option Char := (bytes.take 4).toByteArray.utf8DecodeChar? 0

/-- The characters behind the first `skip` octets, with one U+FFFD for each run of
octets that starts a character and does not end it. -/
def decodeBehind : Nat → List UInt8 → List Char
  | _, [] => []
  | skip + 1, _ :: bs => decodeBehind skip bs
  | 0, b :: bs =>
    match decodeChar? (b :: bs) with
    | some c => c :: decodeBehind (c.utf8Size - 1) bs
    | none => replacement :: decodeBehind (invalidLength (b :: bs) - 1) bs

/-- `String::from_utf8_lossy`. -/
def fromUtf8Lossy (bytes : List UInt8) : String := String.ofList (decodeBehind 0 bytes)

theorem decodeBehind_drop (skip : Nat) (bytes : List UInt8) :
    decodeBehind skip bytes = decodeBehind 0 (bytes.drop skip) := by
  induction bytes generalizing skip with
  | nil => cases skip <;> rfl
  | cons b bs ih =>
    cases skip with
    | zero => rfl
    | succ skip => exact ih skip

theorem decodeChar?_encode (c : Char) (rest : List UInt8) :
    decodeChar? (String.utf8EncodeChar c ++ rest) = some c := by
  have hlen : (String.utf8EncodeChar c).length ≤ 4 := by
    rw [String.length_utf8EncodeChar]
    exact c.utf8Size_le_four
  have htake : (String.utf8EncodeChar c ++ rest).take 4 =
      String.utf8EncodeChar c ++ rest.take (4 - (String.utf8EncodeChar c).length) := by
    rw [List.take_append, List.take_of_length_le hlen]
  rw [decodeChar?, htake, List.toByteArray_append]
  exact ByteArray.utf8DecodeChar?_utf8EncodeChar_append

theorem decodeBehind_encode (c : Char) (rest : List UInt8) :
    decodeBehind 0 (String.utf8EncodeChar c ++ rest) = c :: decodeBehind 0 rest := by
  have hchar := decodeChar?_encode c rest
  have hlen := String.length_utf8EncodeChar c
  obtain ⟨b, bs, hbytes⟩ := List.exists_cons_of_ne_nil (String.utf8EncodeChar_ne_nil (c := c))
  rw [hbytes] at hlen hchar ⊢
  have hskip : c.utf8Size - 1 = bs.length := by
    rw [← hlen]
    rfl
  rw [List.cons_append] at hchar ⊢
  rw [decodeBehind, hchar]
  simp only [hskip]
  rw [decodeBehind_drop, List.drop_left]

/-- Octets that are UTF-8 are read as what they encode. -/
theorem fromUtf8Lossy_toList (s : String) : fromUtf8Lossy s.toUTF8.toList = s := by
  have hchars (cs : List Char) : decodeBehind 0 (cs.flatMap String.utf8EncodeChar) = cs := by
    induction cs with
    | nil => rfl
    | cons c cs ih => rw [List.flatMap_cons, decodeBehind_encode, ih]
  have hbytes : s.toUTF8.toList = s.toList.flatMap String.utf8EncodeChar := by
    rw [toList_eq]
    show s.toByteArray.data.toList = _
    rw [← String.utf8Encode_toList, List.utf8Encode]
    simp
  rw [fromUtf8Lossy, hbytes, hchars]
  exact String.ofList_toList

/-- A character that ends early is one U+FFFD, an octet that starts none is one too. -/
example : fromUtf8Lossy [72, 0xF0, 0x90, 0x80, 87, 0xC0, 0x80] = "H\uFFFDW\uFFFD\uFFFD" := by
  decide +kernel

end Utf8
