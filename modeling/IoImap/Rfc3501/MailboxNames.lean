import IoImap.Rfc3501.Mailbox

/-!
# The round trip of mailbox names

What `encode` writes, `decode` reads back: the induction is over the name, with the
characters of the open shift as its state.
-/

namespace IoImap

/-- The characters that are written as they are, the ampersand apart. -/
def Direct (c : Char) : Prop := 0x20 ≤ c.toNat ∧ c.toNat ≤ 0x7E

instance (c : Char) : Decidable (Direct c) := inferInstanceAs (Decidable (_ ∧ _))

theorem encodeFrom_cons [Base64Codec] (shifted : Bytes) (c : Char) (cs : List Char) :
    encodeFrom shifted (c :: cs) =
      if Direct c then flushShifted shifted ++ (if c = '&' then ['&', '-'] else [c]) ++ encodeFrom [] cs
      else encodeFrom (shifted ++ utf16Bytes c) cs := rfl

def base64Alphabet : Bytes :=
  ascii "ABCDEFGHIJKLMNOPQRSTUVWXYZabcdefghijklmnopqrstuvwxyz0123456789+/"

/-- What is assumed of the codec: without padding it reads back what it writes, which is
in the standard alphabet and is nothing for nothing. -/
class LawfulBase64 [Base64Codec] [Base64Decoder] : Prop where
  decode_encode : ∀ bytes, Base64Decoder.decodeVec false (Base64Codec.encodeVec false bytes) = bytes
  alphabet : ∀ bytes, ∀ b ∈ Base64Codec.encodeVec false bytes, b ∈ base64Alphabet
  nothing : Base64Codec.encodeVec false [] = []

/-! ### Code units in octets -/

theorem codeUnits_unit {n : Nat} (h : n < 0x10000) (rest : Bytes) :
    codeUnits ((n / 256).toUInt8 :: n.toUInt8 :: rest) = n :: codeUnits rest := by
  have hvalue : (n / 256).toUInt8.toNat * 256 + n.toUInt8.toNat = n := by
    simp only [Nat.toUInt8, UInt8.toNat_ofNat']
    omega
  rw [codeUnits, hvalue]

theorem codeUnits_utf16Bytes (c : Char) (rest : Bytes) :
    codeUnits (utf16Bytes c ++ rest) = Utf16.units c ++ codeUnits rest := by
  have hlt := Utf16.lt_of_char c
  unfold utf16Bytes Utf16.units
  split
  · rename_i h
    exact codeUnits_unit h rest
  · simp only [List.cons_append, List.nil_append]
    rw [codeUnits_unit (by omega), codeUnits_unit (by omega)]

theorem codeUnits_flatMap (run : List Char) :
    codeUnits (run.flatMap utf16Bytes) = run.flatMap Utf16.units := by
  induction run with
  | nil => rfl
  | cons c run ih => rw [List.flatMap_cons, codeUnits_utf16Bytes, ih, List.flatMap_cons]

theorem utf16Bytes_even (run : List Char) : (run.flatMap utf16Bytes).length % 2 = 0 := by
  induction run with
  | nil => rfl
  | cons c run ih =>
    have hc : (utf16Bytes c).length % 2 = 0 := by
      unfold utf16Bytes
      split <;> simp
    rw [List.flatMap_cons, List.length_append, Nat.add_mod, hc, ih]

theorem utf16Bytes_ne_nil (c : Char) : utf16Bytes c ≠ [] := by
  unfold utf16Bytes
  split <;> simp

/-! ### One shift -/

/-- A digit of a shift, as a character. -/
def shiftChar (byte : Byte) : Char := if byte = 47 then ',' else Char.ofNat byte.toNat

theorem shiftChar_facts {b : Byte} (h : b ∈ base64Alphabet) :
    shiftChar b ≠ '-' ∧ Direct (shiftChar b) ∧ shiftChar b ≠ '&' ∧
      (String.utf8EncodeChar (shiftChar b)).map (fun byte => if byte = 44 then 47 else byte) = [b] := by
  have hall : ∀ b ∈ base64Alphabet, shiftChar b ≠ '-' ∧ Direct (shiftChar b) ∧ shiftChar b ≠ '&' ∧
      (String.utf8EncodeChar (shiftChar b)).map (fun byte => if byte = 44 then 47 else byte) = [b] := by
    decide +kernel
  exact hall b h

section Shift

variable [Base64Codec]

/-- The payload of the shift of some characters. -/
def payload (run : List Char) : List Char :=
  (Base64Codec.encodeVec false (run.flatMap utf16Bytes)).map shiftChar

theorem flushShifted_nil : flushShifted [] = [] := rfl

theorem flushShifted_run {run : List Char} (h : run ≠ []) :
    flushShifted (run.flatMap utf16Bytes) = '&' :: payload run ++ ['-'] := by
  have hne : run.flatMap utf16Bytes ≠ [] := by
    intro hnil
    obtain ⟨c, hc⟩ := List.exists_mem_of_ne_nil run h
    exact utf16Bytes_ne_nil c (List.flatMap_eq_nil_iff.mp hnil c hc)
  rw [flushShifted, if_neg hne]
  rfl

variable [Base64Decoder] [LawfulBase64]

theorem mem_payload {run : List Char} {c : Char} (h : c ∈ payload run) :
    ∃ b ∈ base64Alphabet, shiftChar b = c := by
  obtain ⟨b, hb, rfl⟩ := List.mem_map.mp h
  exact ⟨b, LawfulBase64.alphabet _ b hb, rfl⟩

theorem payload_ne_nil {run : List Char} (h : run ≠ []) : payload run ≠ [] := by
  intro hnil
  have hencode : Base64Codec.encodeVec false (run.flatMap utf16Bytes) = [] := List.map_eq_nil_iff.mp hnil
  have hbytes : run.flatMap utf16Bytes = [] :=
    calc run.flatMap utf16Bytes
      _ = Base64Decoder.decodeVec false [] := by rw [← hencode, LawfulBase64.decode_encode]
      _ = Base64Decoder.decodeVec false (Base64Codec.encodeVec false []) := by rw [LawfulBase64.nothing]
      _ = [] := LawfulBase64.decode_encode []
  obtain ⟨c, hc⟩ := List.exists_mem_of_ne_nil run h
  exact utf16Bytes_ne_nil c (List.flatMap_eq_nil_iff.mp hbytes c hc)

theorem standardPayload_payload (run : List Char) :
    standardPayload (payload run) = Base64Codec.encodeVec false (run.flatMap utf16Bytes) := by
  have hall := LawfulBase64.alphabet (run.flatMap utf16Bytes)
  unfold standardPayload payload
  generalize Base64Codec.encodeVec false (run.flatMap utf16Bytes) = digits at hall
  induction digits with
  | nil => rfl
  | cons b digits ih =>
    have hb := (shiftChar_facts (hall b (List.mem_cons_self ..))).2.2.2
    rw [List.map_cons, List.flatMap_cons, List.map_append, hb,
      ih fun x hx => hall x (List.mem_cons_of_mem b hx)]
    rfl

theorem decodeShift_payload {run : List Char} (h : run ≠ []) (closed : Bool) :
    decodeShift (payload run) closed = run := by
  have hpad : ((Base64Codec.encodeVec false (run.flatMap utf16Bytes)).getLast? = some 61) = False := by
    refine eq_false fun hlast => ?_
    have hmem := LawfulBase64.alphabet _ _ (List.mem_of_getLast? hlast)
    revert hmem
    decide
  rw [decodeShift, if_neg (payload_ne_nil h)]
  simp only [standardPayload_payload, hpad, decide_false, LawfulBase64.decode_encode, true_and,
    utf16Bytes_even, if_true, codeUnits_flatMap, Utf16.decodeLossy_flatMap]

omit [LawfulBase64] in
theorem decodeFrom_payload {acc digits : List Char} (h : ∀ c ∈ digits, c ≠ '-') (rest : List Char) :
    decodeFrom (some acc) (digits ++ '-' :: rest) =
      decodeShift (acc ++ digits) true ++ decodeFrom none rest := by
  induction digits generalizing acc with
  | nil => simp [decodeFrom]
  | cons c digits ih =>
    rw [List.cons_append, decodeFrom, if_neg (h c (List.mem_cons_self ..)),
      ih fun x hx => h x (List.mem_cons_of_mem c hx), List.append_assoc]
    rfl

/-- What is flushed is read back as the characters that were shifted. -/
theorem decodeFrom_flushShifted (run rest : List Char) :
    decodeFrom none (flushShifted (run.flatMap utf16Bytes) ++ rest) = run ++ decodeFrom none rest := by
  by_cases h : run = []
  · rw [h, List.flatMap_nil, flushShifted_nil]
    rfl
  · have hdigits : ∀ c ∈ payload run, c ≠ '-' := by
      intro c hc
      obtain ⟨b, hb, rfl⟩ := mem_payload hc
      exact (shiftChar_facts hb).1
    rw [flushShifted_run h, List.cons_append, List.cons_append, List.append_assoc, decodeFrom,
      if_pos rfl, List.singleton_append, decodeFrom_payload hdigits, List.nil_append,
      decodeShift_payload h]

end Shift

/-! ### The round trip -/

section RoundTrip

variable [Base64Codec] [Base64Decoder] [LawfulBase64]

theorem decodeFrom_encodeFrom (run cs : List Char) :
    decodeFrom none (encodeFrom (run.flatMap utf16Bytes) cs) = run ++ cs := by
  induction cs generalizing run with
  | nil =>
    have hflush := decodeFrom_flushShifted run []
    rw [List.append_nil] at hflush
    rw [encodeFrom, hflush]
    rfl
  | cons c cs ih =>
    have hnil := ih []
    rw [List.flatMap_nil, List.nil_append] at hnil
    rw [encodeFrom_cons]
    split
    · rw [List.append_assoc, decodeFrom_flushShifted]
      by_cases hc : c = '&'
      · rw [if_pos hc, List.cons_append, List.singleton_append, decodeFrom, if_pos rfl, decodeFrom,
          if_pos rfl, hnil, hc]
        rfl
      · rw [if_neg hc, List.singleton_append, decodeFrom, if_neg hc, hnil]
    · have hrun : run.flatMap utf16Bytes ++ utf16Bytes c = (run ++ [c]).flatMap utf16Bytes := by
        rw [List.flatMap_append, List.flatMap_singleton]
      rw [hrun, ih, List.append_assoc]
      rfl

theorem direct_flushShifted (run : List Char) :
    ∀ c ∈ flushShifted (run.flatMap utf16Bytes), Direct c := by
  by_cases h : run = []
  · rw [h, List.flatMap_nil, flushShifted_nil]
    simp
  · intro c hc
    rw [flushShifted_run h, List.cons_append, List.mem_cons, List.mem_append, List.mem_singleton] at hc
    rcases hc with rfl | hc | rfl
    · decide
    · obtain ⟨b, hb, rfl⟩ := mem_payload hc
      exact (shiftChar_facts hb).2.1
    · decide

theorem direct_encodeFrom (run cs : List Char) :
    ∀ c ∈ encodeFrom (run.flatMap utf16Bytes) cs, Direct c := by
  induction cs generalizing run with
  | nil => exact direct_flushShifted run
  | cons c cs ih =>
    rw [encodeFrom_cons]
    split
    · rename_i hdirect
      intro x hx
      rw [List.mem_append, List.mem_append] at hx
      rcases hx with (hx | hx) | hx
      · exact direct_flushShifted run x hx
      · split at hx
        · rcases List.mem_cons.mp hx with rfl | hx
          · decide
          · rw [List.mem_singleton.mp hx]
            decide
        · rw [List.mem_singleton.mp hx]
          exact hdirect
      · exact ih [] x hx
    · have hrun : run.flatMap utf16Bytes ++ utf16Bytes c = (run ++ [c]).flatMap utf16Bytes := by
        rw [List.flatMap_append, List.flatMap_singleton]
      rw [hrun]
      exact ih (run ++ [c])

theorem decode_encode (s : String) : decode (encode s) = s := by
  have hround := decodeFrom_encodeFrom [] s.toList
  rw [List.flatMap_nil, List.nil_append] at hround
  rw [decode, encode, String.toList_ofList, hround, String.ofList_toList]

theorem direct_encode (s : String) : ∀ c ∈ (encode s).toList, Direct c := by
  rw [encode, String.toList_ofList]
  exact direct_encodeFrom [] s.toList

/-- Every name is read back, and is written in printable ASCII. -/
theorem mailbox_round_trip (s : String) :
    decode (encode s) = s ∧ ∀ c ∈ (encode s).toList, Direct c :=
  ⟨decode_encode s, direct_encode s⟩

end RoundTrip

/-! ### The concrete codec -/

theorem base64Digit_mem (n : Nat) : base64Digit n ∈ base64Alphabet := by
  have hall : ∀ k < 64, base64Alphabet.getD k 0 ∈ base64Alphabet := by decide +kernel
  exact hall (n % 64) (Nat.mod_lt n (by decide))

theorem base64Value_digit (n : Nat) : base64Value (base64Digit n) = n % 64 := by
  have hall : ∀ k < 64, base64Value (base64Alphabet.getD k 0) = k := by decide +kernel
  exact hall (n % 64) (Nat.mod_lt n (by decide))

theorem mem_base64 (bytes : Bytes) : ∀ b ∈ base64 false bytes, b ∈ base64Alphabet := by
  induction bytes using base64.induct with
  | case1 a b c rest ih =>
    intro x hx
    rw [base64, List.mem_append] at hx
    rcases hx with hx | hx
    · simp only [List.mem_cons, List.not_mem_nil, or_false] at hx
      rcases hx with rfl | rfl | rfl | rfl <;> exact base64Digit_mem _
    · exact ih x hx
  | case2 a b =>
    intro x hx
    simp only [base64, Bool.false_eq_true, if_false, List.append_nil, List.mem_cons, List.not_mem_nil,
      or_false] at hx
    rcases hx with rfl | rfl | rfl <;> exact base64Digit_mem _
  | case3 a =>
    intro x hx
    simp only [base64, Bool.false_eq_true, if_false, List.append_nil, List.mem_cons, List.not_mem_nil,
      or_false] at hx
    rcases hx with rfl | rfl <;> exact base64Digit_mem _
  | case4 => simp [base64]

theorem toUInt8_eq {n : Nat} {b : Byte} (h : n % 256 = b.toNat) : n.toUInt8 = b := by
  apply UInt8.toNat_inj.mp
  rw [Nat.toUInt8, UInt8.toNat_ofNat', h]

theorem unbase64_base64 (bytes : Bytes) : unbase64 (base64 false bytes) = bytes := by
  induction bytes using base64.induct with
  | case1 a b c rest ih =>
    have ha := a.toNat_lt
    have hb := b.toNat_lt
    have hc := c.toNat_lt
    rw [base64, List.cons_append, List.cons_append, List.cons_append, List.singleton_append, unbase64, ih]
    simp only [base64Value_digit, List.cons_append, List.nil_append]
    congr 1
    · exact toUInt8_eq (by omega)
    · congr 1
      · exact toUInt8_eq (by omega)
      · congr 1
        exact toUInt8_eq (by omega)
  | case2 a b =>
    have ha := a.toNat_lt
    have hb := b.toNat_lt
    simp only [base64, Bool.false_eq_true, if_false, List.append_nil, unbase64, base64Value_digit]
    congr 1
    · exact toUInt8_eq (by omega)
    · congr 1
      exact toUInt8_eq (by omega)
  | case3 a =>
    have ha := a.toNat_lt
    simp only [base64, Bool.false_eq_true, if_false, List.append_nil, unbase64, base64Value_digit]
    congr 1
    exact toUInt8_eq (by omega)
  | case4 => rfl

namespace Concrete

scoped instance : LawfulBase64 where
  decode_encode bytes := by
    have hfilter : (base64 false bytes).filter (· ≠ 61) = base64 false bytes := by
      rw [List.filter_eq_self]
      intro b hb
      have hmem := mem_base64 bytes b hb
      have hall : ∀ b ∈ base64Alphabet, decide (b ≠ 61) = true := by decide +kernel
      exact hall b hmem
    show unbase64 ((base64 false bytes).filter (· ≠ 61)) = bytes
    rw [hfilter, unbase64_base64]
  alphabet := mem_base64
  nothing := rfl

end Concrete

section Concrete

open Concrete

theorem mailbox_round_trip_mixed :
    decode (encode "AT&T/Отправленные/😀\x7f-") = "AT&T/Отправленные/😀\x7f-" ∧
      ∀ c ∈ (encode "AT&T/Отправленные/😀\x7f-").toList, Direct c :=
  mailbox_round_trip _

end Concrete
end IoImap
