import IoImap.Codec.CommandEncoder

/-!
# Announcements on the wire

A literal announced at the end of a line is read back as announced.
-/

namespace IoImap

theorem decimal_eq (n : Nat) :
    decimal n = (if n < 10 then [] else decimal (n / 10)) ++ [(48 + n % 10).toUInt8] := by
  have hdigit : ∀ d < 10, (Nat.digitChar d).toNat.toUInt8 = (48 + d).toUInt8 := by decide
  have hmod := hdigit (n % 10) (Nat.mod_lt n (by decide))
  unfold decimal
  rw [Nat.toDigits_eq_if (by decide)]
  split
  · rename_i hlt
    rw [Nat.mod_eq_of_lt hlt] at hmod ⊢
    simp [hmod]
  · simp [hmod]

theorem isDigit_digit {d : Nat} (h : d < 10) : isDigit (48 + d).toUInt8 = true := by
  have hall : ∀ d < 10, isDigit (48 + d).toUInt8 = true := by decide
  exact hall d h

theorem digit_value {d : Nat} (h : d < 10) : ((48 + d).toUInt8).toNat - 48 = d := by
  have hall : ∀ d < 10, ((48 + d).toUInt8).toNat - 48 = d := by decide
  exact hall d h

theorem decimal_reverse (n : Nat) :
    (decimal n).reverse =
      (48 + n % 10).toUInt8 :: (if n < 10 then [] else (decimal (n / 10)).reverse) := by
  rw [decimal_eq]
  split <;> simp

theorem isDigit_of_mem_decimal {n : Nat} {b : Byte} (h : b ∈ decimal n) : isDigit b = true := by
  induction n using Nat.strongRecOn with
  | ind n ih =>
    rw [decimal_eq, List.mem_append, List.mem_singleton] at h
    rcases h with h | rfl
    · split at h
      · simp at h
      · exact ih (n / 10) (by omega) h
    · exact isDigit_digit (Nat.mod_lt n (by decide))

theorem digitsValue_decimal (n : Nat) : digitsValue (decimal n).reverse = n := by
  induction n using Nat.strongRecOn with
  | ind n ih =>
    rw [decimal_reverse]
    have hdigit := digit_value (Nat.mod_lt n (by decide : 0 < 10))
    split
    · rename_i hlt
      simp only [digitsValue, hdigit]
      omega
    · have hrest := ih (n / 10) (by omega)
      simp only [digitsValue, hdigit, hrest]
      omega

/-- The announcement that ends a line is the one the line is read to announce. -/
theorem announcementOf_announcement (line : Bytes) (len : Nat) (mode : LiteralMode) :
    announcementOf (line ++ announcement len mode) = some ⟨mode, len⟩ := by
  obtain ⟨d, ds, hds⟩ := List.exists_cons_of_ne_nil
    (show (decimal len).reverse ≠ [] by rw [decimal_reverse]; exact List.cons_ne_nil _ _)
  have hdigits : ∀ b ∈ d :: ds, isDigit b = true := by
    intro b hb
    rw [← hds, List.mem_reverse] at hb
    exact isDigit_of_mem_decimal hb
  have hvalue : digitsValue (d :: ds) = len := by rw [← hds, digitsValue_decimal]
  have htake : ((d :: ds) ++ 123 :: line.reverse).takeWhile isDigit = d :: ds := by
    rw [List.takeWhile_append_of_pos hdigits]
    simp [isDigit]
  have hdrop : ((d :: ds) ++ 123 :: line.reverse).dropWhile isDigit = 123 :: line.reverse := by
    rw [List.dropWhile_append_of_pos hdigits]
    simp [isDigit]
  have hplus : d ≠ 43 := by
    intro h
    have hd := hdigits d (List.mem_cons_self ..)
    rw [h] at hd
    simp [isDigit] at hd
  cases mode with
  | sync =>
    have hrev : (line ++ announcement len .sync).reverse =
        10 :: 13 :: 125 :: ((d :: ds) ++ 123 :: line.reverse) := by
      simp [announcement, ascii, hds]
    unfold announcementOf
    rw [hrev]
    simp only [List.cons_append] at htake hdrop ⊢
    simp [hplus, htake, hdrop, hvalue]
  | nonSync =>
    have hrev : (line ++ announcement len .nonSync).reverse =
        10 :: 13 :: 125 :: 43 :: ((d :: ds) ++ 123 :: line.reverse) := by
      simp [announcement, ascii, hds]
    unfold announcementOf
    rw [hrev]
    simp only [htake, hdrop]
    simp [hvalue]

end IoImap
