import IoImap.Rfc3501.FetchLine
import IoImap.Rfc3501.FetchStreamBatch

/-!
# Reading the UID of a FETCH line

`parse_uid` looks for the letters UID behind something other than a letter or a digit,
with spaces and digits behind them. It reads the number of the first such token of the
line, wherever it stands; the text of a line has it inside one of its items.
-/

namespace IoImap

/-- The digits of the token that the octets begin with, `before` the octet in front of them. -/
def tokenAt (before : Option Byte) (text : Bytes) : Option Bytes :=
  let digits := ((text.drop 3).dropWhile (· == 32)).takeWhile isDigit
  if (text.take 3).map asciiLower = ascii "uid" ∧ before.any isAlphanumeric = false ∧
      (text.drop 3).takeWhile (· == 32) ≠ [] ∧ digits ≠ [] then some digits
  else none

/-- The digits of the first token. -/
def firstToken (before : Option Byte) (text : Bytes) : Option Bytes :=
  match text with
  | [] => none
  | b :: rest => (tokenAt before (b :: rest)).or (firstToken (some b) rest)

theorem parseUidFrom_eq (before : Option Byte) (line : Bytes) :
    parseUidFrom before line = (firstToken before line).bind parseU32 := by
  induction line generalizing before with
  | nil => rfl
  | cons b rest ih =>
    rw [parseUidFrom, firstToken, tokenAt, ih]
    simp only [Bool.and_eq_true, beq_iff_eq, Bool.not_eq_true', decide_eq_true_eq, and_assoc]
    split
    · rfl
    · rfl

/-! ### What a token is -/

/-- The text has a UID token with these digits behind `skipped`: the letters UID in any
case, not directly behind a letter or a digit, then spaces, then digits. -/
def TokenIn (text skipped digits : Bytes) : Prop :=
  ∃ word spaces after, text = skipped ++ (word ++ (spaces ++ (digits ++ after))) ∧
    word.map asciiLower = ascii "uid" ∧ (∀ b ∈ skipped.getLast?, isAlphanumeric b = false) ∧
    (spaces ≠ [] ∧ ∀ b ∈ spaces, b = 32) ∧ (digits ≠ [] ∧ ∀ b ∈ digits, isDigit b = true) ∧
    ∀ b ∈ after.head?, isDigit b = false

/-- The digits of the first UID token of a text. -/
def FirstToken (text digits : Bytes) : Prop :=
  ∃ skipped, TokenIn text skipped digits ∧
    ∀ skipped' digits', TokenIn text skipped' digits' → skipped.length ≤ skipped'.length

def NoToken (text : Bytes) : Prop := ∀ skipped digits, ¬ TokenIn text skipped digits

theorem takeWhile_stop {p : Byte → Bool} {front rest : Bytes} (hfront : ∀ b ∈ front, p b = true)
    (hrest : ∀ b ∈ rest.head?, p b = false) :
    (front ++ rest).takeWhile p = front ∧ (front ++ rest).dropWhile p = rest := by
  rw [List.takeWhile_append_of_pos hfront, List.dropWhile_append_of_pos hfront]
  cases rest with
  | nil => simp
  | cons b rest =>
    have hb := hrest b rfl
    rw [List.takeWhile_cons_of_neg (by simp [hb]), List.dropWhile_cons_of_neg (by simp [hb])]
    simp

theorem not_space_of_isDigit {b : Byte} (h : isDigit b = true) : (b == 32) = false := by
  rw [beq_eq_false_iff_ne]
  intro hb
  rw [hb] at h
  exact absurd h (by decide)

/-- The token that the scan sees at a place is the one that stands there. -/
theorem tokenIn_iff {front text digits : Bytes} :
    TokenIn (front ++ text) front digits ↔ tokenAt front.getLast? text = some digits := by
  unfold tokenAt
  constructor
  · intro h
    obtain ⟨word, spaces, after, htext, hword, hbefore, hspaces, hdigits, hafter⟩ := h
    obtain rfl := List.append_cancel_left htext
    have hlen : word.length = 3 := by simpa [ascii] using congrArg List.length hword
    have htake : (word ++ (spaces ++ (digits ++ after))).take 3 = word := by rw [← hlen, List.take_left]
    have hdrop : (word ++ (spaces ++ (digits ++ after))).drop 3 = spaces ++ (digits ++ after) := by
      rw [← hlen, List.drop_left]
    obtain ⟨d, ds, rfl⟩ := List.exists_cons_of_ne_nil hdigits.1
    have hstop : ∀ b ∈ (d :: ds ++ after).head?, (b == 32) = false := by
      intro b hb
      obtain rfl : d = b := Option.some.inj hb
      exact not_space_of_isDigit (hdigits.2 d (List.mem_cons_self ..))
    have hall : ∀ b ∈ spaces, (b == 32) = true := fun b hb => beq_iff_eq.mpr (hspaces.2 b hb)
    obtain ⟨htakeSpaces, hdropSpaces⟩ := takeWhile_stop hall hstop
    obtain ⟨htakeDigits, -⟩ := takeWhile_stop hdigits.2 hafter
    have hboundary : front.getLast?.any isAlphanumeric = false := by
      cases hlast : front.getLast? with
      | none => rfl
      | some b => exact hbefore b hlast
    simp only [htake, hdrop, htakeSpaces, hdropSpaces, htakeDigits]
    rw [if_pos ⟨hword, hboundary, hspaces.1, hdigits.1⟩]
  · intro h
    simp only [Option.ite_none_right_eq_some, Option.some.injEq] at h
    obtain ⟨⟨hword, hboundary, hspaces, hdigits⟩, rfl⟩ := h
    refine ⟨text.take 3, (text.drop 3).takeWhile (· == 32),
      ((text.drop 3).dropWhile (· == 32)).dropWhile isDigit, ?_, hword, ?_, ⟨hspaces, ?_⟩, ⟨hdigits, ?_⟩, ?_⟩
    · rw [List.takeWhile_append_dropWhile, List.takeWhile_append_dropWhile, List.take_append_drop]
    · intro b hb
      rw [hb] at hboundary
      exact hboundary
    · intro b hb
      exact beq_iff_eq.mp (List.all_eq_true.mp List.all_takeWhile b hb)
    · intro b hb
      exact List.all_eq_true.mp List.all_takeWhile b hb
    · intro b hb
      exact Bool.eq_false_iff.mpr (by
        have hhead := List.head?_dropWhile_not isDigit ((text.drop 3).dropWhile (· == 32))
        rw [hb] at hhead
        simpa using hhead)

/-- A token stands at a place or behind its first octet. -/
theorem tokenIn_cons {front rest mid digits : Bytes} {b : Byte} :
    TokenIn (front ++ b :: rest) (front ++ mid) digits ↔
      (mid = [] ∧ tokenAt front.getLast? (b :: rest) = some digits) ∨
      ∃ ms, mid = b :: ms ∧ TokenIn (front ++ [b] ++ rest) (front ++ [b] ++ ms) digits := by
  have hassoc : ∀ x : Bytes, front ++ [b] ++ x = front ++ b :: x := by simp
  cases mid with
  | nil =>
    rw [List.append_nil, tokenIn_iff]
    simp
  | cons m ms =>
    simp only [hassoc, reduceCtorEq, false_and, false_or, List.cons.injEq]
    constructor
    · intro h
      obtain ⟨word, spaces, after, htext, -⟩ := id h
      rw [List.append_assoc] at htext
      obtain ⟨rfl, -⟩ := List.cons.inj (List.append_cancel_left htext)
      exact ⟨ms, ⟨rfl, rfl⟩, h⟩
    · intro hx
      obtain ⟨ms', ⟨rfl, rfl⟩, h⟩ := hx
      exact h

/-- The scan finds the first token behind `front`, if there is one. -/
theorem firstToken_spec (front text : Bytes) :
    (∀ digits, firstToken front.getLast? text = some digits ↔
      ∃ mid, TokenIn (front ++ text) (front ++ mid) digits ∧
        ∀ mid' digits', TokenIn (front ++ text) (front ++ mid') digits' → mid.length ≤ mid'.length) ∧
    (firstToken front.getLast? text = none ↔
      ∀ mid digits, ¬ TokenIn (front ++ text) (front ++ mid) digits) := by
  induction text generalizing front with
  | nil =>
    have hno : ∀ mid digits, ¬ TokenIn (front ++ []) (front ++ mid) digits := by
      intro mid digits h
      obtain ⟨word, spaces, after, htext, hword, -⟩ := h
      have hlen := congrArg List.length htext
      have hthree : word.length = 3 := by simpa [ascii] using congrArg List.length hword
      simp only [List.length_append, List.length_nil] at hlen
      omega
    refine ⟨fun digits => iff_of_false (by simp [firstToken]) fun hx => ?_, iff_of_true rfl hno⟩
    obtain ⟨mid, htoken, -⟩ := hx
    exact hno mid digits htoken
  | cons b rest ih =>
    obtain ⟨ihSome, ihNone⟩ := ih (front ++ [b])
    rw [List.getLast?_concat] at ihSome ihNone
    rw [firstToken]
    cases hat : tokenAt front.getLast? (b :: rest) with
    | some found =>
      have hhere : TokenIn (front ++ b :: rest) (front ++ []) found := tokenIn_cons.mpr (.inl ⟨rfl, hat⟩)
      refine ⟨fun digits => ?_, iff_of_false (by simp) fun hno => hno [] found hhere⟩
      rw [Option.some_or, Option.some.injEq]
      constructor
      · intro h
        obtain rfl := h
        exact ⟨[], hhere, fun _ _ _ => Nat.zero_le _⟩
      · intro hx
        obtain ⟨mid, htoken, hfirst⟩ := hx
        obtain rfl : mid = [] := List.eq_nil_of_length_eq_zero (Nat.le_zero.mp (hfirst [] found hhere))
        rcases tokenIn_cons.mp htoken with ⟨-, hfound⟩ | ⟨ms, hnil, -⟩
        · exact Option.some.inj (hat.symm.trans hfound)
        · simp at hnil
    | none =>
      rw [Option.none_or]
      constructor
      · intro digits
        rw [ihSome]
        constructor
        · intro hx
          obtain ⟨ms, htoken, hfirst⟩ := hx
          refine ⟨b :: ms, tokenIn_cons.mpr (.inr ⟨ms, rfl, htoken⟩), fun mid' digits' htoken' => ?_⟩
          rcases tokenIn_cons.mp htoken' with ⟨-, hfound⟩ | ⟨ms', rfl, hrest⟩
          · simp [hat] at hfound
          · exact Nat.succ_le_succ (hfirst ms' digits' hrest)
        · intro hx
          obtain ⟨mid, htoken, hfirst⟩ := hx
          rcases tokenIn_cons.mp htoken with ⟨-, hfound⟩ | ⟨ms, rfl, hrest⟩
          · simp [hat] at hfound
          · refine ⟨ms, hrest, fun ms' digits' htoken' => ?_⟩
            have hhere := tokenIn_cons.mpr (.inr ⟨ms', rfl, htoken'⟩)
            exact Nat.le_of_succ_le_succ (hfirst (b :: ms') digits' hhere)
      · rw [ihNone]
        constructor
        · intro hno mid digits htoken
          rcases tokenIn_cons.mp htoken with ⟨-, hfound⟩ | ⟨ms, rfl, hrest⟩
          · simp [hat] at hfound
          · exact hno ms digits hrest
        · intro hno ms digits htoken
          exact hno (b :: ms) digits (tokenIn_cons.mpr (.inr ⟨ms, rfl, htoken⟩))

theorem firstToken_eq_some {text digits : Bytes} :
    firstToken none text = some digits ↔ FirstToken text digits := (firstToken_spec [] text).1 digits

theorem firstToken_eq_none {text : Bytes} : firstToken none text = none ↔ NoToken text :=
  (firstToken_spec [] text).2

/-! ### Tokens of the pieces of a line -/

/-- No token of the text goes on behind it: it ends neither in the letters of a token nor
in a space. -/
def Closed (text : Bytes) : Prop := ∀ b ∈ text.getLast?, b ≠ 32 ∧ asciiLower b ≠ 100

/-- A scan that stops inside a text, or at the octet behind it. -/
theorem scan_append {p : Byte → Bool} {text rest : Bytes} {c : Byte}
    (h : p c = false ∨ ∃ b ∈ text, p b = false) :
    (text ++ c :: rest).takeWhile p = text.takeWhile p ∧
      (text ++ c :: rest).dropWhile p = text.dropWhile p ++ c :: rest := by
  induction text with
  | nil =>
    have hc : p c = false := by simpa using h
    simp [hc]
  | cons b text ih =>
    by_cases hb : p b = true
    · have hstop : p c = false ∨ ∃ x ∈ text, p x = false := by
        refine h.imp_right fun hx => ?_
        obtain ⟨x, hx, hno⟩ := hx
        rcases List.mem_cons.mp hx with rfl | hx
        · simp [hb] at hno
        · exact ⟨x, hx, hno⟩
      obtain ⟨htake, hdrop⟩ := ih hstop
      rw [List.cons_append, List.takeWhile_cons_of_pos hb, List.takeWhile_cons_of_pos hb,
        List.dropWhile_cons_of_pos hb, List.dropWhile_cons_of_pos hb, htake, hdrop]
      exact ⟨rfl, rfl⟩
    · rw [List.cons_append, List.takeWhile_cons_of_neg hb, List.takeWhile_cons_of_neg hb,
        List.dropWhile_cons_of_neg hb, List.dropWhile_cons_of_neg hb]
      exact ⟨rfl, rfl⟩

/-- An octet that belongs to no token. -/
def IsBreak (c : Byte) : Prop := isDigit c = false ∧ asciiLower c ∉ ascii "uid"

instance (c : Byte) : Decidable (IsBreak c) := inferInstanceAs (Decidable (_ ∧ _))

theorem tokenAt_append {before : Option Byte} {text rest : Bytes} {c : Byte} (hc : IsBreak c)
    (hclosed : c = 32 → Closed text) : tokenAt before (text ++ c :: rest) = tokenAt before text := by
  by_cases hlen : text.length < 3
  · -- neither has room for the three letters
    have hshort : (text.take 3).map asciiLower ≠ ascii "uid" := by
      intro h
      have hthree := congrArg List.length h
      simp only [List.length_map, List.length_take, ascii] at hthree
      simp at hthree
      omega
    have hbreak : ((text ++ c :: rest).take 3).map asciiLower ≠ ascii "uid" := by
      intro h
      have hmem : c ∈ (text ++ c :: rest).take 3 := by
        rw [List.take_append, List.mem_append]
        obtain ⟨n, hn⟩ : ∃ n, 3 - text.length = n + 1 := ⟨2 - text.length, by omega⟩
        rw [hn, List.take_succ_cons]
        exact .inr (List.mem_cons_self ..)
      exact hc.2 (h ▸ List.mem_map_of_mem hmem)
    rw [tokenAt, tokenAt, if_neg fun h => hbreak h.1, if_neg fun h => hshort h.1]
  · have hle : 3 ≤ text.length := Nat.not_lt.mp hlen
    unfold tokenAt
    rw [List.take_append_of_le_length hle, List.drop_append_of_le_length hle]
    by_cases hword : (text.take 3).map asciiLower = ascii "uid"
    · have hstop : (c == 32) = false ∨ ∃ b ∈ text.drop 3, (b == 32) = false := by
        by_cases hspace : c = 32
        · refine .inr ?_
          obtain ⟨b, hb⟩ : ∃ b, (text.drop 3).getLast? = some b := by
            cases hlast : (text.drop 3).getLast? with
            | some b => exact ⟨b, rfl⟩
            | none =>
              -- the text is the letters alone, and ends in one
              have hthree : text.take 3 = text := by
                rw [List.take_of_length_le]
                exact List.drop_eq_nil_iff.mp (List.getLast?_eq_none_iff.mp hlast)
              have hd := congrArg List.getLast? hword
              rw [hthree, List.getLast?_map] at hd
              obtain ⟨b, hb, hlower⟩ := Option.map_eq_some_iff.mp hd
              exact absurd hlower (hclosed hspace b hb).2
          have htext : text.getLast? = some b := by
            rw [← List.take_append_drop 3 text, List.getLast?_append, hb, Option.some_or]
          exact ⟨b, List.mem_of_getLast? hb, by simpa using (hclosed hspace b htext).1⟩
        · exact .inl (by simpa using hspace)
      obtain ⟨htakeSpaces, hdropSpaces⟩ : (text.drop 3 ++ c :: rest).takeWhile (· == 32) =
          (text.drop 3).takeWhile (· == 32) ∧ (text.drop 3 ++ c :: rest).dropWhile (· == 32) =
            (text.drop 3).dropWhile (· == 32) ++ c :: rest := scan_append hstop
      obtain ⟨htakeDigits, -⟩ : ((text.drop 3).dropWhile (· == 32) ++ c :: rest).takeWhile isDigit =
          ((text.drop 3).dropWhile (· == 32)).takeWhile isDigit ∧ _ := scan_append (.inl hc.1)
      rw [htakeSpaces, hdropSpaces, htakeDigits]
    · rw [if_neg fun h => hword h.1, if_neg fun h => hword h.1]

theorem firstToken_append {before : Option Byte} {text rest : Bytes} {c : Byte} (hc : IsBreak c)
    (hclosed : c = 32 → Closed text) :
    firstToken before (text ++ c :: rest) =
      (firstToken before text).or (firstToken (text.getLast?.or before) (c :: rest)) := by
  induction text generalizing before with
  | nil => simp [firstToken]
  | cons b text ih =>
    have hat : tokenAt before (b :: text ++ c :: rest) = tokenAt before (b :: text) :=
      tokenAt_append hc hclosed
    have htail : c = 32 → Closed text := by
      intro h x hx
      refine hclosed h x ?_
      rw [List.getLast?_cons, hx]
      rfl
    rw [List.cons_append, firstToken, firstToken, ← List.cons_append, hat, ih htail]
    have hlast : (text.getLast?.or (some b)) = ((b :: text).getLast?.or before) := by
      rw [List.getLast?_cons]
      cases text.getLast? <;> rfl
    rw [hlast]
    cases tokenAt before (b :: text) <;> rfl

theorem firstToken_boundary {c : Byte} (h : isAlphanumeric c = false) (text : Bytes) :
    firstToken (some c) text = firstToken none text := by
  cases text with
  | nil => rfl
  | cons b rest => rw [firstToken, firstToken, tokenAt, tokenAt, Option.any_some, h, Option.any_none]

/-- Behind an octet that belongs to no token and to no word, the scan starts afresh. -/
theorem firstToken_break {text rest : Bytes} {c : Byte} (hc : IsBreak c) (hword : isAlphanumeric c = false)
    (hclosed : c = 32 → Closed text) :
    firstToken none (text ++ c :: rest) = (firstToken none text).or (firstToken none rest) := by
  have hno : tokenAt (text.getLast?.or none) (c :: rest) = none := by
    have happend : tokenAt (text.getLast?.or none) ([] ++ c :: rest) = tokenAt (text.getLast?.or none) [] :=
      tokenAt_append hc fun _ => by simp [Closed]
    rw [List.nil_append] at happend
    rw [happend]
    rfl
  rw [firstToken_append hc hclosed, firstToken, hno, Option.none_or, firstToken_boundary hword]

theorem firstToken_skip {before : Option Byte} {front : Bytes} (h : ∀ b ∈ front, asciiLower b ≠ 117)
    (rest : Bytes) : firstToken before (front ++ rest) = firstToken (front.getLast?.or before) rest := by
  induction front generalizing before with
  | nil => rfl
  | cons b front ih =>
    have hno : tokenAt before (b :: (front ++ rest)) = none := by
      refine if_neg fun hx => ?_
      have hu : asciiLower b = 117 := (List.cons.inj hx.1).1
      exact h b (List.mem_cons_self ..) hu
    rw [List.cons_append, firstToken, hno, Option.none_or, ih fun x hx => h x (List.mem_cons_of_mem b hx),
      List.getLast?_cons]
    cases front.getLast? <;> rfl

theorem firstToken_silent {before : Option Byte} {text : Bytes} (h : ∀ b ∈ text, asciiLower b ≠ 117) :
    firstToken before text = none := by
  have hskip : firstToken before (text ++ []) = firstToken (text.getLast?.or before) [] :=
    firstToken_skip h []
  rw [List.append_nil] at hskip
  rw [hskip]
  rfl

/-- Of texts with a space behind each, the first that has a token. -/
theorem firstToken_texts {texts : List Bytes} (h : ∀ text ∈ texts, Closed text) (rest : Bytes) :
    firstToken none (texts.flatMap (· ++ [32]) ++ rest) =
      (texts.findSome? (firstToken none)).or (firstToken none rest) := by
  induction texts with
  | nil => rfl
  | cons text texts ih =>
    have hbreak : firstToken none (text ++ 32 :: (texts.flatMap (· ++ [32]) ++ rest)) =
        (firstToken none text).or (firstToken none (texts.flatMap (· ++ [32]) ++ rest)) :=
      firstToken_break (by decide) (by decide) fun _ => h text (List.mem_cons_self ..)
    rw [List.flatMap_cons, List.append_assoc, List.append_assoc, List.singleton_append, hbreak,
      ih fun x hx => h x (List.mem_cons_of_mem text hx), List.findSome?_cons]
    cases firstToken none text <;> rfl

/-! ### Lines -/

theorem digit_facts {b : Byte} (h : isDigit b = true) :
    b ≠ 32 ∧ asciiLower b ≠ 100 ∧ asciiLower b ≠ 117 := by
  have hle : 48 ≤ b ∧ b ≤ 57 := by simpa [isDigit] using h
  have hlower : asciiLower b = b := if_neg fun hx => absurd (UInt8.le_trans hx.1 hle.2) (by decide)
  have hne : ∀ c : Byte, isDigit c = false → b ≠ c := by
    intro c hc hb
    rw [hb, hc] at h
    simp at h
  rw [hlower]
  exact ⟨hne 32 (by decide), hne 100 (by decide), hne 117 (by decide)⟩

theorem Number.closed (n : Number) (front : Bytes) : Closed (front ++ n.digits) := by
  intro b hb
  obtain ⟨digits, d, hd⟩ := List.eq_nil_or_concat n.digits |>.resolve_left n.nonempty
  rw [hd, List.concat_eq_append, ← List.append_assoc, List.getLast?_concat] at hb
  obtain rfl := Option.some.inj hb
  have hdigit := digit_facts (n.isDigit d (by rw [hd]; simp))
  exact ⟨hdigit.1, hdigit.2.1⟩

theorem closed_concat {front : Bytes} {b : Byte} (h : b ≠ 32 ∧ asciiLower b ≠ 100) :
    Closed (front ++ [b]) := by
  intro x hx
  rw [List.getLast?_concat] at hx
  obtain rfl := Option.some.inj hx
  exact h

theorem DataItem.closed (item : DataItem) : Closed item.octets := by
  have hsplit : item.octets = (item.name.octets ++ [32]) ++ item.value.octets := by simp [octets]
  rw [hsplit]
  cases item.value with
  | number n => exact n.closed _
  | nil =>
    have hnil : ItemValue.octets .nil = ascii "NI" ++ [76] := rfl
    rw [hnil, ← List.append_assoc]
    exact closed_concat (by decide)
  | quoted octets h =>
    rw [ItemValue.octets, ← List.append_assoc]
    exact closed_concat (by decide)
  | list values =>
    rw [ItemValue.octets, ← List.append_assoc]
    exact closed_concat (by decide)

theorem UidItem.closed (item : UidItem) : Closed item.octets := by
  have hsplit : item.octets = (item.name ++ [32]) ++ item.number.digits := by simp [octets]
  rw [hsplit]
  exact item.number.closed _

theorem UidItem.token (item : UidItem) : firstToken none item.octets = some item.number.digits := by
  rw [firstToken_eq_some]
  refine ⟨[], ⟨item.name, [32], [], ?_, item.isUid, by simp, by simp, ⟨item.number.nonempty, item.number.isDigit⟩,
    by simp⟩, fun _ _ _ => Nat.zero_le _⟩
  simp [UidItem.octets]

theorem UidItem.parse (item : UidItem) : parseU32 item.number.digits = some item.number.value :=
  if_pos item.fits

theorem firstToken_announcement (text : Bytes) (len : Nat) (mode : LiteralMode) :
    firstToken none (text ++ announcement len mode) = firstToken none text := by
  obtain ⟨tail, htail, hsplit⟩ : ∃ tail, (∀ b ∈ tail, asciiLower b ≠ 117) ∧
      announcement len mode = 123 :: (decimal len ++ tail) := by
    cases mode with
    | sync => exact ⟨ascii "\x7d\r\n", by decide +kernel, rfl⟩
    | nonSync => exact ⟨ascii "+\x7d\r\n", by decide +kernel, rfl⟩
  have hsilent : ∀ b ∈ decimal len ++ tail, asciiLower b ≠ 117 := by
    intro b hb
    rcases List.mem_append.mp hb with hb | hb
    · exact (digit_facts (isDigit_of_mem_decimal hb)).2.2
    · exact htail b hb
  rw [hsplit, firstToken_break (by decide) (by decide) fun h => absurd h (by decide),
    firstToken_silent hsilent, Option.or_none]

namespace FetchLine

variable (line : FetchLine)

theorem head_silent : ∀ b ∈ line.head, asciiLower b ≠ 117 := by
  intro b hb
  simp only [head, List.mem_append] at hb
  rcases hb with (((hb | hb) | hb) | hb) | hb
  · revert hb b
    decide +kernel
  · exact (digit_facts (line.sequence.isDigit b hb)).2.2
  · revert hb b
    decide +kernel
  · have hlower : asciiLower b ∈ ascii "fetch" := line.isFetch ▸ List.mem_map_of_mem hb
    intro hu
    rw [hu] at hlower
    exact absurd hlower (by decide)
  · revert hb b
    decide +kernel

/-- The first token of a line: one that hides in the texts ahead of the UID item, or the
UID item. -/
theorem firstToken_octets : firstToken none line.octets =
    (line.ahead.findSome? (firstToken none)).or (line.uid.map fun x => x.1.number.digits) := by
  have hclosed : ∀ text ∈ line.front.map DataItem.octets ++ line.behind, Closed text := by
    intro text htext
    rcases List.mem_append.mp htext with htext | htext
    · obtain ⟨item, -, rfl⟩ := List.mem_map.mp htext
      exact item.closed
    · unfold behind at htext
      split at htext
      · simp at htext
      · rename_i item back _
        rcases List.mem_cons.mp htext with rfl | htext
        · exact item.closed
        · obtain ⟨item', -, rfl⟩ := List.mem_map.mp htext
          exact item'.closed
  have hhead : line.head.getLast?.or none = some 40 := by
    rw [head, List.getLast?_append]
    rfl
  have hafter : firstToken none line.octets =
      ((line.front.map DataItem.octets ++ line.behind).findSome? (firstToken none)).or
        (firstToken none line.opened.octets) := by
    rw [octets, firstToken_announcement, List.append_assoc, firstToken_skip line.head_silent, hhead,
      firstToken_boundary (by decide), firstToken_texts hclosed]
  rw [hafter, List.findSome?_append, ahead, List.findSome?_append]
  cases huid : line.uid with
  | none =>
    simp only [behind, huid, Option.isNone_none, if_true, List.findSome?_nil, List.findSome?_cons,
      Option.or_none, Option.map_none]
    cases firstToken none line.opened.octets <;> rfl
  | some x =>
    obtain ⟨item, back⟩ := x
    simp only [behind, huid, Option.isNone_some, Bool.false_eq_true, if_false, List.findSome?_nil,
      List.findSome?_cons, item.token, Option.or_none, Option.map_some, Option.or_assoc, Option.some_or]

/-- The texts ahead of the UID item do not mislead: the first token that hides in one of
them, if any, has the number of the UID item, or is none where the line has no UID item. -/
def Clear : Prop := ∀ before text after digits, line.ahead = before ++ text :: after →
  (∀ x ∈ before, NoToken x) → FirstToken text digits → parseU32 digits = line.uidValue

end FetchLine

/-- `parse_uid` reads the value of the UID item, and nothing where there is none, just
when no other item hides a token ahead of it that says something else. -/
theorem parse_uid_iff (line : FetchLine) : parseUid line.octets = line.uidValue ↔ line.Clear := by
  rw [parseUid, parseUidFrom_eq, line.firstToken_octets]
  cases hahead : line.ahead.findSome? (firstToken none) with
  | none =>
    have hquiet := List.findSome?_eq_none_iff.mp hahead
    have hread : (line.uid.map fun x => x.1.number.digits).bind parseU32 = line.uidValue := by
      rw [FetchLine.uidValue]
      cases line.uid with
      | none => rfl
      | some x => exact x.1.parse
    refine iff_of_true hread fun before text after digits hsplit _ htoken => ?_
    have hnone := hquiet text (by rw [hsplit]; simp)
    rw [firstToken_eq_some.mpr htoken] at hnone
    simp at hnone
  | some digits =>
    obtain ⟨before, text, after, hsplit, htoken, hbefore⟩ := List.findSome?_eq_some_iff.mp hahead
    constructor
    · intro h before' text' after' digits' hsplit' hbefore' htoken'
      have hfound : line.ahead.findSome? (firstToken none) = some digits' :=
        List.findSome?_eq_some_iff.mpr ⟨before', text', after', hsplit', firstToken_eq_some.mpr htoken',
          fun x hx => firstToken_eq_none.mpr (hbefore' x hx)⟩
      obtain rfl := Option.some.inj (hahead.symm.trans hfound)
      exact h
    · intro h
      exact h before text after digits hsplit (fun x hx => firstToken_eq_none.mp (hbefore x hx))
        (firstToken_eq_some.mp htoken)

section Concrete

def number (digits : Bytes) (h : digits ≠ [] ∧ ∀ b ∈ digits, isDigit b = true) : Number := ⟨digits, h.1, h.2⟩

/-- `* 1 FETCH (FLAGS (UID 34) UID 7 BODY[] {5}`: two keyword flags of a message. -/
def keywordLine : FetchLine where
  sequence := number (ascii "1") (by decide +kernel)
  keyword := ascii "FETCH"
  isFetch := by decide +kernel
  front := [⟨⟨ascii "FLAGS", by decide +kernel, none, none⟩,
    .list (.cons false (.word (ascii "UID") (by decide +kernel))
      (.cons true (.word (ascii "34") (by decide +kernel)) .nil)), by decide +kernel⟩]
  uid := some (⟨ascii "UID", by decide +kernel, number (ascii "7") (by decide +kernel),
    by decide +kernel⟩, [])
  opened := .value ⟨ascii "BODY", by decide +kernel, some ⟨[], .inl rfl, none⟩, none⟩
    (by decide +kernel) (.literal false)
  announced := ⟨.sync, 5⟩

example : keywordLine.octets = ascii "* 1 FETCH (FLAGS (UID 34) UID 7 BODY[] \x7b5\x7d\r\n" := by
  decide +kernel

/-- The body of the message 7 is read as that of the message 34. -/
theorem parse_uid_misled : ¬ ∀ line : FetchLine, parseUid line.octets = line.uidValue := by
  intro h
  have hread : parseUid keywordLine.octets = some 34 := by decide +kernel
  have huid : keywordLine.uidValue = some 7 := by decide +kernel
  rw [h keywordLine, huid] at hread
  simp at hread

end Concrete

end IoImap
