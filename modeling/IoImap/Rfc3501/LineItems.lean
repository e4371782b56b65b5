import IoImap.Rfc3501.FetchLine

/-!
# The items of a FETCH line

A blank in no string, list or section separates the names and the values of the items, so
that the octets of a line decide which is its UID item, if it has one.
-/

namespace IoImap

/-! ### Fields -/

/-- Where octets of the items stand: in a quoted string or behind a backslash of one, in how
many lists, and in a section or not. -/
structure Nest where
  quoted : Bool
  escaped : Bool
  depth : Nat
  sect : Bool
  deriving DecidableEq

namespace Nest

def top : Nest := ⟨false, false, 0, false⟩

def next (n : Nest) (b : Byte) : Nest :=
  if n.escaped then { n with escaped := false }
  else if n.quoted then
    if b = 92 then { n with escaped := true }
    else if b = 34 then { n with quoted := false }
    else n
  else if b = 34 then { n with quoted := true }
  else if b = 40 then { n with depth := n.depth + 1 }
  else if b = 41 then { n with depth := n.depth - 1 }
  else if n.depth = 0 ∧ b = 91 then { n with sect := true }
  else if n.depth = 0 ∧ b = 93 then { n with sect := false }
  else n

end Nest

/-- The octets between the blanks that stand in no string, list or section. -/
def fieldsFrom (n : Nest) (field : Bytes) : Bytes → List Bytes
  | [] => [field]
  | b :: rest =>
    if b = 32 ∧ n = .top then field :: fieldsFrom .top [] rest else fieldsFrom (n.next b) (field ++ [b]) rest

/-- Every other field is the name of an item. -/
def uidField : List Bytes → Option Bytes
  | name :: value :: rest =>
    if name.map asciiLower = ascii "uid" then some value else uidField rest
  | _ => none

/-- A text in one field that leads from one place to another. -/
def InField (n : Nest) (text : Bytes) (n' : Nest) : Prop :=
  ∀ field rest, fieldsFrom n field (text ++ rest) = fieldsFrom n' (field ++ text) rest

section InField

variable {n n' n'' : Nest} {text more : Bytes} {b : Byte}

theorem inField_nil : InField n [] n := by
  intro field rest
  rw [List.append_nil, List.nil_append]

theorem InField.append (h : InField n text n') (h' : InField n' more n'') :
    InField n (text ++ more) n'' := by
  intro field rest
  rw [List.append_assoc, h, h', List.append_assoc]

theorem inField_octet (h : b ≠ 32 ∨ n ≠ .top) (hn : n.next b = n') : InField n [b] n' := by
  intro field rest
  rw [List.singleton_append, fieldsFrom, if_neg (by tauto), hn]

theorem InField.cons (h : b ≠ 32 ∨ n ≠ .top) (hn : n.next b = n') (h' : InField n' text n'') :
    InField n (b :: text) n'' := (inField_octet h hn).append h'

/-- Octets that mean nothing where they stand. -/
theorem inField_plain (h : ∀ b ∈ text, (b ≠ 32 ∨ n ≠ .top) ∧ n.next b = n) : InField n text n := by
  induction text with
  | nil => exact inField_nil
  | cons b text ih =>
    obtain ⟨hb, hn⟩ := h b (List.mem_cons_self ..)
    exact .cons hb hn (ih fun x hx => h x (List.mem_cons_of_mem b hx))

theorem InField.fields (h : InField n text n') (field : Bytes) :
    fieldsFrom n field text = [field ++ text] := by
  have hend := h field []
  rw [List.append_nil] at hend
  rw [hend, fieldsFrom]

end InField

/-- Outside strings. -/
def Nest.spot (depth : Nat) (sect : Bool) : Nest := ⟨false, false, depth, sect⟩

theorem spot_next {d : Nat} {s : Bool} {b : Byte} (h : b ≠ 34 ∧ b ≠ 40 ∧ b ≠ 41)
    (hb : d ≠ 0 ∨ (b ≠ 91 ∧ b ≠ 93)) : (Nest.spot d s).next b = .spot d s := by
  rcases hb with hd | hb
  · simp [Nest.next, Nest.spot, h, hd]
  · simp [Nest.next, Nest.spot, h, hb]

theorem IsWord.inField {octets : Bytes} (h : IsWord octets) {d : Nat} {s : Bool}
    (hb : d ≠ 0 ∨ (91 ∉ octets ∧ 93 ∉ octets)) : InField (.spot d s) octets (.spot d s) := by
  refine inField_plain fun b hmem => ?_
  obtain ⟨hblank, -, hquote, hopen, hclose, -⟩ := h.2 b hmem
  have hne : b ≠ 32 := by
    rintro rfl
    exact absurd hblank (by decide)
  refine ⟨.inl hne, spot_next ⟨hquote, hopen, hclose⟩ (hb.imp_right fun hx => ?_)⟩
  exact ⟨fun he => hx.1 (he ▸ hmem), fun he => hx.2 (he ▸ hmem)⟩

theorem IsName.inField {octets : Bytes} (h : IsName octets) (s : Bool) :
    InField (.spot 0 s) octets (.spot 0 s) := h.1.inField (.inr h.2)

theorem inField_digits {digits : Bytes} (h : ∀ b ∈ digits, isDigit b = true) (d : Nat) (s : Bool) :
    InField (.spot d s) digits (.spot d s) := by
  have hdigit : ∀ b : Byte, isDigit b = true → b ≠ 32 ∧ (b ≠ 34 ∧ b ≠ 40 ∧ b ≠ 41) ∧ b ≠ 91 ∧ b ≠ 93 := by
    intro b hb
    refine ⟨?_, ⟨?_, ?_, ?_⟩, ?_, ?_⟩ <;>
    · rintro rfl
      exact absurd hb (by decide)
  refine inField_plain fun b hmem => ?_
  obtain ⟨hblank, hopen, hbrackets⟩ := hdigit b (h b hmem)
  exact ⟨.inl hblank, spot_next hopen (.inr hbrackets)⟩

theorem inField_inside {octets : Bytes} (h : isQuotedText octets = true) (d : Nat) (s : Bool) :
    InField ⟨true, false, d, s⟩ octets ⟨true, false, d, s⟩ := by
  fun_induction isQuotedText octets with
  | case1 => exact inField_nil
  | case2 b =>
    simp only [Bool.and_eq_true, decide_eq_true_eq] at h
    refine inField_octet (.inr (by simp [Nest.top])) ?_
    simp [Nest.next, h]
  | case3 c rest ih =>
    simp only [Bool.and_eq_true] at h
    have hescape : InField ⟨true, false, d, s⟩ [92] ⟨true, true, d, s⟩ :=
      inField_octet (.inl (by decide)) rfl
    have hescaped : InField ⟨true, true, d, s⟩ [c] ⟨true, false, d, s⟩ :=
      inField_octet (.inr (by simp [Nest.top])) rfl
    exact hescape.append (hescaped.append (ih h.2))
  | case4 b c rest hb ih =>
    simp only [Bool.and_eq_true, decide_eq_true_eq] at h
    refine .cons (.inr (by simp [Nest.top])) ?_ (ih h.2)
    simp [Nest.next, hb, h.1.1.1.1]

theorem inField_quoted {octets : Bytes} (h : isQuotedText octets = true) (d : Nat) (s : Bool) :
    InField (.spot d s) (34 :: octets ++ [34]) (.spot d s) := by
  have hopen : InField (.spot d s) (34 :: octets) ⟨true, false, d, s⟩ :=
    .cons (.inl (by decide)) rfl (inField_inside h d s)
  exact hopen.append (inField_octet (.inl (by decide)) rfl)

/-- A blank in a list. -/
theorem inField_space (space : Bool) (d : Nat) (s : Bool) :
    InField (.spot (d + 1) s) (if space then [32] else []) (.spot (d + 1) s) := by
  cases space with
  | false => exact inField_nil
  | true => exact inField_octet (.inr (by simp [Nest.spot, Nest.top])) rfl

mutual

theorem Value.inField (d : Nat) (s : Bool) : (value : Value) →
    InField (.spot (d + 1) s) value.octets (.spot (d + 1) s)
  | .word _ h => h.inField (.inl (Nat.succ_ne_zero d))
  | .quoted _ h => inField_quoted h (d + 1) s
  | .list values => by
    have hopen : InField (.spot (d + 1) s) (40 :: values.octets) (.spot (d + 1 + 1) s) :=
      .cons (.inl (by decide)) rfl (values.inField (d + 1) s)
    exact hopen.append (inField_octet (.inl (by decide)) rfl)

theorem Values.inField (d : Nat) (s : Bool) : (values : Values) →
    InField (.spot (d + 1) s) values.octets (.spot (d + 1) s)
  | .nil => inField_nil
  | .cons space value rest =>
    ((inField_space space d s).append (value.inField d s)).append (rest.inField d s)

end

theorem inField_list (values : Values) (s : Bool) :
    InField (.spot 0 s) (40 :: values.octets ++ [41]) (.spot 0 s) := by
  have hopen : InField (.spot 0 s) (40 :: values.octets) (.spot 1 s) :=
    .cons (.inl (by decide)) rfl (values.inField 0 s)
  exact hopen.append (inField_octet (.inl (by decide)) rfl)

theorem SectionSpec.inField (sect : SectionSpec) : InField .top sect.octets .top := by
  obtain ⟨word, name, fields⟩ := sect
  have hword : InField (.spot 0 true) word (.spot 0 true) := by
    rcases name with rfl | hname
    · exact inField_nil
    · exact hname.inField true
  have hopen : InField .top (91 :: word) (.spot 0 true) := .cons (.inl (by decide)) rfl hword
  have hclose : InField (.spot 0 true) [93] .top := inField_octet (.inl (by decide)) rfl
  cases fields with
  | none => exact (hopen.append inField_nil).append hclose
  | some values =>
    have hfields : InField (.spot 0 true) (32 :: 40 :: values.octets ++ [41]) (.spot 0 true) :=
      .cons (.inr (by simp [Nest.spot, Nest.top])) rfl (inField_list values true)
    exact (hopen.append hfields).append hclose

theorem ItemName.inField (name : ItemName) : InField .top name.octets .top := by
  obtain ⟨atom, hname, sect, origin⟩ := name
  have hsect : InField .top (sect.elim [] SectionSpec.octets) .top := by
    cases sect with
    | none => exact inField_nil
    | some sect => exact sect.inField
  refine ((hname.inField false).append hsect).append ?_
  cases origin with
  | none => exact inField_nil
  | some n =>
    have hopen : InField .top (60 :: n.digits) .top :=
      .cons (.inl (by decide)) rfl (inField_digits n.isDigit 0 false)
    exact hopen.append (inField_octet (.inl (by decide)) rfl)

theorem ItemValue.inField (value : ItemValue) : InField .top value.octets .top := by
  cases value with
  | number n => exact inField_digits n.isDigit 0 false
  | nil => exact inField_plain (by decide +kernel)
  | quoted octets h => exact inField_quoted h 0 false
  | list values => exact inField_list values false

/-- No item but UID is named so. -/
theorem ItemName.ne_uid {name : ItemName} (h : name.atom.map asciiLower ≠ ascii "uid") :
    name.octets.map asciiLower ≠ ascii "uid" := by
  intro huid
  have hmem : ∀ b ∈ name.octets, asciiLower b ∈ ascii "uid" := by
    intro b hb
    rw [← huid]
    exact List.mem_map_of_mem hb
  obtain ⟨atom, hname, sect, origin⟩ := name
  cases sect with
  | some sect => exact absurd (hmem 91 (by simp [ItemName.octets, SectionSpec.octets])) (by decide)
  | none =>
    cases origin with
    | some n => exact absurd (hmem 60 (by simp [ItemName.octets])) (by decide)
    | none => exact h (by simpa [ItemName.octets] using huid)

theorem fields_blank (field rest : Bytes) :
    fieldsFrom .top field (32 :: rest) = field :: fieldsFrom .top [] rest := by
  rw [fieldsFrom, if_pos ⟨rfl, rfl⟩]

/-- An item with a blank behind it is two fields. -/
theorem fields_item {name value : Bytes} (hname : InField .top name .top)
    (hvalue : InField .top value .top) (rest : Bytes) :
    fieldsFrom .top [] (name ++ 32 :: value ++ 32 :: rest) = name :: value :: fieldsFrom .top [] rest := by
  rw [List.append_assoc, hname, List.cons_append, fields_blank, hvalue, fields_blank]
  rfl

theorem uidField_items (front : List DataItem) (rest : Bytes) :
    uidField (fieldsFrom .top [] ((front.map DataItem.octets).flatMap (· ++ [32]) ++ rest)) =
      uidField (fieldsFrom .top [] rest) := by
  induction front with
  | nil => rfl
  | cons item front ih =>
    have hitem : fieldsFrom .top [] (item.octets ++ 32 :: ((front.map DataItem.octets).flatMap (· ++ [32]) ++
        rest)) = item.name.octets :: item.value.octets ::
          fieldsFrom .top [] ((front.map DataItem.octets).flatMap (· ++ [32]) ++ rest) :=
      fields_item item.name.inField item.value.inField _
    rw [List.map_cons, List.flatMap_cons, List.append_assoc, List.append_assoc, List.singleton_append,
      hitem, uidField, if_neg (ItemName.ne_uid item.notUid), ih]

theorem UidItem.inField (item : UidItem) : InField .top item.name .top := by
  refine inField_plain fun b hmem => ?_
  have hb : asciiLower b ∈ ascii "uid" := by
    rw [← item.isUid]
    exact List.mem_map_of_mem hmem
  have hne : ∀ c : Byte, asciiLower c ∉ ascii "uid" → b ≠ c := by
    intro c hc he
    exact hc (he ▸ hb)
  refine ⟨.inl (hne 32 (by decide)), spot_next ⟨?_, ?_, ?_⟩ (.inr ⟨?_, ?_⟩)⟩ <;> exact hne _ (by decide)

theorem inField_announcement (a : LiteralAnnouncement) (d : Nat) (s : Bool) :
    InField (.spot d s) (announcement a.length a.mode) (.spot d s) := by
  have hplain : ∀ text : Bytes, (∀ b ∈ text, b ≠ 32 ∧ (b ≠ 34 ∧ b ≠ 40 ∧ b ≠ 41) ∧ b ≠ 91 ∧ b ≠ 93) →
      InField (.spot d s) text (.spot d s) := by
    intro text h
    refine inField_plain fun b hmem => ?_
    obtain ⟨hblank, hopen, hbrackets⟩ := h b hmem
    exact ⟨.inl hblank, spot_next hopen (.inr hbrackets)⟩
  have hdigits : InField (.spot d s) (decimal a.length) (.spot d s) :=
    inField_digits (fun _ => isDigit_of_mem_decimal) d s
  refine ((hplain _ (by decide +kernel)).append hdigits).append ?_
  cases a.mode with
  | sync => exact hplain _ (by decide +kernel)
  | nonSync => exact hplain _ (by decide +kernel)

theorem OpenValue.inField (value : OpenValue) (d : Nat) :
    ∃ d', InField (.spot d false) value.octets (.spot d' false) := by
  induction value generalizing d with
  | literal binary =>
    refine ⟨d, ?_⟩
    cases binary with
    | false => exact inField_nil
    | true => exact inField_octet (.inl (by decide)) (spot_next (by decide) (.inr (by decide)))
  | list values space inner ih =>
    obtain ⟨d', hinner⟩ := ih (d + 1)
    have hopen : InField (.spot d false) (40 :: values.octets) (.spot (d + 1) false) :=
      .cons (.inl (by decide)) rfl (values.inField d false)
    exact ⟨d', (hopen.append (inField_space space d false)).append hinner⟩

/-- The item of the literal is no UID item. -/
theorem uidField_opened (opened : OpenItem) (a : LiteralAnnouncement) :
    uidField (fieldsFrom .top [] (opened.octets ++ announcement a.length a.mode)) = none := by
  cases opened with
  | value name notUid inner =>
    obtain ⟨d, hinner⟩ := inner.inField 0
    have hvalue : InField .top (inner.octets ++ announcement a.length a.mode) (.spot d false) :=
      hinner.append (inField_announcement a d false)
    have hname : ¬ ([] ++ name.octets).map asciiLower = ascii "uid" := ItemName.ne_uid notUid
    rw [OpenItem.octets, List.append_assoc, name.inField, List.cons_append, fields_blank,
      hvalue.fields, uidField, if_neg hname, uidField]
    simp
  | sect atom name word h values space =>
    have hopen : InField .top (atom ++ 91 :: word) (.spot 0 true) :=
      (name.inField false).append (.cons (.inl (by decide)) rfl (h.inField true))
    have hlist : InField (.spot 0 true) (32 :: 40 :: values.octets) (.spot 1 true) :=
      .cons (.inr (by simp [Nest.spot, Nest.top])) rfl
        (.cons (.inl (by decide)) rfl (values.inField 0 true))
    have hall : InField .top (OpenItem.octets (.sect atom name word h values space) ++
        announcement a.length a.mode) (.spot 1 true) :=
      ((hopen.append hlist).append (inField_space space 0 true)).append (inField_announcement a 1 true)
    rw [hall.fields, uidField]
    simp

namespace FetchLine

/-- The items of a line, the last one as far as it goes. -/
def items (octets : Bytes) : Bytes := ((octets.drop 2).dropWhile isDigit).drop 8

theorem items_octets (line : FetchLine) : items line.octets =
    (line.front.map DataItem.octets ++ line.behind).flatMap (· ++ [32]) ++
      (line.opened.octets ++ announcement line.announced.length line.announced.mode) := by
  have hkeyword : line.keyword.length = 5 := by
    have hlen := congrArg List.length line.isFetch
    rwa [List.length_map] at hlen
  have hoctets : line.octets = ascii "* " ++ (line.sequence.digits ++ 32 :: (line.keyword ++ ascii " (" ++
      ((line.front.map DataItem.octets ++ line.behind).flatMap (· ++ [32]) ++
        (line.opened.octets ++ announcement line.announced.length line.announced.mode)))) := by
    simp [octets, head, ascii]
  have hblank : isDigit 32 = false := by decide
  have hskip : (line.keyword ++ ascii " (").length = 7 := by
    rw [List.length_append, hkeyword]
    rfl
  rw [hoctets, items, List.drop_left' (by rfl), List.dropWhile_append_of_pos line.sequence.isDigit,
    List.dropWhile_cons_of_neg (by simp [hblank]), List.drop_succ_cons, List.drop_left' hskip]

theorem uidField_octets (line : FetchLine) : uidField (fieldsFrom .top [] (items line.octets)) =
    line.uid.map fun x => x.1.number.digits := by
  rw [items_octets, List.flatMap_append, List.append_assoc, uidField_items, behind]
  cases huid : line.uid with
  | none => exact uidField_opened line.opened line.announced
  | some x =>
    obtain ⟨item, back⟩ := x
    have hitem := fields_item item.inField (inField_digits item.number.isDigit 0 false)
      ((back.map DataItem.octets).flatMap (· ++ [32]) ++
        (line.opened.octets ++ announcement line.announced.length line.announced.mode))
    have hsplit : (item.octets :: back.map DataItem.octets).flatMap (· ++ [32]) ++
        (line.opened.octets ++ announcement line.announced.length line.announced.mode) =
          item.name ++ 32 :: item.number.digits ++ 32 ::
            ((back.map DataItem.octets).flatMap (· ++ [32]) ++
              (line.opened.octets ++ announcement line.announced.length line.announced.mode)) := by
      simp [UidItem.octets]
    rw [hsplit, hitem, uidField, if_pos item.isUid]
    rfl

/-- However a line is parsed, it has the same UID item, or none. -/
theorem uidValue_unique {line line' : FetchLine} (h : line.octets = line'.octets) :
    line.uidValue = line'.uidValue := by
  have hvalue : ∀ line : FetchLine, line.uidValue =
      (uidField (fieldsFrom .top [] (items line.octets))).map fun digits => digitsValue digits.reverse := by
    intro line
    rw [uidField_octets, uidValue, Option.map_map]
    rfl
  rw [hvalue line, hvalue line', h]

end FetchLine

end IoImap
