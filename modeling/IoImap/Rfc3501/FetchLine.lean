import IoImap.Codec.Announcement

/-!
# FETCH response lines

The lines of FETCH responses up to a literal announcement. The values are those of
the grammar: numbers, NIL, quoted strings, and lists of them and of words, in which
keyword flags and header field names are as free as they are on the wire.
-/

namespace IoImap

structure Number where
  digits : Bytes
  nonempty : digits ≠ []
  isDigit : ∀ b ∈ digits, isDigit b = true

def Number.value (n : Number) : Nat := digitsValue n.digits.reverse

/-- An atom, a flag or a number inside a list. -/
def IsWord (octets : Bytes) : Prop :=
  octets ≠ [] ∧ ∀ b ∈ octets, 32 < b ∧ b < 127 ∧ b ≠ 34 ∧ b ≠ 40 ∧ b ≠ 41 ∧ b ≠ 123

instance (octets : Bytes) : Decidable (IsWord octets) := inferInstanceAs (Decidable (_ ∧ _))

/-- An atom in the name of an item, which brackets and blanks end. -/
def IsName (octets : Bytes) : Prop := IsWord octets ∧ 91 ∉ octets ∧ 93 ∉ octets

instance (octets : Bytes) : Decidable (IsName octets) := inferInstanceAs (Decidable (_ ∧ _))

/-- What may stand between two quotes: a quote or a backslash only behind a backslash. -/
def isQuotedText : Bytes → Bool
  | [] => true
  | [b] => b ≠ 34 && b ≠ 92 && b ≠ 13 && b ≠ 10 && b ≠ 0
  | b :: c :: rest =>
    if b = 92 then (c = 34 || c = 92) && isQuotedText rest
    else b ≠ 34 && b ≠ 13 && b ≠ 10 && b ≠ 0 && isQuotedText (c :: rest)

mutual

inductive Value where
  | word (octets : Bytes) (h : IsWord octets)
  | quoted (octets : Bytes) (h : isQuotedText octets = true)
  | list (values : Values)

/-- The values of a list, each with or without a space in front of it: the first one and
the adjacent lists of a BODYSTRUCTURE have none. -/
inductive Values where
  | nil
  | cons (space : Bool) (value : Value) (rest : Values)

end

mutual

def Value.octets : Value → Bytes
  | .word octets _ => octets
  | .quoted octets _ => 34 :: octets ++ [34]
  | .list values => 40 :: values.octets ++ [41]

def Values.octets : Values → Bytes
  | .nil => []
  | .cons space value rest => (if space then [32] else []) ++ value.octets ++ rest.octets

end

/-- A section: a part or what is asked of it, and the header fields behind that. -/
structure SectionSpec where
  word : Bytes
  name : word = [] ∨ IsName word
  fields : Option Values

def SectionSpec.octets (sect : SectionSpec) : Bytes :=
  91 :: sect.word ++ (sect.fields.elim [] fun values => 32 :: 40 :: values.octets ++ [41]) ++ [93]

/-- The name of a data item: an atom, a section in brackets and an origin. -/
structure ItemName where
  atom : Bytes
  name : IsName atom
  sect : Option SectionSpec
  origin : Option Number

def ItemName.octets (name : ItemName) : Bytes :=
  name.atom ++ name.sect.elim [] SectionSpec.octets ++ name.origin.elim [] fun n => 60 :: n.digits ++ [62]

inductive ItemValue where
  | number (n : Number)
  | nil
  | quoted (octets : Bytes) (h : isQuotedText octets = true)
  | list (values : Values)

def ItemValue.octets : ItemValue → Bytes
  | .number n => n.digits
  | .nil => ascii "NIL"
  | .quoted octets _ => 34 :: octets ++ [34]
  | .list values => 40 :: values.octets ++ [41]

/-- Any item but UID. -/
structure DataItem where
  name : ItemName
  value : ItemValue
  notUid : name.atom.map asciiLower ≠ ascii "uid"

def DataItem.octets (item : DataItem) : Bytes := item.name.octets ++ 32 :: item.value.octets

structure UidItem where
  name : Bytes
  isUid : name.map asciiLower = ascii "uid"
  number : Number
  fits : number.value < 2 ^ 32

def UidItem.octets (item : UidItem) : Bytes := item.name ++ 32 :: item.number.digits

/-- A value as far as it stands in front of a literal in it: nothing, the mark of a binary
literal, or lists that are not closed. -/
inductive OpenValue where
  | literal (binary : Bool)
  | list (values : Values) (space : Bool) (inner : OpenValue)

def OpenValue.octets : OpenValue → Bytes
  | .literal binary => if binary then [126] else []
  | .list values space inner => 40 :: values.octets ++ (if space then [32] else []) ++ inner.octets

/-- The item that a literal belongs to, as far as it stands in front of it: up to its value, or
up to one of the header fields of its section. -/
inductive OpenItem where
  | value (name : ItemName) (notUid : name.atom.map asciiLower ≠ ascii "uid") (inner : OpenValue)
  | sect (atom : Bytes) (name : IsName atom) (word : Bytes) (h : IsName word) (fields : Values)
      (space : Bool)

def OpenItem.octets : OpenItem → Bytes
  | .value name _ inner => name.octets ++ 32 :: inner.octets
  | .sect atom _ word _ fields space =>
    atom ++ 91 :: word ++ 32 :: 40 :: fields.octets ++ if space then [32] else []

/-- A line of a FETCH response that ends in the announcement of a literal. -/
structure FetchLine where
  sequence : Number
  keyword : Bytes
  isFetch : keyword.map asciiLower = ascii "fetch"
  /-- The items in front of the UID item; all items in front of the literal, when they
  have no UID item. -/
  front : List DataItem
  /-- The UID item, and the items behind it. -/
  uid : Option (UidItem × List DataItem)
  opened : OpenItem
  announced : LiteralAnnouncement

namespace FetchLine

variable (line : FetchLine)

/-- The text in front of the items. -/
def head : Bytes := ascii "* " ++ line.sequence.digits ++ ascii " " ++ line.keyword ++ ascii " ("

def behind : List Bytes :=
  match line.uid with
  | none => []
  | some (item, back) => item.octets :: back.map DataItem.octets

def octets : Bytes :=
  line.head ++ (line.front.map DataItem.octets ++ line.behind).flatMap (· ++ [32]) ++ line.opened.octets ++
    announcement line.announced.length line.announced.mode

/-- The value of the UID item. -/
def uidValue : Option Nat := line.uid.map fun x => x.1.number.value

/-- The texts that stand in front of the UID item; without one, all of them. -/
def ahead : List Bytes :=
  line.front.map DataItem.octets ++ if line.uid.isNone then [line.opened.octets] else []

end FetchLine

end IoImap
