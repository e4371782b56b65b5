import IoImap.Codec.Announcement
import IoImap.Rfc3501.FetchStreamBatch
import Mathlib.Data.List.Chain

/-!
# Replies to FETCH

The untagged responses of a reply with the literals in them, and the items of a FETCH
response. A server may send `BODY[]` as a literal or as a quoted string, on a line with
other items, and other items and responses carry literals too.
-/

namespace IoImap
open Fragmentizer

def crlf : Bytes := ascii "\r\n"

/-! ### Text and literals -/

/-- A part of a response: text within a line, or a literal and its announcement. -/
inductive Segment where
  | text (octets : Bytes)
  | literal (octets : Bytes) (h : octets.length < 2 ^ 32)

def Segment.octets : Segment → Bytes
  | .text octets => octets
  | .literal octets _ => announcement octets.length .sync ++ octets

def Segment.literal? : Segment → Option Bytes
  | .text _ => none
  | .literal octets _ => some octets

def responseOctets (segments : List Segment) : Bytes := segments.flatMap Segment.octets ++ crlf

/-- Behind a literal the text goes on with a blank or with a closing parenthesis. -/
def Segment.Meets : Segment → Segment → Prop
  | .text _, _ => True
  | .literal _ _, .text octets => octets.head? = some 32 ∨ octets.head? = some 41
  | .literal _ _, .literal _ _ => False

structure Spans (segments : List Segment) : Prop where
  lines : ∀ octets, .text octets ∈ segments → LF ∉ octets
  meets : List.IsChain Segment.Meets segments

/-- The text since the last literal, `front` being what stands in front of the segments. -/
def lineFrom (front : Bytes) : List Segment → Bytes
  | [] => front
  | .text octets :: rest => lineFrom (front ++ octets) rest
  | .literal _ _ :: rest => lineFrom [] rest

/-- The literals, each behind the line that announces it. -/
def literalsFrom (front : Bytes) : List Segment → List (Bytes × Bytes)
  | [] => []
  | .text octets :: rest => literalsFrom (front ++ octets) rest
  | .literal octets _ :: rest =>
    (front ++ announcement octets.length .sync, octets) :: literalsFrom [] rest

section Segments

variable {front t line octets : Bytes} {a b : List Segment}

theorem responseOctets_cons (x : Segment) :
    responseOctets (x :: a) = x.octets ++ responseOctets a := by
  rw [responseOctets, List.flatMap_cons, List.append_assoc, responseOctets]

theorem spans_text (h : LF ∉ t) : Spans [.text t] := by
  refine ⟨fun octets hmem => ?_, .singleton _⟩
  cases List.mem_singleton.mp hmem
  exact h

theorem Spans.tail {x : Segment} (h : Spans (x :: b)) : Spans b :=
  ⟨fun octets hmem => h.lines octets (List.mem_cons_of_mem _ hmem), h.meets.tail⟩

theorem Spans.cons_text (h : LF ∉ t) (hb : Spans b) : Spans (.text t :: b) := by
  refine ⟨fun octets hmem => ?_, ?_⟩
  · rcases List.mem_cons.mp hmem with he | hmem
    · cases he
      exact h
    · exact hb.lines octets hmem
  · cases b with
    | nil => exact .singleton _
    | cons x b => exact .cons_cons trivial hb.meets

/-- A literal at the end of the first part is followed as it has to be. -/
theorem Spans.append_text (ha : Spans a) (hb : Spans (.text t :: b))
    (ht : t.head? = some 32 ∨ t.head? = some 41) : Spans (a ++ .text t :: b) := by
  refine ⟨fun octets hmem => ?_, ?_⟩
  · rcases List.mem_append.mp hmem with hmem | hmem
    · exact ha.lines octets hmem
    · exact hb.lines octets hmem
  · refine List.isChain_append.mpr ⟨ha.meets, hb.meets, fun x _ y hy => ?_⟩
    obtain rfl : Segment.text t = y := by simpa using hy
    cases x with
    | text _ => trivial
    | literal _ _ => exact ht

theorem lineFrom_append : lineFrom front (a ++ b) = lineFrom (lineFrom front a) b := by
  induction a generalizing front with
  | nil => rfl
  | cons x a ih => cases x <;> exact ih

end Segments

/-! ### Responses -/

/-- An untagged response up to the end of its last line. -/
structure Untagged where
  segments : List Segment
  spans : Spans segments
  starts : ∃ text rest, segments = .text text :: rest ∧ text.head? = some 42

/-- The characters of a quoted string. -/
structure Quoted where
  text : Bytes
  chars : ∀ b ∈ text, b ≠ 0 ∧ b ≠ 10 ∧ b ≠ 13 ∧ b < 128

def Quoted.octets (q : Quoted) : Bytes :=
  quoted (q.text.flatMap fun b => if b = 34 ∨ b = 92 then [92, b] else [b])

/-- A word of the grammar, in any case. -/
structure Keyword (word : Bytes) where
  octets : Bytes
  spells : octets.map asciiLower = word

/-- The forms of an `nstring`. -/
inductive NStringForm where
  | nil (name : Keyword (ascii "nil"))
  | quoted (q : Quoted)
  | literal (octets : Bytes) (h : octets.length < 2 ^ 32)

def NStringForm.value : NStringForm → NString
  | .nil _ => none
  | .quoted q => some q.text
  | .literal octets _ => some octets

def NStringForm.segments : NStringForm → List Segment
  | .nil name => [.text name.octets]
  | .quoted q => [.text q.octets]
  | .literal octets h => [.literal octets h]

/-- An item other than the UID of the message and its body, literals included. -/
structure OtherItem where
  segments : List Segment
  spans : Spans segments
  names : ∃ text rest, segments = .text text :: rest ∧
    ∀ name ∈ [ascii "uid ", ascii "body[] "], ¬ name <+: text.map asciiLower

inductive FetchItem where
  | uid (name : Keyword (ascii "uid"))
  | body (name : Keyword (ascii "body[]")) (form : NStringForm)
  | other (item : OtherItem)

structure FetchResponse where
  seq : NonZeroU32
  keyword : Keyword (ascii "fetch")
  uid : NonZeroU32
  items : List FetchItem

namespace FetchResponse

variable (r : FetchResponse)

def head : Bytes := ascii "* " ++ decimal r.seq.get ++ ascii " " ++ r.keyword.octets ++ ascii " ("

def item : FetchItem → List Segment
  | .uid name => [.text (name.octets ++ 32 :: decimal r.uid.get)]
  | .body name form => .text (name.octets ++ [32]) :: form.segments
  | .other item => item.segments

/-- The first item stands behind `sep`, each other one behind a blank. -/
def separated (sep : Bytes) : List FetchItem → List Segment
  | [] => []
  | item :: items => .text sep :: r.item item ++ separated (ascii " ") items

def segments : List Segment := .text r.head :: r.separated [] r.items ++ [.text (ascii ")")]

/-- The line that the item behind `before` starts on, as far as it stands in front of it. -/
def line (before : List FetchItem) : Bytes :=
  lineFrom r.head (r.separated [] before) ++ if before = [] then [] else ascii " "

end FetchResponse

/-! ### The octets of a response -/

theorem decimal_noLine (n : Nat) : LF ∉ decimal n := by
  intro h
  have hdigit := isDigit_of_mem_decimal h
  exact absurd hdigit (by decide)

theorem Keyword.noLine {word : Bytes} (h : LF ∉ word) (name : Keyword word) : LF ∉ name.octets := by
  intro hmem
  have hlower := List.mem_map_of_mem (f := asciiLower) hmem
  rw [name.spells] at hlower
  exact h hlower

theorem Quoted.noLine (q : Quoted) : LF ∉ q.octets := by
  have hquote : LF ∉ ascii "\"" := by decide
  simp only [Quoted.octets, quoted, List.mem_append, hquote, or_false, false_or, List.mem_flatMap,
    not_exists, not_and]
  intro b hb
  have hne : 10 ≠ b := (q.chars b hb).2.1.symm
  split <;> simp [LF, hne]

theorem NStringForm.spans (form : NStringForm) : Spans form.segments := by
  cases form with
  | nil name => exact spans_text (name.noLine (by decide))
  | quoted q => exact spans_text q.noLine
  | literal octets h => exact ⟨by simp [segments], .singleton _⟩

namespace FetchResponse

variable (r : FetchResponse)

theorem spans_item (item : FetchItem) : Spans (r.item item) := by
  cases item with
  | uid name =>
    refine spans_text ?_
    rw [List.mem_append, List.mem_cons, not_or, not_or]
    exact ⟨name.noLine (by decide), by decide, decimal_noLine _⟩
  | body name form =>
    refine .cons_text ?_ form.spans
    rw [List.mem_append, not_or]
    exact ⟨name.noLine (by decide), by decide⟩
  | other item => exact item.spans

/-- The items with the parenthesis that closes them. -/
theorem spans_separated (sep : Bytes) (hsep : LF ∉ sep) (items : List FetchItem) :
    Spans (r.separated sep items ++ [.text (ascii ")")]) := by
  induction items generalizing sep with
  | nil => exact spans_text (by decide)
  | cons item items ih =>
    have hrest := ih (ascii " ") (by decide)
    rw [separated, List.cons_append, List.cons_append, List.append_assoc]
    refine .cons_text hsep ?_
    cases items with
    | nil => exact .append_text (r.spans_item item) hrest (.inr rfl)
    | cons next items => exact .append_text (r.spans_item item) hrest (.inl rfl)

theorem head_noLine : LF ∉ r.head := by
  simp only [head, List.mem_append, not_or]
  exact ⟨⟨⟨⟨by decide, decimal_noLine _⟩, by decide⟩, r.keyword.noLine (by decide)⟩, by decide⟩

theorem segments_eq : r.segments = .text r.head :: (r.separated [] r.items ++ [.text (ascii ")")]) := rfl

def untagged : Untagged where
  segments := r.segments
  spans := .cons_text r.head_noLine (r.spans_separated [] (by simp) r.items)
  starts := ⟨r.head, _, r.segments_eq, rfl⟩

theorem ends : announcementOf (lineFrom [] r.segments ++ crlf) = none := by
  have hline : lineFrom [] r.segments = lineFrom r.head (r.separated [] r.items) ++ ascii ")" := by
    rw [segments_eq, lineFrom, List.nil_append, lineFrom_append]
    rfl
  rw [hline, announcementOf]
  simp [crlf, ascii]

end FetchResponse

/-! ### Replies -/

inductive ReplyResponse where
  | fetch (r : FetchResponse)
  | other (u : Untagged)

def ReplyResponse.untagged : ReplyResponse → Untagged
  | .fetch r => r.untagged
  | .other u => u

def ReplyResponse.segments (response : ReplyResponse) : List Segment := response.untagged.segments

structure FetchReply where
  responses : List ReplyResponse
  completion : Bytes

namespace FetchReply

variable (reply : FetchReply)

def octets : Bytes :=
  (reply.responses.flatMap fun response => responseOctets response.segments) ++ reply.completion

/-- The reply carries `octets` as the body of the message with UID `uid`. -/
def Carries (uid : NonZeroU32) (octets : Bytes) : Prop :=
  ∃ r name form, .fetch r ∈ reply.responses ∧ r.uid = uid ∧ .body name form ∈ r.items ∧
    form.value = some octets

def literals : List Bytes :=
  reply.responses.flatMap fun response => response.segments.filterMap Segment.literal?

/-- No line that ends a response reads as the announcement of a literal. -/
def Framed : Prop :=
  ∀ u, .other u ∈ reply.responses → announcementOf (lineFrom [] u.segments ++ crlf) = none

/-- The literals of the reply, each behind the line that announces it. -/
def announcements : List (Bytes × Bytes) :=
  reply.responses.flatMap fun response => literalsFrom [] response.segments

variable {reply} {uid : Nat} {octets : Bytes}

theorem Framed.ends (h : reply.Framed) {response : ReplyResponse} (hmem : response ∈ reply.responses) :
    announcementOf (lineFrom [] response.segments ++ crlf) = none := by
  cases response with
  | fetch r => exact r.ends
  | other u => exact h u hmem

end FetchReply
end IoImap
