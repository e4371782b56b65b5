import Mathlib.Algebra.Group.Nat.Defs
import Mathlib.Data.List.Basic
import Mathlib.Tactic.Common

/-!
# IMAP types

The part of imap-types that the modelled coroutines build, match on or return.
Constructors that no modelled function looks into are one `other` constructor.
-/

namespace IoImap

abbrev Byte := UInt8
abbrev Bytes := List Byte

def ascii (s : String) : Bytes := s.toList.map fun c => c.toNat.toUInt8

def LF : Byte := 10

structure NonZeroU32 where
  get : Nat
  pos : 0 < get
  lt : get < 2 ^ 32
  deriving DecidableEq

namespace NonZeroU32

def MAX : NonZeroU32 := ⟨2 ^ 32 - 1, by decide, by decide⟩

def new (n : Nat) : Option NonZeroU32 := if h : 0 < n ∧ n < 2 ^ 32 then some ⟨n, h.1, h.2⟩ else none

def ofNat (n : Nat) : NonZeroU32 := (new n).getD MAX

@[ext] theorem ext {a b : NonZeroU32} (h : a.get = b.get) : a = b := by
  cases a
  cases b
  cases h
  rfl

instance : Ord NonZeroU32 := ⟨fun a b => compare a.get b.get⟩
instance : LE NonZeroU32 := ⟨fun a b => a.get ≤ b.get⟩
instance (a b : NonZeroU32) : Decidable (a ≤ b) := inferInstanceAs (Decidable (a.get ≤ b.get))

instance : Std.TransOrd NonZeroU32 where
  eq_swap {a b} := @Std.OrientedCmp.eq_swap Nat compare _ a.get b.get
  isLE_trans {a b c} := @Std.TransCmp.isLE_trans Nat compare _ a.get b.get c.get

instance : Std.LawfulEqOrd NonZeroU32 where
  eq_of_compare {a b} h := ext (@Std.LawfulEqCmp.eq_of_compare Nat compare _ a.get b.get h)
  compare_self {a} := @Std.ReflCmp.compare_self Nat compare _ a.get

def min (a b : NonZeroU32) : NonZeroU32 := if a ≤ b then a else b
def max (a b : NonZeroU32) : NonZeroU32 := if a ≤ b then b else a

end NonZeroU32

abbrev IString := Bytes
abbrev NString := Option Bytes

/-- imap-types' non-empty vector; no modelled function depends on it being non-empty. -/
abbrev Vec1 (α : Type) := List α

structure Tag where
  inner : Bytes
  deriving DecidableEq

structure Atom where
  inner : String
  deriving DecidableEq

inductive ValidationErrorKind where
  | empty
  | notEnough (min : Nat)
  | invalid
  | invalidByteAt (byte : Byte) (index : Nat)
  deriving DecidableEq

structure ValidationError where
  kind : ValidationErrorKind
  deriving DecidableEq

inductive Flag where
  | answered
  | deleted
  | draft
  | flagged
  | seen
  | extension (atom : Atom)
  | keyword (atom : Atom)
  deriving DecidableEq

inductive FlagFetch where
  | flag (flag : Flag)
  | recent
  deriving DecidableEq

inductive FlagPerm where
  | flag (flag : Flag)
  | asterisk
  deriving DecidableEq

/-- A date and time: the instant it denotes, in seconds, and the offset of its zone. -/
structure DateTime where
  instant : Int
  offset : Int
  deriving DecidableEq

/-- `Address`, without its source route. -/
structure Address where
  name : NString
  mailbox : NString
  host : NString
  deriving DecidableEq

/-- `Envelope`, as far as a message can be sorted by it. -/
structure Envelope where
  date : NString
  subject : NString
  «from» : List Address
  «to» : List Address
  cc : List Address
  deriving DecidableEq

/-- `MessageDataItem`; `other` stands for the items that only pass through. -/
inductive MessageDataItem where
  | uid (uid : NonZeroU32)
  | flags (flags : List FlagFetch)
  | modSeq (value : Nat)
  | internalDate (date : DateTime)
  | rfc822Size (size : Nat)
  | envelope (envelope : Envelope)
  | other (raw : Bytes)
  deriving DecidableEq

def MessageDataItem.uid? : MessageDataItem → Option NonZeroU32
  | .uid value => some value
  | _ => none

inductive SeqOrUid where
  | value (value : NonZeroU32)
  | asterisk
  deriving DecidableEq

def SeqOrUid.expand (largest : NonZeroU32) : SeqOrUid → NonZeroU32
  | .value uid => uid
  | .asterisk => largest

inductive Sequence where
  | single (seq : SeqOrUid)
  | range (start stop : SeqOrUid)
  deriving DecidableEq

abbrev SequenceSet := Vec1 Sequence

inductive UidElement where
  | single (uid : NonZeroU32)
  | range (start stop : NonZeroU32)
  deriving DecidableEq

abbrev UidSet := Vec1 UidElement

/-- `imap_types::mailbox::Mailbox`: INBOX, or the octets of another name. -/
inductive Mailbox where
  | inbox
  | other (name : Bytes)
  deriving DecidableEq

inductive CapabilityEnable where
  | condStore
  | other (atom : Atom)
  deriving DecidableEq

inductive Capability where
  | qResync
  | saslIr
  | other (atom : Atom)
  deriving DecidableEq

/-- The parameters of ID, in either direction. -/
abbrev IdParameters := List (IString × NString)

/-- A validated credential, as its octets. -/
structure AString where
  inner : Bytes
  deriving DecidableEq

structure Charset where
  inner : String
  deriving DecidableEq

/-- A search key, as the octets it is encoded to; no modelled function looks into one. -/
structure SearchKey where
  encoding : Bytes
  deriving DecidableEq

inductive SortKey where
  | arrival
  | cc
  | date
  | from
  | size
  | subject
  | to
  | displayFrom
  | displayTo
  deriving DecidableEq

structure SortCriterion where
  reverse : Bool
  key : SortKey
  deriving DecidableEq

inductive AuthMechanism where
  | plain
  | login
  | oauthBearer
  | xoauth2
  | scramSha256
  | other (name : String)
  deriving DecidableEq

inductive FlagNameAttribute where
  | noinferiors
  | noselect
  | marked
  | unmarked
  | extension (atom : Atom)
  deriving DecidableEq

structure QuotedChar where
  inner : Char
  deriving DecidableEq

inductive StatusDataItem where
  | messages (count : Nat)
  | recent (count : Nat)
  | uidNext (uid : NonZeroU32)
  | uidValidity (value : NonZeroU32)
  | unseen (count : Nat)
  | deleted (count : Nat)
  | deletedStorage (size : Nat)
  | highestModSeq (value : Nat)
  deriving DecidableEq

inductive Data where
  | flags (flags : List Flag)
  | list (items : List FlagNameAttribute) (delimiter : Option QuotedChar) (mailbox : Mailbox)
  | lsub (items : List FlagNameAttribute) (delimiter : Option QuotedChar) (mailbox : Mailbox)
  | status (mailbox : Mailbox) (items : List StatusDataItem)
  | exists (count : Nat)
  | recent (count : Nat)
  | expunge (seq : NonZeroU32)
  | fetch (seq : NonZeroU32) (items : Vec1 MessageDataItem)
  | enabled (capabilities : List CapabilityEnable)
  | vanished (earlier : Bool) (knownUids : SequenceSet)
  | capability (capabilities : Vec1 Capability)
  | search (ids : List NonZeroU32)
  | sort (ids : List NonZeroU32)
  | id (parameters : Option IdParameters)
  | other (raw : Bytes)
  deriving DecidableEq

inductive Code where
  | permanentFlags (flags : List FlagPerm)
  | uidNext (uid : NonZeroU32)
  | uidValidity (value : NonZeroU32)
  | unseen (seq : NonZeroU32)
  | highestModSeq (value : Nat)
  | capability (capabilities : Vec1 Capability)
  | appendUid (uidValidity uid : NonZeroU32)
  | copyUid (uidValidity : NonZeroU32) (source destination : UidSet)
  | other (raw : Bytes)
  deriving DecidableEq

inductive StatusKind where
  | ok
  | no
  | bad
  deriving DecidableEq

structure StatusBody where
  kind : StatusKind
  code : Option Code
  text : String
  deriving DecidableEq

structure Tagged where
  tag : Tag
  body : StatusBody
  deriving DecidableEq

structure Bye where
  code : Option Code
  text : String
  deriving DecidableEq

inductive Status where
  | untagged (body : StatusBody)
  | tagged (tagged : Tagged)
  | bye (bye : Bye)
  deriving DecidableEq

inductive CommandContinuationRequest where
  | basic (text : String)
  | base64 (data : Bytes)
  deriving DecidableEq

inductive Response where
  | commandContinuationRequest (cr : CommandContinuationRequest)
  | data (data : Data)
  | status (status : Status)
  deriving DecidableEq

inductive GreetingKind where
  | ok
  | preAuth
  | bye
  deriving DecidableEq

structure Greeting where
  kind : GreetingKind
  code : Option Code
  text : String
  deriving DecidableEq

inductive SelectParameter where
  | condStore
  | qResync (uidValidity : NonZeroU32) (modSequenceValue : Nat)
  deriving DecidableEq

inductive StatusDataItemName where
  | messages
  | recent
  | uidNext
  | uidValidity
  | unseen
  | deleted
  | deletedStorage
  | highestModSeq
  deriving DecidableEq

/-- `ListMailbox`: the pattern of LIST and LSUB, as its octets. -/
inductive ListMailbox where
  | token (inner : Bytes)
  | string (inner : Bytes)
  deriving DecidableEq

inductive MessageDataItemName where
  | uid
  | flags
  | bodyExt (peek : Bool)
  | internalDate
  | rfc822Size
  | envelope
  deriving DecidableEq

inductive LiteralMode where
  | sync
  | nonSync
  deriving DecidableEq

structure Literal where
  data : Bytes
  mode : LiteralMode
  deriving DecidableEq

/-- `LiteralOrLiteral8`: a literal, or one whose octets may be any. -/
inductive LiteralOrLiteral8 where
  | literal (literal : Literal)
  | literal8 (literal : Literal)
  deriving DecidableEq

inductive CommandBody where
  | capability
  | startTls
  | logout
  | login (username password : AString)
  | authenticate (mechanism : AuthMechanism) (initialResponse : Option Bytes)
  | id (parameters : Option IdParameters)
  | append (mailbox : Mailbox) (flags : List Flag) (date : Option DateTime) (message : Literal)
  /-- `Append`, its message a `Literal8`. -/
  | appendBinary (mailbox : Mailbox) (flags : List Flag) (date : Option DateTime) (message : Literal)
  | search (charset : Option Charset) (criteria : Vec1 SearchKey) (uid : Bool)
  | sort (sortCriteria : Vec1 SortCriterion) (charset : Charset) (searchCriteria : Vec1 SearchKey)
      (uid : Bool)
  | idle
  | enable (capabilities : Vec1 CapabilityEnable)
  | create (mailbox : Mailbox)
  | delete (mailbox : Mailbox)
  | rename (fromName toName : Mailbox)
  | subscribe (mailbox : Mailbox)
  | unsubscribe (mailbox : Mailbox)
  | list (reference : Mailbox) (mailboxWildcard : ListMailbox)
  | lsub (reference : Mailbox) (mailboxWildcard : ListMailbox)
  | status (mailbox : Mailbox) (itemNames : List StatusDataItemName)
  | select (mailbox : Mailbox) (parameters : List SelectParameter)
  | examine (mailbox : Mailbox) (parameters : List SelectParameter)
  | fetch (sequenceSet : SequenceSet) (itemNames : List MessageDataItemName) (uid : Bool)
  | copy (sequenceSet : SequenceSet) (mailbox : Mailbox) (uid : Bool)
  | move (sequenceSet : SequenceSet) (mailbox : Mailbox) (uid : Bool)
  deriving DecidableEq

structure Command where
  tag : Tag
  body : CommandBody
  deriving DecidableEq

inductive IdleDone where
  | idleDone
  deriving DecidableEq

/-- `AuthenticateData`: what a client answers a challenge with. -/
inductive AuthenticateData where
  | continue (payload : Bytes)
  | cancel
  deriving DecidableEq

inductive Fragment where
  | line (data : Bytes)
  | literal (data : Bytes) (mode : LiteralMode)
  deriving DecidableEq

end IoImap
