import IoImap.Command.Runs
import IoImap.Rfc3501.AppendVariants
import IoImap.Rfc3501.Examine
import IoImap.Rfc3501.Mailboxes
import IoImap.Rfc3501.MailboxWire
import IoImap.Rfc4315.AppendUid
import IoImap.Rfc6851.Move

/-!
# Mailbox names in commands

The encoding of names is not idempotent, and each constructor applies it by hand. What a
command carries is compared with the names that its caller gave.
-/

namespace IoImap

/-! ### Names -/

/-- A mailbox, as callers name it. -/
inductive MailboxName where
  | inbox
  | text (name : String)
  deriving DecidableEq

theorem length_encodeFrom [Base64Codec] {cs : List Char} (h : ∀ c ∈ cs, Direct c) :
    (encodeFrom [] cs).length = cs.length + cs.count '&' := by
  induction cs with
  | nil => rfl
  | cons c cs ih =>
    have hrest := ih fun x hx => h x (List.mem_cons_of_mem c hx)
    rw [encodeFrom_cons, if_pos (h c (List.mem_cons_self ..)), flushShifted_nil, List.length_append,
      hrest, List.count_cons, List.length_cons]
    by_cases hand : c = '&'
    · simp [hand]
      omega
    · simp [hand]
      omega

namespace MailboxName

def mailbox : MailboxName → Mailbox
  | .inbox => .inbox
  | .text name => .named name

/-- The mailbox that a command has to carry. -/
def encoded [Base64Codec] : MailboxName → Mailbox
  | .inbox => .inbox
  | .text name => .named (encode name)

theorem encodeInplace_mailbox [Base64Codec] [Base64Decoder] [LawfulBase64] [TryFrom String Mailbox]
    [LawfulMailboxName] (n : MailboxName) : encodeInplace n.mailbox = n.encoded := by
  cases n with
  | inbox => rfl
  | text name => exact encodeInplace_eq_named.mpr rfl

end MailboxName

def ListMailbox.inner : ListMailbox → Bytes
  | .token inner => inner
  | .string inner => inner

/-- A pattern whose octets are those of a text. -/
structure ListPattern where
  text : String
  listMailbox : ListMailbox
  inner : listMailbox.inner = text.toUTF8.toList

/-- The octets of the mailbox names and patterns of a command. -/
def CommandBody.names : CommandBody → List Bytes
  | .append mailbox _ _ _ | .appendBinary mailbox _ _ _ | .create mailbox | .delete mailbox
  | .subscribe mailbox | .unsubscribe mailbox | .status mailbox _ | .select mailbox _
  | .examine mailbox _ | .copy _ mailbox _ | .move _ mailbox _ => [mailbox.name]
  | .rename fromName toName => [fromName.name, toName.name]
  | .list reference mailboxWildcard | .lsub reference mailboxWildcard =>
    [reference.name, mailboxWildcard.inner]
  | _ => []

/-! ### Calls -/

/-- A coroutine of one command that names mailboxes, with what it is built from. -/
inductive MailboxCall where
  | create (mailbox : MailboxName)
  | delete (mailbox : MailboxName)
  | rename (fromName toName : MailboxName)
  | subscribe (mailbox : MailboxName)
  | unsubscribe (mailbox : MailboxName)
  | select (mailbox : MailboxName) (opts : ImapMailboxSelectOptions)
  | examine (mailbox : MailboxName) (opts : ImapMailboxExamineOptions)
  | status (mailbox : MailboxName) (itemNames : List StatusDataItemName)
  | append (mailbox : MailboxName) (message : Bytes) (opts : ImapMessageAppendOptions)
  | appendUid (mailbox : MailboxName) (message : LiteralOrLiteral8) (opts : ImapAppendUidOptions)
  | copy (sequenceSet : SequenceSet) (mailbox : MailboxName) (opts : ImapMessageCopyOptions)
  | move (sequenceSet : SequenceSet) (mailbox : MailboxName) (opts : ImapMessageMoveOptions)
  | list (reference : MailboxName) (pattern : ListPattern)
  | lsub (reference : MailboxName) (pattern : ListPattern)

namespace MailboxCall

def pattern? : MailboxCall → Option ListPattern
  | list _ pattern => some pattern
  | lsub _ pattern => some pattern
  | _ => none

/-- The pattern, if there is one, is printable ASCII without an ampersand. -/
def Plain (call : MailboxCall) : Prop :=
  ∀ pattern ∈ call.pattern?, ∀ c ∈ pattern.text.toList, Direct c ∧ c ≠ '&'

section Bodies

variable [Base64Codec]

/-- The octets that have to stand for the names and the pattern of a call. -/
def encoded : MailboxCall → List Bytes
  | create mailbox | delete mailbox | subscribe mailbox | unsubscribe mailbox | select mailbox _
  | examine mailbox _ | status mailbox _ | append mailbox _ _ | appendUid mailbox _ _
  | copy _ mailbox _ | move _ mailbox _ => [mailbox.encoded.name]
  | rename fromName toName => [fromName.encoded.name, toName.encoded.name]
  | list reference pattern | lsub reference pattern =>
    [reference.encoded.name, (encode pattern.text).toUTF8.toList]

variable [TryFrom String Mailbox]

def new : MailboxCall → ImapSend Command
  | create mailbox => ImapMailboxCreate.new mailbox.mailbox
  | delete mailbox => ImapMailboxDelete.new mailbox.mailbox
  | rename fromName toName => ImapMailboxRename.new fromName.mailbox toName.mailbox
  | subscribe mailbox => ImapMailboxSubscribe.new mailbox.mailbox
  | unsubscribe mailbox => ImapMailboxUnsubscribe.new mailbox.mailbox
  | select mailbox opts => ImapMailboxSelect.new mailbox.mailbox opts
  | examine mailbox opts => ImapMailboxExamine.new mailbox.mailbox opts
  | status mailbox itemNames => ImapMailboxStatus.new mailbox.mailbox itemNames
  | append mailbox message opts => ImapMessageAppend.new mailbox.mailbox message opts
  | appendUid mailbox message opts => ImapAppendUid.new mailbox.mailbox message opts
  | copy sequenceSet mailbox opts => ImapMessageCopy.new sequenceSet mailbox.mailbox opts
  | move sequenceSet mailbox opts => ImapMessageMove.new sequenceSet mailbox.mailbox opts
  | list reference pattern => ImapMailboxList.new reference.mailbox pattern.listMailbox
  | lsub reference pattern => ImapMailboxLsub.new reference.mailbox pattern.listMailbox

end Bodies

section Names

variable [Base64Codec] [Base64Decoder] [LawfulBase64]

/-- Only printable ASCII without an ampersand is its own encoding. -/
theorem encode_eq_iff {s : String} : encode s = s ↔ ∀ c ∈ s.toList, Direct c ∧ c ≠ '&' := by
  constructor
  · intro hsame c hc
    have hdirect : ∀ c ∈ s.toList, Direct c := hsame ▸ direct_encode s
    refine ⟨hdirect c hc, fun hand => ?_⟩
    have hlength := length_encodeFrom hdirect
    have hchars : encodeFrom [] s.toList = s.toList := by
      rw [encode] at hsame
      rw [← String.toList_ofList (l := encodeFrom [] s.toList), hsame]
    rw [hchars] at hlength
    have hcount := List.count_pos_iff.mpr (hand ▸ hc)
    omega
  · exact fun h => (plain_name h).1

variable [TryFrom String Mailbox] [LawfulMailboxName]

/-- A call sends one command, whose names are encoded just when its pattern needs no encoding. -/
theorem new_names (call : MailboxCall) :
    ∃ body, call.new = .command body ∧ (body.names = call.encoded ↔ call.Plain) := by
  have hpattern (reference : MailboxName) (pattern : ListPattern) :
      [(encodeInplace reference.mailbox).name, pattern.listMailbox.inner] =
          [reference.encoded.name, (encode pattern.text).toUTF8.toList] ↔
        ∀ c ∈ pattern.text.toList, Direct c ∧ c ≠ '&' := by
    rw [MailboxName.encodeInplace_mailbox, List.cons.injEq, List.cons.injEq, pattern.inner,
      Utf8.toList_inj, eq_comm (a := pattern.text), encode_eq_iff]
    simp
  cases call with
  | list reference pattern =>
    exact ⟨_, rfl, (hpattern reference pattern).trans (by simp [Plain, pattern?])⟩
  | lsub reference pattern =>
    exact ⟨_, rfl, (hpattern reference pattern).trans (by simp [Plain, pattern?])⟩
  | appendUid mailbox message opts =>
    cases message <;>
      exact ⟨_, rfl, by simp [Plain, pattern?, encoded, CommandBody.names, ImapAppendUid.body,
        MailboxName.encodeInplace_mailbox]⟩
  | _ =>
    exact ⟨_, rfl, by simp [Plain, pattern?, encoded, CommandBody.names, ImapMailboxCreate.body,
      ImapMailboxDelete.body, ImapMailboxRename.body, ImapMailboxSubscribe.body,
      ImapMailboxUnsubscribe.body, ImapMailboxSelect.body, ImapMailboxExamine.body,
      ImapMailboxStatus.body, ImapMessageAppend.body, ImapMessageCopy.body, ImapMessageMove.body,
      MailboxName.encodeInplace_mailbox]⟩

end Names
end MailboxCall
end IoImap
