import IoImap.Codec.Encoder
import IoImap.Codec.LineFragmentizer
import IoImap.Rfc3501.Mailbox

/-!
# Encodings of commands

The fragments of the messages that the modelled coroutines send, to run them on
concrete streams. Names and credentials are written as they are, which is what
imap-codec does with an atom; dates are left out.
-/

namespace IoImap

def decimal (n : Nat) : Bytes := (Nat.toDigits 10 n).map fun c => c.toNat.toUInt8

def spaced (words : List Bytes) : Bytes := (words.intersperse (ascii " ")).flatten

def parenthesized (words : List Bytes) : Bytes := ascii "(" ++ spaced words ++ ascii ")"

def CapabilityEnable.name : CapabilityEnable → Bytes
  | .condStore => ascii "CONDSTORE"
  | .other atom => ascii atom.inner

def Mailbox.name : Mailbox → Bytes
  | .inbox => ascii "INBOX"
  | .other name => name

def SelectParameter.encoding : SelectParameter → Bytes
  | .condStore => ascii "CONDSTORE"
  | .qResync uidValidity modSequence =>
    ascii "QRESYNC " ++ parenthesized [decimal uidValidity.get, decimal modSequence]

def StatusDataItemName.name : StatusDataItemName → Bytes
  | .messages => ascii "MESSAGES"
  | .recent => ascii "RECENT"
  | .uidNext => ascii "UIDNEXT"
  | .uidValidity => ascii "UIDVALIDITY"
  | .unseen => ascii "UNSEEN"
  | .deleted => ascii "DELETED"
  | .deletedStorage => ascii "DELETED-STORAGE"
  | .highestModSeq => ascii "HIGHESTMODSEQ"

def SeqOrUid.encoding : SeqOrUid → Bytes
  | .value uid => decimal uid.get
  | .asterisk => ascii "*"

def Sequence.encoding : Sequence → Bytes
  | .single seq => seq.encoding
  | .range start stop => start.encoding ++ ascii ":" ++ stop.encoding

def MessageDataItemName.encoding : MessageDataItemName → Bytes
  | .uid => ascii "UID"
  | .flags => ascii "FLAGS"
  | .bodyExt true => ascii "BODY.PEEK[]"
  | .bodyExt false => ascii "BODY[]"
  | .internalDate => ascii "INTERNALDATE"
  | .rfc822Size => ascii "RFC822.SIZE"
  | .envelope => ascii "ENVELOPE"

def Flag.name : Flag → Bytes
  | .answered => ascii "\\Answered"
  | .deleted => ascii "\\Deleted"
  | .draft => ascii "\\Draft"
  | .flagged => ascii "\\Flagged"
  | .seen => ascii "\\Seen"
  | .extension atom => ascii "\\" ++ ascii atom.inner
  | .keyword atom => ascii atom.inner

def AuthMechanism.name : AuthMechanism → Bytes
  | .plain => ascii "PLAIN"
  | .login => ascii "LOGIN"
  | .oauthBearer => ascii "OAUTHBEARER"
  | .xoauth2 => ascii "XOAUTH2"
  | .scramSha256 => ascii "SCRAM-SHA-256"
  | .other name => ascii name

def SortKey.name : SortKey → Bytes
  | .arrival => ascii "ARRIVAL"
  | .cc => ascii "CC"
  | .date => ascii "DATE"
  | .from => ascii "FROM"
  | .size => ascii "SIZE"
  | .subject => ascii "SUBJECT"
  | .to => ascii "TO"
  | .displayFrom => ascii "DISPLAYFROM"
  | .displayTo => ascii "DISPLAYTO"

def SortCriterion.encoding (criterion : SortCriterion) : Bytes :=
  spaced ((if criterion.reverse then [ascii "REVERSE"] else []) ++ [criterion.key.name])

def quoted (bytes : Bytes) : Bytes := ascii "\"" ++ bytes ++ ascii "\""

def ListMailbox.encoding : ListMailbox → Bytes
  | .token inner => inner
  | .string inner => quoted inner

def idPair (pair : IString × NString) : Bytes :=
  spaced [quoted pair.1, (pair.2.map quoted).getD (ascii "NIL")]

/-- The announcement of a literal of `len` octets. -/
def announcement (len : Nat) (mode : LiteralMode) : Bytes :=
  ascii "\x7b" ++ decimal len ++
    match mode with
    | .sync => ascii "\x7d\r\n"
    | .nonSync => ascii "+\x7d\r\n"

/-- The command without its tag, up to its message if it is APPEND. -/
def CommandBody.encoding : CommandBody → Bytes
  | .capability => ascii "CAPABILITY"
  | .startTls => ascii "STARTTLS"
  | .logout => ascii "LOGOUT"
  | .login username password => spaced [ascii "LOGIN", username.inner, password.inner]
  | .authenticate mechanism initialResponse =>
    spaced ([ascii "AUTHENTICATE", mechanism.name] ++
      match initialResponse with
      | none => []
      | some [] => [ascii "="]
      | some payload => [base64 true payload])
  | .id none => ascii "ID NIL"
  | .id (some parameters) => spaced [ascii "ID", parenthesized (parameters.map idPair)]
  | .append mailbox flags _ _ | .appendBinary mailbox flags _ _ =>
    spaced ([ascii "APPEND", mailbox.name] ++
      if flags = [] then [] else [parenthesized (flags.map (·.name))])
  | .search charset criteria uid =>
    spaced ((if uid then [ascii "UID"] else []) ++ [ascii "SEARCH"] ++
      (match charset with
        | none => []
        | some charset => [ascii "CHARSET", ascii charset.inner]) ++
      criteria.map (·.encoding))
  | .sort sortCriteria charset searchCriteria uid =>
    spaced ((if uid then [ascii "UID"] else []) ++
      [ascii "SORT", parenthesized (sortCriteria.map (·.encoding)), ascii charset.inner] ++
      searchCriteria.map (·.encoding))
  | .idle => ascii "IDLE"
  | .enable capabilities => spaced (ascii "ENABLE" :: capabilities.map (·.name))
  | .create mailbox => spaced [ascii "CREATE", mailbox.name]
  | .delete mailbox => spaced [ascii "DELETE", mailbox.name]
  | .rename fromName toName => spaced [ascii "RENAME", fromName.name, toName.name]
  | .subscribe mailbox => spaced [ascii "SUBSCRIBE", mailbox.name]
  | .unsubscribe mailbox => spaced [ascii "UNSUBSCRIBE", mailbox.name]
  | .list reference mailboxWildcard => spaced [ascii "LIST", reference.name, mailboxWildcard.encoding]
  | .lsub reference mailboxWildcard => spaced [ascii "LSUB", reference.name, mailboxWildcard.encoding]
  | .status mailbox itemNames =>
    spaced [ascii "STATUS", mailbox.name, parenthesized (itemNames.map (·.name))]
  | .select mailbox parameters =>
    spaced ([ascii "SELECT", mailbox.name] ++
      if parameters = [] then [] else [parenthesized (parameters.map (·.encoding))])
  | .examine mailbox parameters =>
    spaced ([ascii "EXAMINE", mailbox.name] ++
      if parameters = [] then [] else [parenthesized (parameters.map (·.encoding))])
  | .fetch sequenceSet itemNames uid =>
    spaced ((if uid then [ascii "UID"] else []) ++
      [ascii "FETCH", ((sequenceSet.map (·.encoding)).intersperse (ascii ",")).flatten,
        match itemNames with
        | [item] => item.encoding
        | items => parenthesized (items.map (·.encoding))])
  | .copy sequenceSet mailbox uid =>
    spaced ((if uid then [ascii "UID"] else []) ++
      [ascii "COPY", ((sequenceSet.map (·.encoding)).intersperse (ascii ",")).flatten, mailbox.name])
  | .move sequenceSet mailbox uid =>
    spaced ((if uid then [ascii "UID"] else []) ++
      [ascii "MOVE", ((sequenceSet.map (·.encoding)).intersperse (ascii ",")).flatten, mailbox.name])

def Command.fragments (command : Command) : List Fragment :=
  let line := command.tag.inner ++ ascii " " ++ command.body.encoding
  match command.body with
  | .append _ _ _ message =>
    [.line (line ++ ascii " " ++ announcement message.data.length message.mode), .literal message.data message.mode,
      .line (ascii "\r\n")]
  | .appendBinary _ _ _ message =>
    [.line (line ++ ascii " ~" ++ announcement message.data.length message.mode),
      .literal message.data message.mode, .line (ascii "\r\n")]
  | _ => [.line (line ++ ascii "\r\n")]

theorem Command.fragments_framed (command : Command) : Framed command.fragments := by
  unfold fragments
  split
  · exact .literal (by simp [ascii]) (.line (by decide))
  · exact .literal (by simp [ascii]) (.line (by decide))
  · exact .line (by simp [ascii])

namespace Concrete

scoped instance : Encoder Command := ⟨Command.fragments⟩

scoped instance : LawfulEncoder Command := ⟨Command.fragments_framed⟩

scoped instance : Encoder AuthenticateData :=
  ⟨fun
    | .continue payload => [.line (base64 true payload ++ ascii "\r\n")]
    | .cancel => [.line (ascii "*\r\n")]⟩

scoped instance : LawfulEncoder AuthenticateData :=
  ⟨fun
    | .continue payload => .line (by simp [ascii])
    | .cancel => .line (by decide)⟩

scoped instance : LawfulAuthenticate :=
  ⟨fun _ _ _ => ⟨_, rfl⟩,
    fun
    | .continue payload => ⟨base64 true payload ++ ascii "\r\n", rfl⟩
    | .cancel => ⟨ascii "*\r\n", rfl⟩⟩

scoped instance : LawfulStartTls := ⟨fun _ => ⟨_, rfl⟩⟩

scoped instance : LawfulLogout := ⟨fun _ => ⟨_, rfl⟩⟩

scoped instance : TryFrom String AString := ⟨fun s => .ok ⟨ascii s⟩⟩

scoped instance : Encoder IdleDone := ⟨fun _ => [.line (ascii "DONE\r\n")]⟩

scoped instance : LawfulEncoder IdleDone := ⟨fun _ => .line (by decide)⟩

scoped instance : LawfulIdle := ⟨fun _ => ⟨_, rfl⟩, ⟨_, rfl⟩⟩

end Concrete
end IoImap
