import IoImap.Rfc3501.Mailbox
import IoImap.Rfc3501.Select

/-!
# Commands on mailboxes

create.rs, delete.rs, rename.rs, subscribe.rs, unsubscribe.rs, select.rs, status.rs,
list.rs and lsub.rs of rfc3501. The constructors take Unicode names and encode them; the
pattern of LIST and LSUB goes out as it comes. The rows of a listing are decoded.
-/

namespace IoImap

structure ImapMailboxSelectOptions where
  parameters : List SelectParameter

/-- `(mailbox, hierarchy delimiter, attributes)`. -/
abbrev ImapMailboxListing := List (Mailbox × Option QuotedChar × List FlagNameAttribute)

abbrev ImapMailboxCreate := ImapSend Command
abbrev ImapMailboxDelete := ImapSend Command
abbrev ImapMailboxRename := ImapSend Command
abbrev ImapMailboxSubscribe := ImapSend Command
abbrev ImapMailboxUnsubscribe := ImapSend Command
abbrev ImapMailboxSelect := ImapSend Command
abbrev ImapMailboxStatus := ImapSend Command
abbrev ImapMailboxList := ImapSend Command
abbrev ImapMailboxLsub := ImapSend Command

/-- What is read from a success that carries nothing. -/
def acknowledged (_ : ImapSendOutput Command) : Unit := ()

/-! ### The commands -/

section Commands

variable [Base64Codec] [TryFrom String Mailbox]

def ImapMailboxCreate.body (mailbox : Mailbox) : CommandBody := .create (encodeInplace mailbox)
def ImapMailboxCreate.new (mailbox : Mailbox) : ImapMailboxCreate := .command (body mailbox)

def ImapMailboxDelete.body (mailbox : Mailbox) : CommandBody := .delete (encodeInplace mailbox)
def ImapMailboxDelete.new (mailbox : Mailbox) : ImapMailboxDelete := .command (body mailbox)

def ImapMailboxRename.body (fromName toName : Mailbox) : CommandBody :=
  .rename (encodeInplace fromName) (encodeInplace toName)

def ImapMailboxRename.new (fromName toName : Mailbox) : ImapMailboxRename :=
  .command (body fromName toName)

def ImapMailboxSubscribe.body (mailbox : Mailbox) : CommandBody := .subscribe (encodeInplace mailbox)
def ImapMailboxSubscribe.new (mailbox : Mailbox) : ImapMailboxSubscribe := .command (body mailbox)

def ImapMailboxUnsubscribe.body (mailbox : Mailbox) : CommandBody :=
  .unsubscribe (encodeInplace mailbox)
def ImapMailboxUnsubscribe.new (mailbox : Mailbox) : ImapMailboxUnsubscribe := .command (body mailbox)

def ImapMailboxSelect.body (mailbox : Mailbox) (opts : ImapMailboxSelectOptions) : CommandBody :=
  .select (encodeInplace mailbox) opts.parameters

def ImapMailboxSelect.new (mailbox : Mailbox) (opts : ImapMailboxSelectOptions) : ImapMailboxSelect :=
  .command (body mailbox opts)

def ImapMailboxStatus.body (mailbox : Mailbox) (itemNames : List StatusDataItemName) : CommandBody :=
  .status (encodeInplace mailbox) itemNames

def ImapMailboxStatus.new (mailbox : Mailbox) (itemNames : List StatusDataItemName) : ImapMailboxStatus :=
  .command (body mailbox itemNames)

def ImapMailboxList.body (reference : Mailbox) (mailboxWildcard : ListMailbox) : CommandBody :=
  .list (encodeInplace reference) mailboxWildcard

def ImapMailboxList.new (reference : Mailbox) (mailboxWildcard : ListMailbox) : ImapMailboxList :=
  .command (body reference mailboxWildcard)

def ImapMailboxLsub.body (reference : Mailbox) (mailboxWildcard : ListMailbox) : CommandBody :=
  .lsub (encodeInplace reference) mailboxWildcard

def ImapMailboxLsub.new (reference : Mailbox) (mailboxWildcard : ListMailbox) : ImapMailboxLsub :=
  .command (body reference mailboxWildcard)

end Commands

/-! ### What is read from a success -/

def ImapMailboxSelect.decode (out : ImapSendOutput Command) : ImapMailboxSelectData := .ofOutput out

def ImapMailboxStatus.items : Data → List StatusDataItem
  | .status _ items => items
  | _ => []

def ImapMailboxStatus.decode (out : ImapSendOutput Command) : List StatusDataItem :=
  out.data.flatMap items

section Listing

variable [Base64Codec] [Base64Decoder] [TryFrom String Mailbox]

def ImapMailboxList.row? : Data → Option (Mailbox × Option QuotedChar × List FlagNameAttribute)
  | .list items delimiter mailbox => some (decodeInplace mailbox, delimiter, items)
  | _ => none

def ImapMailboxLsub.row? : Data → Option (Mailbox × Option QuotedChar × List FlagNameAttribute)
  | .lsub items delimiter mailbox => some (decodeInplace mailbox, delimiter, items)
  | _ => none

def ImapMailboxList.decode (out : ImapSendOutput Command) : ImapMailboxListing :=
  out.data.filterMap row?

def ImapMailboxLsub.decode (out : ImapSendOutput Command) : ImapMailboxListing :=
  out.data.filterMap row?

end Listing

/-! ### Resuming -/

section Resume

variable {F : Type} [Fragmentizer F] [TryFrom Bytes Tag] [Encoder Command]

def ImapMailboxCreate.resume (send : ImapMailboxCreate) (f : F) (arg : Option Bytes) :=
  commandResume acknowledged send f arg

def ImapMailboxDelete.resume (send : ImapMailboxDelete) (f : F) (arg : Option Bytes) :=
  commandResume acknowledged send f arg

def ImapMailboxRename.resume (send : ImapMailboxRename) (f : F) (arg : Option Bytes) :=
  commandResume acknowledged send f arg

def ImapMailboxSubscribe.resume (send : ImapMailboxSubscribe) (f : F) (arg : Option Bytes) :=
  commandResume acknowledged send f arg

def ImapMailboxUnsubscribe.resume (send : ImapMailboxUnsubscribe) (f : F) (arg : Option Bytes) :=
  commandResume acknowledged send f arg

def ImapMailboxSelect.resume (send : ImapMailboxSelect) (f : F) (arg : Option Bytes) :=
  commandResume decode send f arg

def ImapMailboxStatus.resume (send : ImapMailboxStatus) (f : F) (arg : Option Bytes) :=
  commandResume decode send f arg

variable [Base64Codec] [Base64Decoder] [TryFrom String Mailbox]

def ImapMailboxList.resume (send : ImapMailboxList) (f : F) (arg : Option Bytes) :=
  commandResume decode send f arg

def ImapMailboxLsub.resume (send : ImapMailboxLsub) (f : F) (arg : Option Bytes) :=
  commandResume decode send f arg

end Resume
end IoImap
