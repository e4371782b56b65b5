import IoImap.Command

/-!
# FETCH (rfc3501/fetch.rs)

The range variant; the items of several responses for one message are joined in
order.
-/

namespace IoImap

structure ImapMessageFetchOptions where
  uid : Bool

abbrev ImapMessageFetchError := ImapCommandError

abbrev ImapMessageFetch := ImapSend Command

abbrev FetchData := Std.TreeMap NonZeroU32 (Vec1 MessageDataItem)

namespace ImapMessageFetch

def body (sequenceSet : SequenceSet) (items : List MessageDataItemName)
    (opts : ImapMessageFetchOptions) : CommandBody :=
  .fetch sequenceSet items opts.uid

def new (sequenceSet : SequenceSet) (items : List MessageDataItemName)
    (opts : ImapMessageFetchOptions) : ImapMessageFetch :=
  .command (body sequenceSet items opts)

def addData (output : FetchData) : Data → FetchData
  | .fetch seq items => output.insert seq (output.getD seq [] ++ items)
  | _ => output

def decode (out : ImapSendOutput Command) : FetchData := out.data.foldl addData ∅

def resume {F : Type} [Fragmentizer F] [TryFrom Bytes Tag] [Encoder Command]
    (fetch : ImapMessageFetch) (f : F) (arg : Option Bytes) :
    CoroutineState ImapYield (Except ImapMessageFetchError FetchData) × ImapMessageFetch × F :=
  commandResume decode fetch f arg

end ImapMessageFetch
end IoImap
