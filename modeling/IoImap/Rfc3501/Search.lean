import IoImap.Command

/-!
# SEARCH (rfc3501/search.rs)

`CHARSET UTF-8` goes with the criteria only when their encoding is not ASCII.
-/

namespace IoImap

structure ImapMessageSearchOptions where
  uid : Bool

abbrev ImapMessageSearchError := ImapCommandError

abbrev ImapMessageSearch := ImapSend Command

namespace ImapMessageSearch

def probe (criteria : Vec1 SearchKey) (uid : Bool) : Command := ⟨⟨ascii "A"⟩, .search none criteria uid⟩

def isAscii [Encoder Command] (command : Command) : Bool :=
  ((Encoder.encode command).flatMap Fragment.data).all (· < 128)

def body [Encoder Command] (criteria : Vec1 SearchKey) (opts : ImapMessageSearchOptions) : CommandBody :=
  .search (if isAscii (probe criteria opts.uid) then none else some ⟨"UTF-8"⟩) criteria opts.uid

def new [Encoder Command] (criteria : Vec1 SearchKey) (opts : ImapMessageSearchOptions) :
    ImapMessageSearch :=
  .command (body criteria opts)

def addData (ids : List NonZeroU32) : Data → List NonZeroU32
  | .search searchIds => searchIds
  | _ => ids

def decode (out : ImapSendOutput Command) : List NonZeroU32 := out.data.foldl addData []

def resume {F : Type} [Fragmentizer F] [TryFrom Bytes Tag] [Encoder Command]
    (search : ImapMessageSearch) (f : F) (arg : Option Bytes) :
    CoroutineState ImapYield (Except ImapMessageSearchError (List NonZeroU32)) ×
      ImapMessageSearch × F :=
  commandResume decode search f arg

end ImapMessageSearch
end IoImap
