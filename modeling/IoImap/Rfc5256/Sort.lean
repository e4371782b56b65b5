import IoImap.Rfc3501.Fetch
import IoImap.Rfc3501.Search
import Mathlib.Data.List.Sort

/-!
# SORT (rfc5256/sort.rs)

One SORT command, or the fallback: a SEARCH, a FETCH of the sort keys for every
chunk of what it found, and a local sort. chrono's parser is a parameter. A FETCH
that is started within a resume asks for its tag at once.
-/

namespace IoImap
open Fragmentizer

inductive ImapMessageSortError where
  | no (text : String)
  | bad (text : String)
  | bye (text : String)
  | missingTagged
  | missingData
  | invalidSequenceSet
  | send (err : ImapSendError)
  | search (err : ImapMessageSearchError)
  | fetch (err : ImapMessageFetchError)
  deriving DecidableEq

def ImapMessageSortError.of : ImapCommandError → ImapMessageSortError
  | .no text => .no text
  | .bad text => .bad text
  | .bye text => .bye text
  | .missingTagged => .missingTagged
  | .send err => .send err

structure ImapMessageSortOptions where
  uid : Bool
  fallback : Bool

inductive ImapMessageSort.State where
  | sort (send : ImapSend Command)
  | search (search : ImapMessageSearch)
  | fetch (fetch : ImapMessageFetch)

structure ImapMessageSort where
  state : ImapMessageSort.State
  uid : Bool
  sortCriteria : Vec1 SortCriterion
  items : List MessageDataItemName
  remaining : List NonZeroU32
  fetched : FetchData

abbrev ImapMessageSortResult :=
  CoroutineState ImapYield (Except ImapMessageSortError (List NonZeroU32))

/-- `DateTime::parse_from_rfc2822` of chrono. -/
class Rfc2822 where
  parse : String → Option DateTime

/-! ### The local sort -/

def dateSortKey [Rfc2822] (raw : Option Bytes) : Option DateTime := do
  let raw ← raw
  let raw ← String.fromUTF8? ⟨raw.toArray⟩
  Rfc2822.parse raw

/-- The order of `Option`: nothing comes first. -/
def cmpOption {α : Type} (cmp : α → α → Ordering) : Option α → Option α → Ordering
  | none, none => .eq
  | none, some _ => .lt
  | some _, none => .gt
  | some a, some b => cmp a b

def MessageDataItem.internalDate? : MessageDataItem → Option DateTime
  | .internalDate date => some date
  | _ => none

def MessageDataItem.rfc822Size? : MessageDataItem → Option Nat
  | .rfc822Size size => some size
  | _ => none

def MessageDataItem.envelopeDate? : MessageDataItem → Option Bytes
  | .envelope e => e.date
  | _ => none

def MessageDataItem.envelopeSubject? : MessageDataItem → Option Bytes
  | .envelope e => e.subject
  | _ => none

/-- Date-times compare as the instants they denote. -/
def cmpDateTime (a b : DateTime) : Ordering := compare a.instant b.instant

def cmpFetchItems [Rfc2822] (key : SortKey) (a b : Vec1 MessageDataItem) : Ordering :=
  match key with
  | .arrival =>
    cmpOption cmpDateTime (a.findSome? (·.internalDate?)) (b.findSome? (·.internalDate?))
  | .size => cmpOption compare (a.findSome? (·.rfc822Size?)) (b.findSome? (·.rfc822Size?))
  | .date =>
    cmpOption cmpDateTime (dateSortKey (a.findSome? (·.envelopeDate?)))
      (dateSortKey (b.findSome? (·.envelopeDate?)))
  | .subject =>
    cmpOption compare (a.findSome? (·.envelopeSubject?)) (b.findSome? (·.envelopeSubject?))
  | .cc | .from | .to | .displayFrom | .displayTo => .eq

def cmpCriterion [Rfc2822] (criterion : SortCriterion) (a b : Vec1 MessageDataItem) : Ordering :=
  let cmp := cmpFetchItems criterion.key a b
  if criterion.reverse then cmp.swap else cmp

/-- The criteria in turn, and the date when none of them tells the messages apart. -/
def cmpMessages [Rfc2822] : List SortCriterion → Vec1 MessageDataItem → Vec1 MessageDataItem → Ordering
  | [], a, b => cmpFetchItems .date a b
  | criterion :: criteria, a, b => (cmpCriterion criterion a b).then (cmpMessages criteria a b)

/-! ### The items of the fallback -/

def SortKey.item? : SortKey → Option MessageDataItemName
  | .arrival => some .internalDate
  | .size => some .rfc822Size
  | .cc | .date | .from | .subject | .to => some .envelope
  | .displayFrom | .displayTo => none

def addItem (items : List MessageDataItemName) (item : MessageDataItemName) :
    List MessageDataItemName :=
  if items.contains item then items else items ++ [item]

def fetchItems (sortCriteria : Vec1 SortCriterion) (uid : Bool) : List MessageDataItemName :=
  let items := (sortCriteria.filterMap (·.key.item?)).foldl addItem []
  let items := addItem items .envelope
  if uid then addItem items .uid else items

theorem addItem_ne_nil (items : List MessageDataItemName) (item : MessageDataItemName) :
    addItem items item ≠ [] := by
  unfold addItem
  split
  · rename_i hmem
    intro hnil
    simp [hnil] at hmem
  · simp

/-- ENVELOPE is always asked for. -/
theorem fetchItems_ne_nil (sortCriteria : Vec1 SortCriterion) (uid : Bool) :
    fetchItems sortCriteria uid ≠ [] := by
  simp only [fetchItems]
  split
  · exact addItem_ne_nil _ _
  · exact addItem_ne_nil _ _

/-! ### The coroutine -/

namespace ImapMessageSort

def MAX_CHUNK : Nat := 255

def new [Encoder Command] (sortCriteria : Vec1 SortCriterion) (searchCriteria : Vec1 SearchKey)
    (opts : ImapMessageSortOptions) : ImapMessageSort :=
  { state :=
      if opts.fallback then .search (.new searchCriteria ⟨opts.uid⟩)
      else .sort (.command (.sort sortCriteria ⟨"UTF-8"⟩ searchCriteria opts.uid))
    uid := opts.uid
    sortCriteria
    items := fetchItems sortCriteria opts.uid
    remaining := []
    fetched := ∅ }

def addData (ids : Option (List NonZeroU32)) : Data → Option (List NonZeroU32)
  | .sort sortIds => some sortIds
  | _ => ids

def decode (out : ImapSendOutput Command) : Option (List NonZeroU32) := out.data.foldl addData none

def finish : Option (List NonZeroU32) → Except ImapMessageSortError (List NonZeroU32)
  | some ids => .ok ids
  | none => .error .missingData

/-- `SequenceSet::try_from`. -/
def sequenceSet (chunk : List NonZeroU32) : Option SequenceSet :=
  if chunk.isEmpty then none else some (chunk.map fun id => .single (.value id))

/-- `BTreeMap::extend`. -/
def extend (fetched map : FetchData) : FetchData :=
  map.toList.foldl (fun fetched entry => fetched.insert entry.1 entry.2) fetched

def localSort [Rfc2822] (s : ImapMessageSort) : List NonZeroU32 :=
  let entries := s.fetched.toList.mergeSort fun a b => (cmpMessages s.sortCriteria a.2 b.2).isLE
  entries.filterMap fun entry =>
    if s.uid then entry.2.findSome? (·.uid?) else some entry.1

variable {F : Type}

abbrev Outcome (F : Type) := ImapMessageSortResult × ImapMessageSort × F

/-- A FETCH that was never resumed, resumed without an argument: it asks for its tag. -/
def startFetch (s : ImapMessageSort) (sequenceSet : SequenceSet) (f : F) : Outcome F :=
  let body := ImapMessageFetch.body sequenceSet s.items ⟨s.uid⟩
  (.yielded .wantsTag, { s with state := .fetch (.fresh (.tag ⟨body, id⟩ true) []) }, f)

theorem startFetch_eq [Fragmentizer F] [TryFrom Bytes Tag] [Encoder Command] (s : ImapMessageSort)
    (sequenceSet : SequenceSet) (f : F) :
    (ImapMessageFetch.new sequenceSet s.items ⟨s.uid⟩).resume f none =
      (.yielded .wantsTag,
        ImapSend.fresh (.tag ⟨ImapMessageFetch.body sequenceSet s.items ⟨s.uid⟩, id⟩ true) [], f) := rfl

/-- `next_fetch` and what follows it: the next chunk, or `done` when none is left. -/
def nextFetch (s : ImapMessageSort) (f : F) (done : ImapMessageSort → List NonZeroU32) : Outcome F :=
  if s.remaining.isEmpty then (.complete (.ok (done s)), s, f)
  else
    let chunk := s.remaining.take MAX_CHUNK
    let s := { s with remaining := s.remaining.drop MAX_CHUNK }
    match sequenceSet chunk with
    | none => (.complete (.error .invalidSequenceSet), s, f)
    | some sequenceSet => s.startFetch sequenceSet f

variable [Fragmentizer F] [TryFrom Bytes Tag] [Encoder Command]

def resumeSort (s : ImapMessageSort) (send : ImapSend Command) (f : F) (arg : Option Bytes) :
    Outcome F :=
  let r := commandResume decode send f arg
  (r.1.tryOk id .of finish, { s with state := .sort r.2.1 }, r.2.2)

def resumeSearch (s : ImapMessageSort) (search : ImapMessageSearch) (f : F) (arg : Option Bytes) :
    Outcome F :=
  match search.resume f arg with
  | (.yielded y, search, f) => (.yielded y, { s with state := .search search }, f)
  | (.complete (.error err), _, f) => (.complete (.error (.search err)), s, f)
  | (.complete (.ok ids), _, f) => { s with remaining := ids }.nextFetch f fun _ => []

def resumeFetch [Rfc2822] (s : ImapMessageSort) (fetch : ImapMessageFetch) (f : F)
    (arg : Option Bytes) : Outcome F :=
  match fetch.resume f arg with
  | (.yielded y, fetch, f) => (.yielded y, { s with state := .fetch fetch }, f)
  | (.complete (.error err), _, f) => (.complete (.error (.fetch err)), s, f)
  | (.complete (.ok map), _, f) =>
    { s with fetched := extend s.fetched map }.nextFetch f localSort

def resume [Rfc2822] (s : ImapMessageSort) (f : F) (arg : Option Bytes) : Outcome F :=
  match s.state with
  | .sort send => s.resumeSort send f arg
  | .search search => s.resumeSearch search f arg
  | .fetch fetch => s.resumeFetch fetch f arg

end ImapMessageSort

def imapMessageSort [Rfc2822] [TryFrom Bytes Tag] [Encoder Command] :
    Coroutine ImapMessageSort Unit ImapYield (Except ImapMessageSortError (List NonZeroU32)) where
  resume s f arg _ := s.resume f arg
  request := ImapYield.request

end IoImap
