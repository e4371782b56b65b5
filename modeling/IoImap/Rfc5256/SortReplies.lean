import IoImap.Rfc5256.Sort
import Mathlib.Data.List.Pairwise

/-!
# What the chunks of the SORT fallback tell

The replies to the FETCHes of the fallback are merged by sequence number: what one
reply tells of a number replaces what the replies in front of it told. A message
keeps its identity instead: an EXPUNGE removes it, or moves it up by one number.
-/

namespace IoImap

/-- The name an item is asked for by, if any. -/
def MessageDataItem.name? : MessageDataItem → Option MessageDataItemName
  | .uid _ => some .uid
  | .flags _ => some .flags
  | .internalDate _ => some .internalDate
  | .rfc822Size _ => some .rfc822Size
  | .envelope _ => some .envelope
  | .modSeq _ | .other _ => none

namespace ImapMessageSort

/-! ### By number -/

def fetched? (seq : NonZeroU32) : Data → Option (Vec1 MessageDataItem)
  | .fetch seq' items => if seq' = seq then some items else none
  | _ => none

/-- The items of the FETCH responses of a reply for a number, when it has any. -/
def shown (seq : NonZeroU32) (reply : List Data) : Option (List MessageDataItem) :=
  match reply.filterMap (fetched? seq) with
  | [] => none
  | items => some items.flatten

/-- The items of the last reply that has a FETCH response for a number. -/
def lastShown (seq : NonZeroU32) (replies : List (List Data)) : Option (List MessageDataItem) :=
  replies.reverse.findSome? (shown seq)

def idOf (uid : Bool) (seq : NonZeroU32) (items : List MessageDataItem) : Option NonZeroU32 :=
  if uid then items.findSome? (·.uid?) else some seq

/-- The id that stands for a number in the end, if any. -/
def lastId (uid : Bool) (replies : List (List Data)) (seq : NonZeroU32) : Option NonZeroU32 :=
  (lastShown seq replies).bind (idOf uid seq)

/-- A reply shows a number, the first UID in it is `id` (or the number itself is), and no
later reply shows the number again. -/
def Stands (uid : Bool) (replies : List (List Data)) (seq id : NonZeroU32) : Prop :=
  ∃ before reply after items, replies = before ++ reply :: after ∧ shown seq reply = some items ∧
    idOf uid seq items = some id ∧ ∀ later ∈ after, shown seq later = none

/-! ### By message -/

/-- What the responses tell of the message that has number `n` in front of them. -/
def told (n : Nat) : List Data → List MessageDataItem
  | [] => []
  | .fetch seq items :: rest => (if seq.get = n then items else []) ++ told n rest
  | .expunge seq :: rest =>
    if seq.get = n then []
    else told (if seq.get < n then n - 1 else n) rest
  | _ :: rest => told n rest

/-- The replies tell all that was asked for of the message with an id. The id is its UID,
or else its number when the first chunk is fetched. -/
def Received (uid : Bool) (items : List MessageDataItemName) (replies : List (List Data))
    (id : NonZeroU32) : Prop :=
  ∃ n : Nat, (if uid then .uid id ∈ told n replies.flatten else n = id.get) ∧
    ∀ name ∈ items, ∃ item ∈ told n replies.flatten, item.name? = some name

/-- The ids are of searched messages, none of them twice, and none is missing whose data
came. -/
structure Conserves (uid : Bool) (items : List MessageDataItemName) (searched : List NonZeroU32)
    (replies : List (List Data)) (ids : List NonZeroU32) : Prop where
  nodup : ids.Nodup
  found : ∀ id ∈ ids, id ∈ searched
  complete : ∀ id ∈ searched, Received uid items replies id → id ∈ ids

/-- What stands for a number in the end is a searched message, it stands for no other
number, and a searched message whose data came was not displaced from its number, or
stands for another one. -/
structure Settled (uid : Bool) (items : List MessageDataItemName) (searched : List NonZeroU32)
    (replies : List (List Data)) : Prop where
  found : ∀ seq id, Stands uid replies seq id → id ∈ searched
  once : ∀ seq seq' id, Stands uid replies seq id → Stands uid replies seq' id → seq = seq'
  kept : ∀ id ∈ searched, Received uid items replies id → ∃ seq, Stands uid replies seq id

/-! ### The merged map -/

section Merge

variable {seq : NonZeroU32} {reply : List Data} {replies : List (List Data)} {uid : Bool}

theorem shown_nil : shown seq [] = none := rfl

theorem shown_concat {d : Data} : shown seq (reply ++ [d]) =
    match fetched? seq d with
    | none => shown seq reply
    | some items => some ((shown seq reply).getD [] ++ items) := by
  have hsplit : (reply ++ [d]).filterMap (fetched? seq) =
      reply.filterMap (fetched? seq) ++ (fetched? seq d).toList := by
    rw [List.filterMap_append]
    cases hd : fetched? seq d <;> simp [hd]
  rw [shown, shown, hsplit]
  cases fetched? seq d with
  | none => rw [Option.toList_none, List.append_nil]
  | some items =>
    cases reply.filterMap (fetched? seq) with
    | nil => simp
    | cons first rest => simp

theorem getElem?_decode (out : ImapSendOutput Command) :
    (ImapMessageFetch.decode out)[seq]? = shown seq out.data := by
  unfold ImapMessageFetch.decode
  induction out.data using List.reverseRecOn with
  | nil => rw [List.foldl_nil, shown_nil, Std.TreeMap.getElem?_emptyc]
  | append_singleton ds d ih =>
    rw [List.foldl_append, List.foldl_cons, List.foldl_nil, shown_concat]
    cases d with
    | fetch seq' items =>
      rw [ImapMessageFetch.addData, Std.TreeMap.getElem?_insert]
      by_cases hseq : seq' = seq
      · subst hseq
        simp [fetched?, Std.TreeMap.getD_eq_getD_getElem?, ih]
      · simp [fetched?, hseq, ih]
    | _ => exact ih

theorem lastShown_concat :
    lastShown seq (replies ++ [reply]) = (shown seq reply).or (lastShown seq replies) := by
  simp [lastShown, List.findSome?_cons]
  cases shown seq reply <;> rfl

theorem extend_eq_insertMany (fetched map : FetchData) :
    extend fetched map = fetched.insertMany map.toList := by
  unfold extend
  induction map.toList generalizing fetched with
  | nil => rfl
  | cons entry entries ih => rw [List.foldl_cons, ih, Std.TreeMap.insertMany_cons]

/-- `BTreeMap::extend` overwrites. -/
theorem getElem?_extend (fetched map : FetchData) :
    (extend fetched map)[seq]? = map[seq]?.or fetched[seq]? := by
  rw [extend_eq_insertMany]
  cases hmap : map[seq]? with
  | none =>
    have hnot : (map.toList.map Prod.fst).contains seq = false := by
      rw [Bool.eq_false_iff]
      intro hcontains
      obtain ⟨⟨seq', items⟩, hmem, rfl⟩ := List.mem_map.mp (List.contains_iff_mem.mp hcontains)
      rw [Std.TreeMap.mem_toList_iff_getElem?_eq_some.mp hmem] at hmap
      simp at hmap
    rw [Option.none_or, Std.TreeMap.getElem?_insertMany_list_of_contains_eq_false hnot]
  | some items =>
    have hmem : (seq, items) ∈ map.toList := Std.TreeMap.mem_toList_iff_getElem?_eq_some.mpr hmap
    rw [Option.some_or]
    exact Std.TreeMap.getElem?_insertMany_list_of_mem Std.ReflOrd.compare_self
      Std.TreeMap.distinct_keys_toList hmem

theorem lastShown_eq_some {items : List MessageDataItem} : lastShown seq replies = some items ↔
    ∃ before reply after, replies = before ++ reply :: after ∧ shown seq reply = some items ∧
      ∀ later ∈ after, shown seq later = none := by
  rw [lastShown, List.findSome?_eq_some_iff]
  constructor
  · intro hx
    obtain ⟨after, reply, before, hsplit, hshown, hafter⟩ := hx
    refine ⟨before.reverse, reply, after.reverse, ?_, hshown, ?_⟩
    · rw [← List.reverse_reverse replies, hsplit]
      simp
    · intro later hlater
      exact hafter later (List.mem_reverse.mp hlater)
  · intro hx
    obtain ⟨before, reply, after, rfl, hshown, hafter⟩ := hx
    refine ⟨after.reverse, reply, before.reverse, by simp, hshown, ?_⟩
    intro later hlater
    exact hafter later (List.mem_reverse.mp hlater)

theorem lastId_eq_some {id : NonZeroU32} :
    lastId uid replies seq = some id ↔ Stands uid replies seq id := by
  simp only [lastId, Stands, Option.bind_eq_some_iff, lastShown_eq_some]
  constructor
  · intro hx
    obtain ⟨items, ⟨before, reply, after, hsplit, hshown, hafter⟩, hid⟩ := hx
    exact ⟨before, reply, after, items, hsplit, hshown, hid, hafter⟩
  · intro hx
    obtain ⟨before, reply, after, items, hsplit, hshown, hid, hafter⟩ := hx
    exact ⟨items, ⟨before, reply, after, hsplit, hshown, hafter⟩, hid⟩

end Merge

/-! ### The ids -/

/-- The map holds what the replies show last of each number. -/
def Gathers (fetched : FetchData) (replies : List (List Data)) : Prop :=
  ∀ seq : NonZeroU32, fetched[seq]? = lastShown seq replies

section Ids

variable [Rfc2822] {s : ImapMessageSort} {id : NonZeroU32} {replies : List (List Data)}

theorem localSort_perm : s.localSort.Perm
    (s.fetched.toList.filterMap fun entry => idOf s.uid entry.1 entry.2) := by
  unfold localSort idOf
  exact (List.mergeSort_perm ..).filterMap _

omit [Rfc2822] in
theorem stands_iff {seq : NonZeroU32} (h : Gathers s.fetched replies) : Stands s.uid replies seq id ↔
    ∃ items, (seq, items) ∈ s.fetched.toList ∧ idOf s.uid seq items = some id := by
  simp only [Std.TreeMap.mem_toList_iff_getElem?_eq_some]
  rw [← lastId_eq_some, lastId, ← h seq, Option.bind_eq_some_iff]

theorem mem_localSort (h : Gathers s.fetched replies) :
    id ∈ s.localSort ↔ ∃ seq, Stands s.uid replies seq id := by
  simp only [localSort_perm.mem_iff, List.mem_filterMap, Prod.exists, stands_iff h]

/-- The keys of a map are distinct, so an id comes twice only from two numbers. -/
theorem nodup_localSort (h : Gathers s.fetched replies) : s.localSort.Nodup ↔
    ∀ seq seq' id, Stands s.uid replies seq id → Stands s.uid replies seq' id → seq = seq' := by
  rw [localSort_perm.nodup_iff, List.Nodup, List.pairwise_filterMap]
  constructor
  · intro hpairwise seq seq' id hstands hstands'
    obtain ⟨items, hmem, hid⟩ := (stands_iff h).mp hstands
    obtain ⟨items', hmem', hid'⟩ := (stands_iff h).mp hstands'
    by_contra hne
    have hdistinct : (seq, items) ≠ (seq', items') := fun he => hne (congrArg Prod.fst he)
    have hsymm : Std.Symm fun a b : NonZeroU32 × Vec1 MessageDataItem =>
        ∀ x, idOf s.uid a.1 a.2 = some x → ∀ y, idOf s.uid b.1 b.2 = some y → x ≠ y :=
      ⟨fun a b hab x hx y hy he => hab y hy x hx he.symm⟩
    exact hpairwise.forall hmem hmem' hdistinct id hid id hid' rfl
  · intro honce
    refine Std.TreeMap.distinct_keys_toList.imp_of_mem ?_
    intro a b ha hb hkeys x hx y hy he
    subst he
    have hseq := honce a.1 b.1 x ((stands_iff h).mpr ⟨a.2, ha, hx⟩) ((stands_iff h).mpr ⟨b.2, hb, hy⟩)
    exact hkeys (by rw [hseq]; exact Std.ReflOrd.compare_self)

/-- The sorted ids of a map of replies conserve the messages exactly when the replies are
settled. -/
theorem localSort_conserves {items : List MessageDataItemName} {searched : List NonZeroU32}
    (h : Gathers s.fetched replies) :
    Conserves s.uid items searched replies s.localSort ↔ Settled s.uid items searched replies := by
  constructor
  · intro hc
    refine ⟨fun seq id hstands => ?_, (nodup_localSort h).mp hc.nodup, fun id hid hreceived => ?_⟩
    · exact hc.found id ((mem_localSort h).mpr ⟨seq, hstands⟩)
    · exact (mem_localSort h).mp (hc.complete id hid hreceived)
  · intro hs
    refine ⟨(nodup_localSort h).mpr hs.once, fun id hid => ?_, fun id hid hreceived => ?_⟩
    · obtain ⟨seq, hstands⟩ := (mem_localSort h).mp hid
      exact hs.found seq id hstands
    · exact (mem_localSort h).mpr (hs.kept id hid hreceived)

end Ids

/-! ### Replies that disturb nothing -/

/-- A FETCH response for the number tells the UID. -/
def Names (ds : List Data) (seq id : NonZeroU32) : Prop :=
  ∃ items, .fetch seq items ∈ ds ∧ .uid id ∈ items

/-- The responses tell searched UIDs only, one for a number and each for one number, and a
reply with a response for a number tells the UID that an earlier reply told of it. -/
structure NamesStay (searched : List NonZeroU32) (replies : List (List Data)) : Prop where
  found : ∀ seq id, Names replies.flatten seq id → id ∈ searched
  one : ∀ seq id id', Names replies.flatten seq id → Names replies.flatten seq id' → id = id'
  once : ∀ seq seq' id, Names replies.flatten seq id → Names replies.flatten seq' id → seq = seq'
  again : ∀ before reply after, replies = before ++ reply :: after → ∀ seq id items,
    Names before.flatten seq id → .fetch seq items ∈ reply → Names reply seq id

/-- No message is removed, and the responses are for searched numbers. -/
structure NumbersStay (searched : List NonZeroU32) (replies : List (List Data)) : Prop where
  keeps : ∀ seq, .expunge seq ∉ replies.flatten
  found : ∀ seq items, .fetch seq items ∈ replies.flatten → seq ∈ searched

def Undisturbed (uid : Bool) (searched : List NonZeroU32) (replies : List (List Data)) : Prop :=
  if uid then NamesStay searched replies else NumbersStay searched replies

section Undisturbed

variable {searched : List NonZeroU32} {reply : List Data} {replies : List (List Data)}
  {seq id : NonZeroU32} {items : List MessageDataItem}

/-- What is told comes from a FETCH response, and from one for the number itself as long as
no message is removed. -/
theorem told_fetched {n : Nat} {ds : List Data} {item : MessageDataItem} (hitem : item ∈ told n ds) :
    ∃ seq items, .fetch seq items ∈ ds ∧ item ∈ items ∧
      ((∀ seq, .expunge seq ∉ ds) → seq.get = n) := by
  induction ds generalizing n with
  | nil => simp [told] at hitem
  | cons d ds ih =>
    have hlater {m : Nat} (hlater : item ∈ told m ds) (hm : (∀ seq, .expunge seq ∉ d :: ds) → m = n) :
        ∃ seq items, .fetch seq items ∈ d :: ds ∧ item ∈ items ∧
          ((∀ seq, .expunge seq ∉ d :: ds) → seq.get = n) := by
      obtain ⟨seq, items, hmem, hitems, hseq⟩ := ih hlater
      refine ⟨seq, items, List.mem_cons_of_mem _ hmem, hitems, fun hkeeps => ?_⟩
      rw [← hm hkeeps]
      exact hseq fun seq hexpunge => hkeeps seq (List.mem_cons_of_mem _ hexpunge)
    cases d with
    | fetch seq items =>
      rw [told, List.mem_append] at hitem
      rcases hitem with hitem | hitem
      · by_cases hn : seq.get = n
        · rw [if_pos hn] at hitem
          exact ⟨seq, items, List.mem_cons_self .., hitem, fun _ => hn⟩
        · rw [if_neg hn] at hitem
          simp at hitem
      · exact hlater hitem fun _ => rfl
    | expunge seq =>
      rw [told] at hitem
      split at hitem
      · simp at hitem
      · exact hlater hitem fun hkeeps => absurd (List.mem_cons_self ..) (hkeeps seq)
    | _ => exact hlater hitem fun _ => rfl

theorem mem_fetched {part : Vec1 MessageDataItem} :
    part ∈ reply.filterMap (fetched? seq) ↔ .fetch seq part ∈ reply := by
  rw [List.mem_filterMap]
  constructor
  · intro hx
    obtain ⟨d, hd, hpart⟩ := hx
    cases d with
    | fetch seq' items =>
      by_cases hseq : seq' = seq
      · rw [fetched?, if_pos hseq, Option.some.injEq] at hpart
        exact hseq ▸ hpart ▸ hd
      · rw [fetched?, if_neg hseq] at hpart
        simp at hpart
    | _ => simp [fetched?] at hpart
  · intro hmem
    exact ⟨_, hmem, by simp [fetched?]⟩

theorem shown_isSome : (shown seq reply).isSome ↔ ∃ part, .fetch seq part ∈ reply := by
  simp only [← mem_fetched, shown]
  cases reply.filterMap (fetched? seq) with
  | nil => simp
  | cons first rest => simp

theorem mem_shown (h : shown seq reply = some items) {item : MessageDataItem} :
    item ∈ items ↔ ∃ part, .fetch seq part ∈ reply ∧ item ∈ part := by
  simp only [← mem_fetched]
  unfold shown at h
  cases hparts : reply.filterMap (fetched? seq) with
  | nil => simp [hparts] at h
  | cons first rest =>
    rw [hparts, Option.some.injEq] at h
    rw [← h, List.mem_flatten]

theorem uid?_eq_some {item : MessageDataItem} : item.uid? = some id ↔ item = .uid id := by
  cases item <;> simp [MessageDataItem.uid?]

/-- The last reply with a response for a number that has one. -/
theorem lastShown_fetched (hfetch : .fetch seq items ∈ replies.flatten) :
    ∃ before reply after parts, replies = before ++ reply :: after ∧
      shown seq reply = some parts ∧ (∀ later ∈ after, shown seq later = none) := by
  obtain ⟨reply, hreply, hmem⟩ := List.mem_flatten.mp hfetch
  have hlast : (lastShown seq replies).isSome :=
    List.findSome?_isSome_iff.mpr ⟨reply, List.mem_reverse.mpr hreply, shown_isSome.mpr ⟨_, hmem⟩⟩
  obtain ⟨parts, hparts⟩ := Option.isSome_iff_exists.mp hlast
  obtain ⟨before, reply, after, hsplit, hshown, hafter⟩ := lastShown_eq_some.mp hparts
  exact ⟨before, reply, after, parts, hsplit, hshown, hafter⟩

theorem idOf_names (hshown : shown seq reply = some items) (hid : idOf true seq items = some id) :
    Names reply seq id := by
  obtain ⟨item, hitem, hitemUid⟩ := List.exists_of_findSome?_eq_some (by simpa [idOf] using hid)
  obtain rfl := uid?_eq_some.mp hitemUid
  exact (mem_shown hshown).mp hitem

theorem idOf_isSome (hshown : shown seq reply = some items) (hnames : Names reply seq id) :
    (idOf true seq items).isSome :=
  List.findSome?_isSome_iff.mpr ⟨.uid id, (mem_shown hshown).mpr hnames, rfl⟩

theorem Stands.names (h : Stands true replies seq id) : Names replies.flatten seq id := by
  obtain ⟨before, reply, after, items, rfl, hshown, hid, -⟩ := h
  obtain ⟨part, hpart, hmem⟩ := idOf_names hshown hid
  exact ⟨part, List.mem_flatten_of_mem (by simp) hpart, hmem⟩

/-- A UID that was told stands for its number in the end. -/
theorem NamesStay.stands (h : NamesStay searched replies) (hnames : Names replies.flatten seq id) :
    Stands true replies seq id := by
  obtain ⟨part, hfetch, hmem⟩ := hnames
  obtain ⟨before, reply, after, parts, rfl, hshown, hafter⟩ := lastShown_fetched hfetch
  have hlast : Names reply seq id := by
    obtain ⟨told, htold, hpart⟩ := List.mem_flatten.mp hfetch
    rcases List.mem_append.mp htold with hbefore | hbehind
    · obtain ⟨part', hpart'⟩ := shown_isSome.mp (hshown ▸ rfl : (shown seq reply).isSome)
      exact h.again before reply after rfl seq id part'
        ⟨part, List.mem_flatten_of_mem hbefore hpart, hmem⟩ hpart'
    · rcases List.mem_cons.mp hbehind with rfl | hlater
      · exact ⟨part, hpart, hmem⟩
      · have hsome := shown_isSome.mpr ⟨part, hpart⟩
        rw [hafter told hlater] at hsome
        simp at hsome
  obtain ⟨id', hid⟩ := Option.isSome_iff_exists.mp (idOf_isSome hshown hlast)
  have hstands : Stands true (before ++ reply :: after) seq id' :=
    ⟨before, reply, after, parts, rfl, hshown, hid, hafter⟩
  obtain rfl := h.one seq id id' ⟨part, hfetch, hmem⟩ hstands.names
  exact hstands

theorem NamesStay.settled (h : NamesStay searched replies) (items : List MessageDataItemName) :
    Settled true items searched replies := by
  refine ⟨fun seq id hstands => h.found seq id hstands.names, fun seq seq' id hstands hstands' =>
    h.once seq seq' id hstands.names hstands'.names, fun id _ hreceived => ?_⟩
  obtain ⟨n, hn, -⟩ := hreceived
  obtain ⟨seq, parts, hfetch, hmem, -⟩ := told_fetched (by simpa using hn)
  exact ⟨seq, h.stands ⟨parts, hfetch, hmem⟩⟩

/-- Without UIDs a number stands for itself. -/
theorem stands_number (h : Stands false replies seq id) :
    id = seq ∧ ∃ items, .fetch seq items ∈ replies.flatten := by
  obtain ⟨before, reply, after, items, rfl, hshown, hid, -⟩ := h
  obtain ⟨part, hpart⟩ := shown_isSome.mp (hshown ▸ rfl : (shown seq reply).isSome)
  have hsame : some seq = some id := by simpa [idOf] using hid
  exact ⟨(Option.some.inj hsame).symm, part, List.mem_flatten_of_mem (by simp) hpart⟩

theorem NumbersStay.settled (h : NumbersStay searched replies) {items : List MessageDataItemName}
    (hitems : items ≠ []) : Settled false items searched replies := by
  refine ⟨fun seq id hstands => ?_, fun seq seq' id hstands hstands' => ?_, fun id _ hreceived => ?_⟩
  · obtain ⟨rfl, parts, hfetch⟩ := stands_number hstands
    exact h.found id parts hfetch
  · exact (stands_number hstands).1.symm.trans (stands_number hstands').1
  · obtain ⟨n, hn, hall⟩ := hreceived
    obtain ⟨name, hname⟩ := List.exists_mem_of_ne_nil _ hitems
    obtain ⟨item, hitem, -⟩ := hall name hname
    obtain ⟨seq, parts, hfetch, -, hseq⟩ := told_fetched hitem
    have hnumber : n = id.get := by simpa using hn
    obtain rfl : seq = id := NonZeroU32.ext ((hseq h.keeps).trans hnumber)
    obtain ⟨before, reply, after, parts, rfl, hshown, hafter⟩ := lastShown_fetched hfetch
    exact ⟨seq, before, reply, after, parts, rfl, hshown, rfl, hafter⟩

/-- Replies that disturb nothing are settled, whatever is asked for. -/
theorem Undisturbed.settled {uid : Bool} (h : Undisturbed uid searched replies)
    {items : List MessageDataItemName} (hitems : items ≠ []) : Settled uid items searched replies := by
  cases uid with
  | true => exact NamesStay.settled (by simpa [Undisturbed] using h) items
  | false => exact NumbersStay.settled (by simpa [Undisturbed] using h) hitems

end Undisturbed
end ImapMessageSort
end IoImap
