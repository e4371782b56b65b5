import IoImap.Pairing.Stable
import IoImap.Rfc5256.SortReplies
import Mathlib.Data.List.Permutation

/-!
# The order of the fallback (rfc5256/sort.rs)

The comparator of `local_sort` is a total preorder, and the ids come out by the
criteria in turn, each in its own direction, then by date, then by number. A
criterion on addresses is passed over, whatever the addresses are.
-/

namespace IoImap
open Pairing

/-! ### The order a list of criteria asks for -/

/-- There is a second value, and the first, if any, is less. -/
def Earlier {α : Type} [LT α] (x y : Option α) : Prop := ∃ b, y = some b ∧ ∀ a, x = some a → a < b

def MessageDataItem.envelope? : MessageDataItem → Option Envelope
  | .envelope e => some e
  | _ => none

/-- The mailbox of the first address. -/
def addrMailbox (addresses : List Address) : Option Bytes := addresses.head?.bind (·.mailbox)

/-- The display name of the first address, or else its mailbox and host. -/
def displayName (addresses : List Address) : Option Bytes :=
  addresses.head?.bind fun address =>
    address.name.or do
      let mailbox ← address.mailbox
      let host ← address.host
      return mailbox ++ ascii "@" ++ host

/-- What a key on addresses is about. -/
def SortKey.address? (key : SortKey) (e : Envelope) : Option Bytes :=
  match key with
  | .cc => addrMailbox e.cc
  | .from => addrMailbox e.from
  | .to => addrMailbox e.to
  | .displayFrom => displayName e.from
  | .displayTo => displayName e.to
  | .arrival | .date | .size | .subject => none

/-- The first message comes before the second by one key. -/
def SortKey.Precedes [Rfc2822] (key : SortKey) (a b : Vec1 MessageDataItem) : Prop :=
  match key with
  | .arrival => Earlier ((a.findSome? (·.internalDate?)).map (·.instant))
      ((b.findSome? (·.internalDate?)).map (·.instant))
  | .size => Earlier (a.findSome? (·.rfc822Size?)) (b.findSome? (·.rfc822Size?))
  | .date => Earlier ((dateSortKey (a.findSome? (·.envelopeDate?))).map (·.instant))
      ((dateSortKey (b.findSome? (·.envelopeDate?))).map (·.instant))
  | .subject => Earlier (a.findSome? (·.envelopeSubject?)) (b.findSome? (·.envelopeSubject?))
  | .cc | .from | .to | .displayFrom | .displayTo =>
    Earlier ((a.findSome? (·.envelope?)).bind key.address?)
      ((b.findSome? (·.envelope?)).bind key.address?)

/-- A key that `cmp_fetch_items` takes as telling no messages apart. -/
def SortKey.ofAddress : SortKey → Bool
  | .cc | .from | .to | .displayFrom | .displayTo => true
  | .arrival | .date | .size | .subject => false

def SortCriterion.Precedes [Rfc2822] (criterion : SortCriterion) (a b : Vec1 MessageDataItem) : Prop :=
  if criterion.reverse then criterion.key.Precedes b a else criterion.key.Precedes a b

/-- The first criterion that tells the messages apart decides, and the date when none does. -/
def Precedes [Rfc2822] : List SortCriterion → Vec1 MessageDataItem → Vec1 MessageDataItem → Prop
  | [], a, b => SortKey.date.Precedes a b
  | criterion :: criteria, a, b =>
    criterion.Precedes a b ∨ (¬ criterion.Precedes b a ∧ Precedes criteria a b)

/-- A message comes before another by the criteria and the date, or, when these do not
tell them apart, by its number. -/
def ComesBefore [Rfc2822] (criteria : List SortCriterion)
    (e e' : NonZeroU32 × Vec1 MessageDataItem) : Prop :=
  Precedes criteria e.2 e'.2 ∨ (¬ Precedes criteria e'.2 e.2 ∧ e.1.get < e'.1.get)

/-! ### The comparator -/

section Comparator

theorem cmpOption_lt {α β : Type} [LT β] {cmp : α → α → Ordering} (f : α → β)
    (h : ∀ a b, cmp a b = .lt ↔ f a < f b) (x y : Option α) :
    cmpOption cmp x y = .lt ↔ Earlier (x.map f) (y.map f) := by
  cases x <;> cases y <;> simp [cmpOption, Earlier, h]

instance {α : Type} {cmp : α → α → Ordering} [Std.TransCmp cmp] : Std.TransCmp (cmpOption cmp) where
  eq_swap {x y} := by
    cases x <;> cases y <;> simp only [cmpOption, Ordering.swap_eq, Ordering.swap_lt, Ordering.swap_gt]
    exact Std.OrientedCmp.eq_swap
  isLE_trans {x y z} hxy hyz := by
    cases x <;> cases y <;> cases z <;> simp only [cmpOption] at hxy hyz ⊢ <;> try trivial
    exact Std.TransCmp.isLE_trans hxy hyz

theorem compare_bytes (a b : Bytes) : compare a b = .lt ↔ a < b := by
  induction a generalizing b with
  | nil => cases b <;> simp
  | cons x a ih =>
    cases b with
    | nil => simp
    | cons y b =>
      rw [List.compare_cons_cons, List.cons_lt_cons_iff, Ordering.then_eq_lt, ih, Std.compare_eq_lt,
        Std.compare_eq_iff_eq]

theorem cmp_eq {α : Type} {cmp : α → α → Ordering} [Std.OrientedCmp cmp] {a b : α} :
    cmp a b = .eq ↔ cmp a b ≠ .lt ∧ cmp b a ≠ .lt := by
  have hswap : cmp b a = (cmp a b).swap := Std.OrientedCmp.eq_swap
  rw [hswap]
  cases cmp a b <;> simp

theorem cmpDateTime_lt (a b : DateTime) : cmpDateTime a b = .lt ↔ a.instant < b.instant :=
  Std.compare_eq_lt

instance : Std.TransCmp cmpDateTime := inferInstanceAs (Std.TransCmp (compareOn DateTime.instant))

variable [Rfc2822] {key : SortKey} {criterion : SortCriterion} {criteria : List SortCriterion}
  {a b : Vec1 MessageDataItem}

theorem cmpFetchItems_lt (hkey : key.ofAddress = false) :
    cmpFetchItems key a b = .lt ↔ key.Precedes a b := by
  cases key with
  | arrival => exact cmpOption_lt DateTime.instant cmpDateTime_lt _ _
  | size =>
    have h := cmpOption_lt id (fun x y : Nat => Std.compare_eq_lt) (a.findSome? (·.rfc822Size?))
      (b.findSome? (·.rfc822Size?))
    rwa [Option.map_id_fun, id, id] at h
  | date => exact cmpOption_lt DateTime.instant cmpDateTime_lt _ _
  | subject =>
    have h := cmpOption_lt id compare_bytes (a.findSome? (·.envelopeSubject?))
      (b.findSome? (·.envelopeSubject?))
    rwa [Option.map_id_fun, id, id] at h
  | _ => simp [SortKey.ofAddress] at hkey

theorem cmpFetchItems_address (hkey : key.ofAddress = true) : cmpFetchItems key a b = .eq := by
  cases key with
  | arrival | date | size | subject => simp [SortKey.ofAddress] at hkey
  | _ => rfl

instance : Std.TransCmp (cmpFetchItems key) := by
  cases key with
  | arrival => exact transCmp_comap (cmpOption cmpDateTime) _
  | size => exact transCmp_comap (cmpOption compare) _
  | date => exact transCmp_comap (cmpOption cmpDateTime) _
  | subject => exact transCmp_comap (cmpOption compare) _
  | _ => exact { eq_swap := rfl, isLE_trans := fun _ _ => rfl }

instance : Std.TransCmp (cmpCriterion criterion) := by
  obtain ⟨reverse, key⟩ := criterion
  cases reverse with
  | true => exact transCmp_swap (cmpFetchItems key)
  | false => exact inferInstanceAs (Std.TransCmp (cmpFetchItems key))

instance : Std.TransCmp (cmpMessages criteria) := by
  induction criteria with
  | nil => exact inferInstanceAs (Std.TransCmp (cmpFetchItems .date))
  | cons criterion criteria ih =>
    exact inferInstanceAs (Std.TransCmp (compareLex (cmpCriterion criterion) (cmpMessages criteria)))

theorem cmpCriterion_lt (hkey : criterion.key.ofAddress = false) :
    cmpCriterion criterion a b = .lt ↔ criterion.Precedes a b := by
  unfold cmpCriterion SortCriterion.Precedes
  split
  · rw [← cmpFetchItems_lt hkey, ← Std.OrientedCmp.eq_swap]
  · exact cmpFetchItems_lt hkey

theorem cmpCriterion_address (hkey : criterion.key.ofAddress = true) : cmpCriterion criterion a b = .eq := by
  simp only [cmpCriterion, cmpFetchItems_address hkey]
  split <;> rfl

/-- The criteria that the comparator does not pass over. -/
def compared (criteria : List SortCriterion) : List SortCriterion :=
  criteria.filter fun criterion => !criterion.key.ofAddress

theorem cmpMessages_lt : cmpMessages criteria a b = .lt ↔ Precedes (compared criteria) a b := by
  induction criteria with
  | nil => exact cmpFetchItems_lt rfl
  | cons criterion criteria ih =>
    cases hkey : criterion.key.ofAddress with
    | true =>
      have hpassed : compared (criterion :: criteria) = compared criteria := by simp [compared, hkey]
      rw [cmpMessages, cmpCriterion_address hkey, Ordering.eq_then, ih, hpassed]
    | false =>
      have hkept : compared (criterion :: criteria) = criterion :: compared criteria := by
        simp [compared, hkey]
      rw [cmpMessages, Ordering.then_eq_lt, cmp_eq, hkept, Precedes, ih, ne_eq, ne_eq,
        cmpCriterion_lt hkey, cmpCriterion_lt hkey]
      by_cases h : criterion.Precedes a b
      · simp [h]
      · simp [h]

end Comparator

open ImapMessageSort

/-- The comparator of the fallback is a total preorder, and the ids it returns are those of
the fetched messages in the order of the criteria but those on addresses, the date and the
number. -/
theorem sort_fallback_sorts [Rfc2822] (s : ImapMessageSort) :
    TotalPreorder (cmpMessages s.sortCriteria) ∧
      ∃ entries : List (NonZeroU32 × Vec1 MessageDataItem), entries.Perm s.fetched.toList ∧
        entries.Pairwise (ComesBefore (compared s.sortCriteria)) ∧
        s.localSort = entries.filterMap fun entry => idOf s.uid entry.1 entry.2 := by
  refine ⟨totalPreorder, _, List.mergeSort_perm .., ?_, rfl⟩
  have hnumbers : s.fetched.toList.Pairwise fun e e' => e.1.get < e'.1.get := by
    refine Std.TreeMap.ordered_keys_toList.imp fun {e e'} h => ?_
    exact Std.compare_eq_lt.mp h
  have hcmp : Std.TransCmp fun e e' : NonZeroU32 × Vec1 MessageDataItem =>
      cmpMessages s.sortCriteria e.2 e'.2 := transCmp_comap _ Prod.snd
  refine (pairwise_stable hnumbers fun e => Nat.lt_irrefl _).imp fun {e e'} h => ?_
  rcases h with hlt | ⟨heq, hnumber⟩
  · exact .inl (cmpMessages_lt.mp hlt)
  · exact .inr ⟨fun hlt => (cmp_eq.mp heq).2 (cmpMessages_lt.mpr hlt), hnumber⟩

section Concrete

open NonZeroU32

local instance dateless : Rfc2822 := ⟨fun _ => none⟩

def mailFrom (mailbox : String) : Vec1 MessageDataItem :=
  [.envelope ⟨none, none, [⟨none, some (ascii mailbox), some (ascii "example.org")⟩], [], []⟩]

/-- Two messages, from bob and from alice. -/
def bobAndAlice : FetchData := .ofList [(ofNat 1, mailFrom "bob"), (ofNat 2, mailFrom "alice")]

theorem precedes_from {a b : String} :
    SortKey.from.Precedes (mailFrom a) (mailFrom b) ↔ ascii a < ascii b := by
  simp [SortKey.Precedes, mailFrom, MessageDataItem.envelope?, SortKey.address?, addrMailbox, Earlier]

/-- By FROM the message from alice comes first; the fallback leaves the two in the order of
their numbers. -/
theorem sort_from_unsorted :
    ¬ ∀ s : ImapMessageSort, ∃ entries : List (NonZeroU32 × Vec1 MessageDataItem),
        entries.Perm s.fetched.toList ∧ entries.Pairwise (ComesBefore s.sortCriteria) ∧
          s.localSort = entries.filterMap fun entry => idOf s.uid entry.1 entry.2 := by
  intro h
  let s : ImapMessageSort := {
    state := .fetch (.fresh (.tag ⟨ImapMessageFetch.body [.range (.value (ofNat 1)) .asterisk]
      [.envelope] ⟨false⟩, id⟩ true) [])
    uid := false
    sortCriteria := [⟨false, .from⟩]
    items := [.envelope]
    remaining := []
    fetched := bobAndAlice }
  have hfetched : s.fetched.toList = [(ofNat 1, mailFrom "bob"), (ofNat 2, mailFrom "alice")] := by
    decide +kernel
  have hsorted : s.localSort = [ofNat 1, ofNat 2] := by
    rw [localSort, hfetched, List.mergeSort_of_pairwise (by decide)]
    rfl
  obtain ⟨entries, hperm, hpairwise, hids⟩ := h s
  rw [hfetched] at hperm
  rcases List.perm_pair.mp hperm with rfl | rfl
  · have hbefore : ComesBefore s.sortCriteria (ofNat 1, mailFrom "bob") (ofNat 2, mailFrom "alice") := by
      simpa using hpairwise
    have hfrom : ascii "alice" < ascii "bob" := by decide
    simp only [ComesBefore, Precedes, SortCriterion.Precedes, s, Bool.false_eq_true, if_false,
      precedes_from] at hbefore
    -- bob does not come first by FROM, and alice does, so neither date nor number is looked at
    have hnot : ¬ ascii "bob" < ascii "alice" := by decide
    rcases hbefore with hprecedes | hnumber
    · rcases hprecedes with hlt | hlater
      · exact hnot hlt
      · exact hlater.1 hfrom
    · exact hnumber.1 (.inl hfrom)
  · rw [hsorted] at hids
    exact absurd hids (by decide)

end Concrete
end IoImap
