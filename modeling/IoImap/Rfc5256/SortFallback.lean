import IoImap.Codec.CommandEncoder
import IoImap.Rfc5256.SortReplies

/-!
# Runs of the SORT fallback

A run collects the data of its FETCH exchanges, one reply a chunk. What it returns
is the local sort of what they show last of each number.
-/

namespace IoImap
open Transition

namespace ImapMessageSort

def State.send : State → ImapSend Command
  | .sort sent | .search sent | .fetch sent => sent

section Exchanges

variable {F : Type} [Fragmentizer F] [TryFrom Bytes Tag] [Encoder Command]

/-- What the exchange under way comes to in one resume. -/
def exchanged (s : ImapMessageSort) (f : F) (arg : Option Bytes) : Option (ImapSendOutput Command) :=
  match (s.state.send.resume f arg).1 with
  | .complete (.ok out) => some out
  | _ => none

/-- The result of the SEARCH, in the resume that ends it. -/
def searched? (s : ImapMessageSort) (f : F) (arg : Option Bytes) : Option (List NonZeroU32) :=
  match s.state with
  | .search _ => (s.exchanged f arg).map ImapMessageSearch.decode
  | _ => none

/-- The reply to a chunk, in the resume that ends its FETCH. -/
def reply? (s : ImapMessageSort) (f : F) (arg : Option Bytes) : Option (List Data) :=
  match s.state with
  | .fetch _ => (s.exchanged f arg).map (·.data)
  | _ => none

end Exchanges

/-- The run is in the fallback and holds what the replies so far show last. -/
def Gathering (uid : Bool) (s : ImapMessageSort) (replies : List (List Data)) : Prop :=
  s.uid = uid ∧ Gathers s.fetched replies ∧
    match s.state with
    | .sort _ => False
    | .search _ => s.fetched.toList = []
    | .fetch _ => True

/-- The ids are the local sort of what the replies show last. -/
def Answers [Rfc2822] (uid : Bool) (replies : List (List Data)) (ids : List NonZeroU32) : Prop :=
  ∃ s : ImapMessageSort, s.uid = uid ∧ Gathers s.fetched replies ∧ ids = s.localSort

theorem answers_conserve [Rfc2822] {uid : Bool} {items : List MessageDataItemName}
    {found ids : List NonZeroU32} {replies : List (List Data)} (h : Answers uid replies ids) :
    Conserves uid items found replies ids ↔ Settled uid items found replies := by
  obtain ⟨s, rfl, hgathers, rfl⟩ := h
  exact localSort_conserves hgathers

section Resume

variable {F : Type} {s s' : ImapMessageSort} {l l' : F} {out : ImapMessageSortResult} {uid : Bool}
  {replies : List (List Data)} {ids : List NonZeroU32}

theorem nextFetch_gathers [Rfc2822] {done : ImapMessageSort → List NonZeroU32} (huid : s.uid = uid)
    (hgathers : Gathers s.fetched replies) (hdone : Answers uid replies (done s))
    (he : s.nextFetch l done = (out, s', l')) :
    (∀ y, out = .yielded y → Gathering uid s' replies) ∧
      ∀ ids, out = .complete (.ok ids) → Answers uid replies ids := by
  unfold nextFetch at he
  split at he
  · cases he
    refine ⟨by simp, fun ids hids => ?_⟩
    obtain rfl : done s = ids := by simpa using hids
    exact hdone
  · simp only at he
    split at he
    · cases he
      exact ⟨by simp, by simp⟩
    · cases he
      exact ⟨fun _ _ => ⟨huid, hgathers, trivial⟩, by simp⟩

variable [Rfc2822] [Fragmentizer F] [TryFrom Bytes Tag] [Encoder Command] {arg : Option Bytes}

theorem resume_gathers (h : Gathering uid s replies) (he : s.resume l arg = (out, s', l')) :
    (∀ y, out = .yielded y → Gathering uid s' (replies ++ (s.reply? l arg).toList)) ∧
      ∀ ids, out = .complete (.ok ids) → Answers uid (replies ++ (s.reply? l arg).toList) ids := by
  obtain ⟨huid, hgathers, hstate⟩ := h
  rw [resume] at he
  cases hs : s.state with
  | sort send => simp [hs] at hstate
  | search search =>
    rw [hs] at he hstate
    have hreply : s.reply? l arg = none := by rw [reply?, hs]
    rw [hreply, Option.toList_none, List.append_nil]
    obtain ⟨⟨y | err | found, search', l''⟩, hc⟩ : ∃ x, search.resume l arg = x := ⟨_, rfl⟩
    all_goals simp only [resumeSearch, hc] at he
    · cases he
      exact ⟨fun _ _ => ⟨huid, hgathers, hstate⟩, by simp⟩
    · cases he
      exact ⟨by simp, by simp⟩
    · refine nextFetch_gathers (s := { s with remaining := found }) huid hgathers
        ⟨s, huid, hgathers, ?_⟩ he
      simp [localSort, hstate]
  | fetch fetch =>
    rw [hs] at he
    obtain ⟨⟨y | err | map, fetch', l''⟩, hc⟩ : ∃ x, fetch.resume l arg = x := ⟨_, rfl⟩
    all_goals simp only [resumeFetch, hc] at he
    · cases he
      have hreply : s.reply? l arg = none := by
        rw [reply?, hs, exchanged, hs]
        simp only [State.send, commandResume_yielded hc, Option.map_none]
      rw [hreply, Option.toList_none, List.append_nil]
      exact ⟨fun _ _ => ⟨huid, hgathers, trivial⟩, by simp⟩
    · cases he
      exact ⟨by simp, by simp⟩
    · obtain ⟨sent, hsent, rfl⟩ := commandResume_ok hc
      have hreply : s.reply? l arg = some sent.data := by
        rw [reply?, hs, exchanged, hs]
        simp only [State.send, hsent, Option.map_some]
      have hextend : Gathers (extend s.fetched (ImapMessageFetch.decode sent))
          (replies ++ [sent.data]) := by
        intro seq
        rw [getElem?_extend, getElem?_decode, lastShown_concat, hgathers seq]
      rw [hreply, Option.toList_some]
      let s₁ : ImapMessageSort := { s with fetched := extend s.fetched (ImapMessageFetch.decode sent) }
      exact nextFetch_gathers (s := s₁) huid hextend ⟨s₁, huid, hextend, rfl⟩ he

end Resume

/-! ### Runs -/

abbrev SortTurn (F : Type) :=
  Turn ImapMessageSort F Unit ImapYield (Except ImapMessageSortError (List NonZeroU32))

section Runs

variable {F : Type} [Fragmentizer F] [TryFrom Bytes Tag] [Encoder Command]

def SortTurn.reply? (t : SortTurn F) : Option (List Data) :=
  t.before.reply? (⟨t.frag, []⟩ : Logged F) t.arg

def SortTurn.searched? (t : SortTurn F) : Option (List NonZeroU32) :=
  t.before.searched? (⟨t.frag, []⟩ : Logged F) t.arg

/-- The result of the SEARCH of a run. -/
def searched (es : List (SortTurn F)) : List NonZeroU32 := (es.findSome? SortTurn.searched?).getD []

/-- The replies to the FETCHes of a run, one a chunk. -/
def replies (es : List (SortTurn F)) : List (List Data) := es.filterMap SortTurn.reply?

theorem replies_concat (es : List (SortTurn F)) (t : SortTurn F) :
    replies (es ++ [t]) = replies es ++ t.reply?.toList := by
  rw [replies, replies, List.filterMap_append]
  cases ht : t.reply? <;> simp [ht]

variable [Rfc2822] {sortCriteria : Vec1 SortCriterion} {searchCriteria : Vec1 SearchKey} {uid : Bool}
  {f : F} {es : List (SortTurn F)} {t : SortTurn F} {a b : Config ImapMessageSort F}
  {ids : List NonZeroU32}

theorem step_gathers {rs : List (List Data)} (h : a.state.Gathering uid rs)
    (hstep : imapMessageSort.Step a t b) :
    (∀ due, b.due = some due → b.state.Gathering uid (rs ++ t.reply?.toList)) ∧
      ∀ ids, t.out = .complete (.ok ids) → Answers uid (rs ++ t.reply?.toList) ids := by
  obtain ⟨due, arg, env, out, s, f, log, -, -, he, rfl, rfl⟩ := imapMessageSort.step_cases hstep
  obtain ⟨hyields, hcompletes⟩ := resume_gathers h he
  refine ⟨fun due' hdue' => ?_, hcompletes⟩
  cases out with
  | yielded y => exact hyields y rfl
  | complete r => simp at hdue'

theorem run_gathers (hrun : imapMessageSort.Runs (.new sortCriteria searchCriteria ⟨uid, true⟩) f es a) :
    ∀ due, a.due = some due → a.state.Gathering uid (replies es) := by
  refine Run.history (P := fun es a => ∀ due, a.due = some due → a.state.Gathering uid (replies es))
    ?_ ?_ hrun
  · intro due _
    refine ⟨rfl, fun seq => ?_, ?_⟩
    · exact Std.TreeMap.getElem?_emptyc
    · exact rfl
  · intro es a t b hgathering hstep due hdue
    obtain ⟨due', hdue'⟩ := hstep.exists_due
    rw [replies_concat]
    exact (step_gathers (hgathering due' hdue') hstep).1 due hdue

/-- What a run of the fallback returns is decided by the replies to its chunks. -/
theorem run_answers
    (hrun : imapMessageSort.Runs (.new sortCriteria searchCriteria ⟨uid, true⟩) f (es ++ [t]) b)
    (hout : t.out = .complete (.ok ids)) : Answers uid (replies (es ++ [t])) ids := by
  obtain ⟨a, hbefore, hstep⟩ := hrun.snoc_inv
  obtain ⟨due, hdue⟩ := hstep.exists_due
  rw [replies_concat]
  exact (step_gathers (run_gathers hbefore due hdue) hstep).2 ids hout

end Runs

/-- The fallback neither invents nor loses messages as long as the replies to its chunks
disturb nothing. -/
theorem sort_fallback_conserves {F : Type} [Fragmentizer F] [TryFrom Bytes Tag] [Encoder Command]
    [Rfc2822] {sortCriteria : Vec1 SortCriterion} {searchCriteria : Vec1 SearchKey} {uid : Bool} {f : F}
    {es : List (SortTurn F)} {t : SortTurn F} {b : Config ImapMessageSort F} {ids : List NonZeroU32}
    (hrun : imapMessageSort.Runs (.new sortCriteria searchCriteria ⟨uid, true⟩) f (es ++ [t]) b)
    (hout : t.out = .complete (.ok ids))
    (h : Undisturbed uid (searched (es ++ [t])) (replies (es ++ [t]))) :
    Conserves uid (fetchItems sortCriteria uid) (searched (es ++ [t])) (replies (es ++ [t])) ids :=
  (answers_conserve (run_answers hrun hout)).mpr (h.settled (fetchItems_ne_nil _ _))

section Concrete

open Concrete NonZeroU32

/-- A parser that reads no date. -/
local instance undated : Rfc2822 := ⟨fun _ => none⟩

def sortKeys (uid : Nat) : Vec1 MessageDataItem :=
  [.uid (ofNat uid), .internalDate ⟨0, 0⟩, .envelope ⟨none, none, [], [], []⟩]

def fetchLine (seq uid : Nat) : Bytes :=
  ascii "* " ++ decimal seq ++ ascii " FETCH (UID " ++ decimal uid ++
    ascii " INTERNALDATE \"01-Jan-1970 00:00:00 +0000\"" ++
    ascii " ENVELOPE (NIL NIL NIL NIL NIL NIL NIL NIL NIL NIL))\r\n"

def sortOk (tag : String) : Response := .status (.tagged ⟨⟨ascii tag⟩, ⟨.ok, none, "done"⟩⟩)

def sortTable : List (Bytes × Response) :=
  [(ascii "* SEARCH 10 20\r\n", .data (.search [ofNat 10, ofNat 20])),
    (fetchLine 1 10, .data (.fetch (ofNat 1) (sortKeys 10))),
    (fetchLine 2 20, .data (.fetch (ofNat 2) (sortKeys 20))),
    (fetchLine 1 20, .data (.fetch (ofNat 1) (sortKeys 20))),
    (ascii "* 3 FETCH (UID 30 FLAGS (\\Seen))\r\n", .data (.fetch (ofNat 3) [.uid (ofNat 30), .flags []])),
    (ascii "* 1 EXPUNGE\r\n", .data (.expunge (ofNat 1))),
    (ascii "A1 OK done\r\n", sortOk "A1"),
    (ascii "A2 OK done\r\n", sortOk "A2")]

abbrev SortLines := LineFragmentizer (decodeTable sortTable)

def arrivals : Vec1 SortCriterion := [⟨false, .arrival⟩]

/-- UID SEARCH finds 10 and 20, and the one chunk is answered with `reply`. -/
def playSort (reply : Bytes) : Option (List (SortTurn SortLines) × Config ImapMessageSort SortLines) :=
  imapMessageSort.play
    (Coroutine.start (.new arrivals [⟨ascii "ALL"⟩] ⟨true, true⟩) LineFragmentizer.empty)
    ([none, some (ascii "A1"), none, some (ascii "* SEARCH 10 20\r\nA1 OK done\r\n"), some (ascii "A2"),
      none, some (reply ++ ascii "A2 OK done\r\n")].map fun arg => (arg, ()))

def sorts (t : SortTurn SortLines) : Bool :=
  match t.out with
  | .complete (.ok _) => true
  | _ => false

/-- The run was told `reply` of messages 10 and 20, and succeeded. -/
def SortTold (es : List (SortTurn SortLines)) (reply : List Data) : Prop :=
  searched es = [ofNat 10, ofNat 20] ∧ replies es = [reply] ∧ es.getLast?.any sorts = true

instance (es : List (SortTurn SortLines)) (reply : List Data) : Decidable (SortTold es reply) :=
  inferInstanceAs (Decidable (_ ∧ _))

theorem sortTold_run {reply : Bytes} {ds : List Data}
    (h : (playSort reply).any (fun r => SortTold r.1 ds) = true) :
    ∃ es t b ids, imapMessageSort.Runs (.new arrivals [⟨ascii "ALL"⟩] ⟨true, true⟩)
        (LineFragmentizer.empty : SortLines) (es ++ [t]) b ∧
      t.out = .complete (.ok ids) ∧ searched (es ++ [t]) = [ofNat 10, ofNat 20] ∧
      replies (es ++ [t]) = [ds] := by
  obtain ⟨⟨es, b⟩, hplay, htold⟩ := (Option.any_eq_true _ _).mp h
  obtain ⟨hsearched, hreplies, hlast⟩ := of_decide_eq_true htold
  obtain ⟨t, ht, hsorts⟩ := (Option.any_eq_true _ _).mp hlast
  obtain ⟨es, rfl⟩ := List.getLast?_eq_some_iff.mp ht
  simp only [sorts] at hsorts
  split at hsorts
  · rename_i ids hout
    exact ⟨es, t, b, ids, Coroutine.play_run _ hplay, hout, hsearched, hreplies⟩
  · simp at hsorts

/-- Two messages, one response each. -/
def sortReply : List Data := [.fetch (ofNat 1) (sortKeys 10), .fetch (ofNat 2) (sortKeys 20)]

theorem names_sortReply {seq id : NonZeroU32} (h : Names [sortReply].flatten seq id) :
    (seq = ofNat 1 ∧ id = ofNat 10) ∨ (seq = ofNat 2 ∧ id = ofNat 20) := by
  obtain ⟨items, hfetch, hmem⟩ := h
  have hparts : (seq = ofNat 1 ∧ items = sortKeys 10) ∨ (seq = ofNat 2 ∧ items = sortKeys 20) := by
    simpa [sortReply] using hfetch
  rcases hparts with ⟨rfl, rfl⟩ | ⟨rfl, rfl⟩
  · exact .inl ⟨rfl, by simpa [sortKeys] using hmem⟩
  · exact .inr ⟨rfl, by simpa [sortKeys] using hmem⟩

theorem sortReply_undisturbed : NamesStay [ofNat 10, ofNat 20] [sortReply] where
  found := by
    intro seq id hnames
    rcases names_sortReply hnames with ⟨-, rfl⟩ | ⟨-, rfl⟩ <;> decide
  one := by
    intro seq id id' hnames hnames'
    rcases names_sortReply hnames with ⟨rfl, rfl⟩ | ⟨rfl, rfl⟩ <;>
      rcases names_sortReply hnames' with ⟨hseq, rfl⟩ | ⟨hseq, rfl⟩ <;> revert hseq <;> decide
  once := by
    intro seq seq' id hnames hnames'
    rcases names_sortReply hnames with ⟨rfl, rfl⟩ | ⟨rfl, rfl⟩ <;>
      rcases names_sortReply hnames' with ⟨rfl, hid⟩ | ⟨rfl, hid⟩ <;> revert hid <;> decide
  again := by
    intro before reply after hsplit seq id items hnames _
    rcases List.append_eq_singleton_iff.mp hsplit.symm with ⟨rfl, -⟩ | ⟨-, hnil⟩
    · obtain ⟨items, hfetch, -⟩ := hnames
      simp at hfetch
    · simp at hnil

theorem sort_fallback_two : ∃ es t b ids, imapMessageSort.Runs (.new arrivals [⟨ascii "ALL"⟩] ⟨true, true⟩)
      (LineFragmentizer.empty : SortLines) (es ++ [t]) b ∧ t.out = .complete (.ok ids) ∧
    Conserves true (fetchItems arrivals true) (searched (es ++ [t])) (replies (es ++ [t])) ids := by
  have hplay : (playSort (fetchLine 1 10 ++ fetchLine 2 20)).any (fun r => SortTold r.1 sortReply) =
      true := by decide +kernel
  obtain ⟨es, t, b, ids, hrun, hout, hsearched, hreplies⟩ := sortTold_run hplay
  refine ⟨es, t, b, ids, hrun, hout, sort_fallback_conserves hrun hout ?_⟩
  rw [hsearched, hreplies]
  exact sortReply_undisturbed

/-- A FETCH response for message 30, which was not searched, between the two. -/
def flagsReply : List Data :=
  [.fetch (ofNat 1) (sortKeys 10), .fetch (ofNat 3) [.uid (ofNat 30), .flags []],
    .fetch (ofNat 2) (sortKeys 20)]

/-- The message at 1 is removed, and the other one takes its number. -/
def expungeReply : List Data :=
  [.fetch (ofNat 1) (sortKeys 10), .expunge (ofNat 1), .fetch (ofNat 1) (sortKeys 20)]

theorem flagsReply_unsettled :
    ¬ Settled true (fetchItems arrivals true) [ofNat 10, ofNat 20] [flagsReply] := by
  intro h
  have hstands : Stands true [flagsReply] (ofNat 3) (ofNat 30) := lastId_eq_some.mp (by decide)
  exact absurd (h.found _ _ hstands) (by decide)

theorem expungeReply_unsettled :
    ¬ Settled true (fetchItems arrivals true) [ofNat 10, ofNat 20] [expungeReply] := by
  intro h
  have hreceived : Received true (fetchItems arrivals true) [expungeReply] (ofNat 20) :=
    ⟨2, by decide, by decide⟩
  obtain ⟨seq, hstands⟩ := h.kept (ofNat 20) (by decide) hreceived
  rw [← lastId_eq_some] at hstands
  by_cases hseq : seq = ofNat 1
  · subst hseq
    revert hstands
    decide
  · have hne : ¬ ofNat 1 = seq := Ne.symm hseq
    simp [lastId, lastShown, shown, fetched?, expungeReply, List.filterMap_cons, hne] at hstands

/-- A run whose chunk is answered with the given data returns ids that do not conserve the
messages. -/
def Miscounts (ds : List Data) : Prop :=
  ∃ es t b ids, imapMessageSort.Runs (.new arrivals [⟨ascii "ALL"⟩] ⟨true, true⟩)
      (LineFragmentizer.empty : SortLines) (es ++ [t]) b ∧
    t.out = .complete (.ok ids) ∧ replies (es ++ [t]) = [ds] ∧
    ¬ Conserves true (fetchItems arrivals true) (searched (es ++ [t])) (replies (es ++ [t])) ids

theorem miscounts_of_unsettled {reply : Bytes} {ds : List Data}
    (h : (playSort reply).any (fun r => SortTold r.1 ds) = true)
    (hds : ¬ Settled true (fetchItems arrivals true) [ofNat 10, ofNat 20] [ds]) : Miscounts ds := by
  obtain ⟨es, t, b, ids, hrun, hout, hsearched, hreplies⟩ := sortTold_run h
  refine ⟨es, t, b, ids, hrun, hout, hreplies, fun hconserves => hds ?_⟩
  have hsettled := (answers_conserve (run_answers hrun hout)).mp hconserves
  rwa [hsearched, hreplies] at hsettled

/-- An id that was never searched is returned in the first run, and one whose data came is
missing in the second. -/
theorem sort_fallback_miscounts : Miscounts flagsReply ∧ Miscounts expungeReply := by
  have hflags : (playSort (fetchLine 1 10 ++ ascii "* 3 FETCH (UID 30 FLAGS (\\Seen))\r\n" ++
      fetchLine 2 20)).any (fun r => SortTold r.1 flagsReply) = true := by decide +kernel
  have hexpunge : (playSort (fetchLine 1 10 ++ ascii "* 1 EXPUNGE\r\n" ++ fetchLine 1 20)).any
      (fun r => SortTold r.1 expungeReply) = true := by decide +kernel
  exact ⟨miscounts_of_unsettled hflags flagsReply_unsettled,
    miscounts_of_unsettled hexpunge expungeReply_unsettled⟩

end Concrete
end ImapMessageSort
end IoImap
