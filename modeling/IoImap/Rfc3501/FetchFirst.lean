import IoImap.Codec.CommandEncoder
import IoImap.Command.Output
import IoImap.Rfc5256.SortReplies

/-!
# FETCH of a single message (rfc3501/fetch.rs)

The variant for one message keeps the items of the last FETCH response, whatever
message it is for, where the range variant joins the responses by message. The two
send the same command, so they go through the same exchange, and the reply decides
whether they tell the same of the message.
-/

namespace IoImap
open Fragmentizer ServerMessage Transition

/-- What the range variant fails with, and `MissingData`, which it never returns. -/
inductive ImapMessageFetchFirstError where
  | fetch (err : ImapMessageFetchError)
  | missingData
  deriving DecidableEq

abbrev ImapMessageFetchFirst := ImapSend Command

namespace ImapMessageFetchFirst

def new (id : NonZeroU32) (items : List MessageDataItemName) (opts : ImapMessageFetchOptions) :
    ImapMessageFetchFirst :=
  .command (.fetch [.single (.value id)] items opts.uid)

def addData (output : Option (Vec1 MessageDataItem)) : Data → Option (Vec1 MessageDataItem)
  | .fetch _ items => some items
  | _ => output

def decode (out : ImapSendOutput Command) : Option (Vec1 MessageDataItem) :=
  out.data.foldl addData none

def finish : Option (Vec1 MessageDataItem) → Except ImapMessageFetchFirstError (Vec1 MessageDataItem)
  | some items => .ok items
  | none => .error .missingData

def resume {F : Type} [Fragmentizer F] [TryFrom Bytes Tag] [Encoder Command]
    (fetch : ImapMessageFetchFirst) (f : F) (arg : Option Bytes) :
    CoroutineState ImapYield (Except ImapMessageFetchFirstError (Vec1 MessageDataItem)) ×
      ImapMessageFetchFirst × F :=
  let r := commandResume decode fetch f arg
  (r.1.tryOk id .fetch finish, r.2)

end ImapMessageFetchFirst

def imapMessageFetchFirst [TryFrom Bytes Tag] [Encoder Command] :
    Coroutine ImapMessageFetchFirst Unit ImapYield
      (Except ImapMessageFetchFirstError (Vec1 MessageDataItem)) where
  resume fetch f arg _ := fetch.resume f arg
  request := ImapYield.request

def imapMessageFetch [TryFrom Bytes Tag] [Encoder Command] :
    Coroutine ImapMessageFetch Unit ImapYield (Except ImapMessageFetchError FetchData) :=
  commandCoroutine ImapMessageFetch.decode

namespace ImapMessageFetchFirst
open ImapMessageSort (shown fetched? shown_concat getElem?_decode)

/-! ### What a reply tells of a message -/

/-- None of the responses is a FETCH. -/
def Quiet (reply : List Data) : Prop := ∀ seq items, .fetch seq items ∉ reply

/-- The reply has no FETCH response, or its last one is for the message and the earlier
ones for it are empty, or the last one is for another message and repeats the items that
those for the message have together. -/
inductive TellsOne (number : NonZeroU32) (reply : List Data) : Prop where
  | nothing (hreply : Quiet reply)
  | last (before : List Data) (items : Vec1 MessageDataItem) (after : List Data)
      (hreply : reply = before ++ .fetch number items :: after) (hafter : Quiet after)
      (hbefore : (shown number before).getD [] = [])
  | repeats (before : List Data) (seq : NonZeroU32) (items : Vec1 MessageDataItem)
      (after : List Data) (hreply : reply = before ++ .fetch seq items :: after)
      (hafter : Quiet after) (hseq : seq ≠ number) (hbefore : shown number before = some items)

section Reply

variable {number : NonZeroU32} {reply before after : List Data} {items : Vec1 MessageDataItem}

theorem quiet_or_last (reply : List Data) : Quiet reply ∨
    ∃ before seq items after, reply = before ++ .fetch seq items :: after ∧ Quiet after := by
  induction reply with
  | nil => exact .inl fun _ _ => List.not_mem_nil
  | cons d ds ih =>
    rcases ih with hquiet | ⟨before, seq, items, after, rfl, hafter⟩
    · cases d with
      | fetch seq items => exact .inr ⟨[], seq, items, ds, rfl, hquiet⟩
      | _ => exact .inl fun seq items => by simpa using hquiet seq items
    · exact .inr ⟨d :: before, seq, items, after, rfl, hafter⟩

theorem shown_quiet (h : Quiet after) : shown number (before ++ after) = shown number before := by
  have hnone : after.filterMap (fetched? number) = [] := by
    rw [List.filterMap_eq_nil_iff]
    intro d hd
    cases d with
    | fetch seq items => exact absurd hd (h seq items)
    | _ => rfl
  rw [shown, shown, List.filterMap_append, hnone, List.append_nil]

theorem foldl_quiet (h : Quiet after) (output : Option (Vec1 MessageDataItem)) :
    after.foldl addData output = output := by
  induction after with
  | nil => rfl
  | cons d ds ih =>
    have hds : Quiet ds := fun seq items hmem => h seq items (List.mem_cons_of_mem _ hmem)
    cases d with
    | fetch seq items => exact absurd (List.mem_cons_self ..) (h seq items)
    | _ => exact ih hds

theorem shown_last {seq : NonZeroU32} (h : Quiet after) :
    shown number (before ++ .fetch seq items :: after) =
      if seq = number then some ((shown number before).getD [] ++ items) else shown number before := by
  rw [List.append_cons, shown_quiet h, shown_concat, fetched?]
  by_cases hseq : seq = number
  · rw [if_pos hseq, if_pos hseq]
  · rw [if_neg hseq, if_neg hseq]

theorem foldl_last {seq : NonZeroU32} (h : Quiet after) :
    (before ++ .fetch seq items :: after).foldl addData none = some items := by
  rw [List.foldl_append, List.foldl_cons, foldl_quiet h]
  rfl

/-- The last FETCH response has what all those for the message have. -/
theorem tellsOne_iff : reply.foldl addData none = shown number reply ↔ TellsOne number reply := by
  constructor
  · intro h
    rcases quiet_or_last reply with hquiet | ⟨before, seq, items, after, rfl, hafter⟩
    · exact .nothing hquiet
    · rw [foldl_last hafter, shown_last hafter] at h
      by_cases hseq : seq = number
      · subst hseq
        rw [if_pos rfl, Option.some.injEq, List.self_eq_append_left] at h
        exact .last before items after rfl hafter h
      · rw [if_neg hseq] at h
        exact .repeats before seq items after rfl hafter hseq h.symm
  · intro h
    cases h with
    | nothing hquiet =>
      have hshown : shown number ([] ++ reply) = shown number [] := shown_quiet hquiet
      exact (foldl_quiet hquiet none).trans hshown.symm
    | last before items after hreply hafter hbefore =>
      rw [hreply, foldl_last hafter, shown_last hafter, if_pos rfl, hbefore, List.nil_append]
    | repeats before seq items after hreply hafter hseq hbefore =>
      rw [hreply, foldl_last hafter, shown_last hafter, if_neg hseq, hbefore]

end Reply

/-! ### Runs -/

abbrev FirstTurn (F : Type) :=
  Turn ImapMessageFetchFirst F Unit ImapYield (Except ImapMessageFetchFirstError (Vec1 MessageDataItem))

abbrev RangeTurn (F : Type) :=
  Turn ImapMessageFetch F Unit ImapYield (Except ImapMessageFetchError FetchData)

/-- What the range variant comes to, read under the number of one message. -/
def underKey (number : NonZeroU32) (out : CoroutineState ImapYield (Except ImapMessageFetchError FetchData)) :
    CoroutineState ImapYield (Except ImapMessageFetchFirstError (Vec1 MessageDataItem)) :=
  out.tryOk id .fetch fun map => finish map[number]?

def reply {F : Type} [Fragmentizer F] (us : List (RangeTurn F)) : List Data :=
  (ImapSend.heard us).filterMap data?

section Runs

variable {F : Type} [Fragmentizer F] [TryFrom Bytes Tag] [Encoder Command]

variable {number : NonZeroU32} {items : List MessageDataItemName} {opts : ImapMessageFetchOptions} {f : F}
  {t : FirstTurn F} {u : RangeTurn F} {es : List (FirstTurn F)} {us : List (RangeTurn F)}
  {a b c : Config (ImapSend Command) F}

omit [Fragmentizer F] [TryFrom Bytes Tag] [Encoder Command] in
/-- The two read the same output alike unless it is that of a success. -/
theorem underKey_iff (x : ImapSendResult Command) :
    (x.tryOk id .send (commandOutcome decode)).tryOk id .fetch finish =
        underKey number (x.tryOk id .send (commandOutcome ImapMessageFetch.decode)) ↔
      ∀ out, x = .complete (.ok out) → Succeeds out → TellsOne number out.data := by
  rcases x with y | (err | out)
  · simp [underKey, CoroutineState.tryOk]
  · simp [underKey, CoroutineState.tryOk]
  · have hdecode : decode out = shown number out.data ↔ TellsOne number out.data := tellsOne_iff
    by_cases hout : Succeeds out
    · rw [← getElem?_decode] at hdecode
      simp only [underKey, CoroutineState.tryOk, commandOutcome_ok.mpr ⟨hout, rfl⟩,
        CoroutineState.complete.injEq, Except.ok.injEq, forall_eq', hout, forall_const, ← hdecode]
      constructor
      · intro h
        cases hfirst : decode out <;> cases hrange : (ImapMessageFetch.decode out)[number]? <;>
          simp_all [finish]
      · intro h
        rw [h]
    · obtain ⟨err, herr⟩ := commandOutcome_failed hout
      simp only [underKey, CoroutineState.tryOk, herr, CoroutineState.complete.injEq,
        Except.ok.injEq, forall_eq', hout, false_imp_iff]

structure Alike (t : FirstTurn F) (u : RangeTurn F) : Prop where
  first : t.out = ((exchanged u).tryOk id .send (commandOutcome decode)).tryOk
    id .fetch finish
  range : u.out = (exchanged u).tryOk id .send (commandOutcome ImapMessageFetch.decode)

theorem Alike.agrees_iff (h : Alike t u) : t.out = underKey number u.out ↔
    ∀ out, exchanged u = .complete (.ok out) → Succeeds out → TellsOne number out.data := by
  rw [h.first, h.range]
  exact underKey_iff _

theorem Alike.ongoing (h : Alike t u) {y : ImapYield} (hout : u.out = .yielded y) :
    t.out = underKey number u.out ∧ exchanged u = .yielded y := by
  obtain ⟨y', hy', rfl⟩ := CoroutineState.tryOk_yielded (h.range.symm.trans hout)
  rw [h.agrees_iff, hy']
  exact ⟨by simp, rfl⟩

theorem step_alike (ht : imapMessageFetchFirst.Step a t b) (hu : imapMessageFetch.Step a u c)
    (hgiven : t.given = u.given) : Alike t u ∧ b = c := by
  obtain ⟨due, arg, env, hdue, hans, rfl, rfl⟩ := ht
  obtain ⟨due', arg', env', hdue', hans', rfl, rfl⟩ := hu
  obtain ⟨-, rfl, rfl⟩ : a.frag = a.frag ∧ due = due' ∧ arg = arg' := by
    simpa [Turn.given, Coroutine.turn] using hgiven
  let t := imapMessageFetchFirst.turn a due arg env
  let u := imapMessageFetch.turn a due arg env'
  have halike : Alike t u := ⟨rfl, rfl⟩
  refine ⟨halike, ?_⟩
  show imapMessageFetchFirst.finish t = imapMessageFetch.finish u
  unfold Coroutine.finish
  rw [halike.first, halike.range]
  rcases exchanged u with y | (err | out)
  · rfl
  · rfl
  · simp only [CoroutineState.tryOk]
    cases commandOutcome decode out <;> rfl

variable (number) in
/-- Runs that are given the same stay at the same configuration, and agree as long as they go on. -/
theorem runs_alike {s : ImapSend Command} (hus : imapMessageFetch.Runs s f us c)
    (hes : imapMessageFetchFirst.Runs s f es b) (hgiven : es.map (·.given) = us.map (·.given)) :
    b = c ∧ ∀ due, c.due = some due → es.map (·.out) = us.map fun u => underKey number u.out := by
  refine Run.history (P := fun us c => ∀ es b, imapMessageFetchFirst.Runs s f es b →
    es.map (·.given) = us.map (·.given) → b = c ∧
      ∀ due, c.due = some due → es.map (·.out) = us.map fun u => underKey number u.out)
    ?_ ?_ hus es b hes hgiven
  · intro es b hes hgiven
    obtain rfl := List.map_eq_nil_iff.mp hgiven
    exact ⟨hes.nil_inv, fun _ _ => rfl⟩
  · intro us a u c ih hu es b hes hgiven
    rcases List.eq_nil_or_concat es with rfl | ⟨es, t, rfl⟩
    · simp at hgiven
    · rw [List.concat_eq_append] at hes hgiven ⊢
      rw [List.map_append, List.map_append] at hgiven
      obtain ⟨hpast, hlast⟩ := List.append_inj' hgiven rfl
      obtain ⟨a', hbefore, ht⟩ := hes.snoc_inv
      obtain ⟨rfl, hsame⟩ := ih es a' hbefore hpast
      obtain ⟨halike, rfl⟩ := step_alike ht hu (List.singleton_inj.mp hlast)
      refine ⟨rfl, fun due hdue => ?_⟩
      obtain ⟨due', hdue'⟩ := hu.exists_due
      have hyields : ∃ y, u.out = .yielded y := by
        obtain ⟨_, _, _, out, _, _, _, -, -, -, rfl, rfl⟩ := imapMessageFetch.step_cases hu
        cases out with
        | yielded y => exact ⟨y, rfl⟩
        | complete r => simp at hdue
      obtain ⟨y, hy⟩ := hyields
      rw [List.map_append, List.map_append, hsame due' hdue', List.map_singleton, List.map_singleton,
        (halike.ongoing hy).1]

end Runs

/-- On the same octets, the single-message variant returns what the range variant has
under the number exactly when a reply that ends well tells of the one message. -/
theorem fetch_first_iff {F : Type} [Fragmentizer F] [TryFrom Bytes Tag] [Encoder Command]
    [LawfulEncoder Command] {number : NonZeroU32} {items : List MessageDataItemName}
    {opts : ImapMessageFetchOptions} {f : F} {es : List (FirstTurn F)} {us : List (RangeTurn F)}
    {b c : Config (ImapSend Command) F} (hes : imapMessageFetchFirst.Runs (.new number items opts) f es b)
    (hus : imapMessageFetch.Runs (.new [.single (.value number)] items opts) f us c)
    (hgiven : es.map (·.given) = us.map (·.given)) :
    es.map (·.out) = us.map (fun u => underKey number u.out) ↔
      (EndsWell us → TellsOne number (reply us)) := by
  rcases List.eq_nil_or_concat us with rfl | ⟨us, u, rfl⟩
  · obtain rfl := List.map_eq_nil_iff.mp hgiven
    simp [EndsWell]
  · rcases List.eq_nil_or_concat es with rfl | ⟨es, t, rfl⟩
    · simp at hgiven
    · rw [List.concat_eq_append, List.concat_eq_append] at *
      rw [List.map_append, List.map_append] at hgiven
      obtain ⟨hpast, hlast⟩ := List.append_inj' hgiven rfl
      obtain ⟨a, hus', hu⟩ := hus.snoc_inv
      obtain ⟨a', hes', ht⟩ := hes.snoc_inv
      obtain ⟨rfl, hsame⟩ := runs_alike number hus' hes' hpast
      obtain ⟨halike, rfl⟩ := step_alike ht hu (List.singleton_inj.mp hlast)
      obtain ⟨due, hdue⟩ := hu.exists_due
      have hdata (out : ImapSendOutput Command) (hout : exchanged u = .complete (.ok out)) :
          out.data = reply (us ++ [u]) :=
        ((wraps_commandCoroutine _).output (.command ⟨_, id⟩) hus hout).data
      have hends : EndsWell (us ++ [u]) ↔ ∃ out, exchanged u = .complete (.ok out) ∧ Succeeds out := by
        simp [EndsWell]
      rw [List.map_append, List.map_append, hsame due hdue, List.append_cancel_left_eq,
        List.map_singleton, List.map_singleton, List.singleton_inj, halike.agrees_iff, hends]
      constructor
      · intro h hx
        obtain ⟨out, hout, hsucceeds⟩ := hx
        exact hdata out hout ▸ h out hout hsucceeds
      · intro h out hout hsucceeds
        exact hdata out hout ▸ h ⟨out, hout, hsucceeds⟩

section Concrete

open Concrete NonZeroU32

def fetchTable : List (Bytes × Response) :=
  [(ascii "* 2 FETCH (UID 5)\r\n", .data (.fetch (ofNat 2) [.uid (ofNat 5)])),
    (ascii "* 3 FETCH (UID 9)\r\n", .data (.fetch (ofNat 3) [.uid (ofNat 9)])),
    (ascii "A1 OK done\r\n", .status (.tagged ⟨⟨ascii "A1"⟩, ⟨.ok, none, "done"⟩⟩))]

abbrev FetchLines := LineFragmentizer (decodeTable fetchTable)

def fetchArgs (lines : Bytes) : List (Option Bytes × Unit) :=
  [none, some (ascii "A1"), none, some (lines ++ ascii "A1 OK done\r\n")].map fun arg => (arg, ())

def playFirst (lines : Bytes) := imapMessageFetchFirst.play
  (Coroutine.start (.new (ofNat 2) [.uid] ⟨false⟩) (LineFragmentizer.empty : FetchLines))
  (fetchArgs lines)

def playRange (lines : Bytes) := imapMessageFetch.play
  (Coroutine.start (.new [.single (.value (ofNat 2))] [.uid] ⟨false⟩)
    (LineFragmentizer.empty : FetchLines)) (fetchArgs lines)

deriving instance DecidableEq for LineFragmentizer

/-- The two are given the same, the single-message variant returns `first` in the end, and
the range variant has `range` under 2. -/
def Tell (lines : Bytes) (first range : Option (Vec1 MessageDataItem)) : Bool :=
  (playFirst lines).any fun es => (playRange lines).any fun us =>
    us.1.map (·.arg) = (fetchArgs lines).map Prod.fst ∧ es.1.map (·.given) = us.1.map (·.given) ∧
      (es.1.map (·.out)).map (·.returned?) = [none, none, none, first] ∧
      (us.1.map fun u => underKey (ofNat 2) u.out).map (·.returned?) = [none, none, none, range]

theorem tell_runs {lines : Bytes} {first range : Option (Vec1 MessageDataItem)}
    (h : Tell lines first range = true) : ∃ es us b c,
      imapMessageFetchFirst.Runs (.new (ofNat 2) [.uid] ⟨false⟩) (LineFragmentizer.empty : FetchLines) es b ∧
      imapMessageFetch.Runs (.new [.single (.value (ofNat 2))] [.uid] ⟨false⟩)
        (LineFragmentizer.empty : FetchLines) us c ∧
      us.map (·.arg) = (fetchArgs lines).map Prod.fst ∧ es.map (·.given) = us.map (·.given) ∧
      (es.map (·.out)).map (·.returned?) = [none, none, none, first] ∧
      (us.map fun u => underKey (ofNat 2) u.out).map (·.returned?) = [none, none, none, range] := by
  obtain ⟨⟨es, b⟩, hes, h⟩ := (Option.any_eq_true _ _).mp h
  obtain ⟨⟨us, c⟩, hus, h⟩ := (Option.any_eq_true _ _).mp h
  exact ⟨es, us, b, c, Coroutine.play_run _ hes, Coroutine.play_run _ hus, of_decide_eq_true h⟩

/-- A reply with one FETCH response, for the message, is told alike. -/
theorem fetch_first_single : ∃ es us b c,
    imapMessageFetchFirst.Runs (.new (ofNat 2) [.uid] ⟨false⟩) (LineFragmentizer.empty : FetchLines) es b ∧
    imapMessageFetch.Runs (.new [.single (.value (ofNat 2))] [.uid] ⟨false⟩)
      (LineFragmentizer.empty : FetchLines) us c ∧
    (es.map (·.out) = us.map (fun u => underKey (ofNat 2) u.out) ↔
      (EndsWell us → TellsOne (ofNat 2) (reply us))) := by
  have htell : Tell (ascii "* 2 FETCH (UID 5)\r\n") (some [.uid (ofNat 5)]) (some [.uid (ofNat 5)]) =
      true := by decide +kernel
  obtain ⟨es, us, b, c, hes, hus, -, hgiven, -, -⟩ := tell_runs htell
  exact ⟨es, us, b, c, hes, hus, fetch_first_iff hes hus hgiven⟩

/-- Given the lines, the two variants differ for message 2. -/
def Differs (lines : Bytes) : Prop :=
  ∃ es us b c,
    imapMessageFetchFirst.Runs (.new (ofNat 2) [.uid] ⟨false⟩) (LineFragmentizer.empty : FetchLines) es b ∧
    imapMessageFetch.Runs (.new [.single (.value (ofNat 2))] [.uid] ⟨false⟩)
      (LineFragmentizer.empty : FetchLines) us c ∧
    us.map (·.arg) = (fetchArgs lines).map Prod.fst ∧ es.map (·.given) = us.map (·.given) ∧
    es.map (·.out) ≠ us.map fun u => underKey (ofNat 2) u.out

theorem differs_of_tell {lines : Bytes} {first range : Option (Vec1 MessageDataItem)}
    (h : Tell lines first range = true) (hne : first ≠ range) : Differs lines := by
  obtain ⟨es, us, b, c, hes, hus, hargs, hgiven, hfirst, hrange⟩ := tell_runs h
  refine ⟨es, us, b, c, hes, hus, hargs, hgiven, fun hsame => hne ?_⟩
  rw [hsame, hrange] at hfirst
  simpa using hfirst.symm

/-- For message 2 the items of message 3 are returned, behind its own ones and without. -/
theorem fetch_first_mixes : Differs (ascii "* 2 FETCH (UID 5)\r\n* 3 FETCH (UID 9)\r\n") ∧
    Differs (ascii "* 3 FETCH (UID 9)\r\n") := by
  have hboth : Tell (ascii "* 2 FETCH (UID 5)\r\n* 3 FETCH (UID 9)\r\n") (some [.uid (ofNat 9)])
      (some [.uid (ofNat 5)]) = true := by decide +kernel
  have hother : Tell (ascii "* 3 FETCH (UID 9)\r\n") (some [.uid (ofNat 9)]) none = true := by
    decide +kernel
  exact ⟨differs_of_tell hboth (by decide), differs_of_tell hother (by decide)⟩

end Concrete
end ImapMessageFetchFirst
end IoImap
