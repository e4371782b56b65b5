import IoImap.Codec.CommandEncoder
import IoImap.Rfc3501.FetchStream
import IoImap.Rfc3501.FetchStreamBatch

/-!
# Read-ahead of the streaming FETCH coroutines

The fragmentizer is the connection's buffer: what one command read ahead is to be
there for the next. The streaming coroutines buffer in `pending`, so however the
server's octets were cut into reads, what was read behind the tagged status stays
there and is lost with the coroutine.
-/

namespace IoImap
open Fragmentizer StreamsBodies UnparsedBuffer

section Runs

variable {S Y E F : Type} [StreamsBodies S] [Fragmentizer F]
  {c : Coroutine S Unit Y (Except E Unit)} {byTagged : Except E Unit → Bool}

theorem BodyStreaming.turn_eq (hc : BodyStreaming c byTagged) (a : Config S F) (due : Request)
    (arg : Option Bytes) :
    c.resume a.state a.frag arg () =
      ((c.turn a due arg ()).out, (c.turn a due arg ()).after, (c.turn a due arg ()).fragAfter) :=
  hc.erase a.state (⟨a.frag, []⟩ : Logged F) arg

theorem BodyStreaming.step (hc : BodyStreaming c byTagged) {a b : Config S F}
    {t : Turn S F Unit Y (Except E Unit)} (h : c.Step a t b)
    (ha : ∀ due, a.due = some due → Awaits a.state due) :
    b.state = t.after ∧ b.frag = t.fragAfter ∧ (∃ due, a.due = some due) ∧
      (∀ y, t.out = .yielded y → b.due = some (c.request y)) ∧
      (∀ result, t.out = .complete result → b.due = none) ∧
      ∀ taken, t.Takes taken →
        Advances c.request byTagged (position a.state a.frag) taken (t.out, t.after, t.fragAfter) := by
  obtain ⟨due, arg, env, hdue, hans, rfl, rfl⟩ := h
  refine ⟨rfl, rfl, ⟨due, hdue⟩, ?_, ?_, ?_⟩
  · intro y hy
    simp only [Coroutine.finish, hy]
  · intro result hr
    simp only [Coroutine.finish, hr]
  · intro taken htaken
    have hadv := hc.advances a.frag (ha due hdue) hans htaken
    rw [hc.turn_eq a due arg] at hadv
    exact hadv

/-- How the reply ends is settled at every point of a run: what has come off the
wire so far led into it, whichever way it was cut. -/
def InsideReply (f : F) (es : List (Turn S F Unit Y (Except E Unit))) (a : Config S F) : Prop :=
  ∀ due, a.due = some due → Awaits a.state due ∧
    ∀ wire rest, Served es wire rest → reply f wire = (position a.state a.frag).ending rest

theorem BodyStreaming.insideReply (hc : BodyStreaming c byTagged) {s : S} {f : F}
    {es : List (Turn S F Unit Y (Except E Unit))} {b : Config S F} (h0 : Awaits s .nothing)
    (hs : position s f = ⟨f, [], none⟩) (h : c.Runs s f es b) : InsideReply f es b := by
  refine Transition.Run.history (P := InsideReply f) ?_ ?_ h
  · intro due hdue
    obtain rfl : Request.nothing = due := by simpa [Coroutine.start] using hdue
    refine ⟨h0, ?_⟩
    intro wire rest hserved
    obtain rfl := served_nil.mp hserved
    simp only [Coroutine.start, hs, Position.ending, List.nil_append]
  · intro es a t b ha hstep due hdue
    obtain ⟨hb, hf, ⟨due', hdue'⟩, hyields, hcomplete, hadv⟩ :=
      hc.step hstep fun due hd => (ha due hd).1
    obtain ⟨-, hending⟩ := ha due' hdue'
    cases ho : t.out with
    | complete result => simp [hcomplete result ho] at hdue
    | yielded y =>
      rw [hyields y ho] at hdue
      obtain rfl := Option.some.inj hdue
      rw [ho] at hadv
      rw [hb, hf]
      refine ⟨?_, ?_⟩
      · obtain ⟨taken, htaken⟩ := Request.exists_takes t.due t.arg
        exact (hadv taken htaken).1
      · intro wire rest hserved
        obtain ⟨taken, htaken, hes⟩ := served_concat.mp hserved
        obtain ⟨-, hmoves⟩ := hadv taken htaken
        rw [hending wire (taken ++ rest) hes]
        exact hmoves rest

theorem BodyStreaming.reply_of_runs (hc : BodyStreaming c byTagged) {s : S} {f : F}
    {es : List (Turn S F Unit Y (Except E Unit))} {t : Turn S F Unit Y (Except E Unit)}
    {b : Config S F} {result : Except E Unit} {wire rest : Bytes} (h0 : Awaits s .nothing)
    (hs : position s f = ⟨f, [], none⟩) (h : c.Runs s f (es ++ [t]) b)
    (hserved : Served (es ++ [t]) wire rest) (ht : t.out = .complete result)
    (htagged : byTagged result = true) :
    reply f wire = some (b.frag, (stream b.state).pending ++ rest) := by
  obtain ⟨a, hrun, hstep⟩ := h.snoc_inv
  have hinside := hc.insideReply h0 hs hrun
  obtain ⟨hb, hf, ⟨due, hdue⟩, -, -, hadv⟩ := hc.step hstep fun due hd => (hinside due hd).1
  obtain ⟨taken, htaken, hes⟩ := served_concat.mp hserved
  rw [(hinside due hdue).2 wire (taken ++ rest) hes, hb, hf]
  have hends := hadv taken htaken
  rw [ht] at hends
  exact hends htagged rest

theorem awaits_new {s : S} (hphase : phase s = .command) (hstream : stream s = .new) :
    Awaits s .nothing := by
  rw [Awaits, hphase, hstream]
  exact ⟨⟨BodyStream.scanned_zero rfl, rfl⟩, .inl rfl⟩

end Runs

section Held

variable {F : Type} [Fragmentizer F] [UnparsedBuffer F] {f f' frag : F} {wire rest ahead : Bytes}

/-- The octets read behind the end of the reply are in the fragmentizer: `frag` has
what it had there and all of them, up to `rest`, which was not read. -/
def HoldsReadAhead (f frag : F) (wire rest : Bytes) : Prop :=
  ∃ f' ahead, reply f wire = some (f', ahead ++ rest) ∧ unparsed frag = unparsed f' ++ ahead

/-- The reads stopped at the end of the reply. -/
def StopsAtReply (f : F) (wire rest : Bytes) : Prop := (reply f wire).map (·.2) = some rest

instance : Decidable (StopsAtReply f wire rest) :=
  inferInstanceAs (Decidable ((reply f wire).map (·.2) = some rest))

theorem holdsReadAhead_iff (h : reply f wire = some (f', ahead ++ rest)) :
    HoldsReadAhead f f' wire rest ↔ StopsAtReply f wire rest := by
  constructor
  · intro hx
    obtain ⟨g, more, hreply, hheld⟩ := hx
    rw [h] at hreply
    obtain ⟨rfl, hmore⟩ : f' = g ∧ ahead ++ rest = more ++ rest := by simpa using hreply
    obtain rfl : more = [] := List.self_eq_append_right.mp hheld
    rw [StopsAtReply, h, Option.map_some, hmore, List.nil_append]
  · intro hstops
    rw [StopsAtReply, h, Option.map_some, Option.some.injEq] at hstops
    have hrest : ahead ++ rest = [] ++ rest := hstops
    exact ⟨f', [], h.trans (by rw [hrest]), (List.append_nil _).symm⟩

end Held

/-- When a tagged status completes a streaming FETCH, the fragmentizer holds the
octets read behind that status exactly when there are none. -/
theorem read_ahead_held_iff {F : Type} [Fragmentizer F] [UnparsedBuffer F] [TryFrom Bytes Tag]
    [Encoder Command] :
    (∀ (id : NonZeroU32) (uid : Bool) (f : F) es t b result wire rest,
      imapMessageFetchStream.Runs (.new id uid) f (es ++ [t]) b → Served (es ++ [t]) wire rest →
      t.out = .complete result → ImapMessageFetchStreamError.byTagged result = true →
      (HoldsReadAhead f b.frag wire rest ↔ StopsAtReply f wire rest)) ∧
    (∀ (sequenceSet : SequenceSet) (opts : ImapMessageFetchStreamBatchOptions) (f : F)
        es t b result wire rest,
      imapMessageFetchStreamBatch.Runs (.new sequenceSet opts) f (es ++ [t]) b →
      Served (es ++ [t]) wire rest →
      t.out = .complete result → ImapMessageFetchStreamBatchError.byTagged result = true →
      (HoldsReadAhead f b.frag wire rest ↔ StopsAtReply f wire rest)) := by
  constructor
  · intro id uid f es t b result wire rest h hserved ht htagged
    exact holdsReadAhead_iff (ImapMessageFetchStream.bodyStreaming.reply_of_runs
      (awaits_new rfl rfl) rfl h hserved ht htagged)
  · intro sequenceSet opts f es t b result wire rest h hserved ht htagged
    exact holdsReadAhead_iff (ImapMessageFetchStreamBatch.bodyStreaming.reply_of_runs
      (awaits_new rfl rfl) rfl h hserved ht htagged)

section Concrete

open Concrete

def streamMessages : List (Bytes × Response) :=
  [(ascii "A1 OK done\r\n", .status (.tagged ⟨⟨ascii "A1"⟩, ⟨.ok, none, "done"⟩⟩))]

def streamFrag : LineFragmentizer (decodeTable streamMessages) := .empty

def completesOk {Y E : Type} : CoroutineState Y (Except E Unit) → Bool
  | .complete (.ok ()) => true
  | _ => false

theorem completesOk_eq {Y E : Type} {out : CoroutineState Y (Except E Unit)}
    (h : completesOk out = true) : out = .complete (.ok ()) := by
  rcases out with y | (err | -)
  · simp [completesOk] at h
  · simp [completesOk] at h
  · rfl

abbrev Serving := List (Option Bytes × Bytes)

def servesOk {S Y E : Type} (c : Coroutine S Unit Y (Except E Unit)) (s : S) (serving : Serving) :
    Bool :=
  (c.play (Coroutine.start s streamFrag) (serving.map fun x => (x.1, ()))).any fun r =>
    decide (List.Forall₂ Turn.Takes r.1 (serving.map (·.2))) &&
      r.1.getLast?.any fun t => completesOk t.out

theorem servesOk_run {S Y E : Type} {c : Coroutine S Unit Y (Except E Unit)} {s : S}
    (serving : Serving) (h : servesOk c s serving = true) (rest : Bytes) :
    ∃ es t b, c.Runs s streamFrag (es ++ [t]) b ∧
      Served (es ++ [t]) ((serving.map (·.2)).flatten ++ rest) rest ∧
      t.out = .complete (.ok ()) := by
  obtain ⟨⟨ts, b⟩, hplay, hdec⟩ := (Option.any_eq_true _ _).mp h
  rw [Bool.and_eq_true] at hdec
  obtain ⟨t, hlast, hout⟩ := (Option.any_eq_true _ _).mp hdec.2
  obtain ⟨es, rfl⟩ := List.getLast?_eq_some_iff.mp hlast
  exact ⟨es, t, b, Coroutine.play_run _ hplay, ⟨_, of_decide_eq_true hdec.1, rfl⟩, completesOk_eq hout⟩

def commandServing : Serving := [(none, []), (some (ascii "A1"), []), (none, [])]

def oneRead (bytes : Bytes) : Option Bytes × Bytes := (some bytes, bytes)

def nextData : Bytes := ascii "* 5 EXISTS\r\n"

def oneStream : ImapMessageFetchStream := .new (.ofNat 1) false

def batchStream : ImapMessageFetchStreamBatch := .new [.single .asterisk] {}

def headerRead : Option Bytes × Bytes := oneRead (ascii "* 1 FETCH (UID 7 BODY[] \x7b5\x7d\r\nhel")

def statusRead : Option Bytes × Bytes := oneRead (ascii ")\r\nA1 OK done\r\n")

theorem read_ahead_held_cut :
    (∃ es t b wire, imapMessageFetchStream.Runs oneStream streamFrag (es ++ [t]) b ∧
      Served (es ++ [t]) wire nextData ∧ t.out = .complete (.ok ()) ∧
      HoldsReadAhead streamFrag b.frag wire nextData) ∧
    (∃ es t b wire, imapMessageFetchStreamBatch.Runs batchStream streamFrag (es ++ [t]) b ∧
      Served (es ++ [t]) wire nextData ∧ t.out = .complete (.ok ()) ∧
      HoldsReadAhead streamFrag b.frag wire nextData) := by
  constructor
  · obtain ⟨es, t, b, hrun, hserved, hout⟩ := servesOk_run (c := imapMessageFetchStream)
      (s := oneStream)
      (commandServing ++ [headerRead, (none, []), (none, ascii "lo"), statusRead])
      (by decide +kernel) nextData
    have hiff := read_ahead_held_iff.1 _ _ _ _ _ _ _ _ _ hrun hserved hout rfl
    exact ⟨es, t, b, _, hrun, hserved, hout, hiff.mpr (by decide +kernel)⟩
  · obtain ⟨es, t, b, hrun, hserved, hout⟩ := servesOk_run (c := imapMessageFetchStreamBatch)
      (s := batchStream)
      (commandServing ++
        [headerRead, (none, []), (none, []), (none, ascii "lo"), (none, []), statusRead])
      (by decide +kernel) nextData
    have hiff := read_ahead_held_iff.2 _ _ _ _ _ _ _ _ _ hrun hserved hout rfl
    exact ⟨es, t, b, _, hrun, hserved, hout, hiff.mpr (by decide +kernel)⟩

def lostServing : Serving := commandServing ++ [oneRead (ascii "A1 OK done\r\n" ++ nextData)]

theorem read_ahead_lost :
    (¬ ∀ es t b result wire rest,
      imapMessageFetchStream.Runs oneStream streamFrag (es ++ [t]) b → Served (es ++ [t]) wire rest →
      t.out = .complete result → ImapMessageFetchStreamError.byTagged result = true →
      HoldsReadAhead streamFrag b.frag wire rest) ∧
    (¬ ∀ es t b result wire rest,
      imapMessageFetchStreamBatch.Runs batchStream streamFrag (es ++ [t]) b →
      Served (es ++ [t]) wire rest →
      t.out = .complete result → ImapMessageFetchStreamBatchError.byTagged result = true →
      HoldsReadAhead streamFrag b.frag wire rest) := by
  have hahead : ¬ StopsAtReply streamFrag ((lostServing.map (·.2)).flatten ++ []) [] := by
    decide +kernel
  constructor
  · intro h
    obtain ⟨es, t, b, hrun, hserved, hout⟩ := servesOk_run (c := imapMessageFetchStream)
      (s := oneStream) lostServing (by decide +kernel) []
    have hreply := ImapMessageFetchStream.bodyStreaming.reply_of_runs (awaits_new rfl rfl) rfl hrun
      hserved hout rfl
    exact hahead ((holdsReadAhead_iff hreply).mp (h es t b _ _ _ hrun hserved hout rfl))
  · intro h
    obtain ⟨es, t, b, hrun, hserved, hout⟩ := servesOk_run (c := imapMessageFetchStreamBatch)
      (s := batchStream) lostServing (by decide +kernel) []
    have hreply := ImapMessageFetchStreamBatch.bodyStreaming.reply_of_runs (awaits_new rfl rfl) rfl
      hrun hserved hout rfl
    exact hahead ((holdsReadAhead_iff hreply).mp (h es t b _ _ _ hrun hserved hout rfl))

end Concrete
end IoImap
