import IoImap.Codec.BufferedFragmentizer
import IoImap.Rfc3501.Raw
import Mathlib.Data.List.TakeWhile

/-!
# The tags a raw passthrough waits for (rfc3501/raw.rs)

A run is described by the messages it has completed: they are all of the response, and
the commands they do not answer are the ones still pending.
-/

namespace IoImap
open Incremental Fragmentizer TagDecoder Transition

namespace ImapRaw

variable {F : Type} [Fragmentizer F] [TagDecoder]

/-! ### One read -/

def captureAll (s : ImapRaw) (ms : List ServerMessage) : ImapRaw :=
  ms.foldl (fun s m => s.capture m.bytes) s

theorem capture_response (s : ImapRaw) (bytes : Bytes) :
    (s.capture bytes).response = s.response ++ bytes := by
  unfold capture
  split <;> rfl

theorem messageTags_append (ms ns : List ServerMessage) :
    messageTags (ms ++ ns) = messageTags ms ++ messageTags ns :=
  List.filterMap_append

theorem capture_pending [LawfulTags F] (s : ImapRaw) (m : ServerMessage) :
    (s.capture m.bytes).pending = s.pending \ (messageTags [m]).toFinset := by
  unfold capture
  rw [LawfulTags.decodeTag_firstLine F]
  split
  · next tag htag =>
    have htags : messageTags [m] = [tag.inner] := messageTags_cons [] htag
    rw [htags, List.toFinset_cons, List.toFinset_nil, insert_empty_eq]
    exact Finset.erase_eq s.pending tag.inner
  · next htag =>
    have htags : messageTags [m] = [] := by simp [messageTags, htag]
    rw [htags, List.toFinset_nil, Finset.sdiff_empty]

theorem captureAll_response (s : ImapRaw) (ms : List ServerMessage) :
    (s.captureAll ms).response = s.response ++ ms.flatMap ServerMessage.bytes := by
  induction ms generalizing s with
  | nil => exact (List.append_nil _).symm
  | cons m ms ih =>
    have htail := ih (s.capture m.bytes)
    rw [capture_response, List.append_assoc] at htail
    exact htail

/-- The commands answered are those whose tag a message carries. -/
theorem captureAll_pending [LawfulTags F] (s : ImapRaw) (ms : List ServerMessage) :
    (s.captureAll ms).pending = s.pending \ (messageTags ms).toFinset := by
  induction ms generalizing s with
  | nil => exact Finset.sdiff_empty.symm
  | cons m ms ih =>
    have htail : (s.captureAll (m :: ms)).pending =
        (s.pending \ (messageTags [m]).toFinset) \ (messageTags ms).toFinset := by
      rw [← capture_pending (F := F)]
      exact ih (s.capture m.bytes)
    have hsplit : messageTags (m :: ms) = messageTags [m] ++ messageTags ms :=
      messageTags_append [m] ms
    rw [htail, hsplit, List.toFinset_append, Finset.sdiff_sdiff_left', ← Finset.sdiff_union_distrib]

theorem deserialize_eq (s : ImapRaw) (f : F) :
    s.deserialize f = (s.captureAll (messages f)).settle (drained f) := by
  fun_induction deserialize s f with
  | case1 s f announcement f' h hcomplete ih =>
    have hpull : pull f = (some (some (message f')), f') := by simp only [pull, h, if_pos hcomplete]
    rw [ih, messages_pull hpull, drained_pull hpull]
    rfl
  | case2 s f announcement f' h hcomplete ih =>
    have hpull : pull f = (some none, f') := by simp only [pull, h, if_neg hcomplete]
    rw [ih, messages_pull hpull, drained_pull hpull]
    rfl
  | case3 s f f' h ih =>
    have hpull : pull f = (some none, f') := by simp only [pull, h]
    rw [ih, messages_pull hpull, drained_pull hpull]
    rfl
  | case4 s f f' h =>
    have hdry : pull f = (none, f') := pull_none.mpr h
    rw [messages_dry hdry, drained_dry hdry]
    rfl

/-- What a passthrough in this state may have asked for. -/
def Asks (s : ImapRaw) (due : Request) : Prop := due = .nothing ∨ due = .read ∧ s.state = .read

/-- What one resume takes: nothing, or one read and every message that it completes. -/
inductive Takes (f : F) : List Bytes → List ServerMessage → Logged F → Prop where
  | nothing : Takes f [] [] ⟨f, []⟩
  | read (data : Bytes) : Takes f [data] (messages (enqueueBytes f data))
      ⟨drained (enqueueBytes f data), .fed data :: (messages (enqueueBytes f data)).map .completed⟩

/-- What one resume comes to: the messages are captured, and a read that leaves no
command unanswered completes. -/
structure Resumed (s : ImapRaw) (octets : List Bytes) (ms : List ServerMessage) (out : ImapRawResult)
    (s' : ImapRaw) : Prop where
  pending : s'.pending = s.pending \ (messageTags ms).toFinset
  response : s'.response = s.response ++ ms.flatMap ServerMessage.bytes
  asks : ∀ y, out = .yielded y → s'.Asks y.request
  completes : ∀ text, out = .complete (.ok text) ↔
    octets ≠ [] ∧ s'.pending = ∅ ∧ text = Utf8.fromUtf8Lossy s'.response

theorem Resumed.idle {s s' : ImapRaw} {out : ImapRawResult} (hpending : s'.pending = s.pending)
    (hresponse : s'.response = s.response) (hasks : ∀ y, out = .yielded y → s'.Asks y.request)
    (hout : ∀ text, out ≠ .complete (.ok text)) : Resumed s [] [] out s' where
  pending := hpending.trans Finset.sdiff_empty.symm
  response := hresponse.trans (List.append_nil _).symm
  asks := hasks
  completes text := ⟨fun h => absurd h (hout text), fun h => absurd rfl h.1⟩

theorem settle_resumed [LawfulTags F] (s : ImapRaw) (octets : Bytes) (ms : List ServerMessage)
    {G : Type} (g : G) :
    ∃ out s', (s.captureAll ms).settle g = (out, s', g) ∧ Resumed s [octets] ms out s' := by
  have hpending := s.captureAll_pending (F := F) ms
  have hresponse := s.captureAll_response ms
  unfold settle
  split
  · next hempty =>
    refine ⟨_, _, rfl, hpending, hresponse, by simp, fun text => ?_⟩
    simp [hempty, eq_comm]
  · next hne =>
    refine ⟨_, _, rfl, hpending, hresponse, fun y hy => ?_, fun text => ?_⟩
    · obtain rfl : .wantsRead = y := by simpa using hy
      exact .inr ⟨rfl, rfl⟩
    · simp [hne]

theorem resume_resumed [LawfulTags F] {s : ImapRaw} {due : Request} {arg : Option Bytes} (f : F)
    (hdue : s.Asks due) (hans : due.answeredBy arg = true) :
    ∃ ms l out s', Takes f (due.octets arg) ms l ∧
      s.resume (⟨f, []⟩ : Logged F) arg = (out, s', l) ∧ Resumed s (due.octets arg) ms out s' := by
  obtain ⟨command, pending, state, response⟩ := s
  rcases hdue with rfl | ⟨rfl, hread⟩
  · rw [Request.answeredBy_nothing] at hans
    subst hans
    cases state with
    | write =>
      refine ⟨[], _, _, _, .nothing, rfl, .idle rfl rfl (fun y hy => ?_) (by simp)⟩
      obtain rfl : .wantsWrite command = y := by simpa using hy
      exact .inl rfl
    | read =>
      refine ⟨[], _, _, _, .nothing, rfl, .idle rfl rfl (fun y hy => ?_) (by simp)⟩
      obtain rfl : .wantsRead = y := by simpa using hy
      exact .inr ⟨rfl, rfl⟩
  · obtain rfl : state = .read := hread
    obtain ⟨bytes, rfl⟩ := Option.isSome_iff_exists.mp hans
    cases bytes with
    | nil => exact ⟨[], _, _, _, .nothing, rfl, .idle rfl rfl (by simp) (by simp)⟩
    | cons b bs =>
      obtain ⟨out, s', hsettle, hresumed⟩ := settle_resumed (F := F) ⟨command, pending, .read, response⟩
        (b :: bs) (messages (enqueueBytes f (b :: bs))) (⟨drained (enqueueBytes f (b :: bs)),
          .fed (b :: bs) :: (messages (enqueueBytes f (b :: bs))).map .completed⟩ : Logged F)
      refine ⟨_, _, out, s', .read (b :: bs), ?_, hresumed⟩
      rw [← hsettle]
      show deserialize _ (enqueueBytes (⟨f, []⟩ : Logged F) (b :: bs)) = _
      rw [deserialize_eq, Logged.enqueueBytes_eq, Logged.messages_eq, Logged.drained_eq]
      rfl

/-! ### Runs -/

abbrev Step (F : Type) := Turn ImapRaw F Unit ImapYield (Except ImapRawError String)

def received (es : List (Step F)) : List ServerMessage := es.flatMap Turn.completed

def reads (es : List (Step F)) : List Bytes := es.flatMap Turn.answer

/-- Where a run stands: what it has received is all that its reads complete in the
fragmentizer, and is what has been answered and kept. -/
structure Waiting (raw : ImapRaw) (f : F) (es : List (Step F)) (b : Config ImapRaw F) : Prop where
  pending : b.state.pending = raw.pending \ (messageTags (received es)).toFinset
  response : b.state.response = raw.response ++ (received es).flatMap ServerMessage.bytes
  position : (reads es = [] ∧ received es = [] ∧ b.frag = f) ∨
    (reads es ≠ [] ∧ received es = messages (enqueueBytes f (reads es).flatten) ∧
      b.frag = drained (enqueueBytes f (reads es).flatten))
  due : ∀ due, b.due = some due → b.state.Asks due

theorem waiting_start (raw : ImapRaw) (f : F) : Waiting raw f [] (Coroutine.start raw f) where
  pending := by simp [Coroutine.start, received, messageTags]
  response := by simp [Coroutine.start, received]
  position := .inl ⟨rfl, rfl, rfl⟩
  due due hdue := .inl (Option.some.inj hdue).symm

omit [Fragmentizer F] [TagDecoder] in
theorem received_concat (es : List (Step F)) (t : Step F) :
    received (es ++ [t]) = received es ++ t.completed := by
  rw [received, List.flatMap_append, List.flatMap_singleton]
  rfl

omit [Fragmentizer F] [TagDecoder] in
theorem reads_concat (es : List (Step F)) (t : Step F) :
    reads (es ++ [t]) = reads es ++ t.answer := by
  rw [reads, List.flatMap_append, List.flatMap_singleton]
  rfl

/-- A read behind what a run was given. -/
theorem Waiting.position_read [LawfulFragmentizer F] {raw : ImapRaw} {f : F} {es : List (Step F)}
    {a : Config ImapRaw F} (h : Waiting raw f es a) (data : Bytes) :
    received es ++ messages (enqueueBytes a.frag data) =
        messages (enqueueBytes f (reads es ++ [data]).flatten) ∧
      drained (enqueueBytes a.frag data) = drained (enqueueBytes f (reads es ++ [data]).flatten) := by
  rw [List.flatten_concat]
  rcases h.position with ⟨hreads, hreceived, hfrag⟩ | ⟨-, hreceived, hfrag⟩
  · rw [hreceived, hfrag, hreads]
    exact ⟨rfl, rfl⟩
  · rw [hreceived, hfrag, LawfulFragmentizer.messages_append, LawfulFragmentizer.drained_append]
    exact ⟨rfl, rfl⟩

/-- What one step leaves of a run, and when it completes with a response. -/
theorem Waiting.step [LawfulFragmentizer F] [LawfulTags F] {raw : ImapRaw} {f : F}
    {es : List (Step F)} {a b : Config ImapRaw F} {t : Step F} (h : Waiting raw f es a)
    (hstep : imapRaw.Step a t b) :
    Waiting raw f (es ++ [t]) b ∧ ∀ text, t.out = .complete (.ok text) ↔
      t.answer ≠ [] ∧ b.state.pending = ∅ ∧ text = Utf8.fromUtf8Lossy b.state.response := by
  obtain ⟨due, arg, env, out, s, g, log, hdue, hans, hres, ht, rfl⟩ := Coroutine.step_cases _ hstep
  obtain ⟨ms, l, out', s', htakes, hres', hresumed⟩ := resume_resumed a.frag (h.due due hdue) hans
  obtain ⟨rfl, rfl, rfl⟩ : out' = out ∧ s' = s ∧ l = ⟨g, log⟩ := by simpa using hres'.symm.trans hres
  have hout : t.out = out' := by rw [ht]
  have hanswer : t.answer = due.octets arg := by rw [ht]; rfl
  generalize due.octets arg = octets at htakes hresumed hanswer
  have hcompleted : t.completed = ms := by
    cases htakes with
    | nothing => exact Turn.completed_silent (by rw [ht])
    | read data => exact Turn.completed_read (by rw [ht])
  have hreceived : received (es ++ [t]) = received es ++ ms := by rw [received_concat, hcompleted]
  constructor
  · constructor
    · rw [hresumed.pending, h.pending, hreceived, messageTags_append, List.toFinset_append,
        Finset.sdiff_sdiff_left', ← Finset.sdiff_union_distrib]
    · rw [hresumed.response, h.response, hreceived, List.flatMap_append, List.append_assoc]
    · rw [reads_concat, hanswer, hreceived]
      cases htakes with
      | nothing =>
        rw [List.append_nil, List.append_nil]
        exact h.position
      | read data => exact .inr ⟨by simp, h.position_read data⟩
    · intro next hnext
      cases hy : out' with
      | complete r => simp [hy] at hnext
      | yielded y =>
        rw [hy] at hnext
        obtain rfl : y.request = next := Option.some.inj hnext
        exact hresumed.asks y hy
  · rw [hout, hanswer]
    exact hresumed.completes

theorem waiting_of_runs [LawfulFragmentizer F] [LawfulTags F] {raw : ImapRaw} {f : F}
    {es : List (Step F)} {b : Config ImapRaw F} (h : imapRaw.Runs raw f es b) :
    Waiting raw f es b :=
  Run.history (P := Waiting raw f) (waiting_start raw f) (fun _ _ _ _ ha hstep => (ha.step hstep).1) h

end ImapRaw

open ImapRaw

/-- The commands pending are those whose tag no message has carried; a run completes with
the read that answers the last of them, and with every message it has received. -/
theorem raw_waits_for_tags {F : Type} [Fragmentizer F] [LawfulFragmentizer F] [NewFragmentizer F]
    [TagDecoder] [LawfulTags F] {command : Bytes} {raw : ImapRaw} (hnew : ImapRaw.new F command = .ok raw)
    {f : F} {es : List (ImapRaw.Step F)} {b : Config ImapRaw F} (h : imapRaw.Runs raw f es b) :
    b.state.pending =
      (messageTags (commands F command)).toFinset \ (messageTags (received es)).toFinset ∧
    received es = (if reads es = [] then [] else messages (enqueueBytes f (reads es).flatten)) ∧
    ∀ pre t, es = pre ++ [t] → ∀ text, t.out = .complete (.ok text) ↔
      t.answer ≠ [] ∧ b.state.pending = ∅ ∧ messages b.frag = [] ∧
        text = Utf8.fromUtf8Lossy ((received es).flatMap ServerMessage.bytes) := by
  have hwaiting := waiting_of_runs h
  obtain ⟨rfl, -⟩ := new_eq_ok hnew
  refine ⟨hwaiting.pending, ?_, ?_⟩
  · rcases hwaiting.position with ⟨hreads, hreceived, -⟩ | ⟨hreads, hreceived, -⟩
    · rw [if_pos hreads, hreceived]
    · rw [if_neg hreads, hreceived]
  · rintro pre t rfl text
    obtain ⟨a, hrun, hstep⟩ := h.snoc_inv
    obtain ⟨hafter, hcompletes⟩ := (waiting_of_runs hrun).step hstep
    have hresponse : b.state.response = (received (pre ++ [t])).flatMap ServerMessage.bytes := by
      rw [hafter.response, List.nil_append]
    rw [hcompletes text, hresponse]
    constructor
    · rintro ⟨hanswer, hpending, htext⟩
      have hread : reads (pre ++ [t]) ≠ [] := by
        rw [reads_concat]
        exact List.append_ne_nil_of_right_ne_nil _ hanswer
      have hfrag := (hafter.position.resolve_left fun hx => hread hx.1).2.2
      rw [hfrag]
      exact ⟨hanswer, hpending, LawfulFragmentizer.messages_drained _, htext⟩
    · rintro ⟨hanswer, hpending, -, htext⟩
      exact ⟨hanswer, hpending, htext⟩

section Concrete

/-- The octets in front of the first space, unless the line is untagged. -/
def tagOfLine (line : Bytes) : Option Tag :=
  match line.idxOf? 32 with
  | none => none
  | some i =>
    if line.take i = [] ∨ line.take i = ascii "*" ∨ line.take i = ascii "+" then none
    else some ⟨line.take i⟩

local instance : TagDecoder := ⟨fun bytes => tagOfLine (firstLine bytes)⟩

abbrev PlainFragmentizer := BufferedFragmentizer (decodeTable [])

local instance : NewFragmentizer PlainFragmentizer := ⟨fun _ => .empty⟩

local instance : LawfulTags PlainFragmentizer where
  isMessageComplete_literal _ _ h := BufferedFragmentizer.isMessageComplete_literal h
  decodeTag_firstLine bytes := by
    have hidem : firstLine (firstLine bytes) = firstLine bytes := List.takeWhile_idem ..
    show tagOfLine (firstLine bytes) = tagOfLine (firstLine (firstLine bytes))
    rw [hidem]

def rawInput : Bytes := ascii "a1 FETCH 1 BODY[]\r\na2 NOOP\r\n"

/-- A literal that reads like a completion, the second command answered first and twice,
and a completion that nobody waits for. -/
def rawReads : List Bytes :=
  [ascii "* 1 FETCH (BODY[] \x7b12\x7d\r\na1 OK fa", ascii "ke\r\n)\r\na2 OK NOOP\r\na2 OK ag",
    ascii "ain\r\nzz OK\r\na1 OK done\r\n"]

def rawRun (n : Nat) : Option (List (ImapRaw.Step PlainFragmentizer) × Config ImapRaw PlainFragmentizer) :=
  (ImapRaw.new PlainFragmentizer rawInput).toOption.bind fun raw =>
    imapRaw.play (Coroutine.start raw .empty)
      ((none, ()) :: (none, ()) :: (rawReads.take n).map fun bytes => (some bytes, ()))

theorem rawRun_runs {n : Nat} {α : Type} (look : List (ImapRaw.Step PlainFragmentizer) → α) {seen : α}
    (h : (rawRun n).map (fun r => look r.1) = some seen) :
    ∃ raw ts b, ImapRaw.new PlainFragmentizer rawInput = .ok raw ∧
      imapRaw.Runs raw (.empty : PlainFragmentizer) ts b ∧ look ts = seen := by
  obtain ⟨⟨ts, b⟩, hrun, hlook⟩ := Option.map_eq_some_iff.mp h
  obtain ⟨raw, hraw, hplay⟩ := Option.bind_eq_some_iff.mp hrun
  cases hnew : ImapRaw.new PlainFragmentizer rawInput with
  | error err =>
    rw [hnew] at hraw
    cases hraw
  | ok built =>
    rw [hnew] at hraw
    obtain rfl : built = raw := Option.some.inj hraw
    exact ⟨built, ts, b, rfl, Coroutine.play_run _ hplay, hlook⟩

/-- After two reads the first command is awaited, after three the response is complete. -/
theorem raw_waits_for_fetch :
    (∃ raw ts b, imapRaw.Runs raw (.empty : PlainFragmentizer) ts b ∧ reads ts = rawReads.take 2 ∧
      b.state.pending = {ascii "a1"}) ∧
    ∃ raw ts t b, imapRaw.Runs raw (.empty : PlainFragmentizer) (ts ++ [t]) b ∧
      reads (ts ++ [t]) = rawReads ∧
      t.out = .complete (.ok (Utf8.fromUtf8Lossy rawReads.flatten)) := by
  have htags : (messageTags (commands PlainFragmentizer rawInput)) = [ascii "a1", ascii "a2"] := by
    decide +kernel
  constructor
  · have hseen : (rawRun 2).map (fun r => reads r.1) = some (rawReads.take 2) := by decide +kernel
    obtain ⟨raw, ts, b, hnew, hrun, hreads⟩ := rawRun_runs reads hseen
    obtain ⟨hpending, hreceived, -⟩ := raw_waits_for_tags hnew hrun
    refine ⟨raw, ts, b, hrun, hreads, ?_⟩
    rw [hreads, if_neg (by decide)] at hreceived
    rw [hpending, hreceived, htags]
    decide +kernel
  · have hseen : (rawRun 3).map (fun r => (reads r.1, r.1.getLast?.map Turn.answer)) =
        some (rawReads, some (rawReads.drop 2)) := by decide +kernel
    obtain ⟨raw, ts, b, hnew, hrun, hlook⟩ :=
      rawRun_runs (fun ts => (reads ts, ts.getLast?.map Turn.answer)) hseen
    obtain ⟨hreads, hlast⟩ := Prod.mk.inj hlook
    obtain ⟨t, ht, hanswer⟩ := Option.map_eq_some_iff.mp hlast
    obtain ⟨pre, rfl⟩ := List.getLast?_eq_some_iff.mp ht
    obtain ⟨hpending, hreceived, hcompletes⟩ := raw_waits_for_tags hnew hrun
    rw [hreads, if_neg (by decide)] at hreceived
    rw [hreceived, htags] at hpending
    refine ⟨raw, pre, t, b, hrun, hreads, (hcompletes pre t rfl _).mpr ⟨?_, ?_, ?_, ?_⟩⟩
    · rw [hanswer]
      decide
    · rw [hpending]
      decide +kernel
    · have hposition := (waiting_of_runs hrun).position.resolve_left fun hx => by
        rw [hreads] at hx
        exact absurd hx.1 (by decide)
      rw [hposition.2.2]
      exact LawfulFragmentizer.messages_drained _
    · rw [hreceived]
      have hbytes : (messages (enqueueBytes (.empty : PlainFragmentizer) rawReads.flatten)).flatMap
          ServerMessage.bytes = rawReads.flatten := by decide +kernel
      rw [hbytes]

end Concrete
end IoImap
