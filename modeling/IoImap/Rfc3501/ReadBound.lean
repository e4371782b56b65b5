import IoImap.Rfc3501.LineScanners
import IoImap.Rfc3501.ReadAhead

/-!
# What the streaming coroutines buffer

A read is asked for only once the buffer was searched to its end, so that it holds the
beginning of one line. On top of that come the octets of the read, and what a resume
leaves is a part of both.
-/

namespace IoImap
open Fragmentizer Incremental StreamsBodies Transition

/-! ### The reads of a run -/

section Reads

variable {S F Env Y R : Type}

/-- What the caller read, when a read was asked for. -/
def Turn.octetsRead (t : Turn S F Env Y R) : Option Bytes := if t.due = .read then t.arg else none

def readsOf (es : List (Turn S F Env Y R)) : List Bytes := es.filterMap Turn.octetsRead

/-- The octets buffered in a turn once it has been given those read. -/
def Turn.held (buffer : S → Bytes) (t : Turn S F Env Y R) : Nat :=
  (buffer t.before).length + (t.octetsRead.getD []).length

/-- At most `max` octets and those of the last read. -/
def WithinRead (max : Nat) (reads : List Bytes) (len : Nat) : Prop :=
  len ≤ max + (reads.getLastD []).length

/-- What is buffered, in every turn of a run and behind it, is within bounds that depend
on the reads up to then. -/
structure Buffered (buffer : S → Bytes) (within : List Bytes → Nat → Prop)
    (es : List (Turn S F Env Y R)) (a : Config S F) : Prop where
  left : within (readsOf es) (buffer a.state).length
  held : Always (fun pre t => within (readsOf (pre ++ [t])) (t.held buffer)) es

theorem readsOf_concat (es : List (Turn S F Env Y R)) (t : Turn S F Env Y R) :
    readsOf (es ++ [t]) = readsOf es ++ t.octetsRead.toList := by
  rw [readsOf, List.filterMap_append]
  cases h : t.octetsRead <;> simp [readsOf, h]

theorem readsOf_given (es : List (Turn S F Env Y R)) :
    readsOf es = (es.map Turn.given).filterMap fun g => if g.2.1 = .read then g.2.2 else none := by
  rw [readsOf, List.filterMap_map]
  rfl

theorem octetsRead_read {t : Turn S F Env Y R} (hdue : t.due = .read)
    (hans : t.due.answeredBy t.arg = true) : ∃ bytes, t.octetsRead = some bytes := by
  rw [Turn.octetsRead, if_pos hdue]
  rw [hdue] at hans
  exact Option.isSome_iff_exists.mp hans

theorem octetsRead_answer {t : Turn S F Env Y R} (hans : t.due.answeredBy t.arg = true) :
    (t.due.octets t.arg).flatten = t.octetsRead.getD [] := by
  unfold Turn.octetsRead
  split
  · rename_i hdue
    rw [hdue] at hans ⊢
    obtain ⟨bytes, harg⟩ := Option.isSome_iff_exists.mp hans
    rw [harg]
    cases bytes <;> simp [Request.octets]
  · rename_i hdue
    rw [Request.octets_of_ne hdue]
    rfl

/-- A turn that is given a read only when there is room for it. -/
theorem Turn.held_within {buffer : S → Bytes} {max : Nat} {es : List (Turn S F Env Y R)}
    {t : Turn S F Env Y R} (hans : t.due.answeredBy t.arg = true)
    (hroom : t.due = .read → (buffer t.before).length ≤ max)
    (hwithin : WithinRead max (readsOf es) (buffer t.before).length) :
    WithinRead max (readsOf (es ++ [t])) (t.held buffer) := by
  rw [WithinRead, held, readsOf_concat]
  by_cases hdue : t.due = .read
  · obtain ⟨bytes, hread⟩ := octetsRead_read hdue hans
    have hle := hroom hdue
    simp only [hread, Option.getD_some, Option.toList_some, List.getLastD_concat]
    omega
  · have hread : t.octetsRead = none := if_neg hdue
    rw [hread, Option.toList_none, List.append_nil]
    exact hwithin

end Reads

/-! ### One resume -/

namespace BodyStream

/-- What a resume leaves of `held` octets. -/
structure Leaves (held : Nat) (s : BodyStream) : Prop where
  scanned : s.Scanned
  length_le : s.pending.length ≤ held

theorem Leaves.mono {s : BodyStream} {held held' : Nat} (h : s.Leaves held) (hle : held ≤ held') :
    s.Leaves held' :=
  ⟨h.scanned, Nat.le_trans h.length_le hle⟩

variable {F : Type} [Fragmentizer F] {s : BodyStream}

theorem nextLine_leaves (h : s.Scanned) : s.nextLine.2.Leaves s.pending.length :=
  have hnext := nextLine_next h
  ⟨hnext.2, hnext.1.length_le⟩

theorem nextLine_room {s' : BodyStream} (h : s.Scanned) (hn : s.nextLine = (.ok none, s')) :
    s'.pending.length ≤ MAX_LINE_LEN := by
  obtain ⟨hnext, -⟩ := nextLine_next h
  rw [hn] at hnext
  exact hnext.length_le_max

theorem readLines_leaves (h : s.Scanned) (f : F) :
    (s.readLines f).2.1.Leaves s.pending.length ∧
      ((s.readLines f).1 = .wantsRead → (s.readLines f).2.1.pending.length ≤ MAX_LINE_LEN) := by
  fun_induction readLines s f with
  | case1 s f err s' hn =>
    have hleaves := nextLine_leaves h
    rw [hn] at hleaves
    exact ⟨hleaves, fun ho => LinesOutcome.noConfusion ho⟩
  | case2 s f s' hn =>
    have hleaves := nextLine_leaves h
    rw [hn] at hleaves
    exact ⟨hleaves, fun _ => nextLine_room h hn⟩
  | case3 s f line s' hn a f' hp =>
    have hleaves := nextLine_leaves h
    rw [hn] at hleaves
    exact ⟨hleaves, fun ho => LinesOutcome.noConfusion ho⟩
  | case4 s f line s' hn f' hp result hd =>
    have hleaves := nextLine_leaves h
    rw [hn] at hleaves
    exact ⟨hleaves, fun ho => LinesOutcome.noConfusion ho⟩
  | case5 s f line s' hn f' hp hd ih =>
    have hleaves := nextLine_leaves h
    rw [hn] at hleaves
    obtain ⟨hrest, hroom⟩ := ih hleaves.scanned
    exact ⟨hrest.mono hleaves.length_le, hroom⟩
  | case6 s f line s' hn i f' hliteral hplain hp ih =>
    have hleaves := nextLine_leaves h
    rw [hn] at hleaves
    obtain ⟨hrest, hroom⟩ := ih hleaves.scanned
    exact ⟨hrest.mono hleaves.length_le, hroom⟩

theorem parseLines_leaves (h : s.Scanned) (f : F) {due : Request} {arg : Option Bytes}
    (hdue : ReadsLines due) (hans : due.answeredBy arg = true) :
    (s.parseLines f arg).2.1.Leaves (s.pending.length + (due.octets arg).flatten.length) ∧
      ((s.parseLines f arg).1 = .wantsRead →
        (s.parseLines f arg).2.1.pending.length ≤ MAX_LINE_LEN) := by
  rcases hdue with rfl | rfl
  · obtain rfl := Request.answeredBy_nothing.mp hans
    exact readLines_leaves h f
  · obtain ⟨bytes, rfl⟩ := Option.isSome_iff_exists.mp hans
    cases bytes with
    | nil => exact ⟨⟨h, Nat.le_refl _⟩, fun ho => LinesOutcome.noConfusion ho⟩
    | cons b bs =>
      have hlines := readLines_leaves (h.extend (b :: bs)) f
      rw [List.length_append] at hlines
      rw [Request.octets_read (List.cons_ne_nil b bs), List.flatten_singleton]
      exact hlines

theorem streamBody_leaves {due : Request} {arg : Option Bytes} (h : s.Inside due)
    (hans : due.answeredBy arg = true) :
    (s.streamBody arg).2.1.Leaves s.pending.length ∧
      ((s.streamBody arg).1 = .finished → (s.streamBody arg).2.2 = none) := by
  have hscanned : s.scanned = 0 := by cases h <;> assumption
  unfold streamBody
  split
  · rename_i hrem
    refine ⟨⟨scanned_zero hscanned, Nat.le_refl _⟩, fun _ => ?_⟩
    cases h with
    | goesOn => exact Request.answeredBy_nothing.mp hans
    | copies _ _ _ hpos => omega
  · split
    · refine ⟨⟨scanned_zero hscanned, ?_⟩, fun ho => StreamOutcome.noConfusion ho⟩
      simp only [List.length_drop]
      omega
    · split
      · simp only
        split
        · exact ⟨⟨scanned_zero hscanned, Nat.le_refl _⟩, fun ho => StreamOutcome.noConfusion ho⟩
        · exact ⟨⟨scanned_zero hscanned, Nat.le_refl _⟩, fun _ => rfl⟩
      · exact ⟨⟨scanned_zero hscanned, Nat.le_refl _⟩, fun ho => StreamOutcome.noConfusion ho⟩

theorem sendCommand_leaves [TryFrom Bytes Tag] [Encoder Command] (h : s.Scanned)
    (body : CommandBody) (arg : Option Bytes) :
    (s.sendCommand body arg).2.Leaves s.pending.length := by
  unfold sendCommand
  split
  · split
    · exact ⟨h, Nat.le_refl _⟩
    · exact ⟨h, Nat.le_refl _⟩
  · split
    · exact ⟨h, Nat.le_refl _⟩
    · exact ⟨⟨h.le, h.noLine⟩, Nat.le_refl _⟩

end BodyStream

namespace StreamsBodies

variable {S Y R F : Type} [StreamsBodies S]

/-- What a resume that was to leave of `held` octets has come to: a read is asked for
only when there is room for it. -/
structure Buffers (request : Y → Request) (held : Nat) (r : CoroutineState Y R × S × F) : Prop where
  leaves : (stream r.2.1).Leaves held
  room : ∀ y, r.1 = .yielded y → request y = .read → (stream r.2.1).pending.length ≤ MAX_LINE_LEN

theorem buffers_complete {request : Y → Request} {held : Nat} {result : R} {s : S} {f : F}
    (h : (stream s).Leaves held) : Buffers request held (.complete result, s, f) := by
  refine ⟨h, fun y ho => ?_⟩
  cases ho

theorem buffers_yielded {request : Y → Request} {held : Nat} {y : Y} {s : S} {f : F}
    (h : (stream s).Leaves held) (hy : request y ≠ .read) :
    Buffers (R := R) request held (.yielded y, s, f) := by
  refine ⟨h, fun y' ho hread => ?_⟩
  obtain rfl := CoroutineState.yielded.inj ho
  exact absurd hread hy

end StreamsBodies

structure BodyBuffering {S Y R : Type} [StreamsBodies S] (c : Coroutine S Unit Y R) : Prop where
  buffers : ∀ {F : Type} [Fragmentizer F] {s : S} {due : Request} {arg : Option Bytes} (f : F),
    Awaits s due → due.answeredBy arg = true →
    Buffers c.request ((stream s).pending.length + (due.octets arg).flatten.length)
      (c.resume s f arg ())

namespace ImapMessageFetchStream

variable {F : Type} [Fragmentizer F] {s : BodyStream} {f : F} {due : Request} {arg : Option Bytes}

abbrev Keeps (held : Nat) : ImapMessageFetchStreamResult × ImapMessageFetchStream × F → Prop :=
  Buffers ImapMessageFetchStreamYield.request held

theorem trailer_keeps (h : s.Scanned) (hdue : BodyStream.ReadsLines due)
    (hans : due.answeredBy arg = true) :
    Keeps (s.pending.length + (due.octets arg).flatten.length) (resumeTrailer s f arg) := by
  obtain ⟨hleaves, hroom⟩ := BodyStream.parseLines_leaves h f hdue hans
  unfold resumeTrailer
  generalize s.parseLines f arg = r at hleaves hroom ⊢
  obtain ⟨o, s', f'⟩ := r
  cases o with
  | wantsRead => exact ⟨hleaves, fun _ _ _ => hroom rfl⟩
  | announced line a => exact buffers_complete hleaves
  | complete result => exact buffers_complete hleaves

theorem stream_keeps (h : s.Inside due) (hans : due.answeredBy arg = true) :
    Keeps s.pending.length (resumeStream s f arg) := by
  obtain ⟨hleaves, hfinished⟩ := BodyStream.streamBody_leaves h hans
  unfold resumeStream
  generalize s.streamBody arg = r at hleaves hfinished ⊢
  obtain ⟨o, s', arg'⟩ := r
  cases o with
  | finished =>
    obtain rfl : arg' = none := hfinished rfl
    have hkeeps : Keeps (s'.pending.length + (Request.octets .nothing none).flatten.length)
        (resumeTrailer s' (skipMessage f) none) := trailer_keeps hleaves.scanned (.inl rfl) rfl
    obtain ⟨hrest, hroom⟩ := hkeeps
    exact ⟨hrest.mono hleaves.length_le, hroom⟩
  | chunk bytes => exact buffers_yielded hleaves (by simp [ImapMessageFetchStreamYield.request])
  | wants len => exact buffers_yielded hleaves (by simp [ImapMessageFetchStreamYield.request])
  | short => exact buffers_complete hleaves

theorem header_keeps (h : s.Between) (hdue : BodyStream.ReadsLines due)
    (hans : due.answeredBy arg = true) :
    Keeps (s.pending.length + (due.octets arg).flatten.length) (resumeHeader s f arg) := by
  obtain ⟨hleaves, hroom⟩ := BodyStream.parseLines_leaves h.scanned f hdue hans
  obtain ⟨taken, htaken⟩ := due.exists_takes arg
  have hspec := BodyStream.parseLines_spec h f hdue hans htaken
  unfold resumeHeader
  generalize s.parseLines f arg = r at hleaves hroom hspec ⊢
  obtain ⟨o, s', f'⟩ := r
  cases o with
  | wantsRead => exact ⟨hleaves, fun _ _ _ => hroom rfl⟩
  | announced line a =>
    have hinside : BodyStream.Inside { s' with remaining := a.length } .nothing :=
      .goesOn hspec.1 hspec.2.1
    have hkeeps : Keeps s'.pending.length (resumeStream { s' with remaining := a.length } f' none) :=
      stream_keeps hinside rfl
    obtain ⟨hrest, hroom'⟩ := hkeeps
    exact ⟨hrest.mono hleaves.length_le, hroom'⟩
  | complete result => exact buffers_complete hleaves

omit [Fragmentizer F] in
theorem send_keeps [TryFrom Bytes Tag] [Encoder Command] (body : CommandBody) (h : s.Scanned) :
    Keeps s.pending.length (resumeSend s body f arg) := by
  have hleaves := BodyStream.sendCommand_leaves h body arg
  unfold resumeSend
  generalize s.sendCommand body arg = r at hleaves ⊢
  obtain ⟨o, s'⟩ := r
  cases o with
  | wantsTag => exact buffers_yielded hleaves (by simp [ImapMessageFetchStreamYield.request])
  | wantsWrite bytes => exact buffers_yielded hleaves (by simp [ImapMessageFetchStreamYield.request])
  | fails err => exact buffers_complete hleaves

theorem bodyBuffering [TryFrom Bytes Tag] [Encoder Command] :
    BodyBuffering imapMessageFetchStream where
  buffers {_ _ s due arg} f h hans := by
    obtain ⟨s, state⟩ := s
    cases state with
    | sendCommand body =>
      have hleaves : Keeps s.pending.length (resumeSend s body f arg) := send_keeps body h.1.scanned
      have hdue : due ≠ .read := by rcases h.2 with rfl | rfl <;> simp
      rw [Request.octets_of_ne hdue]
      exact hleaves
    | header => exact header_keeps h.1 h.2 hans
    | stream =>
      obtain ⟨hleaves, hroom⟩ := stream_keeps (f := f) h hans
      exact ⟨hleaves.mono (Nat.le_add_right _ _), hroom⟩
    | trailer => exact trailer_keeps h.1.scanned h.2 hans

end ImapMessageFetchStream

namespace ImapMessageFetchStreamBatch

variable {F : Type} [Fragmentizer F] {b : ImapMessageFetchStreamBatch} {f : F} {due : Request}
  {arg : Option Bytes}

abbrev Keeps (held : Nat) : ImapMessageFetchStreamBatchResult × ImapMessageFetchStreamBatch × F → Prop :=
  Buffers ImapMessageFetchStreamBatchYield.request held

omit [Fragmentizer F] in
theorem startMessage_keeps {s : BodyStream} {held : Nat} {line : Bytes} {a : LiteralAnnouncement}
    (h : s.Leaves held) :
    Keeps held ((b.startMessage s line a).1, (b.startMessage s line a).2, f) := by
  unfold startMessage
  split
  · exact buffers_complete h
  · split
    · exact buffers_complete h
    · exact buffers_yielded ⟨⟨h.scanned.le, h.scanned.noLine⟩, h.length_le⟩
        (by simp [ImapMessageFetchStreamBatchYield.request])

theorem nextItem_keeps (h : b.Scanned) (hdue : BodyStream.ReadsLines due)
    (hans : due.answeredBy arg = true) :
    Keeps (b.pending.length + (due.octets arg).flatten.length) (b.resumeNextItem f arg) := by
  obtain ⟨hleaves, hroom⟩ := BodyStream.parseLines_leaves h f hdue hans
  unfold resumeNextItem
  generalize b.parseLines f arg = r at hleaves hroom ⊢
  obtain ⟨o, s', f'⟩ := r
  cases o with
  | wantsRead => exact ⟨hleaves, fun _ _ _ => hroom rfl⟩
  | announced line a => exact startMessage_keeps hleaves
  | complete result => exact buffers_complete hleaves

theorem stream_keeps (h : b.Inside due) (hans : due.answeredBy arg = true) :
    Keeps b.pending.length (b.resumeStream f arg) := by
  obtain ⟨hleaves, -⟩ := BodyStream.streamBody_leaves h hans
  unfold resumeStream
  generalize b.streamBody arg = r at hleaves ⊢
  obtain ⟨o, s', arg'⟩ := r
  cases o with
  | finished => exact buffers_yielded hleaves (by simp [ImapMessageFetchStreamBatchYield.request])
  | chunk bytes => exact buffers_yielded hleaves (by simp [ImapMessageFetchStreamBatchYield.request])
  | wants len => exact buffers_yielded hleaves (by simp [ImapMessageFetchStreamBatchYield.request])
  | short => exact buffers_complete hleaves

omit [Fragmentizer F] in
theorem send_keeps [TryFrom Bytes Tag] [Encoder Command] (body : CommandBody) (h : b.Scanned) :
    Keeps b.pending.length (b.resumeSend body f arg) := by
  have hleaves := BodyStream.sendCommand_leaves h body arg
  unfold resumeSend
  generalize b.sendCommand body arg = r at hleaves ⊢
  obtain ⟨o, s'⟩ := r
  cases o with
  | wantsTag => exact buffers_yielded hleaves (by simp [ImapMessageFetchStreamBatchYield.request])
  | wantsWrite bytes =>
    exact buffers_yielded hleaves (by simp [ImapMessageFetchStreamBatchYield.request])
  | fails err => exact buffers_complete hleaves

theorem bodyBuffering [TryFrom Bytes Tag] [Encoder Command] :
    BodyBuffering imapMessageFetchStreamBatch where
  buffers {_ _ b due arg} f h hans := by
    obtain ⟨s, state, maxLiteralLen, sizes⟩ := b
    cases state with
    | sendCommand body =>
      have hleaves : Keeps s.pending.length
          (resumeSend ⟨s, .sendCommand body, maxLiteralLen, sizes⟩ body f arg) :=
        send_keeps body h.1.scanned
      have hdue : due ≠ .read := by rcases h.2 with rfl | rfl <;> simp
      rw [Request.octets_of_ne hdue]
      exact hleaves
    | nextItem => exact nextItem_keeps h.1.scanned h.2 hans
    | stream =>
      obtain ⟨hleaves, hroom⟩ := stream_keeps
        (b := ⟨s, .stream, maxLiteralLen, sizes⟩) (f := f) h hans
      exact ⟨hleaves.mono (Nat.le_add_right _ _), hroom⟩

end ImapMessageFetchStreamBatch

/-! ### Every run -/

section Runs

variable {S Y E F : Type} [StreamsBodies S] [Fragmentizer F]
  {c : Coroutine S Unit Y (Except E Unit)} {byTagged : Except E Unit → Bool}

/-- The buffer after a run: a read is asked for only when there is room for it. -/
structure BodyStream.Bounded (es : List (Turn S F Unit Y (Except E Unit))) (a : Config S F) : Prop where
  scanned : (stream a.state).Scanned
  room : a.due = some .read → (stream a.state).pending.length ≤ MAX_LINE_LEN
  buffered : Buffered (fun s => (stream s).pending) (WithinRead MAX_LINE_LEN) es a

theorem BodyBuffering.step (hb : BodyBuffering c) (hc : BodyStreaming c byTagged)
    {es : List (Turn S F Unit Y (Except E Unit))} {a b : Config S F}
    {t : Turn S F Unit Y (Except E Unit)} (ha : BodyStream.Bounded es a)
    (hawaits : ∀ due, a.due = some due → Awaits a.state due) (h : c.Step a t b) :
    BodyStream.Bounded (es ++ [t]) b := by
  obtain ⟨due, arg, ⟨⟩, hdue, hans, rfl, rfl⟩ := h
  have hbuffers := hb.buffers a.frag (hawaits due hdue) hans
  rw [hc.turn_eq a due arg] at hbuffers
  obtain ⟨hleaves, hroom⟩ := hbuffers
  have hheld : WithinRead MAX_LINE_LEN (readsOf (es ++ [c.turn a due arg ()]))
      ((c.turn a due arg ()).held fun s => (stream s).pending) :=
    Turn.held_within hans (fun hread => ha.room (hread ▸ hdue)) ha.buffered.left
  have hoctets : (due.octets arg).flatten = (c.turn a due arg ()).octetsRead.getD [] :=
    octetsRead_answer (t := c.turn a due arg ()) hans
  rw [hoctets] at hleaves
  refine ⟨hleaves.scanned, fun hread => ?_, Nat.le_trans hleaves.length_le hheld,
    always_concat.mpr ⟨ha.buffered.held, hheld⟩⟩
  obtain ⟨y, hy, hrequest⟩ := Coroutine.finish_due hread
  exact hroom y hy hrequest

/-- However the replies are cut into reads, and whether or not the run has come to its end. -/
theorem BodyBuffering.bounded (hb : BodyBuffering c) (hc : BodyStreaming c byTagged) {s : S} {f : F}
    {es : List (Turn S F Unit Y (Except E Unit))} {a : Config S F} (hphase : phase s = .command)
    (hstream : stream s = .new) (h : c.Runs s f es a) : BodyStream.Bounded es a := by
  have hposition : position s f = ⟨f, [], none⟩ := by
    rw [position, hstream, hphase]
    rfl
  have key : c.Runs s f es a ∧ BodyStream.Bounded es a := by
    refine Run.history (P := fun es a => c.Runs s f es a ∧ BodyStream.Bounded es a) ?_ ?_ h
    · have hempty : (stream (Coroutine.start s f).state).pending = [] := by
        rw [Coroutine.start, hstream]
        rfl
      refine ⟨.nil, ?_, ?_, ?_, always_nil⟩
      · exact BodyStream.scanned_zero (congrArg BodyStream.scanned hstream)
      · intro _
        rw [hempty]
        exact Nat.zero_le _
      · rw [hempty]
        exact Nat.zero_le _
    · intro es a t b hx hstep
      obtain ⟨hrun, ha⟩ := hx
      have hinside := hc.insideReply (awaits_new hphase hstream) hposition hrun
      exact ⟨.snoc hrun hstep, hb.step hc ha (fun due hdue => (hinside due hdue).1) hstep⟩
  exact key.2

end Runs
end IoImap
