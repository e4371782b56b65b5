import IoImap.Rfc3501.ReadAhead
import Mathlib.Algebra.Ring.Nat

/-!
# Framing of the batched stream

The batched FETCH yields whole messages between its reads, each as long as the
literal that was announced for it, and every octet it takes off the wire is
consumed once: in a line, in a chunk, or by the caller's copy. The lines consumed
are those the fragmentizer is fed.
-/

namespace IoImap
open Fragmentizer StreamsBodies

section Lines

variable {F : Type} [Fragmentizer F]

def Logged.fed (l : Logged F) : List Bytes := l.log.filterMap FragmentizerEvent.bytes?

theorem Logged.fed_line {l l' : Logged F} {line : Bytes} {i : Option FragmentInfo}
    (h : progress (enqueueBytes l line) = (i, l')) : l'.fed = l.fed ++ [line] := by
  have hl' : l' = (Logged.progress ⟨enqueueBytes l.frag line, l.log ++ [.fed line]⟩).2 :=
    (congrArg Prod.snd h).symm
  rw [hl']
  unfold Logged.progress Logged.fed
  rcases Fragmentizer.progress (enqueueBytes l.frag line) with ⟨- | (a | -), f'⟩
  · simp [FragmentizerEvent.bytes?]
  · dsimp only
    split <;> simp [FragmentizerEvent.bytes?]
  · simp [FragmentizerEvent.bytes?]

theorem Logged.progress_line {l l' : Logged F} {line : Bytes} {i : Option FragmentInfo}
    (h : Fragmentizer.progress (enqueueBytes l line) = (i, l')) :
    Fragmentizer.progress (enqueueBytes l.frag line) = (i, l'.frag) := by
  have hfrag := Logged.progress_frag (enqueueBytes l line)
  rw [h] at hfrag
  exact hfrag

def feedLine (f : F) (line : Bytes) : F := (progress (enqueueBytes f line)).2

/-- What the last of the lines announces to a fragmentizer fed with all of them. -/
def lastAnnouncement (f : F) : List Bytes → Option LiteralAnnouncement
  | [] => none
  | [line] =>
    match (progress (enqueueBytes f line)).1 with
    | some (.line announcement) => announcement
    | _ => none
  | line :: next :: lines => lastAnnouncement (feedLine f line) (next :: lines)

theorem lastAnnouncement_cons {f : F} {line : Bytes} {lines : List Bytes} (h : lines ≠ []) :
    lastAnnouncement f (line :: lines) = lastAnnouncement (feedLine f line) lines := by
  obtain ⟨next, rest, rfl⟩ := List.exists_cons_of_ne_nil h
  rw [lastAnnouncement]

/-- The lines that a reading loop took off the pending octets and fed. -/
structure Feeds (s : BodyStream) (l : Logged F) (lines : List Bytes)
    (r : LinesOutcome × BodyStream × Logged F) : Prop where
  fed : r.2.2.fed = l.fed ++ lines
  pending : lines.flatten ++ r.2.1.pending = s.pending
  announced : ∀ line a, r.1 = .announced line a → lastAnnouncement l.frag lines = some a

namespace BodyStream

theorem nextLine_pending {s s' : BodyStream} {r : Except BodyStreamError (Option Bytes)}
    (h : s.nextLine = (r, s')) :
    s.pending = (match r with | .ok (some line) => line | _ => []) ++ s'.pending := by
  unfold nextLine at h
  split at h
  · simp only at h
    split at h
    all_goals
      obtain ⟨rfl, rfl⟩ := Prod.mk.inj h
      rfl
  · simp only at h
    split at h
    all_goals
      obtain ⟨rfl, rfl⟩ := Prod.mk.inj h
      simp

theorem feeds_nil {s s' : BodyStream} {l : Logged F} {r : Except BodyStreamError (Option Bytes)}
    {o : LinesOutcome} (h : s.nextLine = (r, s')) (hr : ∀ line, r ≠ .ok (some line))
    (ho : ∀ line a, o ≠ .announced line a) : Feeds s l [] (o, s', l) := by
  refine ⟨by simp, ?_, fun line a he => absurd he (ho line a)⟩
  rw [nextLine_pending h]
  rcases r with err | - | line
  · rfl
  · rfl
  · exact absurd rfl (hr line)

theorem feeds_line {s s' : BodyStream} {l l' : Logged F} {line : Bytes} {i : Option FragmentInfo}
    {o : LinesOutcome} (h : s.nextLine = (.ok (some line), s'))
    (hp : progress (enqueueBytes l line) = (i, l'))
    (ho : ∀ x a, o = .announced x a → i = some (.line (some a))) :
    Feeds s l [line] (o, s', l') := by
  refine ⟨Logged.fed_line hp, by simpa using (nextLine_pending h).symm, ?_⟩
  intro x a he
  rw [lastAnnouncement, Logged.progress_line hp, ho x a he]

theorem feeds_cons {s s' : BodyStream} {l l' : Logged F} {line : Bytes} {i : Option FragmentInfo}
    {lines : List Bytes} {r : LinesOutcome × BodyStream × Logged F}
    (h : s.nextLine = (.ok (some line), s')) (hp : progress (enqueueBytes l line) = (i, l'))
    (ih : Feeds s' l' lines r) : Feeds s l (line :: lines) r := by
  refine ⟨?_, ?_, ?_⟩
  · rw [ih.fed, Logged.fed_line hp, List.append_assoc]
    rfl
  · rw [List.flatten_cons, List.append_assoc, ih.pending]
    exact (nextLine_pending h).symm
  · intro x a he
    have ha := ih.announced x a he
    have hne : lines ≠ [] := by
      intro hnil
      simp [hnil, lastAnnouncement] at ha
    rw [lastAnnouncement_cons hne, feedLine, Logged.progress_line hp]
    exact ha

theorem readLines_feeds (s : BodyStream) (l : Logged F) :
    ∃ lines, Feeds s l lines (s.readLines l) := by
  fun_induction readLines s l with
  | case1 s l err s' hn => exact ⟨[], feeds_nil hn (by simp) (by simp)⟩
  | case2 s l s' hn => exact ⟨[], feeds_nil hn (by simp) (by simp)⟩
  | case3 s l line s' hn a l' hp =>
    refine ⟨[line], feeds_line hn hp ?_⟩
    intro x b he
    obtain ⟨-, rfl⟩ := LinesOutcome.announced.inj he
    rfl
  | case4 s l line s' hn l' hp result hd => exact ⟨[line], feeds_line hn hp (by simp)⟩
  | case5 s l line s' hn l' hp hd ih =>
    obtain ⟨lines, hlines⟩ := ih
    exact ⟨line :: lines, feeds_cons hn hp hlines⟩
  | case6 s l line s' hn i l' hliteral hplain hp ih =>
    obtain ⟨lines, hlines⟩ := ih
    exact ⟨line :: lines, feeds_cons hn hp hlines⟩

end BodyStream
end Lines

namespace ImapMessageFetchStreamBatch

variable {F : Type}

abbrev BatchTurn (F : Type) :=
  Turn ImapMessageFetchStreamBatch F Unit ImapMessageFetchStreamBatchYield
    (Except ImapMessageFetchStreamBatchError Unit)

/-! ### Octets accounted for -/

def chunk : ImapMessageFetchStreamBatchResult → Bytes
  | .yielded (.bodyChunk bytes) => bytes
  | _ => []

/-- What one resume consumes: the octets copied before it, its lines, its chunk. -/
def consumedBy (t : BatchTurn F) (taken : Bytes) : Bytes :=
  t.due.copied taken ++ t.fed.flatten ++ chunk t.out

def consumed (es : List (BatchTurn F)) (pieces : List Bytes) : Bytes :=
  (List.zipWith consumedBy es pieces).flatten

/-! ### The language of the yields -/

/-- What stands between two messages, or one of them: its UID, its chunks and the
length of its copy. -/
inductive Item where
  | read
  | message (uid : Nat) (chunks : List Bytes) (copy : Option Nat)

def bodyYields (chunks : List Bytes) (copy : Option Nat) : List ImapMessageFetchStreamBatchYield :=
  chunks.map .bodyChunk ++ copy.toList.map .wantsStream

def bodyLength (chunks : List Bytes) (copy : Option Nat) : Nat :=
  (chunks.map List.length).sum + copy.getD 0

def Item.yields : Item → List ImapMessageFetchStreamBatchYield
  | .read => [.wantsRead]
  | .message uid chunks copy => .messageStart uid :: bodyYields chunks copy ++ [.messageEnd]

def Item.message? : Item → Option (Nat × Nat)
  | .read => none
  | .message uid chunks copy => some (uid, bodyLength chunks copy)

/-- The message that a run stands inside of, with the length announced for it. -/
structure Cut where
  uid : Nat
  chunks : List Bytes
  copy : Option Nat
  len : Nat
  le : bodyLength chunks copy ≤ len

def Cut.yields (cut : Cut) : List ImapMessageFetchStreamBatchYield :=
  .messageStart cut.uid :: bodyYields cut.chunks cut.copy

def yield? (t : BatchTurn F) : Option ImapMessageFetchStreamBatchYield :=
  match t.out with
  | .yielded y => some y
  | .complete _ => none

def yields (es : List (BatchTurn F)) : List ImapMessageFetchStreamBatchYield := es.filterMap yield?

variable [Fragmentizer F]

/-- The message a resume starts, with the length that its line announces. -/
def starts (t : BatchTurn F) : Option (Nat × Nat) :=
  match t.out with
  | .yielded (.messageStart uid) => (lastAnnouncement t.frag t.fed).map fun a => (uid, a.length)
  | _ => none

def announced (es : List (BatchTurn F)) : List (Nat × Nat) := es.filterMap starts

/-- Before the command is written. -/
def Opens (es : List (BatchTurn F)) : Prop := yields es <+: [.wantsTag] ∧ announced es = []

/-- Behind the command the yields are reads and whole messages, each as long as
announced, and the message `cut` that is not at its end. -/
def Shaped (es : List (BatchTurn F)) (cut : Option Cut) : Prop :=
  ∃ (command : Bytes) (items : List Item),
    yields es = .wantsTag :: .wantsWrite command :: items.flatMap Item.yields ++
      cut.toList.flatMap Cut.yields ∧
    announced es = items.filterMap Item.message? ++ cut.toList.map fun cut => (cut.uid, cut.len)

/-- A success cuts no message short. -/
def Framed (es : List (BatchTurn F)) : Prop :=
  Opens es ∨ ∃ cut, Shaped es cut ∧
    ∀ t, es.getLast? = some t → t.out = .complete (.ok ()) → cut = none

def Within (opts : ImapMessageFetchStreamBatchOptions) (message : Nat × Nat) : Prop :=
  message.2 ≤ opts.maxLiteralLen ∧ ∀ size, opts.sizes[message.1]? = some size → message.2 ≤ size

/-! ### One resume -/

section Resume

variable {b : ImapMessageFetchStreamBatch} {f : F} {due : Request} {arg : Option Bytes} {taken : Bytes}

theorem parseLines_feeds {s : BodyStream} (l : Logged F) (hdue : BodyStream.ReadsLines due)
    (hans : due.answeredBy arg = true) (htaken : due.Takes arg taken) :
    ∃ lines, Feeds { s with pending := s.pending ++ taken } l lines (s.parseLines l arg) := by
  rcases hdue with rfl | rfl
  · obtain rfl := Request.answeredBy_nothing.mp hans
    obtain rfl : taken = [] := htaken
    simpa [BodyStream.parseLines] using BodyStream.readLines_feeds s l
  · obtain ⟨bytes, rfl⟩ := Option.isSome_iff_exists.mp hans
    obtain rfl : taken = bytes := htaken
    cases taken with
    | nil =>
      exact ⟨[], by simp [BodyStream.parseLines], by simp [BodyStream.parseLines],
        by simp [BodyStream.parseLines]⟩
    | cons c cs => exact BodyStream.readLines_feeds _ l

theorem resumeNextItem_accounts (hdue : BodyStream.ReadsLines due)
    (hans : due.answeredBy arg = true) (htaken : due.Takes arg taken) :
    (b.resumeNextItem (⟨f, []⟩ : Logged F) arg).2.2.fed.flatten ++
        chunk (b.resumeNextItem (⟨f, []⟩ : Logged F) arg).1 ++
          (b.resumeNextItem (⟨f, []⟩ : Logged F) arg).2.1.pending = b.pending ++ taken := by
  obtain ⟨lines, hfeeds⟩ := parseLines_feeds (s := b.toBodyStream) (⟨f, []⟩ : Logged F) hdue hans htaken
  have hfed := hfeeds.fed
  have hpending := hfeeds.pending
  unfold resumeNextItem
  generalize b.parseLines (⟨f, []⟩ : Logged F) arg = r at hfed hpending ⊢
  obtain ⟨o, s, l⟩ := r
  have hl : l.fed = lines := by simpa [Logged.fed] using hfed
  cases o with
  | wantsRead => simpa [chunk, hl, goOn] using hpending
  | announced line a =>
    simp only [startMessage]
    split
    · simpa [chunk, hl, goOn] using hpending
    · split
      · simpa [chunk, hl, goOn] using hpending
      · simpa [chunk, hl, goOn] using hpending
  | complete result => simpa [chunk, complete, hl, goOn] using hpending

theorem resumeStream_accounts (h : b.Inside due) (hans : due.answeredBy arg = true)
    (htaken : due.Takes arg taken) (l : Logged F) :
    (b.resumeStream l arg).2.2.fed = l.fed ∧
      due.copied taken ++ chunk (b.resumeStream l arg).1 ++ (b.resumeStream l arg).2.1.pending =
        b.pending ++ taken := by
  unfold resumeStream BodyStream.streamBody
  cases h with
  | goesOn hscanned hstream =>
    obtain rfl : taken = [] := by
      obtain rfl := Request.answeredBy_nothing.mp hans
      exact htaken
    split_ifs <;> exact ⟨rfl, by simp [Request.copied, chunk, complete, goOn]⟩
  | copies hscanned hstream hpending hrem =>
    rw [if_neg (by omega), if_neg (by simp [hpending]), if_pos hstream]
    split_ifs
    · exact ⟨rfl, by simp [Request.copied, chunk, complete, goOn, hpending]⟩
    · exact ⟨rfl, by simp [Request.copied, chunk, goOn, hpending]⟩

omit [Fragmentizer F] in
theorem resumeSend_accounts [TryFrom Bytes Tag] [Encoder Command] (body : CommandBody)
    (l : Logged F) :
    (b.resumeSend body l arg).2.2 = l ∧ chunk (b.resumeSend body l arg).1 = [] ∧
      (b.resumeSend body l arg).2.1.pending = b.pending := by
  unfold resumeSend BodyStream.sendCommand
  cases arg with
  | none =>
    dsimp only
    split_ifs <;> exact ⟨rfl, rfl, rfl⟩
  | some bytes =>
    dsimp only
    cases TryFrom.tryFrom (β := Tag) bytes <;> exact ⟨rfl, rfl, rfl⟩

theorem resume_accounts [TryFrom Bytes Tag] [Encoder Command] (h : Awaits b due)
    (hans : due.answeredBy arg = true) (htaken : due.Takes arg taken) :
    due.copied taken ++ (b.resume (⟨f, []⟩ : Logged F) arg).2.2.fed.flatten ++
        chunk (b.resume (⟨f, []⟩ : Logged F) arg).1 ++
          (b.resume (⟨f, []⟩ : Logged F) arg).2.1.pending = b.pending ++ taken := by
  obtain ⟨s, state, maxLiteralLen, sizes⟩ := b
  cases state with
  | sendCommand body =>
    obtain ⟨hcopied, rfl⟩ : due.copied taken = [] ∧ taken = [] := by
      rcases h.2 with rfl | rfl <;> exact ⟨rfl, htaken⟩
    have hsend := @resumeSend_accounts F ⟨s, .sendCommand body, maxLiteralLen, sizes⟩ arg _ _ body ⟨f, []⟩
    obtain ⟨hl, hchunk, hpending⟩ := hsend
    simp only [resume, hl, hchunk, hpending, hcopied]
    simp [Logged.fed]
  | nextItem =>
    have hcopied : due.copied taken = [] := by rcases h.2 with rfl | rfl <;> rfl
    rw [hcopied, List.nil_append]
    exact resumeNextItem_accounts h.2 hans htaken
  | stream =>
    obtain ⟨hfed, hocts⟩ := resumeStream_accounts (b := ⟨s, .stream, maxLiteralLen, sizes⟩) h hans
      htaken (⟨f, []⟩ : Logged F)
    simp only [resume, hfed]
    simpa [Logged.fed] using hocts

end Resume

/-! ### Runs -/

section Runs

variable {es : List (BatchTurn F)} {t : BatchTurn F} {a b : Config ImapMessageFetchStreamBatch F}
  {due : Request} {cut : Option Cut}

omit [Fragmentizer F] in
theorem yields_concat : yields (es ++ [t]) = yields es ++ (yield? t).toList := by
  cases hy : yield? t <;> simp [yields, hy]

theorem announced_concat : announced (es ++ [t]) = announced es ++ (starts t).toList := by
  cases hs : starts t <;> simp [announced, hs]

/-- Where a run stands between two resumes. -/
def Stands (es : List (BatchTurn F)) (s : ImapMessageFetchStreamBatch) (due : Request) : Prop :=
  match s.state with
  | .sendCommand _ =>
    announced es = [] ∧ ((due = .nothing ∧ yields es = []) ∨ (due = .tag ∧ yields es = [.wantsTag]))
  | .nextItem => Shaped es none
  | .stream => ∃ cut, Shaped es (some cut) ∧
    (cut.chunks.map List.length).sum + s.remaining = cut.len ∧
    cut.copy = if s.streamPending then some s.remaining else none

theorem Stands.framed {s : ImapMessageFetchStreamBatch} (h : Stands es s due)
    (hlast : ∀ t, es.getLast? = some t → t.out ≠ .complete (.ok ())) : Framed es := by
  unfold Stands at h
  split at h
  · obtain ⟨hnone, ⟨-, hy⟩ | ⟨-, hy⟩⟩ := h
    · exact .inl ⟨by rw [hy]; exact List.nil_prefix, hnone⟩
    · exact .inl ⟨by simp only [hy, List.prefix_rfl], hnone⟩
  · exact .inr ⟨none, h, fun _ _ _ => rfl⟩
  · obtain ⟨cut, hshaped, -⟩ := h
    exact .inr ⟨some cut, hshaped, fun t ht hok => absurd hok (hlast t ht)⟩

theorem Stands.complete {s : ImapMessageFetchStreamBatch} (h : Stands es s due)
    {result : Except ImapMessageFetchStreamBatchError Unit} (ht : t.out = .complete result)
    (hok : s.state = .stream → result ≠ .ok ()) : Framed (es ++ [t]) := by
  have hy : yields (es ++ [t]) = yields es := by simp [yields_concat, yield?, ht]
  have ha : announced (es ++ [t]) = announced es := by simp [announced_concat, starts, ht]
  have hshaped : ∀ cut, Shaped es cut → Shaped (es ++ [t]) cut := by
    intro cut hcut
    unfold Shaped
    rw [hy, ha]
    exact hcut
  unfold Stands at h
  split at h
  · obtain ⟨hnone, ⟨-, hes⟩ | ⟨-, hes⟩⟩ := h
    · exact .inl ⟨by rw [hy, hes]; exact List.nil_prefix, ha.trans hnone⟩
    · exact .inl ⟨by simp only [hy, hes, List.prefix_rfl], ha.trans hnone⟩
  · exact .inr ⟨none, hshaped _ h, fun _ _ _ => rfl⟩
  · rename_i hstream
    obtain ⟨cut, hcut, -⟩ := h
    refine .inr ⟨some cut, hshaped _ hcut, ?_⟩
    intro u hu hout
    obtain rfl : t = u := by simpa using hu
    rw [ht] at hout
    exact absurd (CoroutineState.complete.inj hout) (hok hstream)

/-- What one resume from fragmentizer `f` does to where a run stands. -/
def Extends (es : List (BatchTurn F)) (f : F)
    (r : ImapMessageFetchStreamBatchResult × ImapMessageFetchStreamBatch × Logged F) : Prop :=
  ∀ t : BatchTurn F, t.out = r.1 → t.frag = f → t.fed = r.2.2.fed →
    match r.1 with
    | .yielded y => Stands (es ++ [t]) r.2.1 y.request
    | .complete _ => Framed (es ++ [t])

theorem Shaped.written (hy : yields es = [.wantsTag]) (ha : announced es = []) {bytes : Bytes}
    (ht : t.out = .yielded (.wantsWrite bytes)) : Shaped (es ++ [t]) none := by
  refine ⟨bytes, [], ?_, ?_⟩
  · simp [yields_concat, hy, yield?, ht]
  · simp [announced_concat, ha, starts, ht]

theorem Stands.send [TryFrom Bytes Tag] [Encoder Command] {s : ImapMessageFetchStreamBatch}
    {body : CommandBody} (h : Stands es s due) (hs : s.state = .sendCommand body) {arg : Option Bytes}
    (hans : due.answeredBy arg = true) (f : F) :
    Extends es f (s.resumeSend body (⟨f, []⟩ : Logged F) arg) := by
  have hstream : s.state = .stream → False := by simp [hs]
  obtain ⟨hnone, hdue⟩ : announced es = [] ∧ ((due = .nothing ∧ yields es = []) ∨
      (due = .tag ∧ yields es = [.wantsTag])) := by simpa only [Stands, hs] using h
  unfold resumeSend BodyStream.sendCommand
  rcases hdue with ⟨rfl, hes⟩ | ⟨rfl, hes⟩
  · obtain rfl := Request.answeredBy_nothing.mp hans
    dsimp only
    split_ifs
    · intro t ht _ _
      exact h.complete ht fun hx => (hstream hx).elim
    · intro t ht _ _
      refine ⟨?_, .inr ⟨rfl, ?_⟩⟩
      · simp [announced_concat, hnone, starts, ht]
      · simp [yields_concat, hes, yield?, ht]
  · obtain ⟨bytes, rfl⟩ := Option.isSome_iff_exists.mp hans
    dsimp only
    cases TryFrom.tryFrom (β := Tag) bytes with
    | error err =>
      intro t ht _ _
      exact h.complete ht fun hx => (hstream hx).elim
    | ok tag =>
      intro t ht _ _
      exact Shaped.written hes hnone ht

theorem Shaped.read (h : Shaped es none) (ht : t.out = .yielded .wantsRead) :
    Shaped (es ++ [t]) none := by
  obtain ⟨command, items, hy, ha⟩ := h
  refine ⟨command, items ++ [.read], ?_, ?_⟩
  · simp [yields_concat, hy, yield?, ht, Item.yields]
  · simp [announced_concat, ha, starts, ht, Item.message?]

theorem Shaped.start (h : Shaped es none) {uid len : Nat} (ht : t.out = .yielded (.messageStart uid))
    (hs : starts t = some (uid, len)) :
    ∃ cut : Cut, Shaped (es ++ [t]) (some cut) ∧ cut.chunks = [] ∧ cut.copy = none ∧ cut.len = len := by
  obtain ⟨command, items, hy, ha⟩ := h
  refine ⟨⟨uid, [], none, len, by simp [bodyLength]⟩, ⟨command, items, ?_, ?_⟩, rfl, rfl, rfl⟩
  · simp [yields_concat, hy, yield?, ht, Cut.yields, bodyYields]
  · simp [announced_concat, ha, hs]

theorem Shaped.chunk {cut : Cut} (h : Shaped es (some cut)) (hcopy : cut.copy = none)
    {bytes : Bytes} (ht : t.out = .yielded (.bodyChunk bytes))
    (hle : (cut.chunks.map List.length).sum + bytes.length ≤ cut.len) :
    Shaped (es ++ [t])
      (some ⟨cut.uid, cut.chunks ++ [bytes], none, cut.len, by simpa [bodyLength] using hle⟩) := by
  obtain ⟨command, items, hy, ha⟩ := h
  refine ⟨command, items, ?_, ?_⟩
  · simp [yields_concat, hy, yield?, ht, Cut.yields, bodyYields, hcopy]
  · simp [announced_concat, ha, starts, ht]

theorem Shaped.copy {cut : Cut} (h : Shaped es (some cut)) (hcopy : cut.copy = none) {len : Nat}
    (ht : t.out = .yielded (.wantsStream len))
    (hle : (cut.chunks.map List.length).sum + len ≤ cut.len) :
    Shaped (es ++ [t]) (some ⟨cut.uid, cut.chunks, some len, cut.len, hle⟩) := by
  obtain ⟨command, items, hy, ha⟩ := h
  refine ⟨command, items, ?_, ?_⟩
  · simp [yields_concat, hy, yield?, ht, Cut.yields, bodyYields, hcopy]
  · simp [announced_concat, ha, starts, ht]

theorem Shaped.finish {cut : Cut} (h : Shaped es (some cut)) (ht : t.out = .yielded .messageEnd)
    (hlen : bodyLength cut.chunks cut.copy = cut.len) : Shaped (es ++ [t]) none := by
  obtain ⟨command, items, hy, ha⟩ := h
  refine ⟨command, items ++ [.message cut.uid cut.chunks cut.copy], ?_, ?_⟩
  · simp [yields_concat, hy, yield?, ht, Cut.yields, Item.yields]
  · simp [announced_concat, ha, starts, ht, Item.message?, hlen]

theorem startMessage_cases (b : ImapMessageFetchStreamBatch) (s : BodyStream) (line : Bytes)
    (a : LiteralAnnouncement) :
    (∃ err, b.startMessage s line a = (.complete (.error err), b.goOn s .nextItem)) ∨
      ∃ uid, parseUid line = some uid ∧ a.length ≤ b.maxLen uid ∧ b.startMessage s line a =
        (.yielded (.messageStart uid), b.goOn { s with remaining := a.length } .stream) := by
  unfold startMessage
  cases hu : parseUid line with
  | none => exact .inl ⟨_, rfl⟩
  | some uid =>
    by_cases hlen : a.length > b.maxLen uid
    · exact .inl ⟨_, by simp [hlen]; rfl⟩
    · exact .inr ⟨uid, rfl, Nat.le_of_not_lt hlen, by simp [hlen]⟩

theorem Stands.nextItem {s : ImapMessageFetchStreamBatch} (h : Stands es s due)
    (hs : s.state = .nextItem) (hbetween : s.Between) (hdue : BodyStream.ReadsLines due)
    {arg : Option Bytes} (hans : due.answeredBy arg = true) (f : F) :
    Extends es f (s.resumeNextItem (⟨f, []⟩ : Logged F) arg) := by
  have hnotStream : s.state = .stream → False := by simp [hs]
  have hshaped : Shaped es none := by simpa only [Stands, hs] using h
  obtain ⟨taken, htaken⟩ := Request.exists_takes due arg
  obtain ⟨lines, hfeeds⟩ := parseLines_feeds (s := s.toBodyStream) (⟨f, []⟩ : Logged F) hdue hans htaken
  have hspec := BodyStream.parseLines_spec hbetween (⟨f, []⟩ : Logged F) hdue hans htaken
  unfold resumeNextItem
  generalize s.parseLines (⟨f, []⟩ : Logged F) arg = r at hfeeds hspec ⊢
  obtain ⟨o, s', l⟩ := r
  cases o with
  | wantsRead =>
    intro t ht _ _
    exact hshaped.read ht
  | announced line a =>
    dsimp only
    obtain ⟨err, he⟩ | ⟨uid, -, -, he⟩ := startMessage_cases s s' line a
    · rw [he]
      intro t ht _ _
      exact h.complete ht fun hx => (hnotStream hx).elim
    · rw [he]
      intro t ht hf hfed
      have hlines : t.fed = lines := hfed.trans (by simpa [Logged.fed] using hfeeds.fed)
      have hstarts : starts t = some (uid, a.length) := by
        simp only [starts, ht, hf, hlines, hfeeds.announced line a rfl, Option.map_some]
      obtain ⟨cut, hcut, hchunks, hcopy, hlen⟩ := hshaped.start ht hstarts
      exact ⟨cut, hcut, by simp [goOn, hchunks, hlen], by simp [goOn, hcopy, hspec.2.1]⟩
  | complete result =>
    intro t ht _ _
    exact h.complete ht fun hx => (hnotStream hx).elim

theorem Stands.stream {s : ImapMessageFetchStreamBatch} (h : Stands es s due)
    (hs : s.state = .stream) (hinside : s.Inside due) {arg : Option Bytes}
    (hans : due.answeredBy arg = true) (f : F) :
    Extends es f (s.resumeStream (⟨f, []⟩ : Logged F) arg) := by
  obtain ⟨cut, hcut, hsum, hcopy⟩ : ∃ cut, Shaped es (some cut) ∧
      (cut.chunks.map List.length).sum + s.remaining = cut.len ∧
      cut.copy = if s.streamPending then some s.remaining else none := by
    simpa only [Stands, hs] using h
  unfold resumeStream BodyStream.streamBody
  cases hinside with
  | goesOn hscanned hstream =>
    rw [hstream, if_neg Bool.false_ne_true] at hcopy
    by_cases hrem : s.remaining = 0
    · rw [if_pos hrem]
      intro t ht _ _
      exact hcut.finish ht (by simp only [bodyLength, hcopy, Option.getD_none]; omega)
    rw [if_neg hrem]
    by_cases hpending : s.pending ≠ []
    · rw [if_pos hpending]
      intro t ht _ _
      have hlen : (s.pending.take (min s.remaining s.pending.length)).length =
          min s.remaining s.pending.length := by simp
      refine ⟨_, hcut.chunk hcopy ht (by omega), ?_, by simp [goOn, hstream]⟩
      simp only [goOn, List.map_append, List.sum_append, List.map_cons, List.map_nil, hlen,
        List.sum_cons, List.sum_nil]
      omega
    · rw [if_neg hpending, if_neg (by simp [hstream])]
      intro t ht _ _
      exact ⟨_, hcut.copy hcopy ht (Nat.le_of_eq hsum), hsum, by simp [goOn]⟩
  | copies hscanned hstream hpending hrem =>
    rw [hstream, if_pos rfl] at hcopy
    rw [if_neg (by omega), if_neg (by simp [hpending]), if_pos hstream]
    by_cases hshort : arg = some []
    · rw [if_pos hshort]
      intro t ht _ _
      exact h.complete ht fun _ => by simp [Except.mapError]
    · rw [if_neg hshort]
      intro t ht _ _
      exact hcut.finish ht (by simp only [bodyLength, hcopy, Option.getD_some]; omega)

omit [Fragmentizer F] in
theorem startMessage_limits (s : ImapMessageFetchStreamBatch) (stream : BodyStream) (line : Bytes)
    (announcement : LiteralAnnouncement) :
    (s.startMessage stream line announcement).2.maxLiteralLen = s.maxLiteralLen ∧
      (s.startMessage stream line announcement).2.sizes = s.sizes := by
  obtain ⟨err, he⟩ | ⟨uid, -, -, he⟩ := startMessage_cases s stream line announcement
  · rw [he]
    exact ⟨rfl, rfl⟩
  · rw [he]
    exact ⟨rfl, rfl⟩

omit [Fragmentizer F] in
theorem within_of_le {opts : ImapMessageFetchStreamBatchOptions} {s : ImapMessageFetchStreamBatch}
    (hmax : s.maxLiteralLen = opts.maxLiteralLen) (hsizes : s.sizes = opts.sizes) {m : Nat × Nat}
    (h : m.2 ≤ s.maxLen m.1) : Within opts m := by
  unfold maxLen at h
  rw [hmax, hsizes] at h
  unfold Within
  cases hsize : opts.sizes[m.1]? with
  | none =>
    rw [hsize] at h
    exact ⟨h, by simp⟩
  | some size =>
    rw [hsize] at h
    refine ⟨Nat.le_trans h (Nat.min_le_right _ _), ?_⟩
    intro x hx
    obtain rfl := Option.some.inj hx
    exact Nat.le_trans h (Nat.min_le_left _ _)

variable [TryFrom Bytes Tag] [Encoder Command]

theorem Stands.resume {s : ImapMessageFetchStreamBatch} (h : Stands es s due) (hi : Awaits s due)
    {arg : Option Bytes} (hans : due.answeredBy arg = true) (f : F) :
    Extends es f (s.resume (⟨f, []⟩ : Logged F) arg) := by
  obtain ⟨s, state, maxLiteralLen, sizes⟩ := s
  cases state with
  | sendCommand body => exact h.send rfl hans f
  | nextItem => exact h.nextItem rfl hi.1 hi.2 hans f
  | stream => exact h.stream rfl hi hans f

theorem resume_limits (s : ImapMessageFetchStreamBatch) (l : Logged F) (arg : Option Bytes) :
    (s.resume l arg).2.1.maxLiteralLen = s.maxLiteralLen ∧ (s.resume l arg).2.1.sizes = s.sizes := by
  unfold resume
  cases s.state with
  | sendCommand body =>
    simp only [resumeSend]
    rcases s.sendCommand body arg with ⟨- | - | -, stream⟩ <;> exact ⟨rfl, rfl⟩
  | nextItem =>
    simp only [resumeNextItem]
    rcases s.parseLines l arg with ⟨- | ⟨line, announcement⟩ | -, stream, l'⟩
    · exact ⟨rfl, rfl⟩
    · exact startMessage_limits s stream line announcement
    · exact ⟨rfl, rfl⟩
  | stream =>
    simp only [resumeStream]
    rcases s.streamBody arg with ⟨- | - | - | -, stream, rest⟩ <;> exact ⟨rfl, rfl⟩

/-- The literals announced stay within the limits of their messages. -/
theorem starts_le {s : ImapMessageFetchStreamBatch} (hi : Awaits s due) {arg : Option Bytes}
    (hans : due.answeredBy arg = true) (ht : t.out = (s.resume (⟨t.frag, []⟩ : Logged F) arg).1)
    (hfed : t.fed = (s.resume (⟨t.frag, []⟩ : Logged F) arg).2.2.fed) {m : Nat × Nat}
    (hm : starts t = some m) : m.2 ≤ s.maxLen m.1 := by
  unfold resume at ht hfed
  cases hs : s.state with
  | sendCommand body =>
    simp only [hs, resumeSend] at ht
    generalize s.sendCommand body arg = r at ht
    rcases r with ⟨_ | _ | _, stream⟩ <;> simp [starts, ht, complete] at hm
  | nextItem =>
    simp only [hs, resumeNextItem] at ht hfed
    have hdue : BodyStream.ReadsLines due := by
      simp only [Awaits, phase, hs] at hi
      exact hi.2
    obtain ⟨taken, htaken⟩ := Request.exists_takes due arg
    obtain ⟨lines, hfeeds⟩ := parseLines_feeds (s := s.toBodyStream) (⟨t.frag, []⟩ : Logged F) hdue
      hans htaken
    generalize s.parseLines (⟨t.frag, []⟩ : Logged F) arg = r at hfeeds ht hfed
    obtain ⟨_ | ⟨line, a⟩ | _, stream, l⟩ := r
    · simp [starts, ht] at hm
    · have hlines : t.fed = lines := hfed.trans (by simpa [Logged.fed] using hfeeds.fed)
      have hannounced := hfeeds.announced line a rfl
      obtain ⟨err, he⟩ | ⟨uid, -, hle, he⟩ := startMessage_cases s stream line a
      · simp [starts, ht, he] at hm
      · simp only [starts, ht, he, hlines, hannounced, Option.map_some, Option.some.injEq] at hm
        rw [← hm]
        exact hle
    · simp [starts, ht, complete] at hm
  | stream =>
    simp only [hs, resumeStream] at ht
    generalize s.streamBody arg = r at ht
    rcases r with ⟨_ | _ | _ | _, stream, rest⟩ <;> simp [starts, ht, complete] at hm

/-- What holds along a run. -/
structure Accounted (opts : ImapMessageFetchStreamBatchOptions) (es : List (BatchTurn F))
    (a : Config ImapMessageFetchStreamBatch F) : Prop where
  framed : Framed es
  within : ∀ m ∈ announced es, Within opts m
  maxLiteralLen : a.state.maxLiteralLen = opts.maxLiteralLen
  sizes : a.state.sizes = opts.sizes
  stands : ∀ due, a.due = some due → Awaits a.state due ∧ Stands es a.state due
  octets : ∀ pieces, List.Forall₂ Turn.Takes es pieces →
    consumed es pieces ++ a.state.pending = pieces.flatten

omit [TryFrom Bytes Tag] [Encoder Command] in
theorem accounted_start (sequenceSet : SequenceSet) (opts : ImapMessageFetchStreamBatchOptions)
    (f : F) : Accounted opts [] (Coroutine.start (.new sequenceSet opts) f) where
  framed := .inl ⟨List.nil_prefix, rfl⟩
  within := by simp [announced]
  maxLiteralLen := rfl
  sizes := rfl
  stands := by
    intro due hdue
    obtain rfl := Option.some.inj hdue
    exact ⟨awaits_new rfl rfl, rfl, .inl ⟨rfl, rfl⟩⟩
  octets := by
    intro pieces hp
    cases hp
    rfl

theorem Accounted.step {opts : ImapMessageFetchStreamBatchOptions} (h : Accounted opts es a)
    (hstep : imapMessageFetchStreamBatch.Step a t b) : Accounted opts (es ++ [t]) b := by
  obtain ⟨-, -, -, hyields, hcomplete, hadv⟩ :=
    bodyStreaming.step hstep fun due hd => (h.stands due hd).1
  obtain ⟨due, arg, env, hdue, hans, ht, hb⟩ := hstep
  obtain ⟨hi, hstands⟩ := h.stands due hdue
  have hout : t.out = (a.state.resume (⟨a.frag, []⟩ : Logged F) arg).1 := by rw [ht]; rfl
  have hfed : t.fed = (a.state.resume (⟨a.frag, []⟩ : Logged F) arg).2.2.fed := by rw [ht]; rfl
  have hafter : b.state = (a.state.resume (⟨a.frag, []⟩ : Logged F) arg).2.1 := by rw [hb, ht]; rfl
  have hfrag : t.frag = a.frag := by rw [ht]; rfl
  have hextends := hstands.resume hi hans a.frag t hout hfrag hfed
  rw [← hout, ← hafter] at hextends
  have hlimits := resume_limits a.state (⟨a.frag, []⟩ : Logged F) arg
  rw [← hafter] at hlimits
  refine ⟨?_, ?_, hlimits.1.trans h.maxLiteralLen, hlimits.2.trans h.sizes, ?_, ?_⟩
  · cases ho : t.out with
    | complete result =>
      rw [ho] at hextends
      exact hextends
    | yielded y =>
      rw [ho] at hextends
      refine Stands.framed hextends ?_
      intro u hu
      obtain rfl : t = u := by simpa using hu
      simp [ho]
  · intro m hm
    rw [announced_concat, List.mem_append, Option.mem_toList] at hm
    rcases hm with hm | hm
    · exact h.within m hm
    · refine within_of_le h.maxLiteralLen h.sizes (starts_le hi hans ?_ ?_ hm)
      · rw [hfrag]
        exact hout
      · rw [hfrag]
        exact hfed
  · intro due' hdue'
    cases ho : t.out with
    | complete result => simp [hcomplete result ho] at hdue'
    | yielded y =>
      rw [ho] at hextends hadv
      rw [hyields y ho] at hdue'
      obtain rfl := Option.some.inj hdue'
      obtain ⟨taken, htaken⟩ := Request.exists_takes t.due t.arg
      have hawaits := (hadv taken htaken).1
      rw [show t.after = b.state by rw [hb]; rfl] at hawaits
      exact ⟨hawaits, hextends⟩
  · intro pieces hp
    obtain ⟨ps, taken, hps, htaken, rfl⟩ := forall₂_concat hp
    have hoctets := h.octets ps hps
    have htaken' : due.Takes arg taken := by
      rw [ht] at htaken
      exact htaken
    have haccounts := resume_accounts (f := a.frag) hi hans htaken'
    rw [← hout, ← hfed, ← hafter] at haccounts
    have hturn : consumedBy t taken ++ b.state.pending = a.state.pending ++ taken := by
      rw [← haccounts, consumedBy, ht]
      rfl
    rw [consumed, List.zipWith_append hps.length_eq, List.flatten_append, List.flatten_append,
      ← hoctets, consumed]
    simp only [List.zipWith_cons_cons, List.zipWith_nil_left, List.flatten_cons, List.flatten_nil,
      List.append_nil, List.append_assoc]
    rw [hturn]

theorem accounted {sequenceSet : SequenceSet} {opts : ImapMessageFetchStreamBatchOptions} {f : F}
    (h : imapMessageFetchStreamBatch.Runs (.new sequenceSet opts) f es b) : Accounted opts es b :=
  h.history (P := fun es b => Accounted opts es b) (accounted_start sequenceSet opts f)
    fun _ _ _ _ ha hstep => ha.step hstep

end Runs



/-- The yields of the batched FETCH are reads and whole messages of the lengths
announced, and what it consumes is a prefix of what comes off the wire. -/
theorem fetch_stream_batch_framing [TryFrom Bytes Tag] [Encoder Command]
    (sequenceSet : SequenceSet) (opts : ImapMessageFetchStreamBatchOptions) (f : F)
    (es : List (BatchTurn F)) (b : Config ImapMessageFetchStreamBatch F) (pieces : List Bytes)
    (h : imapMessageFetchStreamBatch.Runs (.new sequenceSet opts) f es b)
    (hp : List.Forall₂ Turn.Takes es pieces) :
    Framed es ∧ (∀ m ∈ announced es, Within opts m) ∧ consumed es pieces <+: pieces.flatten :=
  ⟨(accounted h).framed, (accounted h).within, ⟨b.state.pending, (accounted h).octets pieces hp⟩⟩

section Concrete

open Concrete

/-- A message that comes partly with its line and partly behind it. -/
theorem fetch_stream_batch_framing_cut :
    ∃ es pieces b, imapMessageFetchStreamBatch.Runs batchStream streamFrag es b ∧
      List.Forall₂ Turn.Takes es pieces ∧ announced es = [(7, 5)] ∧ Framed es ∧
      (∀ m ∈ announced es, Within {} m) ∧ consumed es pieces <+: pieces.flatten := by
  have hplay : (imapMessageFetchStreamBatch.play (Coroutine.start batchStream streamFrag)
      ((commandServing ++
        [headerRead, (none, []), (none, []), (none, ascii "lo"), (none, []), statusRead]).map
          fun x => (x.1, ()))).any (fun r => decide (List.Forall₂ Turn.Takes r.1
        ((commandServing ++ [headerRead, (none, []), (none, []), (none, ascii "lo"), (none, []),
          statusRead]).map (·.2))) && decide (announced r.1 = [(7, 5)])) = true := by
    decide +kernel
  obtain ⟨⟨es, b⟩, hes, hok⟩ := (Option.any_eq_true _ _).mp hplay
  rw [Bool.and_eq_true] at hok
  have hrun := Coroutine.play_run _ hes
  have hp := of_decide_eq_true hok.1
  exact ⟨es, _, b, hrun, hp, of_decide_eq_true hok.2, fetch_stream_batch_framing _ _ _ _ _ _ hrun hp⟩

end Concrete

end ImapMessageFetchStreamBatch
end IoImap
