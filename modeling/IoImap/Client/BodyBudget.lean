import IoImap.Client.Returning
import IoImap.Rfc3501.BatchFraming
import IoImap.Rfc3501.FetchStream

/-!
# What a streamed body lives on

Between two reads a streaming FETCH lives on the octets it has buffered: a line that
announces a body pays for its beginning, for the copy of what is not buffered and for its
end, and every chunk takes an octet at least.
-/

namespace IoImap
open Fragmentizer

/-! ### The buffer -/

namespace BodyStream

variable {F : Type} [Fragmentizer F]

/-- Looking for lines only takes octets off the buffer, and an announcement takes its line. -/
def Shortens (m : Nat) (r : LinesOutcome × BodyStream × F) : Prop :=
  r.2.1.pending.length ≤ m ∧ ∀ line a, r.1 = .announced line a → r.2.1.pending.length < m

omit [Fragmentizer F] in
theorem Shortens.mono {m m' : Nat} {r : LinesOutcome × BodyStream × F} (h : Shortens m r) (hle : m ≤ m') :
    Shortens m' r :=
  ⟨Nat.le_trans h.1 hle, fun line a hout => Nat.lt_of_lt_of_le (h.2 line a hout) hle⟩

theorem nextLine_le {s s' : BodyStream} {r : Except BodyStreamError (Option Bytes)}
    (h : s.nextLine = (r, s')) : s'.pending.length ≤ s.pending.length := by
  rw [nextLine_pending h, List.length_append]
  exact Nat.le_add_left _ _

theorem readLines_shortens (s : BodyStream) (f : F) : Shortens s.pending.length (s.readLines f) := by
  fun_induction readLines s f with
  | case1 s f err s' hn => exact ⟨nextLine_le hn, by simp⟩
  | case2 s f s' hn => exact ⟨nextLine_le hn, by simp⟩
  | case3 s f line s' hn =>
    exact ⟨Nat.le_of_lt (nextLine_shorter hn), fun _ _ _ => nextLine_shorter hn⟩
  | case4 s f line s' hn => exact ⟨Nat.le_of_lt (nextLine_shorter hn), by simp⟩
  | case5 s f line s' hn f' hp hd ih => exact ih.mono (Nat.le_of_lt (nextLine_shorter hn))
  | case6 s f line s' hn i f' hliteral hplain hp ih => exact ih.mono (Nat.le_of_lt (nextLine_shorter hn))

/-- The octets that a resume has before it. -/
def ahead (s : BodyStream) (arg : Option Bytes) : Nat := s.pending.length + (arg.getD []).length

theorem parseLines_shortens (s : BodyStream) (f : F) {arg : Option Bytes} (harg : arg ≠ some []) :
    Shortens (s.ahead arg) (s.parseLines f arg) := by
  unfold parseLines
  split
  · exact absurd rfl harg
  · rename_i bytes _
    have hshortens := readLines_shortens { s with pending := s.pending ++ bytes } f
    rw [List.length_append] at hshortens
    exact hshortens
  · exact readLines_shortens s f

end BodyStream

/-! ### The budget -/

namespace StreamsBodies

variable {S Y E F : Type} [StreamsBodies S]

def budget (s : S) (arg : Option Bytes) : Nat :=
  match phase s with
  | .command => 3 * (stream s).pending.length + if (stream s).tagRequested then 2 else 3
  | .lines => if arg = some [] then 0 else 3 * (stream s).ahead arg + 1
  | .literal => 3 * (stream s).ahead arg + if (stream s).streamPending then 2 else 3

theorem budget_lines {s : S} {arg : Option Bytes} (hs : phase s = .lines) (harg : arg ≠ some []) :
    budget s arg = 3 * (stream s).ahead arg + 1 := by
  simp only [budget, hs, harg, if_false]

theorem budget_literal {s : S} (hs : phase s = .literal) :
    budget s none ≤ 3 * (stream s).pending.length + 3 := by
  simp only [budget, hs, BodyStream.ahead, Option.getD_none, List.length_nil]
  split <;> omega

/-- One resume with so much left: each octet it reads is worth four passes. -/
def Consumes (request : Y → Request) (before : Nat) (r : CoroutineState Y (Except E Unit) × S × F) : Prop :=
  ∀ y, r.1 = .yielded y → ∀ answer, (request y).answeredBy answer = true →
    budget r.2.1 answer < before + 4 * ((request y).octets answer).flatten.length

section Consumes

variable {request : Y → Request} {before before' : Nat} {s : S} {f : F} {y : Y}

theorem Consumes.mono {r : CoroutineState Y (Except E Unit) × S × F}
    (h : Consumes request before r) (hle : before ≤ before') : Consumes request before' r :=
  fun y hy answer hans => Nat.lt_of_lt_of_le (h y hy answer hans) (Nat.add_le_add_right hle _)

theorem consumes_complete (result : Except E Unit) :
    Consumes request before (.complete result, s, f) := by
  intro y hy
  simp at hy

theorem consumes_reads (hy : request y = .read) (hs : phase s = .lines)
    (hle : 3 * (stream s).pending.length + 1 ≤ before) :
    Consumes (E := E) request before (.yielded y, s, f) := by
  intro y' hy' answer hans
  obtain rfl := CoroutineState.yielded.inj hy'
  rw [hy] at hans ⊢
  simp only [budget, hs]
  rcases answer with - | (- | ⟨b, bs⟩)
  · simp [Request.answeredBy] at hans
  · simp only [if_true]
    omega
  · simp only [Option.some.injEq, reduceCtorEq, if_false, BodyStream.ahead, Option.getD_some,
      Request.octets, List.flatten_cons, List.flatten_nil, List.append_nil, List.length_cons]
    omega

theorem consumes_asks (hs : ∀ answer, (request y).answeredBy answer = true → budget s answer < before) :
    Consumes (E := E) request before (.yielded y, s, f) := by
  intro y' hy' answer hans
  obtain rfl := CoroutineState.yielded.inj hy'
  exact Nat.lt_of_lt_of_le (hs answer hans) (Nat.le_add_right _ _)

end Consumes

theorem spends_of {c : Coroutine S Unit Y (Except E Unit)}
    (h : ∀ {F : Type} [Fragmentizer F] (s : S) (f : F) (arg : Option Bytes),
      Consumes c.request (budget s arg) (c.resume s f arg ())) : c.Spends 4 budget where
  pays {F} _ {s s' f f' arg answer y} hr hans := by
    have hconsumes := h s f arg
    rw [hr] at hconsumes
    exact hconsumes y rfl answer hans

end StreamsBodies

open StreamsBodies

namespace BodyStream

/-- What the next octets of a literal leave of a budget. -/
def Pays (before : Nat) : StreamOutcome × BodyStream × Option Bytes → Prop
  | (.finished, s', arg') => 3 * s'.ahead arg' + 1 < before
  | (.chunk _, s', _) => 3 * s'.pending.length + (if s'.streamPending then 2 else 3) < before
  | (.wants _, s', _) => 3 * s'.pending.length + 2 < before ∧ s'.streamPending = true
  | (.short, _, _) => True

theorem streamBody_pays (s : BodyStream) (arg : Option Bytes) :
    Pays (3 * s.ahead arg + if s.streamPending then 2 else 3) (s.streamBody arg) := by
  -- what is pending goes out as one chunk, and the copy behind it is asked for once
  have hahead : s.pending.length ≤ s.ahead arg := Nat.le_add_right _ _
  unfold streamBody
  by_cases hrem : s.remaining = 0
  · rw [if_pos hrem, Pays]
    split <;> omega
  · rw [if_neg hrem]
    by_cases hpending : s.pending = []
    · rw [if_neg (not_not.mpr hpending)]
      cases hstream : s.streamPending with
      | true =>
        simp only [if_true]
        split
        · trivial
        · simp only [Pays, ahead, Option.getD_none, List.length_nil]
          omega
      | false =>
        simp only [Bool.false_eq_true, if_false]
        exact ⟨by dsimp only; omega, rfl⟩
    · have htake : 1 ≤ min s.remaining s.pending.length := by
        have hlength := List.length_pos_iff.mpr hpending
        omega
      have hle : min s.remaining s.pending.length ≤ s.pending.length := Nat.min_le_right _ _
      rw [if_pos hpending]
      simp only [Pays, List.length_drop]
      omega

theorem sendCommand_budget [TryFrom Bytes Tag] [Encoder Command] {s s' : BodyStream} {body : CommandBody}
    {arg : Option Bytes} {o : SendOutcome} (h : s.sendCommand body arg = (o, s')) :
    s'.pending = s.pending ∧ (o = .wantsTag → s.tagRequested = false ∧ s'.tagRequested = true) := by
  unfold sendCommand at h
  split at h
  · split at h
    all_goals
      obtain ⟨rfl, rfl⟩ := Prod.mk.inj h
      simp
  · split at h
    · obtain ⟨rfl, rfl⟩ := Prod.mk.inj h
      simp
    · rename_i hrequested
      obtain ⟨rfl, rfl⟩ := Prod.mk.inj h
      simpa using hrequested

end BodyStream

/-! ### The single FETCH -/

namespace ImapMessageFetchStream

variable {F : Type} [Fragmentizer F] (f : F) (arg : Option Bytes)

abbrev ConsumesAt (before : Nat) (r : ImapMessageFetchStreamResult × ImapMessageFetchStream × F) : Prop :=
  Consumes ImapMessageFetchStreamYield.request before r

theorem resumeTrailer_consumes (s : BodyStream) (harg : arg ≠ some []) :
    ConsumesAt (3 * s.ahead arg + 1) (resumeTrailer s f arg) := by
  have hshortens := s.parseLines_shortens f harg
  unfold resumeTrailer
  generalize s.parseLines f arg = r at hshortens ⊢
  obtain ⟨- | ⟨line, a⟩ | result, s', f'⟩ := r
  · exact consumes_reads rfl rfl (Nat.add_le_add_right (Nat.mul_le_mul_left 3 hshortens.1) 1)
  · exact consumes_complete _
  · exact consumes_complete _

theorem resumeTrailer_lost (s : BodyStream) {before : Nat} :
    ConsumesAt before (resumeTrailer s f (some [])) :=
  consumes_complete _

theorem resumeStream_consumes (s : BodyStream) :
    ConsumesAt (3 * s.ahead arg + if s.streamPending then 2 else 3) (resumeStream s f arg) := by
  have hbudget := s.streamBody_pays arg
  unfold resumeStream
  generalize s.streamBody arg = r at hbudget ⊢
  obtain ⟨- | bytes | len | -, s', arg'⟩ := r
  · by_cases harg : arg' = some []
    · rw [harg]
      exact resumeTrailer_lost _ s'
    · exact (resumeTrailer_consumes _ arg' s' harg).mono (Nat.le_of_lt hbudget)
  · refine consumes_asks fun answer hans => ?_
    obtain rfl := Request.answeredBy_nothing.mp hans
    exact hbudget
  · refine consumes_asks fun answer hans => ?_
    have hlength : (answer.getD []).length = 0 := by
      rcases answer with - | bytes
      · rfl
      · rw [Request.answeredBy_stream.mp hans]
        rfl
    simp only [budget, phase, stream, BodyStream.ahead, hlength, hbudget.2, if_true]
    exact hbudget.1
  · exact consumes_complete _

theorem resumeHeader_consumes (s : BodyStream) (harg : arg ≠ some []) :
    ConsumesAt (3 * s.ahead arg + 1) (resumeHeader s f arg) := by
  have hshortens := s.parseLines_shortens f harg
  unfold resumeHeader
  generalize s.parseLines f arg = r at hshortens ⊢
  obtain ⟨- | ⟨line, a⟩ | result, s', f'⟩ := r
  · exact consumes_reads rfl rfl (Nat.add_le_add_right (Nat.mul_le_mul_left 3 hshortens.1) 1)
  · have hless := hshortens.2 line a rfl
    refine (resumeStream_consumes f' none { s' with remaining := a.length }).mono ?_
    simp only [BodyStream.ahead, Option.getD_none, List.length_nil] at hless ⊢
    split <;> omega
  · exact consumes_complete _

omit [Fragmentizer F] in
theorem resumeSend_consumes [TryFrom Bytes Tag] [Encoder Command] (s : BodyStream) (body : CommandBody) :
    ConsumesAt (3 * s.pending.length + if s.tagRequested then 2 else 3) (resumeSend s body f arg) := by
  unfold resumeSend
  rcases hsend : s.sendCommand body arg with ⟨- | bytes | err, s'⟩
  · obtain ⟨hpending, hrequested⟩ := BodyStream.sendCommand_budget hsend
    obtain ⟨hbefore, hafter⟩ := hrequested rfl
    refine consumes_asks fun answer hans => ?_
    simp only [budget, phase, stream, hpending, hbefore, hafter, if_true, Bool.false_eq_true, if_false]
    omega
  · obtain ⟨hpending, -⟩ := BodyStream.sendCommand_budget hsend
    refine consumes_asks fun answer hans => ?_
    obtain rfl := Request.answeredBy_nothing.mp hans
    simp only [budget, phase, stream, reduceCtorEq, if_false, BodyStream.ahead, hpending, Option.getD_none,
      List.length_nil]
    split <;> omega
  · exact consumes_complete _

end ImapMessageFetchStream

open ImapMessageFetchStream in
theorem imapMessageFetchStream_spends [TryFrom Bytes Tag] [Encoder Command] :
    imapMessageFetchStream.Spends 4 budget := by
  refine spends_of fun s f arg => ?_
  obtain ⟨b, state⟩ := s
  cases state with
  | sendCommand body => exact resumeSend_consumes f arg b body
  | header =>
    by_cases harg : arg = some []
    · rw [harg]
      exact consumes_complete _
    · rw [budget_lines rfl harg]
      exact resumeHeader_consumes f arg b harg
  | stream => exact resumeStream_consumes f arg b
  | trailer =>
    by_cases harg : arg = some []
    · rw [harg]
      exact resumeTrailer_lost f b
    · rw [budget_lines rfl harg]
      exact resumeTrailer_consumes f arg b harg

/-! ### The batched FETCH -/

namespace ImapMessageFetchStreamBatch

variable {F : Type} [Fragmentizer F] (b : ImapMessageFetchStreamBatch) (f : F) (arg : Option Bytes)

abbrev ConsumesAt (before : Nat)
    (r : ImapMessageFetchStreamBatchResult × ImapMessageFetchStreamBatch × F) : Prop :=
  Consumes ImapMessageFetchStreamBatchYield.request before r

theorem resumeNextItem_consumes (harg : arg ≠ some []) :
    ConsumesAt (3 * b.ahead arg + 1) (b.resumeNextItem f arg) := by
  have hshortens := b.parseLines_shortens f harg
  unfold resumeNextItem
  generalize b.parseLines f arg = r at hshortens ⊢
  obtain ⟨- | ⟨line, a⟩ | result, s', f'⟩ := r
  · exact consumes_reads rfl rfl (Nat.add_le_add_right (Nat.mul_le_mul_left 3 hshortens.1) 1)
  · have hless := hshortens.2 line a rfl
    obtain ⟨err, he⟩ | ⟨uid, -, -, he⟩ := startMessage_cases b s' line a
    · simp only [he]
      exact consumes_complete _
    · simp only [he]
      refine consumes_asks fun answer hans => ?_
      obtain rfl := Request.answeredBy_nothing.mp hans
      have hliteral := budget_literal (s := b.goOn { s' with remaining := a.length } .stream) rfl
      simp only [stream, goOn] at hliteral hless ⊢
      omega
  · exact consumes_complete _

theorem resumeStream_consumes :
    ConsumesAt (3 * b.ahead arg + if b.streamPending then 2 else 3) (b.resumeStream f arg) := by
  have hbudget := b.toBodyStream.streamBody_pays arg
  unfold resumeStream
  generalize b.streamBody arg = r at hbudget ⊢
  obtain ⟨- | bytes | len | -, s', arg'⟩ := r
  · refine consumes_asks fun answer hans => ?_
    obtain rfl := Request.answeredBy_nothing.mp hans
    have hless : 3 * (s'.pending.length + (arg'.getD []).length) + 1 < _ := hbudget
    simp only [budget, phase, stream, goOn, reduceCtorEq, if_false, BodyStream.ahead, Option.getD_none,
      List.length_nil]
    simp only [BodyStream.ahead] at hless
    omega
  · refine consumes_asks fun answer hans => ?_
    obtain rfl := Request.answeredBy_nothing.mp hans
    exact hbudget
  · refine consumes_asks fun answer hans => ?_
    have hlength : (answer.getD []).length = 0 := by
      rcases answer with - | bytes
      · rfl
      · rw [Request.answeredBy_stream.mp hans]
        rfl
    simp only [budget, phase, stream, goOn, BodyStream.ahead, hlength, hbudget.2, if_true]
    exact hbudget.1
  · exact consumes_complete _

omit [Fragmentizer F] in
theorem resumeSend_consumes [TryFrom Bytes Tag] [Encoder Command] (body : CommandBody) :
    ConsumesAt (3 * b.pending.length + if b.tagRequested then 2 else 3) (b.resumeSend body f arg) := by
  unfold resumeSend
  rcases hsend : b.sendCommand body arg with ⟨- | bytes | err, s'⟩
  · obtain ⟨hpending, hrequested⟩ := BodyStream.sendCommand_budget hsend
    obtain ⟨hbefore, hafter⟩ := hrequested rfl
    refine consumes_asks fun answer hans => ?_
    simp only [budget, phase, stream, goOn, hpending, hbefore, hafter, if_true, Bool.false_eq_true, if_false]
    omega
  · obtain ⟨hpending, -⟩ := BodyStream.sendCommand_budget hsend
    refine consumes_asks fun answer hans => ?_
    obtain rfl := Request.answeredBy_nothing.mp hans
    simp only [budget, phase, stream, goOn, reduceCtorEq, if_false, BodyStream.ahead, hpending,
      Option.getD_none, List.length_nil]
    split <;> omega
  · exact consumes_complete _

end ImapMessageFetchStreamBatch

open ImapMessageFetchStreamBatch in
theorem imapMessageFetchStreamBatch_spends [TryFrom Bytes Tag] [Encoder Command] :
    imapMessageFetchStreamBatch.Spends 4 budget := by
  refine spends_of fun b f arg => ?_
  obtain ⟨stream, state, maxLiteralLen, sizes⟩ := b
  cases state with
  | sendCommand body => exact resumeSend_consumes _ f arg body
  | nextItem =>
    by_cases harg : arg = some []
    · rw [harg]
      exact consumes_complete _
    · rw [budget_lines rfl harg]
      exact resumeNextItem_consumes _ f arg harg
  | stream => exact resumeStream_consumes _ f arg

end IoImap
