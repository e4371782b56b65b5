import IoImap.Coroutine
import IoImap.Rfc3501.StreamedReply

/-!
# Streaming bodies (rfc3501/fetch_stream.rs, rfc3501/fetch_stream_batch.rs)

What the two streaming FETCH coroutines share, word for word in the source: they
buffer what they read in `pending`, feed the fragmentizer one line at a time and
hand the octets of an announced literal to the caller. Each keeps its own states
and its own failures beyond those of `BodyStreamError`.

The invariant of the buffer is that the octets scanned so far hold no LF, so that
the next LF the search finds is the first of `pending`.
-/

namespace IoImap
open Fragmentizer

def MAX_LINE_LEN : Nat := 1024 * 1024

inductive BodyStreamError where
  | no (text : String)
  | bad (text : String)
  | bye (text : String)
  | missingTagged
  | missingTag
  | invalidTag (err : ValidationError)
  | shortBody
  | lineTooLong (max : Nat)
  deriving DecidableEq

def BodyStreamError.byTagged : Except BodyStreamError Unit → Bool
  | .ok () | .error (.no _) | .error (.bad _) => true
  | _ => false

/-- The fields that both coroutines have, but `body`: it is `Some` exactly in
`State::SendCommand`, which carries it here. -/
structure BodyStream where
  tagRequested : Bool
  pending : Bytes
  scanned : Nat
  remaining : Nat
  streamPending : Bool

inductive SendOutcome where
  | wantsTag
  | wantsWrite (bytes : Bytes)
  | fails (err : BodyStreamError)

inductive LinesOutcome where
  | wantsRead
  | announced (line : Bytes) (announcement : LiteralAnnouncement)
  | complete (result : Except BodyStreamError Unit)

inductive StreamOutcome where
  | finished
  | chunk (bytes : Bytes)
  | wants (len : Nat)
  | short

namespace BodyStream

def new : BodyStream := ⟨false, [], 0, 0, false⟩

def sendCommand [TryFrom Bytes Tag] [Encoder Command] (s : BodyStream) (body : CommandBody)
    (arg : Option Bytes) : SendOutcome × BodyStream :=
  match arg with
  | some bytes =>
    match TryFrom.tryFrom (β := Tag) bytes with
    | .ok tag => (.wantsWrite ((Encoder.encode (⟨tag, body⟩ : Command)).flatMap Fragment.data), s)
    | .error err => (.fails (.invalidTag err), s)
  | none =>
    if s.tagRequested then (.fails .missingTag, s)
    else (.wantsTag, { s with tagRequested := true })

def nextLine (s : BodyStream) : Except BodyStreamError (Option Bytes) × BodyStream :=
  match (s.pending.drop s.scanned).findIdx? (· == LF) with
  | none =>
    let s := { s with scanned := s.pending.length }
    if s.scanned > MAX_LINE_LEN then (.error (.lineTooLong MAX_LINE_LEN), s) else (.ok none, s)
  | some pos =>
    let nl := s.scanned + pos
    let s := { s with scanned := 0 }
    if nl ≥ MAX_LINE_LEN then (.error (.lineTooLong MAX_LINE_LEN), s)
    else (.ok (some (s.pending.take (nl + 1))), { s with pending := s.pending.drop (nl + 1) })

def decodeTerminal {F : Type} [Fragmentizer F] (f : F) : Option (Except BodyStreamError Unit) :=
  match decodeMessage f with
  | .ok (.status (.tagged tagged)) =>
    match tagged.body.kind with
    | .ok => some (.ok ())
    | .no => some (.error (.no tagged.body.text))
    | .bad => some (.error (.bad tagged.body.text))
  | .ok (.status (.bye bye)) => some (.error (.bye bye.text))
  | _ => none

theorem nextLine_shorter {s s' : BodyStream} {line : Bytes} (h : s.nextLine = (.ok (some line), s')) :
    s'.pending.length < s.pending.length := by
  unfold nextLine at h
  split at h
  · simp only at h
    split at h <;> simp at h
  · rename_i pos hpos
    simp only at h
    split at h
    · simp at h
    · obtain ⟨-, rfl⟩ := Prod.mk.inj h
      exact length_drop_found hpos

/-- The reading loop, up to the first line that announces a literal or ends the reply. -/
def readLines {F : Type} [Fragmentizer F] (s : BodyStream) (f : F) :
    LinesOutcome × BodyStream × F :=
  match _h : s.nextLine with
  | (.error err, s') => (.complete (.error err), s', f)
  | (.ok none, s') => (.wantsRead, s', f)
  | (.ok (some line), s') =>
    match progress (enqueueBytes f line) with
    | (some (.line (some announcement)), f') => (.announced line announcement, s', f')
    | (some (.line none), f') =>
      match decodeTerminal f' with
      | some result => (.complete result, s', f')
      | none => readLines s' f'
    | (_, f') => readLines s' f'
termination_by s.pending.length
decreasing_by all_goals exact nextLine_shorter _h

def parseLines {F : Type} [Fragmentizer F] (s : BodyStream) (f : F) (arg : Option Bytes) :
    LinesOutcome × BodyStream × F :=
  match arg with
  | some [] => (.complete (.error .missingTagged), s, f)
  | some bytes => readLines { s with pending := s.pending ++ bytes } f
  | none => readLines s f

def streamBody (s : BodyStream) (arg : Option Bytes) : StreamOutcome × BodyStream × Option Bytes :=
  if s.remaining = 0 then (.finished, s, arg)
  else if s.pending ≠ [] then
    let take := min s.remaining s.pending.length
    (.chunk (s.pending.take take),
      { s with pending := s.pending.drop take, remaining := s.remaining - take }, arg)
  else if s.streamPending then
    let s := { s with streamPending := false }
    if arg = some [] then (.short, s, none) else (.finished, { s with remaining := 0 }, none)
  else (.wants s.remaining, { s with streamPending := true }, arg)

/-! ### The pending octets -/

/-- No LF among the octets scanned. -/
structure Scanned (s : BodyStream) : Prop where
  le : s.scanned ≤ s.pending.length
  noLine : LF ∉ s.pending.take s.scanned

theorem scanned_zero {s : BodyStream} (h : s.scanned = 0) : s.Scanned := ⟨by omega, by simp [h]⟩

theorem scanned_all {s : BodyStream} (h : LF ∉ s.pending) :
    Scanned { s with scanned := s.pending.length } := by
  refine ⟨Nat.le_refl _, ?_⟩
  rw [List.take_length]
  exact h

theorem Scanned.extend {s : BodyStream} (h : s.Scanned) (bytes : Bytes) :
    Scanned { s with pending := s.pending ++ bytes } := by
  refine ⟨?_, ?_⟩
  · have hle := h.le
    simp only [List.length_append]
    omega
  · simp only [List.take_append_of_le_length h.le]
    exact h.noLine

end BodyStream

namespace BodyStream

/-- What looking for a line comes to. -/
inductive Lines (s : BodyStream) : Except BodyStreamError (Option Bytes) → BodyStream → Prop where
  | line {line rest : Bytes} (hpending : s.pending = line ++ LF :: rest) (hline : LF ∉ line)
      (hlen : line.length < MAX_LINE_LEN) :
      Lines s (.ok (some (line ++ [LF]))) { s with pending := rest, scanned := 0 }
  | more (hpending : LF ∉ s.pending) (hlen : s.pending.length ≤ MAX_LINE_LEN) :
      Lines s (.ok none) { s with scanned := s.pending.length }
  | tooLong {line rest : Bytes} (hpending : s.pending = line ++ LF :: rest) (hline : LF ∉ line)
      (hlen : MAX_LINE_LEN ≤ line.length) :
      Lines s (.error (.lineTooLong MAX_LINE_LEN)) { s with scanned := 0 }
  | endless (hpending : LF ∉ s.pending) (hlen : MAX_LINE_LEN < s.pending.length) :
      Lines s (.error (.lineTooLong MAX_LINE_LEN)) { s with scanned := s.pending.length }

theorem nextLine_spec {s : BodyStream} (h : s.Scanned) : Lines s s.nextLine.1 s.nextLine.2 := by
  unfold nextLine
  rcases search_cases h.le h.noLine with
    ⟨hpos, hno⟩ | ⟨pos, line, rest, hpos, hpending, hline, hlen, htake, hdrop⟩
  · simp only [hpos]
    split
    · exact .endless hno (by omega)
    · exact .more hno (by omega)
  · simp only [hpos]
    split
    · exact .tooLong hpending hline (by omega)
    · rw [htake, hdrop]
      exact .line hpending hline (by omega)

theorem nextLine_line {s s' : BodyStream} {line : Bytes} (h : s.Scanned)
    (hn : s.nextLine = (.ok (some line), s')) :
    splitLine s.pending = some (line, s'.pending) ∧ s'.scanned = 0 ∧
      s'.streamPending = s.streamPending := by
  have hlines := nextLine_spec h
  rw [hn] at hlines
  cases hlines with
  | line hpending hline hlen =>
    rw [hpending]
    exact ⟨splitLine_line hline _, rfl, rfl⟩

theorem nextLine_none {s s' : BodyStream} (h : s.Scanned) (hn : s.nextLine = (.ok none, s')) :
    s'.Scanned ∧ s'.pending = s.pending ∧ s'.streamPending = s.streamPending := by
  have hlines := nextLine_spec h
  rw [hn] at hlines
  cases hlines with
  | more hpending hlen => exact ⟨scanned_all hpending, rfl, rfl⟩

theorem nextLine_error {s s' : BodyStream} {err : BodyStreamError} (hn : s.nextLine = (.error err, s')) :
    err = .lineTooLong MAX_LINE_LEN := by
  unfold nextLine at hn
  split at hn
  all_goals
    simp only at hn
    split at hn
    · simp only [Prod.mk.injEq, Except.error.injEq] at hn
      exact hn.1.symm
    · simp at hn

/-! ### The way through the reply -/

structure Between (s : BodyStream) : Prop where
  scanned : s.Scanned
  streamPending : s.streamPending = false

/-- Where reading lines has led once `taken` came off the wire. -/
def LinesSpec {F : Type} [Fragmentizer F] (p : Position F) (taken : Bytes) :
    LinesOutcome × BodyStream × F → Prop
  | (.wantsRead, s, f) => s.Between ∧ p.Moves taken ⟨f, s.pending, none⟩
  | (.announced _ a, s, f) =>
    s.scanned = 0 ∧ s.streamPending = false ∧ p.Moves taken ⟨f, s.pending, some a.length⟩
  | (.complete result, s, f) => BodyStreamError.byTagged result = true → p.Ends taken f s.pending

theorem LinesSpec.after {F : Type} [Fragmentizer F] {p q : Position F} {taken : Bytes}
    (h : p.Moves taken q) {r : LinesOutcome × BodyStream × F} (k : LinesSpec q [] r) :
    LinesSpec p taken r := by
  obtain ⟨o, s, f⟩ := r
  cases o with
  | wantsRead => exact ⟨k.1, h.trans k.2⟩
  | announced line a => exact ⟨k.1, k.2.1, h.trans k.2.2⟩
  | complete result => exact fun ht => h.ends (k ht)

section Decoding

variable {F : Type} [Fragmentizer F] {f : F}

theorem decodeTerminal_tagged {result : Except BodyStreamError Unit}
    (h : decodeTerminal f = some result) (ht : BodyStreamError.byTagged result = true) :
    ∃ tagged, decodeMessage f = .ok (.status (.tagged tagged)) := by
  unfold decodeTerminal at h
  split at h
  · rename_i tagged hd
    exact ⟨tagged, hd⟩
  · obtain rfl := Option.some.inj h
    simp [BodyStreamError.byTagged] at ht
  · simp at h

theorem decodeTerminal_none (h : decodeTerminal f = none) (tagged : Tagged) :
    decodeMessage f ≠ .ok (.status (.tagged tagged)) := by
  intro hd
  unfold decodeTerminal at h
  rw [hd] at h
  cases hk : tagged.body.kind <;> simp [hk] at h

end Decoding

/-- The reading loop stays inside the reply and stops at its end. -/
theorem readLines_spec {F : Type} [Fragmentizer F] {s : BodyStream} (h : s.Between) (f : F) :
    LinesSpec ⟨f, s.pending, none⟩ [] (s.readLines f) := by
  fun_induction readLines s f with
  | case1 s f err s' hn =>
    obtain rfl := nextLine_error hn
    intro ht
    simp [BodyStreamError.byTagged] at ht
  | case2 s f s' hn =>
    obtain ⟨hscanned, hpending, hstream⟩ := nextLine_none h.scanned hn
    rw [LinesSpec, hpending]
    exact ⟨⟨hscanned, hstream.trans h.streamPending⟩, .refl _⟩
  | case3 s f line s' hn a f' hp =>
    obtain ⟨hl, hscanned, hstream⟩ := nextLine_line h.scanned hn
    exact ⟨hscanned, hstream.trans h.streamPending, Position.moves_literal hl hp⟩
  | case4 s f line s' hn f' hp result hd =>
    obtain ⟨hl, -, -⟩ := nextLine_line h.scanned hn
    intro ht
    obtain ⟨tagged, htagged⟩ := decodeTerminal_tagged hd ht
    exact Position.ends_tagged hl hp htagged
  | case5 s f line s' hn f' hp hd ih =>
    obtain ⟨hl, hscanned, hstream⟩ := nextLine_line h.scanned hn
    have hmoves := Position.moves_passes hl hp (decodeTerminal_none hd)
    exact .after hmoves (ih ⟨scanned_zero hscanned, hstream.trans h.streamPending⟩)
  | case6 s f line s' hn i f' hliteral hplain hp ih =>
    obtain ⟨hl, hscanned, hstream⟩ := nextLine_line h.scanned hn
    have hi : ∀ a, i ≠ some (.line a) := by
      intro a he
      cases a with
      | none => exact hplain he
      | some a => exact hliteral a he
    have hmoves := Position.moves_continues hl hp hi
    exact .after hmoves (ih ⟨scanned_zero hscanned, hstream.trans h.streamPending⟩)

def SendSpec (s : BodyStream) : SendOutcome × BodyStream → Prop
  | (.fails err, _) => BodyStreamError.byTagged (.error err) = false
  | (_, s') => s'.Between ∧ s'.pending = s.pending

theorem sendCommand_spec [TryFrom Bytes Tag] [Encoder Command] {s : BodyStream} (h : s.Between)
    (body : CommandBody) (arg : Option Bytes) : s.SendSpec (s.sendCommand body arg) := by
  unfold sendCommand
  split
  · split
    · exact ⟨h, rfl⟩
    · rfl
  · split
    · rfl
    · exact ⟨⟨⟨h.scanned.le, h.scanned.noLine⟩, h.streamPending⟩, rfl⟩

def ReadsLines (due : Request) : Prop := due = .nothing ∨ due = .read

theorem parseLines_spec {F : Type} [Fragmentizer F] {s : BodyStream} (h : s.Between) (f : F)
    {due : Request} {arg : Option Bytes} {taken : Bytes} (hdue : ReadsLines due)
    (hans : due.answeredBy arg = true) (htaken : due.Takes arg taken) :
    LinesSpec ⟨f, s.pending, none⟩ taken (s.parseLines f arg) := by
  rcases hdue with rfl | rfl
  · obtain rfl := Request.answeredBy_nothing.mp hans
    obtain rfl : taken = [] := htaken
    exact readLines_spec h f
  · obtain ⟨bytes, rfl⟩ := Option.isSome_iff_exists.mp hans
    obtain rfl : taken = bytes := htaken
    cases taken with
    | nil =>
      intro ht
      simp [BodyStreamError.byTagged] at ht
    | cons b bs =>
      exact .after (Position.moves_read f s.pending (b :: bs))
        (readLines_spec ⟨h.scanned.extend _, h.streamPending⟩ f)

/-- Inside a literal: the search starts afresh behind it, and while the caller
copies octets none are pending. -/
inductive Inside (s : BodyStream) : Request → Prop where
  | goesOn : s.scanned = 0 → s.streamPending = false → Inside s .nothing
  | copies : s.scanned = 0 → s.streamPending = true → s.pending = [] → 0 < s.remaining →
      Inside s (.stream s.remaining)

def StreamSpec {F : Type} [Fragmentizer F] (f : F) (p : Position F) (taken : Bytes) :
    StreamOutcome × BodyStream × Option Bytes → Prop
  | (.finished, s, arg) =>
    arg = none ∧ s.scanned = 0 ∧ s.streamPending = false ∧ p.Moves taken ⟨f, s.pending, some 0⟩
  | (.chunk _, s, _) => s.Inside .nothing ∧ p.Moves taken ⟨f, s.pending, some s.remaining⟩
  | (.wants len, s, _) => s.Inside (.stream len) ∧ p.Moves taken ⟨f, s.pending, some s.remaining⟩
  | (.short, _, _) => True

theorem streamBody_spec {F : Type} [Fragmentizer F] {s : BodyStream} (f : F) {due : Request}
    (h : s.Inside due) {arg : Option Bytes} {taken : Bytes} (hans : due.answeredBy arg = true)
    (htaken : due.Takes arg taken) :
    StreamSpec f ⟨f, s.pending, some s.remaining⟩ taken (s.streamBody arg) := by
  unfold streamBody
  cases h with
  | goesOn hscanned hstream =>
    obtain rfl := Request.answeredBy_nothing.mp hans
    obtain rfl : taken = [] := htaken
    split
    · rename_i hrem
      rw [hrem]
      exact ⟨rfl, hscanned, hstream, .refl _⟩
    · rename_i hrem
      split
      · exact ⟨.goesOn hscanned hstream,
          Position.moves_chunk f s.pending (Nat.min_le_left _ _) (Nat.min_le_right _ _)⟩
      · rename_i hpending
        simp only [hstream, Bool.false_eq_true, if_false]
        exact ⟨.copies hscanned rfl (not_not.mp hpending) (by simp only; omega), .refl _⟩
  | copies hscanned hstream hpending hrem =>
    rw [if_neg (by omega), if_neg (by simp [hpending]), if_pos hstream]
    cases arg with
    | none =>
      refine ⟨rfl, hscanned, rfl, ?_⟩
      simp only [hpending]
      exact Position.moves_copy f htaken
    | some bytes =>
      obtain rfl := Request.answeredBy_stream.mp hans
      trivial

/-! ### Without the log -/

section Erase

variable {F : Type} [Fragmentizer F]

theorem readLines_line {s s' : BodyStream} {line : Bytes} (hn : s.nextLine = (.ok (some line), s'))
    (f : F) : s.readLines f =
      match progress (enqueueBytes f line) with
      | (some (.line (some announcement)), f') => (.announced line announcement, s', f')
      | (some (.line none), f') =>
        match decodeTerminal f' with
        | some result => (.complete result, s', f')
        | none => readLines s' f'
      | (_, f') => readLines s' f' := by
  rw [readLines]
  split
  · simp_all
  · simp_all
  · rename_i l t heq
    rw [hn] at heq
    obtain ⟨rfl, rfl⟩ : line = l ∧ s' = t := by simpa using heq
    rfl

theorem readLines_erase (s : BodyStream) (l : Logged F) :
    s.readLines l.frag = Logged.erase (s.readLines l) := by
  have hfrag : ∀ (l : Logged F) {line : Bytes} {i : Option FragmentInfo} {l' : Logged F},
      progress (enqueueBytes l line) = (i, l') → progress (enqueueBytes l.frag line) = (i, l'.frag) := by
    intro l line i l' hp
    have h := Logged.progress_frag (enqueueBytes l line)
    rw [hp] at h
    exact h
  fun_induction readLines s l with
  | case1 s l err s' hn => rw [readLines]; split <;> simp_all [Logged.erase]
  | case2 s l s' hn => rw [readLines]; split <;> simp_all [Logged.erase]
  | case3 s l line s' hn a l' hp =>
    rw [readLines_line hn, hfrag l hp]
    rfl
  | case4 s l line s' hn l' hp result hd =>
    have hd' : decodeTerminal l'.frag = some result := hd
    rw [readLines_line hn, hfrag l hp]
    simp only [hd']
    rfl
  | case5 s l line s' hn l' hp hd ih =>
    have hd' : decodeTerminal l'.frag = none := hd
    rw [readLines_line hn, hfrag l hp]
    simp only [hd']
    exact ih
  | case6 s l line s' hn i l' hliteral hplain hp ih =>
    rw [readLines_line hn, hfrag l hp]
    rcases i with - | ((- | a) | -)
    · exact ih
    · exact absurd rfl hplain
    · exact absurd rfl (hliteral a)
    · exact ih

theorem parseLines_erase (s : BodyStream) (l : Logged F) (arg : Option Bytes) :
    s.parseLines l.frag arg = Logged.erase (s.parseLines l arg) := by
  unfold parseLines
  split
  · rfl
  · exact readLines_erase _ l
  · exact readLines_erase _ l

end Erase

end BodyStream

/-! ### Coroutines that stream bodies -/

/-- Where a streaming coroutine is: before its command, between two lines of the
reply, or inside a literal. -/
inductive BodyPhase where
  | command
  | lines
  | literal
  deriving DecidableEq

class StreamsBodies (S : Type) where
  stream : S → BodyStream
  phase : S → BodyPhase

namespace StreamsBodies

variable {S Y E F : Type} [StreamsBodies S] [Fragmentizer F]

def Awaits (s : S) (due : Request) : Prop :=
  match phase s with
  | .command => (stream s).Between ∧ (due = .nothing ∨ due = .tag)
  | .lines => (stream s).Between ∧ BodyStream.ReadsLines due
  | .literal => (stream s).Inside due

def position (s : S) (f : F) : Position F :=
  ⟨f, (stream s).pending, if phase s = .literal then some (stream s).remaining else none⟩

/-- Where a resume has led once `taken` came off the wire: further inside the
reply, or with the result of a tagged status to its end. -/
def Advances (request : Y → Request) (byTagged : Except E Unit → Bool) (p : Position F)
    (taken : Bytes) : CoroutineState Y (Except E Unit) × S × F → Prop
  | (.yielded y, s, f) => Awaits s (request y) ∧ p.Moves taken (position s f)
  | (.complete result, s, f) => byTagged result = true → p.Ends taken f (stream s).pending

theorem Advances.after {request : Y → Request} {byTagged : Except E Unit → Bool} {p q : Position F}
    {taken : Bytes} (h : p.Moves taken q) {r : CoroutineState Y (Except E Unit) × S × F}
    (k : Advances request byTagged q [] r) : Advances request byTagged p taken r := by
  obtain ⟨y | result, s, f⟩ := r
  · exact ⟨k.1, h.trans k.2⟩
  · exact fun ht => h.ends (k ht)

theorem advances_complete {request : Y → Request} {byTagged : Except E Unit → Bool}
    {into : BodyStreamError → E} {p : Position F} {taken : Bytes} {s : S} {f : F}
    {result : Except BodyStreamError Unit}
    (hinto : ∀ r : Except BodyStreamError Unit,
      byTagged (r.mapError into) = BodyStreamError.byTagged r)
    (h : BodyStreamError.byTagged result = true → p.Ends taken f (stream s).pending) :
    Advances request byTagged p taken (.complete (result.mapError into), s, f) := by
  intro ht
  rw [hinto] at ht
  exact h ht

end StreamsBodies

structure BodyStreaming {S Y E : Type} [StreamsBodies S]
    (c : Coroutine S Unit Y (Except E Unit)) (byTagged : Except E Unit → Bool) : Prop where
  advances : ∀ {F : Type} [Fragmentizer F] {s : S} {due : Request} {arg : Option Bytes}
    {taken : Bytes} (f : F), StreamsBodies.Awaits s due → due.answeredBy arg = true →
    due.Takes arg taken →
    StreamsBodies.Advances c.request byTagged (StreamsBodies.position s f) taken
      (c.resume s f arg ())
  erase : ∀ {F : Type} [Fragmentizer F] (s : S) (l : Logged F) (arg : Option Bytes),
    c.resume s l.frag arg () = Logged.erase (c.resume s l arg ())

end IoImap
