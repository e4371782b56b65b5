import IoImap.Rfc3501.BodyStream

/-!
# FETCH of many bodies, streamed (rfc3501/fetch_stream_batch.rs)

Every line that announces a literal starts a message, whose UID stands on that
line; behind its body the lines go on. Sizes and UIDs are `u32` in the source.
-/

namespace IoImap
open Fragmentizer

inductive ImapMessageFetchStreamBatchError where
  | no (text : String)
  | bad (text : String)
  | bye (text : String)
  | missingTagged
  | missingTag
  | invalidTag (err : ValidationError)
  | shortBody
  | uidMissing
  | lineTooLong (max : Nat)
  | literalTooLong (uid len max : Nat)
  deriving DecidableEq

def ImapMessageFetchStreamBatchError.of : BodyStreamError → ImapMessageFetchStreamBatchError
  | .no text => .no text
  | .bad text => .bad text
  | .bye text => .bye text
  | .missingTagged => .missingTagged
  | .missingTag => .missingTag
  | .invalidTag err => .invalidTag err
  | .shortBody => .shortBody
  | .lineTooLong max => .lineTooLong max

def ImapMessageFetchStreamBatchError.byTagged : Except ImapMessageFetchStreamBatchError Unit → Bool
  | .ok () | .error (.no _) | .error (.bad _) => true
  | _ => false

def DEFAULT_MAX_LITERAL_LEN : Nat := 100 * 1024 * 1024

structure ImapMessageFetchStreamBatchOptions where
  uid : Bool := false
  maxLiteralLen : Nat := DEFAULT_MAX_LITERAL_LEN
  sizes : Std.TreeMap Nat Nat := ∅

inductive ImapMessageFetchStreamBatchYield where
  | wantsTag
  | wantsRead
  | wantsWrite (bytes : Bytes)
  | messageStart (uid : Nat)
  | bodyChunk (bytes : Bytes)
  | wantsStream (len : Nat)
  | messageEnd

def ImapMessageFetchStreamBatchYield.request : ImapMessageFetchStreamBatchYield → Request
  | .wantsTag => .tag
  | .wantsRead => .read
  | .wantsWrite _ => .nothing
  | .messageStart _ => .nothing
  | .bodyChunk _ => .nothing
  | .wantsStream len => .stream len
  | .messageEnd => .nothing

def isAlphanumeric (b : Byte) : Bool :=
  isDigit b || (65 ≤ b && b ≤ 90) || (97 ≤ b && b ≤ 122)

/-- `parse_uid` from some point of the line on, `before` the octet in front of it. -/
def parseUidFrom (before : Option Byte) (line : Bytes) : Option Nat :=
  match line with
  | [] => none
  | b :: rest =>
    let isUid := ((b :: rest).take 3).map asciiLower == ascii "uid"
    let boundaryLeft := !(before.any isAlphanumeric)
    let spaces := ((b :: rest).drop 3).takeWhile (· == 32)
    let digits := (((b :: rest).drop 3).dropWhile (· == 32)).takeWhile isDigit
    if isUid && boundaryLeft && spaces ≠ [] && digits ≠ [] then parseU32 digits
    else parseUidFrom (some b) rest

def parseUid (line : Bytes) : Option Nat := parseUidFrom none line

example : parseUid (ascii "* 1 FETCH (FLAGS (\\Seen) XUID 9 UID 7 BODY[] \x7b2\x7d\r\n") = some 7 := by
  decide +kernel

inductive ImapMessageFetchStreamBatch.State where
  | sendCommand (body : CommandBody)
  | nextItem
  | stream

structure ImapMessageFetchStreamBatch extends BodyStream where
  state : ImapMessageFetchStreamBatch.State
  maxLiteralLen : Nat
  sizes : Std.TreeMap Nat Nat

abbrev ImapMessageFetchStreamBatchResult :=
  CoroutineState ImapMessageFetchStreamBatchYield (Except ImapMessageFetchStreamBatchError Unit)

namespace ImapMessageFetchStreamBatch

variable {F : Type} [Fragmentizer F]

def body (sequenceSet : SequenceSet) (opts : ImapMessageFetchStreamBatchOptions) : CommandBody :=
  .fetch sequenceSet [.uid, .bodyExt true] opts.uid

def new (sequenceSet : SequenceSet) (opts : ImapMessageFetchStreamBatchOptions) :
    ImapMessageFetchStreamBatch :=
  ⟨.new, .sendCommand (body sequenceSet opts), opts.maxLiteralLen, opts.sizes⟩

def complete (result : Except BodyStreamError Unit) : ImapMessageFetchStreamBatchResult :=
  .complete (result.mapError .of)

def goOn (b : ImapMessageFetchStreamBatch) (s : BodyStream) (state : State) :
    ImapMessageFetchStreamBatch :=
  { b with toBodyStream := s, state := state }

def maxLen (b : ImapMessageFetchStreamBatch) (uid : Nat) : Nat :=
  match b.sizes[uid]? with
  | some size => min size b.maxLiteralLen
  | none => b.maxLiteralLen

def startMessage (b : ImapMessageFetchStreamBatch) (s : BodyStream) (line : Bytes)
    (announcement : LiteralAnnouncement) :
    ImapMessageFetchStreamBatchResult × ImapMessageFetchStreamBatch :=
  match parseUid line with
  | none => (.complete (.error .uidMissing), b.goOn s .nextItem)
  | some uid =>
    if announcement.length > b.maxLen uid then
      (.complete (.error (.literalTooLong uid announcement.length (b.maxLen uid))), b.goOn s .nextItem)
    else
      (.yielded (.messageStart uid), b.goOn { s with remaining := announcement.length } .stream)

def resumeNextItem (b : ImapMessageFetchStreamBatch) (f : F) (arg : Option Bytes) :
    ImapMessageFetchStreamBatchResult × ImapMessageFetchStreamBatch × F :=
  match b.parseLines f arg with
  | (.wantsRead, s, f) => (.yielded .wantsRead, b.goOn s .nextItem, f)
  | (.announced line announcement, s, f) =>
    ((b.startMessage s line announcement).1, (b.startMessage s line announcement).2, f)
  | (.complete result, s, f) => (complete result, b.goOn s .nextItem, f)

def resumeStream (b : ImapMessageFetchStreamBatch) (f : F) (arg : Option Bytes) :
    ImapMessageFetchStreamBatchResult × ImapMessageFetchStreamBatch × F :=
  match b.streamBody arg with
  | (.finished, s, _) => (.yielded .messageEnd, b.goOn s .nextItem, skipMessage f)
  | (.chunk bytes, s, _) => (.yielded (.bodyChunk bytes), b.goOn s .stream, f)
  | (.wants len, s, _) => (.yielded (.wantsStream len), b.goOn s .stream, f)
  | (.short, s, _) => (complete (.error .shortBody), b.goOn s .stream, f)

def resumeSend [TryFrom Bytes Tag] [Encoder Command] (b : ImapMessageFetchStreamBatch)
    (body : CommandBody) (f : F) (arg : Option Bytes) :
    ImapMessageFetchStreamBatchResult × ImapMessageFetchStreamBatch × F :=
  match b.sendCommand body arg with
  | (.wantsTag, s) => (.yielded .wantsTag, b.goOn s (.sendCommand body), f)
  | (.wantsWrite bytes, s) => (.yielded (.wantsWrite bytes), b.goOn s .nextItem, f)
  | (.fails err, s) => (complete (.error err), b.goOn s (.sendCommand body), f)

def resume [TryFrom Bytes Tag] [Encoder Command] (b : ImapMessageFetchStreamBatch) (f : F)
    (arg : Option Bytes) : ImapMessageFetchStreamBatchResult × ImapMessageFetchStreamBatch × F :=
  match b.state with
  | .sendCommand body => b.resumeSend body f arg
  | .nextItem => b.resumeNextItem f arg
  | .stream => b.resumeStream f arg

instance : StreamsBodies ImapMessageFetchStreamBatch where
  stream := toBodyStream
  phase b := match b.state with
    | .sendCommand _ => .command
    | .nextItem => .lines
    | .stream => .literal

end ImapMessageFetchStreamBatch

open ImapMessageFetchStreamBatch StreamsBodies

def imapMessageFetchStreamBatch [TryFrom Bytes Tag] [Encoder Command] :
    Coroutine ImapMessageFetchStreamBatch Unit ImapMessageFetchStreamBatchYield
      (Except ImapMessageFetchStreamBatchError Unit) where
  resume b f arg _ := b.resume f arg
  request := ImapMessageFetchStreamBatchYield.request

namespace ImapMessageFetchStreamBatch

/-! ### Every resume stays inside the reply -/

section Advances

variable {F : Type} [Fragmentizer F] {b : ImapMessageFetchStreamBatch} {f : F} {due : Request}
  {arg : Option Bytes} {taken : Bytes}

abbrev Goes (p : Position F) (taken : Bytes) :
    ImapMessageFetchStreamBatchResult × ImapMessageFetchStreamBatch × F → Prop :=
  Advances ImapMessageFetchStreamBatchYield.request ImapMessageFetchStreamBatchError.byTagged p taken

theorem byTagged_complete (result : Except BodyStreamError Unit) :
    ImapMessageFetchStreamBatchError.byTagged (result.mapError .of) =
      BodyStreamError.byTagged result := by
  rcases result with err | -
  · cases err <;> rfl
  · rfl

theorem goes_complete {p : Position F} {r : Except BodyStreamError Unit} {s : BodyStream}
    {state : State} (h : BodyStreamError.byTagged r = true → p.Ends taken f s.pending) :
    Goes p taken (complete r, b.goOn s state, f) :=
  advances_complete byTagged_complete h

theorem start_goes {s : BodyStream} {p : Position F} {line : Bytes} {a : LiteralAnnouncement}
    (hscanned : s.scanned = 0) (hstream : s.streamPending = false)
    (h : p.Moves taken ⟨f, s.pending, some a.length⟩) :
    Goes p taken ((b.startMessage s line a).1, (b.startMessage s line a).2, f) := by
  unfold startMessage
  split
  · intro ht
    simp [ImapMessageFetchStreamBatchError.byTagged] at ht
  · split
    · intro ht
      simp [ImapMessageFetchStreamBatchError.byTagged] at ht
    · exact ⟨.goesOn hscanned hstream, h⟩

theorem nextItem_goes (h : b.Between) (hdue : BodyStream.ReadsLines due)
    (hans : due.answeredBy arg = true) (htaken : due.Takes arg taken) :
    Goes ⟨f, b.pending, none⟩ taken (b.resumeNextItem f arg) := by
  have hspec := BodyStream.parseLines_spec h f hdue hans htaken
  unfold resumeNextItem
  generalize b.parseLines f arg = r at hspec ⊢
  obtain ⟨o, s', f'⟩ := r
  cases o with
  | wantsRead => exact ⟨⟨hspec.1, .inr rfl⟩, hspec.2⟩
  | announced line a => exact start_goes hspec.1 hspec.2.1 hspec.2.2
  | complete result => exact goes_complete hspec

theorem stream_goes (h : b.Inside due) (hans : due.answeredBy arg = true)
    (htaken : due.Takes arg taken) :
    Goes ⟨f, b.pending, some b.remaining⟩ taken (b.resumeStream f arg) := by
  have hspec := BodyStream.streamBody_spec f h hans htaken
  unfold resumeStream
  generalize b.streamBody arg = r at hspec ⊢
  obtain ⟨o, s', arg'⟩ := r
  cases o with
  | finished =>
    obtain ⟨-, hscanned, hstream, hmoves⟩ := hspec
    exact ⟨⟨⟨BodyStream.scanned_zero hscanned, hstream⟩, .inl rfl⟩,
      hmoves.trans (Position.moves_close f s'.pending)⟩
  | chunk bytes => exact ⟨hspec.1, hspec.2⟩
  | wants len => exact ⟨hspec.1, hspec.2⟩
  | short => exact goes_complete fun ht => by simp [BodyStreamError.byTagged] at ht

theorem send_goes [TryFrom Bytes Tag] [Encoder Command] (body : CommandBody) (h : b.Between)
    (hdue : due = .nothing ∨ due = .tag) (htaken : due.Takes arg taken) :
    Goes ⟨f, b.pending, none⟩ taken (b.resumeSend body f arg) := by
  obtain rfl : taken = [] := by rcases hdue with rfl | rfl <;> exact htaken
  have hspec := BodyStream.sendCommand_spec h body arg
  unfold resumeSend
  generalize b.sendCommand body arg = r at hspec ⊢
  obtain ⟨o, s'⟩ := r
  cases o with
  | wantsTag =>
    obtain ⟨hbetween, hpending⟩ := hspec
    rw [← hpending]
    exact ⟨⟨hbetween, .inr rfl⟩, .refl _⟩
  | wantsWrite bytes =>
    obtain ⟨hbetween, hpending⟩ := hspec
    rw [← hpending]
    exact ⟨⟨hbetween, .inl rfl⟩, .refl _⟩
  | fails err => exact goes_complete fun ht => absurd (hspec.symm.trans ht) (by decide)

theorem resume_goes [TryFrom Bytes Tag] [Encoder Command] (h : Awaits b due)
    (hans : due.answeredBy arg = true) (htaken : due.Takes arg taken) :
    Goes (position b f) taken (b.resume f arg) := by
  obtain ⟨s, state, maxLiteralLen, sizes⟩ := b
  cases state with
  | sendCommand body => exact send_goes body h.1 h.2 htaken
  | nextItem => exact nextItem_goes h.1 h.2 hans htaken
  | stream => exact stream_goes h hans htaken

end Advances

/-! ### Without the log -/

section Erase

variable {F : Type} [Fragmentizer F]

theorem resume_erase [TryFrom Bytes Tag] [Encoder Command] (b : ImapMessageFetchStreamBatch)
    (l : Logged F) (arg : Option Bytes) : b.resume l.frag arg = Logged.erase (b.resume l arg) := by
  unfold resume
  cases b.state with
  | sendCommand body =>
    simp only [resumeSend]
    rcases b.sendCommand body arg with ⟨- | - | -, s'⟩ <;> rfl
  | nextItem =>
    simp only [resumeNextItem]
    rw [BodyStream.parseLines_erase]
    rcases b.parseLines l arg with ⟨- | - | -, s', l'⟩ <;> rfl
  | stream =>
    simp only [resumeStream]
    rcases b.streamBody arg with ⟨- | - | - | -, s', arg'⟩ <;> rfl

end Erase

theorem bodyStreaming [TryFrom Bytes Tag] [Encoder Command] :
    BodyStreaming imapMessageFetchStreamBatch ImapMessageFetchStreamBatchError.byTagged where
  advances _ h hans htaken := resume_goes h hans htaken
  erase := resume_erase

end ImapMessageFetchStreamBatch
end IoImap
