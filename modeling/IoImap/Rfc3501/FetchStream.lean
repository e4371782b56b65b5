import IoImap.Rfc3501.BodyStream

/-!
# FETCH of one body, streamed (rfc3501/fetch_stream.rs)

The loop of `resume` is unrolled: a header line that announces the body goes on
to `State::Stream`, a body that is over to `State::Trailer`.
-/

namespace IoImap
open Fragmentizer

inductive ImapMessageFetchStreamError where
  | no (text : String)
  | bad (text : String)
  | bye (text : String)
  | missingTagged
  | missingTag
  | invalidTag (err : ValidationError)
  | shortBody
  | unexpectedLiteral
  | lineTooLong (max : Nat)
  deriving DecidableEq

def ImapMessageFetchStreamError.of : BodyStreamError → ImapMessageFetchStreamError
  | .no text => .no text
  | .bad text => .bad text
  | .bye text => .bye text
  | .missingTagged => .missingTagged
  | .missingTag => .missingTag
  | .invalidTag err => .invalidTag err
  | .shortBody => .shortBody
  | .lineTooLong max => .lineTooLong max

def ImapMessageFetchStreamError.byTagged : Except ImapMessageFetchStreamError Unit → Bool
  | .ok () | .error (.no _) | .error (.bad _) => true
  | _ => false

inductive ImapMessageFetchStreamYield where
  | wantsTag
  | wantsRead
  | wantsWrite (bytes : Bytes)
  | bodyChunk (bytes : Bytes)
  | wantsStream (len : Nat)

def ImapMessageFetchStreamYield.request : ImapMessageFetchStreamYield → Request
  | .wantsTag => .tag
  | .wantsRead => .read
  | .wantsWrite _ => .nothing
  | .bodyChunk _ => .nothing
  | .wantsStream len => .stream len

inductive ImapMessageFetchStream.State where
  | sendCommand (body : CommandBody)
  | header
  | stream
  | trailer

structure ImapMessageFetchStream extends BodyStream where
  state : ImapMessageFetchStream.State

abbrev ImapMessageFetchStreamResult :=
  CoroutineState ImapMessageFetchStreamYield (Except ImapMessageFetchStreamError Unit)

namespace ImapMessageFetchStream

variable {F : Type} [Fragmentizer F]

def body (id : NonZeroU32) (uid : Bool) : CommandBody :=
  .fetch [.single (.value id)] [.bodyExt true] uid

def new (id : NonZeroU32) (uid : Bool) : ImapMessageFetchStream :=
  ⟨.new, .sendCommand (body id uid)⟩

def complete (result : Except BodyStreamError Unit) : ImapMessageFetchStreamResult :=
  .complete (result.mapError .of)

def resumeTrailer (s : BodyStream) (f : F) (arg : Option Bytes) :
    ImapMessageFetchStreamResult × ImapMessageFetchStream × F :=
  match s.parseLines f arg with
  | (.wantsRead, s, f) => (.yielded .wantsRead, ⟨s, .trailer⟩, f)
  | (.announced _ _, s, f) => (.complete (.error .unexpectedLiteral), ⟨s, .trailer⟩, f)
  | (.complete result, s, f) => (complete result, ⟨s, .trailer⟩, f)

def resumeStream (s : BodyStream) (f : F) (arg : Option Bytes) :
    ImapMessageFetchStreamResult × ImapMessageFetchStream × F :=
  match s.streamBody arg with
  | (.finished, s, arg) => resumeTrailer s (skipMessage f) arg
  | (.chunk bytes, s, _) => (.yielded (.bodyChunk bytes), ⟨s, .stream⟩, f)
  | (.wants len, s, _) => (.yielded (.wantsStream len), ⟨s, .stream⟩, f)
  | (.short, s, _) => (complete (.error .shortBody), ⟨s, .stream⟩, f)

def resumeHeader (s : BodyStream) (f : F) (arg : Option Bytes) :
    ImapMessageFetchStreamResult × ImapMessageFetchStream × F :=
  match s.parseLines f arg with
  | (.wantsRead, s, f) => (.yielded .wantsRead, ⟨s, .header⟩, f)
  | (.announced _ announcement, s, f) =>
    resumeStream { s with remaining := announcement.length } f none
  | (.complete result, s, f) => (complete result, ⟨s, .header⟩, f)

def resumeSend [TryFrom Bytes Tag] [Encoder Command] (s : BodyStream) (body : CommandBody) (f : F)
    (arg : Option Bytes) : ImapMessageFetchStreamResult × ImapMessageFetchStream × F :=
  match s.sendCommand body arg with
  | (.wantsTag, s) => (.yielded .wantsTag, ⟨s, .sendCommand body⟩, f)
  | (.wantsWrite bytes, s) => (.yielded (.wantsWrite bytes), ⟨s, .header⟩, f)
  | (.fails err, s) => (complete (.error err), ⟨s, .sendCommand body⟩, f)

def resume [TryFrom Bytes Tag] [Encoder Command] (s : ImapMessageFetchStream) (f : F)
    (arg : Option Bytes) : ImapMessageFetchStreamResult × ImapMessageFetchStream × F :=
  match s.state with
  | .sendCommand body => resumeSend s.toBodyStream body f arg
  | .header => resumeHeader s.toBodyStream f arg
  | .stream => resumeStream s.toBodyStream f arg
  | .trailer => resumeTrailer s.toBodyStream f arg

instance : StreamsBodies ImapMessageFetchStream where
  stream := toBodyStream
  phase s := match s.state with
    | .sendCommand _ => .command
    | .header | .trailer => .lines
    | .stream => .literal

end ImapMessageFetchStream

open ImapMessageFetchStream StreamsBodies

def imapMessageFetchStream [TryFrom Bytes Tag] [Encoder Command] :
    Coroutine ImapMessageFetchStream Unit ImapMessageFetchStreamYield
      (Except ImapMessageFetchStreamError Unit) where
  resume s f arg _ := s.resume f arg
  request := ImapMessageFetchStreamYield.request

namespace ImapMessageFetchStream

/-! ### Every resume stays inside the reply -/

section Advances

variable {F : Type} [Fragmentizer F] {s : BodyStream} {f : F} {due : Request} {arg : Option Bytes}
  {taken : Bytes}

abbrev Goes (p : Position F) (taken : Bytes) :
    ImapMessageFetchStreamResult × ImapMessageFetchStream × F → Prop :=
  Advances ImapMessageFetchStreamYield.request ImapMessageFetchStreamError.byTagged p taken

theorem byTagged_complete (result : Except BodyStreamError Unit) :
    ImapMessageFetchStreamError.byTagged (result.mapError .of) = BodyStreamError.byTagged result := by
  rcases result with err | -
  · cases err <;> rfl
  · rfl

theorem goes_complete {p : Position F} {r : Except BodyStreamError Unit}
    {state : ImapMessageFetchStream.State}
    (h : BodyStreamError.byTagged r = true → p.Ends taken f s.pending) :
    Goes p taken (complete r, ⟨s, state⟩, f) :=
  advances_complete byTagged_complete h

theorem trailer_goes (h : s.Between) (hdue : BodyStream.ReadsLines due)
    (hans : due.answeredBy arg = true) (htaken : due.Takes arg taken) :
    Goes ⟨f, s.pending, none⟩ taken (resumeTrailer s f arg) := by
  have hspec := BodyStream.parseLines_spec h f hdue hans htaken
  unfold resumeTrailer
  generalize s.parseLines f arg = r at hspec ⊢
  obtain ⟨o, s', f'⟩ := r
  cases o with
  | wantsRead => exact ⟨⟨hspec.1, .inr rfl⟩, hspec.2⟩
  | announced line a =>
    intro ht
    simp [ImapMessageFetchStreamError.byTagged] at ht
  | complete result => exact goes_complete hspec

theorem stream_goes (h : s.Inside due) (hans : due.answeredBy arg = true)
    (htaken : due.Takes arg taken) :
    Goes ⟨f, s.pending, some s.remaining⟩ taken (resumeStream s f arg) := by
  have hspec := BodyStream.streamBody_spec f h hans htaken
  unfold resumeStream
  generalize s.streamBody arg = r at hspec ⊢
  obtain ⟨o, s', arg'⟩ := r
  cases o with
  | finished =>
    obtain ⟨rfl, hscanned, hstream, hmoves⟩ := hspec
    refine .after (hmoves.trans (Position.moves_close f s'.pending)) ?_
    exact trailer_goes ⟨BodyStream.scanned_zero hscanned, hstream⟩ (.inl rfl) rfl rfl
  | chunk bytes => exact ⟨hspec.1, hspec.2⟩
  | wants len => exact ⟨hspec.1, hspec.2⟩
  | short => exact goes_complete fun ht => by simp [BodyStreamError.byTagged] at ht

theorem header_goes (h : s.Between) (hdue : BodyStream.ReadsLines due)
    (hans : due.answeredBy arg = true) (htaken : due.Takes arg taken) :
    Goes ⟨f, s.pending, none⟩ taken (resumeHeader s f arg) := by
  have hspec := BodyStream.parseLines_spec h f hdue hans htaken
  unfold resumeHeader
  generalize s.parseLines f arg = r at hspec ⊢
  obtain ⟨o, s', f'⟩ := r
  cases o with
  | wantsRead => exact ⟨⟨hspec.1, .inr rfl⟩, hspec.2⟩
  | announced line a =>
    obtain ⟨hscanned, hstream, hmoves⟩ := hspec
    exact .after hmoves (stream_goes (.goesOn hscanned hstream) rfl rfl)
  | complete result => exact goes_complete hspec

theorem send_goes [TryFrom Bytes Tag] [Encoder Command] (body : CommandBody) (h : s.Between)
    (hdue : due = .nothing ∨ due = .tag) (htaken : due.Takes arg taken) :
    Goes ⟨f, s.pending, none⟩ taken (resumeSend s body f arg) := by
  obtain rfl : taken = [] := by rcases hdue with rfl | rfl <;> exact htaken
  have hspec := BodyStream.sendCommand_spec h body arg
  unfold resumeSend
  generalize s.sendCommand body arg = r at hspec ⊢
  obtain ⟨o, s'⟩ := r
  cases o with
  | wantsTag =>
    obtain ⟨hbetween, hpending⟩ := hspec
    rw [← hpending]
    exact ⟨⟨hbetween, .inr rfl⟩, .refl _⟩
  | wantsWrite bytes =>
    obtain ⟨hbetween, hpending⟩ := hspec
    rw [← hpending]
    exact ⟨⟨hbetween, .inl rfl⟩, .refl _⟩
  | fails err => exact goes_complete fun ht => absurd (hspec.symm.trans ht) (by decide)

theorem resume_goes [TryFrom Bytes Tag] [Encoder Command] {s : ImapMessageFetchStream}
    (h : Awaits s due) (hans : due.answeredBy arg = true) (htaken : due.Takes arg taken) :
    Goes (position s f) taken (s.resume f arg) := by
  obtain ⟨s, state⟩ := s
  cases state with
  | sendCommand body => exact send_goes body h.1 h.2 htaken
  | header => exact header_goes h.1 h.2 hans htaken
  | stream => exact stream_goes h hans htaken
  | trailer => exact trailer_goes h.1 h.2 hans htaken

end Advances

/-! ### Without the log -/

section Erase

variable {F : Type} [Fragmentizer F]

theorem resumeTrailer_erase (s : BodyStream) (l : Logged F) (arg : Option Bytes) :
    resumeTrailer s l.frag arg = Logged.erase (resumeTrailer s l arg) := by
  unfold resumeTrailer
  rw [BodyStream.parseLines_erase]
  rcases s.parseLines l arg with ⟨- | - | -, s', l'⟩ <;> rfl

theorem resumeStream_erase (s : BodyStream) (l : Logged F) (arg : Option Bytes) :
    resumeStream s l.frag arg = Logged.erase (resumeStream s l arg) := by
  unfold resumeStream
  rcases s.streamBody arg with ⟨- | - | - | -, s', arg'⟩
  · exact resumeTrailer_erase s' (skipMessage l) arg'
  all_goals rfl

theorem resumeHeader_erase (s : BodyStream) (l : Logged F) (arg : Option Bytes) :
    resumeHeader s l.frag arg = Logged.erase (resumeHeader s l arg) := by
  unfold resumeHeader
  rw [BodyStream.parseLines_erase]
  rcases s.parseLines l arg with ⟨- | - | -, s', l'⟩
  · rfl
  · exact resumeStream_erase _ l' none
  · rfl

theorem resume_erase [TryFrom Bytes Tag] [Encoder Command] (s : ImapMessageFetchStream)
    (l : Logged F) (arg : Option Bytes) :
    s.resume l.frag arg = Logged.erase (s.resume l arg) := by
  obtain ⟨s, state⟩ := s
  cases state with
  | sendCommand body =>
    simp only [resume, resumeSend]
    rcases s.sendCommand body arg with ⟨- | - | -, s'⟩ <;> rfl
  | header => exact resumeHeader_erase s l arg
  | stream => exact resumeStream_erase s l arg
  | trailer => exact resumeTrailer_erase s l arg

end Erase

theorem bodyStreaming [TryFrom Bytes Tag] [Encoder Command] :
    BodyStreaming imapMessageFetchStream ImapMessageFetchStreamError.byTagged where
  advances _ h hans htaken := resume_goes h hans htaken
  erase := resume_erase

end ImapMessageFetchStream
end IoImap
