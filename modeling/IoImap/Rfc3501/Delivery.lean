import IoImap.Rfc3501.BatchFraming
import IoImap.Rfc3501.ReplyOutcome

/-!
# What the streaming FETCH coroutines deliver

The single FETCH hands the octets of the first literal of the reply to its sink and
refuses a second one; the batched FETCH starts a message at every literal.
-/

namespace IoImap
open Fragmentizer StreamsBodies

namespace ImapMessageFetchStream

/-- The memory is whether a literal came already. -/
def intake : Intake Bool Byte ImapMessageFetchStreamError where
  accept seen _ _ := if seen then .error .unexpectedLiteral else .ok ([], true)
  octet b := b
  close := []
  error := .of

def memory (s : ImapMessageFetchStream) : Bool :=
  match s.state with
  | .sendCommand _ | .header => false
  | .stream | .trailer => true

def told : ImapMessageFetchStreamYield → Bytes
  | .bodyChunk bytes => bytes
  | _ => []

section Follows

variable {F : Type} [Fragmentizer F] {b : BodyStream} {f : F} {due : Request} {arg : Option Bytes}
  {taken : Bytes} {p : Place Bool F} {ts : Bytes}

theorem of_injective : Function.Injective ImapMessageFetchStreamError.of := by
  intro x y h
  cases x <;> cases y <;> simp_all [ImapMessageFetchStreamError.of]

abbrev Told (p : Place Bool F) (taken ts : Bytes) :
    ImapMessageFetchStreamResult × ImapMessageFetchStream × F → Prop :=
  Follows ImapMessageFetchStreamYield.request intake memory told p taken ts

theorem trailer_told (h : b.Between) (hdue : BodyStream.ReadsLines due)
    (hans : due.answeredBy arg = true) (htaken : due.Takes arg taken) (hmore : arg ≠ some []) :
    Told ⟨true, f, b.pending, none⟩ taken [] (resumeTrailer b f arg) := by
  have hreads := Intake.parseLines_reads (i := intake) h true f hdue hans htaken hmore
  unfold resumeTrailer
  generalize b.parseLines f arg = r at hreads ⊢
  obtain ⟨o, b', f'⟩ := r
  cases o with
  | wantsRead => exact ⟨hreads.1, fun _ => ⟨rfl, hreads.2⟩⟩
  | announced line a => exact hreads.2 _ rfl
  | complete result => exact hreads

theorem Told.after {q : Place Bool F} {us : Bytes} (h : intake.Leads p taken ts q)
    {r : ImapMessageFetchStreamResult × ImapMessageFetchStream × F} (k : Told q [] us r) :
    Told p taken (ts ++ us) r := by
  obtain ⟨y | result, s, f⟩ := r
  · refine ⟨?_, k.2⟩
    rw [List.append_assoc]
    exact h.trans k.1
  · exact h.settles k

theorem stream_told (h : b.Inside due) (hans : due.answeredBy arg = true)
    (htaken : due.Takes arg taken) (hmore : arg ≠ some []) :
    Told ⟨true, f, b.pending, some b.remaining⟩ taken (due.copied taken) (resumeStream b f arg) := by
  have hstreams := Intake.streamBody_streams (i := intake) h true f hans htaken hmore
  have hmap : ∀ bytes : Bytes, bytes.map intake.octet = bytes := List.map_id
  unfold resumeStream
  generalize b.streamBody arg = r at hstreams ⊢
  obtain ⟨o, b', arg'⟩ := r
  cases o with
  | finished =>
    obtain ⟨rfl, hbetween, hleads⟩ := hstreams
    rw [hmap] at hleads
    have hlines := @trailer_told F _ _ (skipMessage f) _ none _ hbetween (.inl rfl) rfl rfl (by simp)
    have hafter := Told.after hleads hlines
    simpa [intake] using hafter
  | chunk bytes =>
    rw [Intake.Streams, hmap] at hstreams
    exact ⟨hstreams, by simp [ImapMessageFetchStreamYield.request]⟩
  | wants len =>
    rw [Intake.Streams, hmap] at hstreams
    refine ⟨?_, by simp [ImapMessageFetchStreamYield.request]⟩
    show intake.Leads _ taken (due.copied taken ++ []) _
    rw [List.append_nil]
    exact hstreams
  | short => exact hstreams.elim

theorem header_told (h : b.Between) (hdue : BodyStream.ReadsLines due)
    (hans : due.answeredBy arg = true) (htaken : due.Takes arg taken) (hmore : arg ≠ some []) :
    Told ⟨false, f, b.pending, none⟩ taken [] (resumeHeader b f arg) := by
  have hreads := Intake.parseLines_reads (i := intake) h false f hdue hans htaken hmore
  have hspec := BodyStream.parseLines_spec h f hdue hans htaken
  unfold resumeHeader
  generalize b.parseLines f arg = r at hreads hspec ⊢
  obtain ⟨o, b', f'⟩ := r
  cases o with
  | wantsRead => exact ⟨hreads.1, fun _ => ⟨rfl, hreads.2⟩⟩
  | announced line a =>
    obtain ⟨hscanned, hstream, -⟩ := hspec
    have hbody := @stream_told F _ { b' with remaining := a.length } f' _ none _
      (.goesOn hscanned hstream) rfl rfl (by simp)
    exact Told.after (hreads.1 [] true rfl) hbody
  | complete result => exact hreads

theorem send_told [TryFrom Bytes Tag] [Encoder Command] (h : b.Between) (body : CommandBody)
    (hgoes : ∀ result, (resumeSend b body f arg).1 ≠ .complete result) :
    Told ⟨false, f, b.pending, none⟩ [] [] (resumeSend b body f arg) := by
  have hspec := BodyStream.sendCommand_spec h body arg
  unfold resumeSend at hgoes ⊢
  generalize b.sendCommand body arg = r at hspec hgoes ⊢
  obtain ⟨o, b'⟩ := r
  cases o with
  | wantsTag =>
    rw [← hspec.2]
    exact ⟨.refl _, by simp [ImapMessageFetchStreamYield.request]⟩
  | wantsWrite bytes =>
    rw [← hspec.2]
    exact ⟨.refl _, by simp [ImapMessageFetchStreamYield.request]⟩
  | fails err => exact absurd rfl (hgoes _)

theorem resume_told [TryFrom Bytes Tag] [Encoder Command] {s : ImapMessageFetchStream} (f : F)
    (h : Awaits s due) (hans : due.answeredBy arg = true) (htaken : due.Takes arg taken)
    (hmore : phase s = .command ∨ arg ≠ some [])
    (hcommand : phase s = .command → ∀ result, (s.resume f arg).1 ≠ .complete result) :
    Told (place memory s f) taken ((due.copied taken).map intake.octet) (s.resume f arg) := by
  have hmap : ∀ bytes : Bytes, bytes.map intake.octet = bytes := List.map_id
  have hlines : ∀ {due : Request}, BodyStream.ReadsLines due → due.copied taken = [] := by
    intro due hdue
    rcases hdue with rfl | rfl <;> rfl
  rw [hmap]
  obtain ⟨b, state⟩ := s
  cases state with
  | sendCommand body =>
    obtain ⟨hcopied, rfl⟩ : due.copied taken = [] ∧ taken = [] := by
      rcases h.2 with rfl | rfl <;> exact ⟨rfl, htaken⟩
    rw [hcopied]
    exact send_told h.1 body (hcommand rfl)
  | header =>
    rw [hlines h.2]
    exact header_told h.1 h.2 hans htaken (hmore.resolve_left (by simp [phase]))
  | stream => exact stream_told h hans htaken (hmore.resolve_left (by simp [phase]))
  | trailer =>
    rw [hlines h.2]
    exact trailer_told h.1 h.2 hans htaken (hmore.resolve_left (by simp [phase]))

theorem resume_loses [TryFrom Bytes Tag] [Encoder Command] {s : ImapMessageFetchStream} (f : F)
    (h : Awaits s due) (hphase : phase s ≠ .command) (hans : due.answeredBy (some []) = true) :
    (s.resume f (some [])).1 = .complete (.error .missingTagged) ∨
      (s.resume f (some [])).1 = .complete (.error .shortBody) := by
  obtain ⟨b, state⟩ := s
  cases state with
  | sendCommand body => exact absurd rfl hphase
  | header => exact .inl rfl
  | trailer => exact .inl rfl
  | stream =>
    right
    cases h with
    | goesOn => simp [Request.answeredBy] at hans
    | copies hscanned hstream hpending hrem =>
      have hne : b.remaining ≠ 0 := Nat.ne_of_gt hrem
      have hpending : b.pending = [] := hpending
      have hstream : b.streamPending = true := hstream
      simp [resume, resumeStream, BodyStream.streamBody, hne, hpending, hstream, complete,
        Except.mapError, ImapMessageFetchStreamError.of]

end Follows

theorem bodyIntake [TryFrom Bytes Tag] [Encoder Command] :
    BodyIntake imapMessageFetchStream intake memory told where
  follows f h hans htaken hmore hcommand := resume_told f h hans htaken hmore hcommand
  loses f h hphase hans := resume_loses f h hphase hans
  error_injective := of_injective

end ImapMessageFetchStream

namespace ImapMessageFetchStreamBatch

inductive Token where
  | start (uid : Nat)
  | octet (b : Byte)
  | finish
  deriving DecidableEq

/-- The memory is the limit of each message. -/
def intake : Intake (Nat → Nat) Token ImapMessageFetchStreamBatchError where
  accept limit line announcement :=
    match parseUid line with
    | none => .error .uidMissing
    | some uid =>
      if announcement.length > limit uid then
        .error (.literalTooLong uid announcement.length (limit uid))
      else .ok ([.start uid], limit)
  octet := .octet
  close := [.finish]
  error := .of

def told : ImapMessageFetchStreamBatchYield → List Token
  | .messageStart uid => [.start uid]
  | .bodyChunk bytes => bytes.map .octet
  | .messageEnd => [.finish]
  | _ => []

section Follows

variable {F : Type} [Fragmentizer F] {b : ImapMessageFetchStreamBatch} {f : F} {due : Request}
  {arg : Option Bytes} {taken : Bytes} {p : Place (Nat → Nat) F} {ts : List Token}

theorem of_injective : Function.Injective ImapMessageFetchStreamBatchError.of := by
  intro x y h
  cases x <;> cases y <;> simp_all [ImapMessageFetchStreamBatchError.of]

abbrev Told (p : Place (Nat → Nat) F) (taken : Bytes) (ts : List Token) :
    ImapMessageFetchStreamBatchResult × ImapMessageFetchStreamBatch × F → Prop :=
  Follows ImapMessageFetchStreamBatchYield.request intake maxLen told p taken ts

theorem nextItem_told (h : b.Between) (hdue : BodyStream.ReadsLines due)
    (hans : due.answeredBy arg = true) (htaken : due.Takes arg taken) (hmore : arg ≠ some []) :
    Told ⟨b.maxLen, f, b.pending, none⟩ taken [] (b.resumeNextItem f arg) := by
  have hreads := Intake.parseLines_reads (i := intake) h b.maxLen f hdue hans htaken hmore
  unfold resumeNextItem
  generalize b.parseLines f arg = r at hreads ⊢
  obtain ⟨o, s, f'⟩ := r
  cases o with
  | wantsRead => exact ⟨hreads.1, fun _ => ⟨rfl, hreads.2⟩⟩
  | announced line a =>
    obtain ⟨haccepts, hrefuses⟩ := hreads
    dsimp only
    unfold startMessage
    cases hu : parseUid line with
    | none => exact hrefuses _ (by simp [intake, hu])
    | some uid =>
      by_cases hlen : a.length > b.maxLen uid
      · simp only [if_pos hlen]
        exact hrefuses _ (by simp [intake, hu, hlen])
      · simp only [if_neg hlen]
        have hleads := haccepts [.start uid] b.maxLen (by simp [intake, hu, hlen])
        exact ⟨hleads, by simp [ImapMessageFetchStreamBatchYield.request]⟩
  | complete result => exact hreads

theorem stream_told (h : b.Inside due) (hans : due.answeredBy arg = true)
    (htaken : due.Takes arg taken) (hmore : arg ≠ some []) :
    Told ⟨b.maxLen, f, b.pending, some b.remaining⟩ taken ((due.copied taken).map .octet)
      (b.resumeStream f arg) := by
  have hstreams := Intake.streamBody_streams (i := intake) h b.maxLen f hans htaken hmore
  unfold resumeStream
  generalize b.streamBody arg = r at hstreams ⊢
  obtain ⟨o, s, arg'⟩ := r
  cases o with
  | finished => exact ⟨hstreams.2.2, by simp [ImapMessageFetchStreamBatchYield.request]⟩
  | chunk bytes =>
    rw [Intake.Streams, List.map_append] at hstreams
    exact ⟨hstreams, by simp [ImapMessageFetchStreamBatchYield.request]⟩
  | wants len =>
    refine ⟨?_, by simp [ImapMessageFetchStreamBatchYield.request]⟩
    show intake.Leads _ taken ((due.copied taken).map .octet ++ []) _
    rw [List.append_nil]
    exact hstreams
  | short => exact hstreams.elim

theorem send_told [TryFrom Bytes Tag] [Encoder Command] (h : b.Between) (body : CommandBody)
    (hgoes : ∀ result, (b.resumeSend body f arg).1 ≠ .complete result) :
    Told ⟨b.maxLen, f, b.pending, none⟩ [] [] (b.resumeSend body f arg) := by
  have hspec := BodyStream.sendCommand_spec h body arg
  unfold resumeSend at hgoes ⊢
  generalize b.sendCommand body arg = r at hspec hgoes ⊢
  obtain ⟨o, s⟩ := r
  cases o with
  | wantsTag =>
    rw [← hspec.2]
    exact ⟨.refl _, by simp [ImapMessageFetchStreamBatchYield.request]⟩
  | wantsWrite bytes =>
    rw [← hspec.2]
    exact ⟨.refl _, by simp [ImapMessageFetchStreamBatchYield.request]⟩
  | fails err => exact absurd rfl (hgoes _)

theorem resume_told [TryFrom Bytes Tag] [Encoder Command] (f : F) (h : Awaits b due)
    (hans : due.answeredBy arg = true) (htaken : due.Takes arg taken)
    (hmore : phase b = .command ∨ arg ≠ some [])
    (hcommand : phase b = .command → ∀ result, (b.resume f arg).1 ≠ .complete result) :
    Told (place maxLen b f) taken ((due.copied taken).map intake.octet) (b.resume f arg) := by
  obtain ⟨s, state, maxLiteralLen, sizes⟩ := b
  cases state with
  | sendCommand body =>
    obtain ⟨hcopied, rfl⟩ : due.copied taken = [] ∧ taken = [] := by
      rcases h.2 with rfl | rfl <;> exact ⟨rfl, htaken⟩
    rw [hcopied]
    exact send_told (b := ⟨s, .sendCommand body, maxLiteralLen, sizes⟩) h.1 body (hcommand rfl)
  | nextItem =>
    have hcopied : due.copied taken = [] := by rcases h.2 with rfl | rfl <;> rfl
    rw [hcopied]
    exact nextItem_told (b := ⟨s, .nextItem, maxLiteralLen, sizes⟩) h.1 h.2 hans htaken
      (hmore.resolve_left (by simp [phase]))
  | stream =>
    exact stream_told (b := ⟨s, .stream, maxLiteralLen, sizes⟩) h hans htaken
      (hmore.resolve_left (by simp [phase]))

theorem resume_loses [TryFrom Bytes Tag] [Encoder Command] (f : F) (h : Awaits b due)
    (hphase : phase b ≠ .command) (hans : due.answeredBy (some []) = true) :
    (b.resume f (some [])).1 = .complete (.error .missingTagged) ∨
      (b.resume f (some [])).1 = .complete (.error .shortBody) := by
  obtain ⟨s, state, maxLiteralLen, sizes⟩ := b
  cases state with
  | sendCommand body => exact absurd rfl hphase
  | nextItem => exact .inl rfl
  | stream =>
    right
    cases h with
    | goesOn => simp [Request.answeredBy] at hans
    | copies hscanned hstream hpending hrem =>
      have hne : s.remaining ≠ 0 := Nat.ne_of_gt hrem
      have hpending : s.pending = [] := hpending
      have hstream : s.streamPending = true := hstream
      simp [resume, resumeStream, BodyStream.streamBody, hne, hpending, hstream, complete,
        Except.mapError, ImapMessageFetchStreamBatchError.of]

end Follows

theorem bodyIntake [TryFrom Bytes Tag] [Encoder Command] :
    BodyIntake imapMessageFetchStreamBatch intake maxLen told where
  follows f h hans htaken hmore hcommand := resume_told f h hans htaken hmore hcommand
  loses f h hphase hans := resume_loses f h hphase hans
  error_injective := of_injective

end ImapMessageFetchStreamBatch
end IoImap
