import IoImap.Send.Response

/-!
# Exchanges that have written all of their message

A message without literals is one write. What is left of its exchange reads, and
the first read in which the server says anything about the exchange ends it.
-/

namespace IoImap
open Fragmentizer ServerMessage

namespace ImapSend

variable {M F : Type}

theorem new_plain [Encoder M] {message : M} (h : ∀ x ∈ Encoder.encode message, x.IsSync = false)
    (tag : Tag) :
    (new message tag).takeBuffer.1 = Encoder.octets message ∧
      (new message tag).written ⟨message, tag⟩ = receive message tag := by
  have htake := takeFragments_plain h []
  rw [List.nil_append] at htake
  constructor
  · simp [takeBuffer, new, fresh, htake, Encoder.octets]
  · simp [written, takeBuffer, new, receive, fresh, htake]

section Asked

variable [TryFrom Bytes Tag] [Encoder Command] {body : CommandBody} {bytes : Bytes}

theorem asked_invalid [Fragmentizer F] (f : F) {err : ValidationError}
    (htag : (TryFrom.tryFrom bytes : Except ValidationError Tag) = .error err) :
    (fresh (.tag ⟨body, id⟩ true) [] : ImapSend Command).resume f (some bytes) =
      (.complete (.error (.invalidTag err)), fresh (.tag ⟨body, id⟩ true) [], f) := by
  unfold resume
  simp only [fresh, htag]

theorem asked_valid [Fragmentizer F] [LawfulEncoder Command] (f : F) {tag : Tag}
    (htag : (TryFrom.tryFrom bytes : Except ValidationError Tag) = .ok tag)
    (hplain : ∀ x ∈ Encoder.encode (⟨tag, body⟩ : Command), x.IsSync = false) :
    (fresh (.tag ⟨body, id⟩ true) [] : ImapSend Command).resume f (some bytes) =
      (.yielded (.wantsWrite (Encoder.octets (⟨tag, body⟩ : Command))), receive ⟨tag, body⟩ tag, f) := by
  obtain ⟨hwrite, hreceive⟩ := new_plain hplain tag
  have hserialize : (new (⟨tag, body⟩ : Command) tag).serialize ⟨⟨tag, body⟩, tag⟩ f
      (fun s => s.awaitRead ⟨⟨tag, body⟩, tag⟩ f) = _ :=
    serialize_framed _ (LawfulEncoder.framed (⟨tag, body⟩ : Command))
  rw [hwrite, hreceive] at hserialize
  unfold resume
  simp only [fresh, htag]
  exact hserialize

end Asked

/-- The exchange reads, and nothing is left to write. -/
structure Listening (s : ImapSend M) (sent : Sent M) (past : List ServerMessage) : Prop
    extends Folding s sent past where
  fragments : s.fragments = []

theorem listening_receive (message : M) (tag : Tag) :
    (receive message tag).Listening ⟨message, tag⟩ [] :=
  ⟨⟨rfl, rfl, rfl, rfl, rfl, rfl, rfl, rfl⟩, rfl⟩

/-- What an exchange that ends with the messages `ms` puts out. -/
def outputOf (sent : Sent M) (past ms : List ServerMessage) : ImapSendOutput M where
  message := sent.message
  tag := sent.tag
  data := (past ++ ms).filterMap data?
  untagged := (past ++ ms).filterMap untagged?
  tagged := lastSome (·.ownTagged? sent.tag) ms
  bye := lastSome bye? ms
  continuationRequest := lastSome cr? ms

theorem goesOn_of_signal {tag : Tag} {ms : List ServerMessage} (hms : Accepted ms)
    (hsig : lastSome (·.signal? tag) ms = none) : ∀ x ∈ ms, ¬ x.Terminates tag := by
  intro x hx hends
  rcases hends with h | h
  · rw [lastSome_eq_none.mp hsig x hx] at h
    simp at h
  · rw [hms x hx] at h
    simp at h

variable [Fragmentizer F]

/-- One resume of an exchange that reads. -/
inductive Listens (s : ImapSend M) (sent : Sent M) (past : List ServerMessage) (f : F) :
    Option Bytes → ImapSendResult M → ImapSend M → F → List FragmentizerEvent → Prop where
  | waits : Listens s sent past f none (.yielded .wantsRead) s f []
  | eof {err : ImapSendError} : Listens s sent past f (some []) (.complete (.error err)) s f []
  | refused {data : Bytes} {f' : F} {pre post : List ServerMessage} {m : ServerMessage}
      {err : ImapSendError} (hne : data ≠ [])
      (hms : messages (enqueueBytes f data) = pre ++ m :: post) (hpre : Accepted pre)
      (hm : m.refusal? = some err) :
      Listens s sent past f (some data) (.complete (.error err)) s f'
        (.fed data :: (pre ++ [m]).map .completed)
  | readsOn {data : Bytes} {s' : ImapSend M} (hne : data ≠ [])
      (hms : Accepted (messages (enqueueBytes f data)))
      (hsig : lastSome (·.signal? sent.tag) (messages (enqueueBytes f data)) = none)
      (hs' : s'.Listening sent (past ++ messages (enqueueBytes f data))) :
      Listens s sent past f (some data) (.yielded .wantsRead) s' (drained (enqueueBytes f data))
        (.fed data :: (messages (enqueueBytes f data)).map .completed)
  | ended {data : Bytes} {s' : ImapSend M} (hne : data ≠ [])
      (hms : Accepted (messages (enqueueBytes f data)))
      (hsig : (lastSome (·.signal? sent.tag) (messages (enqueueBytes f data))).isSome) :
      Listens s sent past f (some data)
        (.complete (.ok (outputOf sent past (messages (enqueueBytes f data))))) s'
        (drained (enqueueBytes f data))
        (.fed data :: (messages (enqueueBytes f data)).map .completed)

theorem Listening.resume_spec [TryFrom Bytes Tag] [Encoder M] {s : ImapSend M} {sent : Sent M}
    {past : List ServerMessage} (h : s.Listening sent past) (f : F) (arg : Option Bytes) :
    ∃ out s' f' events, s.resume (⟨f, []⟩ : Logged F) arg = (out, s', ⟨f', events⟩) ∧
      s.Listens sent past f arg out s' f' events := by
  have hheld : s.Held := by
    rw [Held, h.limboLiteral]
    exact h.fragments
  obtain ⟨out, s', f', events, he, hr⟩ := read_spec h.state hheld f [] arg
  rw [← resume_read h.state] at he
  refine ⟨out, s', f', events, he, ?_⟩
  cases hr with
  | asks hs => simp [h.state] at hs
  | fails hs =>
    rcases hs with hs | rfl
    · exact absurd h.state (hs sent)
    · exact .eof
  | writes hs => exact absurd h.state (hs sent)
  | waits => exact .waits
  | refused _ hne hms hpre hm => exact .refused hne hms hpre hm
  | @completes sent' data hs hne hms hd =>
    obtain rfl : sent' = sent := State.read.inj (hs.symm.trans h.state)
    have hsig : (lastSome (·.signal? sent'.tag) (messages (enqueueBytes f data))).isSome := by
      rw [absorbAll_done] at hd
      split at hd
      · simp [h.goesOn] at hd
      · rename_i hcontinuation
        simp [hcontinuation]
      · rename_i hother
        simp [hother]
    have hout : (s.absorbAll sent'.tag (messages (enqueueBytes f data))).output sent' =
        outputOf sent' past (messages (enqueueBytes f data)) := by
      simp [output, outputOf, h.data, h.untagged, h.tagged, h.bye, h.cr]
    rw [hout]
    exact .ended hne hms hsig
  | continues _ _ _ _ hl => simp [h.limboLiteral] at hl
  | @readsOn sent' data hs hne hms hd hl =>
    obtain rfl : sent' = sent := State.read.inj (hs.symm.trans h.state)
    have hsig : lastSome (·.signal? sent'.tag) (messages (enqueueBytes f data)) = none := by
      rw [absorbAll_done] at hd
      split at hd
      · assumption
      · simp [h.limboLiteral] at hd
      · simp at hd
    exact .readsOn hne hms hsig
      ⟨h.toFolding.absorbAll (goesOn_of_signal hms hsig), by rw [absorbAll_fragments, h.fragments]⟩

end ImapSend

end IoImap
