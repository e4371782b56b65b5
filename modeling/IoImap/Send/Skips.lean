import IoImap.Insertion

/-!
# What an exchange passes over

An untagged response that cannot be decoded changes nothing about the exchange it
arrives in, wherever it stands between the other messages of a read.
-/

namespace IoImap
open Fragmentizer ServerMessage

theorem ServerMessage.Undecodable.absorb {M : Type} {m : ServerMessage} (h : m.Undecodable)
    (tag : Tag) (s : ImapSend M) : ImapSend.absorb tag s m = s := by
  obtain ⟨hdata, huntagged, hbye, hcr, htagged⟩ := h.silent
  simp [ImapSend.absorb, hdata, huntagged, hbye, hcr, htagged tag]

namespace ImapSend

variable {M F G : Type} [Fragmentizer F] [Fragmentizer G] {f : F} {g : G} {s : ImapSend M}
  {sent : Sent M} {data : Bytes}

omit [Fragmentizer F] [Fragmentizer G] in
theorem serialize_upshot {next : ImapSend M → ImapSendResult M × ImapSend M × F}
    {next' : ImapSend M → ImapSendResult M × ImapSend M × G} (s : ImapSend M) (sent : Sent M)
    (h : ∀ s, upshot (next' s) = upshot (next s)) :
    upshot (s.serialize sent g next') = upshot (s.serialize sent f next) := by
  unfold serialize
  simp only
  split
  · exact h _
  · rfl

omit [Fragmentizer F] [Fragmentizer G] in
theorem settle_upshot (s : ImapSend M) (sent : Sent M) (f : F) (g : G) :
    upshot (s.settle sent f) = upshot (s.settle sent g) := by
  unfold settle
  split
  · rfl
  · split
    · exact serialize_upshot _ _ fun _ => rfl
    · rfl

omit [Fragmentizer F] in
theorem settle_goesOn (s : ImapSend M) (sent : Sent M) (f : F) (err : ImapSendError) :
    (s.settle sent f).1 ≠ .complete (.error err) := by
  unfold settle serialize
  simp only
  split
  · simp
  · split
    · split <;> simp [awaitRead]
    · simp [awaitRead]

theorem read_upshot (hne : data ≠ []) :
    upshot (s.read sent f (some data)) =
      match (messages (enqueueBytes f data)).foldlM (accept sent.tag) s with
      | .ok s' => upshot (s'.settle sent ())
      | .error err => (.complete (.error err), s) := by
  obtain ⟨b, bs, rfl⟩ := List.exists_cons_of_ne_nil hne
  show upshot (s.deserialize sent (enqueueBytes f (b :: bs))) = _
  rw [deserialize, ← readMessages_fst]
  rcases readMessages (accept sent.tag) s (enqueueBytes f (b :: bs)) with ⟨err | s', f'⟩
  · rfl
  · exact settle_upshot s' sent f' ()

theorem read_refused_upshot {err : ImapSendError} (hne : data ≠ [])
    (h : (messages (enqueueBytes f data)).findSome? ServerMessage.refusal? = some err) :
    upshot (s.read sent f (some data)) = (.complete (.error err), s) := by
  rw [read_upshot hne, foldlM_refused (accept_refuses sent.tag) h]

theorem read_accepted_upshot (hne : data ≠ [])
    (h : (messages (enqueueBytes f data)).findSome? ServerMessage.refusal? = none)
    (err : ImapSendError) : (s.read sent f (some data)).1 ≠ .complete (.error err) := by
  show (upshot (s.read sent f (some data))).1 ≠ _
  rw [read_upshot hne, foldlM_findSome (accept_refuses sent.tag), h]
  exact settle_goesOn _ sent () err

omit [Fragmentizer F] in
theorem awaits_read (h : s.Awaits .read) : ∃ sent, s.state = .read sent := by
  unfold Awaits at h
  split at h
  · split at h <;> simp at h
  · simp at h
  · rename_i sent hs
    exact ⟨sent, hs⟩

/-- The messages of a read that are no part of the exchange leave it waiting. -/
theorem read_aside_upshot {m : ServerMessage} (hm : m.Undecodable) (hs : s.state = .read sent)
    (hgoesOn : s.done = false) (hlimbo : s.limboLiteral = none) (hne : data ≠ [])
    (hadds : Adds m [] (messages (enqueueBytes f data)))
    (h : (messages (enqueueBytes f data)).findSome? ServerMessage.refusal? = none) :
    upshot (s.read sent f (some data)) = (.yielded .wantsRead, s) := by
  rw [read_upshot hne, foldlM_findSome (accept_refuses sent.tag), h, hadds.foldl (hm.absorb sent.tag)]
  simp only [List.foldl_nil, settle, hgoesOn, hlimbo]
  show upshot (s.awaitRead sent ()) = _
  rw [awaitRead_eq hs]
  rfl

variable [TryFrom Bytes Tag] [Encoder M]

theorem resume_none_upshot (s : ImapSend M) (f : F) (g : G) :
    upshot (s.resume g none) = upshot (s.resume f none) := by
  unfold resume
  cases s.state with
  | tag command requested => cases requested <;> rfl
  | serialize sent => exact serialize_upshot _ _ fun _ => rfl
  | read sent => rfl

/-- Resumes that are given the same but for a message that is passed over come to the same. -/
theorem resume_given {m : ServerMessage} {ms ms' : List ServerMessage} {due : Request}
    {arg arg' : Option Bytes} (hm : m.Undecodable) (h : s.Awaits due)
    (hg : Given f g ms ms' due arg arg') (hadds : Adds m ms ms')
    (hfail : ms'.findSome? ServerMessage.refusal? = ms.findSome? ServerMessage.refusal?) :
    upshot (s.resume g arg') = upshot (s.resume f arg) := by
  cases hs : s.state with
  | tag command requested =>
    have hdue : due = .tag ∨ due = .nothing := by
      rw [Awaits, hs] at h
      cases requested with
      | true => exact .inl h
      | false => exact .inr h
    cases hg with
    | nothing => exact resume_none_upshot s f g
    | @tag bytes =>
      unfold resume
      simp only [hs]
      cases htag : (TryFrom.tryFrom bytes : Except ValidationError Tag) with
      | error err => rfl
      | ok tag =>
        exact serialize_upshot _ _ fun _ => rfl
    | stream => simp at hdue
    | eof => simp at hdue
    | read => simp at hdue
  | serialize sent =>
    simp only [Awaits, hs] at h
    subst h
    cases hg with
    | nothing => exact resume_none_upshot s f g
  | read sent =>
    simp only [Awaits, hs] at h
    rw [resume_read hs, resume_read hs]
    cases hg with
    | nothing => rfl
    | tag => simp at h
    | stream => simp at h
    | eof => rfl
    | read hne hne' hms hms' =>
      rw [read_upshot hne, read_upshot hne', hms, hms',
        hadds.foldlM (accept_refuses sent.tag) (hm.absorb sent.tag) hfail]

end ImapSend
end IoImap
