import IoImap.Codec.LineFragmentizer
import IoImap.Send.Literal

/-!
# The response of an exchange

A response ends with the first message that terminates the exchange. What the
exchange comes to is a fold of its messages; how the response was cut into reads
does not show. What follows the own completion in the same read does show, and
the second half of this file says exactly when it does not.
-/

namespace IoImap
open Fragmentizer ServerMessage Transition

def ServerMessage.Terminates (tag : Tag) (m : ServerMessage) : Prop :=
  (m.signal? tag).isSome ∨ m.refusal?.isSome

instance (tag : Tag) (m : ServerMessage) : Decidable (m.Terminates tag) :=
  inferInstanceAs (Decidable (_ ∨ _))

/-- The response, behind what the fragmentizer already holds, is `stream`: it
completes `ms`, none of which terminates the exchange, and its last octet
completes the message `m` that does. -/
structure IsResponse {F : Type} [Fragmentizer F] (tag : Tag) (f : F) (stream : Bytes)
    (ms : List ServerMessage) (m : ServerMessage) : Prop where
  messages : messages (enqueueBytes f stream) = ms ++ [m]
  last : ∀ k < stream.length, (Fragmentizer.messages (enqueueBytes f (stream.take k))).length ≤ ms.length
  goesOn : ∀ x ∈ ms, ¬ x.Terminates tag
  terminates : m.Terminates tag

/-- The reference fold of a response. -/
def responseFold {M : Type} (sent : Sent M) (ms : List ServerMessage) (m : ServerMessage) :
    Except ImapSendError (ImapSendOutput M) :=
  match m.refusal? with
  | some err => .error err
  | none => .ok {
      message := sent.message
      tag := sent.tag
      data := ms.filterMap data?
      untagged := ms.filterMap untagged?
      tagged := m.ownTagged? sent.tag
      bye := m.bye?
      continuationRequest := m.cr? }

theorem ownTagged?_tag {tag : Tag} {m : ServerMessage} {tagged : Tagged}
    (h : m.ownTagged? tag = some tagged) : tagged.tag = tag := by
  obtain ⟨bytes, e | (cr | d | (u | t | b))⟩ := m <;> simp only [ownTagged?] at h
  case ok.status.tagged =>
    split at h
    · rename_i ht
      exact (Option.some.inj h) ▸ ht
    · simp at h
  all_goals simp at h

theorem responseFold_tagged {M : Type} {sent : Sent M} {ms : List ServerMessage} {m : ServerMessage}
    {output : ImapSendOutput M} (h : responseFold sent ms m = .ok output) :
    ∀ tagged ∈ output.tagged, tagged.tag = sent.tag := by
  unfold responseFold at h
  split at h
  · simp at h
  · obtain rfl := Except.ok.inj h
    intro tagged ht
    exact ownTagged?_tag ht

namespace ImapSend

variable {M F : Type}

theorem accepted_append {ms ns : List ServerMessage} :
    Accepted (ms ++ ns) ↔ Accepted ms ∧ Accepted ns := by
  simp [Accepted, or_imp, forall_and]

theorem accepted_of_goesOn {tag : Tag} {ms : List ServerMessage}
    (h : ∀ x ∈ ms, ¬ x.Terminates tag) :
    Accepted ms ∧ lastSome (·.signal? tag) ms = none := by
  constructor
  · intro x hx
    exact Option.not_isSome_iff_eq_none.mp fun hr => h x hx (.inr hr)
  · rw [lastSome_eq_none]
    intro x hx
    exact Option.not_isSome_iff_eq_none.mp fun hs => h x hx (.inl hs)

/-- What an exchange has folded when nothing has terminated it yet. -/
structure Folding (s : ImapSend M) (sent : Sent M) (past : List ServerMessage) : Prop where
  state : s.state = .read sent
  limboLiteral : s.limboLiteral = none
  goesOn : s.done = false
  data : s.data = past.filterMap data?
  untagged : s.untagged = past.filterMap untagged?
  tagged : s.tagged = none
  bye : s.bye = none
  cr : s.cr = none

theorem Folding.absorbAll {s : ImapSend M} {sent : Sent M} {past ms : List ServerMessage}
    (h : Folding s sent past) (hms : ∀ x ∈ ms, ¬ x.Terminates sent.tag) :
    Folding (s.absorbAll sent.tag ms) sent (past ++ ms) := by
  have hsig := (accepted_of_goesOn hms).2
  have hparts := fun x hx => signal?_eq_none.mp (lastSome_eq_none.mp hsig x hx)
  have htagged : lastSome (·.ownTagged? sent.tag) ms = none :=
    lastSome_eq_none.mpr fun x hx => (hparts x hx).1
  have hbye : lastSome bye? ms = none := lastSome_eq_none.mpr fun x hx => (hparts x hx).2.1
  have hcr : lastSome cr? ms = none := lastSome_eq_none.mpr fun x hx => (hparts x hx).2.2
  constructor
  · simp [h.state]
  · simp [h.limboLiteral]
  · simp [absorbAll_done, hsig, h.goesOn]
  · simp [h.data]
  · simp [h.untagged]
  · simp [htagged, h.tagged]
  · simp [hbye, h.bye]
  · simp [hcr, h.cr]

theorem Folding.absorb_output {s : ImapSend M} {sent : Sent M} {past : List ServerMessage}
    {m : ServerMessage} (h : Folding s sent past) (hm : (m.signal? sent.tag).isSome) :
    (s.absorb sent.tag m).done = true ∧
      responseFold sent past m = .ok ((s.absorb sent.tag m).output sent) := by
  obtain ⟨hdata, huntagged⟩ := data?_of_signal hm
  constructor
  · rw [absorb_done]
    obtain ⟨g, hg⟩ := Option.isSome_iff_exists.mp hm
    cases g <;> simp [hg, h.limboLiteral]
  · simp only [responseFold, refusal?_of_signal hm, output, absorb, hdata, huntagged, h.data,
      h.untagged, h.tagged, h.bye, h.cr, Option.toList_none, List.append_nil, Option.or_none]

variable [Fragmentizer F] [TryFrom Bytes Tag] [Encoder M]

theorem turn_readsOn {s : ImapSend M} {sent : Sent M} {past : List ServerMessage} {f : F}
    {data : Bytes} (h : Folding s sent past) (hne : data ≠ [])
    (hms : ∀ x ∈ messages (enqueueBytes f data), ¬ x.Terminates sent.tag) :
    ((imapSend M).turn ⟨s, f, some .read⟩ .read (some data) ()).out = .yielded .wantsRead ∧
      (imapSend M).finish ((imapSend M).turn ⟨s, f, some .read⟩ .read (some data) ()) =
        ⟨s.absorbAll sent.tag (messages (enqueueBytes f data)), drained (enqueueBytes f data),
          some .read⟩ := by
  have hnext := h.absorbAll hms
  have hres : s.resume (⟨f, []⟩ : Logged F) (some data) = (.yielded .wantsRead,
      s.absorbAll sent.tag (messages (enqueueBytes f data)), ⟨drained (enqueueBytes f data),
        [] ++ .fed data :: (messages (enqueueBytes f data)).map .completed⟩) := by
    rw [resume_read h.state, read_accepted hne (accepted_of_goesOn hms).1, settle, hnext.goesOn,
      hnext.limboLiteral]
    simp [awaitRead_eq hnext.state]
  simp [Coroutine.turn, Coroutine.finish, imapSend, hres, ImapYield.request]

theorem turn_completes {s : ImapSend M} {sent : Sent M} {past ms : List ServerMessage}
    {m : ServerMessage} {f : F} {data : Bytes} (h : Folding s sent past) (hne : data ≠ [])
    (hmessages : messages (enqueueBytes f data) = ms ++ [m])
    (hms : ∀ x ∈ ms, ¬ x.Terminates sent.tag) (hm : m.Terminates sent.tag) :
    ((imapSend M).turn ⟨s, f, some .read⟩ .read (some data) ()).out =
      .complete (responseFold sent (past ++ ms) m) := by
  have hnext := h.absorbAll hms
  rcases hr : m.refusal? with - | err
  · have hsig : (m.signal? sent.tag).isSome := hm.resolve_right (by simp [hr])
    obtain ⟨hdone, hfold⟩ := hnext.absorb_output hsig
    have hacc : Accepted (messages (enqueueBytes f data)) := by
      rw [hmessages, accepted_append]
      exact ⟨(accepted_of_goesOn hms).1, by simpa [Accepted] using hr⟩
    simp only [Coroutine.turn, imapSend, resume_read h.state, read_accepted hne hacc, hmessages,
      absorbAll_concat, settle, hdone, if_true, hfold]
  · obtain ⟨f', he⟩ := read_refused s sent [] hne hmessages (accepted_of_goesOn hms).1 hr
    simp only [Coroutine.turn, imapSend, resume_read h.state, he, responseFold, hr]

end ImapSend

/-- A response cut in two: the first read completes none of the messages that
terminate it, and the rest is a response behind it. -/
theorem IsResponse.split {F : Type} [Fragmentizer F] [LawfulFragmentizer F] {tag : Tag} {f : F}
    {a b : Bytes} {ms : List ServerMessage} {m : ServerMessage}
    (h : IsResponse tag f (a ++ b) ms m) (hb : b ≠ []) :
    ∃ ns, ms = Fragmentizer.messages (enqueueBytes f a) ++ ns ∧
      IsResponse tag (drained (enqueueBytes f a)) b ns m := by
  have hlen : a.length < (a ++ b).length := by
    have := List.length_pos_of_ne_nil hb
    simp only [List.length_append]
    omega
  have hfirst := h.last a.length hlen
  rw [List.take_left] at hfirst
  have hsplit := LawfulFragmentizer.messages_append f a b
  rw [h.messages] at hsplit
  have hprefix : Fragmentizer.messages (enqueueBytes f a) <+: ms :=
    List.prefix_of_prefix_length_le ⟨_, hsplit.symm⟩ (List.prefix_append ms [m]) hfirst
  obtain ⟨ns, rfl⟩ := hprefix
  rw [List.append_assoc, List.append_cancel_left_eq] at hsplit
  refine ⟨ns, rfl, hsplit.symm, fun k hk => ?_, fun x hx => h.goesOn x (by simp [hx]), h.terminates⟩
  have hk' : a.length + k < (a ++ b).length := by
    simp only [List.length_append]
    omega
  have hcut := h.last (a.length + k) hk'
  rw [List.take_length_add_append, LawfulFragmentizer.messages_append] at hcut
  simp only [List.length_append] at hcut
  omega

namespace ImapSend

variable {M F : Type} [Fragmentizer F] [LawfulFragmentizer F] [TryFrom Bytes Tag] [Encoder M]

/-- Reading a response read by read: `WantsRead` until the last read, then the fold. -/
theorem play_reads {s : ImapSend M} {sent : Sent M} {past ms : List ServerMessage}
    {m : ServerMessage} {f : F} {reads : List Bytes} (h : Folding s sent past)
    (hreads : reads ≠ []) (hne : ∀ r ∈ reads, r ≠ [])
    (hresp : IsResponse sent.tag f reads.flatten ms m) :
    ∃ ts b, (imapSend M).play ⟨s, f, some .read⟩ (reads.map fun r => (some r, ())) = some (ts, b) ∧
      ts.map (·.out) = List.replicate (reads.length - 1) (.yielded .wantsRead) ++
        [.complete (responseFold sent (past ++ ms) m)] := by
  induction reads generalizing s past f ms with
  | nil => exact absurd rfl hreads
  | cons r rest ih =>
    have hr := hne r (List.mem_cons_self ..)
    cases rest with
    | nil =>
      rw [List.flatten_cons, List.flatten_nil, List.append_nil] at hresp
      have hout := turn_completes h hr hresp.messages hresp.goesOn hresp.terminates
      exact ⟨_, _, rfl, by simpa using hout⟩
    | cons r' rest =>
      have hne' : ∀ x ∈ r' :: rest, x ≠ [] := fun x hx => hne x (List.mem_cons_of_mem _ hx)
      have hflat : (r' :: rest).flatten ≠ [] := by
        simp [hne' r' (List.mem_cons_self ..)]
      rw [List.flatten_cons] at hresp
      obtain ⟨ns, rfl, hresp'⟩ := hresp.split hflat
      have hms : ∀ x ∈ messages (enqueueBytes f r), ¬ x.Terminates sent.tag :=
        fun x hx => hresp.goesOn x (List.mem_append_left _ hx)
      obtain ⟨hout, hfinish⟩ := turn_readsOn h hr hms
      obtain ⟨ts, b, hplay, houts⟩ := ih (h.absorbAll hms) (by simp) hne' hresp'
      refine ⟨(imapSend M).turn ⟨s, f, some .read⟩ .read (some r) () :: ts, b, ?_, ?_⟩
      · exact Coroutine.play_cons _ rfl rfl (hfinish ▸ hplay)
      · simp only [List.map_cons, hout, houts, List.append_assoc, List.length_cons,
          Nat.add_sub_cancel, List.replicate_succ, List.cons_append]

end ImapSend

/-- The exchange of a command without synchronising literals: tag, write, reads
until the response is consumed however it was cut, and its reference fold. -/
theorem exchange_folds_response {M F : Type} [Fragmentizer F] [LawfulFragmentizer F]
    [TryFrom Bytes Tag] [Encoder M] [LawfulEncoder M] (command : UntaggedCommand M)
    {tagBytes : Bytes} {tag : Tag} (htag : TryFrom.tryFrom tagBytes = .ok tag)
    (hsync : ∀ x ∈ Encoder.encode (command.intoMessage ⟨tag, command.body⟩), x.IsSync = false)
    {f : F} {ms : List ServerMessage} {m : ServerMessage} {reads : List Bytes}
    (hreads : reads ≠ []) (hne : ∀ r ∈ reads, r ≠ [])
    (hresp : IsResponse tag f reads.flatten ms m) :
    let message := command.intoMessage ⟨tag, command.body⟩
    let result := responseFold ⟨message, tag⟩ ms m
    (∃ ts b, (imapSend M).play (Coroutine.start (ImapSend.fresh (.tag command false) []) f)
        ((none, ()) :: (some tagBytes, ()) :: (none, ()) :: reads.map fun r => (some r, ())) =
          some (ts, b) ∧
      ts.map (·.out) =
        [.yielded .wantsTag, .yielded (.wantsWrite ((Encoder.encode message).flatMap Fragment.data))] ++
          List.replicate reads.length (.yielded .wantsRead) ++ [.complete result]) ∧
    ∀ output, result = .ok output → ∀ tagged ∈ output.tagged, tagged.tag = tag := by
  intro message result
  refine ⟨?_, fun output => responseFold_tagged⟩
  let s0 : ImapSend M := ImapSend.fresh (.tag command false) []
  let s1 : ImapSend M := ImapSend.fresh (.tag command true) []
  let s2 : ImapSend M := ImapSend.fresh (.read ⟨message, tag⟩) []
  have hplain := ImapSend.takeFragments_plain hsync []
  have hframed : Framed (Encoder.encode message) := LawfulEncoder.framed message
  have hwrite : s1.resume (⟨f, []⟩ : Logged F) (some tagBytes) =
      (.yielded (.wantsWrite ((Encoder.encode message).flatMap Fragment.data)), s2, ⟨f, []⟩) := by
    simp only [ImapSend.resume, s1, ImapSend.fresh, htag]
    rw [ImapSend.serialize_framed _ hframed]
    simp only [ImapSend.takeBuffer, ImapSend.written, Option.getD_none, message, hplain]
    rfl
  have hfolding : ImapSend.Folding s2 ⟨message, tag⟩ [] := ⟨rfl, rfl, rfl, rfl, rfl, rfl, rfl, rfl⟩
  obtain ⟨ts, b, hplay, houts⟩ := ImapSend.play_reads hfolding hreads hne hresp
  let t0 := (imapSend M).turn (⟨s0, f, some .nothing⟩ : Config (ImapSend M) F) .nothing none ()
  let t1 := (imapSend M).turn (⟨s1, f, some .tag⟩ : Config (ImapSend M) F) .tag (some tagBytes) ()
  let t2 := (imapSend M).turn (⟨s2, f, some .nothing⟩ : Config (ImapSend M) F) .nothing none ()
  have h1 : t1.out = .yielded (.wantsWrite ((Encoder.encode message).flatMap Fragment.data)) ∧
      (imapSend M).finish t1 = ⟨s2, f, some .nothing⟩ := by
    simp [t1, Coroutine.turn, Coroutine.finish, imapSend, hwrite, ImapYield.request]
  have h2 : (imapSend M).finish t2 = ⟨s2, f, some .read⟩ := rfl
  have hplay2 : (imapSend M).play ⟨s2, f, some .nothing⟩
      ((none, ()) :: reads.map fun r => (some r, ())) = some (t2 :: ts, b) :=
    Coroutine.play_cons _ rfl rfl (h2 ▸ hplay)
  have hplay1 : (imapSend M).play ⟨s1, f, some .tag⟩ ((some tagBytes, ()) :: (none, ()) ::
      reads.map fun r => (some r, ())) = some (t1 :: t2 :: ts, b) :=
    Coroutine.play_cons _ rfl rfl (h1.2 ▸ hplay2)
  refine ⟨t0 :: t1 :: t2 :: ts, b, Coroutine.play_cons _ rfl rfl hplay1, ?_⟩
  have hlen : reads.length = reads.length - 1 + 1 := by
    have := List.length_pos_of_ne_nil hreads
    omega
  rw [hlen, List.replicate_succ]
  simp only [List.map_cons, houts, h1.1]
  rfl

section Concrete

open Concrete

def idleLine : UntaggedCommand EncodedMessage where
  body := .idle
  intoMessage command := ⟨[.line (command.tag.inner ++ ascii " IDLE\r\n")], .line (by simp [ascii])⟩

def idleReplies : List (Bytes × Response) :=
  [(ascii "* 3 EXISTS\r\n", .data (.exists 3)),
    (ascii "B7 OK late\r\n", .status (.tagged ⟨⟨ascii "B7"⟩, ⟨.ok, none, "late"⟩⟩)),
    (ascii "+ idling\r\n", .commandContinuationRequest (.basic "idling"))]

/-- An EXISTS, an undecodable untagged response, a foreign completion and the
continuation request, cut into four reads. -/
def idleReads : List Bytes :=
  [ascii "* 3 EXI", ascii "STS\r\n* ga", ascii "rbage\r\nB7 OK late\r\n+ idl", ascii "ing\r\n"]

theorem idleReads_isResponse :
    IsResponse ⟨ascii "A1"⟩ (LineFragmentizer.empty : LineFragmentizer (decodeTable idleReplies))
      idleReads.flatten
      [⟨ascii "* 3 EXISTS\r\n", .ok (.data (.exists 3))⟩,
        ⟨ascii "* garbage\r\n", .error .decodingFailure⟩,
        ⟨ascii "B7 OK late\r\n", .ok (.status (.tagged ⟨⟨ascii "B7"⟩, ⟨.ok, none, "late"⟩⟩))⟩]
      ⟨ascii "+ idling\r\n", .ok (.commandContinuationRequest (.basic "idling"))⟩ :=
  ⟨by decide +kernel, by decide +kernel, by decide, by decide⟩

theorem exchange_folds_idle : ∃ ts b,
    (imapSend EncodedMessage).play (Coroutine.start (ImapSend.fresh (.tag idleLine false) [])
        (LineFragmentizer.empty : LineFragmentizer (decodeTable idleReplies)))
      ((none, ()) :: (some (ascii "A1"), ()) :: (none, ()) :: idleReads.map fun r => (some r, ())) =
        some (ts, b) ∧
    ts.map (·.out) = [.yielded .wantsTag, .yielded (.wantsWrite (ascii "A1 IDLE\r\n"))] ++
      List.replicate 4 (.yielded .wantsRead) ++
        [.complete (.ok {
          message := idleLine.intoMessage ⟨⟨ascii "A1"⟩, .idle⟩
          tag := ⟨ascii "A1"⟩
          data := [.exists 3]
          untagged := []
          tagged := none
          bye := none
          continuationRequest := some (.basic "idling") })] :=
  have htag : TryFrom.tryFrom (ascii "A1") = Except.ok (⟨ascii "A1"⟩ : Tag) := rfl
  (exchange_folds_response idleLine htag (by decide) (by decide) (by decide)
    idleReads_isResponse).1

/-- A message of more than `limit` octets is not decoded but reported as too long. -/
def decodeWithin (limit : Nat) (table : List (Bytes × Response)) (bytes : Bytes) :
    Except DecodeMessageError Response :=
  if limit < bytes.length then .error .messageTooLong else decodeTable table bytes

def SendTurn.succeeds {F : Type} (t : SendTurn EncodedMessage F) : Bool :=
  match t.out with
  | .complete (.ok _) => true
  | _ => false

/-- An untagged message that is too long is not skipped as one that does not decode is: it ends
the exchange with an error, and the continuation request behind it is not taken. -/
theorem overlong_untagged_fails :
    ¬ ∀ (stream : Bytes) (ms : List ServerMessage) (m : ServerMessage),
        messages (enqueueBytes (LineFragmentizer.empty : LineFragmentizer (decodeWithin 16 idleReplies))
          stream) = ms ++ [m] →
        (∀ x ∈ ms, x.signal? ⟨ascii "A1"⟩ = none ∧
          (untaggedPrefix <+: x.bytes ∨ ∃ response, x.decoded = .ok response)) →
        (m.signal? ⟨ascii "A1"⟩).isSome →
        ∃ ts b, (imapSend EncodedMessage).play
            (Coroutine.start (ImapSend.fresh (.tag idleLine false) [])
              (LineFragmentizer.empty : LineFragmentizer (decodeWithin 16 idleReplies)))
            [(none, ()), (some (ascii "A1"), ()), (none, ()), (some stream, ())] = some (ts, b) ∧
          ts.map (·.out) = [.yielded .wantsTag, .yielded (.wantsWrite (ascii "A1 IDLE\r\n")),
            .yielded .wantsRead,
            .complete (responseFold ⟨idleLine.intoMessage ⟨⟨ascii "A1"⟩, .idle⟩, ⟨ascii "A1"⟩⟩ ms m)] := by
  intro h
  let overlong : ServerMessage := ⟨ascii "* 7 FETCH (FLAGS ())\r\n", .error .messageTooLong⟩
  let idling : ServerMessage :=
    ⟨ascii "+ idling\r\n", .ok (.commandContinuationRequest (.basic "idling"))⟩
  have hskipped : ∀ x ∈ [overlong], x.signal? ⟨ascii "A1"⟩ = none ∧
      (untaggedPrefix <+: x.bytes ∨ ∃ response, x.decoded = .ok response) := by
    intro x hx
    obtain rfl := List.mem_singleton.mp hx
    exact ⟨rfl, .inl (by decide)⟩
  obtain ⟨ts, b, hplay, houts⟩ := h (overlong.bytes ++ idling.bytes) [overlong] idling
    (by decide +kernel) hskipped (by decide)
  have hfails : ((imapSend EncodedMessage).play
      (Coroutine.start (ImapSend.fresh (.tag idleLine false) [])
        (LineFragmentizer.empty : LineFragmentizer (decodeWithin 16 idleReplies)))
      [(none, ()), (some (ascii "A1"), ()), (none, ()),
        (some (overlong.bytes ++ idling.bytes), ())]).all
          (fun r => r.1.all fun t => !SendTurn.succeeds t) = true := by decide +kernel
  rw [hplay, Option.all_some, List.all_eq_true] at hfails
  have hlast : (ts.map (·.out)).getLast? = some (.complete (responseFold
      ⟨idleLine.intoMessage ⟨⟨ascii "A1"⟩, .idle⟩, ⟨ascii "A1"⟩⟩ [overlong] idling)) := by
    rw [houts]
    rfl
  obtain ⟨t, ht, hout⟩ := List.mem_map.mp (List.mem_of_getLast? hlast)
  have hsucceeds : SendTurn.succeeds t = true := by
    simp only [SendTurn.succeeds, hout]
    rfl
  have hno := hfails t ht
  rw [hsucceeds] at hno
  exact absurd hno (by decide)

end Concrete
end IoImap
