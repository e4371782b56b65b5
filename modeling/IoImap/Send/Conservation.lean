import IoImap.Exchange
import IoImap.Send.Literal

/-!
# What an exchange writes

The payloads of an exchange are consecutive pieces of the message: a piece ends
where a synchronising literal waits to be asked for, and the last one at the end
of the message. An exchange that succeeds has written all of them, unless the
server ended it while a literal was held back.
-/

namespace IoImap
open Fragmentizer ServerMessage Transition

/-! ### The pieces of a message -/

/-- The octets end where a line announces a synchronising literal. -/
def EndsAtAnnouncement (fragments : List Fragment) (octets : Bytes) : Prop :=
  ∃ before line literal after, fragments = before ++ .line line :: .literal literal .sync :: after ∧
    octets = (before ++ [.line line]).flatMap Fragment.data

/-- The writes that a message takes; where there is no message, none. -/
def pieces (fragments : List Fragment) : List Bytes :=
  if fragments = [] then [] else buffers [] fragments

theorem Framed.ne_nil {fragments : List Fragment} (h : Framed fragments) : fragments ≠ [] := by
  cases h <;> simp

theorem pieces_framed {fragments : List Fragment} (h : Framed fragments) :
    pieces fragments = buffers [] fragments := if_neg h.ne_nil

/-- A literal of a message stands behind a line. -/
theorem Framed.announced {fragments before after : List Fragment} {literal : Bytes} {mode : LiteralMode}
    (h : Framed fragments) (hsplit : fragments = before ++ .literal literal mode :: after) :
    ∃ init line, before = init ++ [.line line] := by
  induction h generalizing before with
  | line =>
    rcases List.append_eq_singleton_iff.mp hsplit.symm with ⟨-, hnil⟩ | ⟨-, hnil⟩ <;> simp at hnil
  | @literal data octets mode' rest hdata hrest ih =>
    cases before with
    | nil => simp at hsplit
    | cons x before =>
      cases before with
      | nil =>
        obtain rfl : Fragment.line data = x := (List.cons.inj hsplit).1
        exact ⟨[], data, rfl⟩
      | cons y before =>
        simp only [List.cons_append, List.cons.injEq] at hsplit
        obtain ⟨rfl, rfl, hrest⟩ := hsplit
        obtain ⟨init, line, rfl⟩ := ih hrest
        exact ⟨.line data :: .literal octets mode' :: init, line, rfl⟩

/-- Where a piece ends, the fragments are cut in front of a synchronising literal, or
at their end. -/
theorem buffers_cut {fragments : List Fragment} {buf bytes : Bytes} {pre post : List Bytes}
    (h : buffers buf fragments = pre ++ bytes :: post) :
    (post = [] ∧ (pre ++ [bytes]).flatten = buf ++ fragments.flatMap Fragment.data) ∨
      ∃ before literal after, fragments = before ++ .literal literal .sync :: after ∧
        (pre ++ [bytes]).flatten = buf ++ before.flatMap Fragment.data := by
  induction fragments generalizing buf pre with
  | nil =>
    obtain ⟨rfl, rfl, rfl⟩ : pre = [] ∧ buf = bytes ∧ post = [] := by
      cases pre with
      | nil => simpa [buffers, eq_comm] using h
      | cons p pre => simp [buffers] at h
    exact .inl ⟨rfl, by simp⟩
  | cons x rest ih =>
    -- a fragment that goes into the same piece
    have hgoesOn : ∀ data, x.data = data → buffers (buf ++ data) rest = pre ++ bytes :: post →
        (post = [] ∧ (pre ++ [bytes]).flatten = buf ++ (x :: rest).flatMap Fragment.data) ∨
          ∃ before literal after, x :: rest = before ++ .literal literal .sync :: after ∧
            (pre ++ [bytes]).flatten = buf ++ before.flatMap Fragment.data := by
      intro data hdata hrest
      rcases ih hrest with ⟨hpost, hflat⟩ | ⟨before, literal, after, hsplit, hflat⟩
      · exact .inl ⟨hpost, by rw [hflat, List.flatMap_cons, hdata, List.append_assoc]⟩
      · refine .inr ⟨x :: before, literal, after, by rw [hsplit]; rfl, ?_⟩
        rw [hflat, List.flatMap_cons, hdata, List.append_assoc]
    rcases x with data | ⟨data, - | -⟩
    · exact hgoesOn data rfl h
    · simp only [buffers] at h
      cases pre with
      | nil =>
        obtain ⟨rfl, -⟩ := List.cons.inj h
        exact .inr ⟨[], data, rest, rfl, by simp⟩
      | cons p pre =>
        rw [List.cons_append, List.cons.injEq] at h
        obtain ⟨rfl, hrest⟩ := h
        rcases ih hrest with ⟨hpost, hflat⟩ | ⟨before, literal, after, hsplit, hflat⟩
        · refine .inl ⟨hpost, ?_⟩
          rw [List.cons_append, List.flatten_cons, hflat, List.flatMap_cons, Fragment.data]
        · refine .inr ⟨.literal data .sync :: before, literal, after, by rw [hsplit]; rfl, ?_⟩
          rw [List.cons_append, List.flatten_cons, hflat, List.flatMap_cons, Fragment.data]
    · exact hgoesOn data rfl h

theorem flatten_buffers (buf : Bytes) (fragments : List Fragment) :
    (buffers buf fragments).flatten = buf ++ fragments.flatMap Fragment.data := by
  induction fragments generalizing buf with
  | nil => simp [buffers]
  | cons x rest ih =>
    rcases x with data | ⟨data, - | -⟩ <;>
      simp only [buffers, ih, List.flatten_cons, List.flatMap_cons, List.append_assoc, Fragment.data]

theorem flatten_pieces (fragments : List Fragment) :
    (pieces fragments).flatten = fragments.flatMap Fragment.data := by
  by_cases h : fragments = []
  · simp [pieces, h]
  · rw [pieces, if_neg h, flatten_buffers, List.nil_append]

theorem pieces_cut {fragments : List Fragment} (hframed : fragments = [] ∨ Framed fragments)
    {pre post : List Bytes} {bytes : Bytes} (h : pieces fragments = pre ++ bytes :: post) :
    (post = [] ∧ (pre ++ [bytes]).flatten = fragments.flatMap Fragment.data) ∨
      EndsAtAnnouncement fragments (pre ++ [bytes]).flatten := by
  rcases hframed with rfl | hframed
  · simp [pieces] at h
  · rw [pieces_framed hframed] at h
    rcases buffers_cut h with ⟨hpost, hflat⟩ | ⟨before, literal, after, hsplit, hflat⟩
    · exact .inl ⟨hpost, by simpa using hflat⟩
    · obtain ⟨init, line, rfl⟩ := hframed.announced hsplit
      exact .inr ⟨init, line, literal, after, by simpa using hsplit, by simpa using hflat⟩

theorem Framed.octets_ne_nil {fragments : List Fragment} (h : Framed fragments) :
    fragments.flatMap Fragment.data ≠ [] := by
  cases h with
  | line hd => simpa [Fragment.data] using hd
  | literal hd _ => simp [Fragment.data, hd]

/-! ### What a run has written -/

/-- What a resume writes. -/
def Turn.payload? {S F Env R : Type} (t : Turn S F Env ImapYield R) : Option Bytes :=
  match t.out with
  | .yielded (.wantsWrite bytes) => some bytes
  | _ => none

def payloads {S F Env R : Type} (es : List (Turn S F Env ImapYield R)) : List Bytes :=
  es.filterMap Turn.payload?

theorem payloads_concat {S F Env R : Type} (es : List (Turn S F Env ImapYield R))
    (t : Turn S F Env ImapYield R) : payloads (es ++ [t]) = payloads es ++ t.payload?.toList := by
  rw [payloads, List.filterMap_append]
  cases h : t.payload? <;> simp [payloads, h]

/-- The read that a resume is given ends the exchange on its tagged completion, and a
literal was held back. -/
def Turn.EndsHeld {M F Env Y R : Type} (t : Turn (ImapSend M) F Env Y R) : Prop :=
  t.before.limboLiteral.isSome ∧
    ∃ tag ∈ t.before.tag?, lastSome (·.signal? tag) t.completed = some .completion

instance {M F Env Y R : Type} (t : Turn (ImapSend M) F Env Y R) : Decidable t.EndsHeld :=
  inferInstanceAs (Decidable (_ ∧ ∃ tag ∈ t.before.tag?, _))

namespace SendTurn

variable {M F : Type}

/-- The exchange ended on a BYE or on its tagged completion, and a literal was held back. -/
def CutShort (t : SendTurn M F) (tag : Tag) : Prop :=
  t.before.limboLiteral.isSome ∧ ∃ m ∈ t.completed, m.Ends tag

end SendTurn

variable {M F : Type}

/-- The fragments that an exchange has to write: those of its message, which is known
once the tag is given. -/
inductive Says [TryFrom Bytes Tag] [Encoder M] (es : List (SendTurn M F)) :
    ImapSend M → List Fragment → Prop where
  | new (message : M) (tag : Tag) : Says es (.new message tag) (Encoder.encode message)
  | receive (message : M) (tag : Tag) : Says es (.receive message tag) []
  | untagged (command : UntaggedCommand M)
      (h : ∀ bytes ∈ es.filterMap Turn.tag?, ∀ tag : Tag, TryFrom.tryFrom bytes ≠ Except.ok tag) :
      Says es (ImapSend.fresh (.tag command false) []) []
  | tagged (command : UntaggedCommand M) {bytes : Bytes} {tag : Tag}
      (hgiven : bytes ∈ es.filterMap Turn.tag?) (htag : TryFrom.tryFrom bytes = Except.ok tag) :
      Says es (ImapSend.fresh (.tag command false) [])
        (Encoder.encode (command.intoMessage ⟨tag, command.body⟩))

/-- The payloads written in a run are the first fragments, each once and in order; they
end at announcements, or at the end; and a success has written all of them, unless the
server cut it short. -/
structure Conserved (fragments : List Fragment) (es : List (SendTurn M F)) : Prop where
  inOrder : ∃ written, written <+: fragments ∧
    (payloads es).flatten = written.flatMap Fragment.data
  cut : ∀ pre bytes post, payloads es = pre ++ bytes :: post →
    EndsAtAnnouncement fragments (pre ++ [bytes]).flatten ∨
      (post = [] ∧ (payloads es).flatten = fragments.flatMap Fragment.data)
  complete : ∀ t ∈ es, ∀ out, t.out = .complete (.ok out) → ¬ t.CutShort out.tag →
    (payloads es).flatten = fragments.flatMap Fragment.data

section Conserved

variable {fragments : List Fragment} {es : List (SendTurn M F)}

/-- Consecutive pieces from the first on are conserved. -/
theorem Conserved.of_pieces (hframed : fragments = [] ∨ Framed fragments)
    (hpieces : payloads es <+: pieces fragments)
    (hcomplete : ∀ t ∈ es, ∀ out, t.out = .complete (.ok out) → ¬ t.CutShort out.tag →
      payloads es = pieces fragments) : Conserved fragments es := by
  obtain ⟨rest, hrest⟩ := hpieces
  have hcut : ∀ pre bytes post, payloads es = pre ++ bytes :: post →
      EndsAtAnnouncement fragments (pre ++ [bytes]).flatten ∨
        (post = [] ∧ (payloads es).flatten = fragments.flatMap Fragment.data) := by
    intro pre bytes post hpost
    have hsplit : pieces fragments = pre ++ bytes :: (post ++ rest) := by
      rw [← hrest, hpost, List.append_assoc]
      rfl
    rcases pieces_cut hframed hsplit with ⟨hnil, hflat⟩ | hends
    · obtain ⟨rfl, rfl⟩ := List.append_eq_nil_iff.mp hnil
      exact .inr ⟨rfl, by rw [hpost]; exact hflat⟩
    · exact .inl hends
  refine ⟨?_, hcut, fun t ht out hout hno => by rw [hcomplete t ht out hout hno, flatten_pieces]⟩
  rcases List.eq_nil_or_concat (payloads es) with hnil | ⟨pre, bytes, hlast⟩
  · exact ⟨[], List.nil_prefix, by rw [hnil]; rfl⟩
  · rw [List.concat_eq_append] at hlast
    rcases hcut pre bytes [] hlast with ⟨before, line, literal, after, hfragments, hoctets⟩ | ⟨-, hall⟩
    · refine ⟨before ++ [.line line], ⟨.literal literal .sync :: after, ?_⟩, by rw [hlast]; exact hoctets⟩
      rw [hfragments, List.append_assoc]
      rfl
    · exact ⟨fragments, List.prefix_rfl, hall⟩

theorem Conserved.ongoing (hframed : fragments = [] ∨ Framed fragments)
    (hpieces : payloads es <+: pieces fragments) (h : ∀ t ∈ es, ∀ r, t.out ≠ .complete r) :
    Conserved fragments es :=
  .of_pieces hframed hpieces fun t ht _ hout => absurd hout (h t ht _)

end Conserved

theorem tag?_of_reads {s : ImapSend M} {t : SendTurn M F}
    (hstate : ∀ command requested, s.state ≠ .tag command requested)
    (hawaits : s.Awaits t.due) : t.tag? = none := by
  have hdue : t.due ≠ .tag := by
    intro hdue
    rw [ImapSend.Awaits] at hawaits
    split at hawaits
    · exact hstate _ _ ‹_›
    · simp [hdue] at hawaits
    · simp [hdue] at hawaits
  rw [Turn.tag?, if_neg hdue]

/-- What is left to write between two resumes. -/
def Remains (start s : ImapSend M) (fragments : List Fragment) (written : List Bytes) : Prop :=
  match s.state with
  | .tag command _ =>
    start = ImapSend.fresh (.tag command false) [] ∧ fragments = [] ∧ written = []
  | .serialize _ => Framed fragments ∧ s.fragments = fragments ∧ written = []
  | .read _ => written ++ s.unwritten = pieces fragments

theorem remains_read {start s : ImapSend M} {fragments : List Fragment} {written : List Bytes}
    {sent : Sent M} (hs : s.state = .read sent) :
    Remains start s fragments written ↔ written ++ s.unwritten = pieces fragments := by
  rw [Remains, hs]

theorem Remains.starts {start s : ImapSend M} {fragments : List Fragment} {written : List Bytes}
    (h : Remains start s fragments written) : written <+: pieces fragments := by
  unfold Remains at h
  split at h
  · rw [h.2.2]
    exact List.nil_prefix
  · rw [h.2.2]
    exact List.nil_prefix
  · exact ⟨_, h⟩

section Runs

variable [TryFrom Bytes Tag] [Encoder M]

theorem Says.concat {start : ImapSend M} {fragments : List Fragment} {es : List (SendTurn M F)}
    {t : SendTurn M F} (h : Says es start fragments)
    (ht : ∀ bytes, t.tag? = some bytes → ∀ tag : Tag, TryFrom.tryFrom bytes ≠ Except.ok tag) :
    Says (es ++ [t]) start fragments := by
  cases h with
  | new message tag => exact .new message tag
  | receive message tag => exact .receive message tag
  | untagged command h =>
    refine .untagged command fun bytes hbytes => ?_
    rw [List.filterMap_append, List.mem_append] at hbytes
    rcases hbytes with hbytes | hbytes
    · exact h bytes hbytes
    · exact ht bytes (by simpa using hbytes)
  | tagged command hgiven htag =>
    exact .tagged command (by rw [List.filterMap_append]; exact List.mem_append_left _ hgiven) htag

/-- Between two resumes of a run that has not completed. -/
structure Accounted (start : ImapSend M) (fragments : List Fragment) (es : List (SendTurn M F))
    (s : ImapSend M) (due : Request) : Prop where
  ready : s.Ready
  awaits : s.Awaits due
  message : Says es start fragments
  framed : fragments = [] ∨ Framed fragments
  remains : Remains start s fragments (payloads es)
  ongoing : ∀ t ∈ es, ∀ r, t.out ≠ .complete r

variable {start : ImapSend M} {fragments : List Fragment} {es : List (SendTurn M F)} {t : SendTurn M F}

theorem Accounted.yields {due : Request} {s : ImapSend M} {y : ImapYield}
    {fragments' : List Fragment} (h : Accounted start fragments es s due)
    (hout : t.out = .yielded y) (hready : t.after.Ready ∧ t.after.Awaits y.request)
    (htelling : Says (es ++ [t]) start fragments') (hframed : fragments' = [] ∨ Framed fragments')
    (hremains : Remains start t.after fragments' (payloads (es ++ [t]))) :
    ∃ fragments', Says (es ++ [t]) start fragments' ∧ Conserved fragments' (es ++ [t]) ∧
      Accounted start fragments' (es ++ [t]) t.after y.request := by
  have hongoing : ∀ x ∈ es ++ [t], ∀ r, x.out ≠ .complete r := by
    intro x hx r
    rcases List.mem_append.mp hx with hx | hx
    · exact h.ongoing x hx r
    · rw [List.mem_singleton.mp hx, hout]
      simp
  exact ⟨fragments', htelling, .ongoing hframed hremains.starts hongoing,
    hready.1, hready.2, htelling, hframed, hremains, hongoing⟩

/-- A resume that completes: when it succeeds and is not cut short, nothing is left. -/
theorem Accounted.completes {due : Request} {s : ImapSend M}
    {r : Except ImapSendError (ImapSendOutput M)} (h : Accounted start fragments es s due)
    (hout : t.out = .complete r) (htelling : Says (es ++ [t]) start fragments)
    (hall : ∀ out, r = .ok out → ¬ t.CutShort out.tag → payloads es = pieces fragments) :
    Says (es ++ [t]) start fragments ∧ Conserved fragments (es ++ [t]) := by
  have hpayloads : payloads (es ++ [t]) = payloads es := by
    rw [payloads_concat, Turn.payload?, hout]
    simp
  refine ⟨htelling, .of_pieces h.framed (by rw [hpayloads]; exact h.remains.starts) ?_⟩
  intro x hx out hok hno
  rw [hpayloads]
  rcases List.mem_append.mp hx with hx | hx
  · exact absurd hok (h.ongoing x hx _)
  · obtain rfl := List.mem_singleton.mp hx
    exact hall out (by simpa [hout] using hok) hno

variable [LawfulEncoder M]

theorem accounted_start {s : ImapSend M} (h : s.Initial) :
    ∃ fragments, Accounted s fragments ([] : List (SendTurn M F)) s .nothing := by
  have hready := h.ready
  have hawaits := h.awaits
  cases h with
  | command command =>
    exact ⟨[], hready, hawaits, .untagged command (by simp), .inl rfl, ⟨rfl, rfl, rfl⟩, by simp⟩
  | new message tag =>
    have hframed : Framed (Encoder.encode message) := LawfulEncoder.framed message
    exact ⟨_, hready, hawaits, .new message tag, .inr hframed, ⟨hframed, rfl, rfl⟩, by simp⟩
  | receive message tag => exact ⟨[], hready, hawaits, .receive message tag, .inl rfl, rfl, by simp⟩

variable [Fragmentizer F]

omit [TryFrom Bytes Tag] [Encoder M] [LawfulEncoder M] in
/-- A success that is not cut short finds no literal held back. -/
theorem not_held_of_completes {s s' : ImapSend M} {f f' : F} {due : Request} {arg : Option Bytes}
    {env : Unit} {out : ImapSendOutput M} {events : List FragmentizerEvent} (hready : s.Ready)
    (hr : s.Resumed f arg (.complete (.ok out)) s' f' events)
    (hno : ¬ SendTurn.CutShort ⟨s, f, due, arg, env, .complete (.ok out), s', f', events⟩ out.tag) :
    s.limboLiteral = none := by
  cases hr with
  | @completes sent data hs hne hms hdone =>
    by_contra hheld
    have hlimbo : s.limboLiteral.isSome := Option.isSome_iff_ne_none.mpr hheld
    refine hno ⟨hlimbo, ?_⟩
    rw [Turn.completed_read rfl]
    rcases (absorbAll_done_held hready.goesOn hlimbo _).mp hdone with hlast | hlast
    · obtain ⟨m, hm, hsig⟩ := exists_of_lastSome hlast
      exact ⟨m, hm, .inl hsig⟩
    · obtain ⟨m, hm, hsig⟩ := exists_of_lastSome hlast
      exact ⟨m, hm, .inr hsig⟩

/-- One resume: what is known of the run goes on to hold, or holds of the whole run. -/
theorem accounted_step {a b : Config (ImapSend M) F} {due : Request}
    (h : Accounted start fragments es a.state due) (hdue : a.due = some due)
    (hstep : (imapSend M).Step a t b) :
    ∃ fragments', Says (es ++ [t]) start fragments' ∧ Conserved fragments' (es ++ [t]) ∧
      ∀ due', b.due = some due' → Accounted start fragments' (es ++ [t]) b.state due' := by
  obtain ⟨due', arg, env, out, s', f', log, hdue', hans, he, rfl, rfl⟩ :=
    (imapSend M).step_cases hstep
  obtain rfl : due = due' := Option.some.inj (hdue.symm.trans hdue')
  obtain ⟨out', s'', f'', events, he', hr⟩ := ImapSend.resume_spec h.ready a.frag [] arg
  cases he'.symm.trans he
  have htells := ImapSend.resume_tells h.ready h.awaits hans he
  let t : SendTurn M F := ⟨a.state, a.frag, due, arg, env, out, s', f', events⟩
  have hremains := h.remains
  have hawaits : a.state.Awaits t.due := h.awaits
  have hyields : ∀ y fragments', out = .yielded y → Says (es ++ [t]) start fragments' →
      (fragments' = [] ∨ Framed fragments') → Remains start s' fragments' (payloads (es ++ [t])) →
      ∃ fragments', Says (es ++ [t]) start fragments' ∧ Conserved fragments' (es ++ [t]) ∧
        ∀ due', (match out with
            | .yielded y => some ((imapSend M).request y)
            | .complete _ => none) = some due' →
          Accounted start fragments' (es ++ [t]) s' due' := by
    intro y fragments' hout htelling hframed hrest
    subst hout
    obtain ⟨fragments'', htelling', hconserved, hnext⟩ := h.yields (t := t) rfl (hr.ready h.ready) htelling
      hframed hrest
    exact ⟨fragments'', htelling', hconserved, fun due' hdue' => Option.some.inj hdue' ▸ hnext⟩
  cases htells with
  | @asks command hs =>
    simp only [Remains, hs] at hremains
    simp only [ImapSend.Awaits, hs] at hawaits
    have htag : t.tag? = none := by simp [Turn.tag?, hawaits]
    refine hyields _ fragments rfl (h.message.concat (by simp [htag])) h.framed ?_
    rw [payloads_concat]
    simpa [Remains, Turn.payload?, t] using hremains
  | @refuses command bytes err e hs harg htag =>
    have htelling : Says (es ++ [t]) start fragments := by
      refine h.message.concat fun bytes' hbytes' tag htag' => ?_
      have hgiven : t.arg = some bytes' := by
        rw [Turn.tag?] at hbytes'
        split at hbytes'
        · exact hbytes'
        · simp at hbytes'
      obtain rfl : bytes = bytes' := Option.some.inj (harg.symm.trans hgiven)
      simp [htag] at htag'
    obtain ⟨htelling', hconserved⟩ := h.completes (t := t) rfl htelling (by simp)
    exact ⟨fragments, htelling', hconserved, by simp⟩
  | @tags command bytes first tag _ hs harg htag hwrites hs' =>
    simp only [Remains, hs] at hremains
    simp only [ImapSend.Awaits, hs] at hawaits
    obtain ⟨rfl, rfl, hpayloads⟩ := hremains
    have hasked : t.due = .tag := by simpa using hawaits
    have hgiven : t.tag? = some bytes := by rw [Turn.tag?, if_pos hasked, ← harg]
    have hframed : Framed (Encoder.encode (command.intoMessage ⟨tag, command.body⟩)) :=
      LawfulEncoder.framed _
    have hmem : bytes ∈ (es ++ [t]).filterMap Turn.tag? := by simp [hgiven]
    refine hyields _ _ rfl (.tagged command hmem htag) (.inr hframed) ?_
    rw [remains_read hs', payloads_concat, hpayloads, pieces_framed hframed, hwrites]
    rfl
  | @starts sent first _ hs hwrites hs' =>
    simp only [Remains, hs] at hremains
    obtain ⟨hframed, hfragments, hpayloads⟩ := hremains
    have htag : t.tag? = none := tag?_of_reads (by simp [hs]) hawaits
    refine hyields _ fragments rfl (h.message.concat (by simp [htag])) h.framed ?_
    rw [remains_read hs', payloads_concat, hpayloads, pieces_framed hframed, ← hfragments, hwrites]
    rfl
  | @continues sent next _ hs hwrites hs' =>
    rw [remains_read hs] at hremains
    have htag : t.tag? = none := tag?_of_reads (by simp [hs]) hawaits
    refine hyields _ fragments rfl (h.message.concat (by simp [htag])) h.framed ?_
    rw [remains_read hs', payloads_concat, ← hremains, hwrites, List.append_assoc]
    rfl
  | @listens sent _ hs hwrites hs' =>
    rw [remains_read hs] at hremains
    have htag : t.tag? = none := tag?_of_reads (by simp [hs]) hawaits
    refine hyields _ fragments rfl (h.message.concat (by simp [htag])) h.framed ?_
    rw [remains_read hs', payloads_concat, ← hremains, hwrites]
    simp [Turn.payload?, t]
  | @ends sent r _ hs hwrites hs' =>
    rw [remains_read hs] at hremains
    have htag : t.tag? = none := tag?_of_reads (by simp [hs]) hawaits
    obtain ⟨htelling, hconserved⟩ := h.completes (t := t) rfl (h.message.concat (by simp [htag]))
      fun out hout hno => by
        subst hout
        have hlimbo := not_held_of_completes h.ready hr hno
        rw [← hremains, ImapSend.unwritten, hlimbo, List.append_nil]
    exact ⟨fragments, htelling, hconserved, by simp⟩

end Runs

/-- Every run of an exchange writes its message in order, and what is still to be written
is accounted for until it ends. -/
theorem run_accounted {M F : Type} [Fragmentizer F] [TryFrom Bytes Tag] [Encoder M]
    [LawfulEncoder M] {s : ImapSend M} {f : F} {es : List (SendTurn M F)} {b : Config (ImapSend M) F}
    (hs : s.Initial) (hrun : (imapSend M).Runs s f es b) :
    ∃ fragments, Says es s fragments ∧ Conserved fragments es ∧
      ∀ due, b.due = some due → Accounted s fragments es b.state due := by
  refine Run.history (P := fun es a => ∃ fragments, Says es s fragments ∧ Conserved fragments es ∧
    ∀ due, a.due = some due → Accounted s fragments es a.state due) ?_ ?_ hrun
  · obtain ⟨fragments, haccounted⟩ := accounted_start (F := F) hs
    refine ⟨fragments, haccounted.message, .ongoing haccounted.framed haccounted.remains.starts (by simp),
      fun due hdue => ?_⟩
    obtain rfl : Request.nothing = due := Option.some.inj hdue
    exact haccounted
  · intro es a t b hx hstep
    obtain ⟨fragments, -, -, haccounted⟩ := hx
    obtain ⟨due, hdue⟩ := hstep.exists_due
    exact accounted_step (haccounted due hdue) hdue hstep

section Held

variable {M F : Type} [Fragmentizer F] [TryFrom Bytes Tag] [Encoder M] [LawfulEncoder M]
  {s : ImapSend M} {f : F} {es : List (SendTurn M F)} {b : Config (ImapSend M) F} {t : SendTurn M F}

/-- A resume of a run, with what is known in front of it. -/
theorem run_resumed (hs : s.Initial) (hrun : (imapSend M).Runs s f es b) (ht : t ∈ es) :
    ∃ pre post fragments, es = pre ++ t :: post ∧ Accounted s fragments pre t.before t.due ∧
      ImapSend.Resumed t.before t.frag t.arg t.out t.after t.fragAfter t.log := by
  obtain ⟨pre, post, rfl⟩ := List.append_of_mem ht
  obtain ⟨a, hpre, hrest⟩ := hrun.split
  obtain ⟨m, hstep, -⟩ := hrest.cons_inv
  obtain ⟨fragments, -, -, haccounted⟩ := run_accounted hs hpre
  obtain ⟨hresumed, hbefore, -, hdue, -⟩ :=
    send_step_resumed (fun due hdue => (haccounted due hdue).ready) hstep
  exact ⟨pre, post, fragments, rfl, hbefore ▸ haccounted _ hdue, hresumed⟩

/-- An exchange that succeeds while a literal is held back has not written its message. -/
theorem unwritten_of_held (hs : s.Initial) (hrun : (imapSend M).Runs s f es b) (ht : t ∈ es)
    {out : ImapSendOutput M} (hout : t.out = .complete (.ok out))
    (hheld : t.before.limboLiteral.isSome) :
    ∃ fragments, Says es s fragments ∧ (payloads es).flatten ≠ fragments.flatMap Fragment.data := by
  obtain ⟨pre, post, fragments, rfl, haccounted, hresumed⟩ := run_resumed hs hrun ht
  obtain rfl := Coroutine.run_completes hrun hout
  obtain ⟨literal, hliteral⟩ := Option.isSome_iff_exists.mp hheld
  obtain ⟨sent, hst, -⟩ := ImapSend.Resumed.succeeds (hout ▸ hresumed)
  have hframed : Framed t.before.fragments := by
    have hrest := haccounted.ready.rest
    simpa [hst, ImapSend.Held, hliteral] using hrest
  have htag : t.tag? = none := tag?_of_reads (by simp [hst]) haccounted.awaits
  refine ⟨fragments, haccounted.message.concat (by simp [htag]), fun hall => ?_⟩
  have hremains := (remains_read hst).mp haccounted.remains
  have hpayloads : payloads (pre ++ [t]) = payloads pre := by
    rw [payloads_concat, Turn.payload?, hout]
    simp
  rw [hpayloads, ← flatten_pieces, ← hremains, List.flatten_append, ImapSend.unwritten, hliteral] at hall
  have hnone := List.self_eq_append_right.mp hall
  rw [flatten_buffers, List.append_eq_nil_iff] at hnone
  exact hframed.octets_ne_nil hnone.2

omit [TryFrom Bytes Tag] [Encoder M] [LawfulEncoder M] in
/-- A read that ends the exchange is not one behind which it goes on. -/
theorem not_endsHeld_of_yields {y : ImapYield} (hready : t.before.Ready) (hout : t.out = .yielded y)
    (h : ImapSend.Resumed t.before t.frag t.arg t.out t.after t.fragAfter t.log) : ¬ t.EndsHeld := by
  rintro ⟨hheld, tag, htag, hlast⟩
  rw [Turn.completed] at hlast
  generalize ha : t.arg = arg, haft : t.after = after, hfr : t.fragAfter = fragAfter,
    hlog : t.log = log at h hlast
  rw [hout] at h
  cases h with
  | @continues sent data hs hne hms hd hl hf =>
    obtain rfl : sent.tag = tag := by simpa [ImapSend.tag?, hs] using htag
    rw [FragmentizerEvent.message?_read] at hlast
    rw [(absorbAll_done_held hready.goesOn hheld _).mpr (.inl hlast)] at hd
    simp at hd
  | readsOn hs hne hms hd hl =>
    rw [hl] at hheld
    simp at hheld
  | _ => simp at hlast

/-- An exchange that succeeds without a BYE holds a literal back exactly when a read ends it
there. -/
theorem endsHeld_iff (hs : s.Initial) (hrun : (imapSend M).Runs s f es b) (ht : t ∈ es)
    {out : ImapSendOutput M} (hout : t.out = .complete (.ok out)) (hbye : out.bye = none) :
    (∃ u ∈ es, u.EndsHeld) ↔ t.before.limboLiteral.isSome := by
  obtain ⟨pre, post, fragments, rfl, haccounted, hresumed⟩ := run_resumed hs hrun ht
  obtain rfl := Coroutine.run_completes hrun hout
  constructor
  · rintro ⟨u, hu, hends⟩
    rcases List.mem_append.mp hu with hpre | hlast
    · obtain ⟨_, _, _, -, haccounted', hresumed'⟩ := run_resumed hs hrun hu
      rcases hyields : u.out with y | r
      · exact absurd hends (not_endsHeld_of_yields haccounted'.ready hyields hresumed')
      · exact absurd hyields (haccounted.ongoing u hpre r)
    · obtain rfl := List.mem_singleton.mp hlast
      exact hends.1
  · intro hheld
    obtain ⟨sent, hst, rfl, hdone, hafter⟩ := ImapSend.Resumed.succeeds (hout ▸ hresumed)
    refine ⟨t, ht, hheld, sent.tag, by simp [ImapSend.tag?, hst], ?_⟩
    rw [hafter] at hdone hbye
    refine ((absorbAll_done_held haccounted.ready.goesOn hheld _).mp hdone).resolve_right fun hlast => ?_
    obtain ⟨m, hm, hsig⟩ := exists_of_lastSome hlast
    have hnone : lastSome bye? (t.log.filterMap FragmentizerEvent.message?) = none := by
      simp only [ImapSend.output, ImapSend.absorbAll_bye, Option.or_eq_none_iff] at hbye
      exact hbye.1
    have hsome := signal?_bye.mp hsig
    rw [lastSome_eq_none.mp hnone m hm] at hsome
    simp at hsome

end Held

/-- What an exchange writes in a run are the first fragments of its message, each once
and in order, cut at announcements; once it succeeds, it has written all of them, unless
a BYE or the tagged completion came while a literal was held back. -/
theorem writes_conserved {M F : Type} [Fragmentizer F] [TryFrom Bytes Tag] [Encoder M]
    [LawfulEncoder M] {s : ImapSend M} {f : F} {es : List (SendTurn M F)} {b : Config (ImapSend M) F}
    (hs : s.Initial) (hrun : (imapSend M).Runs s f es b) :
    ∃ fragments, Says es s fragments ∧ Conserved fragments es := by
  obtain ⟨fragments, htelling, hconserved, -⟩ := run_accounted hs hrun
  exact ⟨fragments, htelling, hconserved⟩

section Concrete

open Concrete

/-- The exchange ended on a BYE or on its tagged NO or BAD, and a literal was held back. -/
def SendTurn.Rejected (t : SendTurn M F) (tag : Tag) : Prop :=
  t.before.limboLiteral.isSome ∧ ∃ m ∈ t.completed,
    m.bye?.isSome ∨ (m.ownTagged? tag).any (·.body.kind ≠ .ok)

instance (t : SendTurn M F) (tag : Tag) : Decidable (t.Rejected tag) :=
  inferInstanceAs (Decidable (_ ∧ ∃ m ∈ t.completed, _))

theorem writes_conserved_append : ∃ es b fragments,
    playAppend [none, none, some (ascii "+ go\r\n"), none, some (ascii "A1 OK done\r\n")] =
        some (es, b) ∧
      Says es (.new appendMessage ⟨ascii "A1"⟩) fragments ∧ Conserved fragments es := by
  have hrun : (playAppend [none, none, some (ascii "+ go\r\n"), none,
      some (ascii "A1 OK done\r\n")]).isSome = true := by decide +kernel
  obtain ⟨⟨es, b⟩, hplay⟩ := Option.isSome_iff_exists.mp hrun
  obtain ⟨fragments, htelling, hconserved⟩ := writes_conserved (.new _ _) (Coroutine.play_run _ hplay)
  exact ⟨es, b, fragments, hplay, htelling, hconserved⟩

/-- The exchange succeeded here without being rejected, and has not written its message. -/
def holdsLiteral (es : List (SendTurn EncodedMessage (LineFragmentizer (decodeTable appendReplies))))
    (t : SendTurn EncodedMessage (LineFragmentizer (decodeTable appendReplies))) : Bool :=
  match t.out with
  | .complete (.ok out) => decide (¬ t.Rejected out.tag ∧
      (payloads es).flatten ≠ appendMessage.fragments.flatMap Fragment.data)
  | _ => false

/-- The tagged OK comes while the literal is held back. -/
theorem success_holds_literal :
    ¬ ∀ (es : List (SendTurn EncodedMessage (LineFragmentizer (decodeTable appendReplies))))
        (b : Config (ImapSend EncodedMessage) (LineFragmentizer (decodeTable appendReplies))),
        (imapSend EncodedMessage).Runs (.new appendMessage ⟨ascii "A1"⟩) LineFragmentizer.empty es b →
        ∀ t ∈ es, ∀ out, t.out = .complete (.ok out) → ¬ t.Rejected out.tag →
          (payloads es).flatten = appendMessage.fragments.flatMap Fragment.data := by
  intro h
  have hrun : (playAppend [none, none, some (ascii "A1 OK done\r\n")]).any
      (fun r => r.1.any (holdsLiteral r.1)) = true := by decide +kernel
  obtain ⟨⟨es, b⟩, hplay, hany⟩ := (Option.any_eq_true _ _).mp hrun
  obtain ⟨t, ht, hholds⟩ := List.any_eq_true.mp hany
  simp only [holdsLiteral] at hholds
  split at hholds
  · rename_i out hout
    obtain ⟨hno, hne⟩ := of_decide_eq_true hholds
    exact hne (h es b (Coroutine.play_run _ hplay) t ht out hout hno)
  · simp at hholds

end Concrete
end IoImap
