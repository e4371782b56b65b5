import IoImap.Codec.CommandEncoder
import IoImap.Send.Response

/-!
# LOGOUT (rfc3501/logout.rs)

The reply to LOGOUT goes on behind its BYE, and `ImapSend` takes a BYE for the
end of an exchange. So what LOGOUT comes to depends on where the reply is cut:
it succeeds when one read completes the BYE and the completion, and with a cut
between them it fails and leaves the completion behind.
-/

namespace IoImap
open Fragmentizer ServerMessage

inductive ImapLogoutError where
  | no (text : String)
  | bad (text : String)
  | missingTagged
  | missingBye
  | send (err : ImapSendError)
  deriving DecidableEq

abbrev ImapLogout := ImapSend Command

namespace ImapLogout

def new : ImapLogout := .command .logout

/-- The match on the output of the exchange: the BYE is tested first. -/
def finish (out : ImapSendOutput Command) : Except ImapLogoutError Unit :=
  match out.bye, out.tagged with
  | none, _ => .error .missingBye
  | some _, none => .error .missingTagged
  | some _, some tagged =>
    match tagged.body.kind with
    | .ok => .ok ()
    | .no => .error (.no tagged.body.text)
    | .bad => .error (.bad tagged.body.text)

def resume {F : Type} [Fragmentizer F] [TryFrom Bytes Tag] [Encoder Command] (logout : ImapLogout)
    (f : F) (arg : Option Bytes) :
    CoroutineState ImapYield (Except ImapLogoutError Unit) × ImapLogout × F :=
  let r := ImapSend.resume logout f arg
  (r.1.tryOk id .send finish, r.2)

end ImapLogout

def imapLogout [TryFrom Bytes Tag] [Encoder Command] :
    Coroutine ImapLogout Unit ImapYield (Except ImapLogoutError Unit) where
  resume logout f arg _ := logout.resume f arg
  request := ImapYield.request

/-- The reply to LOGOUT: messages that end nothing, a BYE, and the completion, which the
last octet of the reply completes. No message stands in front of it. -/
structure IsLogoutReply {F : Type} [Fragmentizer F] (tag : Tag) (f : F) (reply : Bytes)
    (us : List ServerMessage) (bye completion : ServerMessage) : Prop where
  held : messages f = []
  messages : messages (enqueueBytes f reply) = us ++ [bye, completion]
  last : ∀ k < reply.length,
    (Fragmentizer.messages (enqueueBytes f (reply.take k))).length ≤ us.length + 1
  untagged : ∀ m ∈ us, m.signal? tag = none
  bye : bye.bye?.isSome
  completion : ∃ tagged, completion.ownTagged? tag = some tagged ∧ tagged.body.kind = .ok

/-- A reply cut in two: the first part completes all but the completion, or the second
is a reply behind it. -/
theorem IsLogoutReply.split {F : Type} [Fragmentizer F] [LawfulFragmentizer F] {tag : Tag} {f : F}
    {a b : Bytes} {us : List ServerMessage} {bye completion : ServerMessage}
    (h : IsLogoutReply tag f (a ++ b) us bye completion) (hb : b ≠ []) :
    Fragmentizer.messages (enqueueBytes f a) = us ++ [bye] ∨
      ∃ ns, us = Fragmentizer.messages (enqueueBytes f a) ++ ns ∧
        IsLogoutReply tag (drained (enqueueBytes f a)) b ns bye completion := by
  have hpos := List.length_pos_of_ne_nil hb
  have hfirst := h.last a.length (by rw [List.length_append]; omega)
  rw [List.take_left] at hfirst
  have hsplit := LawfulFragmentizer.messages_append f a b
  rw [h.messages] at hsplit
  have hheld := LawfulFragmentizer.messages_drained (enqueueBytes f a)
  rcases Nat.lt_or_ge us.length (Fragmentizer.messages (enqueueBytes f a)).length with hlt | hle
  · left
    have hprefix : Fragmentizer.messages (enqueueBytes f a) <+: (us ++ [bye]) ++ [completion] :=
      ⟨_, by rw [← hsplit]; simp⟩
    refine (List.prefix_of_prefix_length_le hprefix (List.prefix_append ..) ?_).eq_of_length ?_
    · simpa using hfirst
    · simp only [List.length_append, List.length_singleton]
      omega
  · right
    obtain ⟨ns, rfl⟩ : Fragmentizer.messages (enqueueBytes f a) <+: us :=
      List.prefix_of_prefix_length_le ⟨_, hsplit.symm⟩ (List.prefix_append us _) hle
    rw [List.append_assoc, List.append_cancel_left_eq] at hsplit
    refine ⟨ns, rfl, hheld, hsplit.symm, fun k hk => ?_,
      fun m hm => h.untagged m (List.mem_append_right _ hm), h.bye, h.completion⟩
    have hcut := h.last (a.length + k) (by rw [List.length_append]; omega)
    rw [List.take_length_add_append, LawfulFragmentizer.messages_append] at hcut
    simp only [List.length_append] at hcut
    omega

theorem IsLogoutReply.accepted {F : Type} [Fragmentizer F] [LawfulFragmentizer F] {tag : Tag}
    {f : F} {a b : Bytes}
    {us : List ServerMessage} {bye completion : ServerMessage}
    (h : IsLogoutReply tag f (a ++ b) us bye completion) (hus : ImapSend.Accepted us) :
    ImapSend.Accepted (Fragmentizer.messages (enqueueBytes f a)) := by
  obtain ⟨tagged, htagged, -⟩ := h.completion
  have hbye : bye.refusal? = none := by
    have hsig : bye.signal? tag = some .bye := signal?_bye.mpr h.bye
    exact refusal?_of_signal (by rw [hsig]; rfl)
  have hcompletion : completion.refusal? = none := by
    have hsig : completion.signal? tag = some .completion :=
      signal?_completion.mpr (by rw [htagged]; rfl)
    exact refusal?_of_signal (by rw [hsig]; rfl)
  have hall : ImapSend.Accepted (Fragmentizer.messages (enqueueBytes f (a ++ b))) := by
    rw [h.messages, ImapSend.accepted_append]
    exact ⟨hus, by simp [ImapSend.Accepted, hbye, hcompletion]⟩
  rw [LawfulFragmentizer.messages_append, ImapSend.accepted_append] at hall
  exact hall.1

namespace ImapLogout

section Reply

variable {s : ImapLogout} {sent : Sent Command} {us : List ServerMessage} {bye completion : ServerMessage}

variable (s us) in
theorem absorbAll_bye (sent : Sent Command) (h : s.tagged = none) (hus : ∀ m ∈ us, m.signal? sent.tag = none)
    (hbye : bye.bye?.isSome) :
    let s' := s.absorbAll sent.tag (us ++ [bye])
    s'.done = true ∧ finish (s'.output sent) = .error .missingTagged := by
  intro s'
  have hsig : bye.signal? sent.tag = some .bye := signal?_bye.mpr hbye
  have htagged : bye.ownTagged? sent.tag = none := by
    rw [← Option.not_isSome_iff_eq_none, ← signal?_completion, hsig]
    simp
  have hnone : ∀ m ∈ us, m.ownTagged? sent.tag = none := fun m hm => (signal?_eq_none.mp (hus m hm)).1
  obtain ⟨body, hbody⟩ := Option.isSome_iff_exists.mp hbye
  constructor
  · simp only [s', ImapSend.absorbAll_concat, ImapSend.absorb_done, hsig]
  · have hout : (s'.output sent).bye = some body ∧ (s'.output sent).tagged = none := by
      constructor
      · simp [s', ImapSend.output, lastSome_concat, hbody]
      · simp [s', ImapSend.output, lastSome_concat, htagged, lastSome_eq_none.mpr hnone, h]
    simp only [finish, hout.1, hout.2]

variable (s us) in
theorem absorbAll_completion (hbye : bye.bye?.isSome)
    (hcompletion : ∃ tagged, completion.ownTagged? sent.tag = some tagged ∧ tagged.body.kind = .ok) :
    let s' := s.absorbAll sent.tag (us ++ [bye, completion])
    s'.done = true ∧ finish (s'.output sent) = .ok () := by
  intro s'
  obtain ⟨tagged, htagged, hkind⟩ := hcompletion
  have hsig : completion.signal? sent.tag = some .completion :=
    signal?_completion.mpr (by rw [htagged]; rfl)
  have hnobye : completion.bye? = none := by
    have hno : completion.signal? sent.tag ≠ some .bye := by simp [hsig]
    exact Option.not_isSome_iff_eq_none.mp (mt signal?_bye.mpr hno)
  obtain ⟨body, hbody⟩ := Option.isSome_iff_exists.mp hbye
  have hlast : s' = (s.absorbAll sent.tag (us ++ [bye])).absorb sent.tag completion := by
    rw [← ImapSend.absorbAll_concat, List.append_assoc]
    rfl
  constructor
  · rw [hlast, ImapSend.absorb_done, hsig]
  · have hout : (s'.output sent).bye = some body ∧ (s'.output sent).tagged = some tagged := by
      rw [hlast]
      constructor
      · simp [ImapSend.output, ImapSend.absorb, lastSome_concat, hnobye, hbody]
      · simp [ImapSend.output, ImapSend.absorb, htagged]
    simp only [finish, hout.1, hout.2, hkind]

end Reply

variable {F : Type} [Fragmentizer F] [TryFrom Bytes Tag] [Encoder Command]

/-- LOGOUT, given the answers, completes with `Ok` behind the last of them, and the
messages it has seen are `ms`. -/
def LogsOut (a : Config ImapLogout F) (args : List (Option Bytes)) (ms : List ServerMessage) : Prop :=
  ∃ ts b, imapLogout.play a (args.map (·, ())) = some (ts, b) ∧
    ts.getLast?.map (·.out) = some (.complete (.ok ())) ∧ ts.flatMap (·.completed) = ms

/-! ### One read of the reply -/

section Read

variable {s : ImapLogout} {sent : Sent Command} {past : List ServerMessage} {f : F} {data : Bytes}

theorem turn_read (h : ImapSend.Folding s sent past) (hne : data ≠ [])
    (hms : ImapSend.Accepted (messages (enqueueBytes f data))) :
    let s' := s.absorbAll sent.tag (messages (enqueueBytes f data))
    let t := imapLogout.turn (⟨s, f, some .read⟩ : Config ImapLogout F) .read (some data) ()
    t.out = (if s'.done then .complete (finish (s'.output sent)) else .yielded .wantsRead) ∧
      t.after = s' ∧ t.fragAfter = drained (enqueueBytes f data) ∧
      t.completed = messages (enqueueBytes f data) := by
  intro s' t
  have hstate : s'.state = .read sent := by simp only [s', ImapSend.absorbAll_state, h.state]
  have hres : ImapSend.resume s (⟨f, []⟩ : Logged F) (some data) =
      (if s'.done then .complete (.ok (s'.output sent)) else .yielded .wantsRead, s',
        ⟨drained (enqueueBytes f data),
          .fed data :: (messages (enqueueBytes f data)).map .completed⟩) := by
    rw [ImapSend.resume_read h.state, ImapSend.read_accepted hne hms, ImapSend.settle]
    by_cases hdone : s'.done
    · simp [s', hdone]
    · simp [s', hdone, h.limboLiteral, ImapSend.awaitRead_eq hstate]
  have hturn : t = ⟨s, f, .read, some data, (),
      if s'.done then .complete (finish (s'.output sent)) else .yielded .wantsRead, s',
      drained (enqueueBytes f data),
      .fed data :: (messages (enqueueBytes f data)).map .completed⟩ := by
    simp only [t, Coroutine.turn, imapLogout, resume, hres]
    by_cases hdone : s'.done <;> simp [hdone, CoroutineState.tryOk]
  rw [hturn]
  exact ⟨rfl, rfl, rfl, Turn.completed_read rfl⟩

theorem turn_refused (h : ImapSend.Folding s sent past) (hne : data ≠ [])
    (hms : ¬ ImapSend.Accepted (messages (enqueueBytes f data))) :
    ∃ err, (imapLogout.turn (⟨s, f, some .read⟩ : Config ImapLogout F) .read (some data) ()).out =
      .complete (.error err) := by
  obtain ⟨pre, m, post, err, hsplit, hpre, hm⟩ := exists_refused hms
  obtain ⟨f', hread⟩ := ImapSend.read_refused s sent [] hne hsplit hpre hm
  refine ⟨.send err, ?_⟩
  simp only [Coroutine.turn, imapLogout, resume, ImapSend.resume_read h.state, hread,
    CoroutineState.tryOk]

end Read

/-! ### Runs -/

theorem logsOut_cons (a : Config ImapLogout F) {due : Request} {arg : Option Bytes}
    (ms : List ServerMessage) (args : List (Option Bytes)) (hdue : a.due = some due)
    (hans : due.answeredBy arg = true) (hargs : args ≠ []) :
    LogsOut a (arg :: args) ((imapLogout.turn a due arg ()).completed ++ ms) ↔
      LogsOut (imapLogout.finish (imapLogout.turn a due arg ())) args ms := by
  have hplay : imapLogout.play a ((arg :: args).map (·, ())) =
      (imapLogout.play (imapLogout.finish (imapLogout.turn a due arg ())) (args.map (·, ()))).map
        fun r => (imapLogout.turn a due arg () :: r.1, r.2) := by
    simp only [List.map_cons, Coroutine.play, hdue, hans, if_true]
  have hlast : ∀ {ts : List (Turn ImapLogout F Unit ImapYield (Except ImapLogoutError Unit))} {b},
      imapLogout.play (imapLogout.finish (imapLogout.turn a due arg ())) (args.map (·, ())) =
        some (ts, b) → (imapLogout.turn a due arg () :: ts).getLast? = ts.getLast? := by
    intro ts b h
    have hlength := Coroutine.play_length _ h
    cases ts with
    | nil => exact absurd (List.length_eq_zero_iff.mp (by simpa using hlength.symm)) hargs
    | cons t ts => rw [List.getLast?_cons_cons]
  constructor
  · intro h
    obtain ⟨ts, b, hts, hout, hms⟩ := h
    rw [hplay] at hts
    obtain ⟨⟨us, b'⟩, hus, he⟩ := Option.map_eq_some_iff.mp hts
    obtain ⟨rfl, rfl⟩ := Prod.mk.inj he
    rw [hlast hus] at hout
    rw [List.flatMap_cons] at hms
    exact ⟨us, b', hus, hout, List.append_cancel_left hms⟩
  · intro h
    obtain ⟨ts, b, hts, hout, hms⟩ := h
    refine ⟨_ :: ts, b, by rw [hplay, hts]; rfl, by rw [hlast hts]; exact hout, ?_⟩
    rw [List.flatMap_cons, hms]

/-- Nothing can be given to a coroutine that has completed. -/
theorem not_logsOut_of_complete {a : Config ImapLogout F} {due : Request} {arg : Option Bytes}
    {args : List (Option Bytes)} {ms : List ServerMessage} {r : Except ImapLogoutError Unit}
    (hdue : a.due = some due) (hans : due.answeredBy arg = true)
    (hout : (imapLogout.turn a due arg ()).out = .complete r) (hr : args ≠ [] ∨ r ≠ .ok ()) :
    ¬ LogsOut a (arg :: args) ms := by
  intro h
  obtain ⟨ts, b, hts, hlast, -⟩ := h
  simp only [List.map_cons, Coroutine.play, hdue, hans, if_true] at hts
  obtain ⟨⟨us, b'⟩, hus, he⟩ := Option.map_eq_some_iff.mp hts
  obtain ⟨rfl, -⟩ := Prod.mk.inj he
  have hover : (imapLogout.finish (imapLogout.turn a due arg ())).due = none := by
    simp only [Coroutine.finish, hout]
  cases args with
  | nil =>
    simp only [List.map_nil, Coroutine.play, Option.some.injEq, Prod.mk.injEq] at hus
    rw [← hus.1] at hlast
    simp only [List.getLast?_singleton, Option.map_some, hout, Option.some.injEq,
      CoroutineState.complete.injEq] at hlast
    simp [hlast] at hr
  | cons arg args => simp [Coroutine.play, hover] at hus

section Reads

variable {s : ImapLogout} {sent : Sent Command} {past us : List ServerMessage}
  {bye completion : ServerMessage} {f : F} {r : Bytes}

/-- The read that brings the rest of the reply ends LOGOUT. -/
theorem logsOut_last [LawfulFragmentizer F] (h : ImapSend.Folding s sent past) (hr : r ≠ [])
    (hacc : ImapSend.Accepted (messages (enqueueBytes f r)))
    (hreply : IsLogoutReply sent.tag f r us bye completion) :
    LogsOut ⟨s, f, some .read⟩ [some r] (us ++ [bye, completion]) := by
  obtain ⟨hout, -, -, hcompleted⟩ := turn_read h hr hacc
  obtain ⟨hdone, hfinish⟩ := absorbAll_completion s us hreply.bye hreply.completion
  rw [hreply.messages, hdone, hfinish] at hout
  rw [hreply.messages] at hcompleted
  refine ⟨[_], _, rfl, ?_, by simpa using hcompleted⟩
  rw [List.getLast?_singleton, Option.map_some, hout]
  rfl

/-- A read that ends at the BYE ends LOGOUT too early. -/
theorem not_logsOut_bye (h : ImapSend.Folding s sent past) (hr : r ≠ [])
    (hms : messages (enqueueBytes f r) = us ++ [bye]) (hacc : ImapSend.Accepted (us ++ [bye]))
    (huntagged : ∀ m ∈ us, m.signal? sent.tag = none) (hbye : bye.bye?.isSome)
    {args : List (Option Bytes)} {ms : List ServerMessage} :
    ¬ LogsOut ⟨s, f, some .read⟩ (some r :: args) ms := by
  obtain ⟨hout, -, -, -⟩ := turn_read h hr (hms ▸ hacc)
  obtain ⟨hdone, hfinish⟩ := absorbAll_bye s us sent h.tagged huntagged hbye
  rw [hms, hdone, hfinish] at hout
  exact not_logsOut_of_complete rfl rfl hout (.inr (by simp))

/-- A read that ends in front of the BYE is followed by another one. -/
theorem logsOut_read_on (h : ImapSend.Folding s sent past) (hr : r ≠ [])
    (hacc : ImapSend.Accepted (messages (enqueueBytes f r)))
    (hsig : ∀ m ∈ messages (enqueueBytes f r), m.signal? sent.tag = none)
    {args : List (Option Bytes)} (hargs : args ≠ []) (ms : List ServerMessage) :
    ImapSend.Folding (s.absorbAll sent.tag (messages (enqueueBytes f r))) sent
        (past ++ messages (enqueueBytes f r)) ∧
      (LogsOut ⟨s, f, some .read⟩ (some r :: args) (messages (enqueueBytes f r) ++ ms) ↔
        LogsOut ⟨s.absorbAll sent.tag (messages (enqueueBytes f r)), drained (enqueueBytes f r),
          some .read⟩ args ms) := by
  obtain ⟨hout, hafter, hfrag, hcompleted⟩ := turn_read h hr hacc
  have hms : ∀ m ∈ messages (enqueueBytes f r), ¬ m.Terminates sent.tag := by
    intro m hm hx
    rcases hx with hx | hx
    · simp [hsig m hm] at hx
    · simp [hacc m hm] at hx
  have hnext := h.absorbAll hms
  rw [hnext.goesOn] at hout
  have hfinish : imapLogout.finish (imapLogout.turn ⟨s, f, some .read⟩ .read (some r) ()) =
      ⟨s.absorbAll sent.tag (messages (enqueueBytes f r)), drained (enqueueBytes f r),
        some .read⟩ := by
    simp only [Coroutine.finish, hout, hafter, hfrag]
    rfl
  have hcons := logsOut_cons (⟨s, f, some .read⟩ : Config ImapLogout F) ms args rfl
    (show Request.read.answeredBy (some r) = true from rfl) hargs
  rw [hcompleted, hfinish] at hcons
  exact ⟨hnext, hcons⟩

end Reads

/-- Reading the reply succeeds when nothing in it is refused and no read ends between
the BYE and the completion. -/
theorem logsOut_reads [LawfulFragmentizer F] {s : ImapLogout} {sent : Sent Command}
    {past us : List ServerMessage} {bye completion : ServerMessage} {f : F} {reads : List Bytes}
    (h : ImapSend.Folding s sent past) (hreads : reads ≠ []) (hne : ∀ r ∈ reads, r ≠ [])
    (hreply : IsLogoutReply sent.tag f reads.flatten us bye completion) :
    LogsOut ⟨s, f, some .read⟩ (reads.map some) (us ++ [bye, completion]) ↔
      ImapSend.Accepted us ∧ (messages (enqueueBytes f reads.dropLast.flatten)).length ≤ us.length := by
  induction reads generalizing s past f us with
  | nil => exact absurd rfl hreads
  | cons r rest ih =>
    have hr := hne r (List.mem_cons_self ..)
    rw [List.flatten_cons] at hreply
    by_cases hacc : ImapSend.Accepted (messages (enqueueBytes f r))
    · cases rest with
      | nil =>
        rw [List.flatten_nil, List.append_nil] at hreply
        refine iff_of_true (logsOut_last h hr hacc hreply) ⟨?_, ?_⟩
        · rw [hreply.messages] at hacc
          exact (ImapSend.accepted_append.mp hacc).1
        · simp [LawfulFragmentizer.enqueueBytes_nil, hreply.held]
      | cons r' rest =>
        have hne' : ∀ x ∈ r' :: rest, x ≠ [] := fun x hx => hne x (List.mem_cons_of_mem _ hx)
        have hflat : (r' :: rest).flatten ≠ [] := by simp [hne' r' (List.mem_cons_self ..)]
        have hcut : messages (enqueueBytes f (r :: r' :: rest).dropLast.flatten) =
            messages (enqueueBytes f r) ++
              messages (enqueueBytes (drained (enqueueBytes f r)) (r' :: rest).dropLast.flatten) := by
          rw [List.dropLast_cons_cons, List.flatten_cons, LawfulFragmentizer.messages_append]
        rcases hreply.split hflat with hbye | ⟨ns, hns, hreply'⟩
        · refine iff_of_false
            (not_logsOut_bye h hr hbye (hbye ▸ hacc) hreply.untagged hreply.bye) fun hx => ?_
          have hlength := hx.2
          rw [hcut, hbye] at hlength
          simp only [List.length_append, List.length_singleton] at hlength
          omega
        · have hsig : ∀ m ∈ messages (enqueueBytes f r), m.signal? sent.tag = none :=
            fun m hm => hreply.untagged m (by rw [hns]; exact List.mem_append_left _ hm)
          obtain ⟨hnext, hcons⟩ := logsOut_read_on h hr hacc hsig
            (show (r' :: rest).map some ≠ [] by simp) (ns ++ [bye, completion])
          rw [List.map_cons, hns, List.append_assoc, hcons, ih hnext (by simp) hne' hreply', hcut,
            ImapSend.accepted_append]
          simp only [List.length_append, Nat.add_le_add_iff_left, hacc, true_and]
    · obtain ⟨err, hout⟩ := turn_refused h hr hacc
      exact iff_of_false (not_logsOut_of_complete rfl rfl hout (.inr (by simp)))
        fun hx => hacc (hreply.accepted hx.1)

/-- Up to its first read, LOGOUT asks for a tag and writes its line. -/
theorem logsOut_fresh [LawfulEncoder Command] [LawfulLogout] {tagBytes : Bytes} {tag : Tag}
    (htag : TryFrom.tryFrom tagBytes = Except.ok tag) {f : F} {args : List (Option Bytes)}
    {ms : List ServerMessage} (hargs : args ≠ []) :
    LogsOut (Coroutine.start new f) (none :: some tagBytes :: none :: args) ms ↔
      LogsOut ⟨ImapSend.fresh (.read ⟨⟨tag, .logout⟩, tag⟩) [], f, some .read⟩ args ms := by
  let asked : ImapLogout := ImapSend.fresh (.tag ⟨.logout, id⟩ true) []
  let written : ImapLogout := ImapSend.fresh (.read ⟨⟨tag, .logout⟩, tag⟩) []
  obtain ⟨line, hline⟩ := LawfulLogout.line tag
  have hframed : Framed (Encoder.encode (⟨tag, .logout⟩ : Command)) := LawfulEncoder.framed _
  have hwrites : ImapSend.resume asked (⟨f, []⟩ : Logged F) (some tagBytes) =
      (.yielded (.wantsWrite line), written, ⟨f, []⟩) := by
    simp only [ImapSend.resume, asked, ImapSend.fresh, htag, id]
    rw [ImapSend.serialize_framed _ hframed]
    simp only [ImapSend.takeBuffer, ImapSend.written, Option.getD_none, hline]
    rfl
  let t0 := imapLogout.turn (Coroutine.start new f) .nothing none ()
  let t1 := imapLogout.turn (⟨asked, f, some .tag⟩ : Config ImapLogout F) .tag (some tagBytes) ()
  let t2 := imapLogout.turn (⟨written, f, some .nothing⟩ : Config ImapLogout F) .nothing none ()
  have h0 : t0.completed = [] ∧ imapLogout.finish t0 = ⟨asked, f, some .tag⟩ := ⟨rfl, rfl⟩
  have h1 : t1.completed = [] ∧ imapLogout.finish t1 = ⟨written, f, some .nothing⟩ := by
    have ht1 : t1 = ⟨asked, f, .tag, some tagBytes, (), .yielded (.wantsWrite line), written, f, []⟩ := by
      simp only [t1, Coroutine.turn, imapLogout, resume, hwrites]
      rfl
    rw [ht1]
    exact ⟨rfl, rfl⟩
  have h2 : t2.completed = [] ∧ imapLogout.finish t2 = ⟨written, f, some .read⟩ := ⟨rfl, rfl⟩
  have hstep0 := logsOut_cons (Coroutine.start new f) ms (some tagBytes :: none :: args)
    rfl (show Request.nothing.answeredBy none = true from rfl) (by simp)
  have hstep1 := logsOut_cons ⟨asked, f, some .tag⟩ ms (none :: args) rfl
    (show Request.tag.answeredBy (some tagBytes) = true from rfl) (by simp)
  have hstep2 := logsOut_cons ⟨written, f, some .nothing⟩ ms args rfl
    (show Request.nothing.answeredBy none = true from rfl) hargs
  rw [h0.1, h0.2] at hstep0
  rw [h1.1, h1.2] at hstep1
  rw [h2.1, h2.2] at hstep2
  exact hstep0.trans (hstep1.trans hstep2)

end ImapLogout

/-- A reply to LOGOUT, however it is cut into reads, ends it with `Ok` and is consumed
whole exactly when the fragmentizer takes all of it and the read that completes the BYE
completes the completion too. -/
theorem logout_completes_iff {F : Type} [Fragmentizer F] [LawfulFragmentizer F] [TryFrom Bytes Tag]
    [Encoder Command] [LawfulEncoder Command] [LawfulLogout] {tagBytes : Bytes} {tag : Tag}
    (htag : TryFrom.tryFrom tagBytes = Except.ok tag) {f : F} {reads : List Bytes}
    {us : List ServerMessage} {bye completion : ServerMessage} (hne : ∀ r ∈ reads, r ≠ [])
    (hreply : IsLogoutReply tag f reads.flatten us bye completion) :
    ImapLogout.LogsOut (Coroutine.start .new f) (none :: some tagBytes :: none :: reads.map some)
        (us ++ [bye, completion]) ↔
      ImapSend.Accepted us ∧ (messages (enqueueBytes f reads.dropLast.flatten)).length ≤ us.length := by
  have hreads : reads ≠ [] := by
    intro hnil
    subst hnil
    have hmessages := hreply.messages
    rw [List.flatten_nil, LawfulFragmentizer.enqueueBytes_nil, hreply.held] at hmessages
    simp at hmessages
  rw [ImapLogout.logsOut_fresh htag (by simpa using hreads)]
  have hfolding : ImapSend.Folding (ImapSend.fresh (.read ⟨⟨tag, .logout⟩, tag⟩) [])
      ⟨(⟨tag, .logout⟩ : Command), tag⟩ [] := ⟨rfl, rfl, rfl, rfl, rfl, rfl, rfl, rfl⟩
  exact ImapLogout.logsOut_reads hfolding hreads hne hreply

section Concrete

open Concrete

def logoutTable : List (Bytes × Response) :=
  [(ascii "* BYE bye\r\n", .status (.bye ⟨none, "bye"⟩)),
    (ascii "A1 OK done\r\n", .status (.tagged ⟨⟨ascii "A1"⟩, ⟨.ok, none, "done"⟩⟩))]

def logoutBye : ServerMessage := ⟨ascii "* BYE bye\r\n", .ok (.status (.bye ⟨none, "bye"⟩))⟩

def logoutOk : ServerMessage :=
  ⟨ascii "A1 OK done\r\n", .ok (.status (.tagged ⟨⟨ascii "A1"⟩, ⟨.ok, none, "done"⟩⟩))⟩

theorem logoutReply : IsLogoutReply ⟨ascii "A1"⟩
    (LineFragmentizer.empty : LineFragmentizer (decodeTable logoutTable))
    (ascii "* BYE bye\r\nA1 OK done\r\n") [] logoutBye logoutOk :=
  ⟨by decide +kernel, by decide +kernel, by decide +kernel, by simp, by decide, ⟨_, rfl, rfl⟩⟩

/-- The BYE is cut, its end comes with the completion. -/
theorem logout_completes_cut : ImapLogout.LogsOut
    (Coroutine.start .new (LineFragmentizer.empty : LineFragmentizer (decodeTable logoutTable)))
    [none, some (ascii "A1"), none, some (ascii "* BYE b"), some (ascii "ye\r\nA1 OK done\r\n")]
    [logoutBye, logoutOk] :=
  have htag : TryFrom.tryFrom (ascii "A1") = Except.ok (⟨ascii "A1"⟩ : Tag) := rfl
  have hreply : IsLogoutReply ⟨ascii "A1"⟩
      (LineFragmentizer.empty : LineFragmentizer (decodeTable logoutTable))
      [ascii "* BYE b", ascii "ye\r\nA1 OK done\r\n"].flatten [] logoutBye logoutOk := logoutReply
  (logout_completes_iff htag (by decide) hreply).mpr ⟨by decide, by decide +kernel⟩

/-- The BYE comes alone. -/
theorem logout_fails_between : ¬ ImapLogout.LogsOut
    (Coroutine.start .new (LineFragmentizer.empty : LineFragmentizer (decodeTable logoutTable)))
    [none, some (ascii "A1"), none, some (ascii "* BYE bye\r\n"), some (ascii "A1 OK done\r\n")]
    [logoutBye, logoutOk] := by
  have htag : TryFrom.tryFrom (ascii "A1") = Except.ok (⟨ascii "A1"⟩ : Tag) := rfl
  have hreply : IsLogoutReply ⟨ascii "A1"⟩
      (LineFragmentizer.empty : LineFragmentizer (decodeTable logoutTable))
      [ascii "* BYE bye\r\n", ascii "A1 OK done\r\n"].flatten [] logoutBye logoutOk := logoutReply
  intro h
  have hcut := ((logout_completes_iff htag (by decide) hreply).mp h).2
  exact absurd hcut (by decide +kernel)

end Concrete
end IoImap
