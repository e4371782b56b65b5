import IoImap.Client.Pump
import IoImap.Command.Output

/-!
# How far the exchange of a command has come

A run of a coroutine that sends one command asks for one tag, writes pieces of the
command with that tag, and takes the messages of the octets it is given. All of it is
known between any two resumes, and with it how many resumes there were: two for each
write and one for each read, but for the first ones.
-/

namespace IoImap
open Fragmentizer ServerMessage Transition

/-- What one resume does of a coroutine that is its exchange until the exchange is over. -/
structure Resumes {R F : Type} [Fragmentizer F] [TryFrom Bytes Tag] [Encoder Command]
    (a : Config (ImapSend Command) F) (t : Turn (ImapSend Command) F Unit ImapYield R) : Prop where
  before : t.before = a.state
  frag : t.frag = a.frag
  due : a.due = some t.due
  answered : t.due.answeredBy t.arg = true
  resumed : t.before.Resumed t.frag t.arg (exchanged t) t.after t.fragAfter t.log
  tells : t.before.Tells t.arg (exchanged t) t.after
  yields : ∀ y, t.out = .yielded y ↔ exchanged t = .yielded y

section Wraps

variable {R F : Type} [Fragmentizer F] [TryFrom Bytes Tag] [Encoder Command] [LawfulEncoder Command]
  {c : Coroutine (ImapSend Command) Unit ImapYield R} {a b : Config (ImapSend Command) F}
  {t : Turn (ImapSend Command) F Unit ImapYield R}

theorem Wraps.resumes (hc : Wraps c) (hready : a.state.Ready)
    (hawaits : ∀ due, a.due = some due → a.state.Awaits due) (hstep : c.Step a t b) :
    Resumes a t ∧ b = c.finish t := by
  obtain ⟨due, arg, env, out, s', l, log, hdue, hans, he, rfl, rfl⟩ := c.step_cases hstep
  obtain ⟨x, s'', f', events, hsend, hr⟩ := ImapSend.resume_spec hready a.frag [] arg
  have htells := ImapSend.resume_tells hready (hawaits due hdue) hans hsend
  have hrest : (s', (⟨l, log⟩ : Logged F)) = (s'', ⟨f', events⟩) := by
    have hrest := hc.rest a.state (⟨a.frag, []⟩ : Logged F) arg
    rwa [he, hsend] at hrest
  obtain ⟨rfl, hl⟩ := Prod.mk.inj hrest
  obtain ⟨rfl, rfl⟩ := Logged.mk.inj hl
  have hx : exchanged (⟨a.state, a.frag, due, arg, env, out, s', l, log⟩ :
      Turn (ImapSend Command) F Unit ImapYield R) = x := by
    rw [exchanged, hsend]
  refine ⟨⟨rfl, rfl, hdue, hans, hx ▸ hr, hx ▸ htells, fun y => ?_⟩, rfl⟩
  have hyields := hc.yields a.state (⟨a.frag, []⟩ : Logged F) arg y
  rwa [he, hsend, ← hx] at hyields

end Wraps

/-- What is known of the tag and of the writes of a run, where its exchange stands at
`s`. -/
def Conveyed {R F : Type} [TryFrom Bytes Tag] [Encoder Command] (body : CommandBody)
    (es : List (Turn (ImapSend Command) F Unit ImapYield R)) (s : ImapSend Command) : Prop :=
  match s.state with
  | .tag command _ => command = ⟨body, id⟩ ∧ es.filterMap Turn.tag? = [] ∧ payloads es = []
  | .serialize _ => False
  | .read sent => ∃ bytes, es.filterMap Turn.tag? = [bytes] ∧
      TryFrom.tryFrom bytes = Except.ok sent.tag ∧ sent.message = ⟨sent.tag, body⟩ ∧
      payloads es ++ s.unwritten = pieces (Encoder.encode sent.message) ∧ payloads es ≠ []

/-- How many resumes there were, by where the exchange stands. -/
def Paced {R F : Type} (es : List (Turn (ImapSend Command) F Unit ImapYield R))
    (s : ImapSend Command) (due : Request) : Prop :=
  match s.state with
  | .tag _ requested => es.length = if requested then 1 else 0
  | .serialize _ => False
  | .read _ => es.length + 1 ≤
      2 * (payloads es).length + (es.filterMap Turn.given?).length + if due = .read then 2 else 1

/-- Between two resumes of a run of the command `body`. -/
structure Underway {R F : Type} [Fragmentizer F] [TryFrom Bytes Tag] [Encoder Command]
    (body : CommandBody) (es : List (Turn (ImapSend Command) F Unit ImapYield R))
    (s : ImapSend Command) (due : Request) : Prop where
  hearing : Hearing es s due
  fed : (es.flatMap Turn.fed).flatten = (es.filterMap Turn.given?).flatten
  completed : es.flatMap Turn.completed = ImapSend.heard es
  conveyed : Conveyed body es s
  paced : Paced es s due

/-- After any resume of a run of the command `body`. -/
structure Spent {R F : Type} [TryFrom Bytes Tag] [Encoder Command] (body : CommandBody)
    (es : List (Turn (ImapSend Command) F Unit ImapYield R)) : Prop where
  fed : (es.flatMap Turn.fed).flatten = (es.filterMap Turn.given?).flatten
  conveyed : payloads es = [] ∨ ∃ bytes tag, es.filterMap Turn.tag? = [bytes] ∧
    TryFrom.tryFrom bytes = Except.ok tag ∧
    payloads es <+: pieces (Encoder.encode (⟨tag, body⟩ : Command))
  tags : (es.filterMap Turn.tag?).length ≤ 1
  length : es.length ≤ 2 * (payloads es).length + (es.filterMap Turn.given?).length + 2

/-- After a run of the command `body` whose exchange comes to `out`. -/
structure Brought {R F : Type} [Fragmentizer F] [TryFrom Bytes Tag] [Encoder Command]
    (body : CommandBody) (es : List (Turn (ImapSend Command) F Unit ImapYield R)) (f : F)
    (out : ImapSendOutput Command) : Prop where
  tagged : ∃ bytes, es.filterMap Turn.tag? = [bytes] ∧ TryFrom.tryFrom bytes = Except.ok out.tag
  message : out.message = ⟨out.tag, body⟩
  writes : payloads es <+: pieces (Encoder.encode out.message)
  written : payloads es ≠ []
  reflects : ImapSend.Reflects (es.flatMap Turn.completed) out
  dry : drained f = f

namespace Turn

variable {S F Env Y R : Type} {t : Turn S F Env Y R}

theorem given?_of_ne (h : t.due ≠ .read) : t.given? = none := if_neg h

theorem given?_read (h : t.due = .read) : t.given? = t.arg := if_pos h

/-- A read is answered with octets, be they none. -/
theorem given?_isSome (hans : t.due.answeredBy t.arg = true) : t.given?.isSome = true ↔ t.due = .read := by
  constructor
  · intro h
    by_contra hdue
    rw [given?_of_ne hdue] at h
    simp at h
  · intro hdue
    rw [given?_read hdue]
    rwa [hdue] at hans

/-- The octets of a read are one more of them. -/
theorem given_length (es : List (Turn S F Env Y R)) (hans : t.due.answeredBy t.arg = true) :
    ((es ++ [t]).filterMap given?).length =
      (es.filterMap given?).length + if t.due = .read then 1 else 0 := by
  rw [List.filterMap_append, List.length_append]
  have hgiven := given?_isSome hans
  split_ifs with hdue
  · obtain ⟨data, hdata⟩ := Option.isSome_iff_exists.mp (hgiven.mpr hdue)
    simp [hdata]
  · rw [List.filterMap_cons_none (given?_of_ne hdue), List.filterMap_nil, List.length_nil]

theorem answer_flatten (t : Turn S F Env Y R) : t.answer.flatten = t.given?.toList.flatten := by
  rw [answer, given?]
  rcases t.due with - | - | - | len
  · rfl
  · rfl
  · rcases t.arg with - | (- | ⟨b, bs⟩) <;> rfl
  · rfl

end Turn

namespace Resumes

variable {R F : Type} [Fragmentizer F] [TryFrom Bytes Tag] [Encoder Command]
  {a : Config (ImapSend Command) F} {t : Turn (ImapSend Command) F Unit ImapYield R}

theorem payload_write (h : Resumes a t) {bytes : Bytes}
    (hx : exchanged t = .yielded (.wantsWrite bytes)) : t.payload? = some bytes := by
  rw [Turn.payload?, (h.yields _).mpr hx]

theorem payload_none (h : Resumes a t) (hx : ∀ bytes, exchanged t ≠ .yielded (.wantsWrite bytes)) :
    t.payload? = none := by
  rw [Turn.payload?]
  split
  · rename_i bytes hout
    exact absurd ((h.yields _).mp hout) (hx bytes)
  · rfl

theorem fed (h : Resumes a t) (hawaits : a.state.Awaits t.due) : t.fed = t.answer :=
  h.resumed.fed (h.before ▸ hawaits) h.answered

theorem completed (h : Resumes a t) (hawaits : a.state.Awaits t.due)
    (hx : ∀ err, exchanged t ≠ .complete (.error err)) : t.completed = t.received :=
  h.resumed.decoded (h.before ▸ hawaits) h.answered hx

end Resumes

/-- The tag is not asked for twice. -/
theorem tag?_of_read {R F : Type} {t : Turn (ImapSend Command) F Unit ImapYield R}
    {s : ImapSend Command} {sent : Sent Command} (hs : s.state = .read sent) (h : s.Awaits t.due) :
    t.tag? = none := by
  rw [ImapSend.Awaits, hs] at h
  rw [Turn.tag?, if_neg]
  rcases h with hdue | hdue <;> simp [hdue]

section Underway

variable {R F : Type} [Fragmentizer F] [TryFrom Bytes Tag] [Encoder Command] [LawfulEncoder Command]
  {body : CommandBody} {es : List (Turn (ImapSend Command) F Unit ImapYield R)}
  {a : Config (ImapSend Command) F} {t : Turn (ImapSend Command) F Unit ImapYield R}

theorem underway_command (body : CommandBody) :
    Underway body ([] : List (Turn (ImapSend Command) F Unit ImapYield R)) (.command body) .nothing where
  hearing := ⟨(ImapSend.Initial.command ⟨body, id⟩).ready, rfl, (ImapSend.Initial.command _).hears⟩
  fed := rfl
  completed := rfl
  conveyed := ⟨rfl, rfl, rfl⟩
  paced := rfl

theorem Underway.conveys (h : Underway body es a.state t.due) (hr : Resumes a t) {y : ImapYield}
    (hy : exchanged t = .yielded y) : Conveyed body (es ++ [t]) t.after := by
  have hconveyed := h.conveyed
  have hawaits := h.hearing.awaits
  have htells := hr.tells
  rw [hr.before] at htells
  rw [Conveyed, List.filterMap_append, payloads_concat]
  generalize hx : exchanged t = x, t.after = after at htells ⊢
  cases htells with
  | @asks command hs =>
    rw [Conveyed, hs] at hconveyed
    obtain ⟨hcommand, htags, hpayloads⟩ := hconveyed
    rw [ImapSend.Awaits, hs] at hawaits
    have htag : t.tag? = none := if_neg (by simp [hawaits])
    rw [hpayloads, htags, hr.payload_none (by simp [hx])]
    exact ⟨hcommand, by simp [htag], rfl⟩
  | refuses => simp [hx] at hy
  | @tags command bytes first tag s' hs harg htag hwrites hs' =>
    rw [Conveyed, hs] at hconveyed
    obtain ⟨rfl, htags, hpayloads⟩ := hconveyed
    rw [ImapSend.Awaits, hs] at hawaits
    have hgiven : t.tag? = some bytes := (if_pos (by simpa using hawaits)).trans harg
    have hpieces : pieces (Encoder.encode (id ⟨tag, body⟩ : Command)) = first :: after.unwritten :=
      (pieces_framed (LawfulEncoder.framed _)).trans hwrites
    simp only [hs']
    refine ⟨bytes, by simp [htags, hgiven], htag, rfl, ?_, ?_⟩
    · rw [hpayloads, hr.payload_write hx, hpieces]
      rfl
    · simp [hr.payload_write hx]
  | starts hs => simp [Conveyed, hs] at hconveyed
  | @continues sent next s' hs hwrites hs' =>
    rw [Conveyed, hs] at hconveyed
    obtain ⟨bytes, htags, htag, hmessage, hpieces, hne⟩ := hconveyed
    simp only [hs']
    refine ⟨bytes, by simp [htags, tag?_of_read hs hawaits], htag, hmessage, ?_, by simp [hne]⟩
    rw [hr.payload_write hx, ← hpieces, hwrites, List.append_assoc]
    rfl
  | @listens sent s' hs hwrites hs' =>
    rw [Conveyed, hs] at hconveyed
    obtain ⟨bytes, htags, htag, hmessage, hpieces, hne⟩ := hconveyed
    simp only [hs']
    refine ⟨bytes, by simp [htags, tag?_of_read hs hawaits], htag, hmessage, ?_, by simp [hne]⟩
    rw [hr.payload_none (by simp [hx]), ← hpieces, hwrites]
    simp
  | ends => simp [hx] at hy

omit [LawfulEncoder Command] in
theorem Underway.paces (h : Underway body es a.state t.due) (hr : Resumes a t) {y : ImapYield}
    (hy : exchanged t = .yielded y) : Paced (es ++ [t]) t.after y.request := by
  have hpaced := h.paced
  have hconveyed := h.conveyed
  have hawaits := h.hearing.awaits
  have htells := hr.tells
  have hgiven := Turn.given_length es hr.answered
  rw [hr.before] at htells
  rw [Paced, hgiven, payloads_concat, List.length_append, List.length_append, List.length_singleton]
  generalize hx : exchanged t = x, t.after = after at htells ⊢
  cases htells with
  | @asks command hs =>
    rw [Paced, hs] at hpaced
    simp at hpaced
    simp [hpaced]
  | refuses => simp [hx] at hy
  | @tags command bytes first tag s' hs harg htag hwrites hs' =>
    rw [Paced, hs] at hpaced
    obtain rfl : ImapYield.wantsWrite first = y := by simpa [hx] using hy
    simp only [if_true] at hpaced
    simp only [hs', hr.payload_write hx, Option.toList_some, List.length_singleton, ImapYield.request]
    simp
    omega
  | starts hs => simp [Conveyed, hs] at hconveyed
  | @continues sent next s' hs hwrites hs' =>
    rw [Paced, hs] at hpaced
    obtain rfl : ImapYield.wantsWrite next = y := by simpa [hx] using hy
    simp only [hs', hr.payload_write hx, Option.toList_some, List.length_singleton, ImapYield.request]
    split_ifs at hpaced ⊢ <;> simp at * <;> omega
  | @listens sent s' hs hwrites hs' =>
    rw [Paced, hs] at hpaced
    obtain rfl : ImapYield.wantsRead = y := by simpa [hx] using hy
    simp only [hs', hr.payload_none (by simp [hx]), Option.toList_none, List.length_nil,
      ImapYield.request, if_true]
    split_ifs at hpaced ⊢ <;> omega
  | ends => simp [hx] at hy

omit [LawfulEncoder Command] in
theorem Underway.feeds (h : Underway body es a.state t.due) (hr : Resumes a t) :
    ((es ++ [t]).flatMap Turn.fed).flatten = ((es ++ [t]).filterMap Turn.given?).flatten := by
  rw [List.flatMap_append, List.filterMap_append, List.flatten_append, List.flatten_append, h.fed,
    List.flatMap_singleton, hr.fed h.hearing.awaits, Turn.answer_flatten]
  cases hgiven : t.given? <;> simp [hgiven]

omit [LawfulEncoder Command] in
theorem Underway.completes (h : Underway body es a.state t.due) (hr : Resumes a t)
    (hx : ∀ err, exchanged t ≠ .complete (.error err)) :
    (es ++ [t]).flatMap Turn.completed = ImapSend.heard (es ++ [t]) := by
  rw [List.flatMap_append, ImapSend.heard_concat, h.completed, List.flatMap_singleton,
    hr.completed h.hearing.awaits hx]

omit [Fragmentizer F] [LawfulEncoder Command] in
theorem Conveyed.spent {s : ImapSend Command} (h : Conveyed body es s) :
    (payloads es = [] ∨ ∃ bytes tag, es.filterMap Turn.tag? = [bytes] ∧
        TryFrom.tryFrom bytes = Except.ok tag ∧
        payloads es <+: pieces (Encoder.encode (⟨tag, body⟩ : Command))) ∧
      (es.filterMap Turn.tag?).length ≤ 1 := by
  rw [Conveyed] at h
  split at h
  · obtain ⟨-, htags, hpayloads⟩ := h
    exact ⟨.inl hpayloads, by simp [htags]⟩
  · exact h.elim
  · rename_i sent hs
    obtain ⟨bytes, htags, htag, hmessage, hpieces, -⟩ := h
    refine ⟨.inr ⟨bytes, sent.tag, htags, htag, ?_⟩, by simp [htags]⟩
    rw [← hmessage, ← hpieces]
    exact List.prefix_append _ _

omit [LawfulEncoder Command] in
/-- A resume that completes writes nothing, and is given a tag at most when none was. -/
theorem Underway.ends (h : Underway body es a.state t.due) (hr : Resumes a t)
    (hx : ∀ y, exchanged t ≠ .yielded y) : payloads (es ++ [t]) = payloads es ∧
      ((es ++ [t]).filterMap Turn.tag? = es.filterMap Turn.tag? ∨ payloads es = [] ∧
        ((es ++ [t]).filterMap Turn.tag?).length ≤ 1) := by
  have hconveyed := h.conveyed
  refine ⟨by simp [payloads_concat, hr.payload_none fun bytes => hx _], ?_⟩
  rw [Conveyed] at hconveyed
  split at hconveyed
  · obtain ⟨-, htags, hpayloads⟩ := hconveyed
    refine .inr ⟨hpayloads, ?_⟩
    cases htag : t.tag? <;> simp [htags, htag]
  · exact hconveyed.elim
  · rename_i sent hs
    exact .inl (by simp [tag?_of_read hs h.hearing.awaits])

omit [LawfulEncoder Command] in
theorem Underway.length (h : Underway body es a.state t.due) (hr : Resumes a t) :
    (es ++ [t]).length ≤ 2 * (payloads (es ++ [t])).length +
      ((es ++ [t]).filterMap Turn.given?).length + 2 := by
  have hpaced := h.paced
  rw [Turn.given_length es hr.answered, payloads_concat, List.length_append, List.length_append,
    List.length_singleton]
  rw [Paced] at hpaced
  split at hpaced
  · split_ifs at hpaced ⊢ <;> omega
  · exact hpaced.elim
  · split_ifs at hpaced ⊢ <;> omega

theorem Underway.spends (h : Underway body es a.state t.due) (hr : Resumes a t) :
    Spent body (es ++ [t]) := by
  by_cases hx : ∃ y, exchanged t = .yielded y
  · obtain ⟨y, hy⟩ := hx
    obtain ⟨hconveyed, htags⟩ := (h.conveys hr hy).spent
    exact ⟨h.feeds hr, hconveyed, htags, h.length hr⟩
  · obtain ⟨hpayloads, htags⟩ := h.ends hr fun y hy => hx ⟨y, hy⟩
    obtain ⟨hconveyed, hone⟩ := h.conveyed.spent
    rcases htags with htags | ⟨hnone, htags⟩
    · exact ⟨h.feeds hr, by rw [hpayloads, htags]; exact hconveyed, by rw [htags]; exact hone, h.length hr⟩
    · exact ⟨h.feeds hr, .inl (by rw [hpayloads, hnone]), htags, h.length hr⟩

end Underway

section Runs

variable {R F : Type} [Fragmentizer F] [TryFrom Bytes Tag] [Encoder Command] [LawfulEncoder Command]
  {c : Coroutine (ImapSend Command) Unit ImapYield R} {body : CommandBody} {f : F}
  {es : List (Turn (ImapSend Command) F Unit ImapYield R)} {a b : Config (ImapSend Command) F}
  {t : Turn (ImapSend Command) F Unit ImapYield R}

theorem Wraps.underway_step (hc : Wraps c) (ha : ∀ due, a.due = some due → Underway body es a.state due)
    (hstep : c.Step a t b) : Resumes a t ∧ Underway body es a.state t.due ∧ b = c.finish t ∧
      ∀ due, b.due = some due → Underway body (es ++ [t]) b.state due := by
  obtain ⟨due, hdue⟩ := hstep.exists_due
  obtain ⟨hr, rfl⟩ := hc.resumes (ha due hdue).hearing.ready
    (fun due hdue => (ha due hdue).hearing.awaits) hstep
  have h := ha t.due hr.due
  have hhearing := (hc.step (fun due hdue => (ha due hdue).hearing) hstep).1
  refine ⟨hr, h, rfl, fun due' hdue' => ?_⟩
  obtain ⟨y, hout, hrequest⟩ := Coroutine.finish_due hdue'
  have hy := (hr.yields y).mp hout
  rw [hc.request] at hrequest
  exact ⟨hhearing due' hdue', h.feeds hr, h.completes hr (by simp [hy]), h.conveys hr hy,
    hrequest ▸ h.paces hr hy⟩

/-- What a run of a command has done, and where it stands if it goes on. -/
theorem Wraps.spent (hc : Wraps c) (hrun : c.Runs (.command body) f es b) :
    Spent body es ∧ ∀ due, b.due = some due → Underway body es b.state due := by
  refine Run.history (P := fun es a =>
    Spent body es ∧ ∀ due, a.due = some due → Underway body es a.state due) ?_ ?_ hrun
  · refine ⟨⟨rfl, .inl rfl, Nat.zero_le 1, Nat.zero_le _⟩, fun due hdue => ?_⟩
    obtain rfl : Request.nothing = due := Option.some.inj hdue
    exact underway_command body
  · intro es a t b hx hstep
    obtain ⟨hr, h, -, hnext⟩ := hc.underway_step hx.2 hstep
    exact ⟨h.spends hr, hnext⟩

variable [LawfulFragmentizer F]

theorem Wraps.brought (hc : Wraps c) (hrun : c.Runs (.command body) f (es ++ [t]) b)
    {out : ImapSendOutput Command} (hout : exchanged t = .complete (.ok out)) :
    Brought body (es ++ [t]) b.frag out := by
  obtain ⟨a, hbefore, hstep⟩ := hrun.snoc_inv
  obtain ⟨hr, h, rfl, -⟩ := hc.underway_step (hc.spent hbefore).2 hstep
  have hresumed := hr.resumed
  obtain ⟨sent, hs, ho, -⟩ := ImapSend.Resumed.succeeds (hout ▸ hresumed)
  rw [hr.before] at hs
  have htag : out.tag = sent.tag := by rw [ho]; rfl
  have hmessage : out.message = sent.message := by rw [ho]; rfl
  have hconveyed := h.conveyed
  rw [Conveyed, hs] at hconveyed
  obtain ⟨bytes, htags, hvalid, hsaid, hpieces, hne⟩ := hconveyed
  obtain ⟨hpayloads, -⟩ := h.ends hr (by simp [hout])
  refine ⟨⟨bytes, ?_, htag ▸ hvalid⟩, by rw [hmessage, htag, hsaid], ?_, by rw [hpayloads]; exact hne, ?_, ?_⟩
  · simp [htags, tag?_of_read hs h.hearing.awaits]
  · rw [hpayloads, hmessage, ← hpieces]
    exact List.prefix_append _ _
  · rw [h.completes hr (by simp [hout])]
    exact hc.output (.command ⟨body, id⟩) hrun hout
  · show drained t.fragAfter = t.fragAfter
    generalize exchanged t = x, t.after = after, t.fragAfter = fragAfter, t.arg = arg, t.log = log
      at hresumed hout
    subst hout
    cases hresumed
    exact LawfulFragmentizer.drained_drained _

end Runs
end IoImap
