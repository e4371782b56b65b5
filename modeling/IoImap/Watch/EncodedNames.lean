import IoImap.Rfc3501.MailboxCalls
import IoImap.Exchange
import IoImap.Watch.Resume

/-!
# Mailbox names are encoded once

Every coroutine that names a mailbox writes the encoding of its name, the watcher in each
of its EXAMINEs; the pattern of LIST and LSUB is written as it is.
-/

namespace IoImap
open Fragmentizer

/-- The octets are the first of a command with this body. -/
def CommandBody.Sends [Encoder Command] (body : CommandBody) (octets : Bytes) : Prop :=
  ∃ tag, octets <+: Encoder.octets (⟨tag, body⟩ : Command)

/-- A run of a command coroutine writes the octets of its command, in order. -/
theorem command_sends {V F : Type} [Fragmentizer F] [TryFrom Bytes Tag] [Encoder Command]
    [LawfulEncoder Command] {decode : ImapSendOutput Command → V} {body : CommandBody} {f : F}
    {es : List (Turn (ImapSend Command) F Unit ImapYield (Except ImapCommandError V))}
    {b : Config (ImapSend Command) F} (h : (commandCoroutine decode).Runs (.command body) f es b) :
    body.Sends (payloads es).flatten := by
  obtain ⟨us, c, hus, hcarries⟩ := command_run h
  obtain ⟨fragments, htelling, hconserved, -⟩ := run_accounted (.command _) hus
  obtain ⟨written, ⟨rest, hrest⟩, hflat⟩ := hconserved.inOrder
  rw [carries_payloads hcarries, hflat]
  cases htelling with
  | untagged =>
    have hnil : written = [] := (List.append_eq_nil_iff.mp hrest).1
    exact ⟨⟨[]⟩, by rw [hnil]; exact List.nil_prefix⟩
  | @tagged _ bytes tag hgiven htag =>
    refine ⟨tag, rest.flatMap Fragment.data, ?_⟩
    rw [← List.flatMap_append, hrest]
    rfl

namespace ImapMessageAppendStream

/-- What a streamed APPEND writes are the octets of the command around its message. -/
theorem streamed_sends {F : Type} [Fragmentizer F] [Encoder Command] [LawfulEncoder Command]
    [LawfulAppend] [Base64Codec] [TryFrom String Mailbox] [TryFrom Bytes Tag] {mailbox : Mailbox}
    {len : Nat} {opts : ImapMessageAppendOptions} {f : F} {es : List (AppendTurn F)}
    {b : Config ImapMessageAppendStream F}
    (h : imapMessageAppendStream.Runs (new mailbox len opts) f es b) :
    ∃ tag : Tag, ∃ header closing, written es <+: [header, closing] ∧
      ∀ message : Bytes, message.length = len → header ++ message ++ closing =
        Encoder.octets (⟨tag, .append (encodeInplace mailbox) opts.flags opts.date
          ⟨message, mode opts⟩⟩ : Command) := by
  obtain ⟨phase, hmoves, -⟩ := phases_run h
  obtain ⟨hwritten, -⟩ := phases_written hmoves
  have hparts (tag : Tag) (message : Bytes) (hlen : message.length = len) :
      header mailbox len opts tag ++ message ++ closing mailbox opts tag =
        Encoder.octets (⟨tag, .append (encodeInplace mailbox) opts.flags opts.date
          ⟨message, mode opts⟩⟩ : Command) := by
    rw [Encoder.octets, LawfulAppend.encode, AppendParts.octets, hlen]
    rfl
  rw [hwritten]
  cases phase with
  | fresh => exact ⟨⟨[]⟩, _, _, List.nil_prefix, hparts _⟩
  | awaits tag => exact ⟨tag, _, _, ⟨[_], rfl⟩, hparts tag⟩
  | ready tag => exact ⟨tag, _, _, ⟨[_], rfl⟩, hparts tag⟩
  | streams tag => exact ⟨tag, _, _, ⟨[_], rfl⟩, hparts tag⟩
  | recv tag => exact ⟨tag, _, _, ⟨[], rfl⟩, hparts tag⟩

end ImapMessageAppendStream

namespace ImapMailboxWatch

def State.examine? : State → Option ImapMailboxExamine
  | examineInitial examine => some examine
  | examineQresync examine => some examine
  | examineResync examine => some examine
  | _ => none

section Examines

variable [Base64Codec] [TryFrom String Mailbox] [Encoder Command] (mailbox : Mailbox)

/-- The watcher keeps its mailbox, and what it examines is that one. -/
structure Examines (w : ImapMailboxWatch) (due : Request) : Prop where
  keeps : w.mailbox = mailbox
  examine : ∀ send ∈ w.state.examine?,
    ∃ opts, send.Conversing (ImapMailboxExamine.body mailbox opts) due

/-- What follows the end of a sub-coroutine writes nothing, and examines the same mailbox. -/
structure Outcome.Keeps (o : Outcome) : Prop where
  keeps : o.2.mailbox = mailbox
  examines : ∀ y, o.1 = .yielded y → Examines mailbox o.2 y.request

variable {mailbox} {w : ImapMailboxWatch} {env : ImapMailboxWatchEnv}

theorem Outcome.Keeps.elsewhere {o : Outcome} (hmailbox : o.2.mailbox = mailbox)
    (hstate : o.2.state.examine? = none) : o.Keeps mailbox :=
  ⟨hmailbox, fun _ _ => ⟨hmailbox, by simp [hstate]⟩⟩

theorem startExamine_keepsMailbox (hw : w.mailbox = mailbox) {into : ImapSend Command → State}
    (hinto : ∀ send, (into send).examine? = some send) (opts : ImapMailboxExamineOptions) :
    (w.startCommand into (ImapMailboxExamine.body w.mailbox opts)).Keeps mailbox := by
  refine ⟨hw, fun y hy => ⟨hw, fun send hsend => ⟨opts, ?_⟩⟩⟩
  obtain rfl := CoroutineState.yielded.inj hy
  rw [startCommand, hinto, Option.mem_some_iff] at hsend
  rw [← hsend, hw]
  exact ImapSend.conversing_asked _

theorem Continues.keepsMailbox {o : Outcome} (h : Continues w env o) (hw : w.mailbox = mailbox) :
    o.Keeps mailbox := by
  cases h with
  | reexamines opts hinto =>
    rcases hinto with rfl | rfl <;> exact startExamine_keepsMailbox hw (fun _ => rfl) opts
  | _ => exact .elsewhere hw rfl

theorem Ensues.keepsMailbox {o : Outcome} (h : Ensues w env o) (hw : w.mailbox = mailbox) :
    o.Keeps mailbox := by
  cases h with
  | examines opts => exact startExamine_keepsMailbox hw (fun _ => rfl) opts
  | fetches hw' hinto =>
    rcases hinto with rfl | rfl <;> exact .elsewhere (hw'.1.trans hw) rfl
  | continues h hw' => exact h.keepsMailbox (hw'.1.trans hw)

/-! ### Runs -/

variable {F : Type} [Fragmentizer F] [TryFrom Bytes Tag] [Encoder IdleDone]
  {send send' : ImapSend Command} {arg : Option Bytes} {l l' : Logged F}

variable (env) in
theorem resume_examining {y : ImapYield} (hs : w.state.examine? = some send)
    (he : send.resume l arg = (.yielded y, send', l')) :
    w.resume l arg env =
        (.yielded (.ofYield y), { w.wake env with state := w.state.withCommand send' }, l') ∧
      (w.state.withCommand send').examine? = some send' := by
  unfold resume
  cases hstate : w.state with
  | examineInitial examine | examineQresync examine | examineResync examine =>
    obtain rfl : examine = send := by simpa [hstate, State.examine?] using hs
    simp only [wake, hstate, exchange, ImapMailboxExamine.resume, commandResume, he,
      CoroutineState.tryOk]
    exact ⟨rfl, rfl⟩
  | _ => simp [hstate, State.examine?] at hs

/-- What follows the end of a command is its failure, or what its answer leads to. -/
def Concludes (w : ImapMailboxWatch) (env : ImapMailboxWatchEnv) (o : Outcome) : Prop :=
  (∃ err, o = w.complete (.error err)) ∨ ∃ out, o = w.answered env out

omit [Encoder IdleDone] in
theorem exchange_concludes {V : Type} {decode : ImapSendOutput Command → V}
    {into : ImapSend Command → State} {error : ImapCommandError → ImapMailboxWatchError}
    {next : V → Outcome} {r : Except ImapSendError (ImapSendOutput Command)}
    (he : send.resume l arg = (.complete r, send', l'))
    (hnext : ∀ out, next (decode out) = w.answered env out) :
    ∃ o, w.exchange into error next (commandResume decode send l arg) = (o.1, o.2, l') ∧
      Concludes w env o := by
  rw [commandResume, he]
  rcases r with err | out
  · exact ⟨_, rfl, .inl ⟨_, rfl⟩⟩
  · simp only [exchange, CoroutineState.tryOk]
    cases hv : commandOutcome decode out with
    | error err => exact ⟨_, rfl, .inl ⟨_, rfl⟩⟩
    | ok v =>
      obtain ⟨-, rfl⟩ := commandOutcome_ok.mp hv
      exact ⟨_, rfl, .inr ⟨out, hnext out⟩⟩

variable (env) in
theorem resume_examined {r : Except ImapSendError (ImapSendOutput Command)}
    (hs : w.state.examine? = some send) (he : send.resume l arg = (.complete r, send', l')) :
    ∃ o, w.resume l arg env = (o.1, o.2, l') ∧ Concludes (w.wake env) env o := by
  have hwake : (w.wake env).state = w.state := rfl
  unfold resume
  cases hstate : w.state with
  | examineInitial examine | examineQresync examine | examineResync examine =>
    obtain rfl : examine = send := by simpa [hstate, State.examine?] using hs
    simp only [hwake, hstate]
    exact exchange_concludes he fun out => by simp only [answered, hwake, hstate]; rfl
  | _ => simp [hstate, State.examine?] at hs

omit [TryFrom Bytes Tag] in
/-- Where nothing is examined, an EXAMINE is at most started. -/
theorem Resumed.keepsMailbox {w' : ImapMailboxWatch} {f f' : F}
    {out : ImapMailboxWatchResult} {events : List FragmentizerEvent} (hs : w.state.examine? = none)
    (hw : w.mailbox = mailbox) (h : Resumed w f env arg out w' f' events) :
    Outcome.Keeps mailbox (out, w') := by
  cases h with
  | @goesOn _ send' =>
    have hstate : (w.state.withCommand send').examine? = none := by
      cases hw : w.state <;> simp_all [State.examine?, State.withCommand]
    exact .elsewhere hw hstate
  | fails => exact .elsewhere hw rfl
  | succeeds => exact (answered_ensues _).keepsMailbox (w := w.wake env) hw
  | idles => exact .elsewhere hw rfl
  | sees => exact .elsewhere hw rfl
  | idleFails => exact .elsewhere hw rfl
  | idleEnds => exact idled_continues.keepsMailbox (w := w.wake env) hw
  | proceeds => exact proceed_continues.keepsMailbox (w := w.wake env) hw

omit [TryFrom Bytes Tag] [Encoder IdleDone] in
theorem Concludes.keepsMailbox {o : Outcome} (h : Concludes w env o) (hw : w.mailbox = mailbox) :
    o.Keeps mailbox ∧ ∀ bytes, o.1 ≠ .yielded (.wantsWrite bytes) := by
  rcases h with ⟨err, rfl⟩ | ⟨out, rfl⟩
  · exact ⟨.elsewhere hw rfl, by simp [complete]⟩
  · refine ⟨(answered_ensues out).keepsMailbox hw, fun bytes hwrite => ?_⟩
    have hstarts : (w.answered env out).Starts := (answered_ensues out).starts
    generalize w.answered env out = o at hstarts hwrite
    cases hstarts with
    | rests hy => rcases hy with rfl | ⟨event, rfl⟩ <;> simp at hwrite
    | _ => simp at hwrite

omit [Fragmentizer F] in
theorem Outcome.Keeps.finish {t : Step F} (h : Outcome.Keeps mailbox (t.out, t.after)) (due : Request)
    (hdue : (imapMailboxWatch.finish t).due = some due) :
    Examines mailbox (imapMailboxWatch.finish t).state due := by
  obtain ⟨y, ho, rfl⟩ := Coroutine.finish_due hdue
  exact h.examines y ho

variable [LawfulEncoder Command] [LawfulEncoder IdleDone]

/-- One resume keeps the mailbox of the watcher, and writes its encoding when it examines. -/
theorem step_examines {a b : Config ImapMailboxWatch F} {t : Step F} (hready : ReadyConfig a)
    (ha : ∀ due, a.due = some due → Examines mailbox a.state due)
    (h : imapMailboxWatch.Step a t b) :
    (t.before.state.examine?.isSome → ∀ bytes, t.out = .yielded (.wantsWrite bytes) →
        ∃ opts, ImapSend.IsPiece (ImapMailboxExamine.body mailbox opts) bytes) ∧
      ∀ due, b.due = some due → Examines mailbox b.state due := by
  obtain ⟨⟨hresumed, -, -⟩, -, -, -⟩ := step_resumed hready h
  obtain ⟨due, arg, env, hdue, hans, rfl, rfl⟩ := h
  have hexamines := ha due hdue
  cases hs : a.state.state.examine? with
  | none =>
    have hkeeps := hresumed.keepsMailbox hs hexamines.keeps
    exact ⟨fun hsome => by simp [Coroutine.turn, hs] at hsome, hkeeps.finish⟩
  | some send =>
    obtain ⟨opts, hconversing⟩ := hexamines.examine send hs
    obtain ⟨out, send', f', events, he, -⟩ := ImapSend.resume_spec hconversing.ready a.frag [] arg
    cases out with
    | yielded y =>
      obtain ⟨hres, hstate⟩ := resume_examining env hs he
      obtain ⟨hconversing', hpiece⟩ := hconversing.step hans he
      have hout : (imapMailboxWatch.turn a due arg env).out = .yielded (.ofYield y) :=
        congrArg (·.1) hres
      have hafter : (imapMailboxWatch.turn a due arg env).after =
          { a.state.wake env with state := a.state.state.withCommand send' } :=
        congrArg (·.2.1) hres
      have hkeeps : (imapMailboxWatch.turn a due arg env).after.mailbox = mailbox := by
        rw [hafter]
        exact hexamines.keeps
      refine ⟨fun _ bytes hwrite => ⟨opts, hpiece bytes ?_⟩, Outcome.Keeps.finish ⟨hkeeps, ?_⟩⟩
      · rw [hout] at hwrite
        cases y <;> simp_all [ImapMailboxWatchYield.ofYield]
      · intro y' hy
        obtain rfl := CoroutineState.yielded.inj (hout.symm.trans hy)
        refine ⟨hkeeps, fun send'' hsend'' => ?_⟩
        rw [hafter, hstate, Option.mem_some_iff] at hsend''
        rw [← hsend'', ofYield_request]
        exact ⟨opts, hconversing'⟩
    | complete r =>
      obtain ⟨o, hres, hconcludes⟩ := resume_examined env hs he
      obtain ⟨hkeeps, hsilent⟩ := hconcludes.keepsMailbox hexamines.keeps
      have hout : (imapMailboxWatch.turn a due arg env).out = o.1 := congrArg (·.1) hres
      have hafter : (imapMailboxWatch.turn a due arg env).after = o.2 := congrArg (·.2.1) hres
      refine ⟨fun _ bytes hwrite => absurd (hout.symm.trans hwrite) (hsilent bytes), ?_⟩
      refine Outcome.Keeps.finish ?_
      rw [hout, hafter]
      exact hkeeps

/-- Every EXAMINE of a watch carries the encoding of its mailbox. -/
theorem examines_run {capability : List Capability} {opts : ImapMailboxWatchOptions} {f : F}
    {es : List (Step F)} {b : Config ImapMailboxWatch F}
    (h : imapMailboxWatch.Runs (.new capability mailbox opts) f es b) :
    ∀ t ∈ es, t.before.state.examine?.isSome → ∀ bytes, t.out = .yielded (.wantsWrite bytes) →
      ∃ opts, ImapSend.IsPiece (ImapMailboxExamine.body mailbox opts) bytes := by
  refine h.labels (I := fun a => ReadyConfig a ∧
    ∀ due, a.due = some due → Examines mailbox a.state due) ?_ ?_
  · refine ⟨start_ready capability mailbox opts f, fun due hdue => ?_⟩
    obtain rfl := Option.some.inj hdue
    show Examines mailbox (new capability mailbox opts) .nothing
    unfold new
    simp only
    refine ⟨rfl, fun send hsend => ?_⟩
    split at hsend
    · simp [State.examine?] at hsend
    · exact ⟨⟨[]⟩, Option.some.inj hsend ▸ ImapSend.conversing_command _⟩
  · intro a t b ha hstep
    obtain ⟨hpiece, hexamines⟩ := step_examines ha.1 ha.2 hstep
    obtain ⟨-, -, -, hready⟩ := step_resumed ha.1 hstep
    exact ⟨⟨hready, hexamines⟩, hpiece⟩

end Examines
end ImapMailboxWatch
/-- These octets are written for one command, each of whose names is that of the call, encoded
once. -/
def MailboxCall.WritesEncoded [Encoder Command] [Base64Codec] [TryFrom String Mailbox]
    (call : MailboxCall) (octets : Bytes) : Prop :=
  ∃ body, call.new = .command body ∧ body.Sends octets ∧ body.names = call.encoded

/-- A run writes the names of its call encoded exactly when there is no pattern that needs to be
encoded; a streamed APPEND and the EXAMINEs of a watch always do. -/
theorem mailbox_names_iff {F : Type} [Fragmentizer F] [TryFrom Bytes Tag] [Encoder Command]
    [LawfulEncoder Command] [LawfulAppend] [Encoder IdleDone] [LawfulEncoder IdleDone] [Base64Codec]
    [Base64Decoder] [LawfulBase64] [TryFrom String Mailbox] [LawfulMailboxName] :
    (∀ {V : Type} (decode : ImapSendOutput Command → V) (call : MailboxCall) (f : F)
      (es : List (Turn (ImapSend Command) F Unit ImapYield (Except ImapCommandError V)))
      (b : Config (ImapSend Command) F), (commandCoroutine decode).Runs call.new f es b →
        (call.WritesEncoded (payloads es).flatten ↔ call.Plain)) ∧
    (∀ (n : MailboxName) (len : Nat) (opts : ImapMessageAppendOptions) (f : F)
      (es : List (AppendTurn F)) (b : Config ImapMessageAppendStream F),
      imapMessageAppendStream.Runs (.new n.mailbox len opts) f es b →
        ∃ tag : Tag, ∃ header closing,
          ImapMessageAppendStream.written es <+: [header, closing] ∧
          ∀ message : Bytes, message.length = len → header ++ message ++ closing =
            Encoder.octets (⟨tag, .append n.encoded opts.flags opts.date
              ⟨message, ImapMessageAppendStream.mode opts⟩⟩ : Command)) ∧
    ∀ (capability : List Capability) (n : MailboxName) (opts : ImapMailboxWatchOptions) (f : F)
      (es : List (ImapMailboxWatch.Step F)) (b : Config ImapMailboxWatch F),
      imapMailboxWatch.Runs (.new capability n.mailbox opts) f es b →
        ∀ t ∈ es, t.before.state.examine?.isSome →
          ∀ bytes, t.out = .yielded (.wantsWrite bytes) →
            ∃ parameters, ImapSend.IsPiece (.examine n.encoded parameters) bytes := by
  refine ⟨?_, ?_, ?_⟩
  · intro V decode call f es b h
    obtain ⟨body, hnew, hnames⟩ := call.new_names
    rw [← hnames]
    constructor
    · intro hwrites
      obtain ⟨body', hnew', -, hnames'⟩ := hwrites
      cases hnew.symm.trans hnew'
      exact hnames'
    · intro hnames
      rw [hnew] at h
      exact ⟨body, hnew, command_sends h, hnames⟩
  · intro n len opts f es b h
    have hsends := ImapMessageAppendStream.streamed_sends h
    rw [n.encodeInplace_mailbox] at hsends
    exact hsends
  · intro capability n opts f es b h t ht hexamines bytes hwrite
    obtain ⟨opts', hpiece⟩ := ImapMailboxWatch.examines_run h t ht hexamines bytes hwrite
    rw [ImapMailboxExamine.body, n.encodeInplace_mailbox] at hpiece
    exact ⟨opts'.parameters, hpiece⟩

section Concrete

open Concrete

def playCall (call : MailboxCall) :=
  (commandCoroutine acknowledged).play
    (Coroutine.start call.new (LineFragmentizer.empty : LineFragmentizer (decodeTable appendReplies)))
    [(none, ()), (some (ascii "A1"), ())]

/-- A mailbox is renamed to one that is not ASCII. -/
theorem mailbox_names_rename : ∃ es b,
    playCall (.rename (.text "AT&T") (.text "От")) = some (es, b) ∧
      payloads es = [ascii "A1 RENAME AT&-T &BB4EQg-\r\n"] ∧
      MailboxCall.WritesEncoded (.rename (.text "AT&T") (.text "От")) (payloads es).flatten := by
  have hrun : (playCall (.rename (.text "AT&T") (.text "От"))).any
      (fun r => decide (payloads r.1 = [ascii "A1 RENAME AT&-T &BB4EQg-\r\n"])) = true := by
    decide +kernel
  obtain ⟨⟨es, b⟩, hplay, hpayloads⟩ := (Option.any_eq_true _ _).mp hrun
  have hiff := mailbox_names_iff.1 acknowledged _ _ _ _ (Coroutine.play_run _ hplay)
  have hplain : MailboxCall.Plain (.rename (.text "AT&T") (.text "От")) := by
    simp [MailboxCall.Plain, MailboxCall.pattern?]
  exact ⟨es, b, hplay, of_decide_eq_true hpayloads, hiff.mpr hplain⟩

/-- LIST of the mailboxes below `AT&T`. -/
def listCall : MailboxCall := .list .inbox ⟨"AT&T/%", .token "AT&T/%".toUTF8.toList, rfl⟩

/-- The pattern is written as it is. -/
theorem mailbox_names_pattern : ∃ es b, playCall listCall = some (es, b) ∧
    payloads es = [ascii "A1 LIST INBOX AT&T/%\r\n"] ∧
    ¬ listCall.WritesEncoded (payloads es).flatten := by
  have hrun : (playCall listCall).any
      (fun r => decide (payloads r.1 = [ascii "A1 LIST INBOX AT&T/%\r\n"])) = true := by decide +kernel
  obtain ⟨⟨es, b⟩, hplay, hpayloads⟩ := (Option.any_eq_true _ _).mp hrun
  refine ⟨es, b, hplay, of_decide_eq_true hpayloads, fun hwrites => ?_⟩
  obtain ⟨body, hnew, -, hnames⟩ := hwrites
  obtain ⟨body', hnew', hiff⟩ := listCall.new_names
  cases hnew.symm.trans hnew'
  have hplain := hiff.mp hnames _ rfl '&' (by simp)
  exact hplain.2 rfl

end Concrete
end IoImap
