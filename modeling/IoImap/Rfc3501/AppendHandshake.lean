import IoImap.Rfc3501.AppendStreaming

/-!
# The literal handshake of a streamed APPEND

The continuation requests are counted: the literals of a command are asked for one
after the other, so the octets of a synchronising literal may go out once more
requests were decoded than there are synchronising literals in front of it.
-/

namespace IoImap
open Fragmentizer ServerMessage Transition

namespace ImapMessageAppendStream

variable {F : Type}

/-- What a resume puts on the wire: its write, or the message that the caller streams. -/
def octets (message : Bytes) (t : AppendTurn F) : Bytes :=
  match t.out with
  | .yielded (.wantsWrite bytes) => bytes
  | .yielded .wantsStream => message
  | _ => []

def wire (message : Bytes) (es : List (AppendTurn F)) : Bytes := es.flatMap (octets message)

/-- The continuation requests among some messages. -/
def requests (ms : List ServerMessage) : Nat := ms.countP (·.cr?.isSome)

/-- The continuation requests that a run has decoded. -/
def conts (es : List (AppendTurn F)) : Nat := requests (es.flatMap Turn.completed)

/-- The message was handed to the caller to stream. -/
def Streamed (es : List (AppendTurn F)) : Prop := ∃ t ∈ es, t.out = .yielded .wantsStream

/-- The run was given this tag for its command. -/
def CommandTag [TryFrom Bytes Tag] (es : List (AppendTurn F)) (tag : Tag) : Prop :=
  ∃ bytes ∈ es.filterMap Turn.tag?, TryFrom.tryFrom bytes = Except.ok tag

section Handshaken

variable [Encoder Command] [LawfulAppend] [Base64Codec] [TryFrom String Mailbox] [TryFrom Bytes Tag]
  (mailbox : Mailbox) (message : Bytes) (opts : ImapMessageAppendOptions)

/-- The fragments of the APPEND. -/
def fragments (tag : Tag) : List Fragment := (parts mailbox opts tag).fragments ⟨message, mode opts⟩

/-- What the handshake asks of a resume, after those before it. -/
structure Handshaken (past : List (AppendTurn F)) (t : AppendTurn F) : Prop where
  /-- No octet of a synchronising literal is on the wire that was not asked for. -/
  answered : ∀ tag, CommandTag (past ++ [t]) tag → ∀ before data after,
    fragments mailbox message opts tag = before ++ .literal data .sync :: after → data ≠ [] →
    (before.flatMap Fragment.data).length < (wire message (past ++ [t])).length →
    before.countP Fragment.IsSync < conts (past ++ [t])
  /-- A synchronising message is streamed only once it was asked for, empty or not. -/
  granted : opts.nonSync = false → t.out = .yielded .wantsStream →
    ∀ tag, CommandTag (past ++ [t]) tag →
      (parts mailbox opts tag).before.countP Fragment.IsSync < conts (past ++ [t])
  /-- The completion or a BYE that comes first refuses it. -/
  refused : opts.nonSync = false → ¬ Streamed past → ∀ tag, CommandTag (past ++ [t]) tag →
    (∃ m ∈ t.completed, m.Ends tag) → ∃ err, t.out = .complete (.error err)
  /-- As many requests as there are synchronising literals never make it miss the completion. -/
  completed : (∀ tag, CommandTag (past ++ [t]) tag →
      conts (past ++ [t]) ≤ (fragments mailbox message opts tag).countP Fragment.IsSync) →
    t.out ≠ .complete (.error .missingTagged)
  /-- And the tagged OK behind the message is a success. -/
  succeeds : Streamed past → ∀ tag, CommandTag past tag → ImapSend.Accepted t.completed →
    lastSome bye? t.completed = none →
    ∀ tagged, lastSome (·.ownTagged? tag) t.completed = some tagged → tagged.body.kind = .ok →
      ∃ out, t.out = .complete (.ok out)

/-- The command has no synchronising literal in front of its message. -/
def MessageFirst : Prop := ∀ tag, ∀ x ∈ (parts mailbox opts tag).before, x.IsSync = false

end Handshaken

/-! ### The synchronising literals of the command -/

/-- Without one in front of the message, the message is the only one there can be. -/
theorem sync_split {p : AppendParts} {message : Literal} {before after : List Fragment} {data : Bytes}
    (hplain : ∀ x ∈ p.before, x.IsSync = false)
    (h : p.fragments message = before ++ .literal data .sync :: after) :
    message.mode = .sync ∧ before.countP Fragment.IsSync = 0 ∧
      before.flatMap Fragment.data = p.header message.data.length message.mode := by
  rw [AppendParts.fragments, List.append_eq_append_iff] at h
  rcases h with ⟨mid, rfl, hrest⟩ | ⟨mid, hbefore, hrest⟩
  · cases mid with
    | nil => simp at hrest
    | cons x mid =>
      obtain ⟨hx, hrest⟩ := List.cons.inj hrest
      cases mid with
      | nil =>
        obtain ⟨hliteral, -⟩ := List.cons.inj hrest
        obtain ⟨-, hmode⟩ := Fragment.literal.inj hliteral
        refine ⟨hmode, ?_, ?_⟩
        · rw [← hx, List.countP_append, List.countP_eq_zero.mpr fun x hx => by simp [hplain x hx]]
          rfl
        · simp [← hx, AppendParts.header, Fragment.data]
      | cons y mid =>
        obtain ⟨-, hafter⟩ := List.cons.inj hrest
        have hline := p.lines (.literal data .sync) (by rw [hafter]; simp)
        simp [isLiteral] at hline
  · cases mid with
    | nil => simp at hrest
    | cons x mid =>
      obtain ⟨rfl, -⟩ := List.cons.inj hrest
      have hsync := hplain (.literal data .sync) (by rw [hbefore]; simp)
      simp [Fragment.IsSync] at hsync

theorem sync_count {p : AppendParts} {message : Literal} (hplain : ∀ x ∈ p.before, x.IsSync = false) :
    (p.fragments message).countP Fragment.IsSync = if message.mode = .sync then 1 else 0 := by
  have hbefore : p.before.countP Fragment.IsSync = 0 :=
    List.countP_eq_zero.mpr fun x hx => by simp [hplain x hx]
  have hafter : p.after.countP Fragment.IsSync = 0 := by
    refine List.countP_eq_zero.mpr fun x hx => ?_
    have hline := p.lines x hx
    cases x with
    | line => simp [Fragment.IsSync]
    | literal => simp [isLiteral] at hline
  rw [AppendParts.fragments, List.countP_append, hbefore, List.countP_cons, List.countP_cons, hafter]
  cases message.mode <;> rfl

/-! ### What is known between two resumes -/

section Accounts

variable {es : List (AppendTurn F)} {t : AppendTurn F}

def Phase.streamed : Phase → Bool
  | .streams _ | .recv _ _ => true
  | _ => false

theorem conts_concat : conts (es ++ [t]) = conts es + requests t.completed := by
  simp [conts, requests, List.countP_append]

theorem wire_concat (message : Bytes) : wire message (es ++ [t]) = wire message es ++ octets message t := by
  simp [wire]

theorem streamed_concat : Streamed (es ++ [t]) ↔ Streamed es ∨ t.out = .yielded .wantsStream := by
  simp [Streamed, or_and_right, exists_or]

theorem requests_pos {ms : List ServerMessage} (h : (lastSome cr? ms).isSome) : 0 < requests ms := by
  obtain ⟨cr, hcr⟩ := Option.isSome_iff_exists.mp h
  obtain ⟨m, hm, hcr⟩ := exists_of_lastSome hcr
  exact List.countP_pos_iff.mpr ⟨m, hm, by simp [hcr]⟩

variable [TryFrom Bytes Tag]

theorem commandTag_concat {tag : Tag} : CommandTag (es ++ [t]) tag ↔
    CommandTag es tag ∨ ∃ bytes, t.tag? = some bytes ∧ TryFrom.tryFrom bytes = Except.ok tag := by
  simp only [CommandTag, List.filterMap_append, List.mem_append, or_and_right, exists_or]
  refine or_congr_right (exists_congr fun bytes => and_congr_left' ?_)
  cases h : t.tag? <;> simp [h, eq_comm]

variable [Encoder Command] [LawfulAppend] [Base64Codec] [TryFrom String Mailbox]
  {mailbox : Mailbox} {message : Bytes} {opts : ImapMessageAppendOptions} {phase phase' : Phase}

variable (mailbox message opts) in
/-- A history, and the phase that it has come to. -/
structure Accounts (es : List (AppendTurn F)) (phase : Phase) : Prop where
  tags : ∀ tag, CommandTag es tag ↔ phase.tag? = some tag
  streamed : Streamed es ↔ phase.streamed = true
  wire : phase.streamed = false →
    wire message es = (phase.written mailbox message.length opts).flatten
  asked : phase.streamed = true → opts.nonSync = false → 0 < conts es

theorem accounts_nil : Accounts mailbox message opts ([] : List (AppendTurn F)) .fresh where
  tags := by simp [CommandTag, Phase.tag?]
  streamed := by simp [Streamed, Phase.streamed]
  wire _ := rfl
  asked := by simp [Phase.streamed]

theorem Moves.tags (h : Accounts mailbox message opts es phase)
    (hm : Moves mailbox message.length opts phase t phase') (tag : Tag) :
    CommandTag (es ++ [t]) tag ↔ phase'.tag? = some tag := by
  rw [commandTag_concat, h.tags]
  rcases hm.tag with ⟨hsame, hno⟩ | ⟨bytes, tag', hnone, hphase, hgiven, hok⟩
  · rw [hsame]
    refine or_iff_left fun hx => ?_
    obtain ⟨bytes, hbytes, hok⟩ := hx
    exact hno bytes hbytes tag hok
  · rw [hnone, hphase]
    constructor
    · intro hx
      rcases hx with hx | ⟨bytes', hbytes', hok'⟩
      · simp at hx
      · obtain rfl := Option.some.inj (hgiven.symm.trans hbytes')
        exact congrArg some (Except.ok.inj (hok.symm.trans hok'))
    · intro htag
      obtain rfl := Option.some.inj htag
      exact .inr ⟨bytes, hgiven, hok⟩

theorem Moves.streamed (hm : Moves mailbox message.length opts phase t phase') :
    phase'.streamed = true ↔ phase.streamed = true ∨ t.out = .yielded .wantsStream := by
  cases hm with
  | writes hout =>
    split <;> simp [Phase.streamed, hout]
  | _ => simp [Phase.streamed, *]

theorem accounts_moves (h : Accounts mailbox message opts es phase)
    (hm : Moves mailbox message.length opts phase t phase') :
    Accounts mailbox message opts (es ++ [t]) phase' where
  tags := hm.tags h
  streamed := by rw [streamed_concat, h.streamed, hm.streamed]
  wire hno := by
    have hnot := mt hm.streamed.mpr (Bool.eq_false_iff.mp hno)
    rw [not_or] at hnot
    rw [wire_concat, h.wire (Bool.eq_false_iff.mpr hnot.1), hm.written, List.flatten_append]
    congr 1
    rw [octets, written?]
    split <;> simp_all
  asked hstreamed hsync := by
    rw [conts_concat]
    cases hm with
    | granted _ _ _ hms _ _ hcr =>
      subst hms
      exact Nat.add_pos_right _ (requests_pos hcr)
    | streams hnonSync => simp [hnonSync] at hsync
    | writes =>
      split at hstreamed <;> simp [Phase.streamed] at hstreamed
    | short | closes | listens | fails | completes =>
      exact Nat.add_pos_left (h.asked rfl hsync) _
    | _ => simp [Phase.streamed] at hstreamed

omit [TryFrom Bytes Tag] [Encoder Command] [LawfulAppend] [Base64Codec] [TryFrom String Mailbox] in
theorem outcome_missing {out : ImapSendOutput Command}
    (h : (commandOutcome ImapMessageAppend.decode out).mapError ImapMessageAppendStreamError.of =
      .error .missingTagged) : out.bye = none ∧ out.tagged = none := by
  unfold commandOutcome at h
  cases hbye : out.bye with
  | some bye => simp [hbye, Except.mapError, ImapMessageAppendStreamError.of] at h
  | none =>
    cases htagged : out.tagged with
    | none => exact ⟨rfl, rfl⟩
    | some tagged =>
      cases hkind : tagged.body.kind <;>
        simp [hbye, htagged, hkind, Except.mapError, ImapMessageAppendStreamError.of] at h

/-! ### One resume keeps to the handshake -/

variable (h : Accounts mailbox message opts es phase)
  (hm : Moves mailbox message.length opts phase t phase')

include h hm

theorem Moves.answered (hplain : MessageFirst mailbox opts) {tag : Tag}
    (htag : CommandTag (es ++ [t]) tag) {before after : List Fragment} {data : Bytes}
    (hsplit : fragments mailbox message opts tag = before ++ .literal data .sync :: after)
    (hlt : (before.flatMap Fragment.data).length < (wire message (es ++ [t])).length) :
    before.countP Fragment.IsSync < conts (es ++ [t]) := by
  have hnext := accounts_moves h hm
  obtain ⟨hmode, hcount, hoctets⟩ := sync_split (hplain tag) hsplit
  have hsync : opts.nonSync = false := by
    cases hnonSync : opts.nonSync with
    | false => rfl
    | true => simp [mode, hnonSync] at hmode
  rw [hcount]
  by_cases hstreamed : phase'.streamed = true
  · exact hnext.asked hstreamed hsync
  · -- before the message is streamed, there is no more than the header
    rw [hnext.wire (Bool.eq_false_iff.mpr hstreamed), hoctets] at hlt
    have hphase := (hnext.tags tag).mp htag
    cases phase' with
    | fresh => simp [Phase.tag?] at hphase
    | awaits | ready =>
      obtain rfl := Option.some.inj hphase
      simp [Phase.written, header] at hlt
    | streams | recv => simp [Phase.streamed] at hstreamed

theorem Moves.refuses (hno : ¬ Streamed es) {tag : Tag}
    (htag : CommandTag (es ++ [t]) tag) (hends : ∃ m ∈ t.completed, m.Ends tag) :
    ∃ err, t.out = .complete (.error err) := by
  obtain ⟨m, hmem, hends⟩ := hends
  have hphase := (hm.tags h tag).mp htag
  have hsilent : t.log ≠ [] := by
    intro hlog
    simp [Turn.completed_silent hlog] at hmem
  rw [h.streamed] at hno
  cases hm with
  | awaits _ _ hms hsig =>
    obtain rfl := Option.some.inj hphase
    have hnone := lastSome_eq_none.mp hsig m (hms ▸ hmem)
    simp [Ends, hnone] at hends
  | granted _ _ _ hms hbye htagged =>
    obtain rfl := Option.some.inj hphase
    rw [ends_iff, lastSome_eq_none.mp hbye m (hms ▸ hmem),
      lastSome_eq_none.mp htagged m (hms ▸ hmem)] at hends
    simp at hends
  | refused hout => exact ⟨_, hout⟩
  | invalid hout => exact ⟨_, hout⟩
  | short | closes | listens | fails | completes => simp [Phase.streamed] at hno
  | asks _ _ hlog | writes _ _ _ hlog | streams _ _ _ hlog => exact absurd hlog hsilent

theorem Moves.completed (hplain : MessageFirst mailbox opts)
    (hcount : ∀ tag, CommandTag (es ++ [t]) tag →
      conts (es ++ [t]) ≤ (fragments mailbox message opts tag).countP Fragment.IsSync) :
    t.out ≠ .complete (.error .missingTagged) := by
  intro hout
  have hnext := accounts_moves h hm
  cases hm with
  | @completes t tag past ms hresult _ hms _ hsig =>
    rw [hresult, CoroutineState.complete.injEq] at hout
    obtain ⟨hbye, htagged⟩ := outcome_missing hout
    have hcr := requests_pos (cr_of_signal hsig hbye htagged)
    have hle := hcount tag ((hnext.tags tag).mpr rfl)
    rw [fragments, sync_count (hplain tag), conts_concat, hms] at hle
    cases hnonSync : opts.nonSync with
    | true =>
      rw [if_neg (by simp [mode, hnonSync])] at hle
      omega
    | false =>
      -- one request let the message go, and this is another
      have hasked := h.asked rfl hnonSync
      rw [if_pos (by simp [mode, hnonSync])] at hle
      omega
  | refused hresult _ herr => simp [hresult, herr] at hout
  | _ => simp [*] at hout

theorem Moves.succeeds (hstreamed : Streamed es) {tag : Tag} (htag : CommandTag es tag)
    (hacc : ImapSend.Accepted t.completed) (hbye : lastSome bye? t.completed = none) {tagged : Tagged}
    (htagged : lastSome (·.ownTagged? tag) t.completed = some tagged) (hok : tagged.body.kind = .ok) :
    ∃ out, t.out = .complete (.ok out) := by
  rw [h.streamed] at hstreamed
  have hphase := (h.tags tag).mp htag
  cases hm with
  | asks | invalid | writes | awaits | refused | granted | streams => simp [Phase.streamed] at hstreamed
  | short _ _ hlog | closes _ _ hlog => simp [Turn.completed_silent hlog] at htagged
  | listens _ _ hms hsig =>
    obtain rfl := Option.some.inj hphase
    obtain ⟨m, hmem, hown⟩ := exists_of_lastSome htagged
    have hnone := signal?_eq_none.mp (lastSome_eq_none.mp hsig m (hms ▸ hmem))
    rw [hnone.1] at hown
    simp at hown
  | fails _ _ hms =>
    rcases hms with hms | hms
    · simp [hms] at htagged
    · exact absurd hacc hms
  | @completes t tag' past ms hresult _ hms =>
    obtain rfl := Option.some.inj hphase
    rw [hms] at hbye htagged
    have houtcome : commandOutcome ImapMessageAppend.decode (ImapSend.outputOf
        ⟨command mailbox opts tag', tag'⟩ past ms) = .ok (ImapMessageAppend.decode
          (ImapSend.outputOf ⟨command mailbox opts tag', tag'⟩ past ms)) :=
      commandOutcome_ok.mpr ⟨⟨hbye, tagged, htagged, hok⟩, rfl⟩
    rw [houtcome] at hresult
    exact ⟨_, hresult⟩

/-- A resume of a command whose message is its first literal keeps to the handshake. -/
theorem Moves.handshaken (hplain : MessageFirst mailbox opts) :
    Handshaken mailbox message opts es t where
  answered _ htag _ _ _ hsplit _ hlt := hm.answered h hplain htag hsplit hlt
  granted hsync hout tag htag := by
    rw [List.countP_eq_zero.mpr fun x hx => by simp [hplain tag x hx]]
    exact (accounts_moves h hm).asked (hm.streamed.mpr (.inr hout)) hsync
  refused _ hno _ htag hends := hm.refuses h hno htag hends
  completed hcount := hm.completed h hplain hcount
  succeeds hstreamed _ htag hacc hbye _ htagged hok := hm.succeeds h hstreamed htag hacc hbye htagged hok

end Accounts

theorem Moves.fresh [Encoder Command] [LawfulAppend] [Base64Codec] [TryFrom String Mailbox]
    [TryFrom Bytes Tag] {mailbox : Mailbox} {len : Nat} {opts : ImapMessageAppendOptions}
    {phase phase' : Phase} {t : AppendTurn F} (hm : Moves mailbox len opts phase t phase') :
    (phase' = .fresh → phase = .fresh ∧ t.log = []) ∧
      (phase = .fresh → phase' ≠ .fresh → ∃ tag, phase'.tag? = some tag ∧ t.log = [] ∧
        phase'.streamed = false ∧
        phase'.written mailbox len opts = [header mailbox len opts tag]) := by
  cases hm with
  | asks _ _ hlog => exact ⟨fun _ => ⟨rfl, hlog⟩, fun _ hne => absurd rfl hne⟩
  | invalid _ _ _ hlog => exact ⟨fun _ => ⟨rfl, hlog⟩, fun _ hne => absurd rfl hne⟩
  | @writes _ _ tag _ _ _ hlog =>
    refine ⟨fun h => ?_, fun _ _ => ⟨tag, ?_, hlog, ?_, phase_written tag⟩⟩
    · split at h <;> simp at h
    · split <;> rfl
    · split <;> rfl
  | _ => exact ⟨by simp, by simp⟩

/-- The header is written whole: with a synchronising literal in it that is not empty,
no run that has written it keeps to the handshake. -/
theorem handshake_broken [Encoder Command] [LawfulAppend] [Base64Codec] [TryFrom String Mailbox]
    [TryFrom Bytes Tag] [Fragmentizer F] {mailbox : Mailbox} {message : Bytes}
    {opts : ImapMessageAppendOptions} {f : F} {es : List (AppendTurn F)}
    {b : Config ImapMessageAppendStream F}
    (hrun : imapMessageAppendStream.Runs (.new mailbox message.length opts) f es b)
    (hwritten : written es ≠ [])
    (hsync : ∀ tag, ∃ before data after,
      (parts mailbox opts tag).before = before ++ .literal data .sync :: after ∧ data ≠ []) :
    ¬ Always (Handshaken mailbox message opts) es := by
  obtain ⟨phase, hphases, -⟩ := phases_run hrun
  obtain ⟨hphase, -⟩ := phases_written hphases
  have hall : Accounts mailbox message opts es phase ∧ (phase = .fresh → conts es = 0) ∧
      (phase ≠ .fresh → ¬ Always (Handshaken mailbox message opts) es) := by
    refine Run.history (P := fun es phase => Accounts mailbox message opts es phase ∧
      (phase = .fresh → conts es = 0) ∧
      (phase ≠ .fresh → ¬ Always (Handshaken mailbox message opts) es)) ?_ ?_ hphases
    · exact ⟨accounts_nil, fun _ => rfl, fun hne => absurd rfl hne⟩
    · intro es phase t phase' hx hm
      obtain ⟨haccounts, hfresh, hbroken⟩ := hx
      have hnext := accounts_moves haccounts hm
      refine ⟨hnext, fun h => ?_, fun hne halways => ?_⟩
      · obtain ⟨hphase, hlog⟩ := hm.fresh.1 h
        rw [conts_concat, hfresh hphase, Turn.completed_silent hlog]
        rfl
      · rw [always_concat] at halways
        by_cases hphase : phase = .fresh
        · obtain ⟨tag, htag, hlog, hstreamed, hheader⟩ := hm.fresh.2 hphase hne
          obtain ⟨before, data, after, hbefore, hdata⟩ := hsync tag
          have hsplit : fragments mailbox message opts tag = before ++ .literal data .sync ::
              (after ++ .line ((parts mailbox opts tag).line ++ announcement message.length (mode opts)) ::
                .literal message (mode opts) :: (parts mailbox opts tag).after) := by
            rw [fragments, AppendParts.fragments, hbefore, List.append_assoc]
            rfl
          have hlt : (before.flatMap Fragment.data).length < (wire message (es ++ [t])).length := by
            rw [hnext.wire hstreamed, hheader]
            have hpos := List.length_pos_iff.mpr hdata
            simp only [header, AppendParts.header, hbefore, List.flatMap_append, List.flatMap_cons,
              List.flatten_singleton, List.length_append, Fragment.data]
            omega
          have hgranted := halways.2.answered tag ((hnext.tags tag).mpr htag) _ _ _ hsplit hdata hlt
          rw [conts_concat, hfresh hphase, Turn.completed_silent hlog] at hgranted
          exact absurd hgranted (Nat.not_lt_zero _)
        · exact hbroken hphase halways.1
  refine hall.2.2 ?_
  intro hfresh
  rw [hfresh] at hphase
  exact hwritten hphase

end ImapMessageAppendStream

open ImapMessageAppendStream in
/-- A streamed APPEND keeps to the handshake, whatever the server does, when its command
has no synchronising literal in front of the message. -/
theorem append_stream_handshake [Encoder Command] [LawfulAppend] [Base64Codec] [TryFrom String Mailbox]
    [TryFrom Bytes Tag] {F : Type} [Fragmentizer F] {mailbox : Mailbox} {message : Bytes}
    {opts : ImapMessageAppendOptions} {f : F} {es : List (AppendTurn F)}
    {b : Config ImapMessageAppendStream F} (hplain : MessageFirst mailbox opts)
    (hrun : imapMessageAppendStream.Runs (.new mailbox message.length opts) f es b) :
    Always (Handshaken mailbox message opts) es := by
  obtain ⟨phase, hphases, -⟩ := phases_run hrun
  have hall : Always (Handshaken mailbox message opts) es ∧ Accounts mailbox message opts es phase := by
    refine Run.history (P := fun es phase => Always (Handshaken mailbox message opts) es ∧
      Accounts mailbox message opts es phase) ⟨always_nil, accounts_nil⟩ ?_ hphases
    intro es phase t phase' hx hm
    obtain ⟨halways, haccounts⟩ := hx
    exact ⟨always_concat.mpr ⟨halways, hm.handshaken haccounts hplain⟩, accounts_moves haccounts hm⟩
  exact hall.1

section Concrete

open Concrete ImapMessageAppendStream

theorem append_stream_handshake_inbox : ∃ es b,
    playStreamed [none, some (ascii "A1"), none, some (ascii "+ go\r\n"), none, none,
      some (ascii "A1 OK done\r\n")] = some (es, b) ∧
    written es = [ascii "A1 APPEND INBOX \x7b3\x7d\r\n", ascii "\r\n"] ∧
    Always (Handshaken .inbox (ascii "abc") {}) es := by
  have hrun : (playStreamed [none, some (ascii "A1"), none, some (ascii "+ go\r\n"), none, none,
      some (ascii "A1 OK done\r\n")]).any (fun r =>
        decide (written r.1 = [ascii "A1 APPEND INBOX \x7b3\x7d\r\n", ascii "\r\n"])) = true := by
    decide +kernel
  obtain ⟨⟨es, b⟩, hplay, hwritten⟩ := (Option.any_eq_true _ _).mp hrun
  have hplain : MessageFirst .inbox {} := fun tag x hx => absurd hx (List.not_mem_nil)
  exact ⟨es, b, hplay, of_decide_eq_true hwritten,
    append_stream_handshake hplain (Coroutine.play_run _ hplay)⟩

end Concrete

/-! ### A name that takes a literal -/

section LiteralName

open Concrete ImapMessageAppendStream

theorem line_not_literal (bytes : Bytes) : ∀ x ∈ [Fragment.line bytes], isLiteral x = false := by
  simp [isLiteral]

/-- The encoding of an APPEND to a mailbox whose name is sent as a literal. -/
def literalName (tag : Tag) (name : Bytes) : AppendParts where
  before := [.line (tag.inner ++ ascii " APPEND " ++ announcement name.length .sync), .literal name .sync]
  line := ascii " "
  after := [.line (ascii "\r\n")]
  lines := line_not_literal _

local instance literalNames : Encoder Command :=
  ⟨fun command =>
    match command.body with
    | .append mailbox _ _ message => (literalName command.tag mailbox.name).fragments message
    | _ => command.fragments⟩

local instance lawfulLiteralNames : LawfulAppend where
  parts tag mailbox _ _ := literalName tag mailbox.name
  encode _ _ _ _ _ := rfl

/-- "caf\xe9" is not UTF-8, and is sent as it is. -/
def latinName : Mailbox := .other [99, 97, 102, 233]

/-- The name is on the wire before the server has asked for anything. -/
theorem append_stream_name_unanswered :
    ¬ ∀ (es : List (AppendTurn (LineFragmentizer (decodeTable appendReplies))))
        (b : Config ImapMessageAppendStream (LineFragmentizer (decodeTable appendReplies))),
        imapMessageAppendStream.Runs (.new latinName (ascii "abc").length {}) LineFragmentizer.empty es b →
          Always (Handshaken latinName (ascii "abc") {}) es := by
  intro h
  have hrun : (imapMessageAppendStream.play (Coroutine.start (.new latinName (ascii "abc").length {})
      (LineFragmentizer.empty : LineFragmentizer (decodeTable appendReplies)))
      [(none, ()), (some (ascii "A1"), ())]).any (fun r => decide (written r.1 ≠ [])) = true := by
    decide +kernel
  obtain ⟨⟨es, b⟩, hplay, hwritten⟩ := (Option.any_eq_true _ _).mp hrun
  have hruns := Coroutine.play_run _ hplay
  refine handshake_broken hruns (of_decide_eq_true hwritten) (fun tag => ?_) (h es b hruns)
  have hname : (encodeInplace latinName).name ≠ [] := by decide +kernel
  exact ⟨[.line (tag.inner ++ ascii " APPEND " ++
    announcement (encodeInplace latinName).name.length .sync)], _, [], rfl, hname⟩

end LiteralName
end IoImap
