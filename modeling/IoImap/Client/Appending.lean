import IoImap.Client.Scripted
import IoImap.Rfc3501.AppendVariants
import IoImap.Send.Budget
import IoImap.Send.Unlogged

/-!
# A message off its source (client.rs)

`append_stream` hosts the streamed APPEND over a stream and a source: `io::copy` moves the
message from the one to the other, and the coroutine is told whether the source ran short.
-/

namespace IoImap
open Fragmentizer Transition

/-- The buffer of `io::copy`. -/
def COPY_BUFFER_SIZE : Nat := 8 * 1024

/-- `Read`, as far as a message is read from it. `io::copy` tries an interrupted read again:
what is read is what came of the last try. -/
class Source (Src : Type) where
  read : Src → Nat → Except IoError Bytes × Src

/-- A read returns no more than the buffer takes. -/
class LawfulSource (Src : Type) [Source Src] : Prop where
  read_le : ∀ (source : Src) (size : Nat) (bytes : Bytes) (source' : Src),
    Source.read source size = (.ok bytes, source') → bytes.length ≤ size

/-! ### The copy -/

section Copy

variable {St Src : Type} [ImapStream St] [Source Src]

/-- `io::copy` of a source that is cut off behind `remaining` octets, with their number. -/
def copyMessage (stream : St) (source : Src) (remaining : Nat) : Except IoError Nat × St × Src :=
  if _h : remaining = 0 then (.ok 0, stream, source)
  else
    match Source.read source (min remaining COPY_BUFFER_SIZE) with
    | (.error err, source) => (.error err, stream, source)
    | (.ok [], source) => (.ok 0, stream, source)
    | (.ok (b :: bs), source) =>
      match ImapStream.writeAll stream (b :: bs) with
      | (.error err, stream) => (.error err, stream, source)
      | (.ok (), stream) =>
        let r := copyMessage stream source (remaining - (b :: bs).length)
        (r.1.map ((b :: bs).length + ·), r.2)
termination_by remaining
decreasing_by
  simp only [List.length_cons]
  omega

/-- An operation of `append_stream`, with what came of it. -/
inductive AppendOp where
  | stream (op : StreamOp)
  | takes (size : Nat) (result : Except IoError Bytes)

namespace AppendOp

def Performs (p : St × Src) (op : AppendOp) (p' : St × Src) : Prop :=
  match op with
  | .stream op => op.Performs p.1 p'.1 ∧ p'.2 = p.2
  | .takes size result => p'.1 = p.1 ∧ Source.read p.2 size = (result, p'.2)

def put : AppendOp → Bytes
  | .stream (.write bytes _) => bytes
  | _ => []

def got : AppendOp → Bytes
  | .takes _ (.ok bytes) => bytes
  | _ => []

/-- What was to be written to the stream. -/
def written (ops : List AppendOp) : Bytes := ops.flatMap put

/-- What was read from the source. -/
def taken (ops : List AppendOp) : Bytes := ops.flatMap got

@[simp] theorem written_nil : written [] = [] := rfl

@[simp] theorem taken_nil : taken [] = [] := rfl

@[simp] theorem written_append (ops ops' : List AppendOp) :
    written (ops ++ ops') = written ops ++ written ops' := List.flatMap_append

@[simp] theorem taken_append (ops ops' : List AppendOp) :
    taken (ops ++ ops') = taken ops ++ taken ops' := List.flatMap_append

theorem performs_part {stream stream' : St} {source source' : Src} {size : Nat} {part : Bytes}
    {result : Except IoError Unit} (hread : Source.read source size = (.ok part, source'))
    (hwrite : ImapStream.writeAll stream part = (result, stream')) :
    Run Performs (stream, source) [.takes size (.ok part), .stream (.write part result)]
      (stream', source') := by
  have hr : Performs (stream, source) (.takes size (.ok part)) (stream, source') := ⟨rfl, hread⟩
  have hw : Performs (stream, source') (.stream (.write part result)) (stream', source') := ⟨hwrite, rfl⟩
  exact (Run.single hr).snoc hw

end AppendOp

open AppendOp in
/-- The octets asked for go from the source to the stream as they come, and no more of them. -/
theorem copyMessage_copies [LawfulSource Src] (stream : St) (source : Src) (len : Nat) :
    ∃ ops, Run AppendOp.Performs (stream, source) ops (copyMessage stream source len).2 ∧
      written ops = taken ops ∧ (taken ops).length ≤ len ∧
      ∀ n, (copyMessage stream source len).1 = .ok n → (taken ops).length = n := by
  fun_induction copyMessage stream source len with
  | case1 stream source => exact ⟨[], .nil, rfl, Nat.le_refl 0, fun n hn => Except.ok.inj hn⟩
  | case2 stream source len hlen err source' hread =>
    exact ⟨[.takes _ (.error err)], .single ⟨rfl, hread⟩, rfl, Nat.zero_le _, by simp⟩
  | case3 stream source len hlen source' hread =>
    exact ⟨[.takes _ (.ok [])], .single ⟨rfl, hread⟩, rfl, Nat.zero_le _, fun n hn => Except.ok.inj hn⟩
  | case4 stream source len hlen b bs source' hread err stream' hwrite =>
    have hle := LawfulSource.read_le _ _ _ _ hread
    refine ⟨_, performs_part hread hwrite, by simp [written, taken, put, got], ?_, by simp⟩
    simp only [taken, got, List.flatMap_cons, List.flatMap_nil, List.append_nil]
    exact Nat.le_trans hle (Nat.min_le_left _ _)
  | case5 stream source len hlen b bs source' hread stream' hwrite r ih =>
    -- a part that went through stands in front of what the rest of the copy does
    obtain ⟨ops, hrun, hsame, hlength, hall⟩ := ih
    have hle := Nat.le_trans (LawfulSource.read_le _ _ _ _ hread) (Nat.min_le_left _ _)
    have htaken : taken ([.takes (min len COPY_BUFFER_SIZE) (.ok (b :: bs)),
        .stream (.write (b :: bs) (.ok ()))] ++ ops) = b :: bs ++ taken ops := by
      simp [taken, got]
    refine ⟨_, (performs_part hread hwrite).append hrun, ?_, ?_, fun n hn => ?_⟩
    · rw [htaken, ← hsame]
      simp [written, put]
    · rw [htaken, List.length_append]
      omega
    · rw [htaken, List.length_append]
      cases hr : r.1 with
      | error err => simp [hr, Except.map] at hn
      | ok m =>
        rw [hr] at hn
        rw [hall m hr]
        exact Except.ok.inj hn

end Copy

/-! ### The loop -/

/-- What serves the yields of the streamed APPEND. -/
structure Appending (St G Src : Type) extends Connection St G where
  source : Src

namespace Appending

variable {St G Src : Type} [ImapStream St] [TagGenerator G] [Source Src]

/-- The arms that are those of `ImapClientStd::run`. -/
def converse (w : Appending St G Src) (y : ImapYield) :
    Except (ImapClientError ImapMessageAppendStreamError) (Option Bytes) × Appending St G Src :=
  let r := Connection.serve w.toConnection y
  (r.1, { w with toConnection := r.2 })

/-- The arms of `append_stream`. -/
def serve (len : UInt64) :
    Serve (Appending St G Src) ImapMessageAppendStreamYield ImapMessageAppendStreamError
  | w, .wantsTag => w.converse .wantsTag
  | w, .wantsRead => w.converse .wantsRead
  | w, .wantsWrite bytes => w.converse (.wantsWrite bytes)
  | w, .wantsStream =>
    match copyMessage w.stream w.source len.toNat with
    | (.error err, stream, source) => (.error (.io err), { w with stream, source })
    | (.ok n, stream, source) =>
      -- a source that ran short is reported as an empty answer
      (.ok (if n ≠ len.toNat then some [] else none), { w with stream, source })

omit [Source Src] in
theorem converse_inv {w w' : Appending St G Src} (y : ImapYield)
    {r : Except (ImapClientError ImapMessageAppendStreamError) (Option Bytes)}
    (h : w.converse y = (r, w')) : Connection.serve w.toConnection y = (r, w'.toConnection) := by
  obtain ⟨hr, rfl⟩ := Prod.mk.inj h
  exact Prod.ext hr rfl

end Appending

/-- `append_stream`, as far as it gets in so many passes: what it has returned, the client,
and the source. -/
def ImapClientStd.appendStream {F St G Src : Type} [Fragmentizer F] [ImapStream St] [TagGenerator G]
    [Source Src] [TryFrom Bytes Tag] [Encoder Command] [Base64Codec] [TryFrom String Mailbox]
    (client : ImapClientStd F St G) (mailbox : Mailbox) (source : Src) (len : UInt64)
    (opts : ImapMessageAppendOptions) (n : Nat) :
    Option (Except (ImapClientError ImapMessageAppendStreamError) ImapMessageAppendOutput) ×
      ImapClientStd F St G × Src :=
  let world : Appending St G Src := ⟨client.toConnection, source⟩
  let call := (Call.start (ImapMessageAppendStream.new mailbox len.toUInt32.toNat opts)
    client.fragmentizer world).run imapMessageAppendStream (Appending.serve len) n
  (call.result, { client with
    toConnection := call.world.toConnection
    fragmentizer := call.fragmentizer }, call.world.source)

/-! ### Without the log -/

namespace ImapMessageAppendStream

variable {F : Type} [Fragmentizer F] [TryFrom Bytes Tag] [Encoder Command]
  (s : ImapMessageAppendStream) (l : Logged F) (arg : Option Bytes)

omit [Fragmentizer F] in
theorem resumeHeader_erase (body : CommandBody) :
    s.resumeHeader body l.frag arg = Logged.erase (s.resumeHeader body l arg) := by
  unfold resumeHeader
  rcases arg with - | bytes
  · dsimp only
    split_ifs <;> rfl
  · dsimp only
    cases (TryFrom.tryFrom bytes : Except ValidationError Tag) with
    | error err => rfl
    | ok tag =>
      dsimp only
      cases splitMessage (Encoder.encode (⟨tag, body⟩ : Command)) with
      | none => rfl
      | some parts =>
        dsimp only
        split_ifs <;> rfl

omit [Fragmentizer F] [TryFrom Bytes Tag] [Encoder Command] in
theorem resumeStream_erase (command : Command) (crlf : Bytes) :
    s.resumeStream command crlf l.frag arg = Logged.erase (s.resumeStream command crlf l arg) := by
  unfold resumeStream
  split_ifs <;> rfl

theorem resumeContinuation_erase (recv : ImapSend Command) (command : Command) (crlf : Bytes) :
    s.resumeContinuation recv command crlf l.frag arg =
      Logged.erase (s.resumeContinuation recv command crlf l arg) := by
  unfold resumeContinuation
  rw [ImapSend.resume_erase]
  rcases recv.resume l arg with ⟨y | err | out, recv', l'⟩
  · rfl
  · rfl
  · simp only [Logged.erase]
    cases out.bye with
    | some bye => rfl
    | none =>
      cases out.tagged with
      | none => exact s.resumeStream_erase l' none command crlf
      | some tagged =>
        dsimp only
        cases tagged.body.kind <;> rfl

theorem resume_erase : s.resume l.frag arg = Logged.erase (s.resume l arg) := by
  unfold resume
  cases s.state with
  | writeHeader body => exact s.resumeHeader_erase l arg body
  | continuation recv command crlf => exact s.resumeContinuation_erase l arg recv command crlf
  | stream command crlf => exact s.resumeStream_erase l arg command crlf
  | recv recv =>
    simp only [resumeRecv, commandResume_erase]
    rfl

end ImapMessageAppendStream

theorem imapMessageAppendStream_unlogged [TryFrom Bytes Tag] [Encoder Command] :
    imapMessageAppendStream.Unlogged :=
  fun s l arg _ => s.resume_erase l arg

/-! ### What it lives on -/

namespace ImapMessageAppendStream

variable {F : Type}

def budget (s : ImapMessageAppendStream) (arg : Option Bytes) : Nat :=
  match s.state with
  | .writeHeader _ => if s.tagRequested then 5 else 6
  | .continuation recv _ _ => recv.budget arg
  | .stream _ _ => if s.streamPending then 3 else 4
  | .recv recv => recv.budget arg

variable [TryFrom Bytes Tag] [Encoder Command]

abbrev FrugalAt (before : Nat) (r : ImapMessageAppendStreamResult × ImapMessageAppendStream × F) : Prop :=
  Frugal imapMessageAppendStream.request budget before r.1 r.2.1

theorem resumeHeader_frugal {s : ImapMessageAppendStream} {body : CommandBody}
    (hs : s.state = .writeHeader body) (f : F) (arg : Option Bytes) :
    FrugalAt (s.budget arg) (s.resumeHeader body f arg) := by
  have hbudget : s.budget arg = if s.tagRequested then 5 else 6 := by rw [budget, hs]
  rw [hbudget]
  unfold resumeHeader
  rcases arg with - | bytes
  · cases hasked : s.tagRequested with
    | true => trivial
    | false =>
      refine .asks fun answer _ => ?_
      simp [budget, hs]
  · have hleft : 5 ≤ if s.tagRequested then 5 else 6 := by split <;> decide
    dsimp only
    cases (TryFrom.tryFrom bytes : Except ValidationError Tag) with
    | error err => trivial
    | ok tag =>
      dsimp only
      cases splitMessage (Encoder.encode (⟨tag, body⟩ : Command)) with
      | none => trivial
      | some parts =>
        dsimp only
        by_cases hsuffix : EMPTY_LITERAL <:+ parts.1
        · rw [if_pos hsuffix]
          refine .asks fun answer hans => Nat.lt_of_lt_of_le ?_ hleft
          obtain rfl := Request.answeredBy_nothing.mp hans
          cases hsync : s.nonSync with
          | true =>
            simp only [budget, if_true]
            split <;> decide
          | false => exact Nat.lt_add_of_pos_right (k := 4) (by decide)
        · rw [if_neg hsuffix]
          trivial

omit [TryFrom Bytes Tag] [Encoder Command] in
theorem stream_budget_le (s : ImapMessageAppendStream) : (if s.streamPending then 3 else 4) ≤ PER_READ := by
  split <;> decide

theorem resumeStream_frugal (s : ImapMessageAppendStream) (command : Command) (crlf : Bytes) (f : F)
    (arg : Option Bytes) :
    FrugalAt (if s.streamPending then 3 else 4) (s.resumeStream command crlf f arg) := by
  unfold resumeStream
  cases hpending : s.streamPending with
  | true =>
    simp only [if_true]
    split
    · trivial
    · refine .asks fun answer hans => ?_
      obtain rfl := Request.answeredBy_nothing.mp hans
      exact Nat.lt_add_of_pos_right (k := 2) (by decide)
  | false => exact .asks fun _ _ => Nat.lt_succ_self 3

variable [Fragmentizer F]

theorem resumeContinuation_frugal (s : ImapMessageAppendStream) (recv : ImapSend Command)
    (command : Command) (crlf : Bytes) (f : F) (arg : Option Bytes) :
    FrugalAt (recv.budget arg) (s.resumeContinuation recv command crlf f arg) := by
  have hfrugal := recv.resume_frugal f arg
  unfold resumeContinuation
  generalize recv.resume f arg = r at hfrugal ⊢
  obtain ⟨y | err | out, recv', f'⟩ := r
  · exact hfrugal.forwards (by cases y <;> rfl) fun _ => rfl
  · trivial
  · dsimp only
    split
    · trivial
    · split <;> trivial
    · exact (s.resumeStream_frugal command crlf f' none).mono (Nat.le_trans s.stream_budget_le hfrugal)

theorem resumeRecv_frugal (s : ImapMessageAppendStream) (recv : ImapSend Command) (f : F)
    (arg : Option Bytes) : FrugalAt (recv.budget arg) (s.resumeRecv recv f arg) := by
  have hfrugal := commandResume_frugal ImapMessageAppend.decode recv f arg
  rw [resumeRecv]
  generalize commandResume ImapMessageAppend.decode recv f arg = r at hfrugal ⊢
  obtain ⟨y | err | v, recv', f'⟩ := r
  · exact hfrugal.forwards (by cases y <;> rfl) fun _ => rfl
  · trivial
  · exact hfrugal

theorem resume_frugal (s : ImapMessageAppendStream) (f : F) (arg : Option Bytes) :
    FrugalAt (s.budget arg) (s.resume f arg) := by
  unfold resume
  cases hs : s.state with
  | writeHeader body => exact resumeHeader_frugal hs f arg
  | continuation recv command crlf =>
    have hbudget : s.budget arg = recv.budget arg := by rw [budget, hs]
    exact hbudget ▸ s.resumeContinuation_frugal recv command crlf f arg
  | stream command crlf =>
    have hbudget : s.budget arg = if s.streamPending then 3 else 4 := by rw [budget, hs]
    exact hbudget ▸ s.resumeStream_frugal command crlf f arg
  | recv recv =>
    have hbudget : s.budget arg = recv.budget arg := by rw [budget, hs]
    exact hbudget ▸ s.resumeRecv_frugal recv f arg

end ImapMessageAppendStream

/-! ### What a pass does -/

namespace Appending
open AppendOp

variable {St G Src : Type} [ImapStream St] [TagGenerator G] [Source Src] {len : UInt64}

def place (w : Appending St G Src) : St × Src := (w.stream, w.source)

/-- What serving a yield comes to: the tags it takes, the operations, and the answer. -/
def Does (limit : Nat) (y : ImapMessageAppendStreamYield) (tags : List Tag) (ops : List AppendOp)
    (r : Except (ImapClientError ImapMessageAppendStreamError) (Option Bytes)) : Prop :=
  match y with
  | .wantsTag => ops = [] ∧ ∃ tag, tags = [tag] ∧ r = .ok (some tag.inner)
  | .wantsRead => tags = [] ∧ written ops = [] ∧ taken ops = []
  | .wantsWrite bytes => tags = [] ∧ written ops = bytes ∧ taken ops = []
  | .wantsStream => tags = [] ∧ written ops = taken ops ∧ (taken ops).length ≤ limit ∧
      ∀ arg, r = .ok arg → arg ≠ some [] → (taken ops).length = limit

theorem converse_does (w : Appending St G Src) {y : ImapYield} (hy : y ≠ .wantsTag) :
    ∃ op, AppendOp.Performs w.place (.stream op) (w.converse y).2.place ∧
      (w.converse y).2.tags = w.tags ∧ op.Answers y := by
  obtain ⟨op, stream, hop, hperforms, he⟩ :=
    Connection.serve_io (E := ImapMessageAppendStreamError) w.toConnection hy
  have hconverse : (w.converse y).2 = { w with stream } := by
    rw [converse, he]
  rw [hconverse]
  exact ⟨op, ⟨hperforms, rfl⟩, rfl, hop⟩

variable (len) in
theorem serve_does [LawfulSource Src] (w : Appending St G Src) (y : ImapMessageAppendStreamYield) :
    ∃ tags ops, Run Issues w.tags tags (serve len w y).2.tags ∧
      Run AppendOp.Performs w.place ops (serve len w y).2.place ∧
      Does len.toNat y tags ops (serve len w y).1 := by
  cases y with
  | wantsTag => exact ⟨[_], [], .single rfl, .nil, rfl, _, rfl, rfl⟩
  | wantsRead =>
    obtain ⟨op, hperforms, htags, hop⟩ := w.converse_does (y := .wantsRead) (by simp)
    refine ⟨[], [.stream op], htags ▸ .nil, .single hperforms, rfl, ?_⟩
    cases hop with
    | read result => exact ⟨rfl, rfl⟩
  | wantsWrite bytes =>
    obtain ⟨op, hperforms, htags, hop⟩ := w.converse_does (y := .wantsWrite bytes) (by simp)
    refine ⟨[], [.stream op], htags ▸ .nil, .single hperforms, rfl, ?_⟩
    cases hop with
    | write bytes result => exact ⟨List.append_nil bytes, rfl⟩
  | wantsStream =>
    obtain ⟨ops, hrun, hsame, hlength, hall⟩ := copyMessage_copies w.stream w.source len.toNat
    rw [serve]
    generalize copyMessage w.stream w.source len.toNat = r at hrun hall ⊢
    obtain ⟨err | n, stream, source⟩ := r
    · exact ⟨[], ops, .nil, hrun, rfl, hsame, hlength, by simp⟩
    · refine ⟨[], ops, .nil, hrun, rfl, hsame, hlength, fun arg harg hfull => ?_⟩
      rw [hall n rfl]
      by_contra hshort
      dsimp only at harg
      rw [if_pos hshort] at harg
      exact hfull (Except.ok.inj harg).symm

theorem serve_honours [TryFrom Bytes Tag] [Encoder Command] : Serve.Honours
    (serve len : Serve (Appending St G Src) _ _)
    imapMessageAppendStream.request := by
  intro w y arg w' h
  cases y with
  | wantsTag => exact Connection.serve_honours _ .wantsTag _ _ (converse_inv .wantsTag h)
  | wantsRead => exact Connection.serve_honours _ .wantsRead _ _ (converse_inv .wantsRead h)
  | wantsWrite bytes =>
    exact Connection.serve_honours _ (.wantsWrite bytes) _ _ (converse_inv (.wantsWrite bytes) h)
  | wantsStream =>
    rw [serve] at h
    split at h
    · simp at h
    · obtain rfl := Except.ok.inj (Prod.mk.inj h).1
      split <;> rfl

/-! ### What is sent -/

section Sent

variable [Encoder Command] [LawfulAppend] [Base64Codec] [TryFrom String Mailbox]

open ImapMessageAppendStream (header closing Phase Stage Moves)

/-- What a call that may take `limit` octets has sent, of which `taken` are the source's:
nothing, the header with what was taken, or the whole command. -/
inductive Sent (mailbox : Mailbox) (len limit : Nat) (opts : ImapMessageAppendOptions) :
    List Tag → Bytes → Bytes → Prop
  | nothing {tags : List Tag} (h : tags.length ≤ 1) : Sent mailbox len limit opts tags [] []
  | begun {tag : Tag} {taken : Bytes} (h : taken.length ≤ limit) :
      Sent mailbox len limit opts [tag] taken (header mailbox len opts tag ++ taken)
  | whole {tag : Tag} {taken : Bytes} (h : taken.length = limit) :
      Sent mailbox len limit opts [tag] taken
        (header mailbox len opts tag ++ taken ++ closing mailbox opts tag)

variable {mailbox : Mailbox} {n limit : Nat} {opts : ImapMessageAppendOptions} {phase phase' : Phase}
  {tags tags' : List Tag} {ops ops' : List AppendOp} {arg : Option Bytes}

variable (mailbox n limit opts) in
/-- What a call that goes on has sent: `arg` is what its next resume gets. -/
def OnWire (phase : Phase) (tags : List Tag) (ops : List AppendOp) (arg : Option Bytes) : Prop :=
  match phase with
  | .fresh => written ops = [] ∧ taken ops = [] ∧
      ((tags = [] ∧ arg = none) ∨ ∃ tag, tags = [tag] ∧ arg = some tag.inner)
  | .awaits tag _ | .ready tag =>
    tags = [tag] ∧ written ops = header mailbox n opts tag ∧ taken ops = []
  | .streams tag => tags = [tag] ∧ written ops = header mailbox n opts tag ++ taken ops ∧
      (taken ops).length ≤ limit ∧ (arg ≠ some [] → (taken ops).length = limit)
  | .recv tag _ => tags = [tag] ∧ (taken ops).length = limit ∧
      written ops = header mailbox n opts tag ++ taken ops ++ closing mailbox opts tag

theorem Sent.headed (tag : Tag) : Sent mailbox n limit opts [tag] [] (header mailbox n opts tag) := by
  have hbegun : Sent mailbox n limit opts [tag] [] (header mailbox n opts tag ++ []) :=
    .begun (Nat.zero_le limit)
  rwa [List.append_nil] at hbegun

theorem OnWire.sent (h : OnWire mailbox n limit opts phase tags ops arg) :
    Sent mailbox n limit opts tags (taken ops) (written ops) := by
  cases phase with
  | fresh =>
    obtain ⟨hwritten, htaken, htags⟩ := h
    rw [hwritten, htaken]
    refine .nothing ?_
    rcases htags with ⟨rfl, -⟩ | ⟨tag, rfl, -⟩
    · exact Nat.zero_le 1
    · exact Nat.le_refl 1
  | awaits tag past =>
    obtain ⟨rfl, hwritten, htaken⟩ := h
    rw [hwritten, htaken]
    exact .headed tag
  | ready tag =>
    obtain ⟨rfl, hwritten, htaken⟩ := h
    rw [hwritten, htaken]
    exact .headed tag
  | streams tag =>
    obtain ⟨rfl, hwritten, hlength, -⟩ := h
    rw [hwritten]
    exact .begun hlength
  | recv tag past =>
    obtain ⟨rfl, hlength, hwritten⟩ := h
    rw [hwritten]
    exact .whole hlength

/-- The tag is asked for once. -/
theorem OnWire.untagged {F : Type} {t : AppendTurn F} {s : ImapMessageAppendStream}
    (h : OnWire mailbox n limit opts .fresh tags ops t.arg) (hstage : Stage mailbox n opts s t.due .fresh)
    (hans : t.due.answeredBy t.arg = true) (htag : t.tag? = none) : tags = [] := by
  obtain ⟨-, -, ⟨rfl, -⟩ | ⟨tag, -, harg⟩⟩ := h
  · rfl
  · exfalso
    generalize hdue : t.due = due at hstage hans
    cases hstage with
    | fresh asked =>
      cases asked with
      | false =>
        rw [harg] at hans
        simp [Request.answeredBy] at hans
      | true => simp [Turn.tag?, hdue, harg] at htag

/-- The command is written under the tag that was issued for it. -/
theorem OnWire.tagged [TryFrom Bytes Tag] [LawfulTag] {F : Type} {t : AppendTurn F} {bytes : Bytes} {tag : Tag}
    (h : OnWire mailbox n limit opts .fresh tags ops t.arg) (htag : t.tag? = some bytes)
    (hok : TryFrom.tryFrom bytes = Except.ok tag) :
    tags = [tag] ∧ written ops = [] ∧ taken ops = [] := by
  have hgiven : t.arg = some bytes := by
    rw [Turn.tag?] at htag
    split at htag
    · exact htag
    · simp at htag
  obtain ⟨hwritten, htaken, ⟨-, harg⟩ | ⟨tag', rfl, harg⟩⟩ := h
  · simp [hgiven] at harg
  · obtain rfl : bytes = tag'.inner := Option.some.inj (hgiven.symm.trans harg)
    obtain rfl : tag = tag' := LawfulTag.inner _ tag hok
    exact ⟨rfl, hwritten, htaken⟩

/-- The copy of a message whose header is sent. -/
theorem OnWire.streams {tag : Tag}
    {r : Except (ImapClientError ImapMessageAppendStreamError) (Option Bytes)}
    (h : tags = [tag] ∧ written ops = header mailbox n opts tag ∧ taken ops = [])
    (hdoes : Does limit .wantsStream tags' ops' r) :
    Sent mailbox n limit opts (tags ++ tags') (taken (ops ++ ops')) (written (ops ++ ops')) ∧
      ∀ arg, r = .ok arg →
        OnWire mailbox n limit opts (.streams tag) (tags ++ tags') (ops ++ ops') arg := by
  obtain ⟨rfl, hwritten, htaken⟩ := h
  obtain ⟨rfl, hsame, hlength, hall⟩ := hdoes
  have htaken' : taken (ops ++ ops') = taken ops' := by rw [taken_append, htaken, List.nil_append]
  have hwritten' : written (ops ++ ops') = header mailbox n opts tag ++ taken (ops ++ ops') := by
    rw [written_append, hwritten, hsame, htaken']
  constructor
  · rw [hwritten']
    exact .begun (htaken'.symm ▸ hlength)
  · exact fun arg harg => ⟨rfl, hwritten', htaken'.symm ▸ hlength, htaken'.symm ▸ hall arg harg⟩

/-- What a yield is served with brings the call to the next phase; what was sent is accounted
for when that fails as well. -/
theorem OnWire.served [TryFrom Bytes Tag] [LawfulTag] {F : Type} {t : AppendTurn F}
    {s : ImapMessageAppendStream} {y : ImapMessageAppendStreamYield}
    {r : Except (ImapClientError ImapMessageAppendStreamError) (Option Bytes)}
    (h : OnWire mailbox n limit opts phase tags ops t.arg) (hstage : Stage mailbox n opts s t.due phase)
    (hans : t.due.answeredBy t.arg = true) (hout : t.out = .yielded y)
    (hmoves : Moves mailbox n opts phase t phase')
    (hfull : ∀ tag bytes, phase = .streams tag → t.out = .yielded (.wantsWrite bytes) → t.arg ≠ some [])
    (hdoes : Does limit y tags' ops' r) :
    Sent mailbox n limit opts (tags ++ tags') (taken (ops ++ ops')) (written (ops ++ ops')) ∧
      ∀ arg, r = .ok arg → OnWire mailbox n limit opts phase' (tags ++ tags') (ops ++ ops') arg := by
  have hsame : ∀ {y' : ImapMessageAppendStreamYield}, t.out = .yielded y' → Does limit y' tags' ops' r :=
    fun hout' => CoroutineState.yielded.inj (hout.symm.trans hout') ▸ hdoes
  have hkeeps : (∀ arg, OnWire mailbox n limit opts phase' (tags ++ tags') (ops ++ ops') arg) →
      Sent mailbox n limit opts (tags ++ tags') (taken (ops ++ ops')) (written (ops ++ ops')) ∧
        ∀ arg, r = .ok arg → OnWire mailbox n limit opts phase' (tags ++ tags') (ops ++ ops') arg :=
    fun hwire => ⟨(hwire none).sent, fun arg _ => hwire arg⟩
  cases hmoves with
  | asks hout' htag =>
    obtain rfl := h.untagged hstage hans htag
    obtain ⟨hwritten, htaken, -⟩ := h
    obtain ⟨rfl, tag, rfl, rfl⟩ := hsame hout'
    have hwire : OnWire mailbox n limit opts .fresh ([] ++ [tag]) (ops ++ []) (some tag.inner) := by
      rw [List.append_nil]
      exact ⟨hwritten, htaken, .inr ⟨tag, rfl, rfl⟩⟩
    exact ⟨hwire.sent, fun arg harg => Except.ok.inj harg ▸ hwire⟩
  | writes hout' htag hok =>
    obtain ⟨rfl, hwritten, htaken⟩ := h.tagged htag hok
    obtain ⟨rfl, hwritten', htaken'⟩ := hsame hout'
    refine hkeeps fun arg => ?_
    split <;> exact ⟨rfl, by simp [hwritten, hwritten'], by simp [htaken, htaken']⟩
  | awaits hout' =>
    obtain ⟨rfl, hwritten, htaken⟩ := h
    obtain ⟨rfl, hwritten', htaken'⟩ := hsame hout'
    exact hkeeps fun arg => ⟨rfl, by simp [hwritten, hwritten'], by simp [htaken, htaken']⟩
  | granted hsync hout' => exact OnWire.streams h (hsame hout')
  | streams hsync hout' => exact OnWire.streams h (hsame hout')
  | closes hout' =>
    obtain ⟨rfl, hwritten, -, hall⟩ := h
    obtain ⟨rfl, hwritten', htaken'⟩ := hsame hout'
    have hlength := hall (hfull _ _ rfl hout')
    exact hkeeps fun arg => ⟨rfl, by simp [htaken', hlength], by simp [hwritten, hwritten', htaken']⟩
  | listens hout' =>
    obtain ⟨rfl, hlength, hwritten⟩ := h
    obtain ⟨rfl, hwritten', htaken'⟩ := hsame hout'
    exact hkeeps fun arg => ⟨rfl, by simp [htaken', hlength], by simp [hwritten, hwritten', htaken']⟩
  | invalid hout' => simp [hout] at hout'
  | refused hout' => simp [hout] at hout'
  | short hout' => simp [hout] at hout'
  | fails hout' => simp [hout] at hout'
  | completes hout' => simp [hout] at hout'

/-- A success is one of the whole command. -/
def Completed (mailbox : Mailbox) (n limit : Nat) (opts : ImapMessageAppendOptions) (tags : List Tag)
    (ops : List AppendOp) (v : ImapMessageAppendOutput) : Prop :=
  ∃ out : ImapSendOutput Command, Succeeds out ∧ v = ImapMessageAppend.decode out ∧ tags = [out.tag] ∧
    (taken ops).length = limit ∧
    written ops = header mailbox n opts out.tag ++ taken ops ++ closing mailbox opts out.tag

theorem OnWire.completed [TryFrom Bytes Tag] {F : Type} {t : AppendTurn F} {v : ImapMessageAppendOutput}
    (h : OnWire mailbox n limit opts phase tags ops arg) (hmoves : Moves mailbox n opts phase t phase')
    (hout : t.out = .complete (.ok v)) : Completed mailbox n limit opts tags ops v := by
  cases hmoves with
  | @completes _ tag past ms hout' =>
    obtain ⟨hsent, hlength, hwritten⟩ := h
    have hok := CoroutineState.complete.inj (hout.symm.trans hout')
    cases houtcome : commandOutcome ImapMessageAppend.decode
        (ImapSend.outputOf ⟨ImapMessageAppendStream.command mailbox opts tag, tag⟩ past ms) with
    | error err => simp [houtcome, Except.mapError] at hok
    | ok v' =>
      rw [houtcome] at hok
      obtain rfl := Except.ok.inj hok
      obtain ⟨hsucceeds, hv⟩ := commandOutcome_ok.mp houtcome
      exact ⟨_, hsucceeds, hv, hsent, hlength, hwritten⟩
  | asks hout' => simp [hout] at hout'
  | invalid hout' => simp [hout] at hout'
  | writes hout' => simp [hout] at hout'
  | awaits hout' => simp [hout] at hout'
  | refused hout' => simp [hout] at hout'
  | granted hsync hout' => simp [hout] at hout'
  | streams hsync hout' => simp [hout] at hout'
  | short hout' => simp [hout] at hout'
  | closes hout' => simp [hout] at hout'
  | listens hout' => simp [hout] at hout'
  | fails hout' => simp [hout] at hout'

section Runs

variable [TryFrom Bytes Tag] {F : Type} [Fragmentizer F]

abbrev AppendLoop (F St G Src : Type) := Call ImapMessageAppendStream F (Appending St G Src)
  ImapMessageAppendStreamError ImapMessageAppendOutput

variable (mailbox n limit opts) in
/-- Where a call stands, and what it has done since it started on `w`. -/
structure Stands (w : Appending St G Src) (b : Config ImapMessageAppendStream F)
    (call : AppendLoop F St G Src) (phase : Phase) (tags : List Tag) (ops : List AppendOp) : Prop where
  stage : ∀ due, b.due = some due → Stage mailbox n opts b.state due phase
  issued : Run Issues w.tags tags call.world.tags
  performed : Run AppendOp.Performs w.place ops call.world.place
  goesOn : call.result = none → OnWire mailbox n limit opts phase tags ops call.arg
  sent : Sent mailbox n limit opts tags (taken ops) (written ops)
  completed : ∀ v, call.result = some (.ok v) → Completed mailbox n limit opts tags ops v

variable {w : Appending St G Src} {b : Config ImapMessageAppendStream F} {call : AppendLoop F St G Src}
  {due : Request} {t : AppendTurn F}

omit [Fragmentizer F] in
theorem Stands.completes (h : Stands mailbox n limit opts w b call phase tags ops)
    (hgoes : call.result = none) (hmoves : Moves mailbox n opts phase t phase')
    {result : Except ImapMessageAppendStreamError ImapMessageAppendOutput}
    (hout : t.out = .complete result) :
    Stands mailbox n limit opts w (imapMessageAppendStream.finish t)
      (Call.after (serve len) t call.world) phase' tags ops := by
  have hdue : (imapMessageAppendStream.finish t).due = none := by rw [Coroutine.finish, hout]
  cases result with
  | error err =>
    have hafter : Call.after (serve len) t call.world =
        ⟨t.after, t.fragAfter, none, call.world, some (.error (.coroutine err))⟩ := by
      rw [Call.after, hout]
    rw [hafter]
    exact ⟨by simp [hdue], h.issued, h.performed, by simp, h.sent, by simp⟩
  | ok v =>
    have hafter : Call.after (serve len) t call.world =
        ⟨t.after, t.fragAfter, none, call.world, some (.ok v)⟩ := by
      rw [Call.after, hout]
    rw [hafter]
    refine ⟨by simp [hdue], h.issued, h.performed, by simp, h.sent, fun v' hv => ?_⟩
    obtain rfl := Except.ok.inj (Option.some.inj hv)
    exact (h.goesOn hgoes).completed hmoves hout

omit [Fragmentizer F] in
theorem Stands.yields [LawfulSource Src] (h : Stands mailbox n len.toNat opts w b call phase tags ops)
    {y : ImapMessageAppendStreamYield} (hout : t.out = .yielded y)
    (hstage : ∀ due, (imapMessageAppendStream.finish t).due = some due →
      Stage mailbox n opts t.after due phase')
    (hserved : ∀ tags' ops', Does len.toNat y tags' ops' (serve len call.world y).1 →
      Sent mailbox n len.toNat opts (tags ++ tags') (taken (ops ++ ops')) (written (ops ++ ops')) ∧
        ∀ arg, (serve len call.world y).1 = .ok arg →
          OnWire mailbox n len.toNat opts phase' (tags ++ tags') (ops ++ ops') arg) :
    ∃ tags ops, Stands mailbox n len.toNat opts w (imapMessageAppendStream.finish t)
      (Call.after (serve len) t call.world) phase' tags ops := by
  obtain ⟨tags', ops', hissued, hperformed, hdoes⟩ := serve_does len call.world y
  obtain ⟨hsent, hwire⟩ := hserved tags' ops' hdoes
  have hissued := h.issued.append hissued
  have hperformed := h.performed.append hperformed
  rw [Call.after, hout]
  dsimp only
  rcases hserve : serve len call.world y with ⟨err | arg, world⟩
  · rw [hserve] at hissued hperformed
    exact ⟨_, _, hstage, hissued, hperformed, by simp, hsent, by simp⟩
  · rw [hserve] at hissued hperformed
    exact ⟨_, _, hstage, hissued, hperformed, fun _ => hwire arg (by rw [hserve]), hsent, by simp⟩

/-- A coroutine that is told of a short message does not go on. -/
theorem short_out {tag : Tag} (hstage : Stage mailbox n opts b.state due (.streams tag)) :
    (imapMessageAppendStream.turn b due (some []) ()).out = .complete (.error .shortMessage) := by
  obtain ⟨s, f, due⟩ := b
  cases hstage
  rfl

/-- What one resume, and the serving of what it yields, keep. -/
theorem Stands.pass [LawfulTag] [LawfulSource Src]
    (h : Stands mailbox n len.toNat opts w b call phase tags ops) (hgoes : call.result = none)
    (hdue : b.due = some due) (ht : t = imapMessageAppendStream.turn b due call.arg ())
    (hstep : imapMessageAppendStream.Step b t (imapMessageAppendStream.finish t)) :
    ∃ phase tags ops, Stands mailbox n len.toNat opts w (imapMessageAppendStream.finish t)
      (Call.after (serve len) t call.world) phase tags ops := by
  obtain ⟨phase', hmoves, hstage'⟩ :=
    ImapMessageAppendStream.stage_step (h.stage due hdue) hdue hstep
  have hwire : OnWire mailbox n len.toNat opts phase tags ops t.arg := ht ▸ h.goesOn hgoes
  have hstage : Stage mailbox n opts b.state t.due phase := ht ▸ h.stage due hdue
  cases hout : t.out with
  | complete result => exact ⟨phase', tags, ops, h.completes hgoes hmoves hout⟩
  | yielded y =>
    have hans : t.due.answeredBy t.arg = true := by
      obtain ⟨due', arg, env, -, hans, he, -⟩ := hstep
      rw [he]
      exact hans
    refine ⟨phase', h.yields hout hstage' fun tags' ops' hdoes =>
      hwire.served hstage hans hout hmoves ?_ hdoes⟩
    rintro tag bytes rfl hwrites hshort
    have harg : call.arg = some [] := by
      rw [ht] at hshort
      exact hshort
    rw [ht, harg, short_out (h.stage due hdue)] at hwrites
    simp at hwrites

variable (mailbox n len opts) in
theorem stands [LawfulTag] [LawfulSource Src] (w : Appending St G Src) (f : F) (passes : Nat) :
    ∃ b phase tags ops, Stands mailbox n len.toNat opts w b ((Call.start (.new mailbox n opts) f w :
      AppendLoop F St G Src).run imapMessageAppendStream (serve len) passes) phase tags ops := by
  obtain ⟨ts, b, -, -, ⟨phase, tags, ops, h⟩, -⟩ := Call.history (P := fun _ b call =>
    ∃ phase tags ops, Stands mailbox n len.toNat opts w b call phase tags ops)
    imapMessageAppendStream_unlogged serve_honours (s := .new mailbox n opts) (f := f) (w := w)
    ⟨.fresh, [], [], fun due hdue => Option.some.inj hdue ▸ .fresh false, .nil, .nil,
      fun _ => ⟨rfl, rfl, .inl ⟨rfl, rfl⟩⟩, .nothing (Nat.zero_le 1), by simp [Call.start]⟩
    (fun _ _ _ _ _ _ ⟨_, _, _, h⟩ _ hgoes hdue hstep ht => h.pass hgoes hdue ht hstep) passes
  exact ⟨b, phase, tags, ops, h⟩

end Runs

end Sent
end Appending

/-! ### The call -/

section Call

variable {F St G Src : Type} [Fragmentizer F] [ImapStream St] [TagGenerator G] [Source Src]
  [LawfulSource Src] [TryFrom Bytes Tag] [LawfulTag] [Encoder Command] [LawfulAppend] [Base64Codec]
  [TryFrom String Mailbox]

/-- At any point `append_stream` has sent nothing, the header with some of the message, or the
whole command, under one tag. When it succeeds, a message below 4 GiB has gone from the source
to the stream in the octets that the buffered APPEND of the same message is encoded to. -/
theorem ImapClientStd.append_stream_sends (client : ImapClientStd F St G) (mailbox : Mailbox)
    (source : Src) (len : UInt64) (opts : ImapMessageAppendOptions) (n : Nat) :
    ∃ tags ops, Run Issues client.tags tags (client.appendStream mailbox source len opts n).2.1.tags ∧
      Run AppendOp.Performs (client.stream, source) ops
        ((client.appendStream mailbox source len opts n).2.1.stream,
          (client.appendStream mailbox source len opts n).2.2) ∧
      Appending.Sent mailbox len.toUInt32.toNat len.toNat opts tags (AppendOp.taken ops)
        (AppendOp.written ops) ∧
      ∀ v, (client.appendStream mailbox source len opts n).1 = some (.ok v) → len.toNat < 2 ^ 32 →
        ∃ out : ImapSendOutput Command, Succeeds out ∧ v = ImapMessageAppend.decode out ∧
          tags = [out.tag] ∧ (AppendOp.taken ops).length = len.toNat ∧
          AppendOp.written ops = (Encoder.encode (⟨out.tag,
            ImapMessageAppend.body mailbox (AppendOp.taken ops) opts⟩ : Command)).flatMap
              Fragment.data := by
  obtain ⟨b, phase, tags, ops, h⟩ := Appending.stands len mailbox len.toUInt32.toNat opts
    (⟨client.toConnection, source⟩ : Appending St G Src) client.fragmentizer n
  refine ⟨tags, ops, h.issued, h.performed, h.sent, fun v hv hlen => ?_⟩
  obtain ⟨out, hsucceeds, hdecode, htags, hlength, hwritten⟩ := h.completed v hv
  refine ⟨out, hsucceeds, hdecode, htags, hlength, ?_⟩
  have hcast : len.toUInt32.toNat = len.toNat := by
    rw [UInt64.toNat_toUInt32]
    exact Nat.mod_eq_of_lt hlen
  rw [ImapMessageAppend.encode_body, hwritten, hcast, hlength]

end Call

section Concrete

open Concrete

instance : Source Bytes := ⟨fun source size => (.ok (source.take size), source.drop size)⟩

instance : LawfulSource Bytes where
  read_le source size bytes source' h := by
    obtain rfl := Except.ok.inj (Prod.mk.inj h).1
    exact List.length_take_le _ _

def appendClient :
    ImapClientStd (LineFragmentizer (decodeTable appendReplies)) ScriptedStream CountedTags where
  stream := ⟨[ascii "+ go\r\n", ascii "A1 OK done\r\n"], []⟩
  tags := ⟨1⟩
  fragmentizer := .empty

/-- A source that has more than the message. -/
theorem append_stream_sends_inbox : ∃ ops,
    Run AppendOp.Performs (appendClient.stream, ascii "abcdef") ops
      ((appendClient.appendStream .inbox (ascii "abcdef") 3 {} 9).2.1.stream, ascii "def") ∧
    AppendOp.written ops = (Encoder.encode (⟨⟨ascii "A1"⟩,
      ImapMessageAppend.body .inbox (AppendOp.taken ops) {}⟩ : Command)).flatMap Fragment.data := by
  have hok : (appendClient.appendStream .inbox (ascii "abcdef") 3 {} 9).1 = some (.ok (none, none)) := by
    decide +kernel
  have hsource : (appendClient.appendStream .inbox (ascii "abcdef") 3 {} 9).2.2 = ascii "def" := by
    decide +kernel
  obtain ⟨tags, ops, hissued, hperformed, -, hsends⟩ :=
    appendClient.append_stream_sends .inbox (ascii "abcdef") 3 {} 9
  obtain ⟨out, -, -, rfl, -, hwritten⟩ := hsends _ hok (by decide)
  rw [hsource] at hperformed
  have htag : [out.tag] = [⟨ascii "A1"⟩] := (CountedTags.issues_counted hissued).2
  rw [List.singleton_inj.mp htag] at hwritten
  exact ⟨ops, hperformed, hwritten⟩

end Concrete
end IoImap
