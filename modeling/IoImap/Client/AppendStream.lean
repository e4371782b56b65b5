import IoImap.Codec.Announcement
import IoImap.Rfc3501.AppendStream
import IoImap.Transition.Run

/-!
# Streaming APPEND of the blocking client (client.rs)

`ImapClientStd::append_stream` drives the coroutine between a source and the
socket. The length of the message is a `usize` there, a `u32` in the coroutine
and a `u64` in the copy loop.
-/

namespace IoImap

/-- What the call puts on the socket: octets the coroutine yields, octets of the source. -/
inductive StreamWrite where
  | bytes (bytes : Bytes)
  | copied (octets : Bytes)
  deriving DecidableEq

def StreamWrite.copied? : StreamWrite → Option Nat
  | .bytes _ => none
  | .copied octets => some octets.length

/-- A call between two resumes: `arg` is what the next one gets, `source` what the
source still has, `result` what the call has returned. An I/O error ends a call
where it stands. -/
structure AppendCall (F : Type) where
  coroutine : ImapMessageAppendStream
  fragmentizer : F
  arg : Option Bytes
  source : Bytes
  written : List StreamWrite
  result : Option (Except ImapMessageAppendStreamError ImapMessageAppendOutput)

namespace AppendCall

variable {F : Type}

def start [Base64Codec] [TryFrom String Mailbox] (mailbox : Mailbox) (len : UInt64)
    (opts : ImapMessageAppendOptions) (f : F) (source : Bytes) : AppendCall F :=
  ⟨.new mailbox len.toUInt32.toNat opts, f, none, source, [], none⟩

section Loop

variable [Fragmentizer F] [TryFrom Bytes Tag] [Encoder Command]

/-- What the loop does with the result of one resume; `input` is the generated tag
or the octets read, whichever is asked for. -/
def proceed (len : UInt64) (c : AppendCall F) (input : Bytes) :
    ImapMessageAppendStreamResult × ImapMessageAppendStream × F → AppendCall F
  | (.complete result, co, f) =>
    { c with coroutine := co, fragmentizer := f, arg := none, result := some result }
  | (.yielded .wantsTag, co, f) => { c with coroutine := co, fragmentizer := f, arg := some input }
  | (.yielded .wantsRead, co, f) => { c with coroutine := co, fragmentizer := f, arg := some input }
  | (.yielded (.wantsWrite bytes), co, f) =>
    { c with coroutine := co, fragmentizer := f, arg := none, written := c.written ++ [.bytes bytes] }
  | (.yielded .wantsStream, co, f) =>
    let copied := c.source.take len.toNat
    { c with
      coroutine := co
      fragmentizer := f
      arg := if copied.length ≠ len.toNat then some [] else none
      source := c.source.drop len.toNat
      written := c.written ++ [.copied copied] }

def turn (len : UInt64) (c : AppendCall F) (input : Bytes) : AppendCall F :=
  c.proceed len input (c.coroutine.resume c.fragmentizer c.arg)

def Step (len : UInt64) (c : AppendCall F) (input : Bytes) (d : AppendCall F) : Prop :=
  c.result = none ∧ d = c.turn len input

end Loop

/-- The octet count that the server reads at the end of the first line it is sent. -/
def announcedLength (written : List StreamWrite) : Option Nat :=
  match written with
  | .bytes header :: _ => (announcementOf header).map (·.length)
  | _ => none

def copies (written : List StreamWrite) : List Nat := written.filterMap StreamWrite.copied?

/-- Nothing is written, or the header announces `len` octets and a success has
copied as many from the source. -/
def AnnouncesLen (len : UInt64) (c : AppendCall F) : Prop :=
  c.written = [] ∨
    (announcedLength c.written = some len.toNat ∧ (∀ n ∈ copies c.written, n ≤ len.toNat) ∧
      ∀ out, c.result = some (.ok out) → copies c.written = [len.toNat])

/-! ### The header and the copy -/

/-- The header is written and announces `n` octets; `ns` octets were copied so far. -/
def Sent (n : Nat) (ns : List Nat) (written : List StreamWrite) : Prop :=
  announcedLength written = some n ∧ copies written = ns

section Sent

variable {n : Nat} {ns : List Nat} {written : List StreamWrite}

theorem sent_header (header : Bytes) (nonSync : Bool) :
    Sent n [] [.bytes (ImapMessageAppendStream.announced header n nonSync)] := by
  refine ⟨?_, rfl⟩
  rw [announcedLength, ImapMessageAppendStream.announced, announcementOf_announcement]
  rfl

theorem Sent.bytes (h : Sent n ns written) (bytes : Bytes) : Sent n ns (written ++ [.bytes bytes]) := by
  obtain ⟨hn, hns⟩ := h
  cases written with
  | nil => simp [announcedLength] at hn
  | cons w ws =>
    refine ⟨by cases w <;> exact hn, ?_⟩
    rw [← hns, copies, copies, List.filterMap_append]
    simp [StreamWrite.copied?]

theorem Sent.copied (h : Sent n ns written) (octets : Bytes) :
    Sent n (ns ++ [octets.length]) (written ++ [.copied octets]) := by
  obtain ⟨hn, hns⟩ := h
  cases written with
  | nil => simp [announcedLength] at hn
  | cons w ws =>
    refine ⟨by cases w <;> exact hn, ?_⟩
    rw [← hns, copies, copies, List.filterMap_append]
    simp [StreamWrite.copied?]

end Sent

/-- Where a call stands that has not returned. -/
def Stands (len : UInt64) (c : AppendCall F) : Prop :=
  match c.coroutine.state with
  | .writeHeader _ => c.written = [] ∧ c.coroutine.streamPending = false
  | .continuation _ _ _ => Sent c.coroutine.len [] c.written ∧ c.coroutine.streamPending = false
  | .stream _ _ =>
    if c.coroutine.streamPending then
      ∃ n ≤ len.toNat, Sent c.coroutine.len [n] c.written ∧ (c.arg ≠ some [] → n = len.toNat)
    else Sent c.coroutine.len [] c.written
  | .recv _ => Sent c.coroutine.len [len.toNat] c.written

/-- What a call has left behind, returned or not. -/
def Leaves (len : UInt64) (c : AppendCall F) : Prop :=
  c.written = [] ∨ ∃ ns, Sent c.coroutine.len ns c.written ∧ (∀ n ∈ ns, n ≤ len.toNat) ∧
    ∀ out, c.result = some (.ok out) → ns = [len.toNat]

theorem Stands.leaves {len : UInt64} {c : AppendCall F} (h : Stands len c) (hr : c.result = none) :
    Leaves len c := by
  have hnone : ∀ {ns : List Nat} out, c.result = some (.ok out) → ns = [len.toNat] := by simp [hr]
  unfold Stands at h
  split at h
  · exact .inl h.1
  · exact .inr ⟨[], h.1, by simp, hnone⟩
  · split at h
    · obtain ⟨n, hn, hsent, -⟩ := h
      exact .inr ⟨[n], hsent, by simpa using hn, hnone⟩
    · exact .inr ⟨[], h, by simp, hnone⟩
  · exact .inr ⟨[len.toNat], h, by simp, hnone⟩

theorem Leaves.announces_iff {len : UInt64} {c : AppendCall F} (h : Leaves len c)
    (hlen : c.coroutine.len = len.toUInt32.toNat) :
    AnnouncesLen len c ↔ c.written = [] ∨ len.toNat < 2 ^ 32 := by
  have hcast : len.toUInt32.toNat = len.toNat ↔ len.toNat < 2 ^ 32 := by
    rw [UInt64.toNat_toUInt32]
    omega
  rcases h with hw | ⟨ns, ⟨hn, hns⟩, hle, hok⟩
  · simp [AnnouncesLen, hw]
  · have hne : c.written ≠ [] := by
      intro hw
      simp [hw, announcedLength] at hn
    rw [AnnouncesLen, hn, hns, Option.some.injEq, hlen, hcast]
    exact or_congr_right ⟨fun hx => hx.1, fun hx => ⟨hx, hle, hok⟩⟩

/-! ### One pass of the loop -/

/-- What holds after a pass: the call may have returned, else it stands as described. -/
def Goes (len : UInt64) (n : Nat) (c : AppendCall F) : Prop :=
  c.coroutine.len = n ∧ Leaves len c ∧ (c.result = none → Stands len c)

section Goes

variable {len : UInt64} {c : AppendCall F} {input : Bytes}

theorem Stands.goes (h : Stands len c) (hr : c.result = none) : Goes len c.coroutine.len c :=
  ⟨rfl, h.leaves hr, fun _ => h⟩

theorem Leaves.fails (h : Leaves len c) (err : ImapMessageAppendStreamError)
    {co : ImapMessageAppendStream} (hco : co.len = c.coroutine.len) (f : F) :
    Goes len c.coroutine.len (c.proceed len input (.complete (.error err), co, f)) := by
  refine ⟨hco, ?_, by simp [proceed]⟩
  rcases h with hw | ⟨ns, hsent, hle, -⟩
  · exact .inl hw
  · refine .inr ⟨ns, ?_, hle, by simp [proceed]⟩
    simpa [proceed, hco] using hsent

theorem turn_stream {command : Command} {crlf : Bytes} (hsent : Sent c.coroutine.len [] c.written)
    (hp : c.coroutine.streamPending = false) (hr : c.result = none) (f : F) (arg : Option Bytes) :
    Goes len c.coroutine.len
      (c.proceed len input (c.coroutine.resumeStream command crlf f arg)) := by
  have hcopied := hsent.copied (c.source.take len.toNat)
  unfold ImapMessageAppendStream.resumeStream
  rw [if_neg (by simp [hp])]
  refine Stands.goes ?_ hr
  simp only [Stands, proceed, if_true]
  refine ⟨(c.source.take len.toNat).length, List.length_take_le .., hcopied, ?_⟩
  intro harg
  by_contra hne
  exact harg (if_pos hne)

theorem turn_streamed {n : Nat} {command : Command} {crlf : Bytes}
    (hle : n ≤ len.toNat) (hsent : Sent c.coroutine.len [n] c.written)
    (harg : c.arg ≠ some [] → n = len.toNat) (hp : c.coroutine.streamPending = true)
    (hr : c.result = none) :
    Goes len c.coroutine.len
      (c.proceed len input (c.coroutine.resumeStream command crlf c.fragmentizer c.arg)) := by
  have hleaves : Leaves len c := .inr ⟨[n], hsent, by simpa using hle, by simp [hr]⟩
  unfold ImapMessageAppendStream.resumeStream
  rw [if_pos hp]
  dsimp only
  by_cases hshort : c.arg = some []
  · rw [if_pos hshort]
    exact hleaves.fails .shortMessage (by rfl) _
  · rw [if_neg hshort]
    rw [harg hshort] at hsent
    exact Stands.goes (hsent.bytes crlf) hr

end Goes

section Pass

variable [TryFrom Bytes Tag] [Encoder Command]

theorem resumeHeader_cases (s : ImapMessageAppendStream) (body : CommandBody) (f : F)
    (arg : Option Bytes) :
    (∃ err, s.resumeHeader body f arg = (.complete (.error err), s, f)) ∨
      s.resumeHeader body f arg = (.yielded .wantsTag, { s with tagRequested := true }, f) ∨
      ∃ header command crlf state,
        s.resumeHeader body f arg =
          (.yielded (.wantsWrite (ImapMessageAppendStream.announced header s.len s.nonSync)),
            { s with state := state }, f) ∧
        (state = .stream command crlf ∨ ∃ recv, state = .continuation recv command crlf) := by
  unfold ImapMessageAppendStream.resumeHeader
  cases arg with
  | none =>
    dsimp only
    split
    · exact .inl ⟨_, rfl⟩
    · exact .inr (.inl rfl)
  | some bytes =>
    dsimp only
    cases TryFrom.tryFrom (β := Tag) bytes with
    | error err => simp
    | ok tag =>
      dsimp only
      cases ImapMessageAppendStream.splitMessage (Encoder.encode (⟨tag, body⟩ : Command)) with
      | none => simp
      | some parts =>
        dsimp only
        split
        · refine .inr (.inr ⟨parts.1, ⟨tag, body⟩, parts.2, _, rfl, ?_⟩)
          split
          · exact .inl rfl
          · exact .inr ⟨_, rfl⟩
        · exact .inl ⟨_, rfl⟩

theorem turn_header {len : UInt64} {c : AppendCall F} {input : Bytes} {body : CommandBody}
    (hw : c.written = [])
    (hp : c.coroutine.streamPending = false) (hs : c.coroutine.state = .writeHeader body)
    (hr : c.result = none) :
    Goes len c.coroutine.len
      (c.proceed len input (c.coroutine.resumeHeader body c.fragmentizer c.arg)) := by
  have hleaves : Leaves len c := .inl hw
  rcases resumeHeader_cases c.coroutine body c.fragmentizer c.arg with
    ⟨err, he⟩ | he | ⟨header, command, crlf, state, he, hstate⟩
  · rw [he]
    exact hleaves.fails err rfl _
  · rw [he]
    exact Stands.goes (by simp [Stands, proceed, hs, hw, hp]) hr
  · have hsent := sent_header (n := c.coroutine.len) header c.coroutine.nonSync
    rw [he]
    refine Stands.goes ?_ hr
    rcases hstate with rfl | ⟨recv, rfl⟩
    · simpa [Stands, proceed, hw, hp] using hsent
    · simpa [Stands, proceed, hw, hp] using hsent

variable [Fragmentizer F]

theorem Stands.turn {len : UInt64} {c : AppendCall F} (h : Stands len c) (hr : c.result = none)
    (input : Bytes) : Goes len c.coroutine.len (c.turn len input) := by
  have hleaves := h.leaves hr
  unfold Stands at h
  unfold AppendCall.turn ImapMessageAppendStream.resume
  cases hs : c.coroutine.state with
  | writeHeader body =>
    simp only [hs] at h
    exact turn_header h.1 h.2 hs hr
  | continuation recv command crlf =>
    simp only [hs] at h ⊢
    obtain ⟨hsent, hp⟩ := h
    unfold ImapMessageAppendStream.resumeContinuation
    rcases recv.resume c.fragmentizer c.arg with ⟨y | (err | out), recv', f'⟩
    · cases y with
      | wantsTag => exact Stands.goes ⟨hsent, hp⟩ hr
      | wantsRead => exact Stands.goes ⟨hsent, hp⟩ hr
      | wantsWrite bytes => exact Stands.goes ⟨hsent.bytes bytes, hp⟩ hr
    · exact hleaves.fails _ rfl _
    · dsimp only
      cases out.bye with
      | some bye => exact hleaves.fails _ rfl _
      | none =>
        cases out.tagged with
        | some tagged => 
          dsimp only
          cases tagged.body.kind <;> exact hleaves.fails _ rfl _
        | none => exact turn_stream hsent hp hr f' none
  | stream command crlf =>
    simp only [hs] at h
    split at h
    · rename_i hp
      obtain ⟨n, hle, hsent, harg⟩ := h
      exact turn_streamed hle hsent harg hp hr
    · rename_i hp
      exact turn_stream h (Bool.eq_false_iff.mpr hp) hr _ _
  | recv recv =>
    simp only [hs] at h ⊢
    unfold ImapMessageAppendStream.resumeRecv
    rcases commandResume ImapMessageAppend.decode recv c.fragmentizer c.arg with
      ⟨y | (err | out), recv', f'⟩
    · cases y with
      | wantsTag => exact Stands.goes h hr
      | wantsRead => exact Stands.goes h hr
      | wantsWrite bytes => exact Stands.goes (h.bytes bytes) hr
    · exact hleaves.fails _ (by rfl) _
    · exact ⟨rfl, .inr ⟨[len.toNat], h, by simp, fun _ _ => rfl⟩, by simp [proceed]⟩

section Run

variable [Base64Codec] [TryFrom String Mailbox] {mailbox : Mailbox} {len : UInt64}
  {opts : ImapMessageAppendOptions} {f : F} {source : Bytes} {inputs : List Bytes}
  {c : AppendCall F}

theorem goes_of_run (h : Transition.Run (Step len) (start mailbox len opts f source) inputs c) :
    Goes len len.toUInt32.toNat c := by
  refine h.invariant (I := Goes len len.toUInt32.toNat) ?_ ?_
  · exact Stands.goes ⟨rfl, rfl⟩ rfl
  · intro c input d hc hstep
    obtain ⟨hlen, -, hstands⟩ := hc
    obtain ⟨hr, hd⟩ := hstep
    rw [hd, ← hlen]
    exact (hstands hr).turn hr input

end Run

/-- Once something of a streamed APPEND is written, its header announces the length
of the message and a success has copied that much exactly when the length fits into
32 bits. -/
theorem append_stream_announces_len_iff [Base64Codec] [TryFrom String Mailbox] (mailbox : Mailbox)
    (len : UInt64) (opts : ImapMessageAppendOptions) (f : F) (source : Bytes)
    (inputs : List Bytes) (c : AppendCall F)
    (h : Transition.Run (Step len) (start mailbox len opts f source) inputs c) :
    AnnouncesLen len c ↔ c.written = [] ∨ len.toNat < 2 ^ 32 :=
  (goes_of_run h).2.1.announces_iff (goes_of_run h).1

section Play

/-- The call after the given inputs, `none` when it has returned before the last. -/
def play (len : UInt64) (c : AppendCall F) : List Bytes → Option (AppendCall F)
  | [] => some c
  | input :: rest => if c.result.isSome then none else (c.turn len input).play len rest

theorem play_run {len : UInt64} {inputs : List Bytes} {c d : AppendCall F}
    (h : c.play len inputs = some d) : Transition.Run (Step len) c inputs d := by
  induction inputs generalizing c with
  | nil =>
    obtain rfl := Option.some.inj h
    exact .nil
  | cons input rest ih =>
    rw [play] at h
    split at h
    · simp at h
    · rename_i hr
      have hstep : Step len c input (c.turn len input) :=
        ⟨Option.not_isSome_iff_eq_none.mp hr, rfl⟩
      exact (Transition.Run.single hstep).append (ih h)

end Play
end Pass

section Concrete

open Concrete

def appendMessages : List (Bytes × Response) :=
  [(ascii "+ go\r\n", .commandContinuationRequest (.basic "go")),
    (ascii "A1 OK done\r\n", .status (.tagged ⟨⟨ascii "A1"⟩, ⟨.ok, none, "done"⟩⟩))]

def appendFrag : LineFragmentizer (decodeTable appendMessages) := ⟨[], none, [], true⟩

def appendInputs : List Bytes :=
  [ascii "A1", [], ascii "+ go\r\n", [], [], ascii "A1 OK done\r\n", []]

theorem append_stream_announces_five :
    ∃ c, Transition.Run (Step 5) (start .inbox 5 {} appendFrag (ascii "hello")) appendInputs c ∧
      c.result = some (.ok (none, none)) ∧ AnnouncesLen 5 c := by
  have hplay : ((start .inbox 5 {} appendFrag (ascii "hello")).play 5 appendInputs).any
      (fun c => decide (c.result = some (.ok (none, none)))) = true := by
    decide +kernel
  obtain ⟨c, hc, hok⟩ := (Option.any_eq_true _ _).mp hplay
  have hrun := play_run hc
  exact ⟨c, hrun, of_decide_eq_true hok,
    (append_stream_announces_len_iff _ _ _ _ _ _ _ hrun).mpr (.inr (by decide))⟩

/-- A message of 2^32 + 5 octets is announced as one of five. -/
theorem append_stream_announces_less :
    ¬ ∀ source inputs (c : AppendCall (LineFragmentizer (decodeTable appendMessages))),
      Transition.Run (Step 4294967301) (start .inbox 4294967301 {} appendFrag source) inputs c →
      AnnouncesLen 4294967301 c := by
  intro h
  have hplay : ((start .inbox 4294967301 {} appendFrag []).play 4294967301 [ascii "A1", []]).any
      (fun c => decide (c.written = [.bytes (ascii "A1 APPEND INBOX \x7b5\x7d\r\n")])) = true := by
    decide +kernel
  obtain ⟨c, hc, hw⟩ := (Option.any_eq_true _ _).mp hplay
  have hrun := play_run hc
  rcases (goes_of_run hrun).2.1.announces_iff (goes_of_run hrun).1 |>.mp (h _ _ c hrun) with hx | hx
  · rw [of_decide_eq_true hw] at hx
    simp at hx
  · exact absurd hx (by decide)

end Concrete

end AppendCall
end IoImap
