import IoImap.Codec.LineFragmentizer
import IoImap.Coroutine

/-!
# STARTTLS (rfc3501/starttls.rs)

The coroutine reads the plaintext line by line into a buffer of its own and never
touches the fragmentizer: it skips the greeting, writes STARTTLS and skips the
lines behind it up to the first that starts with the tag and a space, whatever
that line says. What is left in the buffer is its result.
-/

namespace IoImap

def STARTTLS_MAX_LINE_LEN : Nat := 64 * 1024

inductive ImapStartTlsError where
  | eof
  | missingTag
  | invalidTag (err : ValidationError)
  | lineTooLong (max : Nat)
  /-- Not an error of the source: `unreachable!` when STARTTLS is not one line. -/
  | panicked
  deriving DecidableEq

/-- `State`. The tag is kept exactly from the state it is written in. -/
inductive ImapStartTls.State where
  | discardGreeting
  | tag
  | writeStartTls (tagBytes : Bytes)
  | discardStartTls (tagBytes : Bytes)

structure ImapStartTls where
  state : ImapStartTls.State
  buf : Bytes
  scanned : Nat

abbrev ImapStartTlsResult := CoroutineState ImapYield (Except ImapStartTlsError Bytes)

namespace ImapStartTls

def new : ImapStartTls := ⟨.discardGreeting, [], 0⟩

/-- The next complete line, taken off the buffer. -/
def nextLine (s : ImapStartTls) : Except ImapStartTlsError (Option Bytes) × ImapStartTls :=
  match (s.buf.drop s.scanned).findIdx? (· == LF) with
  | none =>
    let s := { s with scanned := s.buf.length }
    if s.scanned > STARTTLS_MAX_LINE_LEN then (.error (.lineTooLong STARTTLS_MAX_LINE_LEN), s)
    else (.ok none, s)
  | some pos =>
    let nl := s.scanned + pos
    let s := { s with scanned := 0 }
    if nl ≥ STARTTLS_MAX_LINE_LEN then (.error (.lineTooLong STARTTLS_MAX_LINE_LEN), s)
    else (.ok (some (s.buf.take (nl + 1))), { s with buf := s.buf.drop (nl + 1) })

theorem nextLine_shorter {s s' : ImapStartTls} {line : Bytes} (h : s.nextLine = (.ok (some line), s')) :
    s'.buf.length < s.buf.length := by
  unfold nextLine at h
  split at h
  · simp only at h
    split at h <;> simp at h
  · rename_i pos hpos
    simp only at h
    split at h
    · simp at h
    · obtain ⟨-, rfl⟩ := Prod.mk.inj h
      exact length_drop_found hpos

/-- The line starts with the tag and a space. -/
def isTagged (tagBytes line : Bytes) : Bool := (tagBytes ++ ascii " ").isPrefixOf line

def discardGreeting (s : ImapStartTls) : Option Bytes → ImapStartTlsResult × ImapStartTls
  | some [] => (.complete (.error .eof), s)
  | some data =>
    match { s with buf := s.buf ++ data }.nextLine with
    | (.error err, s) => (.complete (.error err), s)
    | (.ok none, s) => (.yielded .wantsRead, s)
    | (.ok (some _), s) => (.yielded .wantsTag, { s with state := .tag })
  | none => (.yielded .wantsRead, s)

def sendStartTls [TryFrom Bytes Tag] [Encoder Command] (s : ImapStartTls) (arg : Option Bytes) :
    ImapStartTlsResult × ImapStartTls :=
  match arg with
  | none => (.complete (.error .missingTag), s)
  | some bytes =>
    match TryFrom.tryFrom (β := Tag) bytes with
    | .error err => (.complete (.error (.invalidTag err)), s)
    | .ok tag =>
      match Encoder.encode (⟨tag, .startTls⟩ : Command) with
      | .line data :: _ => (.yielded (.wantsWrite data), { s with state := .writeStartTls tag.inner })
      | _ => (.complete (.error .panicked), s)

/-- The loop over the lines behind the greeting, up to the tagged one. -/
def discardLines (s : ImapStartTls) (tagBytes : Bytes) : ImapStartTlsResult × ImapStartTls :=
  match _h : s.nextLine with
  | (.error err, s') => (.complete (.error err), s')
  | (.ok none, s') => (.yielded .wantsRead, s')
  | (.ok (some line), s') =>
    if isTagged tagBytes line then (.complete (.ok s'.buf), { s' with buf := [] })
    else discardLines s' tagBytes
termination_by s.buf.length
decreasing_by exact nextLine_shorter _h

def discardStartTls (s : ImapStartTls) (tagBytes : Bytes) :
    Option Bytes → ImapStartTlsResult × ImapStartTls
  | some [] => (.complete (.error .eof), s)
  | some data => { s with buf := s.buf ++ data, state := .discardStartTls tagBytes }.discardLines tagBytes
  | none => (.yielded .wantsRead, { s with state := .discardStartTls tagBytes })

def resume [TryFrom Bytes Tag] [Encoder Command] (s : ImapStartTls) (arg : Option Bytes) :
    ImapStartTlsResult × ImapStartTls :=
  match s.state with
  | .discardGreeting => s.discardGreeting arg
  | .tag => s.sendStartTls arg
  | .writeStartTls tagBytes => s.discardStartTls tagBytes arg
  | .discardStartTls tagBytes => s.discardStartTls tagBytes arg

/-! ### Lines -/

/-- No LF among the octets scanned. -/
structure Scanned (s : ImapStartTls) : Prop where
  le : s.scanned ≤ s.buf.length
  noLine : LF ∉ s.buf.take s.scanned

theorem scanned_zero {s : ImapStartTls} (h : s.scanned = 0) : s.Scanned := ⟨by omega, by simp [h]⟩

theorem scanned_all {s : ImapStartTls} (h : LF ∉ s.buf) :
    Scanned { s with scanned := s.buf.length } := by
  refine ⟨Nat.le_refl _, ?_⟩
  rw [List.take_length]
  exact h

theorem Scanned.extend {s : ImapStartTls} (h : s.Scanned) (data : Bytes) (state : State) :
    Scanned { s with buf := s.buf ++ data, state := state } := by
  refine ⟨?_, ?_⟩
  · have hle := h.le
    simp only [List.length_append]
    omega
  · simp only [List.take_append_of_le_length h.le]
    exact h.noLine

/-- What looking for a line comes to. -/
inductive Lines (s : ImapStartTls) : Except ImapStartTlsError (Option Bytes) → ImapStartTls → Prop where
  | line {line rest : Bytes} (hl : splitLine s.buf = some (line, rest))
      (hlen : line.length ≤ STARTTLS_MAX_LINE_LEN) :
      Lines s (.ok (some line)) { s with buf := rest, scanned := 0 }
  | none (hl : splitLine s.buf = none) (hscanned : LF ∉ s.buf) :
      Lines s (.ok none) { s with scanned := s.buf.length }
  | tooLong {s' : ImapStartTls}
      (hl : ∀ line rest, splitLine s.buf = some (line, rest) → line.length > STARTTLS_MAX_LINE_LEN) :
      Lines s (.error (.lineTooLong STARTTLS_MAX_LINE_LEN)) s'

theorem nextLine_spec {s : ImapStartTls} (h : s.Scanned) : Lines s s.nextLine.1 s.nextLine.2 := by
  unfold nextLine
  rcases search_cases h.le h.noLine with
    ⟨hpos, hno⟩ | ⟨pos, line, rest, hpos, hbuf, hline, hlen, htake, hdrop⟩
  · have hl : splitLine s.buf = none := splitLine_of_notMem hno
    simp only [hpos]
    split
    · exact .tooLong (by simp [hl])
    · exact .none hl hno
  · have hl : splitLine s.buf = some (line ++ [LF], rest) := by
      rw [hbuf]
      exact splitLine_line hline rest
    have hlength : (line ++ [LF]).length = s.scanned + pos + 1 := by
      rw [List.length_append, hlen]
      rfl
    simp only [hpos]
    split
    · refine .tooLong fun line' rest' he => ?_
      rw [hl] at he
      obtain ⟨rfl, -⟩ := Prod.mk.inj (Option.some.inj he)
      omega
    · rw [htake, hdrop]
      exact .line hl (by omega)

end ImapStartTls
end IoImap
