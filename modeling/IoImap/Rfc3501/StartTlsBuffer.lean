import IoImap.Rfc3501.ReadBound

/-!
# What STARTTLS buffers (rfc3501/starttls.rs)

The coroutine takes one line off the buffer for the greeting, whatever was read with it.
The rest stays there unsearched while the command is written, and the first read behind
the greeting comes on top of it; from then on every read comes on top of the beginning
of a line.
-/

namespace IoImap
open Incremental Transition

def imapStartTls [TryFrom Bytes Tag] [Encoder Command] :
    Coroutine ImapStartTls Unit ImapYield (Except ImapStartTlsError Bytes) where
  resume s f arg _ := ((s.resume arg).1, (s.resume arg).2, f)
  request := ImapYield.request

namespace ImapStartTls

/-! ### One resume -/

/-- What a resume leaves of `held` octets. -/
structure Leaves (held : Nat) (s : ImapStartTls) : Prop where
  scanned : s.Scanned
  length_le : s.buf.length ≤ held

/-- `rest` came with the end of the greeting's line. -/
def LeftBehind (reads : List Bytes) (rest : Bytes) : Prop :=
  ∃ earlier start, reads = earlier ++ [start ++ LF :: rest] ∧ LF ∉ earlier.flatten ++ start

/-- What the coroutine that waits with this request has buffered of what was read. -/
def Waits (reads : List Bytes) (s : ImapStartTls) (due : Request) : Prop :=
  match s.state with
  | .discardGreeting => (due = .nothing ∨ due = .read) ∧ s.Scanned ∧ s.buf = reads.flatten ∧
    LF ∉ s.buf ∧ s.buf.length ≤ STARTTLS_MAX_LINE_LEN
  | .tag => due = .tag ∧ s.Scanned ∧ LeftBehind reads s.buf
  | .writeStartTls _ => due = .nothing ∧ s.Scanned ∧ LeftBehind reads s.buf
  | .discardStartTls _ => due = .read ∧ s.Scanned ∧
    (LeftBehind reads s.buf ∨ s.buf.length ≤ STARTTLS_MAX_LINE_LEN)

section Waits

variable {reads : List Bytes} {s : ImapStartTls} {due : Request}

theorem Waits.scanned (h : s.Waits reads due) : s.Scanned := by
  unfold Waits at h
  split at h
  · exact h.2.1
  · exact h.2.1
  · exact h.2.1
  · exact h.2.1

theorem new_waits : new.Waits [] .nothing :=
  ⟨.inl rfl, scanned_zero rfl, rfl, List.not_mem_nil, Nat.zero_le _⟩

/-- The line that ends with the first LF of the buffer and the read, when the buffer has none. -/
theorem leftBehind_line {data line rest : Bytes} (hno : LF ∉ reads.flatten) (hline : LF ∉ line)
    (h : reads.flatten ++ data = line ++ LF :: rest) : LeftBehind (reads ++ [data]) rest := by
  rcases List.append_eq_append_iff.mp h with ⟨start, rfl, rfl⟩ | ⟨more, hreads, hmore⟩
  · exact ⟨reads, start, rfl, hline⟩
  · cases more with
    | nil =>
      rw [List.append_nil] at hreads
      rw [List.nil_append] at hmore
      refine ⟨reads, [], by rw [← hmore, List.nil_append], ?_⟩
      rw [List.append_nil]
      exact hno
    | cons b more =>
      obtain rfl := (List.cons.inj hmore).1
      refine absurd ?_ hno
      rw [hreads]
      simp

end Waits

/-- What a resume that was to leave of `held` octets has come to, now that `reads` were read. -/
structure Keeps (reads : List Bytes) (held : Nat) (r : ImapStartTlsResult × ImapStartTls) : Prop where
  leaves : r.2.Leaves held
  waits : ∀ y, r.1 = .yielded y → r.2.Waits reads y.request

theorem Keeps.mono {reads : List Bytes} {held held' : Nat} {r : ImapStartTlsResult × ImapStartTls}
    (h : Keeps reads held r) (hle : held ≤ held') : Keeps reads held' r :=
  ⟨⟨h.leaves.scanned, Nat.le_trans h.leaves.length_le hle⟩, h.waits⟩

theorem keeps_complete {reads : List Bytes} {held : Nat} {result : Except ImapStartTlsError Bytes}
    {s : ImapStartTls} (h : s.Leaves held) : Keeps reads held (.complete result, s) := by
  refine ⟨h, fun y ho => ?_⟩
  cases ho

theorem keeps_yielded {reads : List Bytes} {held : Nat} {y : ImapYield} {s : ImapStartTls}
    (h : s.Waits reads y.request) (hle : s.buf.length ≤ held) : Keeps reads held (.yielded y, s) := by
  refine ⟨⟨h.scanned, hle⟩, fun y' ho => ?_⟩
  obtain rfl := CoroutineState.yielded.inj ho
  exact h

theorem nextLine_state (s : ImapStartTls) : s.nextLine.2.state = s.state := by
  unfold nextLine
  split
  · simp only
    split <;> rfl
  · simp only
    split <;> rfl

/-- The search for the greeting's line, in what was read before and `data`. -/
theorem greeting_line {reads : List Bytes} {data : Bytes} {s : ImapStartTls} (h : s.Scanned)
    (hs : s.state = .discardGreeting) (hbuf : s.buf = reads.flatten ++ data)
    (hno : LF ∉ reads.flatten) :
    s.nextLine.2.Leaves s.buf.length ∧
      (s.nextLine.1 = .ok none → s.nextLine.2.Waits (reads ++ [data]) .read) ∧
      ∀ line, s.nextLine.1 = .ok (some line) → LeftBehind (reads ++ [data]) s.nextLine.2.buf := by
  obtain ⟨hnext, hscanned⟩ := nextLine_next h
  have hstate : s.nextLine.2.state = .discardGreeting := (nextLine_state s).trans hs
  refine ⟨⟨hscanned, hnext.length_le⟩, fun hn => ?_, fun line hn => ?_⟩
  · rw [Waits, hstate]
    refine ⟨.inr rfl, hscanned, ?_⟩
    rw [List.flatten_append, List.flatten_singleton, ← hbuf]
    rw [hn] at hnext
    generalize s.nextLine.2.buf = buf' at hnext ⊢
    generalize s.buf = buf at hnext ⊢
    cases hnext with
    | more hno' hlen => exact ⟨rfl, hno', hlen⟩
  · rw [hn, hbuf] at hnext
    generalize s.nextLine.2.buf = buf' at hnext ⊢
    generalize hwhole : reads.flatten ++ data = whole at hnext
    cases hnext with
    | line hline => exact leftBehind_line hno hline hwhole

section Resume

variable {reads : List Bytes} {s : ImapStartTls} {due : Request} {arg : Option Bytes}

theorem discardGreeting_keeps (hs : s.state = .discardGreeting) (h : s.Waits reads due)
    (hans : due.answeredBy arg = true) :
    Keeps (reads ++ (if due = .read then arg else none).toList)
      (s.buf.length + (due.octets arg).flatten.length) (s.discardGreeting arg) := by
  rw [Waits, hs] at h
  obtain ⟨rfl | rfl, hscanned, hbuf, hno, hlen⟩ := h
  · obtain rfl := Request.answeredBy_nothing.mp hans
    refine keeps_yielded ?_ (Nat.le_refl _)
    rw [Waits, hs, if_neg (by simp), Option.toList_none, List.append_nil]
    exact ⟨.inr rfl, hscanned, hbuf, hno, hlen⟩
  · obtain ⟨data, rfl⟩ := Option.isSome_iff_exists.mp hans
    rw [if_pos rfl, Option.toList_some]
    cases data with
    | nil => exact keeps_complete ⟨hscanned, Nat.le_refl _⟩
    | cons b bs =>
      obtain ⟨hleaves, hnone, hsome⟩ := greeting_line (hscanned.extend (b :: bs) s.state) hs
        (congrArg (· ++ b :: bs) hbuf) (hbuf ▸ hno)
      rw [Request.octets_read (List.cons_ne_nil b bs), List.flatten_singleton, ← List.length_append]
      simp only [discardGreeting]
      generalize nextLine { s with buf := s.buf ++ b :: bs } = r at hleaves hnone hsome ⊢
      obtain ⟨(err | (- | line)), s'⟩ := r
      · exact keeps_complete hleaves
      · exact keeps_yielded (hnone rfl) hleaves.length_le
      · refine keeps_yielded ?_ hleaves.length_le
        exact ⟨rfl, ⟨hleaves.scanned.le, hleaves.scanned.noLine⟩, hsome line rfl⟩

theorem sendStartTls_keeps [TryFrom Bytes Tag] [Encoder Command] (hs : s.state = .tag)
    (h : s.Waits reads due) : Keeps reads s.buf.length (s.sendStartTls arg) := by
  rw [Waits, hs] at h
  obtain ⟨-, hscanned, hleft⟩ := h
  unfold sendStartTls
  split
  · exact keeps_complete ⟨hscanned, Nat.le_refl _⟩
  · split
    · exact keeps_complete ⟨hscanned, Nat.le_refl _⟩
    · split
      · exact keeps_yielded ⟨rfl, ⟨hscanned.le, hscanned.noLine⟩, hleft⟩ (Nat.le_refl _)
      · exact keeps_complete ⟨hscanned, Nat.le_refl _⟩

theorem discardLines_keeps {tagBytes : Bytes} (h : s.Scanned)
    (hs : s.state = .discardStartTls tagBytes) :
    Keeps reads s.buf.length (s.discardLines tagBytes) := by
  fun_induction discardLines s tagBytes with
  | case1 s err s' hn =>
    obtain ⟨hnext, hscanned⟩ := nextLine_next h
    rw [hn] at hnext hscanned
    exact keeps_complete ⟨hscanned, hnext.length_le⟩
  | case2 s s' hn =>
    obtain ⟨hnext, hscanned⟩ := nextLine_next h
    have hstate := nextLine_state s
    rw [hn] at hnext hscanned hstate
    refine keeps_yielded ?_ hnext.length_le
    rw [Waits, hstate, hs]
    exact ⟨rfl, hscanned, .inr hnext.length_le_max⟩
  | case3 s line s' hn ht =>
    have hlines := nextLine_spec h
    rw [hn] at hlines
    cases hlines with
    | line => exact keeps_complete ⟨scanned_zero rfl, Nat.zero_le _⟩
  | case4 s line s' hn ht ih =>
    obtain ⟨hnext, hscanned⟩ := nextLine_next h
    have hstate := nextLine_state s
    rw [hn] at hnext hscanned hstate
    exact (ih hscanned (hstate.trans hs)).mono hnext.length_le

theorem discardStartTls_keeps {tagBytes : Bytes}
    (hs : s.state = .writeStartTls tagBytes ∨ s.state = .discardStartTls tagBytes)
    (h : s.Waits reads due) (hans : due.answeredBy arg = true) :
    Keeps (reads ++ (if due = .read then arg else none).toList)
      (s.buf.length + (due.octets arg).flatten.length) (s.discardStartTls tagBytes arg) := by
  have hscanned := h.scanned
  rcases hs with hs | hs
  · rw [Waits, hs] at h
    obtain ⟨rfl, -, hleft⟩ := h
    obtain rfl := Request.answeredBy_nothing.mp hans
    refine keeps_yielded ?_ (Nat.le_refl _)
    rw [if_neg (by simp), Option.toList_none, List.append_nil]
    exact ⟨rfl, ⟨hscanned.le, hscanned.noLine⟩, .inl hleft⟩
  · rw [Waits, hs] at h
    obtain ⟨rfl, -, -⟩ := h
    obtain ⟨data, rfl⟩ := Option.isSome_iff_exists.mp hans
    cases data with
    | nil => exact keeps_complete ⟨hscanned, Nat.le_refl _⟩
    | cons b bs =>
      rw [Request.octets_read (List.cons_ne_nil b bs), List.flatten_singleton, ← List.length_append]
      exact discardLines_keeps (hscanned.extend (b :: bs) (.discardStartTls tagBytes)) rfl

theorem resume_keeps [TryFrom Bytes Tag] [Encoder Command] (h : s.Waits reads due)
    (hans : due.answeredBy arg = true) :
    Keeps (reads ++ (if due = .read then arg else none).toList)
      (s.buf.length + (due.octets arg).flatten.length) (s.resume arg) := by
  unfold resume
  cases hs : s.state with
  | discardGreeting => exact discardGreeting_keeps hs h hans
  | tag =>
    obtain rfl : due = .tag := by
      rw [Waits, hs] at h
      exact h.1
    rw [if_neg (by simp), Option.toList_none, List.append_nil]
    exact sendStartTls_keeps hs h
  | writeStartTls tagBytes => exact discardStartTls_keeps (.inl hs) h hans
  | discardStartTls tagBytes => exact discardStartTls_keeps (.inr hs) h hans

end Resume

/-! ### Every run -/

/-- At most a line's octets and those of the last read, but for the first read behind the
greeting: it comes on top of what the read before it left there. -/
def WithinReads (reads : List Bytes) (len : Nat) : Prop :=
  WithinRead STARTTLS_MAX_LINE_LEN reads len ∨
    ∃ earlier start rest last, reads = earlier ++ [start ++ LF :: rest, last] ∧
      LF ∉ earlier.flatten ++ start ∧ len ≤ rest.length + last.length

theorem WithinReads.mono {reads : List Bytes} {len len' : Nat} (h : WithinReads reads len)
    (hle : len' ≤ len) : WithinReads reads len' := by
  rcases h with h | ⟨earlier, start, rest, last, hreads, hno, hlen⟩
  · exact .inl (Nat.le_trans hle h)
  · exact .inr ⟨earlier, start, rest, last, hreads, hno, Nat.le_trans hle hlen⟩

theorem Waits.holds {reads : List Bytes} {s : ImapStartTls} {due : Request} (h : s.Waits reads due) :
    LeftBehind reads s.buf ∨ s.buf.length ≤ STARTTLS_MAX_LINE_LEN := by
  unfold Waits at h
  split at h
  · exact .inr h.2.2.2.2
  · exact .inl h.2.2
  · exact .inl h.2.2
  · exact h.2.2

section Runs

variable {F : Type} {es : List (Turn ImapStartTls F Unit ImapYield (Except ImapStartTlsError Bytes))}
  {t : Turn ImapStartTls F Unit ImapYield (Except ImapStartTlsError Bytes)} {a b : Config ImapStartTls F}

theorem Waits.held_within (h : t.before.Waits (readsOf es) t.due)
    (hans : t.due.answeredBy t.arg = true) : WithinReads (readsOf (es ++ [t])) (t.held buf) := by
  rcases h.holds with hleft | hlen
  · obtain ⟨earlier, start, hreads, hno⟩ := hleft
    rw [readsOf_concat, Turn.held, hreads]
    cases hread : t.octetsRead with
    | none =>
      refine .inl ?_
      rw [WithinRead, Option.toList_none, List.append_nil, List.getLastD_concat, List.length_append,
        List.length_cons, Option.getD_none, List.length_nil]
      omega
    | some last =>
      refine .inr ⟨earlier, start, t.before.buf, last, ?_, hno, Nat.le_refl _⟩
      rw [Option.toList_some, List.append_assoc]
      rfl
  · exact .inl (Turn.held_within hans (fun _ => hlen) (Nat.le_trans hlen (Nat.le_add_right _ _)))

/-- Where a run has led: the coroutine waits, or it has completed. -/
structure Reached (es : List (Turn ImapStartTls F Unit ImapYield (Except ImapStartTlsError Bytes)))
    (a : Config ImapStartTls F) : Prop where
  scanned : a.state.Scanned
  waits : ∀ due, a.due = some due → a.state.Waits (readsOf es) due
  buffered : Buffered buf WithinReads es a

variable [Fragmentizer F] [TryFrom Bytes Tag] [Encoder Command]

theorem Reached.step (ha : Reached es a) (h : imapStartTls.Step a t b) : Reached (es ++ [t]) b := by
  obtain ⟨due, arg, ⟨⟩, hdue, hans, rfl, rfl⟩ := h
  have hwaits := ha.waits due hdue
  obtain ⟨hleaves, hyields⟩ := resume_keeps hwaits hans
  have hheld : WithinReads (readsOf (es ++ [imapStartTls.turn a due arg ()]))
      ((imapStartTls.turn a due arg ()).held buf) := Waits.held_within hwaits hans
  have hoctets : (due.octets arg).flatten = (imapStartTls.turn a due arg ()).octetsRead.getD [] :=
    octetsRead_answer (t := imapStartTls.turn a due arg ()) hans
  rw [hoctets] at hleaves
  refine ⟨hleaves.scanned, fun due' hdue' => ?_, hheld.mono hleaves.length_le,
    always_concat.mpr ⟨ha.buffered.held, hheld⟩⟩
  obtain ⟨y, hy, rfl⟩ := Coroutine.finish_due hdue'
  rw [readsOf_concat]
  exact hyields y hy

theorem reached (f : F) (h : imapStartTls.Runs .new f es a) : Reached es a := by
  refine Run.history (P := Reached) ⟨scanned_zero rfl, ?_, .inl (Nat.zero_le _), always_nil⟩ ?_ h
  · intro due hdue
    obtain rfl : Request.nothing = due := by simpa [Coroutine.start] using hdue
    exact new_waits
  · intro es a t b ha hstep
    exact ha.step hstep

end Runs
end ImapStartTls
end IoImap
