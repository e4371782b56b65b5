import IoImap.Rfc3501.StartTlsBuffer

/-!
# Lines, however they come

The three scanners give the lines of their input, whatever its cut into reads, and what
the coroutines buffer is bounded. STARTTLS alone asks for a read before it has searched
its buffer: what the read of the greeting's end left is buffered beyond the octets of the
read behind it.
-/

namespace IoImap
open Incremental Transition

/-- In every state that a run reaches, no LF is among the octets scanned, and the scanner
gives the lines of what is buffered and of all that follows. -/
theorem lines_scanned {F : Type} [Fragmentizer F] [TryFrom Bytes Tag] [Encoder Command] :
    (∀ (id : NonZeroU32) (uid : Bool) (f : F) es a,
      imapMessageFetchStream.Runs (.new id uid) f es a →
      a.state.Scanned ∧
      GivesLines LF MAX_LINE_LEN (.lineTooLong MAX_LINE_LEN) a.state.toBodyStream ∧
      Buffered (·.pending) (WithinRead MAX_LINE_LEN) es a) ∧
    (∀ (sequenceSet : SequenceSet) (opts : ImapMessageFetchStreamBatchOptions) (f : F) es a,
      imapMessageFetchStreamBatch.Runs (.new sequenceSet opts) f es a →
      a.state.Scanned ∧
      GivesLines LF MAX_LINE_LEN (.lineTooLong MAX_LINE_LEN) a.state.toBodyStream ∧
      Buffered (·.pending) (WithinRead MAX_LINE_LEN) es a) ∧
    (∀ (f : F) es a, imapStartTls.Runs .new f es a →
      a.state.Scanned ∧
      GivesLines LF STARTTLS_MAX_LINE_LEN (.lineTooLong STARTTLS_MAX_LINE_LEN) a.state ∧
      Buffered (·.buf) ImapStartTls.WithinReads es a) ∧
    LawfulLineScanner LF MAX_LINE_LEN (BodyStreamError.lineTooLong MAX_LINE_LEN)
      BodyStream.Scanned ∧
    LawfulLineScanner LF STARTTLS_MAX_LINE_LEN (ImapStartTlsError.lineTooLong STARTTLS_MAX_LINE_LEN)
      ImapStartTls.Scanned := by
  refine ⟨?_, ?_, ?_, BodyStream.lawfulLineScanner, ImapStartTls.lawfulLineScanner⟩
  · intro id uid f es a h
    have hbounded := ImapMessageFetchStream.bodyBuffering.bounded
      ImapMessageFetchStream.bodyStreaming rfl rfl h
    exact ⟨hbounded.scanned, BodyStream.lawfulLineScanner.givesLines hbounded.scanned,
      hbounded.buffered⟩
  · intro sequenceSet opts f es a h
    have hbounded := ImapMessageFetchStreamBatch.bodyBuffering.bounded
      ImapMessageFetchStreamBatch.bodyStreaming rfl rfl h
    exact ⟨hbounded.scanned, BodyStream.lawfulLineScanner.givesLines hbounded.scanned,
      hbounded.buffered⟩
  · intro f es a h
    have hreached := ImapStartTls.reached f h
    exact ⟨hreached.scanned, ImapStartTls.lawfulLineScanner.givesLines hreached.scanned,
      hreached.buffered⟩

section Concrete

open Concrete ImapStartTls

def startTlsGreeting : Bytes := ascii "* OK\r\n"

theorem discardLines_endless {tagBytes : Bytes} {s : ImapStartTls} (h : s.Scanned) (hno : LF ∉ s.buf)
    (hlen : STARTTLS_MAX_LINE_LEN < s.buf.length) : (s.discardLines tagBytes).2.buf = s.buf := by
  obtain ⟨hnext, -⟩ := nextLine_next h
  obtain ⟨hresult, hbuf⟩ : s.nextLine.1 = .error (.lineTooLong STARTTLS_MAX_LINE_LEN) ∧
      s.nextLine.2.buf = s.buf := by
    generalize s.nextLine.1 = result, s.nextLine.2.buf = buf', s.buf = buf at *
    cases hnext with
    | line => exact absurd (by simp) hno
    | more _ hle => omega
    | tooLong => exact absurd (by simp) hno
    | endless => exact ⟨rfl, rfl⟩
  rw [discardLines]
  split
  · rename_i err s' hn
    rw [hn] at hbuf
    exact hbuf
  · rename_i s' hn
    rw [hn] at hresult
    cases hresult
  · rename_i line s' hn
    rw [hn] at hresult
    cases hresult

/-- A run whose second read comes on top of what the first left behind the greeting. -/
theorem startTls_reads {rest : Bytes} (hno : LF ∉ rest) (hlen : STARTTLS_MAX_LINE_LEN ≤ rest.length) :
    ∃ es a, imapStartTls.Runs .new streamFrag es a ∧
      readsOf es = [startTlsGreeting ++ rest, [120]] ∧ a.state.buf = rest ++ [120] := by
  let resumed (s : ImapStartTls) (arg : Option Bytes) :=
    imapStartTls.resume s (⟨streamFrag, []⟩ : Logged _) arg ()
  have hnew : resumed .new none = (.yielded .wantsRead, .new, ⟨streamFrag, []⟩) := rfl
  have hgreeting : resumed .new (some (startTlsGreeting ++ rest)) =
      (.yielded .wantsTag, ⟨.tag, rest, 0⟩, ⟨streamFrag, []⟩) := rfl
  have htag : resumed ⟨.tag, rest, 0⟩ (some (ascii "A")) =
      (.yielded (.wantsWrite (ascii "A STARTTLS\r\n")), ⟨.writeStartTls (ascii "A"), rest, 0⟩,
        ⟨streamFrag, []⟩) := rfl
  have hwrite : resumed ⟨.writeStartTls (ascii "A"), rest, 0⟩ none =
      (.yielded .wantsRead, ⟨.discardStartTls (ascii "A"), rest, 0⟩, ⟨streamFrag, []⟩) := rfl
  have hreaches := (((Coroutine.reaches_start.yields () (by rfl) hnew).yields () (by rfl) hgreeting).yields
    () (by rfl) htag).yields () (by rfl) hwrite
  obtain ⟨es, hrun, hgiven⟩ := hreaches
  obtain ⟨t, ht⟩ : ∃ t, t = imapStartTls.turn
    ⟨⟨.discardStartTls (ascii "A"), rest, 0⟩, streamFrag, some .read⟩ .read (some [120]) () := ⟨_, rfl⟩
  refine ⟨es ++ [t], imapStartTls.finish t, hrun.snoc ⟨.read, some [120], (), rfl, rfl, ht, rfl⟩, ?_, ?_⟩
  · rw [readsOf_concat, readsOf_given, hgiven, ht]
    rfl
  · rw [ht]
    have hbuf : (rest ++ [120] : Bytes).length = rest.length + 1 := by simp
    refine discardLines_endless (s := ⟨.discardStartTls (ascii "A"), rest ++ [120], 0⟩)
      (scanned_zero rfl) ?_ ?_
    · simpa [LF] using hno
    · show _ < (rest ++ [120] : Bytes).length
      omega

def endlessLine : Bytes := List.replicate (STARTTLS_MAX_LINE_LEN + 2) 120

theorem endlessLine_length : endlessLine.length = STARTTLS_MAX_LINE_LEN + 2 := List.length_replicate

theorem endlessLine_noLine : LF ∉ endlessLine := by
  intro hm
  exact absurd (List.eq_of_mem_replicate hm) (by decide)

theorem lines_scanned_endless :
    (∃ es a, imapMessageFetchStream.Runs oneStream streamFrag es a ∧
      Buffered (·.pending) (WithinRead MAX_LINE_LEN) es a) ∧
    (∃ es a, imapMessageFetchStreamBatch.Runs batchStream streamFrag es a ∧
      Buffered (·.pending) (WithinRead MAX_LINE_LEN) es a) ∧
    ∃ es a, imapStartTls.Runs .new streamFrag es a ∧
      readsOf es = [startTlsGreeting ++ endlessLine, [120]] ∧
      GivesLines LF STARTTLS_MAX_LINE_LEN (.lineTooLong STARTTLS_MAX_LINE_LEN) a.state ∧
      Buffered (·.buf) WithinReads es a := by
  obtain ⟨hone, hbatch, hstartTls, -⟩ := lines_scanned (F := LineFragmentizer (decodeTable streamMessages))
  refine ⟨?_, ?_, ?_⟩
  · obtain ⟨es, t, b, hrun, -⟩ := servesOk_run (c := imapMessageFetchStream) (s := oneStream)
      lostServing (by decide +kernel) []
    exact ⟨es ++ [t], b, hrun, (hone _ _ _ _ _ hrun).2.2⟩
  · obtain ⟨es, t, b, hrun, -⟩ := servesOk_run (c := imapMessageFetchStreamBatch) (s := batchStream)
      lostServing (by decide +kernel) []
    exact ⟨es ++ [t], b, hrun, (hbatch _ _ _ _ _ hrun).2.2⟩
  · obtain ⟨es, a, hrun, hreads, -⟩ := startTls_reads endlessLine_noLine
      (by rw [endlessLine_length]; exact Nat.le_add_right _ _)
    obtain ⟨-, hlines, hbuffered⟩ := hstartTls _ _ _ hrun
    exact ⟨es, a, hrun, hreads, hlines, hbuffered⟩

/-- A line of which more than the cap comes with the greeting, and one octet later. -/
theorem lines_scanned_behind_greeting :
    ¬ ∀ es a, imapStartTls.Runs .new streamFrag es a →
      Buffered (·.buf) (WithinRead STARTTLS_MAX_LINE_LEN) es a := by
  intro h
  obtain ⟨es, a, hrun, hreads, hbuf⟩ := startTls_reads endlessLine_noLine
    (by rw [endlessLine_length]; exact Nat.le_add_right _ _)
  have hleft := (h es a hrun).left
  rw [hreads, hbuf, WithinRead, List.length_append, endlessLine_length] at hleft
  have hone : (([startTlsGreeting ++ endlessLine, [120]] : List Bytes).getLastD []).length = 1 := rfl
  rw [hone, List.length_singleton] at hleft
  omega

end Concrete
end IoImap
