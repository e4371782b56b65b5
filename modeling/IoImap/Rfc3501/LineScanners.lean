import IoImap.Incremental.Lines
import IoImap.Rfc3501.BodyStream
import IoImap.Rfc3501.StartTls

/-!
# The line scanners (rfc3501/fetch_stream.rs, fetch_stream_batch.rs, starttls.rs)

`next_line` of the two streaming coroutines and that of STARTTLS, over octets that are
buffered and of which the first `scanned` hold no LF.
-/

namespace IoImap
open Incremental

namespace BodyStream

instance : LineScanner BodyStream Byte BodyStreamError where
  buffer := pending
  feed s bytes := { s with pending := s.pending ++ bytes }
  nextLine := nextLine
  nextLine_shorter _ _ _ := nextLine_shorter

theorem lawfulLineScanner :
    LawfulLineScanner LF MAX_LINE_LEN (BodyStreamError.lineTooLong MAX_LINE_LEN) Scanned where
  feed h bytes := ⟨h.extend bytes, rfl⟩
  nextLine {s} h := by
    show NextLine LF MAX_LINE_LEN _ s.pending s.nextLine.1 s.nextLine.2.pending ∧ s.nextLine.2.Scanned
    have hlines := nextLine_spec h
    generalize s.nextLine = r at hlines ⊢
    obtain ⟨result, s'⟩ := r
    cases hlines with
    | line hpending hline hlen =>
      rw [hpending]
      exact ⟨.line hline hlen, scanned_zero rfl⟩
    | more hpending hlen => exact ⟨.more hpending hlen, scanned_all hpending⟩
    | tooLong hpending hline hlen =>
      simp only [hpending]
      exact ⟨.tooLong hline hlen, scanned_zero rfl⟩
    | endless hpending hlen => exact ⟨.endless hpending hlen, scanned_all hpending⟩

theorem nextLine_next {s : BodyStream} (h : s.Scanned) :
    NextLine LF MAX_LINE_LEN (BodyStreamError.lineTooLong MAX_LINE_LEN) s.pending s.nextLine.1
      s.nextLine.2.pending ∧ s.nextLine.2.Scanned :=
  lawfulLineScanner.nextLine h

end BodyStream

namespace ImapStartTls

instance : LineScanner ImapStartTls Byte ImapStartTlsError where
  buffer := buf
  feed s bytes := { s with buf := s.buf ++ bytes }
  nextLine := nextLine
  nextLine_shorter _ _ _ := nextLine_shorter

theorem lawfulLineScanner :
    LawfulLineScanner LF STARTTLS_MAX_LINE_LEN (ImapStartTlsError.lineTooLong STARTTLS_MAX_LINE_LEN)
      Scanned where
  feed {s} h bytes := ⟨h.extend bytes s.state, rfl⟩
  nextLine {s} h := by
    show NextLine LF STARTTLS_MAX_LINE_LEN _ s.buf s.nextLine.1 s.nextLine.2.buf ∧ s.nextLine.2.Scanned
    unfold nextLine
    rcases search_cases h.le h.noLine with
      ⟨hpos, hno⟩ | ⟨pos, line, rest, hpos, hbuf, hline, hlen, htake, hdrop⟩
    · simp only [hpos]
      split
      · exact ⟨.endless hno (by omega), scanned_all hno⟩
      · exact ⟨.more hno (by omega), scanned_all hno⟩
    · simp only [hpos]
      split
      · rw [hbuf]
        exact ⟨.tooLong hline (by omega), scanned_zero rfl⟩
      · rw [htake, hdrop, hbuf]
        exact ⟨.line hline (by omega), scanned_zero rfl⟩

theorem nextLine_next {s : ImapStartTls} (h : s.Scanned) :
    NextLine LF STARTTLS_MAX_LINE_LEN (ImapStartTlsError.lineTooLong STARTTLS_MAX_LINE_LEN) s.buf
      s.nextLine.1 s.nextLine.2.buf ∧ s.nextLine.2.Scanned :=
  lawfulLineScanner.nextLine h

end ImapStartTls
end IoImap
