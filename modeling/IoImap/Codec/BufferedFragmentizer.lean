import IoImap.Codec.LineFragmentizer

/-!
# A fragmentizer that buffers what it has looked at

The lines and literals of `LineFragmentizer`, with the octets of an incomplete
fragment taken into the current message at once: `message_bytes` is empty when the
input ends with a complete message and is the beginning of the next one otherwise.
-/

namespace IoImap
open Fragmentizer

structure BufferedFragmentizer (decode : Bytes → Except DecodeMessageError Response) where
  lines : LineFragmentizer decode
  messageBuffer : Bytes
  complete : Bool

namespace BufferedFragmentizer

variable {decode : Bytes → Except DecodeMessageError Response}

def empty : BufferedFragmentizer decode := ⟨.empty, [], true⟩

def buffer (info : Option FragmentInfo) (lines : LineFragmentizer decode) : BufferedFragmentizer decode :=
  match info with
  | some _ => ⟨lines, lines.message, lines.complete⟩
  | none => ⟨lines, lines.taken ++ lines.unread, false⟩

def progress (f : BufferedFragmentizer decode) : Option FragmentInfo × BufferedFragmentizer decode :=
  (f.lines.progress.1, buffer f.lines.progress.1 f.lines.progress.2)

theorem lines_buffer (info : Option FragmentInfo) (lines : LineFragmentizer decode) :
    (buffer info lines).lines = lines := by
  cases info <;> rfl

theorem progress_lines {f f' : BufferedFragmentizer decode} {info : Option FragmentInfo}
    (h : f.progress = (info, f')) :
    f.lines.progress = (info, f'.lines) ∧ f' = buffer info f'.lines := by
  obtain ⟨rfl, rfl⟩ := Prod.mk.inj h
  rw [lines_buffer]
  exact ⟨rfl, rfl⟩

instance : Fragmentizer (BufferedFragmentizer decode) where
  enqueueBytes f b := { f with lines := enqueueBytes f.lines b }
  progress := progress
  isMessageComplete f := f.complete
  messageBytes f := f.messageBuffer
  decodeMessage f := decode f.messageBuffer
  decodeGreeting f := decodeGreetingLine f.messageBuffer
  skipMessage f := ⟨skipMessage f.lines, [], true⟩
  backlog f := backlog f.lines
  backlog_progress f i f' h := backlog_progress f.lines i f'.lines (progress_lines h).1

/-- A message goes on behind a literal. -/
theorem isMessageComplete_literal {f f' : BufferedFragmentizer decode}
    (h : f.progress = (some .literal, f')) : f'.complete = false := by
  obtain ⟨hlines, hf'⟩ := progress_lines h
  have hgoesOn : f'.lines.complete = false := by
    unfold LineFragmentizer.progress at hlines
    split at hlines
    · split at hlines
      · obtain ⟨-, hlines⟩ := Prod.mk.inj hlines
        rw [← hlines]
      · simp at hlines
    · split at hlines <;> simp at hlines
  rw [hf']
  exact hgoesOn

theorem progress_eq (f : BufferedFragmentizer decode) : Fragmentizer.progress f = f.progress := rfl

theorem enqueueBytes_eq (f : BufferedFragmentizer decode) (b : Bytes) :
    enqueueBytes f b = { f with lines := enqueueBytes f.lines b } := rfl

instance : LawfulFragmentizer (BufferedFragmentizer decode) where
  enqueueBytes_nil f := by rw [enqueueBytes_eq, LawfulFragmentizer.enqueueBytes_nil]
  enqueueBytes_append f a b := by
    simp only [enqueueBytes_eq, LawfulFragmentizer.enqueueBytes_append]
  progress_enqueueBytes f i f' b h := by
    obtain ⟨hlines, hf'⟩ := progress_lines h
    have hfed : (enqueueBytes f.lines b).progress = (some i, enqueueBytes f'.lines b) :=
      LawfulFragmentizer.progress_enqueueBytes f.lines i f'.lines b hlines
    rw [progress_eq, progress, enqueueBytes_eq, hfed, hf']
    rfl
  progress_dry f f' b h := by
    obtain ⟨hlines, -⟩ := progress_lines h
    have hdry : (enqueueBytes f'.lines b).progress = (enqueueBytes f.lines b).progress :=
      LawfulFragmentizer.progress_dry f.lines f'.lines b hlines
    simp only [progress_eq, progress, enqueueBytes_eq, hdry]
  isMessageComplete_enqueueBytes _ _ := rfl
  messageBytes_enqueueBytes _ _ := rfl
  decodeMessage_enqueueBytes _ _ := rfl

end BufferedFragmentizer
end IoImap
