import IoImap.Discipline.Idling
import IoImap.Discipline.Opening

/-!
# The tag discipline of the composite coroutines
-/

namespace IoImap
open Transition

/-- All composites keep to the discipline in all runs, IDLE and the watcher exactly as
long as no read arrives with the end of the idling. -/
theorem tag_discipline {K F : Type} [SaslMechanisms K] [Rfc2822] [Base64Codec] [Fragmentizer F]
    [TryFrom Bytes Tag] [TryFrom String AString] [TryFrom String Mailbox] [Encoder Command]
    [Encoder AuthenticateData] [Encoder IdleDone] [LawfulTag] [LawfulEncoder Command]
    [LawfulEncoder AuthenticateData] [LawfulEncoder IdleDone] [LawfulStartTls] (f : F) :
    (∀ transport sasl opts es b, (imapSessionOpen K).Runs (.new transport sasl opts) f es b →
      ∀ t ∈ es, Disciplined t) ∧
    (∀ user password opts login es b, ImapLogin.new user password opts = .ok login →
      imapLogin.Runs login f es b → ∀ t ∈ es, Disciplined t) ∧
    (∀ framing mechanism opts es b, (imapAuth K).Runs (.new framing mechanism opts) f es b →
      ∀ t ∈ es, Disciplined t) ∧
    (∀ opts es b, imapGreetingGet.Runs (.new opts) f es b → ∀ t ∈ es, Disciplined t) ∧
    (∀ sortCriteria searchCriteria opts es b,
      imapMessageSort.Runs (.new sortCriteria searchCriteria opts) f es b → ∀ t ∈ es, Disciplined t) ∧
    (∀ opts es b, imapIdle.Runs (.new opts) f es b →
      ((∀ t ∈ es, Disciplined t) ↔ ∀ t ∈ es, ¬ ImapIdle.Drops t)) ∧
    (∀ capability mailbox opts es b,
      imapMailboxWatch.Runs (.new capability mailbox opts) f es b →
      ((∀ t ∈ es, Disciplined t) ↔ ∀ t ∈ es, ¬ ImapMailboxWatch.Drops t)) := by
  refine ⟨?_, ?_, ?_, ?_, ?_, ?_, ?_⟩
  · intro transport sasl opts es b hrun
    exact ImapSessionOpen.disciplined hrun
  · intro user password opts login es b hnew hrun
    exact ImapLogin.disciplined hnew hrun
  · intro framing mechanism opts es b hrun
    exact ImapAuth.disciplined hrun
  · intro opts es b hrun
    exact ImapGreetingGet.disciplined hrun
  · intro sortCriteria searchCriteria opts es b hrun
    exact ImapMessageSort.disciplined hrun
  · intro opts es b hrun
    exact ImapIdle.disciplined_iff hrun
  · intro capability mailbox opts es b hrun
    exact ImapMailboxWatch.disciplined_iff hrun

section Concrete

open Concrete

def expiring (arg : Option Bytes) : Option Bytes × ImapIdleEnv := (arg, ⟨false, 0, IDLE_DEFAULT_TIMEOUT⟩)

/-- A parser that knows no date. -/
scoped instance : Rfc2822 := ⟨fun _ => none⟩

/-- The idling is refreshed: DONE, its completion and the tag of the next IDLE. -/
theorem tag_discipline_refresh : ∃ es b,
    playIdling [idling none, idling (some (ascii "A1")), idling none,
      idling (some (ascii "+ idling\r\n")), idling (some (ascii "* 5 EXISTS\r\n")),
      expiring none, idling none, expiring (some (ascii "A1 OK done\r\n")), idling (some (ascii "A2"))] =
        some (es, b) ∧ ∀ t ∈ es, Disciplined t := by
  have hrun : (playIdling [idling none, idling (some (ascii "A1")), idling none,
      idling (some (ascii "+ idling\r\n")), idling (some (ascii "* 5 EXISTS\r\n")),
      expiring none, idling none, expiring (some (ascii "A1 OK done\r\n")), idling (some (ascii "A2"))]).any
        (fun r => decide (∀ t ∈ r.1, ¬ ImapIdle.Drops t)) = true := by decide +kernel
  obtain ⟨⟨es, b⟩, hplay, hkeeps⟩ := (Option.any_eq_true _ _).mp hrun
  have hiff := (tag_discipline (K := Scripted) _).2.2.2.2.2.1 _ es b (Coroutine.play_run _ hplay)
  exact ⟨es, b, hplay, hiff.mpr (of_decide_eq_true hkeeps)⟩

theorem idle_breaks_discipline :
    ¬ ∀ (es : List (ImapIdle.Step (LineFragmentizer (decodeTable idleMessages))))
        (b : Config ImapIdle (LineFragmentizer (decodeTable idleMessages))),
        imapIdle.Runs (.new ⟨none⟩) LineFragmentizer.empty es b → ∀ t ∈ es, Disciplined t := by
  intro h
  have hrun : (playIdling [idling none, idling (some (ascii "A1")), idling none,
      idling (some (ascii "+ idling\r\n")), windingDown (some (ascii "* 5 EXISTS\r\n"))]).any
        (fun r => decide (¬ ∀ t ∈ r.1, t.fed = t.answer)) = true := by decide +kernel
  obtain ⟨⟨es, b⟩, hplay, hno⟩ := (Option.any_eq_true _ _).mp hrun
  exact of_decide_eq_true hno fun t ht => (h es b (Coroutine.play_run _ hplay) t ht).fed rfl

end Concrete
end IoImap
