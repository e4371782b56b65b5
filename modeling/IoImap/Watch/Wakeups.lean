import IoImap.Transition.Wakeup
import IoImap.Watch.Replay
import Mathlib.Data.List.DropRight

/-!
# Lost wake-ups of the watcher

The watcher reads its mailbox again when IDLE reported something. A change that
the server announces elsewhere is no wake: behind the completion of a re-read in
the same read, in a read that finds the idling over, in the exchange of DONE, or
in an IDLE that is renewed behind its refresh timer.
-/

namespace IoImap
open Fragmentizer ServerMessage Transition

def ServerMessage.notifies (m : ServerMessage) : Bool :=
  match m.decoded with
  | .ok (.data (.exists _)) => true
  | .ok (.data (.expunge _)) => true
  | .ok (.data (.vanished _ _)) => true
  | .ok (.data (.fetch _ _)) => true
  | _ => false

def ServerMessage.completesTag (tag? : Option Tag) (m : ServerMessage) : Bool :=
  tag?.any fun tag => (m.ownTagged? tag).isSome

namespace ImapMailboxWatch

/-! ### Marks -/

/-- The command of a re-read: the baseline FETCH, the FETCH of a snapshot and the
EXAMINE (QRESYNC). -/
def State.reread? : State → Option (ImapSend Command)
  | fetchBaseline fetch => some fetch
  | fetchResync fetch => some fetch
  | examineQresync examine => some examine
  | _ => none

def State.idle? : State → Option ImapIdle
  | idle i => some i
  | _ => none

variable {F : Type}

def Unchanged (ms : List ServerMessage) : Prop := ∀ m ∈ ms, m.notifies = false

instance (ms : List ServerMessage) : Decidable (Unchanged ms) :=
  inferInstanceAs (Decidable (∀ m ∈ ms, m.notifies = false))

def Completed {M : Type} (send : ImapSend M) (ms : List ServerMessage) : Prop :=
  send.tagged.isSome ∨ ∃ m ∈ ms, m.completesTag send.tag? = true

instance {M : Type} (send : ImapSend M) (ms : List ServerMessage) : Decidable (Completed send ms) :=
  inferInstanceAs (Decidable (_ ∨ _))

/-- Behind the completion of a re-read, no change is announced in the same read
of a watch that idles. -/
def RereadUndisturbed [Fragmentizer F] (t : Step F) : Prop :=
  t.before.opts.poll = false → ∀ send ∈ t.before.state.reread?, Completed send t.received →
    Unchanged (t.received.rtakeWhile fun m => !m.completesTag send.tag?)

/-- A read that finds the idling over announces no change. -/
def ReadUndisturbed [Fragmentizer F] (t : Step F) : Prop :=
  ∀ idle ∈ t.before.state.idle?, idle.reading = true →
    idle.stopping (t.before.idleEnv t.env) = true → Unchanged t.received

/-- The exchange of DONE announces a change only when IDLE reported something
before, and then the refresh timer has not expired when it is completed. -/
def DoneUndisturbed [Fragmentizer F] (t : Step F) : Prop :=
  ∀ idle ∈ t.before.state.idle?, ∀ send ∈ idle.doneSend?,
    (t.before.idleSawData = false → Unchanged t.received) ∧
    (t.before.idleSawData = true → Completed send t.received →
      idle.expired (t.before.idleEnv t.env) = false)

def Undisturbed [Fragmentizer F] (t : Step F) : Prop :=
  RereadUndisturbed t ∧ ReadUndisturbed t ∧ DoneUndisturbed t

instance [Fragmentizer F] (t : Step F) : Decidable (RereadUndisturbed t) :=
  inferInstanceAs (Decidable (_ → ∀ send ∈ t.before.state.reread?, _ → _))

instance [Fragmentizer F] (t : Step F) : Decidable (ReadUndisturbed t) :=
  inferInstanceAs (Decidable (∀ idle ∈ t.before.state.idle?, _ → _ → _))

instance [Fragmentizer F] (t : Step F) : Decidable (DoneUndisturbed t) :=
  inferInstanceAs (Decidable (∀ idle ∈ t.before.state.idle?, ∀ send ∈ idle.doneSend?, _ ∧ _))

instance [Fragmentizer F] (t : Step F) : Decidable (Undisturbed t) :=
  inferInstanceAs (Decidable (_ ∧ _ ∧ _))

/-! ### Messages and marks -/

section Marks

variable {k : Wake} {tag? : Option Tag} {ms : List ServerMessage}

end Marks

/-! ### What a watcher owes between two resumes -/

section Outcomes

variable {w : ImapMailboxWatch} {env : ImapMailboxWatchEnv} {k : Wake}

variable [Base64Codec] [TryFrom String Mailbox]

end Outcomes

/-! ### One resume -/

section Exchanges

variable {M : Type} [Fragmentizer F] {send send' : ImapSend M} {f f' : F} {due : Request}
  {arg : Option Bytes} {out : ImapSendResult M} {events : List FragmentizerEvent}
  {ms : List ServerMessage}

end Exchanges

section Resumed

variable [Fragmentizer F] {t : Step F} {k : Wake}

end Resumed
end ImapMailboxWatch

open ImapMailboxWatch

section Concrete

open Concrete

end Concrete
end IoImap
