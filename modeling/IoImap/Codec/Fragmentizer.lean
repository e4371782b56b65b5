import IoImap.Codec.Types
import IoImap.Incremental.Feed

/-!
# The Fragmentizer

imap-codec's `Fragmentizer` is not part of the repository: it is a parameter,
the operations the coroutines call on it and, as a separate class, what its
documentation promises about framing. A fragmentizer is a queue fed in pieces
and pulled fragment by fragment, so `Incremental` applies to it.

`Logged` wraps any fragmentizer and writes down what it is fed and which
messages it completes. The coroutines are generic in the fragmentizer; a run
over the wrapped one shows which octets the code enqueued and which messages it
saw, in order.
-/

namespace IoImap
open Incremental

structure LiteralAnnouncement where
  mode : LiteralMode
  length : Nat
  deriving DecidableEq

/-- `FragmentInfo`, without the offsets, which only `fragment_bytes` reads for the log. -/
inductive FragmentInfo where
  | line (announcement : Option LiteralAnnouncement)
  | literal
  deriving DecidableEq

inductive DecodeMessageError where
  | decodingFailure
  | decodingRemainder
  | messageTooLong
  | messagePoisoned
  deriving DecidableEq

/-- What the coroutines call on a `Fragmentizer`; `decode_message` is called with a
codec of responses and, by the greeting alone, with one of greetings. `backlog` bounds
the fragments that can still be taken before more octets are enqueued. -/
class Fragmentizer (F : Type) where
  enqueueBytes : F → Bytes → F
  progress : F → Option FragmentInfo × F
  isMessageComplete : F → Bool
  messageBytes : F → Bytes
  decodeMessage : F → Except DecodeMessageError Response
  decodeGreeting : F → Except DecodeMessageError Greeting
  skipMessage : F → F
  backlog : F → Nat
  backlog_progress : ∀ f i f', progress f = (some i, f') → backlog f' < backlog f

structure ServerMessage where
  bytes : Bytes
  decoded : Except DecodeMessageError Response
  deriving DecidableEq

namespace Fragmentizer

variable {F : Type} [Fragmentizer F]

def message (f : F) : ServerMessage := ⟨messageBytes f, decodeMessage f⟩

/-- One `progress` as the reading loops use it: a line fragment that ends a
message gives the message, every other fragment gives `none`. -/
def pull (f : F) : Option (Option ServerMessage) × F :=
  match progress f with
  | (some (.line _), f') => (some (if isMessageComplete f' then some (message f') else none), f')
  | (some .literal, f') => (some none, f')
  | (none, f') => (none, f')

theorem pull_some {f f' : F} {i : Option ServerMessage} (h : pull f = (some i, f')) :
    ∃ info, progress f = (some info, f') := by
  unfold pull at h
  split at h
  · rename_i a g hp
    injection h with _ he
    exact ⟨.line a, he ▸ hp⟩
  · rename_i g hp
    injection h with _ he
    exact ⟨.literal, he ▸ hp⟩
  · simp at h

theorem pull_none {f f' : F} : pull f = (none, f') ↔ progress f = (none, f') := by
  unfold pull
  split <;> simp_all

instance : Feed F Byte (Option ServerMessage) where
  feed := enqueueBytes
  pull := pull
  backlog := backlog
  pull_backlog f _ f' h := by
    obtain ⟨info, hp⟩ := pull_some h
    exact backlog_progress f info f' hp

def messages (f : F) : List ServerMessage := (drain f).1.filterMap id

def drained (f : F) : F := (drain f).2

/-- The reading loop of the coroutines: every complete message goes to `accept`,
a fragment that does not end one is passed over, and the first message refused
ends the loop. -/
def readMessages {σ ε : Type} (accept : σ → ServerMessage → Except ε σ) (s : σ) (f : F) :
    Except ε σ × F :=
  consume (fun s i => match i with
    | none => .ok s
    | some m => accept s m) s f

theorem messages_dry {f f' : F} (h : pull f = (none, f')) : messages f = [] := by
  rw [messages, drain_dry (show Feed.pull f = (none, f') from h)]
  rfl

theorem messages_pull {f f' : F} {i : Option ServerMessage} (h : pull f = (some i, f')) :
    messages f = i.toList ++ messages f' := by
  rw [messages, drain_pull (show Feed.pull f = (some i, f') from h)]
  cases i <;> rfl

theorem drained_dry {f f' : F} (h : pull f = (none, f')) : drained f = f' := by
  rw [drained, drain_dry (show Feed.pull f = (none, f') from h)]

theorem drained_pull {f f' : F} {i : Option ServerMessage} (h : pull f = (some i, f')) :
    drained f = drained f' := by
  rw [drained, drain_pull (show Feed.pull f = (some i, f') from h)]
  rfl

section Reading

variable {σ ε : Type} (accept : σ → ServerMessage → Except ε σ)

theorem readMessages_pull {f f' : F} (s : σ) (h : pull f = (some none, f')) :
    readMessages accept s f = readMessages accept s f' := by
  rw [readMessages, consume_pull _ s (show Feed.pull f = (some none, f') from h)]
  rfl

theorem readMessages_message {f f' : F} {m : ServerMessage} (s : σ)
    (h : pull f = (some (some m), f')) :
    readMessages accept s f =
      match accept s m with
      | .ok s' => readMessages accept s' f'
      | .error e => (.error e, f') := by
  rw [readMessages, consume_pull _ s (show Feed.pull f = (some (some m), f') from h)]
  rfl

theorem readMessages_fst (s : σ) (f : F) :
    (readMessages accept s f).1 = (messages f).foldlM accept s := by
  rw [readMessages, consume_fst, messages, List.foldlM_filterMap]
  congr 1
  funext s i
  cases i <;> rfl

theorem readMessages_snd {s s' : σ} {f : F} (h : (readMessages accept s f).1 = .ok s') :
    (readMessages accept s f).2 = drained f :=
  consume_snd _ h

end Reading

section Refusals

variable {σ ε : Type} {accept : σ → ServerMessage → Except ε σ} {refuse : ServerMessage → Option ε}
  {absorb : σ → ServerMessage → σ}

structure Refuses (accept : σ → ServerMessage → Except ε σ) (refuse : ServerMessage → Option ε)
    (absorb : σ → ServerMessage → σ) : Prop where
  refused : ∀ s m e, refuse m = some e → accept s m = .error e
  absorbed : ∀ s m, refuse m = none → accept s m = .ok (absorb s m)

theorem foldlM_accepted (haccept : Refuses accept refuse absorb) {ms : List ServerMessage}
    (h : ∀ m ∈ ms, refuse m = none) {s : σ} : ms.foldlM accept s = .ok (ms.foldl absorb s) := by
  induction ms generalizing s with
  | nil => rfl
  | cons m ms ih =>
    have hm := h m (List.mem_cons_self ..)
    have hms : ∀ x ∈ ms, refuse x = none := fun x hx => h x (List.mem_cons_of_mem _ hx)
    rw [List.foldlM_cons, haccept.absorbed s m hm]
    exact ih hms

theorem exists_refused {ms : List ServerMessage} (h : ¬ ∀ m ∈ ms, refuse m = none) :
    ∃ pre m post e, ms = pre ++ m :: post ∧ (∀ x ∈ pre, refuse x = none) ∧ refuse m = some e := by
  induction ms with
  | nil => exact absurd (fun _ hm => absurd hm List.not_mem_nil) h
  | cons m ms ih =>
    rcases hm : refuse m with - | e
    · have hms : ¬ ∀ x ∈ ms, refuse x = none := by
        intro hms
        apply h
        intro x hx
        rcases List.mem_cons.mp hx with rfl | hx
        · exact hm
        · exact hms x hx
      obtain ⟨pre, x, post, e, rfl, hpre, hx⟩ := ih hms
      refine ⟨m :: pre, x, post, e, rfl, fun y hy => ?_, hx⟩
      rcases List.mem_cons.mp hy with rfl | hy
      · exact hm
      · exact hpre y hy
    · exact ⟨[], m, ms, e, rfl, fun _ hx => absurd hx List.not_mem_nil, hm⟩

end Refusals
end Fragmentizer

open Fragmentizer

/-- What imap-codec documents of framing: the fragments are those of the
concatenation of the enqueued octets, and looking at a message depends only on
what was taken into it. -/
class LawfulFragmentizer (F : Type) [Fragmentizer F] : Prop where
  enqueueBytes_nil : ∀ f : F, enqueueBytes f [] = f
  enqueueBytes_append : ∀ (f : F) (a b : Bytes),
    enqueueBytes (enqueueBytes f a) b = enqueueBytes f (a ++ b)
  progress_enqueueBytes : ∀ (f : F) (i : FragmentInfo) (f' : F) (b : Bytes),
    progress f = (some i, f') → progress (enqueueBytes f b) = (some i, enqueueBytes f' b)
  progress_dry : ∀ (f f' : F) (b : Bytes),
    progress f = (none, f') → progress (enqueueBytes f' b) = progress (enqueueBytes f b)
  isMessageComplete_enqueueBytes : ∀ (f : F) (b : Bytes),
    isMessageComplete (enqueueBytes f b) = isMessageComplete f
  messageBytes_enqueueBytes : ∀ (f : F) (b : Bytes),
    messageBytes (enqueueBytes f b) = messageBytes f
  decodeMessage_enqueueBytes : ∀ (f : F) (b : Bytes),
    decodeMessage (enqueueBytes f b) = decodeMessage f

namespace LawfulFragmentizer

variable {F : Type} [Fragmentizer F] [LawfulFragmentizer F]

theorem message_enqueueBytes (f : F) (b : Bytes) : message (enqueueBytes f b) = message f := by
  simp only [message, messageBytes_enqueueBytes, decodeMessage_enqueueBytes]

theorem pull_enqueueBytes {f f' : F} {i : Option ServerMessage} (b : Bytes)
    (h : pull f = (some i, f')) : pull (enqueueBytes f b) = (some i, enqueueBytes f' b) := by
  obtain ⟨info, hp⟩ := pull_some h
  have hb := progress_enqueueBytes f info f' b hp
  unfold pull at h ⊢
  rw [hp] at h
  rw [hb]
  cases info with
  | line a =>
    simp only [isMessageComplete_enqueueBytes, message_enqueueBytes]
    simp only [Prod.mk.injEq, and_true] at h
    rw [h]
  | literal =>
    simp only [Prod.mk.injEq, and_true] at h
    rw [← h]

instance : LawfulFeed F where
  feed_nil := enqueueBytes_nil
  feed_feed := enqueueBytes_append
  pull_feed _ _ _ b h := pull_enqueueBytes b h
  pull_dry f f' b h := by
    have hb := progress_dry f f' b (pull_none.mp h)
    show pull (enqueueBytes f' b) = pull (enqueueBytes f b)
    simp only [pull, hb]

theorem messages_append (f : F) (a b : Bytes) :
    messages (enqueueBytes f (a ++ b)) =
      messages (enqueueBytes f a) ++ messages (enqueueBytes (drained (enqueueBytes f a)) b) := by
  have h := congrArg (fun r => r.1.filterMap id) (drain_feed_append f a b)
  rw [List.filterMap_append] at h
  exact h

theorem drained_append (f : F) (a b : Bytes) :
    drained (enqueueBytes f (a ++ b)) = drained (enqueueBytes (drained (enqueueBytes f a)) b) := by
  have h := congrArg (fun r => r.2) (drain_feed_append f a b)
  exact h

theorem drained_drained (f : F) : drained (drained f) = drained f := by
  have hnil := drained_append f [] []
  rw [List.append_nil, enqueueBytes_nil, enqueueBytes_nil] at hnil
  exact hnil.symm

/-- A drained fragmentizer has no complete message left. -/
theorem messages_drained (f : F) : messages (drained f) = [] := by
  have hnil := messages_append f [] []
  rw [List.append_nil, enqueueBytes_nil, enqueueBytes_nil] at hnil
  exact List.self_eq_append_right.mp hnil

end LawfulFragmentizer

/-! ### The logged fragmentizer -/

inductive FragmentizerEvent where
  | fed (bytes : Bytes)
  | completed (message : ServerMessage)

namespace FragmentizerEvent

def bytes? : FragmentizerEvent → Option Bytes
  | .fed bytes => some bytes
  | .completed _ => none

def message? : FragmentizerEvent → Option ServerMessage
  | .fed _ => none
  | .completed m => some m

@[simp] theorem filterMap_bytes?_fed (b : Bytes) (log : List FragmentizerEvent) :
    (fed b :: log).filterMap bytes? = b :: log.filterMap bytes? := rfl

@[simp] theorem filterMap_message?_fed (b : Bytes) (log : List FragmentizerEvent) :
    (fed b :: log).filterMap message? = log.filterMap message? := rfl

@[simp] theorem filterMap_bytes? (ms : List ServerMessage) :
    (ms.map completed).filterMap bytes? = [] := by
  rw [List.filterMap_map]
  exact List.filterMap_eq_nil_iff.mpr fun _ _ => rfl

@[simp] theorem filterMap_message? (ms : List ServerMessage) :
    (ms.map completed).filterMap message? = ms := by
  rw [List.filterMap_map]
  exact List.filterMap_some

theorem bytes?_read (data : Bytes) (ms : List ServerMessage) :
    (fed data :: ms.map completed).filterMap bytes? = [data] := by
  rw [filterMap_bytes?_fed, filterMap_bytes?]

theorem message?_read (data : Bytes) (ms : List ServerMessage) :
    (fed data :: ms.map completed).filterMap message? = ms := by
  rw [filterMap_message?_fed, filterMap_message?]

end FragmentizerEvent

/-- A fragmentizer with the log of what it was made to do. -/
structure Logged (F : Type) where
  frag : F
  log : List FragmentizerEvent

namespace Logged

variable {F : Type} [Fragmentizer F]

def erase {α σ : Type} (r : α × σ × Logged F) : α × σ × F := (r.1, r.2.1, r.2.2.frag)

def progress (l : Logged F) : Option FragmentInfo × Logged F :=
  match Fragmentizer.progress l.frag with
  | (some (.line a), f') =>
    (some (.line a),
      ⟨f', if isMessageComplete f' then l.log ++ [.completed (message f')] else l.log⟩)
  | (i, f') => (i, ⟨f', l.log⟩)

instance : Fragmentizer (Logged F) where
  enqueueBytes l b := ⟨enqueueBytes l.frag b, l.log ++ [.fed b]⟩
  progress := progress
  isMessageComplete l := isMessageComplete l.frag
  messageBytes l := messageBytes l.frag
  decodeMessage l := decodeMessage l.frag
  decodeGreeting l := decodeGreeting l.frag
  skipMessage l := ⟨skipMessage l.frag, l.log⟩
  backlog l := backlog l.frag
  backlog_progress l i l' h := by
    unfold progress at h
    split at h
    · rename_i a f' hp
      injection h with _ he
      rw [← he]
      exact backlog_progress l.frag _ f' hp
    · rename_i j f' _ hp
      injection h with hi he
      rw [← he]
      exact backlog_progress l.frag i f' (hi ▸ hp)

theorem enqueueBytes_eq (f : F) (log : List FragmentizerEvent) (b : Bytes) :
    enqueueBytes (⟨f, log⟩ : Logged F) b = ⟨enqueueBytes f b, log ++ [.fed b]⟩ := rfl

theorem message_eq (f : F) (log : List FragmentizerEvent) :
    message (⟨f, log⟩ : Logged F) = message f := rfl

theorem progress_eq (l : Logged F) : Fragmentizer.progress l = l.progress := rfl

theorem isMessageComplete_eq (f : F) (log : List FragmentizerEvent) :
    isMessageComplete (⟨f, log⟩ : Logged F) = isMessageComplete f := rfl

theorem progress_frag (l : Logged F) :
    Fragmentizer.progress l.frag = ((Fragmentizer.progress l).1, (Fragmentizer.progress l).2.frag) := by
  rw [progress_eq]
  unfold progress
  rcases Fragmentizer.progress l.frag with ⟨- | (a | -), f'⟩ <;> rfl

theorem pull_eq (f : F) (log : List FragmentizerEvent) :
    pull (⟨f, log⟩ : Logged F) =
      ((pull f).1, ⟨(pull f).2, log ++ ((pull f).1.join.toList.map .completed)⟩) := by
  unfold pull
  rw [progress_eq]
  unfold progress
  rcases Fragmentizer.progress f with ⟨- | info, f'⟩
  · simp
  · cases info with
    | line a =>
      by_cases hc : isMessageComplete f' = true
      · simp [hc, isMessageComplete_eq, message_eq]
      · simp [hc, isMessageComplete_eq]
    | literal => simp

theorem drain_eq (f : F) (log : List FragmentizerEvent) :
    drain (⟨f, log⟩ : Logged F) =
      ((drain f).1, ⟨drained f, log ++ (messages f).map .completed⟩) := by
  induction f using drain_induction generalizing log with
  | dry f f' h =>
    have hp : pull f = (none, f') := h
    have hl : Feed.pull (⟨f, log⟩ : Logged F) = (none, ⟨f', log⟩) := by
      show pull (⟨f, log⟩ : Logged F) = _
      rw [pull_eq, hp]
      simp
    rw [drain_dry hl, drain_dry h, messages_dry hp, drained_dry hp]
    simp
  | item f i f' h ih =>
    have hp : pull f = (some i, f') := h
    have hl : Feed.pull (⟨f, log⟩ : Logged F) =
        (some i, ⟨f', log ++ i.toList.map .completed⟩) := by
      show pull (⟨f, log⟩ : Logged F) = _
      rw [pull_eq, hp]
      simp
    rw [drain_pull hl, drain_pull h, ih, messages_pull hp, drained_pull hp]
    simp

theorem readMessages_error {σ ε : Type} (accept : σ → ServerMessage → Except ε σ) {s t : σ}
    {f : F} (log : List FragmentizerEvent) {pre post : List ServerMessage} {m : ServerMessage}
    {e : ε} (hm : messages f = pre ++ m :: post) (hpre : pre.foldlM accept s = .ok t)
    (he : accept t m = .error e) :
    ∃ f', readMessages accept s (⟨f, log⟩ : Logged F) =
      (.error e, ⟨f', log ++ (pre ++ [m]).map .completed⟩) := by
  induction f using drain_induction generalizing s log pre with
  | dry f f' h =>
    rw [messages_dry h] at hm
    simp at hm
  | item f i f' h ih =>
    have hp : pull f = (some i, f') := h
    have hl : pull (⟨f, log⟩ : Logged F) = (some i, ⟨f', log ++ i.toList.map .completed⟩) := by
      rw [pull_eq, hp]
      simp
    rw [messages_pull hp] at hm
    cases i with
    | none =>
      rw [readMessages_pull accept s hl]
      obtain ⟨g, hg⟩ := ih log hm hpre
      exact ⟨g, by simpa using hg⟩
    | some x =>
      rw [readMessages_message accept s hl]
      cases pre with
      | nil =>
        simp only [Option.toList_some, List.singleton_append, List.nil_append,
          List.cons.injEq] at hm
        obtain ⟨rfl, -⟩ := hm
        simp only [List.foldlM_nil, pure, Except.pure, Except.ok.injEq] at hpre
        subst hpre
        rw [he]
        exact ⟨f', rfl⟩
      | cons y ys =>
        simp only [Option.toList_some, List.cons_append, List.nil_append,
          List.cons.injEq] at hm
        obtain ⟨rfl, hm⟩ := hm
        rw [List.foldlM_cons] at hpre
        cases hx : accept s x with
        | error e' => rw [hx] at hpre; simp [bind, Except.bind] at hpre
        | ok s' =>
          rw [hx] at hpre
          obtain ⟨g, hg⟩ := ih (log ++ [.completed x]) hm hpre
          exact ⟨g, by simpa using hg⟩

theorem messages_eq (f : F) (log : List FragmentizerEvent) :
    messages (⟨f, log⟩ : Logged F) = messages f := by
  rw [messages, drain_eq]
  rfl

theorem drained_eq (f : F) (log : List FragmentizerEvent) :
    drained (⟨f, log⟩ : Logged F) = ⟨drained f, log ++ (messages f).map .completed⟩ := by
  rw [drained, drain_eq]

section Refusals

variable {σ ε : Type} {accept : σ → ServerMessage → Except ε σ} {refuse : ServerMessage → Option ε}
  {absorb : σ → ServerMessage → σ}

theorem readMessages_accepted (haccept : Refuses accept refuse absorb)
    {f : F} (h : ∀ m ∈ messages f, refuse m = none) (s : σ) (log : List FragmentizerEvent) :
    readMessages accept s (⟨f, log⟩ : Logged F) =
      (.ok ((messages f).foldl absorb s), ⟨drained f, log ++ (messages f).map .completed⟩) := by
  have hfst := readMessages_fst accept s (⟨f, log⟩ : Logged F)
  rw [messages_eq, foldlM_accepted haccept h] at hfst
  have hsnd := readMessages_snd accept hfst
  rw [drained_eq] at hsnd
  exact Prod.ext hfst hsnd

theorem readMessages_refused (haccept : Refuses accept refuse absorb)
    {f : F} {pre post : List ServerMessage} {m : ServerMessage} {e : ε}
    (hms : messages f = pre ++ m :: post) (hpre : ∀ x ∈ pre, refuse x = none)
    (hm : refuse m = some e) (s : σ) (log : List FragmentizerEvent) :
    ∃ f', readMessages accept s (⟨f, log⟩ : Logged F) =
      (.error e, ⟨f', log ++ (pre ++ [m]).map .completed⟩) :=
  readMessages_error accept log hms (foldlM_accepted haccept hpre) (haccept.refused _ m e hm)

end Refusals

end Logged
end IoImap
