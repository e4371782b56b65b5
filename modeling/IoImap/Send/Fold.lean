import IoImap.Send
import Mathlib.Data.List.Induction

/-!
# What a read does to an exchange

An exchange folds the messages a read completes. Each field of the state is
determined by its own part of them; whether the exchange is over is determined
by the last message that says so, its signal.
-/

namespace IoImap
open Incremental Fragmentizer

/-! ### Signals -/

/-- What a message says about the end of an exchange. -/
inductive Signal where
  | completion
  | bye
  | continuation
  deriving DecidableEq

namespace ServerMessage

def signal? (tag : Tag) (m : ServerMessage) : Option Signal :=
  match m.decoded with
  | .ok (.status (.tagged tagged)) => if tagged.tag = tag then some .completion else none
  | .ok (.status (.bye _)) => some .bye
  | .ok (.commandContinuationRequest _) => some .continuation
  | _ => none

def Ends (tag : Tag) (m : ServerMessage) : Prop :=
  m.signal? tag = some .completion ∨ m.signal? tag = some .bye

instance (tag : Tag) (m : ServerMessage) : Decidable (m.Ends tag) :=
  inferInstanceAs (Decidable (_ ∨ _))

theorem signal?_completion {tag : Tag} {m : ServerMessage} :
    m.signal? tag = some .completion ↔ (m.ownTagged? tag).isSome := by
  obtain ⟨bytes, e | (cr | d | (u | t | b))⟩ := m <;> simp [signal?, ownTagged?]

theorem signal?_bye {tag : Tag} {m : ServerMessage} :
    m.signal? tag = some .bye ↔ m.bye?.isSome := by
  obtain ⟨bytes, e | (cr | d | (u | t | b))⟩ := m <;> simp [signal?, bye?]

theorem signal?_continuation {tag : Tag} {m : ServerMessage} :
    m.signal? tag = some .continuation ↔ m.cr?.isSome := by
  obtain ⟨bytes, e | (cr | d | (u | t | b))⟩ := m <;> simp [signal?, cr?]

theorem ends_iff {tag : Tag} {m : ServerMessage} :
    m.Ends tag ↔ (m.ownTagged? tag).isSome ∨ m.bye?.isSome := by
  rw [Ends, signal?_completion, signal?_bye]

theorem signal?_eq_none {tag : Tag} {m : ServerMessage} :
    m.signal? tag = none ↔ m.ownTagged? tag = none ∧ m.bye? = none ∧ m.cr? = none := by
  obtain ⟨bytes, e | (cr | d | (u | t | b))⟩ := m <;> simp [signal?, ownTagged?, bye?, cr?]

theorem data?_of_signal {tag : Tag} {m : ServerMessage} (h : (m.signal? tag).isSome) :
    m.data? = none ∧ m.untagged? = none := by
  obtain ⟨bytes, e | (cr | d | (u | t | b))⟩ := m <;> simp_all [signal?, data?, untagged?]

theorem refusal?_of_signal {tag : Tag} {m : ServerMessage} (h : (m.signal? tag).isSome) :
    m.refusal? = none := by
  obtain ⟨bytes, e | (cr | d | (u | t | b))⟩ := m <;> simp_all [signal?, refusal?]

end ServerMessage

open ServerMessage

def lastSome {α β : Type} (p : α → Option β) (l : List α) : Option β := (l.filterMap p).getLast?

@[simp] theorem lastSome_nil {α β : Type} (p : α → Option β) : lastSome p [] = none := rfl

theorem lastSome_append {α β : Type} (p : α → Option β) (l r : List α) :
    lastSome p (l ++ r) = (lastSome p r).or (lastSome p l) := by
  simp only [lastSome, List.filterMap_append, List.getLast?_append]

theorem lastSome_singleton {α β : Type} (p : α → Option β) (a : α) : lastSome p [a] = p a := by
  cases h : p a <;> simp [lastSome, h]

theorem lastSome_concat {α β : Type} (p : α → Option β) (l : List α) (a : α) :
    lastSome p (l ++ [a]) = (p a).or (lastSome p l) := by
  rw [lastSome_append, lastSome_singleton]

theorem lastSome_eq_none {α β : Type} {p : α → Option β} {l : List α} :
    lastSome p l = none ↔ ∀ a ∈ l, p a = none := by
  simp only [lastSome, List.getLast?_eq_none_iff, List.filterMap_eq_nil_iff]

theorem exists_of_lastSome {α β : Type} {p : α → Option β} {l : List α} {b : β}
    (h : lastSome p l = some b) : ∃ a ∈ l, p a = some b := by
  have hm := List.mem_of_getLast? h
  exact List.mem_filterMap.mp hm

/-! ### The fold -/

namespace ImapSend

variable {M F : Type}

def absorbAll (tag : Tag) (s : ImapSend M) (ms : List ServerMessage) : ImapSend M :=
  ms.foldl (absorb tag) s

section Fields

variable (tag : Tag) (s : ImapSend M) (ms : List ServerMessage)

theorem absorbAll_append (ns : List ServerMessage) :
    s.absorbAll tag (ms ++ ns) = (s.absorbAll tag ms).absorbAll tag ns :=
  List.foldl_append

theorem absorbAll_concat (m : ServerMessage) :
    s.absorbAll tag (ms ++ [m]) = (s.absorbAll tag ms).absorb tag m := by
  rw [absorbAll_append]
  rfl

/-- What no message touches is left as it was. -/
theorem absorbAll_untouched {α : Type} (field : ImapSend M → α)
    (h : ∀ (s : ImapSend M) (m : ServerMessage), field (s.absorb tag m) = field s) :
    field (s.absorbAll tag ms) = field s := by
  induction ms using List.reverseRecOn with
  | nil => rfl
  | append_singleton ms m ih =>
    rw [absorbAll_concat, h]
    exact ih

@[simp] theorem absorbAll_state : (s.absorbAll tag ms).state = s.state :=
  absorbAll_untouched tag s ms ImapSend.state fun _ _ => rfl

@[simp] theorem absorbAll_fragments : (s.absorbAll tag ms).fragments = s.fragments :=
  absorbAll_untouched tag s ms ImapSend.fragments fun _ _ => rfl

@[simp] theorem absorbAll_limboLiteral : (s.absorbAll tag ms).limboLiteral = s.limboLiteral :=
  absorbAll_untouched tag s ms ImapSend.limboLiteral fun _ _ => rfl

@[simp] theorem absorbAll_data : (s.absorbAll tag ms).data = s.data ++ ms.filterMap data? := by
  induction ms using List.reverseRecOn with
  | nil => simp [absorbAll]
  | append_singleton ms m ih =>
    rw [absorbAll_concat, absorb, ih]
    cases h : m.data? <;> simp [h]

@[simp] theorem absorbAll_untagged :
    (s.absorbAll tag ms).untagged = s.untagged ++ ms.filterMap untagged? := by
  induction ms using List.reverseRecOn with
  | nil => simp [absorbAll]
  | append_singleton ms m ih =>
    rw [absorbAll_concat, absorb, ih]
    cases h : m.untagged? <;> simp [h]

@[simp] theorem absorbAll_tagged :
    (s.absorbAll tag ms).tagged = (lastSome (·.ownTagged? tag) ms).or s.tagged := by
  induction ms using List.reverseRecOn with
  | nil => rfl
  | append_singleton ms m ih =>
    rw [absorbAll_concat, absorb, ih, lastSome_concat]
    cases m.ownTagged? tag <;> rfl

@[simp] theorem absorbAll_bye : (s.absorbAll tag ms).bye = (lastSome bye? ms).or s.bye := by
  induction ms using List.reverseRecOn with
  | nil => rfl
  | append_singleton ms m ih =>
    rw [absorbAll_concat, absorb, ih, lastSome_concat]
    cases m.bye? <;> rfl

@[simp] theorem absorbAll_cr : (s.absorbAll tag ms).cr = (lastSome cr? ms).or s.cr := by
  induction ms using List.reverseRecOn with
  | nil => rfl
  | append_singleton ms m ih =>
    rw [absorbAll_concat, absorb, ih, lastSome_concat]
    cases m.cr? <;> rfl

theorem absorb_done (m : ServerMessage) :
    (s.absorb tag m).done =
      match m.signal? tag with
      | none => s.done
      | some .continuation => s.limboLiteral.isNone
      | some _ => true := by
  obtain ⟨bytes, e | (cr | d | (u | t | b))⟩ := m
  case ok.status.tagged =>
    by_cases h : t.tag = tag <;> simp [absorb, signal?, ownTagged?, bye?, cr?, h]
  all_goals simp [absorb, signal?, ownTagged?, bye?, cr?]

/-- Whether an exchange is over after a read is what the last signal says. -/
theorem absorbAll_done :
    (s.absorbAll tag ms).done =
      match lastSome (·.signal? tag) ms with
      | none => s.done
      | some .continuation => s.limboLiteral.isNone
      | some _ => true := by
  induction ms using List.reverseRecOn with
  | nil => rfl
  | append_singleton ms m ih =>
    rw [absorbAll_concat, absorb_done, absorbAll_limboLiteral, lastSome_concat, ih]
    cases m.signal? tag with
    | none => rfl
    | some g => cases g <;> rfl

end Fields

/-! ### Reading -/

def Accepted (ms : List ServerMessage) : Prop := ∀ m ∈ ms, m.refusal? = none

instance (ms : List ServerMessage) : Decidable (Accepted ms) :=
  inferInstanceAs (Decidable (∀ m ∈ ms, _))

section Reading

variable [Fragmentizer F]

theorem read_accepted {s : ImapSend M} {sent : Sent M} {f : F} {log : List FragmentizerEvent}
    {data : Bytes} (hne : data ≠ []) (h : Accepted (messages (enqueueBytes f data))) :
    s.read sent (⟨f, log⟩ : Logged F) (some data) =
      (s.absorbAll sent.tag (messages (enqueueBytes f data))).settle sent
        ⟨drained (enqueueBytes f data),
          log ++ .fed data :: (messages (enqueueBytes f data)).map .completed⟩ := by
  obtain ⟨b, bs, rfl⟩ := List.exists_cons_of_ne_nil hne
  rw [read, Logged.enqueueBytes_eq, deserialize,
    Logged.readMessages_accepted (accept_refuses sent.tag) h, List.append_assoc]
  · rfl
  · simp

theorem read_refused (s : ImapSend M) (sent : Sent M) {f : F} (log : List FragmentizerEvent)
    {data : Bytes} {pre post : List ServerMessage} {m : ServerMessage} {err : ImapSendError}
    (hne : data ≠ []) (hms : messages (enqueueBytes f data) = pre ++ m :: post)
    (hpre : Accepted pre) (hm : m.refusal? = some err) :
    ∃ f', s.read sent (⟨f, log⟩ : Logged F) (some data) =
      (.complete (.error err), s, ⟨f', log ++ .fed data :: (pre ++ [m]).map .completed⟩) := by
  obtain ⟨b, bs, rfl⟩ := List.exists_cons_of_ne_nil hne
  obtain ⟨f', hf'⟩ := Logged.readMessages_refused (accept_refuses sent.tag) hms hpre hm s
    (log ++ [.fed (b :: bs)])
  refine ⟨f', ?_⟩
  rw [read, Logged.enqueueBytes_eq, deserialize, hf', List.append_assoc]
  · rfl
  · simp

end Reading

/-! ### Between two resumes -/

/-- What is left to write: nothing, or the literal held back and what follows it. -/
def Held (s : ImapSend M) : Prop :=
  match s.limboLiteral with
  | none => s.fragments = []
  | some _ => Framed s.fragments

structure Ready (s : ImapSend M) : Prop where
  goesOn : s.done = false
  rest : match s.state with
    | .tag _ _ => s.limboLiteral = none ∧ s.fragments = []
    | .serialize _ => s.limboLiteral = none ∧ Framed s.fragments
    | .read _ => s.Held

theorem takeFragments_framed {fragments : List Fragment} (h : Framed fragments) (buf : Bytes) :
    (takeFragments fragments buf).1 ≠ [] ∧
      match (takeFragments fragments buf).2.1 with
      | none => (takeFragments fragments buf).2.2 = []
      | some _ => Framed (takeFragments fragments buf).2.2 := by
  induction h generalizing buf with
  | line hd => simp [takeFragments, hd]
  | @literal data octets mode rest hd hrest ih =>
    cases mode with
    | sync => simp [takeFragments, hd, hrest]
    | nonSync =>
      simp only [takeFragments]
      exact ih _

theorem takeFragments_plain {fragments : List Fragment}
    (h : ∀ x ∈ fragments, x.IsSync = false) (buf : Bytes) :
    takeFragments fragments buf = (buf ++ fragments.flatMap Fragment.data, none, []) := by
  induction fragments generalizing buf with
  | nil => simp [takeFragments]
  | cons x rest ih =>
    have hx := h x (List.mem_cons_self ..)
    have hrest := fun buf => ih (fun y hy => h y (List.mem_cons_of_mem _ hy)) buf
    rcases x with data | ⟨data, - | -⟩
    · simp [takeFragments, hrest, Fragment.data]
    · simp [Fragment.IsSync] at hx
    · simp [takeFragments, hrest, Fragment.data]

def written (s : ImapSend M) (sent : Sent M) : ImapSend M :=
  { s.takeBuffer.2 with state := .read sent }

section Written

variable {s : ImapSend M} (sent : Sent M)

theorem takeBuffer_ne_nil (h : Framed s.fragments) : s.takeBuffer.1 ≠ [] :=
  (takeFragments_framed h _).1

theorem written_held (h : Framed s.fragments) : (s.written sent).Held :=
  (takeFragments_framed h _).2

theorem written_ready (hd : s.done = false) (h : Framed s.fragments) : (s.written sent).Ready :=
  ⟨hd, written_held sent h⟩

theorem serialize_framed {f : F} {next : ImapSend M → ImapSendResult M × ImapSend M × F}
    (h : Framed s.fragments) :
    s.serialize sent f next = (.yielded (.wantsWrite s.takeBuffer.1), s.written sent, f) := by
  rw [serialize, if_neg (takeBuffer_ne_nil h)]
  rfl

end Written

theorem awaitRead_eq {s : ImapSend M} {sent : Sent M} (hs : s.state = .read sent) (f : F) :
    s.awaitRead sent f = (.yielded .wantsRead, s, f) := by
  rw [awaitRead, ← hs]

theorem settle_cases {s : ImapSend M} (sent : Sent M) (hheld : s.Held) (f : F) :
    (s.done = true ∧ s.settle sent f = (.complete (.ok (s.output sent)), s, f)) ∨
    (s.done = false ∧ s.limboLiteral.isSome ∧ Framed s.fragments ∧
      s.settle sent f = (.yielded (.wantsWrite s.takeBuffer.1), s.written sent, f)) ∨
    (s.done = false ∧ s.limboLiteral = none ∧ s.settle sent f = s.awaitRead sent f) := by
  unfold settle
  cases hd : s.done with
  | true => exact .inl ⟨rfl, by simp⟩
  | false =>
    cases hl : s.limboLiteral with
    | none => exact .inr (.inr ⟨rfl, rfl, by simp⟩)
    | some lit =>
      have hf : Framed s.fragments := by simpa [Held, hl] using hheld
      exact .inr (.inl ⟨rfl, rfl, hf, by simp [serialize_framed sent hf]⟩)

def Awaits (s : ImapSend M) (due : Request) : Prop :=
  match s.state with
  | .tag _ requested => due = if requested then .tag else .nothing
  | .serialize _ => due = .nothing
  | .read _ => due = .nothing ∨ due = .read

/-- The exchanges as the constructors of `ImapSend` build them. -/
inductive Initial [Encoder M] : ImapSend M → Prop where
  | command (command : UntaggedCommand M) : Initial (fresh (.tag command false) [])
  | new (message : M) (tag : Tag) : Initial (.new message tag)
  | receive (message : M) (tag : Tag) : Initial (.receive message tag)

theorem Initial.ready [Encoder M] [LawfulEncoder M] {s : ImapSend M} (h : Initial s) : s.Ready := by
  cases h with
  | command command => exact ⟨rfl, rfl, rfl⟩
  | new message tag => exact ⟨rfl, rfl, LawfulEncoder.framed message⟩
  | receive message tag => exact ⟨rfl, rfl⟩

theorem Initial.awaits [Encoder M] {s : ImapSend M} (h : Initial s) : s.Awaits .nothing := by
  cases h with
  | command command => rfl
  | new message tag => rfl
  | receive message tag => exact .inl rfl

theorem Initial.limboLiteral [Encoder M] {s : ImapSend M} (h : Initial s) :
    s.limboLiteral = none := by
  cases h <;> rfl

/-! ### One resume -/

/-- What one resume of an exchange comes to: the result, the state and the
fragmentizer it leaves, and what it made the fragmentizer do. -/
inductive Resumed [Fragmentizer F] (s : ImapSend M) (f : F) :
    Option Bytes → ImapSendResult M → ImapSend M → F → List FragmentizerEvent → Prop where
  | asks {command : UntaggedCommand M} (hs : s.state = .tag command false) :
      Resumed s f none (.yielded .wantsTag) { s with state := .tag command true } f []
  | fails {arg : Option Bytes} {err : ImapSendError}
      (hs : (∀ sent, s.state ≠ .read sent) ∨ arg = some []) :
      Resumed s f arg (.complete (.error err)) s f []
  | writes {arg : Option Bytes} {sent : Sent M} {buf : Bytes} {rest : List Fragment}
      {limbo : Option Bytes} (hs : ∀ sent, s.state ≠ .read sent) (hbuf : buf ≠ [])
      (hheld : match limbo with
        | none => rest = []
        | some _ => Framed rest) :
      Resumed s f arg (.yielded (.wantsWrite buf))
        { s with state := .read sent, fragments := rest, limboLiteral := limbo } f []
  | waits {sent : Sent M} (hs : s.state = .read sent) :
      Resumed s f none (.yielded .wantsRead) s f []
  | refused {sent : Sent M} {data : Bytes} {f' : F} {pre post : List ServerMessage}
      {m : ServerMessage} {err : ImapSendError} (hs : s.state = .read sent) (hne : data ≠ [])
      (hms : messages (enqueueBytes f data) = pre ++ m :: post) (hpre : Accepted pre)
      (hm : m.refusal? = some err) :
      Resumed s f (some data) (.complete (.error err)) s f'
        (.fed data :: (pre ++ [m]).map .completed)
  | completes {sent : Sent M} {data : Bytes} (hs : s.state = .read sent) (hne : data ≠ [])
      (hms : Accepted (messages (enqueueBytes f data)))
      (hd : (s.absorbAll sent.tag (messages (enqueueBytes f data))).done = true) :
      Resumed s f (some data)
        (.complete (.ok ((s.absorbAll sent.tag (messages (enqueueBytes f data))).output sent)))
        (s.absorbAll sent.tag (messages (enqueueBytes f data))) (drained (enqueueBytes f data))
        (.fed data :: (messages (enqueueBytes f data)).map .completed)
  | continues {sent : Sent M} {data : Bytes} (hs : s.state = .read sent) (hne : data ≠ [])
      (hms : Accepted (messages (enqueueBytes f data)))
      (hd : (s.absorbAll sent.tag (messages (enqueueBytes f data))).done = false)
      (hl : s.limboLiteral.isSome) (hf : Framed s.fragments) :
      Resumed s f (some data)
        (.yielded (.wantsWrite (s.absorbAll sent.tag (messages (enqueueBytes f data))).takeBuffer.1))
        ((s.absorbAll sent.tag (messages (enqueueBytes f data))).written sent)
        (drained (enqueueBytes f data))
        (.fed data :: (messages (enqueueBytes f data)).map .completed)
  | readsOn {sent : Sent M} {data : Bytes} (hs : s.state = .read sent) (hne : data ≠ [])
      (hms : Accepted (messages (enqueueBytes f data)))
      (hd : (s.absorbAll sent.tag (messages (enqueueBytes f data))).done = false)
      (hl : s.limboLiteral = none) :
      Resumed s f (some data) (.yielded .wantsRead)
        (s.absorbAll sent.tag (messages (enqueueBytes f data))) (drained (enqueueBytes f data))
        (.fed data :: (messages (enqueueBytes f data)).map .completed)

section Resume

variable [Fragmentizer F]

theorem read_spec {s : ImapSend M} {sent : Sent M} (hs : s.state = .read sent) (hheld : s.Held)
    (f : F) (log : List FragmentizerEvent) (arg : Option Bytes) :
    ∃ out s' f' events, s.read sent (⟨f, log⟩ : Logged F) arg = (out, s', ⟨f', log ++ events⟩) ∧
      Resumed s f arg out s' f' events := by
  rcases arg with - | (- | ⟨b, bs⟩)
  · exact ⟨_, _, _, [], by rw [List.append_nil]; exact awaitRead_eq hs _, .waits hs⟩
  · exact ⟨_, _, _, [], by rw [List.append_nil]; rfl, .fails (.inr rfl)⟩
  · have hne : b :: bs ≠ [] := List.cons_ne_nil b bs
    by_cases hms : Accepted (messages (enqueueBytes f (b :: bs)))
    · rw [read_accepted hne hms]
      have hheld' : (s.absorbAll sent.tag (messages (enqueueBytes f (b :: bs)))).Held := by
        simpa [Held] using hheld
      rcases settle_cases sent hheld'
        (⟨drained (enqueueBytes f (b :: bs)), log ++ .fed (b :: bs) ::
          (messages (enqueueBytes f (b :: bs))).map .completed⟩ : Logged F)
        with ⟨hd, he⟩ | ⟨hd, hl, hf, he⟩ | ⟨hd, hl, he⟩
      · exact ⟨_, _, _, _, he, .completes hs hne hms hd⟩
      · exact ⟨_, _, _, _, he, .continues hs hne hms hd (by simpa using hl) (by simpa using hf)⟩
      · rw [awaitRead_eq (by rw [absorbAll_state, hs])] at he
        exact ⟨_, _, _, _, he, .readsOn hs hne hms hd (by simpa using hl)⟩
    · obtain ⟨pre, m, post, err, hsplit, hpre, hm⟩ := exists_refused hms
      obtain ⟨f', he⟩ := read_refused s sent log hne hsplit hpre hm
      exact ⟨_, _, f', _, he, .refused hs hne hsplit hpre hm⟩

variable [TryFrom Bytes Tag] [Encoder M] [LawfulEncoder M]

omit [LawfulEncoder M] in
theorem resume_read {s : ImapSend M} {sent : Sent M} (hs : s.state = .read sent) (f : F)
    (arg : Option Bytes) : s.resume f arg = s.read sent f arg := by
  unfold resume
  simp only [hs]

theorem new_resume (message : M) (tag : Tag) (f : F) (arg : Option Bytes) :
    (new message tag).resume f arg = (.yielded (.wantsWrite (new message tag).takeBuffer.1),
      (new message tag).written ⟨message, tag⟩, f) := by
  show (new message tag).serialize ⟨message, tag⟩ f (fun s => s.read ⟨message, tag⟩ f arg) = _
  exact serialize_framed ⟨message, tag⟩ (LawfulEncoder.framed message)

theorem resume_spec {s : ImapSend M} (h : s.Ready) (f : F) (log : List FragmentizerEvent)
    (arg : Option Bytes) :
    ∃ out s' f' events, s.resume (⟨f, log⟩ : Logged F) arg = (out, s', ⟨f', log ++ events⟩) ∧
      Resumed s f arg out s' f' events := by
  obtain ⟨hd, hrest⟩ := h
  unfold resume
  cases hs : s.state with
  | tag command requested =>
    have hns : ∀ sent, s.state ≠ .read sent := by simp [hs]
    rcases arg with - | bytes
    · cases requested with
      | true => exact ⟨.complete (.error .missingTag), s, f, [], by simp, .fails (.inl hns)⟩
      | false => exact ⟨_, _, _, [], by simp, .asks hs⟩
    · cases ht : (TryFrom.tryFrom bytes : Except ValidationError Tag) with
      | error err =>
        exact ⟨.complete (.error (.invalidTag err)), s, f, [], by simp [ht], .fails (.inl hns)⟩
      | ok tag =>
        have hf := LawfulEncoder.framed (command.intoMessage ⟨tag, command.body⟩)
        generalize hmsg : command.intoMessage ⟨tag, command.body⟩ = message at hf
        let s' : ImapSend M :=
          { s with fragments := Encoder.encode message, state := .serialize ⟨message, tag⟩ }
        have hs' : Framed s'.fragments := hf
        refine ⟨_, s'.written ⟨message, tag⟩, f, [], ?_,
          .writes hns (takeBuffer_ne_nil hs') (written_held ⟨message, tag⟩ hs')⟩
        simp only [ht, hmsg, List.append_nil]
        exact serialize_framed _ hs'
  | serialize sent =>
    have hns : ∀ sent, s.state ≠ .read sent := by simp [hs]
    simp only [hs] at hrest
    refine ⟨_, s.written sent, f, [], ?_,
      .writes hns (takeBuffer_ne_nil hrest.2) (written_held sent hrest.2)⟩
    rw [List.append_nil]
    exact serialize_framed sent hrest.2
  | read sent =>
    simp only [hs] at hrest
    exact read_spec hs hrest f log arg

end Resume

theorem Resumed.succeeds [Fragmentizer F] {s s' : ImapSend M} {f f' : F} {arg : Option Bytes}
    {out : ImapSendOutput M} {events : List FragmentizerEvent}
    (h : Resumed s f arg (.complete (.ok out)) s' f' events) :
    ∃ sent, s.state = .read sent ∧ out = s'.output sent ∧ s'.done = true ∧
      s' = s.absorbAll sent.tag (events.filterMap FragmentizerEvent.message?) := by
  cases h with
  | @completes sent data hs hne hms hd =>
    refine ⟨sent, hs, rfl, hd, ?_⟩
    rw [FragmentizerEvent.message?_read]

theorem Resumed.ready [Fragmentizer F] {s s' : ImapSend M} {f f' : F} {arg : Option Bytes}
    {y : ImapYield} {events : List FragmentizerEvent}
    (h : Resumed s f arg (.yielded y) s' f' events) (hs : s.Ready) :
    s'.Ready ∧ s'.Awaits y.request := by
  cases h with
  | asks hst =>
    have hrest := hs.rest
    rw [hst] at hrest
    exact ⟨⟨hs.goesOn, hrest⟩, rfl⟩
  | writes hst hbuf hheld => exact ⟨⟨hs.goesOn, hheld⟩, .inl rfl⟩
  | waits hst => exact ⟨hs, by simp [Awaits, hst, ImapYield.request]⟩
  | continues hst hne hms hd hl hf =>
    exact ⟨written_ready _ hd (by simpa using hf), .inl rfl⟩
  | readsOn hst hne hms hd hl =>
    have hrest := hs.rest
    rw [hst] at hrest
    refine ⟨⟨hd, ?_⟩, by simp [Awaits, hst, ImapYield.request]⟩
    simpa [hst, Held] using hrest

/-- A resume enqueues exactly the octets it is given in answer to `WantsRead`. -/
theorem Resumed.fed [Fragmentizer F] {s s' : ImapSend M} {f f' : F} {due : Request}
    {arg : Option Bytes} {out : ImapSendResult M} {events : List FragmentizerEvent}
    (h : Resumed s f arg out s' f' events) (hs : s.Awaits due) (hans : due.answeredBy arg = true) :
    events.filterMap FragmentizerEvent.bytes? = due.octets arg := by
  have hunread : (∀ sent, s.state ≠ .read sent) → due.octets arg = [] := by
    intro hn
    refine Request.octets_of_ne (fun hdue => ?_) arg
    subst hdue
    unfold Awaits at hs
    split at hs
    · split at hs <;> simp at hs
    · simp at hs
    · rename_i sent hst
      exact hn sent hst
  have hread : ∀ sent data, s.state = .read sent → arg = some data → data ≠ [] →
      due.octets arg = [data] := by
    intro sent data hst harg hne
    subst harg
    simp only [Awaits, hst] at hs
    rcases hs with rfl | rfl
    · simp [Request.answeredBy] at hans
    · exact Request.octets_read hne
  cases h with
  | asks _ => exact (Request.octets_none due).symm
  | fails hst =>
    rcases hst with hst | rfl
    · exact (hunread hst).symm
    · exact (Request.octets_eof due).symm
  | writes hst => exact (hunread hst).symm
  | waits _ => exact (Request.octets_none due).symm
  | refused hst hne =>
    rw [hread _ _ hst rfl hne, FragmentizerEvent.bytes?_read]
  | completes hst hne =>
    rw [hread _ _ hst rfl hne, FragmentizerEvent.bytes?_read]
  | continues hst hne =>
    rw [hread _ _ hst rfl hne, FragmentizerEvent.bytes?_read]
  | readsOn hst hne =>
    rw [hread _ _ hst rfl hne, FragmentizerEvent.bytes?_read]

theorem Resumed.collected [Fragmentizer F] {s s' : ImapSend M} {f f' : F} {arg : Option Bytes}
    {out : ImapSendResult M} {events : List FragmentizerEvent}
    (h : Resumed s f arg out s' f' events) (hout : ∀ err, out ≠ .complete (.error err)) :
    s'.data = s.data ++ (events.filterMap FragmentizerEvent.message?).filterMap data? ∧
    s'.untagged =
      s.untagged ++ (events.filterMap FragmentizerEvent.message?).filterMap untagged? := by
  cases h with
  | asks => simp
  | fails => simp at hout
  | writes => simp
  | waits => simp
  | refused => simp at hout
  | completes =>
    rw [FragmentizerEvent.message?_read]
    exact ⟨absorbAll_data .., absorbAll_untagged ..⟩
  | continues =>
    rw [FragmentizerEvent.message?_read]
    exact ⟨absorbAll_data .., absorbAll_untagged ..⟩
  | readsOn =>
    rw [FragmentizerEvent.message?_read]
    exact ⟨absorbAll_data .., absorbAll_untagged ..⟩

/-- A resume that does not fail decodes every message its octets complete. -/
theorem Resumed.decoded [Fragmentizer F] {s s' : ImapSend M} {f f' : F} {due : Request}
    {arg : Option Bytes} {out : ImapSendResult M} {events : List FragmentizerEvent}
    (h : Resumed s f arg out s' f' events) (hs : s.Awaits due) (hans : due.answeredBy arg = true)
    (hout : ∀ err, out ≠ .complete (.error err)) :
    events.filterMap FragmentizerEvent.message? =
      (due.octets arg).flatMap fun bytes => messages (enqueueBytes f bytes) := by
  rw [← h.fed hs hans]
  cases h with
  | fails => simp at hout
  | refused => simp at hout
  | asks => rfl
  | writes => rfl
  | waits => rfl
  | _ =>
    rw [FragmentizerEvent.message?_read,
      FragmentizerEvent.bytes?_read]
    simp

theorem Resumed.tagged [Fragmentizer F] {s s' : ImapSend M} {f f' : F} {arg : Option Bytes}
    {out : ImapSendResult M} {events : List FragmentizerEvent}
    (h : Resumed s f arg out s' f' events) (hout : ∀ err, out ≠ .complete (.error err)) :
    s'.tagged = (s.tag?.bind fun tag =>
      lastSome (·.ownTagged? tag) (events.filterMap FragmentizerEvent.message?)).or s.tagged := by
  cases h with
  | fails => simp at hout
  | refused => simp at hout
  | asks => simp [tag?]
  | writes => cases s.tag? <;> simp
  | waits => cases s.tag? <;> simp
  | completes hs =>
    rw [FragmentizerEvent.message?_read]
    simp [tag?, hs]
  | continues hs =>
    rw [FragmentizerEvent.message?_read]
    simp [tag?, hs, written, takeBuffer]
  | readsOn hs =>
    rw [FragmentizerEvent.message?_read]
    simp [tag?, hs]

end ImapSend
end IoImap
