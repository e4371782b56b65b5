import IoImap.Coroutine
import IoImap.Text.Utf8
import Mathlib.Data.Finset.Basic
import Mathlib.Data.Finset.Lattice.Lemmas

/-!
# Raw passthrough (rfc3501/raw.rs)

The caller's octets are written as they are. Before that they go through a
fragmentizer of their own, the probe, which finds the tag of every command; then
messages are read until each of these tags has come back. `State::Deserialize` never
lasts from one resume to the next: it is the function `deserialize`. `wants_write` and
`wants_read` are flushed within the resume that sets them.
-/

namespace IoImap
open Incremental Fragmentizer

/-- `Fragmentizer::decode_tag`: what it looks at is the message taken so far. -/
class TagDecoder where
  decodeTag : Bytes → Option Tag

/-- `Fragmentizer::new`, with the size of the largest message. -/
class NewFragmentizer (F : Type) where
  new : Nat → F

open TagDecoder

def MAX_COMMAND_SIZE : Nat := 50 * 1024 * 1024

inductive ImapRawError where
  | noCommand
  | missingTag
  | duplicateTag (tag : Bytes)
  | incompleteCommand
  | eof
  deriving DecidableEq

inductive ImapRaw.State where
  | write
  | read

structure ImapRaw where
  command : Bytes
  pending : Finset Bytes
  state : ImapRaw.State
  response : Bytes

abbrev ImapRawResult := CoroutineState ImapYield (Except ImapRawError String)

namespace ImapRaw

variable {F : Type} [Fragmentizer F] [TagDecoder]

/-- The loop of `new` over the commands of the probe. -/
def collectTags (pending : Finset Bytes) (probe : F) : Except ImapRawError (Finset Bytes) × F :=
  match _h : progress probe with
  | (none, probe') => (.ok pending, probe')
  | (some _, probe') =>
    if isMessageComplete probe' then
      match decodeTag (messageBytes probe') with
      | none => (.error .missingTag, probe')
      | some tag =>
        if tag.inner ∈ pending then (.error (.duplicateTag tag.inner), probe')
        else collectTags (insert tag.inner pending) probe'
    else collectTags pending probe'
termination_by backlog probe
decreasing_by all_goals exact backlog_progress probe _ probe' _h

variable (F) in
def new [NewFragmentizer F] (command : Bytes) : Except ImapRawError ImapRaw :=
  match collectTags ∅ (enqueueBytes (NewFragmentizer.new MAX_COMMAND_SIZE : F) command) with
  | (.error err, _) => .error err
  | (.ok pending, probe) =>
    -- what is left is a command that its CRLF has not ended
    if messageBytes probe ≠ [] then .error .incompleteCommand
    else if pending = ∅ then .error .noCommand
    else .ok ⟨command, pending, .write, []⟩

/-- A complete message is kept, and the command whose tag it carries is answered. -/
def capture (s : ImapRaw) (bytes : Bytes) : ImapRaw :=
  let s := { s with response := s.response ++ bytes }
  match decodeTag bytes with
  | some tag => { s with pending := s.pending.erase tag.inner }
  | none => s

/-- The two arms of `State::Deserialize` once the fragmentizer runs dry. -/
def settle {G : Type} (s : ImapRaw) (f : G) : ImapRawResult × ImapRaw × G :=
  if s.pending = ∅ then (.complete (.ok (Utf8.fromUtf8Lossy s.response)), s, f)
  else (.yielded .wantsRead, { s with state := .read }, f)

def deserialize (s : ImapRaw) (f : F) : ImapRawResult × ImapRaw × F :=
  match _h : progress f with
  | (some (.line _), f') =>
    if isMessageComplete f' then (s.capture (messageBytes f')).deserialize f' else s.deserialize f'
  -- a literal belongs to its message, which is kept when its last line completes
  | (some .literal, f') => s.deserialize f'
  | (none, f') => s.settle f'
termination_by backlog f
decreasing_by all_goals exact backlog_progress f _ f' _h

def resume (s : ImapRaw) (f : F) (arg : Option Bytes) : ImapRawResult × ImapRaw × F :=
  match s.state, arg with
  -- the write is yielded before the argument is looked at
  | .write, _ => (.yielded (.wantsWrite s.command), { s with command := [], state := .read }, f)
  | .read, some [] => (.complete (.error .eof), s, f)
  | .read, some data => s.deserialize (enqueueBytes f data)
  | .read, none => (.yielded .wantsRead, s, f)

end ImapRaw

def imapRaw [TagDecoder] : Coroutine ImapRaw Unit ImapYield (Except ImapRawError String) where
  resume s f arg _ := s.resume f arg
  request := ImapYield.request

/-! ### The commands of the input -/

/-- The octets in front of the first LF. -/
def firstLine (bytes : Bytes) : Bytes := bytes.takeWhile (· != LF)

/-- What imap-codec documents of tags and messages: a message goes on behind a
literal, and its tag is in its first line. -/
class LawfulTags (F : Type) [Fragmentizer F] [TagDecoder] : Prop where
  isMessageComplete_literal : ∀ f f' : F, progress f = (some .literal, f') → isMessageComplete f' = false
  decodeTag_firstLine : ∀ bytes, decodeTag bytes = decodeTag (firstLine bytes)

/-- The tags of the messages, as their first lines have them. -/
def messageTags [TagDecoder] (ms : List ServerMessage) : List Bytes :=
  ms.filterMap fun m => (decodeTag (firstLine m.bytes)).map Tag.inner

variable (F : Type) [Fragmentizer F] [NewFragmentizer F] in
/-- The commands that the probe finds in the input. -/
def commands (command : Bytes) : List ServerMessage :=
  messages (enqueueBytes (NewFragmentizer.new MAX_COMMAND_SIZE : F) command)

namespace ImapRaw

variable {F : Type} [Fragmentizer F] [TagDecoder]

def addTag (pending : Finset Bytes) (m : ServerMessage) : Except ImapRawError (Finset Bytes) :=
  match decodeTag m.bytes with
  | none => .error .missingTag
  | some tag =>
    if tag.inner ∈ pending then .error (.duplicateTag tag.inner) else .ok (insert tag.inner pending)

theorem pull_complete [LawfulTags F] {f f' : F} {info : FragmentInfo} (h : progress f = (some info, f'))
    (hcomplete : isMessageComplete f' = true) : pull f = (some (some (message f')), f') := by
  cases info with
  | line announcement => simp only [pull, h, if_pos hcomplete]
  | literal =>
    have hgoesOn := LawfulTags.isMessageComplete_literal f f' h
    rw [hgoesOn] at hcomplete
    cases hcomplete

omit [TagDecoder] in
theorem pull_incomplete {f f' : F} {info : FragmentInfo} (h : progress f = (some info, f'))
    (hcomplete : ¬ isMessageComplete f' = true) : pull f = (some none, f') := by
  cases info with
  | line announcement => simp only [pull, h, if_neg hcomplete]
  | literal => simp only [pull, h]

/-- The loop reads the probe message by message. -/
theorem collectTags_eq [LawfulTags F] (pending : Finset Bytes) (probe : F) :
    collectTags pending probe = readMessages addTag pending probe := by
  fun_induction collectTags pending probe with
  | case1 pending probe probe' h =>
    have hdry : Feed.pull probe = (none, probe') := pull_none.mpr h
    rw [readMessages, consume_dry _ _ hdry]
  | case2 pending probe info probe' h hcomplete htag =>
    have htag' : decodeTag (message probe').bytes = none := htag
    rw [readMessages_message _ _ (pull_complete h hcomplete)]
    simp only [addTag, htag']
  | case3 pending probe info probe' h hcomplete tag htag hmem =>
    have htag' : decodeTag (message probe').bytes = some tag := htag
    rw [readMessages_message _ _ (pull_complete h hcomplete)]
    simp only [addTag, htag', if_pos hmem]
  | case4 pending probe info probe' h hcomplete tag htag hmem ih =>
    have htag' : decodeTag (message probe').bytes = some tag := htag
    rw [readMessages_message _ _ (pull_complete h hcomplete)]
    simp only [addTag, htag', if_neg hmem, ih]
  | case5 pending probe info probe' h hcomplete ih =>
    rw [readMessages_pull _ _ (pull_incomplete h hcomplete), ih]

theorem messageTags_cons {tag : Tag} {m : ServerMessage} (ms : List ServerMessage)
    (h : decodeTag (firstLine m.bytes) = some tag) : messageTags (m :: ms) = tag.inner :: messageTags ms := by
  simp only [messageTags, List.filterMap_cons, h, Option.map_some]

/-- Tags are added one by one until one is missing or comes again. -/
theorem foldlM_addTag [LawfulTags F] {ms : List ServerMessage} {pending pending' : Finset Bytes}
    (h : ms.foldlM addTag pending = .ok pending') :
    (messageTags ms).length = ms.length ∧ (messageTags ms).Nodup ∧
      (∀ tag ∈ messageTags ms, tag ∉ pending) ∧ pending' = pending ∪ (messageTags ms).toFinset := by
  induction ms generalizing pending with
  | nil =>
    obtain rfl : pending = pending' := Except.ok.inj h
    simp [messageTags]
  | cons m ms ih =>
    rw [List.foldlM_cons] at h
    unfold addTag at h
    rw [LawfulTags.decodeTag_firstLine F] at h
    rcases htag : decodeTag (firstLine m.bytes) with - | tag
    · rw [htag] at h
      cases h
    · rw [htag] at h
      simp only at h
      split at h
      · cases h
      · next hnew =>
        obtain ⟨hlen, hnodup, hnotin, rfl⟩ := ih h
        rw [messageTags_cons ms htag]
        refine ⟨by simp [hlen], List.nodup_cons.mpr ⟨fun hmem => ?_, hnodup⟩, fun x hx => ?_, ?_⟩
        · exact hnotin _ hmem (Finset.mem_insert_self ..)
        · rcases List.mem_cons.mp hx with rfl | hx
          · exact hnew
          · exact fun hmem => hnotin x hx (Finset.mem_insert_of_mem hmem)
        · rw [List.toFinset_cons, Finset.insert_union, Finset.union_insert]

/-- What the passthrough is built with: the tags of the commands, each command with one
and none twice, and nothing behind the last of them. -/
theorem new_eq_ok [NewFragmentizer F] [LawfulTags F] {command : Bytes} {raw : ImapRaw}
    (h : new F command = .ok raw) :
    raw = ⟨command, (messageTags (commands F command)).toFinset, .write, []⟩ ∧
      commands F command ≠ [] ∧
      (messageTags (commands F command)).length = (commands F command).length ∧
      (messageTags (commands F command)).Nodup := by
  unfold new at h
  rw [collectTags_eq] at h
  have hfold := readMessages_fst addTag ∅ (enqueueBytes (NewFragmentizer.new MAX_COMMAND_SIZE : F) command)
  split at h
  · cases h
  · next pending probe hread =>
    rw [hread] at hfold
    obtain ⟨hlen, hnodup, -, hpending⟩ := foldlM_addTag (F := F) hfold.symm
    rw [Finset.empty_union] at hpending
    split at h
    · cases h
    · split at h
      · cases h
      · next hne =>
        refine ⟨?_, fun hnil => hne ?_, hlen, hnodup⟩
        · rw [← Except.ok.inj h, hpending]
          rfl
        · have hnil' : messages (enqueueBytes (NewFragmentizer.new MAX_COMMAND_SIZE : F) command) = [] := hnil
          rw [hpending, hnil']
          rfl

end ImapRaw
end IoImap
