import IoImap.Client.Run
import IoImap.Codec.Announcement

/-!
# Scripted streams and counted tags

A stream whose reads are known and whose writes are kept, and a generator that counts its
tags: they keep what is promised of a stream and of a generator, and run the calls of the
client on known input.
-/

namespace IoImap
open Transition

/-- The reads to come, and what was written. -/
structure ScriptedStream where
  reads : List Bytes
  sent : Bytes := []
  deriving DecidableEq

namespace ScriptedStream

def read (st : ScriptedStream) (size : Nat) : Except IoError Bytes × ScriptedStream :=
  match st.reads with
  | [] => (.ok [], st)
  | chunk :: rest =>
    (.ok (chunk.take size),
      { st with reads := if chunk.length ≤ size then rest else chunk.drop size :: rest })

def writeAll (st : ScriptedStream) (bytes : Bytes) : Except IoError Unit × ScriptedStream :=
  (.ok (), { st with sent := st.sent ++ bytes })

instance : ImapStream ScriptedStream := ⟨read, writeAll⟩

def remaining (st : ScriptedStream) : Nat := st.reads.flatten.length

theorem read_remaining {st st' : ScriptedStream} {size : Nat} {result : Except IoError Bytes}
    (h : st.read size = (result, st')) :
    ∃ bytes, result = .ok bytes ∧ st'.remaining + bytes.length ≤ st.remaining := by
  unfold read at h
  split at h
  · obtain ⟨rfl, rfl⟩ := Prod.mk.inj h
    exact ⟨[], rfl, Nat.le_refl _⟩
  · rename_i chunk rest hreads
    obtain ⟨rfl, rfl⟩ := Prod.mk.inj h
    refine ⟨_, rfl, ?_⟩
    simp only [remaining, hreads]
    split_ifs with hle <;>
      simp only [List.flatten_cons, List.length_append, List.length_take, List.length_drop] <;> omega

end ScriptedStream

/-- imap-types' generator without the random part of its tags. -/
structure CountedTags where
  counter : Nat
  deriving DecidableEq

namespace CountedTags

def tagOf (n : Nat) : Tag := ⟨ascii "A" ++ decimal n⟩

instance : TagGenerator CountedTags := ⟨fun g => (tagOf g.counter, ⟨g.counter + 1⟩)⟩

theorem tagOf_injective : Function.Injective tagOf := by
  intro n m h
  have hdecimal : decimal n = decimal m := List.append_cancel_left (Tag.mk.inj h)
  rw [← digitsValue_decimal n, ← digitsValue_decimal m, hdecimal]

theorem issues_counted {g g' : CountedTags} {tags : List Tag} (h : Run Issues g tags g') :
    g'.counter = g.counter + tags.length ∧
      tags = (List.range' g.counter tags.length).map tagOf := by
  refine Run.history (P := fun tags g' => g'.counter = g.counter + tags.length ∧
    tags = (List.range' g.counter tags.length).map tagOf) ⟨rfl, rfl⟩ ?_ h
  intro tags g₁ tag g₂ hx hissues
  obtain ⟨hcounter, htags⟩ := hx
  obtain ⟨rfl, rfl⟩ := Prod.mk.inj hissues
  rw [List.length_append, List.length_singleton, List.range'_1_concat, List.map_append, ← htags,
    ← hcounter]
  exact ⟨by simp [hcounter]; omega, rfl⟩

end CountedTags
end IoImap
