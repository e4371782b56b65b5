import Mathlib.Data.List.Basic
import Mathlib.Control.Basic
import Mathlib.Tactic.Common

/-!
# Queues fed in pieces

A queue is fed pieces of an input and pulled item by item until it runs dry;
an item may need several pieces. `drain` pulls until the queue is dry, `consume`
does so while folding the items into a state and stops at the first item the
state refuses. A lawful queue yields the items of the concatenated input: how
the input was cut into pieces does not show (`drain_feed_append`).
-/

namespace Incremental

universe u v w
variable {F : Type u} {β : Type v} {ι : Type w}

class Feed (F : Type u) (β : outParam (Type v)) (ι : outParam (Type w)) where
  feed : F → List β → F
  pull : F → Option ι × F
  backlog : F → Nat
  pull_backlog : ∀ f i f', pull f = (some i, f') → backlog f' < backlog f

/-- Feeding is incremental: nothing already complete is changed by what is fed
behind it, and a pull that found nothing complete left nothing behind. -/
class LawfulFeed (F : Type u) {β : outParam (Type v)} {ι : outParam (Type w)} [Feed F β ι] :
    Prop where
  feed_nil : ∀ f : F, Feed.feed f [] = f
  feed_feed : ∀ (f : F) (a b : List β), Feed.feed (Feed.feed f a) b = Feed.feed f (a ++ b)
  pull_feed : ∀ (f : F) (i : ι) (f' : F) (b : List β),
    Feed.pull f = (some i, f') → Feed.pull (Feed.feed f b) = (some i, Feed.feed f' b)
  pull_dry : ∀ (f f' : F) (b : List β),
    Feed.pull f = (none, f') → Feed.pull (Feed.feed f' b) = Feed.pull (Feed.feed f b)

open Feed

section Drain

variable [Feed F β ι]

def drain (f : F) : List ι × F :=
  match _h : pull f with
  | (none, f') => ([], f')
  | (some i, f') => (i :: (drain f').1, (drain f').2)
termination_by backlog f
decreasing_by all_goals exact pull_backlog f i f' _h

/-- Pulls until the queue runs dry, folding the items into `s`; the first item
that `accept` refuses ends it. -/
def consume {σ ε : Type*} (accept : σ → ι → Except ε σ) (s : σ) (f : F) : Except ε σ × F :=
  match _h : pull f with
  | (none, f') => (.ok s, f')
  | (some i, f') =>
    match accept s i with
    | .ok s' => consume accept s' f'
    | .error e => (.error e, f')
termination_by backlog f
decreasing_by exact pull_backlog f i f' _h

theorem drain_dry {f f' : F} (h : pull f = (none, f')) : drain f = ([], f') := by
  rw [drain]
  split
  · rename_i heq
    rw [h] at heq
    injection heq with _ he
    rw [he]
  · rename_i heq
    rw [h] at heq
    simp at heq

theorem drain_pull {f f' : F} {i : ι} (h : pull f = (some i, f')) :
    drain f = (i :: (drain f').1, (drain f').2) := by
  rw [drain]
  split
  · rename_i heq
    rw [h] at heq
    simp at heq
  · rename_i heq
    rw [h] at heq
    injection heq with hi hf
    injection hi with hi
    rw [hi, hf]

theorem drain_induction {motive : F → Prop} (dry : ∀ f f', pull f = (none, f') → motive f)
    (item : ∀ f i f', pull f = (some i, f') → motive f' → motive f) (f : F) : motive f := by
  have key : ∀ n (f : F), backlog f < n → motive f := by
    intro n
    induction n with
    | zero => intro f hf; omega
    | succ n ih =>
      intro f hf
      rcases hp : pull f with ⟨- | i, f'⟩
      · exact dry f f' hp
      · have hlt := pull_backlog f i f' hp
        exact item f i f' hp (ih f' (by omega))
  exact key _ f (Nat.lt_succ_self _)

theorem drain_congr {f g : F} (h : pull f = pull g) : drain f = drain g := by
  rcases hp : pull g with ⟨- | i, g'⟩
  · rw [drain_dry (h.trans hp), drain_dry hp]
  · rw [drain_pull (h.trans hp), drain_pull hp]

section Consume

variable {σ ε : Type*} (accept : σ → ι → Except ε σ)

theorem consume_dry {f f' : F} (s : σ) (h : pull f = (none, f')) :
    consume accept s f = (.ok s, f') := by
  rw [consume]
  split
  · rename_i heq
    rw [h] at heq
    injection heq with _ he
    rw [he]
  · rename_i heq
    rw [h] at heq
    simp at heq

theorem consume_pull {f f' : F} {i : ι} (s : σ) (h : pull f = (some i, f')) :
    consume accept s f =
      match accept s i with
      | .ok s' => consume accept s' f'
      | .error e => (.error e, f') := by
  rw [consume]
  split
  · rename_i heq
    rw [h] at heq
    simp at heq
  · rename_i heq
    rw [h] at heq
    injection heq with hi hf
    injection hi with hi
    rw [hi, hf]

theorem consume_fst (s : σ) (f : F) : (consume accept s f).1 = (drain f).1.foldlM accept s := by
  induction f using drain_induction generalizing s with
  | dry f f' h => rw [consume_dry accept s h, drain_dry h]; rfl
  | item f i f' h ih =>
    rw [consume_pull accept s h, drain_pull h, List.foldlM_cons]
    cases accept s i with
    | ok s' => exact ih s'
    | error e => rfl

theorem consume_snd {s s' : σ} {f : F} (h : (consume accept s f).1 = .ok s') :
    (consume accept s f).2 = (drain f).2 := by
  induction f using drain_induction generalizing s with
  | dry f f' hp => rw [consume_dry accept s hp, drain_dry hp]
  | item f i f' hp ih =>
    rw [consume_pull accept s hp] at h ⊢
    rw [drain_pull hp]
    cases ha : accept s i with
    | ok t => rw [ha] at h; exact ih h
    | error e => rw [ha] at h; simp at h

end Consume

section Lawful

variable [LawfulFeed F]

theorem drain_feed (f : F) (b : List β) :
    drain (feed f b) =
      ((drain f).1 ++ (drain (feed (drain f).2 b)).1, (drain (feed (drain f).2 b)).2) := by
  induction f using drain_induction with
  | dry f f' h =>
    rw [drain_dry h, drain_congr (LawfulFeed.pull_dry f f' b h)]
    rfl
  | item f i f' h ih => rw [drain_pull (LawfulFeed.pull_feed f i f' b h), drain_pull h, ih]; rfl

/-- Two pieces fed one after the other, the queue drained in between, are one piece. -/
theorem drain_feed_append (f : F) (a b : List β) :
    drain (feed f (a ++ b)) =
      ((drain (feed f a)).1 ++ (drain (feed (drain (feed f a)).2 b)).1,
        (drain (feed (drain (feed f a)).2 b)).2) := by
  rw [← LawfulFeed.feed_feed, drain_feed]

end Lawful
end Drain
end Incremental
