import IoImap.Incremental.Feed

/-!
# What was taken from a queue and what it still holds

A queue that was fed a part of its input and pulled a part of its items accounts for
both: whatever is fed next, the items taken and the items left are those of the whole
input, in its order. Accounts of consecutive stretches compose, so nothing that happens
to a queue between two of its users is lost on them.
-/

namespace Incremental
open Feed

universe u v w
variable {F : Type u} {β : Type v} {ι : Type w} [Feed F β ι]

/-- Between `f` and `f'` the queue was fed `input` and the items `taken` were pulled. -/
def Accounts (f : F) (input : List β) (taken : List ι) (f' : F) : Prop :=
  ∀ more, drain (feed f (input ++ more)) =
    (taken ++ (drain (feed f' more)).1, (drain (feed f' more)).2)

section Accounts

variable {f f' f'' : F} {input input' : List β} {taken taken' : List ι}

theorem Accounts.refl (f : F) : Accounts f ([] : List β) ([] : List ι) f := fun _ => rfl

theorem Accounts.trans (h : Accounts f input taken f') (h' : Accounts f' input' taken' f'') :
    Accounts f (input ++ input') (taken ++ taken') f'' := by
  intro more
  rw [List.append_assoc, h, h', List.append_assoc]

variable [LawfulFeed F]

theorem accounts_feed (f : F) (input : List β) : Accounts f input ([] : List ι) (feed f input) := by
  intro more
  rw [LawfulFeed.feed_feed]
  rfl

theorem accounts_pull {i : ι} (h : pull f = (some i, f')) : Accounts f ([] : List β) [i] f' := by
  intro more
  rw [List.nil_append, drain_pull (LawfulFeed.pull_feed f i f' more h)]
  rfl

theorem accounts_dry (h : pull f = ((none : Option ι), f')) : Accounts f ([] : List β) [] f' := by
  intro more
  rw [List.nil_append, ← drain_congr (LawfulFeed.pull_dry f f' more h)]
  rfl

end Accounts
end Incremental
