import IoImap.Command
import IoImap.Send.Conservation

/-!
# Runs of a command coroutine

A run of a command coroutine is a run of its exchange whose last result is read, so
what is proved of the runs of an exchange holds of it.
-/

namespace IoImap
open Transition

def commandCoroutine {V : Type} [TryFrom Bytes Tag] [Encoder Command]
    (decode : ImapSendOutput Command → V) :
    Coroutine (ImapSend Command) Unit ImapYield (Except ImapCommandError V) where
  resume send f arg _ := commandResume decode send f arg
  request := ImapYield.request

/-- The resume of a command coroutine, and that of its exchange. -/
structure Carries {V F : Type} (decode : ImapSendOutput Command → V)
    (t : Turn (ImapSend Command) F Unit ImapYield (Except ImapCommandError V))
    (u : SendTurn Command F) : Prop where
  given : t.given = u.given
  before : t.before = u.before
  log : t.log = u.log
  out : t.out = u.out.tryOk id .send (commandOutcome decode)

section Carries

variable {V F : Type} {decode : ImapSendOutput Command → V}
  {t : Turn (ImapSend Command) F Unit ImapYield (Except ImapCommandError V)} {u : SendTurn Command F}
  {es : List (Turn (ImapSend Command) F Unit ImapYield (Except ImapCommandError V))}
  {us : List (SendTurn Command F)}

theorem Carries.payload? (h : Carries decode t u) : t.payload? = u.payload? := by
  rw [Turn.payload?, Turn.payload?, h.out]
  rcases u.out with y | (err | out)
  · cases y <;> rfl
  · rfl
  · cases hv : commandOutcome decode out <;> simp [CoroutineState.tryOk, hv]

theorem Carries.tag? (h : Carries decode t u) : t.tag? = u.tag? := by
  have hgiven := h.given
  simp only [Turn.given, Prod.mk.injEq] at hgiven
  rw [Turn.tag?, Turn.tag?, hgiven.2.1, hgiven.2.2]

theorem carries_payloads (h : List.Forall₂ (Carries decode) es us) : payloads es = payloads us := by
  induction h with
  | nil => rfl
  | cons htu _ ih =>
    rw [payloads, payloads, List.filterMap_cons, List.filterMap_cons, htu.payload?] at *
    rw [ih]

theorem carries_tags (h : List.Forall₂ (Carries decode) es us) :
    es.filterMap Turn.tag? = us.filterMap Turn.tag? := by
  induction h with
  | nil => rfl
  | cons htu _ ih => rw [List.filterMap_cons, List.filterMap_cons, htu.tag?, ih]

theorem carries_mem (h : List.Forall₂ (Carries decode) es us) (ht : t ∈ es) :
    ∃ u ∈ us, Carries decode t u := by
  induction h with
  | nil => simp at ht
  | @cons t' u' es us htu _ ih =>
    rcases List.mem_cons.mp ht with rfl | ht
    · exact ⟨u', List.mem_cons_self .., htu⟩
    · obtain ⟨u, hu, htu⟩ := ih ht
      exact ⟨u, List.mem_cons_of_mem _ hu, htu⟩

theorem Carries.endsHeld (h : Carries decode t u) : t.EndsHeld ↔ u.EndsHeld := by
  rw [Turn.EndsHeld, Turn.EndsHeld, h.before, Turn.completed, Turn.completed, h.log]

theorem carries_endsHeld (h : List.Forall₂ (Carries decode) es us) :
    (∀ u ∈ us, ¬ u.EndsHeld) ↔ ∀ t ∈ es, ¬ t.EndsHeld := by
  induction h with
  | nil => simp
  | cons htu _ ih => simp only [List.forall_mem_cons, ih, htu.endsHeld]

end Carries

theorem command_run {V F : Type} [Fragmentizer F] [TryFrom Bytes Tag] [Encoder Command]
    {decode : ImapSendOutput Command → V} {s : ImapSend Command} {f : F}
    {es : List (Turn (ImapSend Command) F Unit ImapYield (Except ImapCommandError V))}
    {b : Config (ImapSend Command) F} (h : (commandCoroutine decode).Runs s f es b) :
    ∃ us c, (imapSend Command).Runs s f us c ∧ List.Forall₂ (Carries decode) es us := by
  have hall : ∃ us c, (imapSend Command).Runs s f us c ∧ List.Forall₂ (Carries decode) es us ∧
      (∀ due, b.due = some due → c = b) := by
    refine Run.history (P := fun es a => ∃ us c, (imapSend Command).Runs s f us c ∧
      List.Forall₂ (Carries decode) es us ∧ ∀ due, a.due = some due → c = a) ?_ ?_ h
    · exact ⟨[], _, .nil, .nil, fun _ _ => rfl⟩
    · intro es a t b hx hstep
      obtain ⟨us, c, hrun, hcarries, hsame⟩ := hx
      obtain ⟨due, arg, env, hdue, hans, rfl, rfl⟩ := hstep
      obtain rfl := hsame due hdue
      let u := (imapSend Command).turn c due arg env
      have hcarry : Carries decode ((commandCoroutine decode).turn c due arg env) u :=
        ⟨rfl, rfl, rfl, rfl⟩
      refine ⟨us ++ [u], _, .snoc hrun ⟨due, arg, env, hdue, hans, rfl, rfl⟩,
        List.rel_append hcarries (.cons hcarry .nil), fun due' hdue' => ?_⟩
      let t := (commandCoroutine decode).turn c due arg env
      have hfinish : ((commandCoroutine decode).finish t).due = some due' := hdue'
      obtain ⟨y, hout, -⟩ := Coroutine.finish_due hfinish
      obtain ⟨y', hy', rfl⟩ := CoroutineState.tryOk_yielded (hcarry.out.symm.trans hout)
      show (imapSend Command).finish u = (commandCoroutine decode).finish t
      simp only [Coroutine.finish, hout, hy']
      rfl
  obtain ⟨us, c, hrun, hcarries, -⟩ := hall
  exact ⟨us, c, hrun, hcarries⟩

end IoImap
