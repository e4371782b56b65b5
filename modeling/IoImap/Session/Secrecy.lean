import IoImap.Session.Refusal

/-!
# What the plaintext leaves behind

The session at the upgrade is the one that was opened, but for its state: whatever
the server said before, what follows depends on what follows. The plaintext itself
is the STARTTLS line and nothing else.
-/

namespace IoImap
open Transition

namespace ImapSessionOpen

variable {K F : Type}

section Run

variable [SaslMechanisms K] [TryFrom String AString] [Fragmentizer F] [TryFrom Bytes Tag]
  [Encoder Command] [Encoder AuthenticateData] {start : ImapSessionOpen K} {f : F}
  {es pre post : List (Step K F)} {t : Step K F} {b : Config (ImapSessionOpen K) F}

/-- The upgrade forgets all that came before it. -/
theorem upgrade_forgets (hstart : start.state = .connect) (hstarttls : start.opts.starttls = true)
    (hrun : (imapSessionOpen K).Runs start f (pre ++ t :: post) b) (hup : upgrades t = true) :
    Run (imapSessionOpen K).Step ⟨{ start with state := .upgraded }, f, some .nothing⟩ post b := by
  have hsplit : pre ++ t :: post = (pre ++ [t]) ++ post := by simp
  rw [hsplit] at hrun
  obtain ⟨c, hpre, hpost⟩ := hrun.split
  cases opens_run hstart hstarttls hpre (unique_upgrade hstart hstarttls hpre hup) with
  | goesOn hup' => simp [hup] at hup'
  | upgrades _ _ _ _ _ _ hc => exact hc ▸ hpost
  | fails hup' => simp [hup] at hup'

/-- As long as there was no upgrade, nothing is written but the STARTTLS line. -/
theorem plaintext_writes (hstart : start.state = .connect) (hstarttls : start.opts.starttls = true)
    (hrun : (imapSessionOpen K).Runs start f es b) (hno : ∀ t ∈ es, upgrades t = false) :
    es.filterMap written = (commandTag es).toList.filterMap ImapStartTls.startTlsLine := by
  rcases List.eq_nil_or_concat es with rfl | ⟨pre, t, rfl⟩
  · rfl
  · rw [List.concat_eq_append] at hrun hno ⊢
    have hpre : ∀ e ∈ pre, upgrades e = false := fun e he => hno e (List.mem_append_left _ he)
    cases opens_run hstart hstarttls hrun hpre with
    | goesOn _ _ _ hwrites => exact hwrites
    | upgrades _ _ _ _ _ hwrites => exact hwrites
    | fails _ _ hwrites => exact hwrites

end Run

/-- The first line of the STARTTLS command with the tag that was given for it. -/
def IsStartTlsLine [TryFrom Bytes Tag] [Encoder Command] (es : List (Step K F)) (line : Bytes) : Prop :=
  ∃ tag rest, commandTag es = some tag ∧
    Encoder.encode (⟨tag, .startTls⟩ : Command) = .line line :: rest

theorem startTlsLine_eq_some [Encoder Command] {tag : Tag} {line : Bytes}
    (h : ImapStartTls.startTlsLine tag = some line) :
    ∃ rest, Encoder.encode (⟨tag, .startTls⟩ : Command) = .line line :: rest := by
  unfold ImapStartTls.startTlsLine at h
  split at h
  · rename_i rest hencode
    obtain rfl := Option.some.inj h
    exact ⟨rest, hencode⟩
  · simp at h

end ImapSessionOpen

open ImapSessionOpen

/-- Two sessions opened alike and upgraded to TLS go on alike as far as they are served
the same tags and the same reads; and up to its upgrade a session writes nothing, or
the STARTTLS line alone. -/
theorem starttls_forgets_plaintext {K F : Type} [SaslMechanisms K] [TryFrom String AString]
    [Fragmentizer F] [TryFrom Bytes Tag] [Encoder Command] [Encoder AuthenticateData]
    {transport : ImapSessionTransport} {sasl : Option Sasl} {opts : ImapSessionOpenOptions} {f : F}
    (hstarttls : opts.starttls = true) :
    (∀ (pre₁ post₁ pre₂ post₂ : List (Step K F)) (t₁ t₂ : Step K F)
        (b₁ b₂ : Config (ImapSessionOpen K) F) (tags : List Bytes) (reads : List (Option Bytes)),
        (imapSessionOpen K).Runs (.new transport sasl opts) f (pre₁ ++ t₁ :: post₁) b₁ →
        (imapSessionOpen K).Runs (.new transport sasl opts) f (pre₂ ++ t₂ :: post₂) b₂ →
        upgrades t₁ = true → upgrades t₂ = true →
        post₁.filterMap Turn.tag? <+: tags → post₂.filterMap Turn.tag? <+: tags →
        post₁.filterMap Turn.read? <+: reads → post₂.filterMap Turn.read? <+: reads →
        post₁.length ≤ post₂.length → post₁.map Turn.out <+: post₂.map Turn.out) ∧
      ∀ (es : List (Step K F)) (b : Config (ImapSessionOpen K) F),
        (imapSessionOpen K).Runs (.new transport sasl opts) f es b →
        (∀ t ∈ es, upgrades t = false) →
        es.filterMap written = [] ∨
          ∃ line, es.filterMap written = [line] ∧ IsStartTlsLine es line := by
  constructor
  · intro pre₁ post₁ pre₂ post₂ t₁ t₂ b₁ b₂ tags reads hrun₁ hrun₂ hup₁ hup₂ htags₁ htags₂
      hreads₁ hreads₂ hlen
    have hpost₁ := upgrade_forgets rfl hstarttls hrun₁ hup₁
    have hpost₂ := upgrade_forgets rfl hstarttls hrun₂ hup₂
    exact (Coroutine.runs_agree hpost₁ hpost₂ htags₁ htags₂ hreads₁ hreads₂ hlen).map _
  · intro es b hrun hno
    have hwrites := plaintext_writes rfl hstarttls hrun hno
    cases htag : ImapSessionOpen.commandTag es with
    | none =>
      rw [htag] at hwrites
      exact .inl hwrites
    | some tag =>
      rw [htag, Option.toList_some] at hwrites
      cases hline : ImapStartTls.startTlsLine tag with
      | none => exact .inl (by rw [hwrites]; simp [hline])
      | some line =>
        obtain ⟨rest, hencode⟩ := startTlsLine_eq_some hline
        exact .inr ⟨line, by rw [hwrites]; simp [hline], tag, rest, htag, hencode⟩

section Concrete

open Concrete

def capabilityTable : List (Bytes × Response) :=
  [(ascii "* CAPABILITY SASL-IR\r\n", .data (.capability [.saslIr])),
    (ascii "A2 OK done\r\n", .status (.tagged ⟨⟨ascii "A2"⟩, ⟨.ok, none, "done"⟩⟩))]

/-- The session from the STARTTLS exchange `plaintext` to the capabilities behind it. -/
def playUpgraded (plaintext : List (Option Bytes)) :=
  (imapSessionOpen Scripted).play (Coroutine.start securing
    (LineFragmentizer.empty : LineFragmentizer (decodeTable capabilityTable)))
    ((plaintext ++ [none, some (ascii "A2"), none,
      some (ascii "* CAPABILITY SASL-IR\r\nA2 OK done\r\n")]).map (·, ()))

def plainGreeting : List (Option Bytes) :=
  [none, none, some (ascii "* OK ready\r\n"), some (ascii "A1"), none, some (ascii "A1 OK go\r\n")]

def forgedGreeting : List (Option Bytes) :=
  [none, none, some (ascii "* PREAUTH hi"), some (ascii "\r\n"), some (ascii "B7"), none,
    some (ascii "* CAPABILITY X\r\n"), some (ascii "B7 OK go\r\n")]

/-- The upgrade and what follows it, served the tag A2 and the capabilities. -/
def servedCapabilities {F : Type} (n : Nat) (es : List (Step Scripted F)) : Bool :=
  match es.drop n with
  | t :: post => upgrades t && decide (post.filterMap Turn.tag? = [ascii "A2"]) &&
      decide (post.filterMap Turn.read? = [some (ascii "* CAPABILITY SASL-IR\r\nA2 OK done\r\n")]) &&
      decide (post.length = 4)
  | [] => false

theorem servedCapabilities_split {F : Type} {n : Nat} {es : List (Step Scripted F)}
    (h : servedCapabilities n es = true) : ∃ pre t post, es = pre ++ t :: post ∧ upgrades t = true ∧
      post.filterMap Turn.tag? = [ascii "A2"] ∧
      post.filterMap Turn.read? = [some (ascii "* CAPABILITY SASL-IR\r\nA2 OK done\r\n")] ∧
      post.length = 4 := by
  unfold servedCapabilities at h
  split at h
  · rename_i t post hdrop
    simp only [Bool.and_eq_true, decide_eq_true_eq] at h
    obtain ⟨⟨⟨hup, htags⟩, hreads⟩, hlen⟩ := h
    exact ⟨es.take n, t, post, by rw [← hdrop, List.take_append_drop], hup, htags, hreads, hlen⟩
  · simp at h

theorem starttls_forgets_greeting : ∃ pre₁ t₁ post₁ b₁ pre₂ t₂ post₂ b₂,
    playUpgraded plainGreeting = some (pre₁ ++ t₁ :: post₁, b₁) ∧
      playUpgraded forgedGreeting = some (pre₂ ++ t₂ :: post₂, b₂) ∧
      post₁.length = 4 ∧ post₁.map Turn.out <+: post₂.map Turn.out := by
  have hplain : (playUpgraded plainGreeting).any (fun r => servedCapabilities 5 r.1) = true := by
    decide +kernel
  have hforged : (playUpgraded forgedGreeting).any (fun r => servedCapabilities 7 r.1) = true := by
    decide +kernel
  obtain ⟨⟨es₁, b₁⟩, hplay₁, h₁⟩ := (Option.any_eq_true _ _).mp hplain
  obtain ⟨⟨es₂, b₂⟩, hplay₂, h₂⟩ := (Option.any_eq_true _ _).mp hforged
  obtain ⟨pre₁, t₁, post₁, rfl, hup₁, htags₁, hreads₁, hlen₁⟩ := servedCapabilities_split h₁
  obtain ⟨pre₂, t₂, post₂, rfl, hup₂, htags₂, hreads₂, hlen₂⟩ := servedCapabilities_split h₂
  refine ⟨pre₁, t₁, post₁, b₁, pre₂, t₂, post₂, b₂, hplay₁, hplay₂, hlen₁, ?_⟩
  exact (starttls_forgets_plaintext rfl).1 pre₁ post₁ pre₂ post₂ t₁ t₂ b₁ b₂
    (post₁.filterMap Turn.tag?) (post₁.filterMap Turn.read?)
    (Coroutine.play_run _ hplay₁) (Coroutine.play_run _ hplay₂) hup₁ hup₂ List.prefix_rfl
    (by simp only [htags₂, htags₁, List.prefix_rfl]) List.prefix_rfl
    (by simp only [hreads₂, hreads₁, List.prefix_rfl]) (Nat.le_of_eq (hlen₁.trans hlen₂.symm))

end Concrete
end IoImap
