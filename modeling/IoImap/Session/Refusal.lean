import IoImap.Codec.CommandEncoder
import IoImap.Session.Upgrade

/-!
# A refused STARTTLS

The session looks for the line that ends the STARTTLS exchange by the tag and the
space it starts with and never decodes it. So a refusal leads to the upgrade as
well, unless more octets came with it.
-/

namespace IoImap
open Transition

namespace ImapSessionOpen

variable {K F : Type}

/-! ### Behind the upgrade -/

def State.secured : State K → Bool
  | .connect | .connected | .startTls _ => false
  | _ => true

section Secured

variable [SaslMechanisms K] [TryFrom String AString] [Fragmentizer F] [TryFrom Bytes Tag]
  [Encoder Command] [Encoder AuthenticateData] {s s' : ImapSessionOpen K} {f f' : F}
  {arg : Option Bytes} {out : ImapSessionOpenResult}

theorem Resumed.secured (h : Resumed s f arg out s' f') (hs : s.state.secured = true) :
    s'.state.secured = true ∧ out ≠ .yielded .wantsTlsUpgrade := by
  have hconnect : s.state ≠ .connect := fun he => by simp [he, State.secured] at hs
  rcases h.quiet (P := fun state => state.secured = true) (fun _ => rfl) (fun _ => rfl) (fun _ => rfl)
    hs hconnect with ⟨hs', hquiet⟩ | ⟨startTls, hst | ⟨hst, -, -⟩, -⟩
  · exact ⟨hs', hquiet.ne_upgrade⟩
  · simp [hst, State.secured] at hs
  · simp [hst, State.secured] at hs

/-- There is no second upgrade. -/
theorem secured_run {a b : Config (ImapSessionOpen K) F} {es : List (Step K F)}
    (hrun : Run (imapSessionOpen K).Step a es b) (ha : a.state.state.secured = true) :
    ∀ t ∈ es, upgrades t = false := by
  refine Run.labels (I := fun a => a.state.state.secured = true) ha ?_ hrun
  intro a t b ha hstep
  obtain ⟨due, arg, -, -, -, rfl, rfl⟩ := hstep
  have hresumed : a.state.Resumed (⟨a.frag, []⟩ : Logged F) arg _ _ _ := resume_cases rfl
  obtain ⟨hs, hne⟩ := hresumed.secured ha
  refine ⟨hs, ?_⟩
  unfold upgrades
  split
  · rename_i he
    exact absurd he hne
  · rfl

end Secured

/-! ### Up to the upgrade -/

/-- The octets of this resume complete the line that ends the STARTTLS exchange, and
`rest` came behind it. -/
structure Ends [TryFrom Bytes Tag] (pre : List (Step K F)) (t : Step K F) (tag : Tag)
    (line rest : Bytes) : Prop where
  given : commandTag pre = some tag
  reads : t.answer ≠ []
  completes : startTlsCompletion tag (received (pre ++ [t])) = some (line, rest)
  first : Always (fun es e => commandTag es = some tag → e.answer ≠ [] →
    startTlsCompletion tag (received (es ++ [e])) = none) pre

def ends? [TryFrom Bytes Tag] (pre : List (Step K F)) (t : Step K F) : Option (Tag × Bytes × Bytes) :=
  (commandTag pre).bind fun tag =>
    if t.answer ≠ [] ∧ Always (fun es e => commandTag es = some tag → e.answer ≠ [] →
        startTlsCompletion tag (received (es ++ [e])) = none) pre then
      (startTlsCompletion tag (received (pre ++ [t]))).map (tag, ·)
    else none

theorem ends_iff [TryFrom Bytes Tag] {pre : List (Step K F)} {t : Step K F} {tag : Tag}
    {line rest : Bytes} : Ends pre t tag line rest ↔ ends? pre t = some (tag, line, rest) := by
  rw [ends?]
  constructor
  · intro h
    rw [h.given, Option.bind_some, if_pos ⟨h.reads, h.first⟩, h.completes]
    rfl
  · intro h
    obtain ⟨tag', hgiven, h⟩ := Option.bind_eq_some_iff.mp h
    split at h
    · rename_i hfirst
      obtain ⟨r, hcompletes, hr⟩ := Option.map_eq_some_iff.mp h
      simp only [Prod.mk.injEq] at hr
      obtain ⟨rfl, rfl⟩ := hr
      exact ⟨hgiven, hfirst.1, hcompletes, hfirst.2⟩
    · simp at h

section Run

variable [SaslMechanisms K] [TryFrom String AString] [Fragmentizer F] [TryFrom Bytes Tag]
  [Encoder Command] [Encoder AuthenticateData] {start : ImapSessionOpen K} {f : F}
  {pre : List (Step K F)} {t : Step K F} {a b c : Config (ImapSessionOpen K) F}

omit [Fragmentizer F] in
theorem finish_fails (h : fails t = true) : ((imapSessionOpen K).finish t).due = none := by
  unfold fails at h
  split at h
  · rename_i he
    simp [Coroutine.finish, he]
  · simp at h

theorem plaintext_run (hstart : start.state = .connect) (hstarttls : start.opts.starttls = true)
    (hrun : (imapSessionOpen K).Runs start f pre a) (hno : ∀ t ∈ pre, upgrades t = false) :
    ∀ due, a.due = some due → Plaintext start f pre a due := by
  refine Run.history_under (H := fun t => upgrades t = false)
    (P := fun es a => ∀ due, a.due = some due → Plaintext start f es a due) ?_ ?_ hrun hno
  · intro due hdue
    obtain rfl : Request.nothing = due := Option.some.inj hdue
    refine ⟨rfl, rfl, rfl, ?_⟩
    simp only [Coroutine.start, hstart]
    simp
  · intro es a t b ha hstep hup due hdue
    obtain ⟨due', arg, _, hd, hans, ht, hb⟩ := hstep
    have hopens := plaintext_opens hstarttls (ha due' hd) hans
    rw [← ht, ← hb] at hopens
    cases hopens with
    | goesOn _ _ hplain => exact hplain due hdue
    | upgrades hup' => simp [hup] at hup'
    | fails _ hfails =>
      rw [hb, finish_fails hfails] at hdue
      simp at hdue

/-- The resumes up to the first upgrade, one at a time. -/
theorem opens_run (hstart : start.state = .connect) (hstarttls : start.opts.starttls = true)
    (hrun : (imapSessionOpen K).Runs start f (pre ++ [t]) b) (hno : ∀ t ∈ pre, upgrades t = false) :
    Opens start f pre t b := by
  obtain ⟨a, hpre, due, arg, -, hd, hans, rfl, rfl⟩ := hrun.snoc_inv
  exact plaintext_opens hstarttls (plaintext_run hstart hstarttls hpre hno due hd) hans

omit [SaslMechanisms K] [TryFrom String AString] [Fragmentizer F] [TryFrom Bytes Tag]
  [Encoder Command] [Encoder AuthenticateData] in
theorem exists_first {p : Step K F → Bool} {es : List (Step K F)} (h : ¬ ∀ t ∈ es, p t = false) :
    ∃ pre t post, es = pre ++ t :: post ∧ (∀ t ∈ pre, p t = false) ∧ p t = true := by
  cases hf : es.find? p with
  | none =>
    rw [List.find?_eq_none] at hf
    exact absurd (fun t ht => by simpa using hf t ht) h
  | some t =>
    obtain ⟨ht, pre, post, rfl, hpre⟩ := List.find?_eq_some_iff_append.mp hf
    exact ⟨pre, t, post, rfl, fun x hx => by simpa using hpre x hx, ht⟩

theorem unique_upgrade (hstart : start.state = .connect) (hstarttls : start.opts.starttls = true)
    (hrun : (imapSessionOpen K).Runs start f (pre ++ [t]) b) (hup : upgrades t = true) :
    ∀ e ∈ pre, upgrades e = false := by
  by_contra h
  obtain ⟨es, e, post, rfl, hno, hup'⟩ := exists_first h
  have hsplit : es ++ e :: post ++ [t] = (es ++ [e]) ++ (post ++ [t]) := by simp
  rw [hsplit] at hrun
  obtain ⟨c, hes, hpost⟩ := hrun.split
  cases opens_run hstart hstarttls hes hno with
  | goesOn hup'' => simp [hup'] at hup''
  | upgrades _ _ _ _ _ _ hc =>
    have hlast := secured_run hpost (by rw [hc]; rfl) t (by simp)
    simp [hup] at hlast
  | fails hup'' => simp [hup'] at hup''

/-- A run goes on only behind a resume that did not fail. -/
theorem not_fails (hrun : (imapSessionOpen K).Runs start f (pre ++ [t]) b)
    {es post : List (Step K F)} {e : Step K F} (hpre : pre = es ++ e :: post) : fails e = false := by
  obtain rfl := hpre
  have hsplit : es ++ e :: post ++ [t] = (es ++ [e]) ++ (post ++ [t]) := by simp
  rw [hsplit] at hrun
  obtain ⟨c, hes, hpost⟩ := hrun.split
  obtain ⟨a, -, due, arg, _, -, -, -, hc⟩ := hes.snoc_inv
  cases hfails : fails e with
  | false => rfl
  | true =>
    have hdue : c.due = none := by rw [hc, finish_fails hfails]
    obtain ⟨x, xs, hx⟩ : ∃ x xs, post ++ [t] = x :: xs := by
      cases post with
      | nil => exact ⟨t, [], rfl⟩
      | cons x xs => exact ⟨x, xs ++ [t], rfl⟩
    rw [hx] at hpost
    obtain ⟨d, ⟨due', arg', _, hd, -, -, -⟩, -⟩ := hpost.cons_inv
    simp [hdue] at hd

omit [SaslMechanisms K] [TryFrom String AString] [Fragmentizer F] [Encoder Command]
  [Encoder AuthenticateData] in
theorem commandTag_append {es post : List (Step K F)} {tag : Tag} (h : commandTag es = some tag) :
    commandTag (es ++ post) = some tag := by
  rw [commandTag, List.findSome?_append, ← commandTag, h, Option.some_or]

/-- The end of the exchange is found as long as there was no upgrade. -/
theorem Ends.plain (hstart : start.state = .connect) (hstarttls : start.opts.starttls = true)
    (hrun : (imapSessionOpen K).Runs start f (pre ++ [t]) b) {tag : Tag} {line rest : Bytes}
    (h : Ends pre t tag line rest) : ∀ e ∈ pre, upgrades e = false := by
  by_contra hno
  obtain ⟨es, e, post, rfl, hno, hup⟩ := exists_first hno
  have hsplit : es ++ e :: post ++ [t] = (es ++ [e]) ++ (post ++ [t]) := by simp
  rw [hsplit] at hrun
  obtain ⟨c, hes, -⟩ := hrun.split
  cases opens_run hstart hstarttls hes hno with
  | goesOn hup' => simp [hup] at hup'
  | @upgrades tag' line' _ _ htag hne hl =>
    obtain rfl : tag' = tag := Option.some.inj ((commandTag_append htag).symm.trans h.given)
    have hnone := h.first es e post rfl htag hne
    simp [hl] at hnone
  | fails hup' => simp [hup] at hup'

theorem upgrades_ends (hstart : start.state = .connect) (hstarttls : start.opts.starttls = true)
    (hrun : (imapSessionOpen K).Runs start f (pre ++ [t]) b) (hup : upgrades t = true) :
    ∃ tag line, Ends pre t tag line [] := by
  have hno := unique_upgrade hstart hstarttls hrun hup
  cases opens_run hstart hstarttls hrun hno with
  | goesOn hup' => simp [hup] at hup'
  | fails hup' => simp [hup] at hup'
  | @upgrades tag line _ _ htag hne hl =>
    refine ⟨tag, line, htag, hne, hl, ?_⟩
    intro es e post hpre hgiven hreads
    have hsplit : pre ++ [t] = (es ++ [e]) ++ (post ++ [t]) := by rw [hpre]; simp
    have hgoes := not_fails hrun hpre
    rw [hsplit] at hrun
    obtain ⟨c, hes, -⟩ := hrun.split
    have hno' : ∀ x ∈ es, upgrades x = false := fun x hx => hno x (by rw [hpre]; simp [hx])
    cases opens_run hstart hstarttls hes hno' with
    | goesOn _ _ _ _ hnone => exact hnone tag hgiven hreads
    | upgrades hup' =>
      have hplain := hno e (by rw [hpre]; simp)
      simp [hplain] at hup'
    | fails _ hfails => simp [hgoes] at hfails

end Run

/-! ### The upgrade and the tagged OK -/

/-- A tagged response to the command. -/
def answers (decode : Bytes → Except DecodeMessageError Response) (tag : Tag) (line : Bytes)
    (kind : StatusKind) : Prop :=
  ∃ body, decode line = .ok (.status (.tagged ⟨tag, body⟩)) ∧ body.kind = kind

/-- The upgrade follows a tagged OK with nothing behind it, and a tagged NO or BAD makes
the session fail. -/
structure UpgradesOnOk [TryFrom Bytes Tag] (decode : Bytes → Except DecodeMessageError Response)
    (pre : List (Step K F)) (t : Step K F) : Prop where
  accepted : upgrades t = true → ∃ tag line, Ends pre t tag line [] ∧ answers decode tag line .ok
  refused : ∀ tag line rest kind, Ends pre t tag line rest → answers decode tag line kind →
    kind ≠ .ok → fails t = true

/-- Where nothing came behind the line that ends the exchange, it is a tagged OK. -/
def EndsWithOk [TryFrom Bytes Tag] (decode : Bytes → Except DecodeMessageError Response)
    (pre : List (Step K F)) (t : Step K F) : Prop :=
  ∀ tag line, Ends pre t tag line [] → answers decode tag line .ok

instance (decode : Bytes → Except DecodeMessageError Response) (tag : Tag) (line : Bytes)
    (kind : StatusKind) : Decidable (answers decode tag line kind) :=
  match h : decode line with
  | .ok (.status (.tagged tagged)) =>
    decidable_of_iff (tagged.tag = tag ∧ tagged.body.kind = kind) <| by
      obtain ⟨tag', body⟩ := tagged
      rw [answers, h]
      constructor
      · intro hx
        obtain ⟨rfl, hkind⟩ := hx
        exact ⟨body, rfl, hkind⟩
      · intro hx
        obtain ⟨body', he, hkind⟩ := hx
        simp only [Except.ok.injEq, Response.status.injEq, Status.tagged.injEq, Tagged.mk.injEq] at he
        rw [he.2]
        exact ⟨he.1, hkind⟩
  | .ok (.status (.untagged _)) | .ok (.status (.bye _)) | .ok (.data _)
  | .ok (.commandContinuationRequest _) | .error _ => isFalse <| by
      intro hx
      obtain ⟨body, he, -⟩ := hx
      simp [h] at he

theorem endsWithOk_iff [TryFrom Bytes Tag] {decode : Bytes → Except DecodeMessageError Response}
    {pre : List (Step K F)} {t : Step K F} : EndsWithOk decode pre t ↔
      ∀ e ∈ ends? pre t, e.2.2 = [] → answers decode e.1 e.2.1 .ok := by
  constructor
  · intro h e he hrest
    obtain ⟨tag, line, rest⟩ := e
    exact h tag line (ends_iff.mpr (by rw [he, ← hrest]))
  · intro h tag line hends
    exact h (tag, line, []) (ends_iff.mp hends) rfl

instance [TryFrom Bytes Tag] (decode : Bytes → Except DecodeMessageError Response)
    (pre : List (Step K F)) (t : Step K F) : Decidable (EndsWithOk decode pre t) :=
  decidable_of_iff _ endsWithOk_iff.symm

theorem answers_kind {decode : Bytes → Except DecodeMessageError Response} {tag : Tag} {line : Bytes}
    {kind kind' : StatusKind} (h : answers decode tag line kind) (h' : answers decode tag line kind') :
    kind = kind' := by
  obtain ⟨body, he, rfl⟩ := h
  obtain ⟨body', he', rfl⟩ := h'
  rw [he] at he'
  simp only [Except.ok.injEq, Response.status.injEq, Status.tagged.injEq, Tagged.mk.injEq] at he'
  rw [he'.2]

theorem upgradesOnOk_iff [SaslMechanisms K] [TryFrom String AString] [Fragmentizer F]
    [TryFrom Bytes Tag] [Encoder Command] [Encoder AuthenticateData]
    (decode : Bytes → Except DecodeMessageError Response) {start : ImapSessionOpen K} {f : F}
    {pre : List (Step K F)} {t : Step K F} {b : Config (ImapSessionOpen K) F}
    (hstart : start.state = .connect) (hstarttls : start.opts.starttls = true)
    (hrun : (imapSessionOpen K).Runs start f (pre ++ [t]) b) :
    UpgradesOnOk decode pre t ↔ EndsWithOk decode pre t := by
  constructor
  · intro h tag line hends
    have hno := hends.plain hstart hstarttls hrun
    have hup : upgrades t = true := by
      cases opens_run hstart hstarttls hrun hno with
      | goesOn _ _ _ _ hnone =>
        have hl := hnone tag hends.given hends.reads
        simp [hends.completes] at hl
      | upgrades hup => exact hup
      | fails _ _ _ hl => exact absurd rfl (hl tag hends.given hends.reads line [] hends.completes)
    obtain ⟨tag', line', hends', hok⟩ := h.accepted hup
    obtain rfl : tag' = tag := Option.some.inj (hends'.given.symm.trans hends.given)
    have hline := hends'.completes.symm.trans hends.completes
    simp only [Option.some.injEq, Prod.mk.injEq, and_true] at hline
    exact hline ▸ hok
  · intro h
    refine ⟨fun hup => ?_, fun tag line rest kind hends hanswers hkind => ?_⟩
    · obtain ⟨tag, line, hends⟩ := upgrades_ends hstart hstarttls hrun hup
      exact ⟨tag, line, hends, h tag line hends⟩
    · have hno := hends.plain hstart hstarttls hrun
      cases opens_run hstart hstarttls hrun hno with
      | goesOn _ _ _ _ hnone =>
        have hl := hnone tag hends.given hends.reads
        simp [hends.completes] at hl
      | @upgrades tag' line' _ _ htag _ hl =>
        obtain rfl : tag' = tag := Option.some.inj (htag.symm.trans hends.given)
        have hrest : rest = [] := by
          have he := hends.completes.symm.trans hl
          simp only [Option.some.injEq, Prod.mk.injEq] at he
          exact he.2
        have hok := h tag' line (hrest ▸ hends)
        exact absurd (answers_kind hanswers hok) hkind
      | fails _ hfails => exact hfails

theorem upgradesOnOk_run [SaslMechanisms K] [TryFrom String AString] [Fragmentizer F]
    [TryFrom Bytes Tag] [Encoder Command] [Encoder AuthenticateData]
    (decode : Bytes → Except DecodeMessageError Response) {start : ImapSessionOpen K} {f : F}
    {es pre post : List (Step K F)} {t : Step K F} {b : Config (ImapSessionOpen K) F}
    (hstart : start.state = .connect) (hstarttls : start.opts.starttls = true)
    (hrun : (imapSessionOpen K).Runs start f es b) (hes : es = pre ++ t :: post) :
    UpgradesOnOk decode pre t ↔ EndsWithOk decode pre t := by
  have hsplit : es = (pre ++ [t]) ++ post := by rw [hes]; simp
  rw [hsplit] at hrun
  obtain ⟨c, hpre, -⟩ := hrun.split
  exact upgradesOnOk_iff decode hstart hstarttls hpre

end ImapSessionOpen

open ImapSessionOpen

/-- In a run of a session with STARTTLS an upgrade follows nothing but a tagged OK, and
a refusal makes the session fail, exactly when the line that starts with the tag, as
long as nothing came with it, is a tagged OK. -/
theorem starttls_refusal_iff {K F : Type} [SaslMechanisms K] [TryFrom String AString]
    [Fragmentizer F] [TryFrom Bytes Tag] [Encoder Command] [Encoder AuthenticateData]
    (decode : Bytes → Except DecodeMessageError Response) {transport : ImapSessionTransport}
    {sasl : Option Sasl} {opts : ImapSessionOpenOptions} {f : F} {es : List (Step K F)}
    {b : Config (ImapSessionOpen K) F} (hstarttls : opts.starttls = true)
    (hrun : (imapSessionOpen K).Runs (.new transport sasl opts) f es b) :
    Always (UpgradesOnOk decode) es ↔ Always (EndsWithOk decode) es := by
  constructor
  · intro h pre t post hes
    exact (upgradesOnOk_run decode rfl hstarttls hrun hes).mp (h pre t post hes)
  · intro h pre t post hes
    exact (upgradesOnOk_run decode rfl hstarttls hrun hes).mpr (h pre t post hes)

section Concrete

open Concrete

def statusTable : List (Bytes × Response) :=
  [(ascii "A1 OK go\r\n", .status (.tagged ⟨⟨ascii "A1"⟩, ⟨.ok, none, "go"⟩⟩)),
    (ascii "A1 NO no TLS\r\n", .status (.tagged ⟨⟨ascii "A1"⟩, ⟨.no, none, "no TLS"⟩⟩))]

def securing : ImapSessionOpen Scripted :=
  .new (.tcp "example.org" 143) none ⟨true, none, none⟩

/-- The session up to the end of the STARTTLS exchange, which is answered with `line`. -/
def playStartTls (line : Bytes) :=
  (imapSessionOpen Scripted).play (Coroutine.start securing
    (LineFragmentizer.empty : LineFragmentizer (decodeTable statusTable)))
    ([none, none, some (ascii "* OK ready\r\n"), some (ascii "A1"), none, some line].map (·, ()))

theorem starttls_refusal_ok : ∃ es b, playStartTls (ascii "A1 OK go\r\n") = some (es, b) ∧
    Always (UpgradesOnOk (decodeTable statusTable)) es := by
  have hrun : (playStartTls (ascii "A1 OK go\r\n")).any (fun r =>
      decide (Always (EndsWithOk (decodeTable statusTable)) r.1)) = true := by decide +kernel
  obtain ⟨⟨es, b⟩, hplay, hok⟩ := (Option.any_eq_true _ _).mp hrun
  have hiff := starttls_refusal_iff (decodeTable statusTable) rfl (Coroutine.play_run _ hplay)
  exact ⟨es, b, hplay, hiff.mpr (of_decide_eq_true hok)⟩

theorem starttls_refused_upgrades :
    ¬ ∀ (es : List (Step Scripted (LineFragmentizer (decodeTable statusTable))))
        (b : Config (ImapSessionOpen Scripted) (LineFragmentizer (decodeTable statusTable))),
        (imapSessionOpen Scripted).Runs (.new (.tcp "example.org" 143) none ⟨true, none, none⟩)
          LineFragmentizer.empty es b → Always (UpgradesOnOk (decodeTable statusTable)) es := by
  intro h
  have hrun : (playStartTls (ascii "A1 NO no TLS\r\n")).any (fun r =>
      decide (¬ Always (EndsWithOk (decodeTable statusTable)) r.1)) = true := by decide +kernel
  obtain ⟨⟨es, b⟩, hplay, hno⟩ := (Option.any_eq_true _ _).mp hrun
  have hes := Coroutine.play_run _ hplay
  refine of_decide_eq_true hno fun pre t post hsplit => ?_
  exact (upgradesOnOk_run _ rfl rfl hes hsplit).mp (h es b hes pre t post hsplit)

end Concrete
end IoImap
