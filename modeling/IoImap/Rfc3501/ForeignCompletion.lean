import IoImap.Rfc3501.Delivery

/-!
# Completions of other commands

`ImapSend` ends an exchange on a tagged status of its own command only; the
streaming FETCH coroutines end on the first tagged status, whatever its tag.
-/

namespace IoImap
open Fragmentizer StreamsBodies

section Tags

variable {S Y R F : Type}

/-- The tag that the caller answered with. -/
def commandTag [TryFrom Bytes Tag] (es : List (Turn S F Unit Y R)) : Option Tag :=
  es.findSome? fun t =>
    if t.due = .tag then t.arg.bind fun bytes => (TryFrom.tryFrom (β := Tag) bytes).toOption else none

def completionTag [Fragmentizer F] (f : F) : Option Tag :=
  match decodeMessage f with
  | .ok (.status (.tagged tagged)) => some tagged.tag
  | _ => none

/-- The tag of the first tagged status in the reply that `wire` starts with. -/
def replyTag [Fragmentizer F] (f : F) (wire : Bytes) : Option Tag :=
  (reply f wire).bind fun r => completionTag r.1

end Tags

def taggedResult (tagged : Tagged) : Except BodyStreamError Unit :=
  match tagged.body.kind with
  | .ok => .ok ()
  | .no => .error (.no tagged.body.text)
  | .bad => .error (.bad tagged.body.text)

/-- What a tagged status on a line of its own ends a reply with. -/
def lineResult (line : Bytes) (tagged : Tagged) : Except BodyStreamError Unit :=
  if line.length > MAX_LINE_LEN then .error (.lineTooLong MAX_LINE_LEN) else taggedResult tagged

/-- A tagged status to a fragmentizer between two messages. -/
structure TaggedLine {F : Type} [Fragmentizer F] (f : F) (line : Bytes) (tagged : Tagged) : Prop where
  whole : splitLine line = some (line, [])
  decodes : ∃ f', progress (enqueueBytes f line) = (some (.line none), f') ∧
    decodeMessage f' = .ok (.status (.tagged tagged))

/-- A run that completes on `wire`, of which the connection was not closed before
its end. -/
structure Completes {S Y E F : Type} [StreamsBodies S] [Fragmentizer F]
    (c : Coroutine S Unit Y (Except E Unit)) (s₀ : S) (f : F) (wire : Bytes)
    (es : List (Turn S F Unit Y (Except E Unit))) (pieces : List Bytes) (result : Except E Unit) :
    Prop where
  run : ∃ b, c.Runs s₀ f es b
  served : List.Forall₂ Turn.Takes es pieces
  ends : ∃ init t, es = init ++ [t] ∧ t.out = .complete result ∧ phase t.before ≠ .command ∧
    ∃ rest, wire = pieces.flatten ++ rest ∧ (t.arg = some [] → rest = [])

section Insertion

variable {S Y E F σ T : Type} [StreamsBodies S] [Fragmentizer F]
  {c : Coroutine S Unit Y (Except E Unit)} {i : Intake σ T E} {memory : S → σ} {told : Y → List T}
  {byTagged : Except E Unit → Bool} {s₀ : S} {f f' : F} {wire pre line post : Bytes} {ts : List T}
  {m : σ} {tagged : Tagged} {es fs : List (Turn S F Unit Y (Except E Unit))}
  {pieces : List Bytes} {result : Except E Unit}

theorem lineResult_ne (line : Bytes) (tagged : Tagged) :
    lineResult line tagged ≠ .error .missingTagged ∧ lineResult line tagged ≠ .error .shortBody := by
  unfold lineResult taggedResult
  split
  · simp
  · split <;> simp

theorem decodeTerminal_of_tagged (h : decodeMessage f = .ok (.status (.tagged tagged))) :
    BodyStream.decodeTerminal f = some (taggedResult tagged) := by
  unfold BodyStream.decodeTerminal taggedResult
  rw [h]
  cases hk : tagged.body.kind <;> simp [hk]

theorem TaggedLine.outcome (h : TaggedLine f line tagged) (i : Intake σ T E) (m : σ) (post : Bytes) :
    i.outcome m f (line ++ post) = ([], some ((lineResult line tagged).mapError i.error)) := by
  obtain ⟨f', hp, hd⟩ := h.decodes
  have hl := splitLine_append h.whole post
  unfold lineResult
  by_cases hlen : line.length > MAX_LINE_LEN
  · rw [if_pos hlen]
    exact Intake.outcome_tooLong hl hlen
  · rw [if_neg hlen]
    exact Intake.outcome_terminal hl (Nat.le_of_not_lt hlen) hp (decodeTerminal_of_tagged hd)

/-- A completed run told what its octets come to, unless it lost its connection. -/
theorem Completes.outcome (hc : BodyStreaming c byTagged) (hi : BodyIntake c i memory told)
    (h0 : Awaits s₀ .nothing) (h : Completes c s₀ f wire es pieces result) :
    i.outcomeAt (place memory s₀ f) wire = (tokens i told es pieces, some result) ∨
      ((result = .error (i.error .missingTagged) ∨ result = .error (i.error .shortBody)) ∧
        (i.outcomeAt (place memory s₀ f) wire).2 = none) := by
  obtain ⟨init, t, rfl, hout, hphase, rest, rfl, hrest⟩ := h.ends
  obtain ⟨b, hrun⟩ := h.run
  by_cases hmore : t.arg = some []
  · right
    obtain rfl := hrest hmore
    obtain ⟨hlost, hnone⟩ := hi.unsettled hc h0 hrun h.served hphase hmore
    rw [hout] at hlost
    rw [List.append_nil]
    exact ⟨by simpa using hlost, hnone⟩
  · left
    exact hi.settled hc h0 hrun h.served hout hphase hmore rest

/-- Between two messages, a tagged status makes no difference exactly when what comes
behind it brings nothing and ends the reply in the same way. -/
theorem insertion_iff (hc : BodyStreaming c byTagged) (hi : BodyIntake c i memory told)
    (h0 : Awaits s₀ .nothing) (hpre : i.Leads (place memory s₀ f) pre ts ⟨m, f', [], none⟩)
    (hline : TaggedLine f' line tagged) {gs : List (Turn S F Unit Y (Except E Unit))}
    {qs : List Bytes} {result' : Except E Unit}
    (h : Completes c s₀ f (pre ++ post) es pieces result)
    (h' : Completes c s₀ f (pre ++ (line ++ post)) gs qs result') :
    (tokens i told es pieces = tokens i told gs qs ∧ result = result') ↔
      i.outcome m f' post = ([], some ((lineResult line tagged).mapError i.error)) := by
  have hwith : i.outcomeAt (place memory s₀ f) (pre ++ (line ++ post)) =
      (ts, some ((lineResult line tagged).mapError i.error)) := by
    rw [hpre (line ++ post)]
    show Intake.tells ts (i.outcome m f' (line ++ post)) = _
    rw [hline.outcome, Intake.tells, List.append_nil]
  have hwithout : i.outcomeAt (place memory s₀ f) (pre ++ post) =
      Intake.tells ts (i.outcome m f' post) := hpre post
  obtain ⟨rfl, rfl⟩ : ts = tokens i told gs qs ∧
      (lineResult line tagged).mapError i.error = result' := by
    rcases h'.outcome hc hi h0 with hout | ⟨-, hnone⟩
    · rw [hwith] at hout
      exact ⟨congrArg Prod.fst hout, Option.some.inj (congrArg Prod.snd hout)⟩
    · rw [hwith] at hnone
      simp at hnone
  rcases h.outcome hc hi h0 with hout | ⟨hlost, hnone⟩
  · rw [hwithout] at hout
    have hfst : tokens i told gs qs ++ (i.outcome m f' post).1 = tokens i told es pieces :=
      congrArg Prod.fst hout
    have hsnd : (i.outcome m f' post).2 = some result := congrArg Prod.snd hout
    constructor
    · intro hx
      obtain ⟨hsame, rfl⟩ := hx
      rw [hsame] at hfst
      exact Prod.ext (List.append_right_eq_self.mp hfst) hsnd
    · intro hx
      rw [hx] at hfst hsnd
      rw [List.append_nil] at hfst
      exact ⟨hfst.symm, (Option.some.inj hsnd).symm⟩
  · constructor
    · intro hx
      obtain ⟨-, rfl⟩ := hx
      have hne := lineResult_ne line tagged
      have hinj : ∀ err, (lineResult line tagged).mapError i.error = .error (i.error err) →
          lineResult line tagged = .error err := by
        intro err he
        cases hl : lineResult line tagged with
        | ok u => simp [hl, Except.mapError] at he
        | error e =>
          rw [hl, Except.mapError, Except.error.injEq] at he
          rw [hi.error_injective he]
      rcases hlost with hl | hl
      · exact absurd (hinj _ hl) hne.1
      · exact absurd (hinj _ hl) hne.2
    · intro hx
      rw [hwithout, hx] at hnone
      simp [Intake.tells] at hnone

/-- Behind the end of the reply nothing makes a difference. -/
theorem insertion_ended (hc : BodyStreaming c byTagged) (hi : BodyIntake c i memory told)
    (h0 : Awaits s₀ .nothing) {r : Except E Unit}
    (hpre : i.Settles (place memory s₀ f) pre ts r) {gs : List (Turn S F Unit Y (Except E Unit))}
    {qs : List Bytes} {result' : Except E Unit}
    (h : Completes c s₀ f (pre ++ post) es pieces result)
    (h' : Completes c s₀ f (pre ++ (line ++ post)) gs qs result') :
    tokens i told es pieces = tokens i told gs qs ∧ result = result' := by
  have hsettled : ∀ {w : Bytes} {es : List (Turn S F Unit Y (Except E Unit))} {pieces : List Bytes}
      {result : Except E Unit}, Completes c s₀ f (pre ++ w) es pieces result →
      ts = tokens i told es pieces ∧ r = result := by
    intro w es pieces result hw
    rcases hw.outcome hc hi h0 with hout | ⟨-, hnone⟩
    · rw [hpre w] at hout
      exact ⟨congrArg Prod.fst hout, Option.some.inj (congrArg Prod.snd hout)⟩
    · rw [hpre w] at hnone
      simp at hnone
  obtain ⟨hts, hr⟩ := hsettled h
  obtain ⟨hts', hr'⟩ := hsettled h'
  exact ⟨hts.symm.trans hts', hr.symm.trans hr'⟩

end Insertion

/-! ### What stands behind an inserted status -/

/-- The octets behind a status on a line `late` end as it does, and bring nothing in front of
that: no line up to the first one that terminates the reply announces a literal, unless an empty
one of which nothing is told, and that line is a tagged status of the same kind and, if it is not
an OK, with the same text. Behind a line that is too long it is one that is too long. -/
inductive EndsAlike {F σ : Type} [Fragmentizer F] (silent : σ → σ → Prop) (late : Bytes)
    (tagged : Tagged) : σ → F → Bytes → Prop where
  | status {s : σ} {f f' : F} {wire line rest : Bytes} {t : Tagged} (hlate : late.length ≤ MAX_LINE_LEN)
      (hl : splitLine wire = some (line, rest)) (hlen : line.length ≤ MAX_LINE_LEN)
      (hp : progress (enqueueBytes f line) = (some (.line none), f'))
      (hd : decodeMessage f' = .ok (.status (.tagged t))) (hkind : t.body.kind = tagged.body.kind)
      (htext : tagged.body.kind ≠ .ok → t.body.text = tagged.body.text) :
      EndsAlike silent late tagged s f wire
  | tooLong {s : σ} {f : F} {wire line rest : Bytes} (hlate : late.length > MAX_LINE_LEN)
      (hl : splitLine wire = some (line, rest)) (hlen : line.length > MAX_LINE_LEN) :
      EndsAlike silent late tagged s f wire
  | endless {s : σ} {f : F} {wire : Bytes} (hlate : late.length > MAX_LINE_LEN)
      (hl : splitLine wire = none) (hlen : wire.length > MAX_LINE_LEN) :
      EndsAlike silent late tagged s f wire
  | passes {s : σ} {f f' : F} {wire line rest : Bytes} (hl : splitLine wire = some (line, rest))
      (hlen : line.length ≤ MAX_LINE_LEN)
      (hp : progress (enqueueBytes f line) = (some (.line none), f'))
      (htagged : ∀ t, decodeMessage f' ≠ .ok (.status (.tagged t)))
      (hbye : ∀ bye, decodeMessage f' ≠ .ok (.status (.bye bye)))
      (h : EndsAlike silent late tagged s f' rest) : EndsAlike silent late tagged s f wire
  | continues {s : σ} {f f' : F} {wire line rest : Bytes} {info : Option FragmentInfo}
      (hl : splitLine wire = some (line, rest)) (hlen : line.length ≤ MAX_LINE_LEN)
      (hp : progress (enqueueBytes f line) = (info, f')) (hi : ∀ a, info ≠ some (.line a))
      (h : EndsAlike silent late tagged s f' rest) : EndsAlike silent late tagged s f wire
  | empty {s s' : σ} {f f' : F} {wire line rest : Bytes} {a : LiteralAnnouncement}
      (hl : splitLine wire = some (line, rest)) (hlen : line.length ≤ MAX_LINE_LEN)
      (hp : progress (enqueueBytes f line) = (some (.line (some a)), f')) (ha : a.length = 0)
      (hs : silent s s') (h : EndsAlike silent late tagged s' (skipMessage f') rest) :
      EndsAlike silent late tagged s f wire

/-- Of which literals, empty ones, an intake tells nothing; what it refuses a literal with is
not how a line ends a reply. -/
structure Intake.Silent {σ T E : Type} (i : Intake σ T E) (silent : σ → σ → Prop) : Prop where
  accepts : ∀ {s s' line a}, silent s s' → i.accept s line a = .ok ([], s')
  close : ∀ {s s'}, silent s s' → i.close = []
  only : ∀ {s s' line a}, i.accept s line a = .ok ([], s') → i.close = [] → silent s s'
  refuses : ∀ {s line a err}, i.accept s line a = .error err → ∀ e, err ≠ i.error e

section EndsAlike

variable {F σ T E : Type} [Fragmentizer F] {i : Intake σ T E} {silent : σ → σ → Prop} {late : Bytes}
  {tagged t : Tagged} {s : σ} {f : F} {wire : Bytes}

theorem taggedResult_eq : taggedResult t = taggedResult tagged ↔
    t.body.kind = tagged.body.kind ∧ (tagged.body.kind ≠ .ok → t.body.text = tagged.body.text) := by
  unfold taggedResult
  cases ht : t.body.kind <;> cases htagged : tagged.body.kind <;> simp

theorem decodeTerminal_eq_none : BodyStream.decodeTerminal f = none ↔
    (∀ t, decodeMessage f ≠ .ok (.status (.tagged t))) ∧
      ∀ bye, decodeMessage f ≠ .ok (.status (.bye bye)) := by
  unfold BodyStream.decodeTerminal
  rcases decodeMessage f with err | (cr | data | (u | t | bye))
  case ok.status.tagged => cases hk : t.body.kind <;> simp [hk]
  all_goals simp

/-- A line that ends the reply with the result of the status is a status like it. -/
theorem decodeTerminal_lineResult (h : BodyStream.decodeTerminal f = some (lineResult late tagged)) :
    late.length ≤ MAX_LINE_LEN ∧ ∃ t, decodeMessage f = .ok (.status (.tagged t)) ∧
      t.body.kind = tagged.body.kind ∧ (tagged.body.kind ≠ .ok → t.body.text = tagged.body.text) := by
  have hlate : late.length ≤ MAX_LINE_LEN := by
    by_contra hlong
    rw [lineResult, if_pos (Nat.lt_of_not_le hlong)] at h
    unfold BodyStream.decodeTerminal at h
    split at h
    · split at h <;> simp at h
    · simp at h
    · simp at h
  rw [lineResult, if_neg (Nat.not_lt.mpr hlate)] at h
  refine ⟨hlate, ?_⟩
  rcases hd : decodeMessage f with err | (cr | data | (u | t | bye))
  case ok.status.tagged =>
    rw [decodeTerminal_of_tagged hd, Option.some.injEq, taggedResult_eq] at h
    exact ⟨t, rfl, h⟩
  case ok.status.bye =>
    unfold BodyStream.decodeTerminal at h
    rw [hd, Option.some.injEq] at h
    unfold taggedResult at h
    split at h <;> simp at h
  all_goals
    unfold BodyStream.decodeTerminal at h
    simp [hd] at h

theorem ended_eq_iff (hinj : Function.Injective i.error) {r r' : Except BodyStreamError Unit} :
    i.ended r = ([], some (r'.mapError i.error)) ↔ r = r' := by
  constructor
  · intro h
    have hmap : r.mapError i.error = r'.mapError i.error := Option.some.inj (congrArg Prod.snd h)
    cases r <;> cases r' <;> simp_all [Except.mapError, hinj.eq_iff]
  · rintro rfl
    rfl

theorem lineResult_tooLong : .error (.lineTooLong MAX_LINE_LEN) = lineResult late tagged ↔
    late.length > MAX_LINE_LEN := by
  unfold lineResult taggedResult
  split
  · simp [*]
  · split <;> simp [*]

/-- What ends without a token and as the status does ends alike. -/
theorem endsAlike_of_outcome (hi : i.Silent silent) (hinj : Function.Injective i.error)
    (h : i.outcome s f wire = ([], some ((lineResult late tagged).mapError i.error))) :
    EndsAlike silent late tagged s f wire := by
  fun_induction Intake.outcome i s f wire with
  | case1 s f wire hl hlen =>
    exact .endless (lineResult_tooLong.mp ((ended_eq_iff hinj).mp h)) hl hlen
  | case2 s f wire hl hlen => simp at h
  | case3 s f wire line rest hl hlen =>
    exact .tooLong (lineResult_tooLong.mp ((ended_eq_iff hinj).mp h)) hl hlen
  | case4 s f wire line rest hl hlen a f' hp err ha =>
    have hsnd : Except.error err = (lineResult late tagged).mapError i.error :=
      Option.some.inj (congrArg Prod.snd h)
    cases hr : lineResult late tagged with
    | ok u => simp [hr, Except.mapError] at hsnd
    | error e =>
      rw [hr, Except.mapError, Except.error.injEq] at hsnd
      exact absurd hsnd (hi.refuses ha e)
  | case5 s f wire line rest hl hlen a f' hp ts s' ha hle ih =>
    have hfst : ts ++ ((rest.take a.length).map i.octet ++ i.close) ++
        (i.outcome s' (skipMessage f') (rest.drop a.length)).1 = [] := congrArg Prod.fst h
    simp only [List.append_eq_nil_iff, List.map_eq_nil_iff] at hfst
    obtain ⟨⟨rfl, hoctets, hclose⟩, hnone⟩ := hfst
    have hzero : a.length = 0 := by
      have hlength := congrArg List.length hoctets
      rw [List.length_take_of_le hle] at hlength
      exact hlength
    have hsnd : (i.outcome s' (skipMessage f') (rest.drop a.length)).2 =
        some ((lineResult late tagged).mapError i.error) := congrArg Prod.snd h
    have hrest := ih (Prod.ext hnone hsnd)
    rw [hzero, List.drop_zero] at hrest
    exact .empty hl (Nat.le_of_not_lt hlen) hp hzero (hi.only ha hclose) hrest
  | case6 s f wire line rest hl hlen a f' hp ts s' ha hle => simp at h
  | case7 s f wire line rest hl hlen f' hp result hd =>
    obtain rfl := (ended_eq_iff hinj).mp h
    obtain ⟨hlate, t, ht, hkind, htext⟩ := decodeTerminal_lineResult hd
    exact .status hlate hl (Nat.le_of_not_lt hlen) hp ht hkind htext
  | case8 s f wire line rest hl hlen f' hp hd ih =>
    obtain ⟨htagged, hbye⟩ := decodeTerminal_eq_none.mp hd
    exact .passes hl (Nat.le_of_not_lt hlen) hp htagged hbye (ih h)
  | case9 s f wire line rest hl hlen info f' hliteral hplain hp ih =>
    refine .continues hl (Nat.le_of_not_lt hlen) hp (fun a ha => ?_) (ih h)
    cases a with
    | none => exact hplain ha
    | some a => exact hliteral a ha

theorem EndsAlike.outcome (hi : i.Silent silent) (h : EndsAlike silent late tagged s f wire) :
    i.outcome s f wire = ([], some ((lineResult late tagged).mapError i.error)) := by
  induction h with
  | status hlate hl hlen hp hd hkind htext =>
    rw [Intake.outcome_terminal hl hlen hp (decodeTerminal_of_tagged hd), lineResult,
      if_neg (Nat.not_lt.mpr hlate), taggedResult_eq.mpr ⟨hkind, htext⟩]
    rfl
  | tooLong hlate hl hlen =>
    rw [Intake.outcome_tooLong hl hlen, ← lineResult_tooLong.mpr hlate]
    rfl
  | endless hlate hl hlen =>
    rw [Intake.outcome_none hl, if_pos hlen, ← lineResult_tooLong.mpr hlate]
    rfl
  | passes hl hlen hp htagged hbye _ ih =>
    rw [Intake.outcome_passes hl hlen hp (decodeTerminal_eq_none.mpr ⟨htagged, hbye⟩), ih]
  | continues hl hlen hp hi' _ ih => rw [Intake.outcome_continues hl hlen hp hi', ih]
  | empty hl hlen hp ha hs _ ih =>
    rw [Intake.outcome_literal hl hlen hp (hi.accepts hs), Intake.tells_nil, Intake.body, ha,
      if_pos (Nat.zero_le _), List.drop_zero, ih, hi.close hs]
    rfl

theorem outcome_eq_iff (hi : i.Silent silent) (hinj : Function.Injective i.error) :
    i.outcome s f wire = ([], some ((lineResult late tagged).mapError i.error)) ↔
      EndsAlike silent late tagged s f wire :=
  ⟨endsAlike_of_outcome hi hinj, EndsAlike.outcome hi⟩

end EndsAlike

/-- When completions of other commands do not end a streaming FETCH started in `s₀`. -/
structure ForeignCompletions {S Y E σ T : Type} [StreamsBodies S] [TryFrom Bytes Tag]
    (c : Coroutine S Unit Y (Except E Unit)) (byTagged : Except E Unit → Bool)
    (i : Intake σ T E) (silent : σ → σ → Prop) (memory : S → σ) (told : Y → List T) (s₀ : S) (F : Type)
    [Fragmentizer F] : Prop where
  /-- A tagged status that completes the run is one of its command exactly when the
  first tagged status of the reply is. -/
  ends : ∀ (f : F) es t b result wire rest, c.Runs s₀ f (es ++ [t]) b → Served (es ++ [t]) wire rest →
    t.out = .complete result → byTagged result = true →
    (completionTag b.frag = commandTag (es ++ [t]) ↔ replyTag f wire = commandTag (es ++ [t]))
  /-- A tagged status of another command, inserted between two messages, changes nothing exactly
  when what comes behind it brings nothing and ends the reply as it does. -/
  inserted : ∀ (f f' : F) pre line post m ts tagged es pieces result es' pieces' result',
    i.Leads (place memory s₀ f) pre ts ⟨m, f', [], none⟩ → TaggedLine f' line tagged →
    Completes c s₀ f (pre ++ post) es pieces result →
    Completes c s₀ f (pre ++ (line ++ post)) es' pieces' result' →
    some tagged.tag ≠ commandTag es' →
    ((tokens i told es pieces = tokens i told es' pieces' ∧ result = result') ↔
      EndsAlike silent line tagged m f' post)
  /-- Behind the reply it changes nothing. -/
  behind : ∀ (f : F) pre line post ts ended es pieces result es' pieces' result',
    i.Settles (place memory s₀ f) pre ts ended →
    Completes c s₀ f (pre ++ post) es pieces result →
    Completes c s₀ f (pre ++ (line ++ post)) es' pieces' result' →
    tokens i told es pieces = tokens i told es' pieces' ∧ result = result'

theorem BodyIntake.foreignCompletions {S Y E σ T F : Type} [StreamsBodies S] [Fragmentizer F]
    [TryFrom Bytes Tag] {c : Coroutine S Unit Y (Except E Unit)} {byTagged : Except E Unit → Bool}
    {i : Intake σ T E} {memory : S → σ} {told : Y → List T} {s₀ : S}
    (hc : BodyStreaming c byTagged) (hi : BodyIntake c i memory told) {silent : σ → σ → Prop}
    (hsilent : i.Silent silent) (hphase : phase s₀ = .command) (hstream : stream s₀ = .new) :
    ForeignCompletions c byTagged i silent memory told s₀ F where
  ends f es t b result wire rest h hserved ht htagged := by
    have hposition : position s₀ f = ⟨f, [], none⟩ := by
      rw [position, hphase, hstream]
      rfl
    have hreply := hc.reply_of_runs (awaits_new hphase hstream) hposition h hserved ht htagged
    rw [replyTag, hreply, Option.bind_some]
  inserted f f' pre line post m ts tagged es pieces result es' pieces' result' hpre hline h h' _ :=
    (insertion_iff hc hi (awaits_new hphase hstream) hpre hline h h').trans
      (outcome_eq_iff hsilent hi.error_injective)
  behind f pre line post ts ended es pieces result es' pieces' result' hpre h h' :=
    insertion_ended hc hi (awaits_new hphase hstream) hpre h h'

namespace ImapMessageFetchStream

/-- Of an empty literal nothing is told, and the second literal is refused. -/
def silent (seen seen' : Bool) : Prop := seen = false ∧ seen' = true

theorem intake_silent : intake.Silent silent where
  accepts h := by
    obtain ⟨rfl, rfl⟩ := h
    rfl
  close _ := rfl
  only {s s' line a} h _ := by
    cases s <;> simp_all [intake, silent]
  refuses {s line a err} h e := by
    cases s <;> simp [intake] at h
    subst h
    cases e <;> simp [intake, ImapMessageFetchStreamError.of]

end ImapMessageFetchStream

namespace ImapMessageFetchStreamBatch

/-- Every literal starts a message. -/
def silent (_ _ : Nat → Nat) : Prop := False

theorem intake_silent : intake.Silent silent where
  accepts h := h.elim
  close h := h.elim
  only {s s' line a} h _ := by
    unfold intake at h
    dsimp only at h
    split at h
    · simp at h
    · split at h <;> simp at h
  refuses {s line a err} h e := by
    unfold intake at h ⊢
    dsimp only at h ⊢
    split at h
    · cases e <;> simp_all [ImapMessageFetchStreamBatchError.of, eq_comm]
    · split at h
      · cases e <;> simp_all [ImapMessageFetchStreamBatchError.of, eq_comm]
      · simp at h

end ImapMessageFetchStreamBatch

/-- The streaming FETCH coroutines end on the first tagged status of their reply. -/
theorem fetch_stream_foreign_completions {F : Type} [Fragmentizer F] [TryFrom Bytes Tag]
    [Encoder Command] :
    (∀ (id : NonZeroU32) (uid : Bool),
      ForeignCompletions imapMessageFetchStream ImapMessageFetchStreamError.byTagged
        ImapMessageFetchStream.intake ImapMessageFetchStream.silent ImapMessageFetchStream.memory
        ImapMessageFetchStream.told (.new id uid) F) ∧
    ∀ (sequenceSet : SequenceSet) (opts : ImapMessageFetchStreamBatchOptions),
      ForeignCompletions imapMessageFetchStreamBatch ImapMessageFetchStreamBatchError.byTagged
        ImapMessageFetchStreamBatch.intake ImapMessageFetchStreamBatch.silent
        ImapMessageFetchStreamBatch.maxLen ImapMessageFetchStreamBatch.told (.new sequenceSet opts) F :=
  ⟨fun _ _ => ImapMessageFetchStream.bodyIntake.foreignCompletions
      ImapMessageFetchStream.bodyStreaming ImapMessageFetchStream.intake_silent rfl rfl,
    fun _ _ => ImapMessageFetchStreamBatch.bodyIntake.foreignCompletions
      ImapMessageFetchStreamBatch.bodyStreaming ImapMessageFetchStreamBatch.intake_silent rfl rfl⟩

section Concrete

open Concrete

def lateMessages : List (Bytes × Response) :=
  [(ascii "A0 OK late\r\n", .status (.tagged ⟨⟨ascii "A0"⟩, ⟨.ok, none, "late"⟩⟩)),
    (ascii "A1 OK done\r\n", .status (.tagged ⟨⟨ascii "A1"⟩, ⟨.ok, none, "done"⟩⟩))]

def lateFrag : LineFragmentizer (decodeTable lateMessages) := ⟨[], none, [], true⟩

def lateLine : Bytes := ascii "A0 OK late\r\n"

def ownLine : Bytes := ascii "A1 OK done\r\n"

def ownTag : Tag := ⟨ascii "A1"⟩

def endsOk {S Y E : Type} [StreamsBodies S] (c : Coroutine S Unit Y (Except E Unit)) (s : S)
    (serving : Serving) (tag : Tag) : Bool :=
  (c.play (Coroutine.start s lateFrag) (serving.map fun x => (x.1, ()))).any fun r =>
    decide (List.Forall₂ Turn.Takes r.1 (serving.map (·.2))) && decide (commandTag r.1 = some ownTag) &&
      decide (completionTag r.2.frag = some tag) &&
      r.1.getLast?.any fun t => completesOk t.out && t.arg != some [] && phase t.before != .command

theorem endsOk_run {S Y E : Type} [StreamsBodies S] (c : Coroutine S Unit Y (Except E Unit)) (s : S)
    (serving : Serving) (tag : Tag) (h : endsOk c s serving tag = true) :
    ∃ es t b, c.Runs s lateFrag (es ++ [t]) b ∧ t.out = .complete (.ok ()) ∧
      commandTag (es ++ [t]) = some ownTag ∧ completionTag b.frag = some tag ∧
      (∀ rest, Served (es ++ [t]) ((serving.map (·.2)).flatten ++ rest) rest) ∧
      ∀ wire rest, (serving.map (·.2)).flatten ++ rest = wire →
        Completes c s lateFrag wire (es ++ [t]) (serving.map (·.2)) (.ok ()) := by
  obtain ⟨⟨ts, b⟩, hplay, hdec⟩ := (Option.any_eq_true _ _).mp h
  simp only [Bool.and_eq_true, decide_eq_true_eq] at hdec
  obtain ⟨⟨⟨hserved, hcommand⟩, hcompletion⟩, hends⟩ := hdec
  obtain ⟨t, hlast, hout⟩ := (Option.any_eq_true _ _).mp hends
  obtain ⟨es, rfl⟩ := List.getLast?_eq_some_iff.mp hlast
  simp only [Bool.and_eq_true, bne_iff_ne] at hout
  obtain ⟨⟨hok, harg⟩, hphase⟩ := hout
  have hrun := Coroutine.play_run _ hplay
  refine ⟨es, t, b, hrun, completesOk_eq hok, hcommand, hcompletion, ?_, ?_⟩
  · intro rest
    exact ⟨_, hserved, rfl⟩
  · intro wire rest hwire
    exact ⟨⟨b, hrun⟩, hserved, es, t, rfl, completesOk_eq hok, hphase, rest, hwire.symm,
      fun hlost => absurd hlost harg⟩

def lateServing : Serving := commandServing ++ [oneRead (lateLine ++ ownLine)]

def ownServing : Serving := commandServing ++ [oneRead ownLine]

theorem lateLine_tagged : TaggedLine lateFrag lateLine ⟨⟨ascii "A0"⟩, ⟨.ok, none, "late"⟩⟩ :=
  ⟨by decide +kernel, _, rfl, by decide +kernel⟩

theorem ownLine_tagged : TaggedLine lateFrag ownLine ⟨ownTag, ⟨.ok, none, "done"⟩⟩ :=
  ⟨by decide +kernel, _, rfl, by decide +kernel⟩

theorem oneStream_own : endsOk imapMessageFetchStream oneStream ownServing ownTag = true := by
  decide +kernel

theorem batchStream_own : endsOk imapMessageFetchStreamBatch batchStream ownServing ownTag = true := by
  decide +kernel

theorem oneStream_late :
    endsOk imapMessageFetchStream oneStream lateServing ⟨ascii "A0"⟩ = true := by
  decide +kernel

theorem batchStream_late :
    endsOk imapMessageFetchStreamBatch batchStream lateServing ⟨ascii "A0"⟩ = true := by
  decide +kernel

theorem fetch_stream_foreign_completions_own :
    (∃ es t b, imapMessageFetchStream.Runs oneStream lateFrag (es ++ [t]) b ∧
      t.out = .complete (.ok ()) ∧ completionTag b.frag = commandTag (es ++ [t])) ∧
    (∃ es t b, imapMessageFetchStreamBatch.Runs batchStream lateFrag (es ++ [t]) b ∧
      t.out = .complete (.ok ()) ∧ completionTag b.frag = commandTag (es ++ [t])) ∧
    ∃ es pieces es' pieces',
      Completes imapMessageFetchStreamBatch batchStream lateFrag ownLine es pieces (.ok ()) ∧
      Completes imapMessageFetchStreamBatch batchStream lateFrag (lateLine ++ ownLine) es' pieces'
        (.ok ()) ∧
      tokens ImapMessageFetchStreamBatch.intake ImapMessageFetchStreamBatch.told es pieces =
        tokens ImapMessageFetchStreamBatch.intake ImapMessageFetchStreamBatch.told es' pieces' := by
  have howns := fetch_stream_foreign_completions (F := LineFragmentizer (decodeTable lateMessages))
  refine ⟨?_, ?_, ?_⟩
  · obtain ⟨es, t, b, hrun, hout, hcommand, -, hserved, -⟩ :=
      endsOk_run _ _ _ _ oneStream_own
    refine ⟨es, t, b, hrun, hout, ?_⟩
    rw [(howns.1 _ _).ends _ _ _ _ _ _ _ hrun (hserved []) hout rfl, hcommand]
    decide +kernel
  · obtain ⟨es, t, b, hrun, hout, hcommand, -, hserved, -⟩ :=
      endsOk_run _ _ _ _ batchStream_own
    refine ⟨es, t, b, hrun, hout, ?_⟩
    rw [(howns.2 _ _).ends _ _ _ _ _ _ _ hrun (hserved []) hout rfl, hcommand]
    decide +kernel
  · obtain ⟨es, t, b, -, -, -, -, -, hown⟩ :=
      endsOk_run _ _ _ _ batchStream_own
    obtain ⟨es', t', b', -, -, hcommand, -, -, hlate⟩ :=
      endsOk_run _ _ _ _ batchStream_late
    have hforeign : some (⟨ascii "A0"⟩ : Tag) ≠ commandTag (es' ++ [t']) := by
      rw [hcommand]
      decide
    have hsame := (howns.2 _ _).inserted lateFrag lateFrag [] lateLine ownLine _ [] _ _ _ _ _ _ _
      (.refl _) lateLine_tagged (hown _ [] rfl) (hlate _ [] rfl) hforeign
    refine ⟨_, _, _, _, hown _ [] rfl, hlate _ [] rfl, (hsame.mpr ?_).1⟩
    obtain ⟨f', hp, hd⟩ := ownLine_tagged.decodes
    exact .status (by decide) ownLine_tagged.whole (by decide) hp hd rfl (by simp)

def bodyLines : Bytes := ascii "* 1 FETCH (UID 7 BODY[] \x7b5\x7d\r\nhello)\r\n"

/-- A late status of another command ends a streaming FETCH with success and without
the body behind it. -/
theorem fetch_stream_late_completion :
    (¬ ∀ es t b result wire rest,
      imapMessageFetchStream.Runs oneStream lateFrag (es ++ [t]) b → Served (es ++ [t]) wire rest →
      t.out = .complete result → ImapMessageFetchStreamError.byTagged result = true →
      completionTag b.frag = commandTag (es ++ [t])) ∧
    (¬ ∀ es t b result wire rest,
      imapMessageFetchStreamBatch.Runs batchStream lateFrag (es ++ [t]) b →
      Served (es ++ [t]) wire rest →
      t.out = .complete result → ImapMessageFetchStreamBatchError.byTagged result = true →
      completionTag b.frag = commandTag (es ++ [t])) ∧
    ¬ ∀ es pieces result es' pieces' result',
      Completes imapMessageFetchStreamBatch batchStream lateFrag (bodyLines ++ ownLine) es pieces
        result →
      Completes imapMessageFetchStreamBatch batchStream lateFrag (lateLine ++ (bodyLines ++ ownLine))
        es' pieces' result' →
      tokens ImapMessageFetchStreamBatch.intake ImapMessageFetchStreamBatch.told es pieces =
          tokens ImapMessageFetchStreamBatch.intake ImapMessageFetchStreamBatch.told es' pieces' ∧
        result = result' := by
  refine ⟨?_, ?_, ?_⟩
  · intro h
    obtain ⟨es, t, b, hrun, hout, hcommand, hcompletion, hserved, -⟩ :=
      endsOk_run _ _ _ _ oneStream_late
    have hsame := h es t b _ _ _ hrun (hserved []) hout rfl
    rw [hcommand, hcompletion] at hsame
    exact absurd hsame (by decide)
  · intro h
    obtain ⟨es, t, b, hrun, hout, hcommand, hcompletion, hserved, -⟩ :=
      endsOk_run _ _ _ _ batchStream_late
    have hsame := h es t b _ _ _ hrun (hserved []) hout rfl
    rw [hcommand, hcompletion] at hsame
    exact absurd hsame (by decide)
  · intro h
    obtain ⟨es, t, b, -, -, -, -, -, hown⟩ :=
      endsOk_run imapMessageFetchStreamBatch batchStream
        (commandServing ++ [oneRead (bodyLines ++ ownLine), (none, []), (none, []), (none, [])])
        ownTag (by decide +kernel)
    obtain ⟨es', t', b', -, -, -, -, -, hlate⟩ :=
      endsOk_run imapMessageFetchStreamBatch batchStream
        (commandServing ++ [oneRead (lateLine ++ (bodyLines ++ ownLine))])
        ⟨ascii "A0"⟩ (by decide +kernel)
    have hwithout : Completes imapMessageFetchStreamBatch batchStream lateFrag
        ([] ++ (bodyLines ++ ownLine)) _ _ _ := hown _ [] rfl
    have hwith : Completes imapMessageFetchStreamBatch batchStream lateFrag
        ([] ++ (lateLine ++ (bodyLines ++ ownLine))) _ _ _ := hlate _ [] rfl
    have hiff := insertion_iff ImapMessageFetchStreamBatch.bodyStreaming
      ImapMessageFetchStreamBatch.bodyIntake (awaits_new rfl rfl) (.refl _) lateLine_tagged hwithout hwith
    have hnone := hiff.mp (h _ _ _ _ _ _ (hown _ [] rfl) (hlate _ [] rfl))
    have hbody : (ImapMessageFetchStreamBatch.intake.outcome batchStream.maxLen lateFrag
        (bodyLines ++ ownLine)).1 ≠ [] := by decide +kernel
    exact hbody (congrArg Prod.fst hnone)

end Concrete
end IoImap
