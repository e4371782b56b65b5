import IoImap.Codec.CommandEncoder
import IoImap.Session.Resume

/-!
# The STARTTLS exchange of a session

Until the upgrade a session does nothing but STARTTLS: the octets received so far
and the tag of the command determine where it stands. The line that ends the
exchange is the first behind the greeting that starts with the tag and a space.
-/

namespace IoImap
open Transition

/-! ### The octets of the exchange -/

/-- The first line that starts with the tag and a space, and the octets behind it;
none when this line or one before it is too long. -/
def taggedLine (tagBytes : Bytes) (bs : Bytes) : Option (Bytes × Bytes) :=
  match _h : splitLine bs with
  | none => none
  | some (line, rest) =>
    if line.length > STARTTLS_MAX_LINE_LEN then none
    else if ImapStartTls.isTagged tagBytes line then some (line, rest)
    else taggedLine tagBytes rest
termination_by bs.length
decreasing_by
  obtain ⟨hbs, hne⟩ := splitLine_eq _h
  have hpos := List.length_pos_of_ne_nil hne
  rw [hbs, List.length_append]
  omega

/-- The line that ends the STARTTLS exchange, behind the greeting. -/
def startTlsCompletion (tag : Tag) (seen : Bytes) : Option (Bytes × Bytes) :=
  (splitLine seen).bind fun greeting => taggedLine tag.inner greeting.2

section TaggedLine

variable {tagBytes bs line rest more : Bytes}

theorem taggedLine_none (hl : splitLine bs = none) : taggedLine tagBytes bs = none := by
  rw [taggedLine]
  split
  · rfl
  · rename_i he
    rw [hl] at he
    simp at he

theorem taggedLine_line (hl : splitLine bs = some (line, rest)) :
    taggedLine tagBytes bs =
      if line.length > STARTTLS_MAX_LINE_LEN then none
      else if ImapStartTls.isTagged tagBytes line then some (line, rest)
      else taggedLine tagBytes rest := by
  rw [taggedLine]
  split
  · rename_i he
    rw [hl] at he
    simp at he
  · rename_i line' rest' he
    rw [hl] at he
    simp only [Option.some.injEq, Prod.mk.injEq] at he
    obtain ⟨rfl, rfl⟩ := he
    rfl

theorem taggedLine_skips (hl : splitLine bs = some (line, rest))
    (hlen : line.length ≤ STARTTLS_MAX_LINE_LEN) (ht : ImapStartTls.isTagged tagBytes line = false) :
    taggedLine tagBytes bs = taggedLine tagBytes rest := by
  rw [taggedLine_line hl, if_neg (by omega), if_neg (by simp [ht])]

theorem taggedLine_finds (hl : splitLine bs = some (line, rest))
    (hlen : line.length ≤ STARTTLS_MAX_LINE_LEN) (ht : ImapStartTls.isTagged tagBytes line = true) :
    taggedLine tagBytes bs = some (line, rest) := by
  rw [taggedLine_line hl, if_neg (by omega), if_pos ht]

/-- The tagged line and those before it are whole. -/
theorem taggedLine_strips (h : taggedLine tagBytes bs = some (line, rest)) : StripsLines bs rest := by
  fun_induction taggedLine tagBytes bs with
  | case1 => simp at h
  | case2 => simp at h
  | case3 bs line' rest' hl =>
    simp only [Option.some.injEq, Prod.mk.injEq] at h
    obtain ⟨rfl, rfl⟩ := h
    exact splitLine_strips hl
  | case4 bs line' rest' hl hlen ht ih => exact (splitLine_strips hl).trans (ih h)

theorem taggedLine_tooLong
    (hl : ∀ line rest, splitLine bs = some (line, rest) → line.length > STARTTLS_MAX_LINE_LEN) :
    taggedLine tagBytes bs = none := by
  cases he : splitLine bs with
  | none => exact taggedLine_none he
  | some r =>
    obtain ⟨line, rest⟩ := r
    rw [taggedLine_line he, if_pos (hl line rest he)]

end TaggedLine

namespace ImapStartTls

/-! ### One resume -/

/-- What looking through the lines behind the greeting comes to. -/
inductive Discards (tagBytes : Bytes) (s : ImapStartTls) : ImapStartTlsResult → ImapStartTls → Prop where
  | reads {s' : ImapStartTls} (hnone : taggedLine tagBytes s.buf = none)
      (hgo : ∀ more, taggedLine tagBytes (s.buf ++ more) = taggedLine tagBytes (s'.buf ++ more))
      (hscanned : s'.Scanned) (hstate : s'.state = s.state) (hrest : StripsLines s.buf s'.buf) :
      Discards tagBytes s (.yielded .wantsRead) s'
  | tagged {line rest : Bytes} {s' : ImapStartTls} (hl : taggedLine tagBytes s.buf = some (line, rest)) :
      Discards tagBytes s (.complete (.ok rest)) s'
  | fails {err : ImapStartTlsError} {s' : ImapStartTls} (hl : taggedLine tagBytes s.buf = none) :
      Discards tagBytes s (.complete (.error err)) s'

/-- A line that is passed over does not change what the rest comes to. -/
theorem Discards.skips {tagBytes line rest : Bytes} {s s' : ImapStartTls} {out : ImapStartTlsResult}
    (hl : splitLine s.buf = some (line, rest)) (hlen : line.length ≤ STARTTLS_MAX_LINE_LEN)
    (ht : isTagged tagBytes line = false)
    (h : Discards tagBytes { s with buf := rest, scanned := 0 } out s') : Discards tagBytes s out s' := by
  have hskip := taggedLine_skips hl hlen ht
  cases h with
  | reads hnone hgo hscanned hstate hrest =>
    refine .reads (hskip.trans hnone) (fun more => ?_) hscanned hstate ((splitLine_strips hl).trans hrest)
    rw [taggedLine_skips (splitLine_append hl more) hlen ht]
    exact hgo more
  | tagged hl' => exact .tagged (hskip.trans hl')
  | fails hl' => exact .fails (hskip.trans hl')

theorem discardLines_spec {s : ImapStartTls} (h : s.Scanned) (tagBytes : Bytes) :
    Discards tagBytes s (s.discardLines tagBytes).1 (s.discardLines tagBytes).2 := by
  fun_induction discardLines s tagBytes with
  | case1 s err s' hn =>
    have hlines := nextLine_spec h
    rw [hn] at hlines
    cases hlines with
    | tooLong hl => exact .fails (taggedLine_tooLong hl)
  | case2 s s' hn =>
    have hlines := nextLine_spec h
    rw [hn] at hlines
    cases hlines with
    | none hl hscanned =>
      refine .reads (taggedLine_none hl) (fun _ => rfl) ⟨Nat.le_refl _, ?_⟩ rfl (stripsLines_refl _)
      rw [List.take_length]
      exact hscanned
  | case3 s line s' hn ht =>
    have hlines := nextLine_spec h
    rw [hn] at hlines
    cases hlines with
    | line hl hlen => exact .tagged (taggedLine_finds hl hlen ht)
  | case4 s line s' hn ht ih =>
    have hlines := nextLine_spec h
    rw [hn] at hlines
    cases hlines with
    | @line _ rest hl hlen =>
      have huntagged : isTagged tagBytes line = false := by simpa using ht
      exact (ih (scanned_zero rfl)).skips hl hlen huntagged

def startTlsLine [Encoder Command] (tag : Tag) : Option Bytes :=
  match Encoder.encode (⟨tag, .startTls⟩ : Command) with
  | .line data :: _ => some data
  | _ => none

/-- Where the exchange stands when `seen` was received and, if it has been, `tag` given. -/
def At (tag : Option Tag) (seen : Bytes) (s : ImapStartTls) (due : Request) : Prop :=
  match s.state with
  | .discardGreeting => tag = none ∧ s.buf = seen ∧ s.Scanned ∧ (due = .nothing ∨ due = .read)
  | .tag => tag = none ∧ due = .tag ∧ s.Scanned ∧ ∃ greeting, splitLine seen = some (greeting, s.buf)
  | .writeStartTls tagBytes | .discardStartTls tagBytes =>
    (due = .nothing ∨ due = .read) ∧ s.Scanned ∧ ∃ t, tag = some t ∧ tagBytes = t.inner ∧
      ∀ more, startTlsCompletion t (seen ++ more) = taggedLine tagBytes (s.buf ++ more)

section At

variable {tag : Option Tag} {seen tagBytes : Bytes} {s : ImapStartTls} {due : Request}

theorem at_greeting (hs : s.state = .discardGreeting) : At tag seen s due ↔
    tag = none ∧ s.buf = seen ∧ s.Scanned ∧ (due = .nothing ∨ due = .read) := by
  rw [At, hs]

theorem at_tag (hs : s.state = .tag) : At tag seen s due ↔
    tag = none ∧ due = .tag ∧ s.Scanned ∧ ∃ greeting, splitLine seen = some (greeting, s.buf) := by
  rw [At, hs]

theorem at_response (hs : s.state = .writeStartTls tagBytes ∨ s.state = .discardStartTls tagBytes) :
    At tag seen s due ↔ (due = .nothing ∨ due = .read) ∧ s.Scanned ∧ ∃ t, tag = some t ∧
      tagBytes = t.inner ∧
      ∀ more, startTlsCompletion t (seen ++ more) = taggedLine tagBytes (s.buf ++ more) := by
  rcases hs with hs | hs
  · rw [At, hs]
  · rw [At, hs]

end At

/-- One resume of the exchange, which was given `octets` and read them. -/
inductive Resumed [TryFrom Bytes Tag] [Encoder Command] (tag : Option Tag) (seen octets : Bytes)
    (s : ImapStartTls) (arg : Option Bytes) : ImapStartTlsResult → ImapStartTls → Prop where
  | reads {s' : ImapStartTls} (hs : s.state ≠ .tag) (hat : At tag (seen ++ octets) s' .read)
      (hnone : ∀ t ∈ tag, octets ≠ [] → startTlsCompletion t (seen ++ octets) = none)
      (hrest : StripsLines (s.buf ++ octets) s'.buf) :
      Resumed tag seen octets s arg (.yielded .wantsRead) s'
  | asks {s' : ImapStartTls} (hs : s.state ≠ .tag) (htag : tag = none) (hat : At none (seen ++ octets) s' .tag)
      (hrest : StripsLines (s.buf ++ octets) s'.buf) :
      Resumed tag seen octets s arg (.yielded .wantsTag) s'
  | writes {t : Tag} {bytes line : Bytes} {s' : ImapStartTls} (hs : s.state = .tag)
      (htag : tag = none) (harg : arg = some bytes) (ht : TryFrom.tryFrom bytes = Except.ok t)
      (hline : startTlsLine t = some line) (hat : At (some t) (seen ++ octets) s' .nothing)
      (hrest : s'.buf = s.buf) :
      Resumed tag seen octets s arg (.yielded (.wantsWrite line)) s'
  | ends {t : Tag} {line rest : Bytes} {s' : ImapStartTls} (hs : s.state ≠ .tag) (htag : tag = some t)
      (hne : octets ≠ []) (hrest : StripsLines (s.buf ++ octets) rest)
      (hl : startTlsCompletion t (seen ++ octets) = some (line, rest)) :
      Resumed tag seen octets s arg (.complete (.ok rest)) s'
  | fails {err : ImapStartTlsError} {s' : ImapStartTls}
      (hnone : ∀ t ∈ tag, octets ≠ [] → startTlsCompletion t (seen ++ octets) = none)
      (hsilent : s.state = .tag → ∀ bytes t, arg = some bytes →
        TryFrom.tryFrom bytes = Except.ok t → startTlsLine t = none) :
      Resumed tag seen octets s arg (.complete (.error err)) s'

section Resume

variable [TryFrom Bytes Tag] [Encoder Command] {tag : Option Tag} {seen : Bytes} {s : ImapStartTls}
  {due : Request} {arg : Option Bytes}

omit [TryFrom Bytes Tag] [Encoder Command] in
theorem octets_of_read (hdue : due = .nothing ∨ due = .read) (hans : due.answeredBy arg = true) :
    (arg = none ∧ (due.octets arg).flatten = []) ∨ (arg = some [] ∧ (due.octets arg).flatten = []) ∨
      ∃ data, data ≠ [] ∧ arg = some data ∧ (due.octets arg).flatten = data := by
  rcases hdue with rfl | rfl
  · obtain rfl := Request.answeredBy_nothing.mp hans
    exact .inl ⟨rfl, rfl⟩
  · obtain ⟨data, rfl⟩ := Option.isSome_iff_exists.mp hans
    cases data with
    | nil => exact .inr (.inl ⟨rfl, rfl⟩)
    | cons b bs => exact .inr (.inr ⟨b :: bs, List.cons_ne_nil b bs, rfl, by simp [Request.octets]⟩)

theorem discardGreeting_spec (hs : s.state = .discardGreeting) (h : At tag seen s due)
    (hans : due.answeredBy arg = true) :
    Resumed tag seen (due.octets arg).flatten s arg (s.discardGreeting arg).1
      (s.discardGreeting arg).2 := by
  obtain ⟨rfl, hbuf, hscanned, hdue⟩ := (at_greeting hs).mp h
  have hnotag : s.state ≠ .tag := by simp [hs]
  rcases octets_of_read hdue hans with ⟨rfl, ho⟩ | ⟨rfl, ho⟩ | ⟨data, hne, rfl, ho⟩
  · rw [ho]
    refine .reads hnotag ?_ (by simp) (by rw [List.append_nil]; exact stripsLines_refl _)
    rw [List.append_nil]
    exact (at_greeting hs).mpr ⟨rfl, hbuf, hscanned, .inr rfl⟩
  · exact .fails (by simp) (by simp [hs])
  · rw [ho]
    obtain ⟨b, bs, rfl⟩ := List.exists_cons_of_ne_nil hne
    have hlines := nextLine_spec (hscanned.extend (b :: bs) s.state)
    simp only [discardGreeting]
    generalize hr : ({ s with buf := s.buf ++ b :: bs } : ImapStartTls).nextLine = r at hlines ⊢
    obtain ⟨found, s'⟩ := r
    cases hlines with
    | tooLong hl => exact .fails (by simp) (by simp [hs])
    | none hl hno =>
      let s' : ImapStartTls :=
        { s with buf := s.buf ++ b :: bs, scanned := (s.buf ++ b :: bs).length }
      have hs' : s'.state = .discardGreeting := hs
      have hscanned' : s'.Scanned := by
        refine ⟨Nat.le_refl _, ?_⟩
        rw [List.take_length]
        exact hno
      have hat : At none (seen ++ b :: bs) s' .read :=
        (at_greeting hs').mpr ⟨rfl, by rw [← hbuf], hscanned', .inr rfl⟩
      exact .reads hnotag hat (by simp) (stripsLines_refl _)
    | @line line rest hl hlen =>
      refine .asks hnotag rfl ((at_tag rfl).mpr ⟨rfl, rfl, scanned_zero rfl, line, ?_⟩)
        (splitLine_strips hl)
      rw [← hbuf]
      exact hl

theorem sendStartTls_spec (hs : s.state = .tag) (h : At tag seen s due)
    (hans : due.answeredBy arg = true) :
    Resumed tag seen (due.octets arg).flatten s arg (s.sendStartTls arg).1 (s.sendStartTls arg).2 := by
  obtain ⟨rfl, rfl, hscanned, greeting, hgreeting⟩ := (at_tag hs).mp h
  obtain ⟨bytes, rfl⟩ := Option.isSome_iff_exists.mp hans
  unfold sendStartTls
  cases ht : (TryFrom.tryFrom bytes : Except ValidationError Tag) with
  | error err =>
    simp only [ht]
    refine .fails (fun t h => absurd h (Option.not_mem_none t)) fun _ bytes' t hb ht' => ?_
    obtain rfl := Option.some.inj hb
    rw [ht] at ht'
    simp at ht'
  | ok t =>
    simp only [ht]
    split
    · rename_i data rest hencode
      refine .writes hs rfl rfl ht (by simp [startTlsLine, hencode]) ?_ rfl
      refine (at_response (.inl rfl)).mpr
        ⟨.inl rfl, ⟨hscanned.le, hscanned.noLine⟩, t, rfl, rfl, fun more => ?_⟩
      have hmore := splitLine_append hgreeting more
      simp [startTlsCompletion, Request.octets, hmore]
    · rename_i hencode
      refine .fails (fun t h => absurd h (Option.not_mem_none t)) fun _ bytes' t' hb ht' => ?_
      obtain rfl := Option.some.inj hb
      obtain rfl := Except.ok.inj (ht.symm.trans ht')
      unfold startTlsLine
      split
      · rename_i data rest he
        exact absurd he (hencode data rest)
      · rfl

theorem discardStartTls_spec {tagBytes : Bytes}
    (hs : s.state = .writeStartTls tagBytes ∨ s.state = .discardStartTls tagBytes)
    (h : At tag seen s due) (hans : due.answeredBy arg = true) :
    Resumed tag seen (due.octets arg).flatten s arg (s.discardStartTls tagBytes arg).1
      (s.discardStartTls tagBytes arg).2 := by
  obtain ⟨hdue, hscanned, t, rfl, rfl, hcompletion⟩ := (at_response hs).mp h
  have hnotag : s.state ≠ .tag := by
    rcases hs with hs | hs
    · simp [hs]
    · simp [hs]
  rcases octets_of_read hdue hans with ⟨rfl, ho⟩ | ⟨rfl, ho⟩ | ⟨data, hne, rfl, ho⟩
  · rw [ho]
    refine .reads hnotag ?_ (by simp) (by rw [List.append_nil]; exact stripsLines_refl _)
    rw [List.append_nil]
    exact (at_response (.inr rfl)).mpr
      ⟨.inr rfl, ⟨hscanned.le, hscanned.noLine⟩, t, rfl, rfl, hcompletion⟩
  · rw [ho]
    exact .fails (by simp) (absurd · hnotag)
  · rw [ho]
    obtain ⟨b, bs, rfl⟩ := List.exists_cons_of_ne_nil hne
    have hdiscards := discardLines_spec (hscanned.extend (b :: bs) (.discardStartTls t.inner)) t.inner
    simp only [discardStartTls]
    generalize hr : ({ s with
        state := .discardStartTls t.inner
        buf := s.buf ++ b :: bs } : ImapStartTls).discardLines t.inner = r at hdiscards ⊢
    obtain ⟨out, s'⟩ := r
    cases hdiscards with
    | reads hnone hgo hscanned' hstate hrest =>
      refine .reads hnotag ?_ ?_ hrest
      · have hstate' : s'.state = .discardStartTls t.inner := hstate
        refine (at_response (.inr hstate')).mpr ⟨.inr rfl, hscanned', t, rfl, rfl, fun more => ?_⟩
        rw [List.append_assoc, hcompletion, ← hgo more, List.append_assoc]
      · intro t' ht' _
        obtain rfl : t = t' := Option.some.inj ht'
        rw [hcompletion]
        exact hnone
    | tagged hl => exact .ends hnotag rfl hne (taggedLine_strips hl) ((hcompletion _).trans hl)
    | fails hl =>
      refine .fails (fun t' ht' _ => ?_) (absurd · hnotag)
      obtain rfl : t = t' := Option.some.inj ht'
      rw [hcompletion]
      exact hl

theorem resume_spec (h : At tag seen s due) (hans : due.answeredBy arg = true) :
    Resumed tag seen (due.octets arg).flatten s arg (s.resume arg).1 (s.resume arg).2 := by
  unfold resume
  cases hs : s.state with
  | discardGreeting => exact discardGreeting_spec hs h hans
  | tag => exact sendStartTls_spec hs h hans
  | writeStartTls tagBytes => exact discardStartTls_spec (.inl hs) h hans
  | discardStartTls tagBytes => exact discardStartTls_spec (.inr hs) h hans

omit [TryFrom Bytes Tag] [Encoder Command] in
theorem new_at : At none [] new .nothing := ⟨rfl, rfl, scanned_zero rfl, .inl rfl⟩

end Resume
end ImapStartTls

theorem Request.octets_flatten_eq_nil {due : Request} {arg : Option Bytes} :
    (due.octets arg).flatten = [] ↔ due.octets arg = [] := by
  unfold octets
  split <;> simp

namespace ImapSessionOpen

variable {K F : Type}

abbrev Step (K F : Type) :=
  Turn (ImapSessionOpen K) F Unit ImapSessionOpenYield (Except ImapSessionOpenError ImapSessionOpenData)

/-! ### The history of a session -/

def received (es : List (Step K F)) : Bytes := (es.flatMap Turn.answer).flatten

def tagGiven [TryFrom Bytes Tag] (t : Step K F) : Option Tag :=
  if t.due = .tag then t.arg.bind fun bytes => (TryFrom.tryFrom bytes : Except ValidationError Tag).toOption
  else none

/-- The first valid tag given, which is that of STARTTLS. -/
def commandTag [TryFrom Bytes Tag] (es : List (Step K F)) : Option Tag := es.findSome? tagGiven

def written (t : Step K F) : Option Bytes :=
  match t.out with
  | .yielded (.wantsWrite bytes) => some bytes
  | _ => none

def upgrades (t : Step K F) : Bool :=
  match t.out with
  | .yielded .wantsTlsUpgrade => true
  | _ => false

def fails (t : Step K F) : Bool :=
  match t.out with
  | .complete (.error _) => true
  | _ => false

theorem received_concat (es : List (Step K F)) (t : Step K F) :
    received (es ++ [t]) = received es ++ (t.due.octets t.arg).flatten := by
  simp [received, Turn.answer]

theorem written_concat (es : List (Step K F)) (t : Step K F) :
    (es ++ [t]).filterMap written = es.filterMap written ++ (written t).toList := by
  rw [List.filterMap_append]
  cases h : written t <;> simp [h]

section Plaintext

variable [TryFrom Bytes Tag] [Encoder Command]

omit [Encoder Command] in
theorem commandTag_concat (es : List (Step K F)) (t : Step K F) :
    commandTag (es ++ [t]) = (commandTag es).or (tagGiven t) := by
  rw [commandTag, commandTag, List.findSome?_append]
  cases h : tagGiven t <;> simp [h]

omit [Encoder Command] in
theorem tagGiven_of_ne {t : Step K F} (h : t.due ≠ .tag) : tagGiven t = none := if_neg h

omit [Encoder Command] in
theorem tagGiven_eq_some {t : Step K F} {tag : Tag} (h : tagGiven t = some tag) :
    ∃ bytes, t.arg = some bytes ∧ TryFrom.tryFrom bytes = Except.ok tag := by
  unfold tagGiven at h
  split at h
  · obtain ⟨bytes, harg, htry⟩ := Option.bind_eq_some_iff.mp h
    refine ⟨bytes, harg, ?_⟩
    cases he : (TryFrom.tryFrom bytes : Except ValidationError Tag) with
    | error err => simp [he, Except.toOption] at htry
    | ok tag' =>
      simp only [he, Except.toOption, Option.some.injEq] at htry
      rw [htry]
  · simp at h

theorem writes_unwritten {es : List (Step K F)} {t : Step K F}
    (hwrites : es.filterMap written = (commandTag es).toList.filterMap ImapStartTls.startTlsLine)
    (hw : written t = none)
    (hsame : (commandTag (es ++ [t])).toList.filterMap ImapStartTls.startTlsLine =
      (commandTag es).toList.filterMap ImapStartTls.startTlsLine) :
    (es ++ [t]).filterMap written =
      (commandTag (es ++ [t])).toList.filterMap ImapStartTls.startTlsLine := by
  rw [written_concat, hw, hwrites, hsame]
  exact List.append_nil _

/-- Where a session with STARTTLS stands before the upgrade. -/
structure Plaintext (start : ImapSessionOpen K) (f : F) (es : List (Step K F))
    (a : Config (ImapSessionOpen K) F) (due : Request) : Prop where
  frag : a.frag = f
  fields : a.state = { start with state := a.state.state }
  writes : es.filterMap written = (commandTag es).toList.filterMap ImapStartTls.startTlsLine
  phase : match a.state.state with
    | .connect => es = [] ∧ due = .nothing
    | .connected => received es = [] ∧ commandTag es = none ∧ due = .nothing
    | .startTls startTls => startTls.At (commandTag es) (received es) due
    | _ => False

/-- One resume before the upgrade: it goes on, upgrades or fails. -/
inductive Opens (start : ImapSessionOpen K) (f : F) (es : List (Step K F)) (t : Step K F)
    (b : Config (ImapSessionOpen K) F) : Prop where
  | goesOn (hup : upgrades t = false) (hfails : fails t = false)
      (hplain : ∀ due, b.due = some due → Plaintext start f (es ++ [t]) b due)
      (hwrites : (es ++ [t]).filterMap written =
        (commandTag (es ++ [t])).toList.filterMap ImapStartTls.startTlsLine)
      (hnone : ∀ tag ∈ commandTag es, t.answer ≠ [] →
        startTlsCompletion tag (received (es ++ [t])) = none)
  | upgrades {tag : Tag} {line : Bytes} (hup : upgrades t = true) (hfails : fails t = false)
      (htag : commandTag es = some tag) (hne : t.answer ≠ [])
      (hl : startTlsCompletion tag (received (es ++ [t])) = some (line, []))
      (hwrites : (es ++ [t]).filterMap written =
        (commandTag (es ++ [t])).toList.filterMap ImapStartTls.startTlsLine)
      (hb : b = ⟨{ start with state := .upgraded }, f, some .nothing⟩)
  | fails (hup : upgrades t = false) (hfails : fails t = true)
      (hwrites : (es ++ [t]).filterMap written =
        (commandTag (es ++ [t])).toList.filterMap ImapStartTls.startTlsLine)
      (hl : ∀ tag ∈ commandTag es, t.answer ≠ [] → ∀ line rest,
        startTlsCompletion tag (received (es ++ [t])) = some (line, rest) → rest ≠ [])

omit [TryFrom Bytes Tag] [Encoder Command] in
theorem startTls_due_tag {tag : Option Tag} {seen : Bytes} {startTls : ImapStartTls}
    {due : Request} (h : startTls.At tag seen due) : due = .tag ↔ startTls.state = .tag := by
  cases hs : startTls.state with
  | discardGreeting =>
    obtain ⟨-, -, -, hdue⟩ := (ImapStartTls.at_greeting hs).mp h
    rcases hdue with rfl | rfl <;> simp
  | tag =>
    obtain ⟨-, hdue, -⟩ := (ImapStartTls.at_tag hs).mp h
    simp [hdue]
  | writeStartTls tagBytes =>
    obtain ⟨hdue, -⟩ := (ImapStartTls.at_response (.inl hs)).mp h
    rcases hdue with rfl | rfl <;> simp
  | discardStartTls tagBytes =>
    obtain ⟨hdue, -⟩ := (ImapStartTls.at_response (.inr hs)).mp h
    rcases hdue with rfl | rfl <;> simp

omit [Encoder Command] in
theorem commandTag_kept {es : List (Step K F)} {t : Step K F} {startTls : ImapStartTls}
    (hat : startTls.At (commandTag es) (received es) t.due) (hs : startTls.state ≠ .tag) :
    commandTag (es ++ [t]) = commandTag es := by
  rw [commandTag_concat, tagGiven_of_ne (mt (startTls_due_tag hat).mp hs), Option.or_none]

omit [Encoder Command] in
theorem commandTag_given {es : List (Step K F)} {t : Step K F} {startTls : ImapStartTls}
    {bytes : Bytes} {tag : Tag} (hat : startTls.At (commandTag es) (received es) t.due)
    (hs : startTls.state = .tag) (harg : t.arg = some bytes)
    (htry : TryFrom.tryFrom bytes = Except.ok tag) : commandTag (es ++ [t]) = some tag := by
  rw [commandTag_concat, ((ImapStartTls.at_tag hs).mp hat).1, Option.none_or, tagGiven,
    if_pos ((startTls_due_tag hat).mpr hs), harg, Option.bind_some, htry]
  rfl

/-- A tag under which STARTTLS cannot be written is no line on the wire. -/
theorem lines_kept {es : List (Step K F)} {t : Step K F} {startTls : ImapStartTls}
    (hat : startTls.At (commandTag es) (received es) t.due)
    (hsilent : startTls.state = .tag → ∀ bytes tag, t.arg = some bytes →
      TryFrom.tryFrom bytes = Except.ok tag → ImapStartTls.startTlsLine tag = none) :
    (commandTag (es ++ [t])).toList.filterMap ImapStartTls.startTlsLine =
      (commandTag es).toList.filterMap ImapStartTls.startTlsLine := by
  by_cases hs : startTls.state = .tag
  · have htag : commandTag es = none := ((ImapStartTls.at_tag hs).mp hat).1
    rw [commandTag_concat, htag, Option.none_or]
    cases hgiven : tagGiven t with
    | none => rfl
    | some tag =>
      obtain ⟨bytes, harg, htry⟩ := tagGiven_eq_some hgiven
      simp [hsilent hs bytes tag harg htry]
  · rw [commandTag_kept hat hs]

end Plaintext

section Steps

variable [SaslMechanisms K] [TryFrom String AString] [Fragmentizer F] [TryFrom Bytes Tag]
  [Encoder Command] [Encoder AuthenticateData]

theorem startTls_opens {start : ImapSessionOpen K} {f : F} {es : List (Step K F)}
    {a : Config (ImapSessionOpen K) F} {startTls : ImapStartTls} {due : Request} {arg : Option Bytes}
    (hfrag : a.frag = f) (hfields : a.state = { start with state := a.state.state })
    (hwrites : es.filterMap written = (commandTag es).toList.filterMap ImapStartTls.startTlsLine)
    (hat : startTls.At (commandTag es) (received es) due) (hans : due.answeredBy arg = true)
    (hr : a.state.resume (⟨a.frag, []⟩ : Logged F) arg =
      a.state.resumeStartTls startTls ⟨a.frag, []⟩ arg) :
    Opens start f es ((imapSessionOpen K).turn a due arg ())
      ((imapSessionOpen K).finish ((imapSessionOpen K).turn a due arg ())) := by
  have hspec := ImapStartTls.resume_spec hat hans
  have hresume : (imapSessionOpen K).resume a.state (⟨a.frag, []⟩ : Logged F) arg () =
      a.state.resumeStartTls startTls ⟨a.frag, []⟩ arg := hr
  obtain ⟨t, ht⟩ : ∃ t, t = (imapSessionOpen K).turn a due arg () := ⟨_, rfl⟩
  have hturn : ∀ o s', a.state.resumeStartTls startTls (⟨a.frag, []⟩ : Logged F) arg =
      (o, { start with state := s' }, ⟨a.frag, []⟩) → t.out = o ∧
        (imapSessionOpen K).finish t = ⟨{ start with state := s' }, f, match o with
          | .yielded y => some y.request
          | .complete _ => none⟩ := by
    intro o s' h
    rw [ht, Coroutine.finish, Coroutine.turn, hresume, h, hfrag]
    cases o <;> exact ⟨rfl, rfl⟩
  have hdue : t.due = due := by rw [ht]; rfl
  have harg : t.arg = arg := by rw [ht]; rfl
  have hrec := received_concat es t
  have hanswer : t.answer ≠ [] ↔ (due.octets arg).flatten ≠ [] := by
    rw [Turn.answer, hdue, harg]
    exact not_congr Request.octets_flatten_eq_nil.symm
  have hat' : startTls.At (commandTag es) (received es) t.due := hdue ▸ hat
  have hnotag (hs : startTls.state ≠ .tag) : commandTag (es ++ [t]) = commandTag es :=
    commandTag_kept hat' hs
  have hkeeps (hw : written t = none) (hs : startTls.state ≠ .tag) :
      (es ++ [t]).filterMap written =
        (commandTag (es ++ [t])).toList.filterMap ImapStartTls.startTlsLine :=
    writes_unwritten hwrites hw (by rw [hnotag hs])
  rw [hdue, harg] at hrec
  rw [← ht]
  generalize hst : startTls.resume arg = r at hspec
  obtain ⟨out, startTls'⟩ := r
  cases hspec with
  | reads hs hnext hnone hrest =>
    obtain ⟨ho, hb⟩ := hturn (.yielded .wantsRead) (.startTls startTls')
      (by rw [hfields]; simp [resumeStartTls, hst, ImapSessionOpenYield.ofYield])
    have hwrites' := hkeeps (by rw [written, ho]) hs
    rw [hb]
    refine .goesOn (by rw [upgrades, ho]) (by rw [fails, ho]) ?_ hwrites' ?_
    · intro due' hd
      obtain rfl : Request.read = due' := Option.some.inj hd
      refine ⟨rfl, rfl, hwrites', ?_⟩
      rw [hnotag hs, hrec]
      exact hnext
    · intro tag htag hne
      rw [hrec]
      exact hnone tag htag (hanswer.mp hne)
  | asks hs htag hnext hrest =>
    obtain ⟨ho, hb⟩ := hturn (.yielded .wantsTag) (.startTls startTls')
      (by rw [hfields]; simp [resumeStartTls, hst, ImapSessionOpenYield.ofYield])
    have hwrites' := hkeeps (by rw [written, ho]) hs
    rw [hb]
    refine .goesOn (by rw [upgrades, ho]) (by rw [fails, ho]) ?_ hwrites' (by simp [htag])
    intro due' hd
    obtain rfl : Request.tag = due' := Option.some.inj hd
    refine ⟨rfl, rfl, hwrites', ?_⟩
    rw [hnotag hs, hrec, htag]
    exact hnext
  | @writes tag bytes line _ hs htag harg' htry hline hnext hrest =>
    obtain ⟨ho, hb⟩ := hturn (.yielded (.wantsWrite line)) (.startTls startTls')
      (by rw [hfields]; simp [resumeStartTls, hst, ImapSessionOpenYield.ofYield])
    have hgiven := commandTag_given hat' hs (harg.trans harg') htry
    have hwrites' : (es ++ [t]).filterMap written =
        (commandTag (es ++ [t])).toList.filterMap ImapStartTls.startTlsLine := by
      rw [written_concat, hwrites, htag, hgiven, written, ho]
      simp [hline]
    rw [hb]
    refine .goesOn (by rw [upgrades, ho]) (by rw [fails, ho]) ?_ hwrites' (by simp [htag])
    intro due' hd
    obtain rfl : Request.nothing = due' := Option.some.inj hd
    refine ⟨rfl, rfl, hwrites', ?_⟩
    rw [hgiven, hrec]
    exact hnext
  | @ends tag line rest _ hs htag hne _ hl =>
    rcases rest with - | ⟨b, bs⟩
    · obtain ⟨ho, hb⟩ := hturn (.yielded .wantsTlsUpgrade) .upgraded
        (by rw [hfields]; simp [resumeStartTls, hst])
      have hwrites' := hkeeps (by rw [written, ho]) hs
      exact .upgrades (by rw [upgrades, ho]) (by rw [fails, ho]) htag (hanswer.mpr hne)
        (by rw [hrec]; exact hl) hwrites' hb
    · obtain ⟨ho, -⟩ := hturn (.complete (.error .startTlsInjection)) a.state.state
        (by rw [hfields]; simp [resumeStartTls, hst, ImapSessionOpen.fail])
      have hwrites' := hkeeps (by rw [written, ho]) hs
      refine .fails (by rw [upgrades, ho]) (by rw [fails, ho]) hwrites' fun tag' htag' _ line' rest' hl' => ?_
      obtain rfl : tag = tag' := Option.some.inj (htag.symm.trans htag')
      rw [hrec, hl] at hl'
      simp only [Option.some.injEq, Prod.mk.injEq] at hl'
      rw [← hl'.2]
      exact List.cons_ne_nil b bs
  | @fails err _ hnone hsilent =>
    obtain ⟨ho, -⟩ := hturn (.complete (.error (.startTls err))) a.state.state
      (by rw [hfields]; simp [resumeStartTls, hst, ImapSessionOpen.fail])
    have hwrites' := writes_unwritten hwrites (by rw [written, ho])
      (lines_kept hat' fun hs bytes tag harg' htry => hsilent hs bytes tag (harg.symm.trans harg') htry)
    refine .fails (by rw [upgrades, ho]) (by rw [fails, ho]) hwrites' fun tag htag hne line rest hl => ?_
    rw [hrec, hnone tag htag (hanswer.mp hne)] at hl
    simp at hl

theorem plaintext_opens {start : ImapSessionOpen K} {f : F} {es : List (Step K F)}
    {a : Config (ImapSessionOpen K) F} {due : Request} {arg : Option Bytes}
    (hstarttls : start.opts.starttls = true) (h : Plaintext start f es a due)
    (hans : due.answeredBy arg = true) :
    Opens start f es ((imapSessionOpen K).turn a due arg ())
      ((imapSessionOpen K).finish ((imapSessionOpen K).turn a due arg ())) := by
  obtain ⟨hfrag, hfields, hwrites, hphase⟩ := h
  have hopts : a.state.opts.starttls = true := by rw [hfields]; exact hstarttls
  cases hs : a.state.state with
  | connect =>
    simp only [hs] at hphase
    obtain ⟨rfl, rfl⟩ := hphase
    have hconnects : (imapSessionOpen K).resume a.state (⟨a.frag, []⟩ : Logged F) arg () =
        a.state.resumeConnect ⟨a.frag, []⟩ := by
      show a.state.resume _ _ = _
      rw [resume, hs]
    obtain ⟨t, ht⟩ : ∃ t, t = (imapSessionOpen K).turn a .nothing arg () := ⟨_, rfl⟩
    have hgiven : commandTag [t] = none := by
      rw [ht, commandTag, List.findSome?_singleton]
      exact tagGiven_of_ne (by simp [Coroutine.turn])
    rw [← ht]
    cases htls : a.state.transport.isTls with
    | true =>
      have ho : t.out = .complete (.error .startTlsOverTls) := by
        rw [ht, Coroutine.turn, hconnects, resumeConnect, if_pos (by simp [hopts, htls])]
        rfl
      refine .fails (by rw [upgrades, ho]) (by rw [fails, ho]) ?_ (by simp [commandTag])
      rw [List.nil_append, hgiven]
      simp [written, ho]
    | false =>
      have hr : a.state.resumeConnect (⟨a.frag, []⟩ : Logged F) =
          (.yielded a.state.transport.connect, { a.state with state := .connected }, ⟨a.frag, []⟩) := by
        rw [resumeConnect, if_neg (by simp [htls])]
      have ho : t.out = .yielded a.state.transport.connect := by
        rw [ht, Coroutine.turn, hconnects, hr]
      have hw : written t = none := by
        rw [written, ho]
        cases a.state.transport <;> rfl
      have hwrites' : [t].filterMap written =
          (commandTag [t]).toList.filterMap ImapStartTls.startTlsLine := by
        rw [hgiven]
        simp [hw]
      refine .goesOn ?_ (by rw [fails, ho]) ?_ hwrites' (by simp [commandTag])
      · rw [upgrades, ho]
        cases a.state.transport <;> rfl
      · intro due hd
        obtain ⟨rfl, hb⟩ : Request.nothing = due ∧ (imapSessionOpen K).finish t =
            ⟨{ a.state with state := .connected }, a.frag, some .nothing⟩ := by
          rw [ht, Coroutine.finish, Coroutine.turn, hconnects, hr] at hd ⊢
          cases htr : a.state.transport <;> simp_all [ImapSessionTransport.connect, imapSessionOpen,
            ImapSessionOpenYield.request]
        rw [hb]
        refine ⟨hfrag, by rw [hfields], hwrites', ?_, hgiven, rfl⟩
        rw [List.nil_append, ht]
        simp [received, Turn.answer, Coroutine.turn, Request.octets]
  | connected =>
    simp only [hs] at hphase
    obtain ⟨hnothing, htag, rfl⟩ := hphase
    have hat : ImapStartTls.new.At (commandTag es) (received es) .nothing := by
      rw [hnothing, htag]
      exact ImapStartTls.new_at
    refine startTls_opens hfrag hfields hwrites hat hans ?_
    rw [resume, hs]
    exact if_pos hopts
  | startTls startTls =>
    simp only [hs] at hphase
    refine startTls_opens hfrag hfields hwrites hphase hans ?_
    rw [resume, hs]
  | upgraded => simp [hs] at hphase
  | capability => simp [hs] at hphase
  | greeting => simp [hs] at hphase
  | auth => simp [hs] at hphase

end Steps
end ImapSessionOpen
end IoImap
