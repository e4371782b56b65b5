import IoImap.Rfc3501.ReadAhead

/-!
# What a streamed reply comes to

The octets of a reply decide what a streaming FETCH hands to its caller and how it
ends, however they are cut into reads and copies. What the caller is told is a
sequence of tokens, one for each octet of a body, so that a body is the same
sequence whether it comes in one chunk or in many.
-/

namespace IoImap
open Fragmentizer

/-- How a coroutine takes the literals of its reply, `σ` being what it remembers of
those before: what it tells the caller of each, and which it refuses. -/
structure Intake (σ T E : Type) where
  accept : σ → Bytes → LiteralAnnouncement → Except E (List T × σ)
  octet : Byte → T
  close : List T
  error : BodyStreamError → E

namespace Intake

variable {σ T E F : Type} (i : Intake σ T E) [Fragmentizer F]

def tells (ts : List T) (r : List T × Option (Except E Unit)) : List T × Option (Except E Unit) :=
  (ts ++ r.1, r.2)

@[simp] theorem tells_nil (r : List T × Option (Except E Unit)) : tells [] r = r := rfl

@[simp] theorem tells_tells (ts us : List T) (r : List T × Option (Except E Unit)) :
    tells ts (tells us r) = tells (ts ++ us) r := by
  simp [tells]

def ended (result : Except BodyStreamError Unit) : List T × Option (Except E Unit) :=
  ([], some (result.mapError i.error))

/-- The tokens of a literal and what comes behind it; of one that is not all there,
the octets that are. -/
def body (n : Nat) (octets : Bytes) (next : Bytes → List T × Option (Except E Unit)) :
    List T × Option (Except E Unit) :=
  if n ≤ octets.length then tells ((octets.take n).map i.octet ++ i.close) (next (octets.drop n))
  else (octets.map i.octet, none)

/-- What the lines of `wire` and the literals between them come to, `none` where
they do not end the reply. -/
def outcome (s : σ) (f : F) (wire : Bytes) : List T × Option (Except E Unit) :=
  match _h : splitLine wire with
  | none =>
    if wire.length > MAX_LINE_LEN then i.ended (.error (.lineTooLong MAX_LINE_LEN)) else ([], none)
  | some (line, rest) =>
    if line.length > MAX_LINE_LEN then i.ended (.error (.lineTooLong MAX_LINE_LEN))
    else
      match progress (enqueueBytes f line) with
      | (some (.line (some announcement)), f') =>
        match i.accept s line announcement with
        | .error err => ([], some (.error err))
        | .ok (ts, s') =>
          if announcement.length ≤ rest.length then
            tells (ts ++ ((rest.take announcement.length).map i.octet ++ i.close))
              (outcome s' (skipMessage f') (rest.drop announcement.length))
          else (ts ++ rest.map i.octet, none)
      | (some (.line none), f') =>
        match BodyStream.decodeTerminal f' with
        | some result => i.ended result
        | none => outcome s f' rest
      | (_, f') => outcome s f' rest
termination_by wire.length
decreasing_by
  all_goals
    obtain ⟨hw, hne⟩ := splitLine_eq _h
    have hpos := List.length_pos_of_ne_nil hne
    simp only [hw, List.length_append, List.length_drop]
    omega

section Outcome

variable {i : Intake σ T E} {s s' : σ} {f f' : F} {wire line rest : Bytes} {ts : List T}

theorem outcome_none (hl : splitLine wire = none) :
    i.outcome s f wire =
      if wire.length > MAX_LINE_LEN then i.ended (.error (.lineTooLong MAX_LINE_LEN))
      else ([], none) := by
  rw [outcome]
  split
  · rfl
  · simp_all

theorem outcome_tooLong (hl : splitLine wire = some (line, rest)) (hlen : line.length > MAX_LINE_LEN) :
    i.outcome s f wire = i.ended (.error (.lineTooLong MAX_LINE_LEN)) := by
  rw [outcome]
  split
  · simp_all
  · rename_i l r heq
    rw [hl] at heq
    obtain ⟨rfl, rfl⟩ : line = l ∧ rest = r := by simpa using heq
    rw [if_pos hlen]

theorem outcome_line (hl : splitLine wire = some (line, rest)) (hlen : line.length ≤ MAX_LINE_LEN) :
    i.outcome s f wire =
      match progress (enqueueBytes f line) with
      | (some (.line (some announcement)), f') =>
        match i.accept s line announcement with
        | .error err => ([], some (.error err))
        | .ok (ts, s') => tells ts (i.body announcement.length rest (i.outcome s' (skipMessage f')))
      | (some (.line none), f') =>
        match BodyStream.decodeTerminal f' with
        | some result => i.ended result
        | none => i.outcome s f' rest
      | (_, f') => i.outcome s f' rest := by
  rw [outcome]
  split
  · simp_all
  · rename_i l r heq
    rw [hl] at heq
    obtain ⟨rfl, rfl⟩ : line = l ∧ rest = r := by simpa using heq
    rw [if_neg (Nat.not_lt.mpr hlen)]
    rcases progress (enqueueBytes f line) with ⟨- | ((- | a) | -), f'⟩
    · rfl
    · rfl
    · dsimp only
      rcases i.accept s line a with err | ⟨ts, s'⟩
      · rfl
      · dsimp only [body]
        split <;> simp [tells]
    · rfl

theorem outcome_literal {a : LiteralAnnouncement} (hl : splitLine wire = some (line, rest))
    (hlen : line.length ≤ MAX_LINE_LEN)
    (hp : progress (enqueueBytes f line) = (some (.line (some a)), f'))
    (ha : i.accept s line a = .ok (ts, s')) :
    i.outcome s f wire = tells ts (i.body a.length rest (i.outcome s' (skipMessage f'))) := by
  rw [outcome_line hl hlen]
  simp only [hp, ha]

theorem outcome_refused {a : LiteralAnnouncement} {err : E} (hl : splitLine wire = some (line, rest))
    (hlen : line.length ≤ MAX_LINE_LEN)
    (hp : progress (enqueueBytes f line) = (some (.line (some a)), f'))
    (ha : i.accept s line a = .error err) : i.outcome s f wire = ([], some (.error err)) := by
  rw [outcome_line hl hlen]
  simp only [hp, ha]

theorem outcome_terminal {result : Except BodyStreamError Unit}
    (hl : splitLine wire = some (line, rest)) (hlen : line.length ≤ MAX_LINE_LEN)
    (hp : progress (enqueueBytes f line) = (some (.line none), f'))
    (hd : BodyStream.decodeTerminal f' = some result) : i.outcome s f wire = i.ended result := by
  rw [outcome_line hl hlen]
  simp only [hp, hd]

theorem outcome_passes (hl : splitLine wire = some (line, rest)) (hlen : line.length ≤ MAX_LINE_LEN)
    (hp : progress (enqueueBytes f line) = (some (.line none), f'))
    (hd : BodyStream.decodeTerminal f' = none) : i.outcome s f wire = i.outcome s f' rest := by
  rw [outcome_line hl hlen]
  simp only [hp, hd]

theorem outcome_continues {info : Option FragmentInfo} (hl : splitLine wire = some (line, rest))
    (hlen : line.length ≤ MAX_LINE_LEN) (hp : progress (enqueueBytes f line) = (info, f'))
    (hi : ∀ a, info ≠ some (.line a)) : i.outcome s f wire = i.outcome s f' rest := by
  rw [outcome_line hl hlen]
  rcases info with - | (a | -)
  · simp only [hp]
  · exact absurd rfl (hi a)
  · simp only [hp]

end Outcome
end Intake

/-! ### Points inside a reply -/

/-- A point inside a reply: what the coroutine remembers, the fragmentizer, the octets
read but not looked at, and inside a literal the number of its octets still to come. -/
structure Place (σ F : Type) where
  memory : σ
  frag : F
  pending : Bytes
  literal : Option Nat

namespace Intake

variable {σ T E F : Type} (i : Intake σ T E) [Fragmentizer F]

def outcomeAt (p : Place σ F) (wire : Bytes) : List T × Option (Except E Unit) :=
  match p.literal with
  | none => i.outcome p.memory p.frag (p.pending ++ wire)
  | some n => i.body n (p.pending ++ wire) (i.outcome p.memory (skipMessage p.frag))

/-- Taking `taken` off the wire and telling `ts` leads from `p` to `q`. -/
def Leads (p : Place σ F) (taken : Bytes) (ts : List T) (q : Place σ F) : Prop :=
  ∀ wire, i.outcomeAt p (taken ++ wire) = tells ts (i.outcomeAt q wire)

def Settles (p : Place σ F) (taken : Bytes) (ts : List T) (result : Except E Unit) : Prop :=
  ∀ wire, i.outcomeAt p (taken ++ wire) = (ts, some result)

section Leads

variable {i} {p q r : Place σ F} {s s' : σ} {f f' : F} {taken pending line rest : Bytes} {ts us : List T}
  {n : Nat} {result : Except E Unit}

theorem Leads.refl (p : Place σ F) : i.Leads p [] [] p := fun _ => rfl

theorem Leads.trans (h : i.Leads p taken ts q) (k : i.Leads q [] us r) :
    i.Leads p taken (ts ++ us) r := by
  intro wire
  have hk := k wire
  rw [List.nil_append] at hk
  rw [h wire, hk, tells_tells]

theorem Leads.settles (h : i.Leads p taken ts q) (k : i.Settles q [] us result) :
    i.Settles p taken (ts ++ us) result := by
  intro wire
  have hk := k wire
  rw [List.nil_append] at hk
  rw [h wire, hk, tells]

theorem leads_read (s : σ) (f : F) (pending taken : Bytes) :
    i.Leads ⟨s, f, pending, none⟩ taken [] ⟨s, f, pending ++ taken, none⟩ := by
  intro wire
  simp only [outcomeAt, List.append_assoc, tells_nil]

theorem body_split {k : Nat} {octets : Bytes} (hn : k ≤ n) (hk : k ≤ octets.length)
    (next : Bytes → List T × Option (Except E Unit)) :
    i.body n octets next =
      tells ((octets.take k).map i.octet) (i.body (n - k) (octets.drop k) next) := by
  have hlen : n ≤ octets.length ↔ n - k ≤ (octets.drop k).length := by
    rw [List.length_drop]
    omega
  unfold body
  by_cases h : n ≤ octets.length
  · have htake : octets.take n = octets.take k ++ (octets.drop k).take (n - k) := by
      rw [← List.take_add, Nat.add_sub_cancel' hn]
    rw [if_pos h, if_pos (hlen.mp h), tells_tells, htake, List.drop_drop, Nat.add_sub_cancel' hn,
      List.map_append, List.append_assoc]
  · rw [if_neg h, if_neg fun hx => h (hlen.mpr hx)]
    simp only [tells, ← List.map_append, List.take_append_drop]

theorem leads_chunk (s : σ) (f : F) {k : Nat} (hn : k ≤ n) (hk : k ≤ pending.length) :
    i.Leads ⟨s, f, pending, some n⟩ [] ((pending.take k).map i.octet)
      ⟨s, f, pending.drop k, some (n - k)⟩ := by
  intro wire
  have hle : k ≤ (pending ++ wire).length := by
    rw [List.length_append]
    omega
  simp only [outcomeAt, List.nil_append]
  rw [body_split hn hle, List.take_append_of_le_length hk, List.drop_append_of_le_length hk]

theorem leads_copy (s : σ) (f : F) (h : taken.length = n) :
    i.Leads ⟨s, f, [], some n⟩ taken (taken.map i.octet) ⟨s, f, [], some 0⟩ := by
  intro wire
  have hle : n ≤ (taken ++ wire).length := by
    rw [List.length_append]
    omega
  simp only [outcomeAt, List.nil_append]
  rw [body_split (Nat.le_refl n) hle, Nat.sub_self, List.take_append_of_le_length (Nat.le_of_eq h.symm),
    List.drop_append_of_le_length (Nat.le_of_eq h.symm), ← h, List.take_length, List.drop_length,
    List.nil_append]

theorem leads_close (s : σ) (f : F) (pending : Bytes) :
    i.Leads ⟨s, f, pending, some 0⟩ [] i.close ⟨s, skipMessage f, pending, none⟩ := by
  intro wire
  simp [outcomeAt, body]

/-- The line that `pending` starts with is looked at in the same way whatever comes behind. -/
theorem leads_literal {a : LiteralAnnouncement} (hl : splitLine pending = some (line, rest))
    (hlen : line.length ≤ MAX_LINE_LEN)
    (hp : progress (enqueueBytes f line) = (some (.line (some a)), f'))
    (ha : i.accept s line a = .ok (ts, s')) :
    i.Leads ⟨s, f, pending, none⟩ [] ts ⟨s', f', rest, some a.length⟩ := by
  intro wire
  exact outcome_literal (splitLine_append hl wire) hlen hp ha

theorem settles_refused {a : LiteralAnnouncement} {err : E} (hl : splitLine pending = some (line, rest))
    (hlen : line.length ≤ MAX_LINE_LEN)
    (hp : progress (enqueueBytes f line) = (some (.line (some a)), f'))
    (ha : i.accept s line a = .error err) :
    i.Settles ⟨s, f, pending, none⟩ [] [] (.error err) := by
  intro wire
  exact outcome_refused (splitLine_append hl wire) hlen hp ha

theorem settles_terminal {result : Except BodyStreamError Unit}
    (hl : splitLine pending = some (line, rest)) (hlen : line.length ≤ MAX_LINE_LEN)
    (hp : progress (enqueueBytes f line) = (some (.line none), f'))
    (hd : BodyStream.decodeTerminal f' = some result) :
    i.Settles ⟨s, f, pending, none⟩ [] [] (result.mapError i.error) := by
  intro wire
  exact outcome_terminal (splitLine_append hl wire) hlen hp hd

theorem leads_passes (hl : splitLine pending = some (line, rest)) (hlen : line.length ≤ MAX_LINE_LEN)
    (hp : progress (enqueueBytes f line) = (some (.line none), f'))
    (hd : BodyStream.decodeTerminal f' = none) :
    i.Leads ⟨s, f, pending, none⟩ [] [] ⟨s, f', rest, none⟩ := by
  intro wire
  exact outcome_passes (splitLine_append hl wire) hlen hp hd

theorem leads_continues {info : Option FragmentInfo} (hl : splitLine pending = some (line, rest))
    (hlen : line.length ≤ MAX_LINE_LEN) (hp : progress (enqueueBytes f line) = (info, f'))
    (hi : ∀ a, info ≠ some (.line a)) :
    i.Leads ⟨s, f, pending, none⟩ [] [] ⟨s, f', rest, none⟩ := by
  intro wire
  exact outcome_continues (splitLine_append hl wire) hlen hp hi

end Leads
end Intake

/-! ### The lines that the coroutines read -/

theorem length_of_splitLine_none {bs more line rest : Bytes} (h : splitLine bs = none)
    (hl : splitLine (bs ++ more) = some (line, rest)) : bs.length < line.length := by
  induction bs generalizing line with
  | nil =>
    have hne := (splitLine_eq hl).2
    exact List.length_pos_of_ne_nil hne
  | cons b bs ih =>
    simp only [splitLine, List.cons_append] at h hl
    split at h
    · simp at h
    · rename_i hb
      rw [if_neg hb] at hl
      obtain ⟨⟨l, r⟩, hlr, he⟩ := Option.map_eq_some_iff.mp hl
      obtain ⟨rfl, rfl⟩ := Prod.mk.inj he
      have hlt := ih (Option.map_eq_none_iff.mp h) hlr
      simpa using hlt

namespace BodyStream

/-- The line that `pending` starts with is refused once it is known to be too long. -/
def TooLong (pending : Bytes) : Prop :=
  (splitLine pending = none ∧ pending.length > MAX_LINE_LEN) ∨
    ∃ line rest, splitLine pending = some (line, rest) ∧ line.length > MAX_LINE_LEN

theorem nextLine_length {s s' : BodyStream} {line : Bytes} (h : s.Scanned)
    (hn : s.nextLine = (.ok (some line), s')) : line.length ≤ MAX_LINE_LEN := by
  have hlines := nextLine_spec h
  rw [hn] at hlines
  cases hlines with
  | line hpending hline hlen =>
    rw [List.length_append]
    exact hlen

theorem nextLine_dry {s s' : BodyStream} (h : s.Scanned) (hn : s.nextLine = (.ok none, s')) :
    splitLine s.pending = none ∧ s.pending.length ≤ MAX_LINE_LEN := by
  have hlines := nextLine_spec h
  rw [hn] at hlines
  cases hlines with
  | more hpending hlen => exact ⟨splitLine_of_notMem hpending, hlen⟩

theorem nextLine_tooLong {s s' : BodyStream} {err : BodyStreamError} (h : s.Scanned)
    (hn : s.nextLine = (.error err, s')) : TooLong s.pending := by
  have hlines := nextLine_spec h
  rw [hn] at hlines
  cases hlines with
  | @tooLong line rest hpending hline hlen =>
    refine .inr ⟨line ++ [LF], rest, ?_, ?_⟩
    · rw [hpending]
      exact splitLine_line hline rest
    · rw [List.length_append, List.length_singleton]
      omega
  | endless hpending hlen => exact .inl ⟨splitLine_of_notMem hpending, hlen⟩

end BodyStream

namespace Intake

variable {σ T E F : Type} {i : Intake σ T E} [Fragmentizer F]

theorem settles_tooLong {pending : Bytes} (h : BodyStream.TooLong pending) (s : σ) (f : F) :
    i.Settles ⟨s, f, pending, none⟩ [] [] (.error (i.error (.lineTooLong MAX_LINE_LEN))) := by
  intro wire
  show i.outcome s f (pending ++ wire) = i.ended (.error (.lineTooLong MAX_LINE_LEN))
  rcases h with ⟨hl, hlen⟩ | ⟨line, rest, hl, hlen⟩
  · cases hw : splitLine (pending ++ wire) with
    | none =>
      rw [outcome_none hw, if_pos]
      rw [List.length_append]
      omega
    | some parts =>
      have hlt := length_of_splitLine_none hl hw
      exact outcome_tooLong hw (by omega)
  · exact outcome_tooLong (splitLine_append hl wire) hlen

/-- Where reading lines leads from `p` once `taken` came off the wire. -/
def Reads (i : Intake σ T E) (s : σ) (p : Place σ F) (taken : Bytes) :
    LinesOutcome × BodyStream × F → Prop
  | (.wantsRead, b, f) =>
    i.Leads p taken [] ⟨s, f, b.pending, none⟩ ∧ splitLine b.pending = none ∧
      b.pending.length ≤ MAX_LINE_LEN
  | (.announced line a, b, f) =>
    (∀ ts s', i.accept s line a = .ok (ts, s') →
      i.Leads p taken ts ⟨s', f, b.pending, some a.length⟩) ∧
    ∀ err, i.accept s line a = .error err → i.Settles p taken [] (.error err)
  | (.complete result, _, _) => i.Settles p taken [] (result.mapError i.error)

theorem Reads.after {s : σ} {p q : Place σ F} {taken : Bytes} (h : i.Leads p taken [] q)
    {r : LinesOutcome × BodyStream × F} (k : i.Reads s q [] r) : i.Reads s p taken r := by
  obtain ⟨o, b, f⟩ := r
  cases o with
  | wantsRead => exact ⟨h.trans k.1, k.2⟩
  | announced line a =>
    exact ⟨fun ts s' ha => h.trans (k.1 ts s' ha), fun err ha => h.settles (k.2 err ha)⟩
  | complete result => exact h.settles k

theorem readLines_reads {b : BodyStream} (h : b.Between) (s : σ) (f : F) :
    i.Reads s ⟨s, f, b.pending, none⟩ [] (b.readLines f) := by
  fun_induction BodyStream.readLines b f with
  | case1 b f err b' hn =>
    obtain rfl := BodyStream.nextLine_error hn
    exact settles_tooLong (BodyStream.nextLine_tooLong h.scanned hn) s f
  | case2 b f b' hn =>
    obtain ⟨-, hpending, -⟩ := BodyStream.nextLine_none h.scanned hn
    have hdry := BodyStream.nextLine_dry h.scanned hn
    rw [← hpending] at hdry ⊢
    exact ⟨.refl _, hdry⟩
  | case3 b f line b' hn a f' hp =>
    obtain ⟨hl, -, -⟩ := BodyStream.nextLine_line h.scanned hn
    have hlen := BodyStream.nextLine_length h.scanned hn
    exact ⟨fun ts s' ha => leads_literal hl hlen hp ha, fun err ha => settles_refused hl hlen hp ha⟩
  | case4 b f line b' hn f' hp result hd =>
    obtain ⟨hl, -, -⟩ := BodyStream.nextLine_line h.scanned hn
    exact settles_terminal hl (BodyStream.nextLine_length h.scanned hn) hp hd
  | case5 b f line b' hn f' hp hd ih =>
    obtain ⟨hl, hscanned, hstream⟩ := BodyStream.nextLine_line h.scanned hn
    have hleads := leads_passes (i := i) (s := s) hl (BodyStream.nextLine_length h.scanned hn) hp hd
    exact .after hleads (ih ⟨BodyStream.scanned_zero hscanned, hstream.trans h.streamPending⟩)
  | case6 b f line b' hn info f' hliteral hplain hp ih =>
    obtain ⟨hl, hscanned, hstream⟩ := BodyStream.nextLine_line h.scanned hn
    have hi : ∀ a, info ≠ some (.line a) := by
      intro a he
      cases a with
      | none => exact hplain he
      | some a => exact hliteral a he
    have hleads := leads_continues (i := i) (s := s) hl (BodyStream.nextLine_length h.scanned hn) hp hi
    exact .after hleads (ih ⟨BodyStream.scanned_zero hscanned, hstream.trans h.streamPending⟩)

theorem parseLines_reads {b : BodyStream} (h : b.Between) (s : σ) (f : F) {due : Request}
    {arg : Option Bytes} {taken : Bytes} (hdue : BodyStream.ReadsLines due)
    (hans : due.answeredBy arg = true) (htaken : due.Takes arg taken) (hmore : arg ≠ some []) :
    i.Reads s ⟨s, f, b.pending, none⟩ taken (b.parseLines f arg) := by
  rcases hdue with rfl | rfl
  · obtain rfl := Request.answeredBy_nothing.mp hans
    obtain rfl : taken = [] := htaken
    exact readLines_reads h s f
  · obtain ⟨bytes, rfl⟩ := Option.isSome_iff_exists.mp hans
    obtain rfl : taken = bytes := htaken
    cases taken with
    | nil => exact absurd rfl hmore
    | cons c cs =>
      exact .after (leads_read s f b.pending (c :: cs))
        (readLines_reads ⟨h.scanned.extend _, h.streamPending⟩ s f)

/-- Where the octets of a literal lead from `p` once `taken` came off the wire. -/
def Streams (i : Intake σ T E) (s : σ) (f : F) (p : Place σ F) (taken : Bytes) (copied : Bytes) :
    StreamOutcome × BodyStream × Option Bytes → Prop
  | (.finished, b, arg) =>
    arg = none ∧ b.Between ∧
      i.Leads p taken (copied.map i.octet ++ i.close) ⟨s, skipMessage f, b.pending, none⟩
  | (.chunk bytes, b, _) =>
    i.Leads p taken ((copied ++ bytes).map i.octet) ⟨s, f, b.pending, some b.remaining⟩
  | (.wants _, b, _) => i.Leads p taken (copied.map i.octet) ⟨s, f, b.pending, some b.remaining⟩
  | (.short, _, _) => False

theorem streamBody_streams {b : BodyStream} {due : Request} (h : b.Inside due) (s : σ) (f : F)
    {arg : Option Bytes} {taken : Bytes} (hans : due.answeredBy arg = true)
    (htaken : due.Takes arg taken) (hmore : arg ≠ some []) :
    i.Streams s f ⟨s, f, b.pending, some b.remaining⟩ taken (due.copied taken) (b.streamBody arg) := by
  unfold BodyStream.streamBody
  cases h with
  | goesOn hscanned hstream =>
    obtain rfl := Request.answeredBy_nothing.mp hans
    obtain rfl : taken = [] := htaken
    by_cases hrem : b.remaining = 0
    · rw [if_pos hrem, hrem]
      exact ⟨rfl, ⟨BodyStream.scanned_zero hscanned, hstream⟩, leads_close s f b.pending⟩
    rw [if_neg hrem]
    by_cases hpending : b.pending ≠ []
    · rw [if_pos hpending]
      exact leads_chunk s f (Nat.min_le_left _ _) (Nat.min_le_right _ _)
    · rw [if_neg hpending, if_neg (by simp [hstream])]
      exact .refl _
  | copies hscanned hstream hpending hrem =>
    rw [if_neg (by omega), if_neg (by simp [hpending]), if_pos hstream]
    cases arg with
    | none =>
      refine ⟨rfl, ⟨BodyStream.scanned_zero hscanned, rfl⟩, ?_⟩
      have hcopy := leads_copy (i := i) s f (show taken.length = b.remaining from htaken)
      simp only [hpending]
      exact hcopy.trans (leads_close s f [])
    | some bytes =>
      obtain rfl := Request.answeredBy_stream.mp hans
      exact absurd rfl hmore

end Intake

/-! ### Runs -/

/-- The connection had nothing more to give: a read of no octets, or a short copy. -/
def Turn.lost {S F Env Y R : Type} (t : Turn S F Env Y R) : Prop := t.due ≠ .tag ∧ t.arg = some []

open StreamsBodies

section Following

variable {S Y E F σ T : Type} [StreamsBodies S] [Fragmentizer F]

def place (memory : S → σ) (s : S) (f : F) : Place σ F :=
  ⟨memory s, f, (stream s).pending, if phase s = .literal then some (stream s).remaining else none⟩

/-- No line is left to look at. -/
def Dry (s : S) : Prop :=
  phase s = .lines ∧ splitLine (stream s).pending = none ∧ (stream s).pending.length ≤ MAX_LINE_LEN

/-- What a resume from `p` tells the caller, `ts` for the octets copied before it, is
what the octets come to. -/
def Follows (request : Y → Request) (i : Intake σ T E) (memory : S → σ) (told : Y → List T)
    (p : Place σ F) (taken : Bytes) (ts : List T) : CoroutineState Y (Except E Unit) × S × F → Prop
  | (.yielded y, s, f) =>
    i.Leads p taken (ts ++ told y) (place memory s f) ∧ (request y = .read → Dry s)
  | (.complete result, _, _) => i.Settles p taken ts result

end Following

/-- A streaming coroutine that takes its literals as `i` says, `memory` being what it
remembers of those before and `told` what a yield tells the caller. -/
structure BodyIntake {S Y E σ T : Type} [StreamsBodies S] (c : Coroutine S Unit Y (Except E Unit))
    (i : Intake σ T E) (memory : S → σ) (told : Y → List T) : Prop where
  follows : ∀ {F : Type} [Fragmentizer F] {s : S} {due : Request} {arg : Option Bytes}
    {taken : Bytes} (f : F), Awaits s due → due.answeredBy arg = true → due.Takes arg taken →
    (phase s = .command ∨ arg ≠ some []) →
    (phase s = .command → ∀ result, (c.resume s f arg ()).1 ≠ .complete result) →
    Follows c.request i memory told (place memory s f) taken ((due.copied taken).map i.octet)
      (c.resume s f arg ())
  loses : ∀ {F : Type} [Fragmentizer F] {s : S} {due : Request} (f : F), Awaits s due →
    phase s ≠ .command → due.answeredBy (some []) = true →
    (c.resume s f (some []) ()).1 = .complete (.error (i.error .missingTagged)) ∨
      (c.resume s f (some []) ()).1 = .complete (.error (i.error .shortBody))
  error_injective : Function.Injective i.error

section Runs

variable {S Y E F σ T : Type} [StreamsBodies S] [Fragmentizer F]
  {c : Coroutine S Unit Y (Except E Unit)} {i : Intake σ T E} {memory : S → σ} {told : Y → List T}
  {byTagged : Except E Unit → Bool}

def turnTokens (i : Intake σ T E) (told : Y → List T) (t : Turn S F Unit Y (Except E Unit))
    (taken : Bytes) : List T :=
  (t.due.copied taken).map i.octet ++
    (match t.out with
      | .yielded y => told y
      | .complete _ => [])

/-- What the caller was told in a run, of the octets copied included. -/
def tokens (i : Intake σ T E) (told : Y → List T) (es : List (Turn S F Unit Y (Except E Unit)))
    (pieces : List Bytes) : List T :=
  (List.zipWith (turnTokens i told) es pieces).flatten

/-- What is told in a run and what is still to come are what the octets come to. -/
def InsideOutcome (i : Intake σ T E) (memory : S → σ) (told : Y → List T) (s₀ : S) (f : F)
    (es : List (Turn S F Unit Y (Except E Unit))) (a : Config S F) : Prop :=
  ∀ due, a.due = some due → Awaits a.state due ∧ (due = .read → Dry a.state) ∧
    ∀ pieces, List.Forall₂ Turn.Takes es pieces →
      ∀ rest, i.outcomeAt (place memory s₀ f) (pieces.flatten ++ rest) =
        Intake.tells (tokens i told es pieces) (i.outcomeAt (place memory a.state a.frag) rest)

theorem BodyIntake.turn (hc : BodyStreaming c byTagged) (hi : BodyIntake c i memory told)
    {a b : Config S F} {t : Turn S F Unit Y (Except E Unit)} (h : c.Step a t b)
    (ha : ∀ due, a.due = some due → Awaits a.state due)
    (hmore : phase a.state = .command ∨ t.arg ≠ some [])
    (hcommand : phase a.state = .command → ∀ result, t.out ≠ .complete result) {taken : Bytes}
    (htaken : t.Takes taken) :
    Follows c.request i memory told (place memory a.state a.frag) taken
      ((t.due.copied taken).map i.octet) (t.out, b.state, b.frag) := by
  obtain ⟨due, arg, env, hdue, hans, rfl, rfl⟩ := h
  have heq := hc.turn_eq a due arg
  have hout : (c.turn a due arg env).out = (c.resume a.state a.frag arg ()).1 := by rw [heq]
  have hfollows := hi.follows a.frag (ha due hdue) hans htaken hmore fun hp result => hout ▸ hcommand hp result
  rw [heq] at hfollows
  exact hfollows

theorem BodyIntake.more_of_yielded (hi : BodyIntake c i memory told) (hc : BodyStreaming c byTagged)
    {a b : Config S F} {t : Turn S F Unit Y (Except E Unit)} (h : c.Step a t b)
    (ha : ∀ due, a.due = some due → Awaits a.state due) {y : Y} (ho : t.out = .yielded y) :
    phase a.state = .command ∨ t.arg ≠ some [] := by
  obtain ⟨due, arg, env, hdue, hans, rfl, rfl⟩ := h
  by_contra hlost
  rw [not_or, not_not] at hlost
  obtain ⟨hphase, harg⟩ := hlost
  obtain rfl : arg = some [] := harg
  have heq := hc.turn_eq a due (some [])
  have hout : (c.turn a due (some []) env).out = (c.resume a.state a.frag (some []) ()).1 := by rw [heq]
  rcases hi.loses a.frag (ha due hdue) hphase hans with hl | hl
  · rw [hout, hl] at ho
    simp at ho
  · rw [hout, hl] at ho
    simp at ho

theorem BodyIntake.inside (hc : BodyStreaming c byTagged) (hi : BodyIntake c i memory told) {s₀ : S}
    {f : F} {es : List (Turn S F Unit Y (Except E Unit))} {b : Config S F}
    (h0 : Awaits s₀ .nothing) (h : c.Runs s₀ f es b) : InsideOutcome i memory told s₀ f es b := by
  refine Transition.Run.history (P := InsideOutcome i memory told s₀ f) ?_ ?_ h
  · intro due hdue
    obtain rfl : Request.nothing = due := by simpa [Coroutine.start] using hdue
    refine ⟨h0, by simp, ?_⟩
    intro pieces hp rest
    cases hp
    rfl
  · intro es a t b ha hstep due hdue
    obtain ⟨hb, hf, ⟨due₀, hdue₀⟩, hyields, hcomplete, hadv⟩ :=
      hc.step hstep fun due hd => (ha due hd).1
    obtain ⟨-, -, htells⟩ := ha due₀ hdue₀
    cases ho : t.out with
    | complete result => simp [hcomplete result ho] at hdue
    | yielded y =>
      have hmore := hi.more_of_yielded hc hstep (fun due hd => (ha due hd).1) ho
      have hturn : ∀ taken, t.Takes taken → Follows c.request i memory told
          (place memory a.state a.frag) taken ((t.due.copied taken).map i.octet)
          (.yielded y, b.state, b.frag) := by
        intro taken htaken
        rw [← ho]
        exact hi.turn hc hstep (fun due hd => (ha due hd).1) hmore (by simp [ho]) htaken
      rw [hyields y ho] at hdue
      obtain rfl := Option.some.inj hdue
      obtain ⟨taken, htaken⟩ := Request.exists_takes t.due t.arg
      rw [ho] at hadv
      refine ⟨?_, (hturn taken htaken).2, ?_⟩
      · rw [hb]
        exact (hadv taken htaken).1
      · intro pieces hp rest
        obtain ⟨ps, taken, hps, htaken, rfl⟩ := forall₂_concat hp
        have hleads := (hturn taken htaken).1 rest
        have htokens : tokens i told (es ++ [t]) (ps ++ [taken]) =
            tokens i told es ps ++ ((t.due.copied taken).map i.octet ++ told y) := by
          simp [tokens, List.zipWith_append hps.length_eq, turnTokens, ho]
        rw [List.flatten_append, List.flatten_singleton, List.append_assoc, htells ps hps, hleads,
          Intake.tells_tells, htokens]

/-- A run that the server's octets bring to its end tells what they come to. -/
theorem BodyIntake.settled (hc : BodyStreaming c byTagged) (hi : BodyIntake c i memory told) {s₀ : S}
    {f : F} {es : List (Turn S F Unit Y (Except E Unit))} {t : Turn S F Unit Y (Except E Unit)}
    {b : Config S F} {pieces : List Bytes} {result : Except E Unit} (h0 : Awaits s₀ .nothing)
    (h : c.Runs s₀ f (es ++ [t]) b) (hp : List.Forall₂ Turn.Takes (es ++ [t]) pieces)
    (ht : t.out = .complete result) (hphase : phase t.before ≠ .command) (hmore : t.arg ≠ some [])
    (rest : Bytes) :
    i.outcomeAt (place memory s₀ f) (pieces.flatten ++ rest) =
      (tokens i told (es ++ [t]) pieces, some result) := by
  obtain ⟨a, hrun, hstep⟩ := h.snoc_inv
  have hinside := hi.inside hc h0 hrun
  have hbefore : t.before = a.state := by
    obtain ⟨due, arg, env, -, -, rfl, -⟩ := hstep
    rfl
  obtain ⟨-, -, ⟨due, hdue⟩, -, -, -⟩ := hc.step hstep fun due hd => (hinside due hd).1
  obtain ⟨-, -, htells⟩ := hinside due hdue
  obtain ⟨ps, taken, hps, htaken, rfl⟩ := forall₂_concat hp
  have hsettles := hi.turn hc hstep (fun due hd => (hinside due hd).1) (.inr hmore)
    (fun hx => absurd (hbefore ▸ hx) hphase) htaken
  rw [ht] at hsettles
  have htokens : tokens i told (es ++ [t]) (ps ++ [taken]) =
      tokens i told es ps ++ (t.due.copied taken).map i.octet := by
    simp [tokens, List.zipWith_append hps.length_eq, turnTokens, ht]
  rw [List.flatten_append, List.flatten_singleton, List.append_assoc, htells ps hps, hsettles rest,
    htokens]
  rfl

theorem outcomeAt_dry {s : S} (h : Dry s) (f : F) :
    (i.outcomeAt (place memory s f) []).2 = none := by
  obtain ⟨hphase, hl, hlen⟩ := h
  simp only [Intake.outcomeAt, place, hphase, reduceCtorEq, if_false, List.append_nil]
  rw [Intake.outcome_none hl, if_neg (Nat.not_lt.mpr hlen)]

theorem outcome_nil (i : Intake σ T E) (s : σ) (f : F) : i.outcome s f [] = ([], none) := by
  rw [Intake.outcome_none rfl]
  rfl

/-- A run that loses its connection has not come to the end of the reply. -/
theorem BodyIntake.unsettled (hc : BodyStreaming c byTagged) (hi : BodyIntake c i memory told)
    {s₀ : S} {f : F} {es : List (Turn S F Unit Y (Except E Unit))}
    {t : Turn S F Unit Y (Except E Unit)} {b : Config S F} {pieces : List Bytes}
    (h0 : Awaits s₀ .nothing) (h : c.Runs s₀ f (es ++ [t]) b)
    (hp : List.Forall₂ Turn.Takes (es ++ [t]) pieces) (hphase : phase t.before ≠ .command)
    (hlost : t.arg = some []) :
    (t.out = .complete (.error (i.error .missingTagged)) ∨
      t.out = .complete (.error (i.error .shortBody))) ∧
    (i.outcomeAt (place memory s₀ f) pieces.flatten).2 = none := by
  obtain ⟨a, hrun, hstep⟩ := h.snoc_inv
  have hinside := hi.inside hc h0 hrun
  obtain ⟨due, arg, env, hdue, hans, rfl, rfl⟩ := hstep
  obtain rfl : arg = some [] := hlost
  have hphase : phase a.state ≠ .command := hphase
  obtain ⟨hawaits, hdry, htells⟩ := hinside due hdue
  obtain ⟨ps, taken, hps, htaken, rfl⟩ := forall₂_concat hp
  have heq := hc.turn_eq a due (some [])
  have hout : (c.turn a due (some []) env).out = (c.resume a.state a.frag (some []) ()).1 := by rw [heq]
  have hloses := hi.loses a.frag hawaits hphase hans
  rw [← hout] at hloses
  refine ⟨hloses, ?_⟩
  have htells := htells ps hps taken
  rw [List.flatten_append, List.flatten_singleton, htells]
  unfold Awaits at hawaits
  cases hph : phase a.state with
  | command => exact absurd hph hphase
  | lines =>
    rw [hph] at hawaits
    rcases hawaits.2 with rfl | rfl
    · simp [Request.answeredBy] at hans
    · obtain rfl : taken = [] := htaken
      exact outcomeAt_dry (hdry rfl) a.frag
  | literal =>
    rw [hph] at hawaits
    cases hawaits with
    | goesOn => simp [Request.answeredBy] at hans
    | copies hscanned hstream hpending hrem =>
      have hle : taken.length ≤ (stream a.state).remaining := htaken
      simp only [Intake.tells, Intake.outcomeAt, place, hph, if_true, hpending, List.nil_append,
        Intake.body]
      split
      · have hdrop : taken.drop (stream a.state).remaining = [] := List.drop_eq_nil_of_le hle
        rw [hdrop, outcome_nil]
      · rfl

end Runs
end IoImap
