import IoImap.Watch.Replay

/-!
# The UIDVALIDITY of a watch

The UIDs of the shadow mean something under one UIDVALIDITY, which the first
EXAMINE reports and which every resync is checked against before it changes
anything. The check lets an EXAMINE pass that reports no UIDVALIDITY at all.
-/

namespace IoImap
open Fragmentizer Replay Transition

namespace ImapMailboxWatch

variable {F : Type}

/-! ### The EXAMINE of a resync -/

def State.reexamine? : State → Option ImapMailboxExamine
  | examineQresync examine => some examine
  | examineResync examine => some examine
  | _ => none

def State.refetching : State → Bool
  | fetchResync _ => true
  | _ => false

theorem State.refetching_withCommand (state : State) (send : ImapSend Command) :
    (state.withCommand send).refetching = state.refetching := by
  cases state <;> rfl

/-- What the EXAMINE of a resync reports when this resume completes it with success. -/
def resyncData [Fragmentizer F] [TryFrom Bytes Tag] [Encoder Command] (t : Step F) :
    Option ExamineData :=
  match t.before.state.reexamine? with
  | none => none
  | some examine =>
    match (ImapMailboxExamine.resume examine (⟨t.frag, []⟩ : Logged F) t.arg).1 with
    | .complete (.ok data) => some data
    | _ => none

def Modifies (t : Step F) : Prop := Outcome.mailbox (t.out, t.after) ≠ t.before.toShadowedMailbox

/-- UIDVALIDITY safety of a resume and the history before it: the known value
stays; a resync changes something only if its EXAMINE reported the known value;
and when it reported another one or none, the watch ends with an error and
changes nothing. -/
structure UidSafe [Fragmentizer F] [TryFrom Bytes Tag] [Encoder Command] (past : List (Step F))
    (t : Step F) : Prop where
  stays : ∀ u, t.before.uidValidity = some u → t.after.uidValidity = some u
  checked : t.before.state.opening = false → Modifies t →
    ∃ data u, lastSome resyncData (past ++ [t]) = some data ∧ data.uidValidity = some u ∧
      t.before.uidValidity = some u
  refused : ∀ data ∈ resyncData t, data.uidValidity ≠ t.before.uidValidity →
    (∃ err, t.out = .complete (.error err)) ∧ ¬ Modifies t ∧
      t.after.highestModSeq = t.before.highestModSeq

def Reports [Fragmentizer F] [TryFrom Bytes Tag] [Encoder Command] (t : Step F) : Prop :=
  ∀ data ∈ resyncData t, data.uidValidity.isSome

instance [Fragmentizer F] [TryFrom Bytes Tag] [Encoder Command] (t : Step F) :
    Decidable (Reports t) :=
  match h : resyncData t with
  | none => isTrue (by simp [Reports, h])
  | some data => decidable_of_iff (data.uidValidity.isSome = true) (by simp [Reports, h])

/-! ### What is known of the UIDVALIDITY -/

/-- The UIDVALIDITY is unset before the first EXAMINE is over and set from then on. -/
def Known (w : ImapMailboxWatch) : Prop :=
  match w.state with
  | .enableQresync _ => w.uidValidity = none
  | .examineInitial _ => w.uidValidity = none
  | .terminal => True
  | _ => w.uidValidity.isSome

/-- The outcome keeps the UIDVALIDITY and the mod-sequence, and does not start
to read a snapshot. -/
structure Steady (w : ImapMailboxWatch) (o : Outcome) : Prop where
  uidValidity : o.2.uidValidity = w.uidValidity
  highestModSeq : o.2.highestModSeq = w.highestModSeq
  refetching : o.2.state.refetching = false
  known : w.uidValidity.isSome → Known o.2

section Outcomes

variable {w : ImapMailboxWatch} {env : ImapMailboxWatchEnv}

theorem Continues.steady [Base64Codec] [TryFrom String Mailbox] {o : Outcome}
    (h : Continues w env o) : Steady w o := by
  cases h with
  | completes => exact ⟨rfl, rfl, rfl, fun _ => trivial⟩
  | reexamines opts hinto => rcases hinto with rfl | rfl <;> exact ⟨rfl, rfl, rfl, id⟩
  | _ => exact ⟨rfl, rfl, rfl, id⟩

theorem beginIdle_ne_error (err : ImapMailboxWatchError) :
    (w.beginIdle env).1 ≠ .complete (.error err) := by
  unfold beginIdle
  split
  · simp [complete]
  · split <;> simp [startIdle]

theorem emitDeltas_ne_error (err : ImapMailboxWatchError) :
    (w.emitDeltas env).1 ≠ .complete (.error err) := by
  unfold emitDeltas
  split
  · simp
  · exact beginIdle_ne_error err

end Outcomes

/-! ### The check -/

def reexamined (w : ImapMailboxWatch) (data : ExamineData) (env : ImapMailboxWatchEnv) : Outcome :=
  match w.state with
  | .examineQresync _ => w.examinedQresync data env
  | _ => w.examinedResync data

def reexamines (w : ImapMailboxWatch) (env : ImapMailboxWatchEnv)
    (r : CoroutineState ImapYield (Except ImapMailboxExamineError ExamineData))
    (examine : ImapMailboxExamine) : Outcome :=
  match r with
  | .yielded y => (.yielded (.ofYield y), { w with state := w.state.withCommand examine })
  | .complete (.error err) => w.complete (.error (.examine err))
  | .complete (.ok data) => w.reexamined data env

theorem resume_reexamine [Fragmentizer F] [TryFrom Bytes Tag] [Encoder Command] [Encoder IdleDone]
    [Base64Codec] [TryFrom String Mailbox] {w : ImapMailboxWatch} {examine : ImapMailboxExamine}
    (h : w.state.reexamine? = some examine) (f : F) (arg : Option Bytes)
    (env : ImapMailboxWatchEnv) :
    let r := ImapMailboxExamine.resume examine f arg
    let o := (w.wake env).reexamines env r.1 r.2.1
    w.resume f arg env = (o.1, o.2, r.2.2) := by
  have hstate : (w.wake env).state = w.state := rfl
  intro r o
  have hr : ImapMailboxExamine.resume examine f arg = r := rfl
  unfold resume
  cases hs : w.state with
  | examineQresync send =>
    obtain rfl : send = examine := by simpa [hs, State.reexamine?] using h
    simp only [hstate, hs, hr, exchange, o, reexamines, reexamined, State.withCommand]
    obtain ⟨y | (err | data), send', f'⟩ := r <;> rfl
  | examineResync send =>
    obtain rfl : send = examine := by simpa [hs, State.reexamine?] using h
    simp only [hstate, hs, hr, exchange, o, reexamines, reexamined, State.withCommand]
    obtain ⟨y | (err | data), send', f'⟩ := r <;> rfl
  | _ => simp [hs, State.reexamine?] at h

section Check

variable {w : ImapMailboxWatch} {data : ExamineData} {env : ImapMailboxWatchEnv} {u : NonZeroU32}

theorem reexamined_changed (hw : w.uidValidity = some u) {v : NonZeroU32}
    (hv : data.uidValidity = some v) (hne : v ≠ u) :
    w.reexamined data env = w.complete (.error (.uidValidityChanged u v)) := by
  have hcheck : w.checkUidValidity data = .error (.uidValidityChanged u v) := by
    rw [checkUidValidity, hw, hv]
    exact if_pos (Ne.symm hne)
  unfold reexamined examinedQresync examinedResync
  rw [hcheck]
  split <;> rfl

theorem reexamined_passes (hw : w.uidValidity = some u) (hv : ∀ v, data.uidValidity = some v → v = u)
    (err : ImapMailboxWatchError) : (w.reexamined data env).1 ≠ .complete (.error err) := by
  have hcheck : w.checkUidValidity data = .ok () := by
    rw [checkUidValidity, hw]
    cases h : data.uidValidity with
    | none => rfl
    | some v => exact if_neg (fun hne => hne (hv v h).symm)
  unfold reexamined examinedQresync examinedResync
  rw [hcheck]
  split
  · exact emitDeltas_ne_error err
  · simp [startCommand]

end Check

/-! ### One resume -/

def Remembers (known : Option NonZeroU32) (w : ImapMailboxWatch) : Prop :=
  Known w ∧ ∀ u, known = some u → w.uidValidity = some u

theorem Steady.remembers {w : ImapMailboxWatch} {o : Outcome} {known : Option NonZeroU32}
    (h : Steady w o) (hw : w.uidValidity = known) (hknown : known.isSome) : Remembers known o.2 :=
  ⟨h.known (hw ▸ hknown), fun _ hu => h.uidValidity.trans (hw.trans hu)⟩

theorem known_withCommand {w : ImapMailboxWatch} (h : Known w) (send : ImapSend Command) :
    Known { w with state := w.state.withCommand send } := by
  unfold Known at h ⊢
  cases hs : w.state <;> simp_all [State.withCommand]

theorem known_reexamine {w : ImapMailboxWatch} (h : Known w) {examine : ImapMailboxExamine}
    (hs : w.state.reexamine? = some examine) : ∃ u, w.uidValidity = some u := by
  unfold Known at h
  cases hst : w.state <;> simp_all [State.reexamine?, Option.isSome_iff_exists]

section Resumed

variable [Base64Codec] [TryFrom String Mailbox] {w w' : ImapMailboxWatch}
  {env : ImapMailboxWatchEnv} {out : ImapMailboxWatchResult}

theorem answered_remembers (h : Known w) (o : ImapSendOutput Command) :
    Remembers w.uidValidity (w.answered env o).2 := by
  unfold Known at h
  unfold answered
  cases hs : w.state with
  | enableQresync send =>
    simp only [hs] at h
    exact ⟨h, fun _ hu => hu⟩
  | examineInitial send =>
    simp only [hs] at h
    refine ⟨?_, fun u hu => by simp [h] at hu⟩
    simp only [examinedInitial]
    split
    · trivial
    · split
      · split
        · trivial
        · rfl
      · rfl
  | fetchBaseline send =>
    simp only [hs] at h
    exact beginIdle_continues.steady.remembers rfl h
  | examineQresync send =>
    simp only [hs] at h
    simp only [examinedQresync]
    split
    · exact ⟨trivial, fun _ hu => hu⟩
    · exact emitDeltas_continues.steady.remembers rfl h
  | examineResync send =>
    simp only [hs] at h
    simp only [examinedResync]
    split
    · exact ⟨trivial, fun _ hu => hu⟩
    · exact ⟨h, fun _ hu => hu⟩
  | fetchResync send =>
    simp only [hs] at h
    exact emitDeltas_continues.steady.remembers rfl h
  | _ => exact ⟨trivial, fun _ hu => hu⟩

variable {f f' : F} {arg : Option Bytes} {events : List FragmentizerEvent} [Fragmentizer F]
  [Encoder IdleDone]

theorem Resumed.remembers (h : Resumed w f env arg out w' f' events) (hw : Known w) :
    Remembers w.uidValidity w' := by
  have hsome : ∀ {idle : ImapIdle}, w.state = .idle idle → w.uidValidity.isSome := by
    intro idle hs
    simpa [Known, hs] using hw
  cases h with
  | goesOn hs hr => exact ⟨known_withCommand (w := w.wake env) hw _, fun _ hu => hu⟩
  | fails hs hr hout => exact ⟨trivial, fun _ hu => hu⟩
  | succeeds hs hr hout => exact answered_remembers (w := w.wake env) hw _
  | idles hs hr => exact ⟨hsome hs, fun _ hu => hu⟩
  | sees hs hr htag => exact ⟨hsome hs, fun _ hu => hu⟩
  | idleFails hs hr => exact ⟨trivial, fun _ hu => hu⟩
  | idleEnds hs hr => exact idled_continues.steady.remembers rfl (hsome hs)
  | proceeds hs =>
    cases hst : w.state with
    | terminal =>
      have hstate : (w.wake env).state = .terminal := hst
      simp only [proceed, hstate]
      exact ⟨trivial, fun _ hu => hu⟩
    | beginIdle =>
      have hknown : w.uidValidity.isSome := by simpa [Known, hst] using hw
      exact proceed_continues.steady.remembers rfl hknown
    | waiting =>
      have hknown : w.uidValidity.isSome := by simpa [Known, hst] using hw
      exact proceed_continues.steady.remembers rfl hknown
    | emitDeltas =>
      have hknown : w.uidValidity.isSome := by simpa [Known, hst] using hw
      exact proceed_continues.steady.remembers rfl hknown
    | _ => simp [hst, State.isBare] at hs

/-- Outside of the EXAMINE of a resync, only the success of the FETCH of a
snapshot modifies an open mailbox, and no snapshot is begun. -/
theorem Resumed.unmodified (h : Resumed w f env arg out w' f' events)
    (hw : w.state.opening = false) (hexamine : w.state.reexamine? = none)
    (hfetch : w.state.refetching = false) :
    Outcome.mailbox (out, w') = w.toShadowedMailbox := by
  rcases h.keeps hw with hkeeps | ⟨o, ho⟩
  · exact hkeeps.mailbox
  · have hstate : (w.wake env).state = w.state := rfl
    rw [ho]
    unfold answered
    rw [hstate]
    cases hs : w.state
    all_goals first
      | rfl
      | simp [hs, State.opening, State.reexamine?, State.refetching] at hw hexamine hfetch

theorem Resumed.refetching (h : Resumed w f env arg out w' f' events)
    (hexamine : w.state.reexamine? = none) (hfetch : w.state.refetching = false) :
    w'.state.refetching = false := by
  cases h with
  | goesOn hs hr => exact (State.refetching_withCommand _ _).trans hfetch
  | succeeds hs hr hout =>
    have hstate : (w.wake env).state = w.state := rfl
    unfold answered
    rw [hstate]
    cases hst : w.state with
    | examineInitial send =>
      simp only [examinedInitial]
      split
      · rfl
      · split
        · split <;> rfl
        · rfl
    | fetchBaseline send => exact beginIdle_continues.steady.refetching
    | examineQresync send => simp [hst, State.reexamine?] at hexamine
    | examineResync send => simp [hst, State.reexamine?] at hexamine
    | fetchResync send => simp [hst, State.refetching] at hfetch
    | _ => rfl
  | idleEnds hs hr => exact idled_continues.steady.refetching
  | proceeds hs => exact proceed_continues.steady.refetching
  | _ => rfl

end Resumed

/-! ### The UIDVALIDITY that `resync` unwraps -/

section Panics

variable [Base64Codec] [TryFrom String Mailbox] {w : ImapMailboxWatch} {env : ImapMailboxWatchEnv}

theorem resync_ne_panicked (h : w.uidValidity.isSome) :
    w.resync.1 ≠ .complete (.error .panicked) := by
  unfold resync
  split
  · simp [startCommand]
  · simp [startCommand]
  · rename_i hnone
    simp [hnone] at h

theorem idled_ne_panicked (h : w.uidValidity.isSome) :
    (w.idled env).1 ≠ .complete (.error .panicked) := by
  unfold idled
  split
  · simp [complete]
  · split
    · exact resync_ne_panicked h
    · exact beginIdle_ne_error _

theorem afterIdle_ne_panicked (h : w.uidValidity.isSome) (idle : ImapIdle) (r : ImapIdleResult)
    (hr : ImapIdle.isEvent r = false) : (w.afterIdle idle env r hr).1 ≠ .complete (.error .panicked) := by
  rcases r with (- | - | - | event) | (err | -)
  · simp [afterIdle]
  · simp [afterIdle]
  · simp [afterIdle]
  · simp [ImapIdle.isEvent] at hr
  · simp [afterIdle, complete]
  · exact idled_ne_panicked h

omit [Base64Codec] [TryFrom String Mailbox] in
theorem checkUidValidity_ne_panicked (data : ExamineData) :
    w.checkUidValidity data ≠ .error .panicked := by
  unfold checkUidValidity
  split
  · split <;> simp
  · simp

variable {F : Type}

omit [Base64Codec] [TryFrom String Mailbox] in
theorem exchange_ne_panicked {V : Type} {into : ImapSend Command → State}
    {error : ImapCommandError → ImapMailboxWatchError} {next : V → Outcome}
    {r : CoroutineState ImapYield (Except ImapCommandError V) × ImapSend Command × F}
    (herror : ∀ err, error err ≠ .panicked) (hnext : ∀ v, (next v).1 ≠ .complete (.error .panicked)) :
    (w.exchange into error next r).1 ≠ .complete (.error .panicked) := by
  obtain ⟨y | (err | v), send, f⟩ := r
  · simp [exchange]
  · simpa [exchange, complete] using herror err
  · exact hnext v

theorem resume_ne_panicked [Fragmentizer F] [TryFrom Bytes Tag] [Encoder Command] [Encoder IdleDone]
    (h : Known w) (f : F) (arg : Option Bytes) (env : ImapMailboxWatchEnv) :
    (w.resume f arg env).1 ≠ .complete (.error .panicked) := by
  unfold Known at h
  unfold resume
  have hstate : (w.wake env).state = w.state := rfl
  have hknown : (w.wake env).uidValidity = w.uidValidity := rfl
  simp only [hstate]
  cases hs : w.state with
  | enableQresync enable =>
    apply exchange_ne_panicked (by simp)
    simp [enabledQresync, startCommand]
  | examineInitial examine =>
    apply exchange_ne_panicked (by simp)
    intro data
    unfold examinedInitial
    split
    · simp [complete]
    · simp only
      split
      · split <;> simp [complete, startCommand]
      · simp [startCommand]
  | fetchBaseline fetch => exact exchange_ne_panicked (by simp) fun data => beginIdle_ne_error _
  | beginIdle => exact beginIdle_ne_error _
  | waiting =>
    simp only [waited]
    split
    · simp [complete]
    · exact resync_ne_panicked (by simpa [hknown, hs] using h)
  | idle idle =>
    have hsome : (w.wake env).uidValidity.isSome := by simpa [hknown, hs] using h
    simp only [resumeIdle]
    split
    · exact afterIdle_ne_panicked hsome _ _ _
    · apply afterIdle_ne_panicked
      exact hsome
  | examineQresync examine =>
    apply exchange_ne_panicked (by simp)
    intro data
    unfold examinedQresync
    split
    · rename_i err herr
      simp only [complete]
      intro hp
      obtain rfl : err = .panicked := by simpa using hp
      exact checkUidValidity_ne_panicked data herr
    · exact emitDeltas_ne_error _
  | examineResync examine =>
    apply exchange_ne_panicked (by simp)
    intro data
    unfold examinedResync
    split
    · rename_i err herr
      simp only [complete]
      intro hp
      obtain rfl : err = .panicked := by simpa using hp
      exact checkUidValidity_ne_panicked data herr
    · simp [startCommand]
  | fetchResync fetch => exact exchange_ne_panicked (by simp) fun data => emitDeltas_ne_error _
  | emitDeltas => exact emitDeltas_ne_error _
  | terminal => simp [complete]

end Panics

/-! ### Runs -/

section Runs

variable [Fragmentizer F] [TryFrom Bytes Tag] [Encoder Command] [Encoder IdleDone] [Base64Codec]
  [TryFrom String Mailbox] {a b : Config ImapMailboxWatch F} {t : Step F}

theorem step_reexamine (h : imapMailboxWatch.Step a t b) {examine : ImapMailboxExamine}
    (hs : t.before.state.reexamine? = some examine) :
    (resyncData t = none ∧ ¬ Modifies t ∧ t.after.state.refetching = false) ∨
      ∃ data, resyncData t = some data ∧
        (t.out, t.after) = (t.before.wake t.env).reexamined data t.env := by
  obtain ⟨due, arg, env, -, -, rfl, -⟩ := h
  have hresume := resume_reexamine hs (⟨a.frag, []⟩ : Logged F) arg env
  have hdata : resyncData (imapMailboxWatch.turn a due arg env) =
      match (ImapMailboxExamine.resume examine (⟨a.frag, []⟩ : Logged F) arg).1 with
      | .complete (.ok data) => some data
      | _ => none := by
    unfold resyncData
    rw [hs]
    rfl
  have houtcome : ((imapMailboxWatch.turn a due arg env).out,
      (imapMailboxWatch.turn a due arg env).after) =
        ((a.state.resume (⟨a.frag, []⟩ : Logged F) arg env).1,
          (a.state.resume (⟨a.frag, []⟩ : Logged F) arg env).2.1) := rfl
  have hbefore : (imapMailboxWatch.turn a due arg env).before = a.state := rfl
  have henv : (imapMailboxWatch.turn a due arg env).env = env := rfl
  have hbusy : a.state.state.refetching = false := by
    have hs' : a.state.state.reexamine? = some examine := hs
    cases hst : a.state.state <;> simp_all [State.reexamine?, State.refetching]
  generalize ImapMailboxExamine.resume examine (⟨a.frag, []⟩ : Logged F) arg = r at hresume hdata
  have hresume' : a.state.resume (⟨a.frag, []⟩ : Logged F) arg env = _ := hresume
  rw [hresume'] at houtcome
  obtain ⟨y | (err | data), send', f'⟩ := r
  · refine .inl ⟨hdata, ?_, ?_⟩
    · rw [Modifies, houtcome, not_not, Outcome.mailbox]
      simp only [reexamines, event?_ofYield]
      rfl
    · rw [(Prod.mk.inj houtcome).2]
      exact (State.refetching_withCommand _ _).trans hbusy
  · refine .inl ⟨hdata, ?_, ?_⟩
    · rw [Modifies, houtcome, not_not]
      rfl
    · rw [(Prod.mk.inj houtcome).2]
      rfl
  · exact .inr ⟨data, hdata, by rw [houtcome, hbefore, henv]; rfl⟩

/-- What is known between two resumes of a run all of whose EXAMINEs reported a
UIDVALIDITY: a snapshot is read behind one that reported the known value. -/
structure UidState (es : List (Step F)) (a : Config ImapMailboxWatch F) : Prop where
  ready : ReadyConfig a
  known : Known a.state
  refetching : a.state.state.refetching = true → ∃ data u, lastSome resyncData es = some data ∧
    data.uidValidity = some u ∧ a.state.uidValidity = some u

variable [LawfulEncoder Command] [LawfulEncoder IdleDone] {es : List (Step F)}

theorem uidSafe_step (ha : UidState es a) (h : imapMailboxWatch.Step a t b) :
    (UidSafe es t ↔ Reports t) ∧ (Reports t → UidState (es ++ [t]) b) := by
  obtain ⟨⟨hr, -, -⟩, hbefore, hafter, hb⟩ := step_resumed ha.ready h
  obtain ⟨-, hknown, hrefetching⟩ := ha
  rw [← hbefore] at hknown hrefetching
  obtain ⟨hknown', hstays⟩ := hr.remembers hknown
  have hlast : lastSome resyncData (es ++ [t]) = (resyncData t).or (lastSome resyncData es) :=
    lastSome_concat _ _ _
  have hstate : ∀ hrefetch, UidState (es ++ [t]) b :=
    fun hrefetch => ⟨hb, hafter ▸ hknown', hafter ▸ hrefetch⟩
  cases hexamine : t.before.state.reexamine? with
  | none =>
    have hdata : resyncData t = none := by rw [resyncData, hexamine]
    have hreports : Reports t := by simp [Reports, hdata]
    rw [hdata, Option.none_or] at hlast
    refine ⟨iff_of_true ⟨hstays, fun hopen hmod => ?_, by simp [hdata]⟩ hreports, fun _ => hstate ?_⟩
    · rw [hlast]
      refine hrefetching (by_contra fun hfetch => hmod ?_)
      exact hr.unmodified hopen hexamine (Bool.not_eq_true _ ▸ hfetch)
    · intro hfetch
      cases hbusy : t.before.state.refetching with
      | false => simp [hr.refetching hexamine hbusy] at hfetch
      | true =>
        obtain ⟨data, u, hdata, hu, hbefore⟩ := hrefetching hbusy
        exact ⟨data, u, hlast.trans hdata, hu, hstays u hbefore⟩
  | some examine =>
    obtain ⟨u, hu⟩ := known_reexamine hknown hexamine
    rcases step_reexamine h hexamine with ⟨hdata, hmod, hfetch⟩ | ⟨data, hdata, ho⟩
    · have hreports : Reports t := by simp [Reports, hdata]
      refine ⟨iff_of_true ⟨hstays, fun _ hm => (hmod hm).elim, by simp [hdata]⟩ hreports,
        fun _ => hstate fun hf => by simp [hfetch] at hf⟩
    · rw [hdata, Option.some_or] at hlast
      have hout : t.out = ((t.before.wake t.env).reexamined data t.env).1 := (Prod.mk.inj ho).1
      have hto : t.after = ((t.before.wake t.env).reexamined data t.env).2 := (Prod.mk.inj ho).2
      have hsafe : (∀ u', t.before.uidValidity = some u' → data.uidValidity = some u') →
          UidSafe es t := by
        intro hsame
        refine ⟨hstays, fun _ _ => ⟨data, u, hlast, hsame u hu, hu⟩, fun d hd hne => ?_⟩
        obtain rfl : data = d := by simpa [hdata] using hd
        exact (hne ((hsame u hu).trans hu.symm)).elim
      cases hv : data.uidValidity with
      | none =>
        -- the check lets it pass, so the watch does not end with an error
        have hpass : ∀ err, ((t.before.wake t.env).reexamined data t.env).1 ≠ .complete (.error err) :=
          reexamined_passes hu (by simp [hv])
        have hunsafe : ¬ UidSafe es t := by
          intro hs
          obtain ⟨⟨err, herr⟩, -⟩ := hs.refused data hdata (by simp [hv, hu])
          exact hpass err (hout ▸ herr)
        have hsilent : ¬ Reports t := fun hrep => by simpa [hv] using hrep data hdata
        exact ⟨iff_of_false hunsafe hsilent, fun hrep => (hsilent hrep).elim⟩
      | some v =>
        have hreports : Reports t := by simp [Reports, hdata, hv]
        by_cases hvu : v = u
        · refine ⟨iff_of_true (hsafe fun u' hu' => ?_) hreports, fun _ => hstate fun _ => ?_⟩
          · rw [hv, hvu, ← hu, hu']
          · exact ⟨data, u, hlast, by rw [hv, hvu], hstays u hu⟩
        · -- another value is refused before anything changes
          rw [reexamined_changed (w := t.before.wake t.env) hu hv hvu] at ho
          obtain ⟨hout, hto⟩ := Prod.mk.inj ho
          have hsame : ¬ Modifies t := by
            rw [Modifies, ho, not_not]
            rfl
          refine ⟨iff_of_true ⟨hstays, fun _ hm => (hsame hm).elim, fun d _ _ =>
            ⟨⟨_, hout⟩, hsame, by rw [hto]; rfl⟩⟩ hreports, fun _ => hstate fun hf => ?_⟩
          rw [hto] at hf
          simp [State.refetching] at hf

omit [Fragmentizer F] [TryFrom Bytes Tag] [Encoder Command] [Encoder IdleDone]
  [LawfulEncoder Command] [LawfulEncoder IdleDone] in
theorem new_known (capability : List Capability) (mailbox : Mailbox) (opts : ImapMailboxWatchOptions) :
    Known (new capability mailbox opts) := by
  simp only [new]
  split <;> rfl

/-- `resync` never unwraps a UIDVALIDITY that is not there. -/
theorem never_panics {capability : List Capability} {mailbox : Mailbox}
    {opts : ImapMailboxWatchOptions} {f : F}
    (h : imapMailboxWatch.Runs (new capability mailbox opts) f es b) :
    ∀ t ∈ es, t.out ≠ .complete (.error .panicked) := by
  refine h.labels (I := fun a => ReadyConfig a ∧ Known a.state)
    ⟨start_ready _ _ _ _, new_known _ _ _⟩ ?_
  intro a t b ha hstep
  obtain ⟨hready, hknown⟩ := ha
  obtain ⟨⟨hr, -, -⟩, hbefore, hafter, hb⟩ := step_resumed hready hstep
  have hremembers := hr.remembers (hbefore ▸ hknown)
  refine ⟨⟨hb, hafter ▸ hremembers.1⟩, ?_⟩
  obtain ⟨due, arg, env, -, -, rfl, rfl⟩ := hstep
  exact resume_ne_panicked hknown (⟨a.frag, []⟩ : Logged F) arg env

end Runs
end ImapMailboxWatch

open ImapMailboxWatch

/-- A run of the watcher is safe for its UIDVALIDITY exactly when every EXAMINE
of a resync that succeeds reports one. -/
theorem uidSafe_iff_reports {F : Type} [Fragmentizer F] [TryFrom Bytes Tag] [Encoder Command]
    [Encoder IdleDone] [LawfulEncoder Command] [LawfulEncoder IdleDone] [Base64Codec]
    [TryFrom String Mailbox] {capability : List Capability} {mailbox : Mailbox}
    {opts : ImapMailboxWatchOptions} {f : F} {es : List (ImapMailboxWatch.Step F)}
    {b : Config ImapMailboxWatch F}
    (h : imapMailboxWatch.Runs (.new capability mailbox opts) f es b) :
    Always UidSafe es ↔ ∀ t ∈ es, Reports t := by
  refine Run.always_iff (P := UidState) ?_ (fun _ _ _ _ hstate hstep => uidSafe_step hstate hstep) h
  refine ⟨start_ready _ _ _ _, new_known _ _ _, ?_⟩
  simp only [Coroutine.start, new]
  split <;> simp [State.refetching]

section Concrete

open Concrete

theorem uidSafe_replaced : ∃ es b, playWatching replacedArgs = some (es, b) ∧ Always UidSafe es := by
  have hrun : (playWatching replacedArgs).any (fun r => decide (∀ t ∈ r.1, Reports t)) = true := by
    decide +kernel
  obtain ⟨⟨es, b⟩, hplay, hreports⟩ := (Option.any_eq_true _ _).mp hrun
  exact ⟨es, b, hplay, (uidSafe_iff_reports (Coroutine.play_run _ hplay)).mpr
    (of_decide_eq_true hreports)⟩

def silentArgs : List (Option Bytes) :=
  [none] ++ exchangeArgs "A1" ["* OK [UIDVALIDITY 7] ok\r\nA1 OK done\r\n"] ++
    exchangeArgs "A2" ["* 1 FETCH (UID 5 FLAGS ())\r\nA2 OK done\r\n"] ++
    exchangeArgs "A3" ["+ idling\r\n", "* 5 EXISTS\r\n"] ++
    [none, some (ascii "A3 OK done\r\n")] ++
    exchangeArgs "A4" ["A4 OK done\r\n"]

def passesSilence [Fragmentizer F] [TryFrom Bytes Tag] [Encoder Command]
    (t : ImapMailboxWatch.Step F) : Bool :=
  match resyncData t, t.out with
  | some data, .yielded _ => decide (data.uidValidity ≠ t.before.uidValidity)
  | _, _ => false

theorem uid_unsafe_silent :
    ¬ ∀ (es : List (ImapMailboxWatch.Step (LineFragmentizer (decodeTable watchMessages))))
        (b : Config ImapMailboxWatch (LineFragmentizer (decodeTable watchMessages))),
        imapMailboxWatch.Runs (.new [] .inbox ⟨none, false⟩) LineFragmentizer.empty es b →
          Always UidSafe es := by
  intro h
  have hrun : (playWatching silentArgs).any (fun r => r.1.any passesSilence) = true := by
    decide +kernel
  obtain ⟨⟨es, b⟩, hplay, hany⟩ := (Option.any_eq_true _ _).mp hrun
  obtain ⟨t, ht, hpasses⟩ := List.any_eq_true.mp hany
  obtain ⟨pre, post, he⟩ := List.append_of_mem ht
  have hsafe := h es b (Coroutine.play_run _ hplay) pre t post he
  unfold passesSilence at hpasses
  split at hpasses
  · rename_i data y hdata hout
    obtain ⟨⟨err, herr⟩, -⟩ := hsafe.refused data hdata (of_decide_eq_true hpasses)
    simp [hout] at herr
  · simp at hpasses

end Concrete
end IoImap
