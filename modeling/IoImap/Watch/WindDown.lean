import IoImap.Watch.Stream

/-!
# Closing a watch stream (client.rs)

`close` and `drop` set `shutdown` and wait for the worker while the receiving end of the
channel is still there and nobody receives: a worker with more events than the channel has
room for waits for ever, and the caller for it.
-/

namespace IoImap
open Fragmentizer Transition

namespace ImapMailboxWatchStream

open WatchAct ImapMailboxWatch

variable {F : Type}

/-- The worker waits for room that nobody makes any more. -/
def Blocked (s : ImapMailboxWatchStream F) : Prop :=
  s.caller = .winding ∧ s.rx.Full ∧ ∃ item, s.point = .sends item

/-- `shutdown` is set, and the watcher yields the events that are pending. -/
structure Emitting (s : ImapMailboxWatchStream F) : Prop where
  winding : s.caller = .winding
  state : s.watcher.state.state = .emitDeltas
  due : s.watcher.due = some .nothing
  point : s.point = .resumes none ∨ ∃ event, s.point = .sends (.ok event)

/-- The events that the worker has still to send. -/
def owed (s : ImapMailboxWatchStream F) : Nat :=
  s.point.inFlight.length + s.watcher.state.pending.length

section WindDown

variable [Fragmentizer F] [TryFrom Bytes Tag] [Encoder Command] [Encoder IdleDone] [Base64Codec]
  [TryFrom String Mailbox] {opts : ImapMailboxWatchStreamOptions} {s s' : ImapMailboxWatchStream F}
  {act : WatchAct F}

def wound : ImapMailboxWatchEnv := ⟨true, true, true, (0, 0), (0, 0)⟩

omit [TryFrom Bytes Tag] [Encoder Command] [Encoder IdleDone] [Base64Codec] [TryFrom String Mailbox] in
theorem sees_wound {caller : WatchCaller} (h : caller ≠ .watching) : caller.Sees wound caller :=
  .set h ⟨rfl, rfl, rfl⟩

/-- While winding down, the worker can always go on, or has returned, but for a full channel. -/
theorem Flows.progress [LawfulEncoder Command] [LawfulEncoder IdleDone] {es : List (WatchAct F)}
    (h : Flows es s) (hc : s.caller = .winding) (hroom : ¬ s.Blocked) : ∃ act s', Step opts s act s' := by
  have hne : s.caller ≠ .closed ∧ s.caller ≠ .watching := by simp [hc]
  cases hp : s.point with
  | resumes arg =>
    obtain ⟨due, hdue⟩ := Option.isSome_iff_exists.mp (h.due (by rw [hp]; trivial))
    exact ⟨_, _, .resume hp hdue (sees_wound hne.2) rfl⟩
  | generates => exact ⟨_, _, .generate hp ⟨[]⟩⟩
  | reads => exact ⟨_, _, .read hp (.ok [])⟩
  | writes bytes => exact ⟨_, _, .write hp (.ok ())⟩
  | waits left => exact ⟨_, _, .sleep hp⟩
  | sends item =>
    have hfull : ¬ s.rx.Full := fun hfull => hroom ⟨hc, hfull, item, hp⟩
    obtain ⟨rx, hrx⟩ := SyncChannel.sends_iff.mpr hfull
    exact ⟨_, _, .send hp hne.1 hrx⟩
  | returned => exact ⟨_, _, .join hc hp⟩

theorem Blocked.stuck (h : s.Blocked) : ¬ Step opts s act s' := by
  obtain ⟨hc, hfull, item, hp⟩ := h
  intro hs
  cases hs with
  | send hp' _ hrx => exact SyncChannel.sends_iff.mp ⟨_, hrx⟩ hfull
  | abandon _ hc' => simp [hc] at hc'
  | receive hc' => simp [hc] at hc'
  | close hc' => simp [hc] at hc'
  | resume hp' => simp [hp] at hp'
  | generate hp' => simp [hp] at hp'
  | read hp' => simp [hp] at hp'
  | write hp' => simp [hp] at hp'
  | sleep hp' => simp [hp] at hp'
  | join _ hp' => simp [hp] at hp'

/-- The watcher yields what is pending before it looks at `shutdown`. -/
theorem turn_emits {a : Config ImapMailboxWatch F} (hs : a.state.state = .emitDeltas)
    (env : ImapMailboxWatchEnv) {event : ImapMailboxWatchEvent}
    {pending : List ImapMailboxWatchEvent} (hpending : a.state.pending = event :: pending) :
    let t := imapMailboxWatch.turn a .nothing none env
    t.out = .yielded (.event event) ∧ (imapMailboxWatch.finish t).state.state = .emitDeltas ∧
      (imapMailboxWatch.finish t).state.pending = pending ∧
      (imapMailboxWatch.finish t).due = some .nothing := by
  intro t
  have hresume : a.state.resume (⟨a.frag, []⟩ : Logged F) none env =
      (.yielded (.event event), { a.state.wake env with pending, state := .emitDeltas }, ⟨a.frag, []⟩) := by
    have hstate : (a.state.wake env).state = .emitDeltas := hs
    have hqueue : (a.state.wake env).pending = event :: pending := hpending
    simp only [ImapMailboxWatch.resume, hstate, ImapMailboxWatch.emitDeltas, hqueue]
  have ht : t = ⟨a.state, a.frag, .nothing, none, env, .yielded (.event event),
      { a.state.wake env with pending, state := .emitDeltas }, a.frag, []⟩ := by
    simp only [t, Coroutine.turn, imapMailboxWatch, hresume]
  rw [ht]
  exact ⟨rfl, rfl, rfl, rfl⟩

theorem turn_ends {a : Config ImapMailboxWatch F} (hs : a.state.state = .emitDeltas)
    {env : ImapMailboxWatchEnv} (hflag : env.shutdownBefore = true) (hpending : a.state.pending = []) :
    (imapMailboxWatch.turn a .nothing none env).out = .complete (.ok ()) := by
  have hstate : (a.state.wake env).state = .emitDeltas := hs
  have hqueue : (a.state.wake env).pending = [] := hpending
  simp only [Coroutine.turn, imapMailboxWatch, ImapMailboxWatch.resume, hstate,
    ImapMailboxWatch.emitDeltas, hqueue, ImapMailboxWatch.beginIdle, hflag, if_true]
  rfl

/-- A send, where there is room. -/
theorem Emitting.sends {event : ImapMailboxWatchEvent} (h : s.Emitting)
    (hp : s.point = .sends (.ok event))
    (hroom : s.rx.items.length + 1 ≤ 256) : ∃ s', Step opts s (.send (.ok event)) s' ∧ s'.Emitting ∧
      s'.point = .resumes none ∧ s'.rx.items.length = s.rx.items.length + 1 ∧ s'.watcher = s.watcher := by
  have hc : s.caller ≠ .closed := by simp [h.winding]
  have hfull : ¬ s.rx.Full := fun hfull => by
    rw [SyncChannel.Full] at hfull
    omega
  obtain ⟨rx, hrx⟩ := SyncChannel.sends_iff.mpr hfull
  exact ⟨_, .send hp hc hrx, ⟨h.winding, h.state, h.due, .inl rfl⟩, rfl, hrx.length, rfl⟩

theorem Emitting.resumes (h : s.Emitting) (hp : s.point = .resumes none)
    (hroom : s.rx.items.length + s.watcher.state.pending.length ≤ 256) :
    ∃ es s', Run (Step opts) s es s' ∧ s'.caller = .closed := by
  have hsees : s.caller.Sees wound s.caller := sees_wound (by simp [h.winding])
  have hstep : Step opts s _ _ := .resume hp h.due hsees rfl
  generalize hn : s.watcher.state.pending = pending at hroom
  -- on what is pending: each event takes a place in the channel that the caller no longer empties
  induction pending generalizing s with
  | nil =>
    have hend := turn_ends h.state (show wound.shutdownBefore = true from rfl) hn
    have hpoint : WatchPoint.after opts (imapMailboxWatch.turn s.watcher .nothing none wound).out =
        .returned := by rw [hend]; rfl
    rw [hpoint] at hstep
    exact ⟨_, _, (Run.single hstep).append (.single (.join h.winding rfl)), rfl⟩
  | cons event pending ih =>
    obtain ⟨hout, hstate, hpending, hdue⟩ := turn_emits h.state wound hn
    have hpoint : WatchPoint.after opts (imapMailboxWatch.turn s.watcher .nothing none wound).out =
        .sends (.ok event) := by rw [hout]; rfl
    rw [hpoint] at hstep
    rw [List.length_cons] at hroom
    have hnext : Emitting { s with
        watcher := imapMailboxWatch.finish (imapMailboxWatch.turn s.watcher .nothing none wound)
        point := .sends (.ok event) } := ⟨h.winding, hstate, hdue, .inr ⟨event, rfl⟩⟩
    obtain ⟨s', hsend, hemitting, hp', hlength, hwatcher⟩ := hnext.sends rfl (by dsimp; omega)
    have hsees' : s'.caller.Sees wound s'.caller := sees_wound (by simp [hemitting.winding])
    obtain ⟨es, s'', hrun, hclosed⟩ := ih hemitting hp' hsees'
      (Step.resume hp' hemitting.due hsees' rfl) (by rw [hwatcher]; exact hpending)
      (by dsimp at hlength; omega)
    exact ⟨_, s'', ((Run.single hstep).append (.single hsend)).append hrun, hclosed⟩

/-- More events are owed than the channel takes. -/
def Overfull (s : ImapMailboxWatchStream F) : Prop :=
  s.Emitting ∧ 256 < s.rx.items.length + s.owed

theorem Overfull.step (h : s.Overfull) (hs : Step opts s act s') : s'.Overfull := by
  obtain ⟨he, howed⟩ := h
  have hc := he.winding
  have hfits := s.rx.fits
  cases hs with
  | @resume due arg env caller t hp hdue hsees ht =>
    obtain rfl := Option.some.inj (he.due.symm.trans hdue)
    have harg : arg = none := by
      rcases he.point with hp' | ⟨_, hp'⟩
      · exact WatchPoint.resumes.inj (hp.symm.trans hp')
      · simp [hp] at hp'
    subst harg ht
    rw [owed, hp] at howed
    have hcaller := hsees.winding hc
    -- with nothing pending all that is owed would be in the channel, which holds 256
    cases hn : s.watcher.state.pending with
    | nil =>
      rw [hn] at howed
      simp only [WatchPoint.inFlight, List.length_nil] at howed
      omega
    | cons event pending =>
      obtain ⟨hout, hstate, hpending, hdue'⟩ := turn_emits he.state env hn
      rw [hn] at howed
      have hpoint : WatchPoint.after opts (imapMailboxWatch.turn s.watcher .nothing none env).out =
          .sends (.ok event) := by rw [hout]; rfl
      refine ⟨⟨hcaller, hstate, hdue', .inr ⟨event, hpoint⟩⟩, ?_⟩
      simp only [owed, hpoint, hpending, WatchPoint.inFlight, List.length_nil, List.length_cons] at howed ⊢
      omega
  | @send item rx hp _ hrx =>
    obtain ⟨event, rfl⟩ : ∃ event, item = .ok event := by
      rcases he.point with hp' | ⟨event, hp'⟩
      · simp [hp] at hp'
      · exact ⟨event, WatchPoint.sends.inj (hp.symm.trans hp')⟩
    have hlength := hrx.length
    rw [owed, hp] at howed
    refine ⟨⟨hc, he.state, he.due, .inl rfl⟩, ?_⟩
    simp only [owed, WatchPoint.inFlight, WatchPoint.afterSend, List.length_nil, List.length_cons]
      at howed ⊢
    omega
  | generate hp => rcases he.point with hp' | ⟨_, hp'⟩ <;> simp [hp] at hp'
  | read hp => rcases he.point with hp' | ⟨_, hp'⟩ <;> simp [hp] at hp'
  | write hp => rcases he.point with hp' | ⟨_, hp'⟩ <;> simp [hp] at hp'
  | sleep hp => rcases he.point with hp' | ⟨_, hp'⟩ <;> simp [hp] at hp'
  | join _ hp => rcases he.point with hp' | ⟨_, hp'⟩ <;> simp [hp] at hp'
  | abandon _ hc' => simp [hc] at hc'
  | receive hc' => simp [hc] at hc'
  | close hc' => simp [hc] at hc'

end WindDown

section Threads

variable [Fragmentizer F] [TryFrom Bytes Tag] [Encoder Command] [Encoder IdleDone]
  [LawfulEncoder Command] [LawfulEncoder IdleDone] [Base64Codec] [TryFrom String Mailbox]
  {opts : ImapMailboxWatchStreamOptions} {es : List (WatchAct F)} {s : ImapMailboxWatchStream F}
  {capability : List Capability} {mailbox : Mailbox} {f : F}

/-- The two threads come to a stop with the stream not closed exactly when the caller waits
for the worker and the worker for room in a channel that is full. -/
theorem watch_stream_stops_iff (h : Run (Step opts) (spawn capability mailbox opts f) es s)
    (hopen : s.caller ≠ .closed) : (∀ act s', ¬ Step opts s act s') ↔
      s.caller = .winding ∧ s.rx.Full ∧ ∃ item, s.point = .sends item := by
  constructor
  · intro hstuck
    by_contra hblocked
    have hwinding : s.caller = .winding := by
      cases hc : s.caller with
      | watching => exact absurd (Step.close hc) (hstuck _ _)
      | winding => rfl
      | closed => exact absurd hc hopen
    obtain ⟨act, s', hs⟩ := (flows h).progress hwinding hblocked
    exact hstuck act s' hs
  · exact fun hblocked _ _ => Blocked.stuck hblocked

omit [LawfulEncoder Command] [LawfulEncoder IdleDone] in
/-- Once the stream is being closed while the watcher yields what is pending, closing it ends
exactly when the channel takes all the events that the worker has still to send. -/
theorem watch_stream_closes_iff (h : s.Emitting) :
    (∃ es s', Run (Step opts) s es s' ∧ s'.caller = .closed) ↔ s.rx.items.length + s.owed ≤ 256 := by
  constructor
  · intro hx
    obtain ⟨es, s', hrun, hclosed⟩ := hx
    by_contra howed
    have hover : s'.Overfull := hrun.invariant ⟨h, Nat.lt_of_not_le howed⟩ fun _ _ _ ho hs => ho.step hs
    simp [hover.1.winding] at hclosed
  · intro howed
    rcases h.point with hp | ⟨event, hp⟩
    · rw [owed, hp] at howed
      exact h.resumes hp (by simpa [WatchPoint.inFlight] using howed)
    · rw [owed, hp] at howed
      simp only [WatchPoint.inFlight, List.length_cons, List.length_nil] at howed
      obtain ⟨s', hsend, hemitting, hp', hlength, hwatcher⟩ := h.sends hp (by omega)
      obtain ⟨es, s'', hrun, hclosed⟩ := hemitting.resumes hp' (by rw [hwatcher]; omega)
      exact ⟨_, s'', (Run.single hsend).append hrun, hclosed⟩

end Threads

section Concrete

open Concrete

/-- The messages of a crowded mailbox, two octets and LF each. -/
def decodeNumbered (bytes : Bytes) : Except DecodeMessageError Response :=
  match bytes with
  | [a, b, _] =>
    let uid : NonZeroU32 := .ofNat (a.toNat * 64 + b.toNat)
    .ok (.data (.fetch uid [.uid uid, .flags []]))
  | _ => decodeTable watchMessages bytes

def numbered (n : Nat) : Bytes := [(n / 64).toUInt8, (64 + n % 64).toUInt8, LF]

/-- 260 messages arrive at once, and the caller closes the stream with 256 of them unread. -/
def crowdedChoices : List Choice :=
  [.resume] ++ exchangeChoices "A1" ["* OK [UIDVALIDITY 7] ok\r\nA1 OK done\r\n"] ++
    exchangeChoices "A2" ["A2 OK done\r\n"] ++
    exchangeChoices "A3" ["+ idling\r\n", "* 5 EXISTS\r\n"] ++
    [.write (.ok ()), .resume, .read (.ok (ascii "A3 OK done\r\n")), .resume] ++
    exchangeChoices "A4" ["* OK [UIDVALIDITY 7] ok\r\nA4 OK done\r\n"] ++
    exchangeChoices "A5" [] ++
    ((List.range 26).flatMap fun k =>
      [.read (.ok ((List.range 10).flatMap fun i => numbered (10 * k + i))), .resume]) ++
    [.read (.ok (ascii "A5 OK done\r\n")), .resume] ++
    (List.replicate 256 [.send, .resume]).flatten ++ [.close]

def playCrowded (choices : List Choice) :=
  (spawn [] .inbox {} (LineFragmentizer.empty : LineFragmentizer decodeNumbered)).play {} choices

theorem watch_stream_stops_crowded : ∃ es s, playCrowded crowdedChoices = some (es, s) ∧
    s.caller = .winding ∧ ∀ act s', ¬ Step {} s act s' := by
  have hrun : (playCrowded crowdedChoices).any (fun r => decide (r.2.caller = .winding ∧
      r.2.rx.items.length = 256 ∧ r.2.point.inFlight.length = 1)) = true := by decide +kernel
  obtain ⟨⟨es, s⟩, hplay, hblocked⟩ := (Option.any_eq_true _ _).mp hrun
  obtain ⟨hwinding, hfull, hflight⟩ := of_decide_eq_true hblocked
  refine ⟨es, s, hplay, hwinding, ?_⟩
  have hopen : s.caller ≠ .closed := by
    rw [hwinding]
    simp
  exact (watch_stream_stops_iff (play_run _ hplay) hopen).mpr
    ⟨hwinding, hfull, WatchPoint.exists_sends hflight⟩

/-- The caller reads four of the events before it closes the stream. -/
def drainedChoices : List Choice := crowdedChoices.dropLast ++ List.replicate 4 .receive ++ [.close]

def emits (s : ImapMailboxWatchStream F) : Bool :=
  match s.caller, s.watcher.state.state, s.watcher.due, s.point with
  | .winding, .emitDeltas, some .nothing, .sends (.ok _) => true
  | _, _, _, _ => false

theorem emitting_of_emits {s : ImapMailboxWatchStream F} (h : s.emits = true) : s.Emitting := by
  unfold emits at h
  split at h
  · rename_i event hwinding hstate hdue hpoint
    exact ⟨hwinding, hstate, hdue, .inr ⟨event, hpoint⟩⟩
  · simp at h

theorem watch_stream_closes_drained : ∃ es s, playCrowded drainedChoices = some (es, s) ∧
    s.rx.items.length = 252 ∧ s.owed = 4 ∧ ∃ us s', Run (Step {}) s us s' ∧ s'.caller = .closed := by
  have hrun : (playCrowded drainedChoices).any (fun r => decide (r.2.emits = true ∧
      r.2.rx.items.length = 252 ∧ r.2.owed = 4)) = true := by decide +kernel
  obtain ⟨⟨es, s⟩, hplay, hfull⟩ := (Option.any_eq_true _ _).mp hrun
  obtain ⟨hemits, hitems, howed⟩ := of_decide_eq_true hfull
  refine ⟨es, s, hplay, hitems, howed, (watch_stream_closes_iff (emitting_of_emits hemits)).mpr ?_⟩
  omega

end Concrete
end ImapMailboxWatchStream
end IoImap
