import IoImap.Rfc3501.FetchReply
import IoImap.Rfc3501.ForeignCompletion

/-!
# Bodies that are delivered

The streaming FETCH coroutines take every literal of a reply for a body and nothing else.
-/

namespace IoImap
open Fragmentizer StreamsBodies

/-! ### Between two messages -/

/-- What imap-codec documents of the lines of a reply: between two messages a whole line is
taken for the first fragment of the next one, with the literal it announces; without one it is
that message, and a message that is skipped leaves nothing behind. -/
class FramesLines (F : Type) [Fragmentizer F] where
  Between : F → Prop
  announces : ∀ {f front n}, Between f → LF ∉ front → n < 2 ^ 32 →
    ∃ f', progress (enqueueBytes f (front ++ announcement n .sync)) =
        (some (.line (some ⟨.sync, n⟩)), f') ∧ Between (skipMessage f')
  ends : ∀ {f front}, Between f → LF ∉ front → announcementOf (front ++ crlf) = none →
    ∃ f', progress (enqueueBytes f (front ++ crlf)) = (some (.line none), f') ∧
      messageBytes f' = front ++ crlf ∧ Between f'

open FramesLines

/-- A tagged status starts with its tag. -/
def TagsFirst (F : Type) [Fragmentizer F] : Prop :=
  ∀ (f : F) tagged, decodeMessage f = .ok (.status (.tagged tagged)) →
    ∀ b, (messageBytes f).head? = some b → b ≠ 42 ∧ b ≠ 32 ∧ b ≠ 41 ∧ b ≠ 13

/-- A line that ends a reply. -/
def IsCompletion (F : Type) [Fragmentizer F] [FramesLines F] (line : Bytes) : Prop :=
  ∀ f : F, Between f → ∃ tagged, TaggedLine f line tagged

/-- How a line of an untagged response starts, behind a literal or not. -/
def Starts (octets : Bytes) : Prop :=
  ∃ b, octets.head? = some b ∧ (b = 42 ∨ b = 32 ∨ b = 41 ∨ b = 13)

theorem announcement_eq (n : Nat) : announcement n .sync = 123 :: decimal n ++ [125, 13] ++ [LF] := by
  simp [announcement, ascii, LF]

theorem splitLine_announcement {front : Bytes} (h : LF ∉ front) (n : Nat) (rest : Bytes) :
    splitLine (front ++ announcement n .sync ++ rest) = some (front ++ announcement n .sync, rest) := by
  have hline : LF ∉ front ++ (123 :: decimal n ++ [125, 13]) := by
    simp only [List.mem_append, List.mem_cons, not_or]
    exact ⟨h, ⟨by decide, decimal_noLine n⟩, by decide⟩
  have hl := splitLine_line hline rest
  rw [announcement_eq]
  simpa using hl

theorem splitLine_crlf {front : Bytes} (h : LF ∉ front) (rest : Bytes) :
    splitLine (front ++ crlf ++ rest) = some (front ++ crlf, rest) := by
  have hline : LF ∉ front ++ [13] := by
    rw [List.mem_append, not_or]
    exact ⟨h, by decide⟩
  have hl := splitLine_line hline rest
  have hcrlf : crlf = [13] ++ [LF] := by decide
  rw [hcrlf]
  simpa using hl

theorem starts_behind {segments : List Segment} {sent : Bytes} {hsent : sent.length < 2 ^ 32}
    (h : Spans (.literal sent hsent :: segments)) :
    Starts (responseOctets segments) := by
  cases segments with
  | nil => exact ⟨13, rfl, by simp⟩
  | cons x segments =>
    have hmeets := (List.isChain_cons_cons.mp h.meets).1
    cases x with
    | text t =>
      have hne : t ≠ [] := by
        rintro rfl
        simp [Segment.Meets] at hmeets
      obtain ⟨b, t, rfl⟩ := List.exists_cons_of_ne_nil hne
      refine ⟨b, rfl, ?_⟩
      simp only [Segment.Meets, List.head?_cons, Option.some.injEq] at hmeets
      rcases hmeets with rfl | rfl <;> simp
    | literal _ _ => exact absurd hmeets id

theorem Untagged.starts_line (u : Untagged) : Starts ([] ++ responseOctets u.segments) := by
  obtain ⟨text, rest, hsegments, htext⟩ := u.starts
  obtain ⟨text, rfl⟩ := List.head?_eq_some_iff.mp htext
  rw [hsegments]
  exact ⟨42, rfl, .inl rfl⟩

theorem LineFragmentizer.progress_whole {decode : Bytes → Except DecodeMessageError Response}
    {f : LineFragmentizer decode} {line : Bytes} (hunread : f.unread = []) (hexpects : f.expects = none)
    (hl : splitLine line = some (line, [])) :
    Fragmentizer.progress (enqueueBytes f line) =
      (some (.line (announcementOf line)), ⟨[], (announcementOf line).map (·.length),
        f.taken ++ line, (announcementOf line).isNone⟩) := by
  rw [progress_eq, enqueueBytes_eq, progress]
  simp only [hunread, hexpects, List.nil_append, hl]
  rfl

instance {decode : Bytes → Except DecodeMessageError Response} :
    FramesLines (LineFragmentizer decode) where
  Between f := f.unread = [] ∧ f.expects = none ∧ f.complete = true
  announces {f front n} hf hfront _ := by
    have hl := splitLine_announcement hfront n []
    rw [List.append_nil] at hl
    have hp := LineFragmentizer.progress_whole hf.1 hf.2.1 hl
    rw [announcementOf_announcement] at hp
    exact ⟨_, hp, rfl, rfl, rfl⟩
  ends {f front} hf hfront hnone := by
    have hl := splitLine_crlf hfront []
    rw [List.append_nil] at hl
    have hp := LineFragmentizer.progress_whole hf.1 hf.2.1 hl
    rw [hnone] at hp
    refine ⟨_, hp, ?_, rfl, rfl, rfl⟩
    simp [messageBytes, LineFragmentizer.taken, hf.2.2]

/-! ### What is told of the literals -/

namespace Intake

variable {F σ T E : Type} [Fragmentizer F] {i : Intake σ T E}

/-- The tokens of literals that are all accepted. -/
inductive Tells (i : Intake σ T E) : σ → List (Bytes × Bytes) → List T → Prop where
  | nil {s : σ} : Tells i s [] []
  | cons {s s' : σ} {line octets : Bytes} {a : LiteralAnnouncement} {rest : List (Bytes × Bytes)}
      {ts us : List T} (ha : i.accept s line a = .ok (ts, s')) (h : Tells i s' rest us) :
      Tells i s ((line, octets) :: rest) (ts ++ (octets.map i.octet ++ i.close) ++ us)

theorem decodeTerminal_starts {f : F} (htags : TagsFirst F) (h : Starts (messageBytes f)) :
    BodyStream.decodeTerminal f ≠ some (.ok ()) := by
  intro hd
  obtain ⟨tagged, htagged⟩ := BodyStream.decodeTerminal_tagged hd rfl
  obtain ⟨b, hb, hcases⟩ := h
  have hne := htags f tagged htagged b hb
  rcases hcases with rfl | rfl | rfl | rfl <;> simp at hne

section Lines

variable [FramesLines F] {s : σ} {f : F} {ts : List T} {front rest more : Bytes}

theorem outcome_ended (htags : TagsFirst F) (hf : Between f) (hfront : LF ∉ front)
    (hstarts : Starts (front ++ crlf)) (hends : announcementOf (front ++ crlf) = none)
    (h : i.outcome s f (front ++ crlf ++ more) = (ts, some (.ok ()))) :
    ∃ f' : F, Between f' ∧ i.outcome s f' more = (ts, some (.ok ())) := by
  obtain ⟨f', hp, hbytes, hf'⟩ := FramesLines.ends hf hfront hends
  have hl := splitLine_crlf hfront more
  by_cases hlen : (front ++ crlf).length > MAX_LINE_LEN
  · rw [outcome_tooLong hl hlen] at h
    simp [ended, Except.mapError] at h
  · have hle := Nat.le_of_not_lt hlen
    cases hd : BodyStream.decodeTerminal f' with
    | none =>
      rw [outcome_passes hl hle hp hd] at h
      exact ⟨f', hf', h⟩
    | some result =>
      rw [outcome_terminal hl hle hp hd] at h
      rcases result with err | ⟨⟩
      · simp [ended, Except.mapError] at h
      · exact absurd hd (decodeTerminal_starts htags (hbytes ▸ hstarts))

theorem outcome_announced {sent : Bytes} (hf : Between f) (hfront : LF ∉ front)
    (hsent : sent.length < 2 ^ 32)
    (h : i.outcome s f (front ++ announcement sent.length .sync ++ (sent ++ more)) =
      (ts, some (.ok ()))) :
    ∃ us s' vs, ∃ f' : F, i.accept s (front ++ announcement sent.length .sync)
        ⟨.sync, sent.length⟩ = .ok (us, s') ∧ Between f' ∧ i.outcome s' f' more = (vs, some (.ok ())) ∧
      ts = us ++ (sent.map i.octet ++ i.close) ++ vs := by
  obtain ⟨f', hp, hf'⟩ := FramesLines.announces hf hfront hsent
  have hl := splitLine_announcement hfront sent.length (sent ++ more)
  by_cases hlen : (front ++ announcement sent.length .sync).length > MAX_LINE_LEN
  · rw [outcome_tooLong hl hlen] at h
    simp [ended, Except.mapError] at h
  · have hle := Nat.le_of_not_lt hlen
    rcases ha : i.accept s (front ++ announcement sent.length .sync) ⟨.sync, sent.length⟩ with
      err | ⟨us, s'⟩
    · rw [outcome_refused hl hle hp ha] at h
      simp at h
    · rw [outcome_literal hl hle hp ha, body, if_pos (by simp), List.take_left, List.drop_left,
        tells_tells] at h
      obtain ⟨hts, hok⟩ := Prod.mk.inj h
      exact ⟨us, s', _, _, rfl, hf', Prod.ext rfl hok, hts.symm⟩

/-- The way a response is told does not depend on what comes behind it. -/
theorem tells_segments (htags : TagsFirst F) {slots : List (Bytes × Bytes)}
    (hmore : ∀ {s : σ} {f : F} {ts : List T}, Between f →
      i.outcome s f more = (ts, some (.ok ())) → i.Tells s slots ts)
    {segments : List Segment} (hspans : Spans segments) (hfront : LF ∉ front)
    (hstarts : Starts (front ++ responseOctets segments))
    (hends : announcementOf (lineFrom front segments ++ crlf) = none) (hf : Between f)
    (h : i.outcome s f (front ++ responseOctets segments ++ more) = (ts, some (.ok ()))) :
    i.Tells s (literalsFrom front segments ++ slots) ts := by
  induction segments generalizing front s f ts with
  | nil =>
    obtain ⟨f', hf', h'⟩ := outcome_ended htags hf hfront hstarts hends h
    exact hmore hf' h'
  | cons x segments ih =>
    rw [responseOctets_cons] at hstarts h
    cases x with
    | text t =>
      have hline : LF ∉ front ++ t := by
        rw [List.mem_append, not_or]
        exact ⟨hfront, hspans.lines t (List.mem_cons_self ..)⟩
      rw [Segment.octets, ← List.append_assoc] at hstarts h
      exact ih hspans.tail hline hstarts hends hf h
    | literal sent hsent =>
      rw [Segment.octets, List.append_assoc (announcement _ _), ← List.append_assoc front,
        List.append_assoc _ _ more, List.append_assoc sent] at h
      obtain ⟨us, s', vs, f', ha, hf', h', rfl⟩ := outcome_announced hf hfront hsent h
      have hrest := ih hspans.tail (by simp) (starts_behind hspans) hends hf' h'
      exact .cons ha hrest

/-- A reply that ends well is told literal by literal. -/
theorem tells_reply (htags : TagsFirst F) {reply : FetchReply} (hf : Between f)
    (hcompletion : IsCompletion F reply.completion) (hframed : reply.Framed)
    (h : i.outcome s f (reply.octets ++ more) = (ts, some (.ok ()))) :
    i.Tells s reply.announcements ts := by
  obtain ⟨responses, completion⟩ := reply
  rw [FetchReply.octets, List.append_assoc] at h
  simp only [FetchReply.announcements] at h ⊢
  induction responses generalizing s f ts with
  | nil =>
    obtain ⟨tagged, hline⟩ := hcompletion f hf
    have hnil : ([] : List T) = ts := by
      have hended := (hline.outcome i s more).symm.trans h
      exact congrArg Prod.fst hended
    rw [← hnil]
    exact .nil
  | cons response responses ih =>
    rw [List.flatMap_cons, List.append_assoc] at h
    rw [List.flatMap_cons]
    have hends := hframed.ends (List.mem_cons_self ..)
    have hresponses : FetchReply.Framed ⟨responses, completion⟩ :=
      fun u hu => hframed u (List.mem_cons_of_mem _ hu)
    refine tells_segments htags ?_ response.untagged.spans (by simp) response.untagged.starts_line
      hends hf h
    intro s f ts hf' h'
    exact ih hf' hcompletion hresponses h'

end Lines

end Intake

namespace ImapMessageFetchStream

/-- What the caller's sink holds at the end of a run. -/
def sink {F : Type} (es : List (Turn ImapMessageFetchStream F Unit ImapMessageFetchStreamYield
    (Except ImapMessageFetchStreamError Unit))) (pieces : List Bytes) : Bytes :=
  tokens intake told es pieces

theorem tells_seen {lits : List (Bytes × Bytes)} {ts : Bytes} (h : intake.Tells true lits ts) :
    lits = [] ∧ ts = [] := by
  cases h with
  | nil => exact ⟨rfl, rfl⟩
  | cons ha h => simp [intake] at ha

theorem tells_fresh {lits : List (Bytes × Bytes)} {ts : Bytes} (h : intake.Tells false lits ts) :
    (lits = [] ∧ ts = []) ∨ ∃ line octets, lits = [(line, octets)] ∧ ts = octets := by
  cases h with
  | nil => exact .inl ⟨rfl, rfl⟩
  | @cons _ s' line octets a rest ts us ha h =>
    obtain ⟨rfl, rfl⟩ : [] = ts ∧ true = s' := by simpa [intake] using ha
    obtain ⟨rfl, rfl⟩ := tells_seen h
    exact .inr ⟨line, octets, rfl, by simp [intake]⟩

end ImapMessageFetchStream

namespace ImapMessageFetchStreamBatch

def isOctet : Token → Bool
  | .octet _ => true
  | _ => false

def octet? : Token → Option Byte
  | .octet b => some b
  | _ => none

/-- The messages told in full: the UID of each start that octets and an end follow. -/
def messages : List Token → List (Nat × Bytes)
  | [] => []
  | .start uid :: ts =>
    match ts.dropWhile isOctet with
    | .finish :: _ => (uid, (ts.takeWhile isOctet).filterMap octet?) :: messages ts
    | _ => messages ts
  | _ :: ts => messages ts

theorem messages_octets (octets : Bytes) (ts : List Token) :
    messages (octets.map .octet ++ ts) = messages ts := by
  induction octets with
  | nil => rfl
  | cons b bs ih => exact ih

theorem messages_message (uid : Nat) (octets : Bytes) (ts : List Token) :
    messages (.start uid :: (octets.map .octet ++ .finish :: ts)) = (uid, octets) :: messages ts := by
  have hall : ∀ x ∈ octets.map Token.octet, isOctet x = true := by
    intro x hx
    obtain ⟨b, -, rfl⟩ := List.mem_map.mp hx
    rfl
  have hdrop : (octets.map Token.octet ++ .finish :: ts).dropWhile isOctet = .finish :: ts := by
    rw [List.dropWhile_append_of_pos hall]
    rfl
  have htake : (octets.map Token.octet ++ .finish :: ts).takeWhile isOctet = octets.map .octet := by
    rw [List.takeWhile_append_of_pos hall]
    simp [isOctet]
  have hoctets : (octets.map Token.octet).filterMap octet? = octets := by
    rw [List.filterMap_map]
    exact List.filterMap_some
  rw [messages, hdrop, htake, hoctets, messages_octets]
  rfl

theorem messages_of_tells {limit : Nat → Nat} {lits : List (Bytes × Bytes)} {ts : List Token}
    (h : intake.Tells limit lits ts) :
    messages ts = lits.filterMap fun x => (parseUid x.1).map fun uid => (uid, x.2) := by
  induction h with
  | nil => rfl
  | @cons s s' line octets a rest ts us ha h ih =>
    cases hu : parseUid line with
    | none => simp [intake, hu] at ha
    | some uid =>
      by_cases hlen : a.length > s uid
      · simp [intake, hu, hlen] at ha
      · obtain ⟨rfl, -⟩ : [Token.start uid] = ts ∧ s = s' := by simpa [intake, hu, hlen] using ha
        have hmessage := messages_message uid octets us
        rw [List.filterMap_cons_some (b := (uid, octets)) (by rw [hu]; rfl), ← ih, ← hmessage]
        simp [intake]

end ImapMessageFetchStreamBatch

theorem Completes.tells {S Y E F σ T : Type} [StreamsBodies S] [Fragmentizer F] [FramesLines F]
    {c : Coroutine S Unit Y (Except E Unit)} {i : Intake σ T E} {memory : S → σ} {told : Y → List T}
    {byTagged : Except E Unit → Bool} {s₀ : S} {f : F} {reply : FetchReply} {more : Bytes}
    {es : List (Turn S F Unit Y (Except E Unit))} {pieces : List Bytes}
    (hc : BodyStreaming c byTagged) (hi : BodyIntake c i memory told) (hphase : phase s₀ = .command)
    (hstream : stream s₀ = .new) (htags : TagsFirst F) (hf : Between f)
    (hcompletion : IsCompletion F reply.completion) (hframed : reply.Framed)
    (h : Completes c s₀ f (reply.octets ++ more) es pieces (.ok ())) :
    i.Tells (memory s₀) reply.announcements (tokens i told es pieces) := by
  have hplace : place memory s₀ f = ⟨memory s₀, f, [], none⟩ := by
    rw [place, hphase, hstream]
    rfl
  rcases h.outcome hc hi (awaits_new hphase hstream) with hout | ⟨hlost, -⟩
  · rw [hplace] at hout
    exact Intake.tells_reply htags hf hcompletion hframed hout
  · simp at hlost

section Concrete

open Concrete

end Concrete
end IoImap
