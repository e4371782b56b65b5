import IoImap.Client.Connect
import IoImap.Session.Resume

/-!
# The operations of connecting (client/connect.rs)

A connection, an upgrade, or an operation on the stream: the loop of `connect` serves every
yield of its session by one of them, and the stream is there whenever one needs it.
-/

namespace IoImap
open Transition

/-! ### The operations -/

/-- An operation of `connect`, with what came of it. -/
inductive ConnectOp where
  | connects (transport : ImapSessionTransport) (result : Except String Unit)
  | upgrades (result : Except String Unit)
  | stream (op : StreamOp)

def Network.connect {N St : Type} [Network N St] (network : N) :
    ImapSessionTransport → Except String St × N
  | .tcp host port => Network.connectTcp network host port
  | .tls host port => Network.connectTls network host port
  | .unix path => Network.connectUnix network path

namespace ConnectOp

/-- What an operation does to the sockets and to the stream. -/
inductive Performs {N St : Type} [Network N St] [ImapStream St] :
    N × Option St → ConnectOp → N × Option St → Prop
  | connects {network network' : N} {stream : Option St} {transport : ImapSessionTransport}
      {r : Except String St} (h : Network.connect network transport = (r, network')) :
      Performs (network, stream) (.connects transport (r.map fun _ => ()))
        (network', r.toOption.or stream)
  | upgrades {network network' : N} {plain : St} {r : Except String St}
      (h : Network.upgradeTls network plain = (r, network')) :
      Performs (network, some plain) (.upgrades (r.map fun _ => ())) (network', r.toOption)
  | stream {network : N} {st st' : St} {op : StreamOp} (h : op.Performs st st') :
      Performs (network, some st) (.stream op) (network, some st')

inductive Answers : ConnectOp → ImapSessionOpenYield → Prop
  | connects (transport : ImapSessionTransport) (result : Except String Unit) :
      Answers (.connects transport result) transport.connect
  | upgrades (result : Except String Unit) : Answers (.upgrades result) .wantsTlsUpgrade
  | stream {op : StreamOp} {y : ImapYield} (h : op.Answers y) : Answers (.stream op) (.ofYield y)

def failure? {E : Type} : ConnectOp → Option (ImapClientError E)
  | .connects _ (.error err) => some (.tls err)
  | .upgrades (.error err) => some (.tls err)
  | .stream op => op.failure?.map .io
  | _ => none

def received? : ConnectOp → Option Bytes
  | .stream op => op.received?
  | _ => none

def written? : ConnectOp → Option Bytes
  | .stream op => op.written?
  | _ => none

end ConnectOp

namespace Dialing

/-- What `connect` does with its sockets, its stream and its tags. -/
def operations (N St G E : Type) [Network N St] [ImapStream St] :
    Operations (Dialing N St G) ImapSessionOpenYield E ConnectOp (N × Option St) G where
  place w := (w.network, w.stream)
  tags := Dialing.tags
  Performs := ConnectOp.Performs
  Answers := ConnectOp.Answers
  failure? := ConnectOp.failure?
  received? := ConnectOp.received?

variable {N St G E : Type} [Network N St] [ImapStream St] [TagGenerator G]

/-- One operation serves the yield; where it does not fail, the stream is there. -/
def Operates (w : Dialing N St G) (y : ImapSessionOpenYield) : Prop :=
  ∃ op w', ConnectOp.Answers op y ∧ ConnectOp.Performs (w.network, w.stream) op (w'.network, w'.stream) ∧
    w'.tags = w.tags ∧ serve (E := E) w y = (match op.failure? with
      | some err => .error err
      | none => .ok op.received?, w') ∧ (op.failure? (E := E) = none → w'.stream.isSome = true)

theorem serve_connects (w : Dialing N St G) (transport : ImapSessionTransport) :
    Operates (E := E) w transport.connect := by
  have hserve : serve (E := E) w transport.connect = w.opened (Network.connect w.network transport) := by
    cases transport <;> rfl
  rcases hr : Network.connect w.network transport with ⟨err | stream, network⟩
  · exact ⟨.connects transport (.error err), { w with network }, .connects transport _, .connects hr, rfl,
      by rw [hserve, hr]; rfl, by simp [ConnectOp.failure?]⟩
  · exact ⟨.connects transport (.ok ()), { w with network, stream := some stream },
      .connects transport _, .connects hr, rfl, by rw [hserve, hr]; rfl, fun _ => rfl⟩

theorem serve_upgrades {w : Dialing N St G} (h : w.stream.isSome = true) :
    Operates (E := E) w .wantsTlsUpgrade := by
  obtain ⟨plain, hplain⟩ := Option.isSome_iff_exists.mp h
  have hserve : serve (E := E) w .wantsTlsUpgrade =
      { w with stream := none }.opened (Network.upgradeTls w.network plain) := by
    simp only [serve, hplain]
  rcases hr : Network.upgradeTls w.network plain with ⟨err | stream, network⟩
  · refine ⟨.upgrades (.error err), { w with network, stream := none }, .upgrades _, ?_, rfl,
      by rw [hserve, hr]; rfl, by simp [ConnectOp.failure?]⟩
    rw [hplain]
    exact .upgrades hr
  · refine ⟨.upgrades (.ok ()), { w with network, stream := some stream }, .upgrades _, ?_, rfl,
      by rw [hserve, hr]; rfl, fun _ => rfl⟩
    rw [hplain]
    exact .upgrades hr

theorem serve_converses {w : Dialing N St G} (h : w.stream.isSome = true) {y : ImapYield}
    (hy : y ≠ .wantsTag) : Operates (E := E) w (.ofYield y) := by
  obtain ⟨stream, hstream⟩ := Option.isSome_iff_exists.mp h
  obtain ⟨op, stream', hop, hperforms, hio⟩ :=
    Connection.serve_io (E := E) (⟨stream, w.tags⟩ : Connection St G) hy
  have hserve : serve (E := E) w (.ofYield y) = w.converse y := by
    cases y with
    | wantsTag => exact absurd rfl hy
    | wantsRead => rfl
    | wantsWrite bytes => rfl
  refine ⟨.stream op, { w with stream := some stream' }, .stream hop, ?_, rfl, ?_, fun _ => rfl⟩
  · rw [hstream]
    exact .stream hperforms
  · rw [hserve, converse, hstream]
    dsimp only
    rw [hio]
    simp only [ConnectOp.failure?]
    cases op.failure? <;> rfl

/-- An operation that went well answers the request of the yield. -/
theorem answers_received {op : ConnectOp} {y : ImapSessionOpenYield} (h : ConnectOp.Answers op y)
    (hok : op.failure? (E := E) = none) : y.request.answeredBy op.received? = true := by
  cases h with
  | connects transport result => cases transport <;> rfl
  | upgrades result => rfl
  | @stream op y h =>
    rw [ImapSessionOpen.ofYield_request]
    exact h.received (Option.map_eq_none_iff.mp hok)

theorem Operates.ok {w w' : Dialing N St G} {y : ImapSessionOpenYield} {answer : Option Bytes}
    (h : Operates (E := E) w y) (hserve : serve (E := E) w y = (.ok answer, w')) :
    y.request.answeredBy answer = true ∧ w'.stream.isSome = true := by
  obtain ⟨op, w'', hop, -, -, he, hstream⟩ := h
  rw [hserve, Prod.mk.injEq] at he
  obtain ⟨hanswer, rfl⟩ := he
  cases hf : op.failure? (E := E) with
  | some err => simp [hf] at hanswer
  | none =>
    simp only [hf, Except.ok.injEq] at hanswer
    exact ⟨hanswer ▸ answers_received hop hf, hstream hf⟩

theorem yield_cases (y : ImapSessionOpenYield) : (∃ transport : ImapSessionTransport,
    y = transport.connect) ∨ y = .wantsTlsUpgrade ∨ ∃ y', y = .ofYield y' := by
  cases y with
  | wantsTcpConnect host port => exact .inl ⟨.tcp host port, rfl⟩
  | wantsTlsConnect host port => exact .inl ⟨.tls host port, rfl⟩
  | wantsUnixConnect path => exact .inl ⟨.unix path, rfl⟩
  | wantsTlsUpgrade => exact .inr (.inl rfl)
  | wantsTag => exact .inr (.inr ⟨.wantsTag, rfl⟩)
  | wantsRead => exact .inr (.inr ⟨.wantsRead, rfl⟩)
  | wantsWrite bytes => exact .inr (.inr ⟨.wantsWrite bytes, rfl⟩)

theorem connect_ne_tag (transport : ImapSessionTransport) : transport.connect ≠ .wantsTag := by
  cases transport <;> simp [ImapSessionTransport.connect]

theorem request_tag {y : ImapSessionOpenYield} (h : y.request = .tag) : y = .wantsTag := by
  cases y <;> simp_all [ImapSessionOpenYield.request]

/-- Without a stream there is nothing but a connection, or a tag. -/
theorem serve_unconnected {w : Dialing N St G} {y : ImapSessionOpenYield} (h : w.stream = none)
    (htag : y.request ≠ .tag) : Operates (E := E) w y ∨
      serve (E := E) w y = (.error (.io yieldedBeforeConnecting), w) := by
  cases y with
  | wantsTcpConnect host port => exact .inl (w.serve_connects (.tcp host port))
  | wantsTlsConnect host port => exact .inl (w.serve_connects (.tls host port))
  | wantsUnixConnect path => exact .inl (w.serve_connects (.unix path))
  | wantsTag => exact absurd rfl htag
  | wantsTlsUpgrade => exact .inr (by simp only [serve, h])
  | wantsRead => exact .inr (by simp only [serve, converse, h])
  | wantsWrite bytes => exact .inr (by simp only [serve, converse, h])

theorem serve_connected {w : Dialing N St G} {y : ImapSessionOpenYield} (h : w.stream.isSome = true)
    (htag : y.request ≠ .tag) : Operates (E := E) w y := by
  obtain ⟨transport, rfl⟩ | rfl | ⟨y', rfl⟩ := yield_cases y
  · exact w.serve_connects transport
  · exact serve_upgrades h
  · refine serve_converses h ?_
    rintro rfl
    exact htag rfl

theorem serve_honours : Serve.Honours (serve : Serve (Dialing N St G) ImapSessionOpenYield E)
    ImapSessionOpenYield.request := by
  intro w y answer w' hserve
  by_cases htag : y.request = .tag
  · obtain rfl := request_tag htag
    rw [serve, Prod.mk.injEq, Except.ok.injEq] at hserve
    rw [← hserve.1]
    rfl
  · cases hstream : w.stream with
    | some stream => exact ((serve_connected (by rw [hstream]; rfl) htag).ok hserve).1
    | none =>
      rcases serve_unconnected (E := E) hstream htag with hop | herr
      · exact (hop.ok hserve).1
      · simp [herr] at hserve

section Session

variable {K : Type} [SaslMechanisms K] [TryFrom String AString] [TryFrom Bytes Tag] [Encoder Command]
  [Encoder AuthenticateData]

/-- A session that has not connected asks for nothing else. -/
theorem resume_connects {F : Type} [Fragmentizer F] {s : ImapSessionOpen K} {f : F} {arg : Option Bytes}
    {y : ImapSessionOpenYield} (hs : s.state = .connect) (hy : (s.resume f arg).1 = .yielded y) :
    y = s.transport.connect := by
  unfold ImapSessionOpen.resume at hy
  rw [hs] at hy
  dsimp only at hy
  unfold ImapSessionOpen.resumeConnect at hy
  split at hy
  · simp [ImapSessionOpen.fail] at hy
  · exact (CoroutineState.yielded.inj hy).symm

/-- The stream is there once the session has connected. -/
def Connected (s : ImapSessionOpen K) (w : Dialing N St G) : Prop :=
  s.state ≠ .connect → w.stream.isSome = true

theorem serve_operates {F : Type} [Fragmentizer F] {s : ImapSessionOpen K} {f : F} {arg : Option Bytes}
    {w : Dialing N St G} {y : ImapSessionOpenYield} (hy : (s.resume f arg).1 = .yielded y)
    (h : Connected s w) (htag : y.request ≠ .tag) : Operates (E := E) w y := by
  by_cases hs : s.state = .connect
  · rw [resume_connects hs hy]
    exact w.serve_connects s.transport
  · exact serve_connected (h hs) htag

theorem serves_operations : (operations N St G ImapSessionOpenError).Serves (imapSessionOpen K)
    Dialing.serve Connected where
  honours := serve_honours
  asks w y hy := by
    obtain rfl := request_tag hy
    exact ⟨_, { w with tags := (TagGenerator.generate w.tags).2 }, rfl, rfl, rfl⟩
  operates s f arg w y hyields h hy := by
    obtain ⟨op, w', hop, hperforms, htags, hserve, -⟩ := serve_operates hyields h hy
    exact ⟨op, w', hop, hperforms, htags, hserve⟩
  holds s f arg w y answer w' hyields h hserve := by
    intro _
    by_cases hy : y.request = .tag
    · obtain rfl := request_tag hy
      rw [serve, Prod.mk.injEq] at hserve
      rw [← hserve.2]
      exact h fun hs => absurd (resume_connects hs hyields).symm (connect_ne_tag s.transport)
    · exact ((serve_operates hyields h hy).ok hserve).2
  reads op y hop hy := by
    cases hop with
    | connects transport result => rfl
    | upgrades result => rfl
    | @stream op y h =>
      cases h with
      | read result => exact absurd rfl hy
      | write bytes result => rfl
  failed op err hf := by
    cases op with
    | connects transport result => rfl
    | upgrades result => rfl
    | stream op =>
      obtain ⟨e, he, -⟩ := Option.map_eq_some_iff.mp hf
      exact StreamOp.received?_of_failure he

end Session
end Dialing

end IoImap
