import IoImap.Client.Appending
import IoImap.Client.Bodies
import IoImap.Client.BodyBudget
import IoImap.Client.Connected
import IoImap.Client.Standard
import IoImap.Rfc3501.RawTags

/-!
# The calls return (client.rs, client/connect.rs)

A server that sends so many octets and no more cannot keep a call of the client going:
whatever the octets are, the call returns within some passes for each of them. None of its
coroutines waits for anything but octets, and none asks for ever without reading.
-/

namespace IoImap
open Fragmentizer

/-- A stream that brings so many octets and no more. -/
class FiniteStream (St : Type) [ImapStream St] where
  remaining : St → Nat
  read : ∀ (st : St) (size : Nat) (bytes : Bytes) (st' : St),
    ImapStream.read st size = (.ok bytes, st') → remaining st' + bytes.length ≤ remaining st
  read_error : ∀ (st : St) (size : Nat) (err : IoError) (st' : St),
    ImapStream.read st size = (.error err, st') → remaining st' ≤ remaining st
  writeAll : ∀ (st : St) (bytes : Bytes) (result : Except IoError Unit) (st' : St),
    ImapStream.writeAll st bytes = (result, st') → remaining st' ≤ remaining st

/-- Sockets whose streams bring so many octets between them. -/
class FiniteNetwork (N : Type) {St : outParam Type} [Network N St] [ImapStream St] [FiniteStream St] where
  remaining : N → Nat
  connect : ∀ (network : N) (transport : ImapSessionTransport) (st : St) (network' : N),
    Network.connect network transport = (.ok st, network') →
      remaining network' + FiniteStream.remaining st ≤ remaining network
  upgradeTls : ∀ (network : N) (plain st : St) (network' : N),
    Network.upgradeTls network plain = (.ok st, network') →
      remaining network' + FiniteStream.remaining st ≤ remaining network + FiniteStream.remaining plain
  sample : ∀ network : N, remaining (Network.sample network).2 ≤ remaining network

section Octets

variable {St G E : Type} [ImapStream St] [TagGenerator G] [FiniteStream St]

/-! ### What is left of the octets -/

theorem Connection.serve_gives {w w' : Connection St G} {y : ImapYield} {answer : Option Bytes}
    (h : serve (E := E) w y = (.ok answer, w')) :
    FiniteStream.remaining w'.stream + (y.request.octets answer).flatten.length ≤
      FiniteStream.remaining w.stream := by
  cases y with
  | wantsTag =>
    obtain ⟨hanswer, rfl⟩ := Prod.mk.inj h
    rw [Request.octets_of_ne (by simp [ImapYield.request])]
    exact Nat.le_refl _
  | wantsWrite bytes =>
    rw [Request.octets_of_ne (by simp [ImapYield.request])]
    rcases hw : ImapStream.writeAll w.stream bytes with ⟨err | ⟨⟩, stream⟩
    · simp [serve, hw] at h
    · simp only [serve, hw] at h
      obtain ⟨-, rfl⟩ := Prod.mk.inj h
      exact FiniteStream.writeAll _ _ _ _ hw
  | wantsRead =>
    rcases hr : ImapStream.read w.stream READ_BUFFER_SIZE with ⟨err | (- | ⟨b, bs⟩), stream⟩
    · simp [serve, readResponse, hr] at h
    · simp [serve, readResponse, hr] at h
    · simp only [serve, readResponse, hr, Prod.mk.injEq, Except.ok.injEq] at h
      obtain ⟨rfl, rfl⟩ := h
      have hread := FiniteStream.read _ _ _ _ hr
      simpa [ImapYield.request, Request.octets] using hread

theorem copyBody_remaining {Sk : Type} [Sink Sk] (stream : St) (sink : Sk) (len : Nat) :
    FiniteStream.remaining (copyBody stream sink len).2.1 ≤ FiniteStream.remaining stream := by
  fun_induction copyBody stream sink len with
  | case1 => exact Nat.le_refl _
  | case2 stream sink len hlen err stream' hread => exact FiniteStream.read_error _ _ _ _ hread
  | case3 stream sink len hlen stream' hread =>
    exact Nat.le_of_add_right_le (FiniteStream.read _ _ _ _ hread)
  | case4 stream sink len hlen b bs stream' hread err sink' hwrite =>
    exact Nat.le_of_add_right_le (FiniteStream.read _ _ _ _ hread)
  | case5 stream sink len hlen b bs stream' hread sink' hwrite ih =>
    exact Nat.le_trans ih (Nat.le_of_add_right_le (FiniteStream.read _ _ _ _ hread))

section Bodies

variable {Sk C : Type} [Sink Sk]

theorem BodyCall.serve_gives {w w' : BodyCall St G Sk} {y : ImapMessageFetchStreamYield}
    {answer : Option Bytes} (h : serve w y = (.ok answer, w')) :
    FiniteStream.remaining w'.stream + (y.request.octets answer).flatten.length ≤
      FiniteStream.remaining w.stream := by
  cases y with
  | wantsTag => exact Connection.serve_gives (converse_inv .wantsTag h)
  | wantsRead => exact Connection.serve_gives (converse_inv .wantsRead h)
  | wantsWrite bytes => exact Connection.serve_gives (converse_inv (.wantsWrite bytes) h)
  | bodyChunk bytes =>
    rw [Request.octets_of_ne (by simp [ImapMessageFetchStreamYield.request])]
    rw [serve] at h
    split at h
    · simp at h
    · obtain ⟨-, rfl⟩ := Prod.mk.inj h
      exact Nat.le_refl _
  | wantsStream len =>
    rw [Request.octets_of_ne (by simp [ImapMessageFetchStreamYield.request])]
    -- what is copied is not told to the coroutine, but it comes from the stream all the same
    have hcopied := copyBody_remaining w.stream w.sink len
    rw [serve] at h
    generalize copyBody w.stream w.sink len = r at h hcopied
    obtain ⟨err | arg, stream, sink⟩ := r
    · simp at h
    · obtain ⟨-, rfl⟩ := Prod.mk.inj h
      exact hcopied

theorem BodiesCall.serve_gives [OpensSinks C Sk] {w w' : BodiesCall St G C Sk}
    {y : ImapMessageFetchStreamBatchYield} {answer : Option Bytes} (h : serve w y = (.ok answer, w')) :
    FiniteStream.remaining w'.stream + (y.request.octets answer).flatten.length ≤
      FiniteStream.remaining w.stream := by
  cases y with
  | wantsTag => exact Connection.serve_gives (converse_inv .wantsTag h)
  | wantsRead => exact Connection.serve_gives (converse_inv .wantsRead h)
  | wantsWrite bytes => exact Connection.serve_gives (converse_inv (.wantsWrite bytes) h)
  | messageStart uid =>
    rw [Request.octets_of_ne (by simp [ImapMessageFetchStreamBatchYield.request])]
    rw [serve] at h
    split at h
    · simp at h
    · obtain ⟨-, rfl⟩ := Prod.mk.inj h
      exact Nat.le_refl _
  | bodyChunk bytes =>
    rw [Request.octets_of_ne (by simp [ImapMessageFetchStreamBatchYield.request])]
    rw [serve] at h
    split at h
    · simp at h
    · split at h
      · simp at h
      · obtain ⟨-, rfl⟩ := Prod.mk.inj h
        exact Nat.le_refl _
  | wantsStream len =>
    rw [Request.octets_of_ne (by simp [ImapMessageFetchStreamBatchYield.request])]
    rw [serve] at h
    split at h
    · simp at h
    · rename_i uid sink hcurrent
      have hcopied := copyBody_remaining w.stream sink len
      generalize copyBody w.stream sink len = r at h hcopied
      obtain ⟨err | arg, stream, sink⟩ := r
      · simp at h
      · obtain ⟨-, rfl⟩ := Prod.mk.inj h
        exact hcopied
  | messageEnd =>
    rw [Request.octets_of_ne (by simp [ImapMessageFetchStreamBatchYield.request])]
    rw [serve] at h
    split at h
    · simp at h
    · split at h
      · simp at h
      · obtain ⟨-, rfl⟩ := Prod.mk.inj h
        exact Nat.le_refl _

end Bodies

section Append

variable {Src : Type} [Source Src]

omit [TagGenerator G] in
theorem copyMessage_remaining (stream : St) (source : Src) (len : Nat) :
    FiniteStream.remaining (copyMessage stream source len).2.1 ≤ FiniteStream.remaining stream := by
  fun_induction copyMessage stream source len with
  | case1 => exact Nat.le_refl _
  | case2 => exact Nat.le_refl _
  | case3 => exact Nat.le_refl _
  | case4 stream source len hlen b bs source' hread err stream' hwrite =>
    exact FiniteStream.writeAll _ _ _ _ hwrite
  | case5 stream source len hlen b bs source' hread stream' hwrite r ih =>
    exact Nat.le_trans ih (FiniteStream.writeAll _ _ _ _ hwrite)

theorem Appending.serve_gives [TryFrom Bytes Tag] [Encoder Command] {len : UInt64}
    {w w' : Appending St G Src} {y : ImapMessageAppendStreamYield} {answer : Option Bytes}
    (h : serve len w y = (.ok answer, w')) : FiniteStream.remaining w'.stream +
      ((imapMessageAppendStream.request y).octets answer).flatten.length ≤
        FiniteStream.remaining w.stream := by
  cases y with
  | wantsTag => exact Connection.serve_gives (converse_inv .wantsTag h)
  | wantsRead => exact Connection.serve_gives (converse_inv .wantsRead h)
  | wantsWrite bytes => exact Connection.serve_gives (converse_inv (.wantsWrite bytes) h)
  | wantsStream =>
    rw [Request.octets_of_ne (by simp [imapMessageAppendStream])]
    have hcopied := copyMessage_remaining w.stream w.source len.toNat
    rw [serve] at h
    generalize copyMessage w.stream w.source len.toNat = r at h hcopied
    obtain ⟨err | n, stream, source⟩ := r
    · simp at h
    · obtain ⟨-, rfl⟩ := Prod.mk.inj h
      exact hcopied

end Append

namespace Dialing

variable {N : Type} [Network N St] [FiniteNetwork N]

def left (w : Dialing N St G) : Nat :=
  FiniteNetwork.remaining w.network + (w.stream.map FiniteStream.remaining).getD 0

omit [TagGenerator G] in
theorem opened_left {w w' : Dialing N St G} {r : Except String St × N} {m : Nat} {answer : Option Bytes}
    (h : w.opened (E := E) r = (.ok answer, w'))
    (hr : ∀ st network, r = (.ok st, network) →
      FiniteNetwork.remaining network + FiniteStream.remaining st ≤ m) : w'.left ≤ m := by
  obtain ⟨err | st, network⟩ := r
  · simp [opened] at h
  · obtain ⟨-, rfl⟩ := Prod.mk.inj h
    exact hr st network rfl

theorem serve_gives {w w' : Dialing N St G} {y : ImapSessionOpenYield} {answer : Option Bytes}
    (h : serve (E := E) w y = (.ok answer, w')) :
    w'.left + (y.request.octets answer).flatten.length ≤ w.left := by
  have hconnect : ∀ transport : ImapSessionTransport,
      w.opened (E := E) (Network.connect w.network transport) = (.ok answer, w') → w'.left ≤ w.left :=
    fun transport hw => Nat.le_trans
      (opened_left hw fun st network hr => FiniteNetwork.connect w.network transport st network hr)
      (Nat.le_add_right _ _)
  have hconverse : ∀ y : ImapYield, w.converse (E := E) y = (.ok answer, w') →
      w'.left + (y.request.octets answer).flatten.length ≤ w.left := by
    intro y hy
    cases hstream : w.stream with
    | none => simp [converse, hstream] at hy
    | some stream =>
      rw [converse, hstream] at hy
      dsimp only at hy
      rcases hr : (Connection.serve (⟨stream, w.tags⟩ : Connection St G) y :
          Except (ImapClientError E) (Option Bytes) × Connection St G) with ⟨r, c⟩
      rw [hr] at hy
      obtain ⟨rfl, rfl⟩ := Prod.mk.inj hy
      have hgives := Connection.serve_gives hr
      simp only [left, hstream, Option.map_some, Option.getD_some] at hgives ⊢
      omega
  cases y with
  | wantsTcpConnect host port => exact hconnect (.tcp host port) h
  | wantsTlsConnect host port => exact hconnect (.tls host port) h
  | wantsUnixConnect path => exact hconnect (.unix path) h
  | wantsTlsUpgrade =>
    cases hstream : w.stream with
    | none => simp [serve, hstream] at h
    | some plain =>
      simp only [serve, hstream] at h
      refine opened_left h fun st network hr => ?_
      have hupgrade := FiniteNetwork.upgradeTls w.network plain st network hr
      simpa only [left, hstream, Option.map_some, Option.getD_some] using hupgrade
  | wantsTag =>
    obtain ⟨-, rfl⟩ := Prod.mk.inj h
    rw [Request.octets_of_ne (by simp [ImapSessionOpenYield.request])]
    exact Nat.le_refl _
  | wantsRead => exact hconverse .wantsRead h
  | wantsWrite bytes => exact hconverse (.wantsWrite bytes) h

end Dialing

section Nonce

variable {N St : Type} [Network N St] [ImapStream St] [FiniteStream St] [FiniteNetwork N]

theorem sampleIter_remaining (n : Nat) (network : N) :
    FiniteNetwork.remaining (sampleIter n network).2 ≤ FiniteNetwork.remaining network := by
  induction n generalizing network with
  | zero => exact Nat.le_refl _
  | succ n ih => exact Nat.le_trans (ih _) (FiniteNetwork.sample network)

theorem withNonce_remaining (network : N) (sasl : Option Sasl) :
    FiniteNetwork.remaining (withNonce network sasl).2 ≤ FiniteNetwork.remaining network := by
  rcases sasl with - | sasl
  · exact Nat.le_refl _
  · cases sasl with
    | scramSha256 creds =>
      simp only [withNonce, withClientNonce]
      split
      · exact sampleIter_remaining 24 network
      · exact Nat.le_refl _
    | _ => exact Nat.le_refl _

end Nonce
end Octets

/-! ### What the callers afford -/

section Affords

variable {St G E : Type} [ImapStream St] [TagGenerator G] [FiniteStream St]

theorem Connection.serve_affords : (serve : Serve (Connection St G) ImapYield E).Affords
    ImapYield.request fun w => FiniteStream.remaining w.stream where
  honours := serve_honours
  gives := serve_gives

theorem BodyCall.serve_affords {Sk : Type} [Sink Sk] :
    (serve : Serve (BodyCall St G Sk) _ _).Affords ImapMessageFetchStreamYield.request
      fun w => FiniteStream.remaining w.stream where
  honours := serve_honours
  gives := serve_gives

theorem BodiesCall.serve_affords {Sk C : Type} [Sink Sk] [OpensSinks C Sk] :
    (serve : Serve (BodiesCall St G C Sk) _ _).Affords ImapMessageFetchStreamBatchYield.request
      fun w => FiniteStream.remaining w.stream where
  honours := serve_honours
  gives := serve_gives

theorem Appending.serve_affords {Src : Type} [Source Src] [TryFrom Bytes Tag] [Encoder Command]
    (len : UInt64) : (serve len : Serve (Appending St G Src) _ _).Affords
      imapMessageAppendStream.request fun w => FiniteStream.remaining w.stream where
  honours := serve_honours
  gives := serve_gives

theorem Dialing.serve_affords {N : Type} [Network N St] [FiniteNetwork N] :
    (serve : Serve (Dialing N St G) ImapSessionOpenYield E).Affords ImapSessionOpenYield.request
      left where
  honours := serve_honours
  gives := serve_gives

end Affords

/-! ### The calls -/

namespace ImapClientStd

section Standard

variable {F St G : Type} [Fragmentizer F] [ImapStream St] [TagGenerator G] [FiniteStream St]

/-- The call has returned after so many passes. -/
def Returns {S E V : Type} (client : ImapClientStd F St G) (c : StandardCoroutine S E V) (s : S)
    (n : Nat) : Prop :=
  (client.run c s n).1.isSome = true

theorem returns_of_frugal {S E V : Type} {client : ImapClientStd F St G} {c : StandardCoroutine S E V}
    {s : S} {n : Nat} (budget : S → Option Bytes → Nat)
    (hc : ∀ {F : Type} [Fragmentizer F] (s : S) (f : F) (arg : Option Bytes),
      Frugal c.request budget (budget s arg) (c.resume s f arg ()).1 (c.resume s f arg ()).2.1)
    (hs : budget s none ≤ 4) (hn : 5 * FiniteStream.remaining client.stream + 5 ≤ n) :
    client.Returns c s n := by
  have hserve : (Connection.serve : Serve (Connection St G) ImapYield E).Affords ImapYield.request
      fun w => FiniteStream.remaining w.stream := Connection.serve_affords
  rw [← c.request_eq] at hserve
  refine Call.run_returns (Coroutine.spends_of hc) hserve ?_
  simp only [Call.fuel, Call.start, PER_READ]
  omega

variable [TryFrom Bytes Tag] [Encoder Command] [Encoder AuthenticateData] [TryFrom String AString]
  [TagDecoder] [Rfc2822]

/-- Each of the calls has returned after so many passes. -/
structure StandardReturns (client : ImapClientStd F St G) (n : Nat) : Prop where
  command : ∀ {V : Type} (decode : ImapSendOutput Command → V) (body : CommandBody),
    client.Returns (.command decode) (.command body) n
  capability : client.Returns .capability .new n
  login : ∀ {user password : String} {opts : ImapLoginOptions} {s : ImapLogin},
    ImapLogin.new user password opts = .ok s → client.Returns .login s n
  auth : ∀ {K : Type} [SaslCoroutine K] (framing : SaslFraming) (mechanism : K) (opts : ImapAuthOptions),
    client.Returns (.auth K) (.new framing mechanism opts) n
  greeting : ∀ opts : ImapGreetingGetOptions, client.Returns .greeting (.new opts) n
  startTls : client.Returns .startTls .new n
  logout : client.Returns .logout .new n
  fetchFirst : ∀ (id : NonZeroU32) (items : List MessageDataItemName) (opts : ImapMessageFetchOptions),
    client.Returns .fetchFirst (.new id items opts) n
  sort : ∀ (sortCriteria : Vec1 SortCriterion) (searchCriteria : Vec1 SearchKey)
    (opts : ImapMessageSortOptions), client.Returns .sort (.new sortCriteria searchCriteria opts) n
  raw : ∀ s : ImapRaw, client.Returns .raw s n

/-- Every call that runs a standard coroutine returns within five passes for each octet that
the server may still send, and five more: a stream that ends is enough. -/
theorem standard_calls_return (client : ImapClientStd F St G) (n : Nat)
    (h : 5 * FiniteStream.remaining client.stream + 5 ≤ n) : client.StandardReturns n where
  command decode _ :=
    returns_of_frugal ImapSend.budget (commandResume_frugal decode) (Nat.le_refl 4) h
  capability := returns_of_frugal ImapSend.budget ImapCapabilityGet.resume_frugal (Nat.le_refl 4) h
  login hnew := returns_of_frugal ImapLogin.budget ImapLogin.resume_frugal
    (Nat.le_of_eq (ImapLogin.budget_new hnew none)) h
  auth _ _ _ :=
    returns_of_frugal ImapAuth.budget ImapAuth.resume_frugal (Nat.le_refl 4) h
  greeting _ :=
    returns_of_frugal ImapGreetingGet.budget ImapGreetingGet.resume_frugal (Nat.le_add_right 1 3) h
  startTls := returns_of_frugal ImapStartTls.budget (fun s _ arg => s.resume_frugal arg)
    (Nat.le_add_right 1 3) h
  logout := returns_of_frugal ImapSend.budget (fun s f arg => (ImapSend.resume_frugal s f arg).tryOk)
    (Nat.le_refl 4) h
  fetchFirst _ _ _ := returns_of_frugal ImapSend.budget
    (fun s f arg => (commandResume_frugal ImapMessageFetchFirst.decode s f arg).tryOk) (Nat.le_refl 4) h
  sort sortCriteria searchCriteria opts :=
    returns_of_frugal ImapMessageSort.budget ImapMessageSort.resume_frugal
      (Nat.le_of_eq (ImapMessageSort.budget_new sortCriteria searchCriteria opts none)) h
  raw s := returns_of_frugal ImapRaw.budget ImapRaw.resume_frugal s.budget_unfed h

end Standard

section Streaming

variable {F St G : Type} [Fragmentizer F] [ImapStream St] [TagGenerator G] [FiniteStream St]
  [TryFrom Bytes Tag] [Encoder Command] [Base64Codec] [TryFrom String Mailbox]
  {client : ImapClientStd F St G} {n : Nat}

omit [Base64Codec] [TryFrom String Mailbox] in
theorem fetchBodyStream_returns {Sk : Type} [Sink Sk] (id : NonZeroU32) (uid : Bool) (sink : Sk)
    (h : 4 * FiniteStream.remaining client.stream + 4 ≤ n) :
    (client.fetchBodyStream id uid sink n).1.isSome = true := by
  refine Call.run_returns imapMessageFetchStream_spends BodyCall.serve_affords ?_
  have hbudget : StreamsBodies.budget (ImapMessageFetchStream.new id uid) none = 3 := rfl
  simp only [Call.fuel, Call.start, hbudget]
  omega

omit [Base64Codec] [TryFrom String Mailbox] in
theorem fetchBodiesStream_returns {Sk C : Type} [Sink Sk] [OpensSinks C Sk] (sequenceSet : SequenceSet)
    (uid : Bool) (caller : C) (h : 4 * FiniteStream.remaining client.stream + 4 ≤ n) :
    (client.fetchBodiesStream sequenceSet uid caller n).1.isSome = true := by
  refine Call.run_returns imapMessageFetchStreamBatch_spends BodiesCall.serve_affords ?_
  have hbudget : StreamsBodies.budget (ImapMessageFetchStreamBatch.new sequenceSet { uid := uid }) none = 3 :=
    rfl
  simp only [Call.fuel, Call.start, hbudget]
  omega

theorem appendStream_returns {Src : Type} [Source Src] (mailbox : Mailbox) (source : Src) (len : UInt64)
    (opts : ImapMessageAppendOptions) (h : 5 * FiniteStream.remaining client.stream + 7 ≤ n) :
    (client.appendStream mailbox source len opts n).1.isSome = true := by
  refine Call.run_returns (Coroutine.spends_of ImapMessageAppendStream.resume_frugal)
    (Appending.serve_affords len) ?_
  have hbudget : (ImapMessageAppendStream.new mailbox len.toUInt32.toNat opts).budget none = 6 := rfl
  simp only [Call.fuel, Call.start, hbudget, PER_READ]
  omega

/-- The calls that stream return as well, whatever their sinks and their sources do: what they
buffer and copy of a body comes from the octets that the server may still send, and of a message
no more is copied than was announced. -/
theorem streaming_calls_return (client : ImapClientStd F St G) (n : Nat)
    (h : 5 * FiniteStream.remaining client.stream + 7 ≤ n) :
    (∀ {Sk : Type} [Sink Sk] (id : NonZeroU32) (uid : Bool) (sink : Sk),
      (client.fetchBodyStream id uid sink n).1.isSome = true) ∧
    (∀ {C Sk : Type} [Sink Sk] [OpensSinks C Sk] (sequenceSet : SequenceSet) (uid : Bool) (caller : C),
      (client.fetchBodiesStream sequenceSet uid caller n).1.isSome = true) ∧
    ∀ {Src : Type} [Source Src] (mailbox : Mailbox) (source : Src) (len : UInt64)
      (opts : ImapMessageAppendOptions), (client.appendStream mailbox source len opts n).1.isSome = true :=
  ⟨fun id uid sink => fetchBodyStream_returns id uid sink (by omega),
    fun sequenceSet uid caller => fetchBodiesStream_returns sequenceSet uid caller (by omega),
    fun mailbox source len opts => appendStream_returns mailbox source len opts h⟩

end Streaming

section Connect

variable {K F N St G : Type} [SaslMechanisms K] [TryFrom String AString] [TryFrom Bytes Tag]
  [Encoder Command] [Encoder AuthenticateData] [Fragmentizer F] [Network N St] [ImapStream St]
  [TagGenerator G] [FiniteStream St] [FiniteNetwork N]

/-- `connect` returns, whatever its transport, its STARTTLS, its credentials and its server. -/
theorem connect_returns (network : N) (f : F) (tags : G) (url : Url) (opts : ImapClientStdConnectOptions)
    (n : Nat) (h : 5 * FiniteNetwork.remaining network + 3 ≤ n) :
    (ImapClientStd.connect K network f tags url opts n).isSome = true := by
  unfold connect
  split
  · rfl
  · rename_i transport _
    rw [Option.isSome_map]
    refine Call.run_returns (imapSessionOpen_spends K) Dialing.serve_affords ?_
    have hnonce := withNonce_remaining network opts.sasl
    have hbudget : (ImapSessionOpen.new transport (withNonce network opts.sasl).1 opts.session :
      ImapSessionOpen K).budget none = 2 := rfl
    simp only [Call.fuel, Call.start, hbudget, Dialing.left, Option.map_none, Option.getD_none, PER_READ]
    omega

end Connect

section Concrete

open Concrete

instance : FiniteStream ScriptedStream where
  remaining := ScriptedStream.remaining
  read st size bytes st' h := by
    obtain ⟨_, hresult, hle⟩ := ScriptedStream.read_remaining h
    obtain rfl := Except.ok.inj hresult
    exact hle
  read_error st size err st' h := by
    obtain ⟨_, hresult, -⟩ := ScriptedStream.read_remaining h
    cases hresult
  writeAll st bytes result st' h := by
    obtain ⟨-, rfl⟩ := Prod.mk.inj h
    exact Nat.le_refl _

local instance : TagDecoder := ⟨fun bytes => tagOfLine (firstLine bytes)⟩

local instance : Rfc2822 := ⟨fun _ => none⟩

theorem standard_calls_return_scripted : scriptedClient.StandardReturns 300 :=
  standard_calls_return scriptedClient 300 (by decide)

theorem streaming_calls_return_scripted :
    ((bodyClient twoBodies).fetchBodiesStream [.single .asterisk] true ([] : List (Nat × Bytes))
      500).1.isSome = true ∧
    ((bodyClient twoBodies).appendStream .inbox (ascii "abc") 5 {} 500).1.isSome = true := by
  obtain ⟨-, hbodies, happend⟩ := streaming_calls_return (bodyClient twoBodies) 500 (by decide +kernel)
  exact ⟨hbodies [.single .asterisk] true [], happend .inbox (ascii "abc") 5 {}⟩

def ScriptedSockets.remaining (w : ScriptedSockets) : Nat :=
  w.plain.flatten.length + w.secured.flatten.length

theorem ScriptedSockets.connect_remaining {w w' : ScriptedSockets} {transport : ImapSessionTransport}
    {st : ScriptedStream} (h : Network.connect w transport = (.ok st, w')) :
    ScriptedSockets.remaining w' + st.remaining ≤ ScriptedSockets.remaining w := by
  cases transport <;>
    (obtain ⟨hst, rfl⟩ := Prod.mk.inj h
     obtain rfl := Except.ok.inj hst
     simp only [ScriptedSockets.remaining, ScriptedStream.remaining, List.flatten_nil, List.length_nil]
     omega)

theorem ScriptedSockets.upgradeTls_remaining {w w' : ScriptedSockets} {plain st : ScriptedStream}
    (h : Network.upgradeTls w plain = (.ok st, w')) :
    ScriptedSockets.remaining w' + st.remaining ≤ ScriptedSockets.remaining w + plain.remaining := by
  obtain ⟨hst, rfl⟩ := Prod.mk.inj h
  obtain rfl := Except.ok.inj hst
  simp only [ScriptedSockets.remaining, ScriptedStream.remaining, List.flatten_nil, List.length_nil]
  omega

instance : FiniteNetwork ScriptedSockets where
  remaining := ScriptedSockets.remaining
  connect _ _ _ _ h := ScriptedSockets.connect_remaining h
  upgradeTls _ _ _ _ h := ScriptedSockets.upgradeTls_remaining h
  sample _ := Nat.le_refl _

theorem connect_returns_starttls : (connect Scripted startTlsSockets capabilityLines (⟨1⟩ : CountedTags)
    imapUrl ⟨none, ⟨true, none, none⟩⟩ 400).isSome = true :=
  connect_returns startTlsSockets capabilityLines (⟨1⟩ : CountedTags) imapUrl
    ⟨none, ⟨true, none, none⟩⟩ 400 (by decide +kernel)

end Concrete
end ImapClientStd
end IoImap
