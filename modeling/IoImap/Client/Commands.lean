import IoImap.Client.Scripted
import IoImap.Codec.CommandEncoder
import IoImap.Send.Accounts
import IoImap.Send.Progress
import Mathlib.Data.List.Nodup

/-!
# The calls that send a command (client.rs)

A method of the client that sends a command runs its coroutine on what the calls before
it left of the connection. What such a call did on the stream, which tag it took, and
which messages it took off the fragmentizer is its trace; the traces of consecutive calls
share the stream, the tags and the messages among themselves.
-/

namespace IoImap
open Fragmentizer Incremental Transition

def StandardCoroutine.command {V : Type} [TryFrom Bytes Tag] [Encoder Command]
    (decode : ImapSendOutput Command → V) :
    StandardCoroutine (ImapSend Command) ImapCommandError V where
  toCoroutine := commandCoroutine decode
  request_eq := rfl
  unlogged := commandCoroutine_unlogged decode

/-- A call that has returned: what it reads from the output of a success, its command, and
what it came to after so many passes. -/
structure CommandCall : Type 1 where
  V : Type
  decode : ImapSendOutput Command → V
  body : CommandBody
  passes : Nat
  result : Except (ImapClientError ImapCommandError) V

def Calls {F St G : Type} [Fragmentizer F] [ImapStream St] [TagGenerator G] [TryFrom Bytes Tag]
    [Encoder Command] (client : ImapClientStd F St G) (call : CommandCall)
    (client' : ImapClientStd F St G) : Prop :=
  client.run (.command call.decode) (.command call.body) call.passes = (some call.result, client')

/-- What a call did on its connection. -/
structure CallTrace where
  tags : List Tag
  ops : List StreamOp
  taken : List ServerMessage

namespace CallTrace

variable (trace : CallTrace)

def received : Bytes := (trace.ops.filterMap StreamOp.received?).flatten

def written : List Bytes := trace.ops.filterMap StreamOp.written?

end CallTrace

/-- A call writes nothing but its command, with a tag of its own, and only a tagged OK with
that tag makes it succeed. -/
structure Backed [TryFrom Bytes Tag] [Encoder Command] (call : CommandCall) (trace : CallTrace) :
    Prop where
  tags : trace.tags.length ≤ 1
  written : trace.written = [] ∨ ∃ tag, trace.tags = [tag] ∧
    trace.written <+: pieces (Encoder.encode (⟨tag, call.body⟩ : Command))
  succeeded : ∀ v, call.result = .ok v → ∃ out, Succeeds out ∧ v = call.decode out ∧
    trace.tags = [out.tag] ∧ out.message = ⟨out.tag, call.body⟩ ∧ trace.written ≠ [] ∧
    ImapSend.Reflects trace.taken out

/-- A call between the client it is made on and the client it leaves. -/
structure Traced {F St G : Type} [Fragmentizer F] [ImapStream St] [TagGenerator G]
    [TryFrom Bytes Tag] [Encoder Command] (client : ImapClientStd F St G) (call : CommandCall)
    (trace : CallTrace) (client' : ImapClientStd F St G) : Prop where
  backed : Backed call trace
  issued : Run Issues client.tags trace.tags client'.tags
  performed : Run StreamOp.Performs client.stream trace.ops client'.stream
  accounts : ∃ items, Accounts client.fragmentizer trace.received items client'.fragmentizer ∧
    trace.taken = items.filterMap id
  drained : ∀ v, call.result = .ok v → Fragmentizer.drained client'.fragmentizer = client'.fragmentizer

def ImapYield.written? : ImapYield → Option Bytes
  | .wantsWrite bytes => some bytes
  | _ => none

theorem StreamOp.Answers.written? {op : StreamOp} {y : ImapYield} (h : op.Answers y) :
    op.written? = y.written? := by
  cases h <;> rfl

theorem payloads_eq {S F Env R : Type} {c : Coroutine S Env ImapYield R}
    (hc : c.request = ImapYield.request) (ts : List (Turn S F Env ImapYield R)) :
    payloads ts = (ts.filterMap c.asked?).filterMap ImapYield.written? := by
  rw [payloads, List.filterMap_filterMap]
  refine List.filterMap_congr fun t _ => ?_
  rw [Turn.payload?, Coroutine.asked?, hc]
  rcases t.out with (- | - | bytes) | r <;> rfl

/-- What a call writes is what the run it drives yields to be written. -/
theorem Driven.writes {S F St G E V : Type} [ImapStream St] [TagGenerator G]
    {c : Coroutine S Unit ImapYield (Except E V)} {w : Connection St G} {ts : List (Call.Resume S F ImapYield E V)} {b : Config S F} {call : Call S F (Connection St G) E V}
    {ops : List StreamOp} {tags : List Tag} (hc : c.request = ImapYield.request)
    (h : Driven c w ts b call ops tags) : ops.filterMap StreamOp.written? = payloads ts := by
  have hanswers : List.Forall₂ StreamOp.Answers ops (ts.filterMap c.asked?) := h.answers
  clear h
  rw [payloads_eq hc]
  generalize ts.filterMap c.asked? = ys at hanswers
  induction hanswers with
  | nil => rfl
  | cons hy _ ih => rw [List.filterMap_cons, List.filterMap_cons, hy.written?, ih]

section Commands

variable {V F St G : Type} [Fragmentizer F] [TryFrom Bytes Tag] [Encoder Command]
  {decode : ImapSendOutput Command → V}
  {t : Turn (ImapSend Command) F Unit ImapYield (Except ImapCommandError V)}
  {a b : Config (ImapSend Command) F}

theorem command_out (h : (commandCoroutine decode).Step a t b) :
    t.out = (exchanged t).tryOk id .send (commandOutcome decode) := by
  obtain ⟨due, arg, env, -, -, rfl, -⟩ := h
  rfl

/-- A value is read from the output of an exchange that succeeded. -/
theorem command_succeeds (h : (commandCoroutine decode).Step a t b) {v : V}
    (hout : t.out = .complete (.ok v)) :
    ∃ out, exchanged t = .complete (.ok out) ∧ Succeeds out ∧ v = decode out := by
  obtain ⟨out, hx, hv⟩ := CoroutineState.tryOk_ok ((command_out h).symm.trans hout)
  obtain ⟨hsucceeds, rfl⟩ := commandOutcome_ok.mp hv
  exact ⟨out, hx, hsucceeds, rfl⟩

variable [ImapStream St] [TagGenerator G] [LawfulEncoder Command] [LawfulFragmentizer F] [LawfulTag]

theorem Calls.traced {client client' : ImapClientStd F St G} {call : CommandCall}
    (h : Calls client call client') : ∃ trace, Traced client call trace client' := by
  obtain ⟨ts, b, ops, tags, hrun, hdrives, hd, -⟩ :=
    client.call_driven (.command call.decode) (.command call.body) call.passes
  rw [Calls, ImapClientStd.run_eq, Prod.mk.injEq] at h
  obtain ⟨hresult, rfl⟩ := h
  obtain ⟨hreads, htags⟩ := hd.returned (by rw [hresult]; rfl)
  obtain ⟨hspent, -⟩ := (wraps_commandCoroutine call.decode).spent hrun
  obtain ⟨items, haccounts, hitems⟩ :=
    Coroutine.Accounting.run (commandCoroutine_accounting call.decode) hrun
  rw [hspent.fed, hreads, hdrives.frag] at haccounts
  have hshows := hd.shows
  rw [hresult] at hshows
  -- the only tag taken is the one the exchange was given
  have htag : ∀ bytes (tag : Tag), ts.filterMap Turn.tag? = [bytes] →
      TryFrom.tryFrom bytes = Except.ok tag → tags = [tag] := by
    intro bytes tag hgiven hvalid
    obtain rfl := LawfulTag.inner bytes tag hvalid
    rw [htags] at hgiven
    obtain ⟨x, rfl, hx⟩ := List.map_eq_singleton_iff.mp hgiven
    rw [← hx]
  have hsucceeded : ∀ v, call.result = .ok v → ∃ out, (Succeeds out ∧ v = call.decode out) ∧
      Brought call.body ts (client.call (.command call.decode) (.command call.body)
        call.passes).fragmentizer out := by
    intro v hv
    rw [hv] at hshows
    obtain ⟨-, t, hlast, hout⟩ := hshows
    obtain ⟨es, rfl⟩ := List.getLast?_eq_some_iff.mp hlast
    obtain ⟨a, hbefore, hstep⟩ := hrun.snoc_inv
    obtain ⟨out, hx, hsucceeds⟩ := command_succeeds hstep hout
    exact ⟨out, hsucceeds, hdrives.frag ▸ (wraps_commandCoroutine call.decode).brought hrun hx⟩
  refine ⟨⟨tags, ops, ts.flatMap Turn.completed⟩, ⟨?_, ?_, ?_⟩, hd.issued, hd.performed,
    ⟨items, haccounts, hitems⟩, ?_⟩
  · have hlength := hspent.tags
    rwa [htags, List.length_map] at hlength
  · rw [CallTrace.written, Driven.writes rfl hd]
    rcases hspent.conveyed with hnone | ⟨bytes, tag, hgiven, hvalid, hpieces⟩
    · exact .inl hnone
    · exact .inr ⟨tag, htag bytes tag hgiven hvalid, hpieces⟩
  · intro v hv
    obtain ⟨out, ⟨hsucceeds, hdecode⟩, hb⟩ := hsucceeded v hv
    obtain ⟨bytes, hgiven, hvalid⟩ := hb.tagged
    refine ⟨out, hsucceeds, hdecode, htag bytes out.tag hgiven hvalid, hb.message, ?_, hb.reflects⟩
    rw [CallTrace.written, Driven.writes rfl hd]
    exact hb.written
  · intro v hv
    obtain ⟨out, -, hb⟩ := hsucceeded v hv
    exact hb.dry

/-- A command call that succeeds has written its command, all of it or up to a literal that
the server did not wait for, with the one tag it took; and its value is read from the
output of the messages that the octets of the call complete, a tagged OK with that tag
among them and no BYE, however the stream cut the octets. -/
theorem command_call_faithful {client client' : ImapClientStd F St G}
    {decode : ImapSendOutput Command → V} {body : CommandBody} {n : Nat} {v : V}
    (h : client.run (.command decode) (.command body) n = (some (.ok v), client')) :
    ∃ tag ops out, Issues client.tags tag client'.tags ∧
      Run StreamOp.Performs client.stream ops client'.stream ∧
      ops.filterMap StreamOp.written? ≠ [] ∧
      ops.filterMap StreamOp.written? <+: pieces (Encoder.encode (⟨tag, body⟩ : Command)) ∧
      out.tag = tag ∧ Succeeds out ∧ v = decode out ∧
      ImapSend.Reflects (messages (enqueueBytes client.fragmentizer
        (ops.filterMap StreamOp.received?).flatten)) out ∧
      client'.fragmentizer = drained (enqueueBytes client.fragmentizer
        (ops.filterMap StreamOp.received?).flatten) := by
  have hcall : Calls client ⟨V, decode, body, n, .ok v⟩ client' := h
  obtain ⟨trace, htrace⟩ := hcall.traced
  obtain ⟨items, haccounts, hitems⟩ := htrace.accounts
  obtain ⟨hmessages, hdrained⟩ := messages_of_accounts haccounts
  have hdry := htrace.drained v rfl
  obtain ⟨out, hsucceeds, hdecode, htags, -, hne, hreflects⟩ := htrace.backed.succeeded v rfl
  -- a success has drained the fragmentizer, so no message is left for the next call
  have hnone : messages client'.fragmentizer = [] := by
    rw [← hdry]
    exact LawfulFragmentizer.messages_drained _
  rw [hnone, List.append_nil, ← hitems] at hmessages
  have hissued := htrace.issued
  rw [htags] at hissued
  obtain ⟨tags, hissues, hlast⟩ := hissued.cons_inv
  obtain rfl := hlast.nil_inv
  refine ⟨out.tag, trace.ops, out, hissues, htrace.performed, hne, ?_, rfl, hsucceeds, hdecode, ?_,
    hdry.symm.trans hdrained.symm⟩
  · rcases htrace.backed.written with hnil | ⟨tag, htag, hpieces⟩
    · exact absurd hnil hne
    · obtain rfl : out.tag = tag := List.singleton_inj.mp (htags.symm.trans htag)
      exact hpieces
  · exact hmessages ▸ hreflects

end Commands

/-! ### Calls on one connection -/

/-- imap-types' promise: a generator issues no tag twice. -/
class LawfulTagGenerator (G : Type) [TagGenerator G] : Prop where
  nodup : ∀ (g : G) (tags : List Tag) (g' : G), Run Issues g tags g' → tags.Nodup

section Sessions

variable {F St G : Type} [Fragmentizer F] [TryFrom Bytes Tag] [Encoder Command] [ImapStream St]
  [TagGenerator G] [LawfulEncoder Command] [LawfulFragmentizer F] [LawfulTag]

/-- A call and what it did itself. -/
def CallsTraced (client : ImapClientStd F St G) (x : CommandCall × CallTrace)
    (client' : ImapClientStd F St G) : Prop :=
  Calls client x.1 client' ∧ Traced client x.1 x.2 client'

/-- Consecutive calls, and their traces. -/
structure TracedAll (client : ImapClientStd F St G) (calls : List CommandCall)
    (traces : List CallTrace) (client' : ImapClientStd F St G) : Prop where
  each : Run CallsTraced client (calls.zip traces) client'
  backed : List.Forall₂ Backed calls traces
  issued : Run Issues client.tags (traces.flatMap CallTrace.tags) client'.tags
  performed : Run StreamOp.Performs client.stream (traces.flatMap CallTrace.ops) client'.stream
  accounts : ∃ items, Accounts client.fragmentizer (traces.flatMap CallTrace.received) items
    client'.fragmentizer ∧ traces.flatMap CallTrace.taken = items.filterMap id

theorem calls_traced {client client' : ImapClientStd F St G} {calls : List CommandCall}
    (h : Run Calls client calls client') : ∃ traces, TracedAll client calls traces client' := by
  refine Run.history (P := fun calls client' => ∃ traces, TracedAll client calls traces client')
    ⟨[], .nil, .nil, .nil, .nil, [], .refl _, rfl⟩ ?_ h
  intro calls between call client' hx hcall
  obtain ⟨traces, heach, hbacked, hissued, hperformed, items, haccounts, hitems⟩ := hx
  obtain ⟨trace, ht⟩ := hcall.traced
  obtain ⟨items', haccounts', hitems'⟩ := ht.accounts
  refine ⟨traces ++ [trace], ?_, List.rel_append hbacked (.cons ht.backed .nil), ?_, ?_,
    items ++ items', ?_, ?_⟩
  · rw [List.zip_append hbacked.length_eq]
    exact .snoc heach ⟨hcall, ht⟩
  · rw [List.flatMap_append, List.flatMap_singleton]
    exact hissued.append ht.issued
  · rw [List.flatMap_append, List.flatMap_singleton]
    exact hperformed.append ht.performed
  · rw [List.flatMap_append, List.flatMap_singleton]
    exact haccounts.trans haccounts'
  · rw [List.flatMap_append, List.flatMap_singleton, List.filterMap_append, hitems, hitems']

/-- Over any sequence of command calls on one client, each traced on the client that the one
before it left, every message of the connection is taken by one call, in its order, or left
for the next ones, whatever the reads cut and whichever calls fail; no two calls share a tag;
and a call succeeds only on a tagged OK with its own tag among the messages that it took
itself. -/
theorem commands_share_connection [LawfulTagGenerator G] {client client' : ImapClientStd F St G}
    {calls : List CommandCall} (h : Run Calls client calls client') :
    ∃ traces, Run CallsTraced client (calls.zip traces) client' ∧
      List.Forall₂ Backed calls traces ∧ (traces.flatMap CallTrace.tags).Nodup ∧
      Run StreamOp.Performs client.stream (traces.flatMap CallTrace.ops) client'.stream ∧
      messages (enqueueBytes client.fragmentizer (traces.flatMap CallTrace.received)) =
        traces.flatMap CallTrace.taken ++ messages client'.fragmentizer := by
  obtain ⟨traces, ht⟩ := calls_traced h
  obtain ⟨items, haccounts, hitems⟩ := ht.accounts
  refine ⟨traces, ht.each, ht.backed, LawfulTagGenerator.nodup _ _ _ ht.issued, ht.performed, ?_⟩
  rw [(messages_of_accounts haccounts).1, hitems]

end Sessions

section Concrete

open Concrete

namespace Concrete

scoped instance : LawfulTagGenerator CountedTags where
  nodup g tags g' h := by
    rw [(CountedTags.issues_counted h).2]
    exact List.Nodup.map CountedTags.tagOf_injective List.nodup_range'

end Concrete

def callReplies : List (Bytes × Response) :=
  [(ascii "* CAPABILITY SASL-IR\r\n", .data (.capability [.saslIr])),
    (ascii "A0 OK done\r\n", .status (.tagged ⟨⟨ascii "A0"⟩, ⟨.ok, none, "done"⟩⟩)),
    (ascii "A1 NO denied\r\n", .status (.tagged ⟨⟨ascii "A1"⟩, ⟨.no, none, "denied"⟩⟩))]

/-- A client whose server answers a first command in reads that cut its lines, the second
of them with the beginning of the next answer. -/
def scriptedClient :
    ImapClientStd (LineFragmentizer (decodeTable callReplies)) ScriptedStream CountedTags where
  stream := ⟨[ascii "* CAPABILITY SA", ascii "SL-IR\r\nA0 OK done\r\nA1 N", ascii "O denied\r\n"], []⟩
  tags := ⟨0⟩
  fragmentizer := .empty

def readsData (out : ImapSendOutput Command) : List Data := out.data

theorem command_call_faithful_capability : ∃ client' tag ops, ∃ out : ImapSendOutput Command,
    scriptedClient.run (.command readsData) (.command .capability) 6 =
      (some (.ok [.capability [.saslIr]]), client') ∧
    Issues scriptedClient.tags tag client'.tags ∧
    Run StreamOp.Performs scriptedClient.stream ops client'.stream ∧
    ImapSend.Reflects (messages (enqueueBytes scriptedClient.fragmentizer
      (ops.filterMap StreamOp.received?).flatten)) out ∧
    out.tag = tag ∧ out.data = [.capability [.saslIr]] := by
  have hrun : (scriptedClient.run (.command readsData) (.command .capability) 6).1 =
      some (.ok [.capability [.saslIr]]) := by decide +kernel
  obtain ⟨tag, ops, out, hissues, hperformed, -, -, htag, -, hdata, hreflects, -⟩ :=
    command_call_faithful (Prod.ext hrun rfl)
  exact ⟨_, tag, ops, out, Prod.ext hrun rfl, hissues, hperformed, hreflects, htag, hdata.symm⟩

def capabilityCall : CommandCall :=
  ⟨List Data, readsData, .capability, 6, .ok [.capability [.saslIr]]⟩

def deniedCall : CommandCall :=
  ⟨Unit, fun _ => (), .delete .inbox, 6, .error (.coroutine (.no "denied"))⟩

/-- The last octets that the first call reads belong to the answer of the second. -/
theorem commands_share_connection_cut : ∃ client' traces,
    Run Calls scriptedClient [capabilityCall, deniedCall] client' ∧
    Run CallsTraced scriptedClient ([capabilityCall, deniedCall].zip traces) client' ∧
    List.Forall₂ Backed [capabilityCall, deniedCall] traces ∧
    (traces.flatMap CallTrace.tags).Nodup ∧
    messages (enqueueBytes scriptedClient.fragmentizer (traces.flatMap CallTrace.received)) =
      traces.flatMap CallTrace.taken ++ messages client'.fragmentizer := by
  have hfirst : scriptedClient.run (.command readsData) (.command .capability) 6 =
      (some (.ok [.capability [.saslIr]]), _) := Prod.ext (by decide +kernel) rfl
  have hsecond : (scriptedClient.run (.command readsData) (.command .capability) 6).2.run
      (.command fun _ => ()) (.command (.delete .inbox)) 6 =
        (some (.error (.coroutine (.no "denied"))), _) := Prod.ext (by decide +kernel) rfl
  have hcalls : Run Calls scriptedClient [capabilityCall, deniedCall] _ :=
    .snoc (.single (e := capabilityCall) hfirst) hsecond
  obtain ⟨traces, htraced, hbacked, hnodup, -, hmessages⟩ := commands_share_connection hcalls
  exact ⟨_, traces, hcalls, htraced, hbacked, hnodup, hmessages⟩

end Concrete
end IoImap
