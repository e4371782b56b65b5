import IoImap.Command.Runs
import IoImap.Rfc3501.AppendStreaming

/-!
# The two variants of APPEND

The buffered APPEND is written by the exchange, in pieces; the streamed one is a
header, the octets of the source and the closing octets. On the wire both are the
encoding of one command.
-/

namespace IoImap
open Fragmentizer ServerMessage Transition

/-- One resume of a buffered APPEND. -/
abbrev BufferedTurn (F : Type) :=
  Turn ImapMessageAppend F Unit ImapYield (Except ImapMessageAppendError ImapMessageAppendOutput)

namespace ImapMessageAppend

def imapMessageAppend [TryFrom Bytes Tag] [Encoder Command] :
    Coroutine ImapMessageAppend Unit ImapYield
      (Except ImapMessageAppendError ImapMessageAppendOutput) :=
  commandCoroutine decode

instance {F : Type} (t : BufferedTurn F) : Decidable (∃ out, t.out = .complete (.ok out)) :=
  match t.out with
  | .complete (.ok out) => isTrue ⟨out, rfl⟩
  | .complete (.error _) => isFalse (by simp)
  | .yielded _ => isFalse (by simp)

section Buffered

variable [Encoder Command] [LawfulEncoder Command] [LawfulAppend] [Base64Codec]
  [TryFrom String Mailbox] [TryFrom Bytes Tag] {F : Type} [Fragmentizer F]
  {mailbox : Mailbox} {message : Bytes} {opts : ImapMessageAppendOptions}

omit [LawfulEncoder Command] [TryFrom Bytes Tag] in
theorem encode_body (tag : Tag) :
    (Encoder.encode (⟨tag, body mailbox message opts⟩ : Command)).flatMap Fragment.data =
      ImapMessageAppendStream.header mailbox message.length opts tag ++ message ++
        ImapMessageAppendStream.closing mailbox opts tag := by
  have hencode : Encoder.encode (⟨tag, body mailbox message opts⟩ : Command) =
      (ImapMessageAppendStream.parts mailbox opts tag).fragments
        ⟨message, ImapMessageAppendStream.mode opts⟩ := LawfulAppend.encode ..
  rw [hencode, AppendParts.octets]
  rfl

omit [LawfulEncoder Command] [LawfulAppend] [Base64Codec] [TryFrom String Mailbox] [Fragmentizer F] in
/-- What an exchange of a command under the tag has to write. -/
theorem says_command {command : CommandBody} {us : List (SendTurn Command F)} {fragments : List Fragment}
    {tag : Tag} (h : Says us (.command command) fragments)
    (htag : ∀ bytes ∈ us.filterMap Turn.tag?, TryFrom.tryFrom bytes = Except.ok tag)
    (hgiven : us.filterMap Turn.tag? ≠ []) : fragments = Encoder.encode (⟨tag, command⟩ : Command) := by
  cases h with
  | untagged _ hno =>
    obtain ⟨bytes, hbytes⟩ := List.exists_mem_of_ne_nil _ hgiven
    exact absurd (htag bytes hbytes) (hno bytes hbytes tag)
  | tagged _ hmem hok =>
    obtain rfl := Except.ok.inj (hok.symm.trans (htag _ hmem))
    rfl

/-- What a buffered APPEND has written once it succeeds: everything, unless its completion
came while the message was held back. -/
theorem written_iff {f : F} {es : List (BufferedTurn F)} {b : Config ImapMessageAppend F}
    (hrun : imapMessageAppend.Runs (new mailbox message opts) f es b) {tag : Tag}
    (htag : ∀ bytes ∈ es.filterMap Turn.tag?, TryFrom.tryFrom bytes = Except.ok tag)
    (hgiven : es.filterMap Turn.tag? ≠ []) (hok : ∃ t ∈ es, ∃ out, t.out = .complete (.ok out)) :
    (payloads es).flatten =
        ImapMessageAppendStream.header mailbox message.length opts tag ++ message ++
          ImapMessageAppendStream.closing mailbox opts tag ↔
      ∀ t ∈ es, ¬ t.EndsHeld := by
  obtain ⟨us, c, hus, hcarries⟩ := command_run hrun
  have htags := carries_tags hcarries
  rw [htags] at htag hgiven
  obtain ⟨t, ht, out, hout⟩ := hok
  obtain ⟨u, hu, htu⟩ := carries_mem hcarries ht
  obtain ⟨result, hresult, hsucceeds⟩ := CoroutineState.tryOk_ok (htu.out.symm.trans hout)
  have hbye : result.bye = none := (commandOutcome_ok.mp hsucceeds).1.1
  have hends := endsHeld_iff (.command _) hus hu hresult hbye
  rw [carries_payloads hcarries, ← encode_body, ← carries_endsHeld hcarries]
  constructor
  · intro hall x hx hheld
    obtain ⟨fragments, hsays, hne⟩ := unwritten_of_held (.command _) hus hu hresult (hends.mp ⟨x, hx, hheld⟩)
    exact hne (says_command hsays htag hgiven ▸ hall)
  · intro hno
    obtain ⟨fragments, hsays, hconserved, -⟩ := run_accounted (.command _) hus
    rw [← says_command hsays htag hgiven]
    refine hconserved.complete u hu result hresult fun hcut => ?_
    obtain ⟨x, hx, hheld⟩ := hends.mpr hcut.1
    exact hno x hx hheld

end Buffered
end ImapMessageAppend

open ImapMessageAppend in
/-- The header and the closing octets of a streamed APPEND, with the message between
them, are what a buffered APPEND of the same message under the same tag has written
once it succeeds, exactly when no read completes it while the message is held back. -/
theorem append_variants_agree [Encoder Command] [LawfulEncoder Command] [LawfulAppend] [Base64Codec]
    [TryFrom String Mailbox] [TryFrom Bytes Tag] {F G : Type} [Fragmentizer F] [Fragmentizer G]
    {mailbox : Mailbox} {message : Bytes} {opts : ImapMessageAppendOptions} {f : F} {g : G}
    {es : List (BufferedTurn F)} {b : Config ImapMessageAppend F}
    {us : List (AppendTurn G)} {c : Config ImapMessageAppendStream G} {bytes header closing : Bytes}
    (hlen : message.length < 2 ^ 32)
    (hbuffered : imapMessageAppend.Runs (new mailbox message opts) f es b)
    (hstreamed : imapMessageAppendStream.Runs
      (.new mailbox message.length.toUInt32.toNat opts) g us c)
    (htag : es.filterMap Turn.tag? = [bytes]) (htag' : us.filterMap Turn.tag? = [bytes])
    (hok : ∃ t ∈ es, ∃ out, t.out = .complete (.ok out))
    (hwritten : ImapMessageAppendStream.written us = [header, closing]) :
    (payloads es).flatten = header ++ message ++ closing ↔ ∀ t ∈ es, ¬ t.EndsHeld := by
  have hcast : message.length.toUInt32.toNat = message.length := by
    rw [UInt32.toNat_ofNat']
    exact Nat.mod_eq_of_lt hlen
  rw [hcast] at hstreamed
  obtain ⟨phase, hphases, -⟩ := ImapMessageAppendStream.phases_run hstreamed
  obtain ⟨hphase, hgiven⟩ := ImapMessageAppendStream.phases_written hphases
  rw [hwritten] at hphase
  cases phase with
  | recv tag past =>
    obtain ⟨rfl, hrest⟩ := List.cons.inj hphase
    obtain ⟨rfl, -⟩ := List.cons.inj hrest
    obtain ⟨bytes', hmem, hparsed⟩ := hgiven tag rfl
    rw [htag', List.mem_singleton] at hmem
    subst hmem
    exact written_iff hbuffered (by simpa [htag] using hparsed) (by simp [htag]) hok
  | _ => simp [ImapMessageAppendStream.Phase.written] at hphase

section Concrete

open Concrete

/-- The message "abc" to INBOX. -/
def playBuffered (args : List (Option Bytes)) :=
  ImapMessageAppend.imapMessageAppend.play
    (Coroutine.start (.new .inbox (ascii "abc") {})
      (LineFragmentizer.empty : LineFragmentizer (decodeTable appendReplies)))
    (args.map fun arg => (arg, ()))

theorem append_variants_agree_inbox : ∃ es b us c header closing,
    playBuffered [none, some (ascii "A1"), none, some (ascii "+ go\r\n"), none,
      some (ascii "A1 OK done\r\n")] = some (es, b) ∧
    playStreamed [none, some (ascii "A1"), none, some (ascii "+ go\r\n"), none, none,
      some (ascii "A1 OK done\r\n")] = some (us, c) ∧
    ImapMessageAppendStream.written us = [header, closing] ∧
    (payloads es).flatten = header ++ ascii "abc" ++ closing := by
  have hbuffered : (playBuffered [none, some (ascii "A1"), none, some (ascii "+ go\r\n"), none,
      some (ascii "A1 OK done\r\n")]).any (fun r =>
        decide ((∃ t ∈ r.1, ∃ out, t.out = .complete (.ok out)) ∧ (∀ t ∈ r.1, ¬ t.EndsHeld) ∧
          r.1.filterMap Turn.tag? = [ascii "A1"])) = true := by
    decide +kernel
  have hstreamed : (playStreamed [none, some (ascii "A1"), none, some (ascii "+ go\r\n"), none, none,
      some (ascii "A1 OK done\r\n")]).any (fun r => decide (r.1.filterMap Turn.tag? = [ascii "A1"] ∧
        ImapMessageAppendStream.written r.1 =
          [ascii "A1 APPEND INBOX \x7b3\x7d\r\n", ascii "\r\n"])) = true := by
    decide +kernel
  obtain ⟨⟨es, b⟩, hes, hb⟩ := (Option.any_eq_true _ _).mp hbuffered
  obtain ⟨⟨us, c⟩, hus, hs⟩ := (Option.any_eq_true _ _).mp hstreamed
  obtain ⟨hok, hno, htag⟩ := of_decide_eq_true hb
  obtain ⟨htag', hwritten⟩ := of_decide_eq_true hs
  exact ⟨es, b, us, c, _, _, hes, hus, hwritten, (append_variants_agree (by decide)
    (Coroutine.play_run _ hes) (Coroutine.play_run _ hus) htag htag' hok hwritten).mpr hno⟩

/-- A tagged OK that comes in place of the continuation request is a success of the
buffered variant, which has then written the header only. -/
theorem append_variants_differ :
    ¬ ∀ (es : List (BufferedTurn (LineFragmentizer (decodeTable appendReplies))))
        (b : Config ImapMessageAppend (LineFragmentizer (decodeTable appendReplies)))
        (us : List (AppendTurn (LineFragmentizer (decodeTable appendReplies))))
        (c : Config ImapMessageAppendStream (LineFragmentizer (decodeTable appendReplies)))
        (header closing : Bytes),
        ImapMessageAppend.imapMessageAppend.Runs (.new .inbox (ascii "abc") {}) LineFragmentizer.empty
          es b →
        imapMessageAppendStream.Runs (.new .inbox (ascii "abc").length.toUInt32.toNat {})
          LineFragmentizer.empty us c →
        es.filterMap Turn.tag? = [ascii "A1"] → us.filterMap Turn.tag? = [ascii "A1"] →
        (∃ t ∈ es, ∃ out, t.out = .complete (.ok out)) →
        ImapMessageAppendStream.written us = [header, closing] →
        (payloads es).flatten = header ++ ascii "abc" ++ closing := by
  intro h
  have hbuffered : (playBuffered [none, some (ascii "A1"), none, some (ascii "A1 OK done\r\n")]).any
      (fun r => decide ((∃ t ∈ r.1, ∃ out, t.out = .complete (.ok out)) ∧
        r.1.filterMap Turn.tag? = [ascii "A1"] ∧
        payloads r.1 = [ascii "A1 APPEND INBOX \x7b3\x7d\r\n"])) = true := by
    decide +kernel
  have hstreamed : (playStreamed [none, some (ascii "A1"), none, some (ascii "+ go\r\n"), none, none,
      some (ascii "A1 OK done\r\n")]).any (fun r => decide (r.1.filterMap Turn.tag? = [ascii "A1"] ∧
        ImapMessageAppendStream.written r.1 =
          [ascii "A1 APPEND INBOX \x7b3\x7d\r\n", ascii "\r\n"])) = true := by
    decide +kernel
  obtain ⟨⟨es, b⟩, hes, hb⟩ := (Option.any_eq_true _ _).mp hbuffered
  obtain ⟨⟨us, c⟩, hus, hs⟩ := (Option.any_eq_true _ _).mp hstreamed
  obtain ⟨hok, htag, hpayloads⟩ := of_decide_eq_true hb
  obtain ⟨htag', hwritten⟩ := of_decide_eq_true hs
  have hsame := h es b us c _ _ (Coroutine.play_run _ hes) (Coroutine.play_run _ hus) htag htag' hok
    hwritten
  rw [hpayloads] at hsame
  exact absurd hsame (by decide)

end Concrete
end IoImap
