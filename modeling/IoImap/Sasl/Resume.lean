import IoImap.Exchange
import IoImap.Sasl.Auth

/-!
# One resume of a SASL coroutine
-/

namespace IoImap
open Fragmentizer

namespace ImapAuth

variable {K : Type} [SaslCoroutine K]

omit [SaslCoroutine K] in
/-- The initial response that goes with the command. -/
def inline (s : ImapAuth K) (payload : Option Bytes) : Option Bytes :=
  if s.initialRequest then payload else none

omit [SaslCoroutine K] in
/-- The initial response that is held back for the first challenge. -/
def heldBack (s : ImapAuth K) (payload : Option Bytes) : Option Bytes :=
  if s.initialRequest then none else payload

omit [SaslCoroutine K] in
/-- The tag of AUTHENTICATE has been asked for. -/
def asked (s : ImapAuth K) (payload : Option Bytes) : ImapAuth K :=
  { s with
    state := .send (.fresh (.tag ⟨.authenticate s.framing.mechanism (s.inline payload), id⟩ true) [])
      (s.heldBack payload) }

section Start

variable {F : Type} [Fragmentizer F] [TryFrom Bytes Tag] [Encoder Command] [Encoder AuthenticateData]
  {s s' : ImapAuth K}

theorem resumeStart_ok {payload : Option Bytes} (h : s.resumeSasl .none = (.ok payload, s')) (f : F) :
    s.resumeStart f none = (.yielded .wantsTag, s'.asked payload, f) := by
  have hresponse : (if s'.initialRequest = true then (payload, none) else (none, payload)) =
      (s'.inline payload, s'.heldBack payload) := by
    unfold inline heldBack
    split <;> rfl
  rw [resumeStart, h]
  simp only [hresponse]
  rfl

theorem resumeStart_error {err : ImapAuthError} (h : s.resumeSasl .none = (.error err, s')) (f : F)
    (arg : Option Bytes) : s.resumeStart f arg = (.complete (.error err), s', f) := by
  rw [resumeStart, h]
  rfl

end Start
end ImapAuth
end IoImap
