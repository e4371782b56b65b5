import IoImap.Codec.Types

/-!
# Encoding and parsing at the edges

The encoders and the `try_from` conversions of imap-codec and imap-types are
parameters, like the fragmentizer. An encoder alternates lines and literals:
each literal is announced by the line before it and a line ends the message.
-/

namespace IoImap

class Encoder (M : Type) where
  encode : M → List Fragment

class TryFrom (α β : Type) where
  tryFrom : α → Except ValidationError β

/-- Lines and literals in turn, every literal announced and followed by a line. -/
inductive Framed : List Fragment → Prop where
  | line {data : Bytes} : data ≠ [] → Framed [.line data]
  | literal {data octets : Bytes} {mode : LiteralMode} {rest : List Fragment} :
      data ≠ [] → Framed rest → Framed (.line data :: .literal octets mode :: rest)

/-- What imap-codec promises of the fragments of a message. -/
class LawfulEncoder (M : Type) [Encoder M] : Prop where
  framed : ∀ message : M, Framed (Encoder.encode message)

/-- The encoding of a message that has no literal. -/
def SingleLine (fragments : List Fragment) : Prop := ∃ data, fragments = [.line data]

/-- AUTHENTICATE carries its initial response in base64, and so do the answers to
challenges: neither has a literal. -/
class LawfulAuthenticate [Encoder Command] [Encoder AuthenticateData] : Prop where
  command : ∀ (tag : Tag) (mechanism : AuthMechanism) (initialResponse : Option Bytes),
    SingleLine (Encoder.encode (⟨tag, .authenticate mechanism initialResponse⟩ : Command))
  data : ∀ data : AuthenticateData, SingleLine (Encoder.encode data)

/-- STARTTLS is one line. -/
class LawfulStartTls [Encoder Command] : Prop where
  line : ∀ tag : Tag, SingleLine (Encoder.encode (⟨tag, .startTls⟩ : Command))

/-- LOGOUT is one line. -/
class LawfulLogout [Encoder Command] : Prop where
  line : ∀ tag : Tag, SingleLine (Encoder.encode (⟨tag, .logout⟩ : Command))

/-- IDLE and DONE are one line each. -/
class LawfulIdle [Encoder Command] [Encoder IdleDone] : Prop where
  line : ∀ tag : Tag, SingleLine (Encoder.encode (⟨tag, .idle⟩ : Command))
  done : SingleLine (Encoder.encode IdleDone.idleDone)

/-- `Tag::try_from` keeps the octets it accepts. -/
class LawfulTag [TryFrom Bytes Tag] : Prop where
  inner : ∀ (bytes : Bytes) (tag : Tag), TryFrom.tryFrom bytes = Except.ok tag → tag = ⟨bytes⟩

structure EncodedMessage where
  fragments : List Fragment
  framed : Framed fragments

instance : Encoder EncodedMessage := ⟨EncodedMessage.fragments⟩

instance : LawfulEncoder EncodedMessage := ⟨EncodedMessage.framed⟩

def Fragment.data : Fragment → Bytes
  | .line data => data
  | .literal data _ => data

def Fragment.IsSync : Fragment → Bool
  | .literal _ .sync => true
  | _ => false

/-- The octets of a message, those of its literals included. -/
def Encoder.octets {M : Type} [Encoder M] (message : M) : Bytes :=
  (Encoder.encode message).flatMap Fragment.data

theorem SingleLine.plain {fragments : List Fragment} (h : SingleLine fragments) :
    ∀ x ∈ fragments, x.IsSync = false := by
  obtain ⟨data, rfl⟩ := h
  simp [Fragment.IsSync]

end IoImap
