import IoImap.Codec.Encoder
import IoImap.Text.Utf16

/-!
# Mailbox names on the wire (rfc3501/mailbox.rs)

The modified UTF-7 encoding of mailbox names and its reading. The base64 codec is a
parameter, and so is imap-types' reading of a string as a mailbox.
-/

namespace IoImap

/-- `base64_codec::Base64Codec`, as far as it encodes. -/
class Base64Codec where
  encodeVec (pad : Bool) (bytes : Bytes) : Bytes

def utf16Bytes (c : Char) : Bytes :=
  let unit (n : Nat) : Bytes := [(n / 256).toUInt8, n.toUInt8]
  if c.toNat < 0x10000 then unit c.toNat
  else
    let n := c.toNat - 0x10000
    unit (0xD800 + n / 0x400) ++ unit (0xDC00 + n % 0x400)

section Encode

variable [Base64Codec]

def flushShifted (shifted : Bytes) : List Char :=
  if shifted = [] then []
  else
    let b64 := Base64Codec.encodeVec false shifted
    '&' :: b64.map (fun byte => if byte = 47 then ',' else Char.ofNat byte.toNat) ++ ['-']

/-- The loop of `encode`, from what is shifted. -/
def encodeFrom (shifted : Bytes) : List Char → List Char
  | [] => flushShifted shifted
  | c :: cs =>
    if 0x20 ≤ c.toNat ∧ c.toNat ≤ 0x7E then
      flushShifted shifted ++ (if c = '&' then ['&', '-'] else [c]) ++ encodeFrom [] cs
    else encodeFrom (shifted ++ utf16Bytes c) cs

def encode (input : String) : String := String.ofList (encodeFrom [] input.toList)

def encodeInplace [TryFrom String Mailbox] : Mailbox → Mailbox
  | .inbox => .inbox
  | .other bytes =>
    match String.fromUTF8? ⟨bytes.toArray⟩ with
    | none => .other bytes
    | some name =>
      let encoded := encode name
      if encoded.toUTF8.toList = bytes then .other bytes
      else
        match TryFrom.tryFrom encoded with
        | .ok new => new
        | .error _ => .other bytes

end Encode

/-- `base64_codec::Base64Codec`, as far as it decodes. It is lenient: it makes octets
of anything. -/
class Base64Decoder where
  decodeVec (pad : Bool) (bytes : Bytes) : Bytes

/-- `u16::from_be_bytes` of the pairs of octets. -/
def codeUnits : Bytes → List Nat
  | hi :: lo :: rest => (hi.toNat * 256 + lo.toNat) :: codeUnits rest
  | _ => []

section Decode

variable [Base64Codec] [Base64Decoder]

/-- The octets of a shift, in the standard alphabet. -/
def standardPayload (payload : List Char) : Bytes :=
  (payload.flatMap String.utf8EncodeChar).map fun byte => if byte = 44 then 47 else byte

/-- What stands for a shift, which a hyphen or the end of the name closes. A malformed
one stands for itself. -/
def decodeShift (payload : List Char) (closed : Bool) : List Char :=
  if payload = [] then ['&']
  else
    let standard := standardPayload payload
    let pad := standard.getLast? = some 61
    let decoded := Base64Decoder.decodeVec pad standard
    if Base64Codec.encodeVec pad decoded = standard ∧ decoded.length % 2 = 0 then
      Utf16.decodeLossy (codeUnits decoded)
    else '&' :: payload ++ if closed then ['-'] else []

/-- The loop of `decode`, from the payload of an open shift. -/
def decodeFrom : Option (List Char) → List Char → List Char
  | none, [] => []
  | none, c :: cs => if c = '&' then decodeFrom (some []) cs else c :: decodeFrom none cs
  | some payload, [] => decodeShift payload false
  | some payload, c :: cs =>
    if c = '-' then decodeShift payload true ++ decodeFrom none cs
    else decodeFrom (some (payload ++ [c])) cs

def decode (input : String) : String := String.ofList (decodeFrom none input.toList)

def decodeInplace [TryFrom String Mailbox] : Mailbox → Mailbox
  | .inbox => .inbox
  | .other bytes =>
    match String.fromUTF8? ⟨bytes.toArray⟩ with
    | none => .other bytes
    | some wire =>
      let decoded := decode wire
      if decoded.toUTF8.toList = bytes then .other bytes
      else
        match TryFrom.tryFrom decoded with
        | .ok new => new
        | .error _ => .other bytes

end Decode

/-! ### Concrete parameters -/

def base64Digit (n : Nat) : Byte :=
  (ascii "ABCDEFGHIJKLMNOPQRSTUVWXYZabcdefghijklmnopqrstuvwxyz0123456789+/").getD (n % 64) 0

def base64 (pad : Bool) : Bytes → Bytes
  | a :: b :: c :: rest =>
    let n := a.toNat * 65536 + b.toNat * 256 + c.toNat
    [base64Digit (n / 262144), base64Digit (n / 4096), base64Digit (n / 64), base64Digit n] ++
      base64 pad rest
  | [a, b] =>
    let n := a.toNat * 256 + b.toNat
    [base64Digit (n / 1024), base64Digit (n / 16), base64Digit (n * 4)] ++
      if pad then ascii "=" else []
  | [a] =>
    [base64Digit (a.toNat / 4), base64Digit (a.toNat * 16)] ++ if pad then ascii "==" else []
  | [] => []

def base64Value (digit : Byte) : Nat :=
  (ascii "ABCDEFGHIJKLMNOPQRSTUVWXYZabcdefghijklmnopqrstuvwxyz0123456789+/").idxOf digit

/-- The octets of unpadded digits; bits that fill no octet are dropped. -/
def unbase64 : Bytes → Bytes
  | a :: b :: c :: d :: rest =>
    let n := base64Value a * 262144 + base64Value b * 4096 + base64Value c * 64 + base64Value d
    [(n / 65536).toUInt8, (n / 256).toUInt8, n.toUInt8] ++ unbase64 rest
  | [a, b, c] =>
    let n := base64Value a * 4096 + base64Value b * 64 + base64Value c
    [(n / 1024).toUInt8, (n / 4).toUInt8]
  | [a, b] => [((base64Value a * 64 + base64Value b) / 16).toUInt8]
  | _ => []

namespace Concrete

scoped instance : Base64Codec := ⟨base64⟩

scoped instance : Base64Decoder := ⟨fun _ bytes => unbase64 (bytes.filter (· ≠ 61))⟩

scoped instance : TryFrom String Mailbox :=
  ⟨fun name =>
    if name.toLower = "inbox" then .ok .inbox
    else if '\x00' ∈ name.toList then .error ⟨.invalid⟩
    else .ok (.other name.toUTF8.toList)⟩

example : encodeFrom [] "От&".toList = "&BB4EQg-&-".toList := by decide

end Concrete
end IoImap
