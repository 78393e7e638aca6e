import MailMerge.Text.Basic
/-!
# UTF-8

Texts as bytes. A sequence of bytes is no text where a byte begins no character, where a byte that
must go on a character does not, and where the bytes end inside a character; the first such place
is named.
-/
namespace MailMerge

/-- Why bytes are no text. -/
inductive Utf8Flaw where
  | start
  | continuation
  | ending
  deriving DecidableEq, Repr

/-- The place at which bytes are no text: the flawed bytes with the number of those before them. -/
structure Utf8Error where
  flaw : Utf8Flaw
  place : Nat
  bytes : List UInt8
  deriving DecidableEq, Repr

namespace Utf8

/-- The bytes of a text. -/
def encode (t : Text) : List UInt8 := t.flatMap String.utf8EncodeChar

/-- The number of bytes after the first one of a character, the bits of the character in the first
byte, and the range of the second byte. -/
def lead? (b : UInt8) : Option (Nat × Nat × Nat × Nat) :=
  let n := b.toNat
  if n < 0x80 then some (0, n, 0, 0)
  else if n < 0xC2 then none
  else if n < 0xE0 then some (1, n - 0xC0, 0x80, 0xBF)
  else if n < 0xF0 then
    some (2, n - 0xE0, if n = 0xE0 then 0xA0 else 0x80, if n = 0xED then 0x9F else 0xBF)
  else if n < 0xF5 then
    some (3, n - 0xF0, if n = 0xF0 then 0x90 else 0x80, if n = 0xF4 then 0x8F else 0xBF)
  else none

/-- What came of reading the bytes after the first one of a character. -/
inductive Rest where
  | done (code : Nat)
  | bad (read : List UInt8)
  | ended (read : List UInt8)
  deriving DecidableEq, Repr

/-- Reads `more` bytes that go on a character whose bits so far are `code`. The next byte lies
between `low` and `high`, those after it between 80 and BF. -/
def goOn : (more code low high : Nat) → (read rest : List UInt8) → Rest
  | 0, code, _, _, _, _ => .done code
  | _ + 1, _, _, _, read, [] => .ended read
  | more + 1, code, low, high, read, b :: r =>
    if low ≤ b.toNat && b.toNat ≤ high then
      goOn more (code * 64 + (b.toNat - 0x80)) 0x80 0xBF (read ++ [b]) r
    else .bad read

/-- The text of bytes that stand after `place` others, the first `skip` being read already. -/
def decodeFrom : (skip place : Nat) → List UInt8 → Except Utf8Error Text
  | _, _, [] => .ok []
  | skip + 1, place, _ :: r => decodeFrom skip (place + 1) r
  | 0, place, b :: r =>
    match lead? b with
    | none => .error ⟨.start, place, [b]⟩
    | some (more, bits, low, high) =>
      match goOn more bits low high [b] r with
      | .done code => (decodeFrom more (place + 1) r).map (Char.ofNat code :: ·)
      | .bad read => .error ⟨.continuation, place, read⟩
      | .ended read => .error ⟨.ending, place, read⟩

/-- The text that bytes write. -/
def decode (bs : List UInt8) : Except Utf8Error Text := decodeFrom 0 0 bs

end Utf8

namespace Utf8Error

/-- What is wrong with the bytes. -/
def reason (e : Utf8Error) : Text :=
  match e.flaw with
  | .start => "invalid start byte".toList
  | .continuation => "invalid continuation byte".toList
  | .ending => "unexpected end of data".toList

/-- What is said about the error. -/
def message (e : Utf8Error) : Text :=
  let spot := match e.bytes with
    | [b] =>
      "byte 0x".toList ++ Text.padLeft 2 '0' (Nat.toDigits 16 b.toNat) ++ " in position ".toList ++
        Text.ofNat e.place
    | bs =>
      "bytes in position ".toList ++ Text.ofNat e.place ++ '-' ::
        Text.ofNat (e.place + bs.length - 1)
  "'utf-8' codec can't decode ".toList ++ spot ++ ": ".toList ++ e.reason

end Utf8Error
end MailMerge
