import Checklist.Text.Digit

/-!
# UTF-8 — texts as bytes

Files hold bytes, and a text is stored in UTF-8. `decode` reads a file strictly: at the first
bytes that are no character it stops, and tells which bytes they are and what is wrong with them.
-/

namespace Checklist

/-- The contents of a file. -/
abbrev Bytes := List UInt8

namespace Utf8

/-- What can be wrong with bytes that are no character. -/
inductive Fault where
  /-- No character begins with this byte. -/
  | invalidStart
  /-- A byte that should continue the character does not. -/
  | invalidContinuation
  /-- The bytes end inside a character. -/
  | unexpectedEnd
  deriving DecidableEq

/-- The wording of a fault. -/
def Fault.message : Fault → Text
  | .invalidStart => "invalid start byte".toList
  | .invalidContinuation => "invalid continuation byte".toList
  | .unexpectedEnd => "unexpected end of data".toList

/-- The first bytes of a file that are no character. -/
structure DecodeError where
  /-- How many bytes come before them. -/
  position : Nat
  /-- The first of them. -/
  byte : UInt8
  /-- How many there are. -/
  size : Nat
  fault : Fault
  deriving DecidableEq

/-- The wording of the error, which names a single byte by its value. -/
def DecodeError.message (e : DecodeError) : Text :=
  let place :=
    if e.size = 1 then
      "byte 0x".toList ++ Text.fixedDigits 16 2 e.byte.toNat ++ " in position ".toList ++
        Text.decimal e.position
    else
      "bytes in position ".toList ++ Text.decimal e.position ++ ['-'] ++
        Text.decimal (e.position + e.size - 1)
  "'utf-8' codec can't decode ".toList ++ place ++ ": ".toList ++ e.fault.message

/-- The bytes of one character. -/
def encodeChar (c : Char) : Bytes :=
  let n := c.toNat
  let tail (k : Nat) : UInt8 := UInt8.ofNat (0x80 + k % 0x40)
  if n < 0x80 then [UInt8.ofNat n]
  else if n < 0x800 then [UInt8.ofNat (0xC0 + n / 0x40), tail n]
  else if n < 0x10000 then [UInt8.ofNat (0xE0 + n / 0x1000), tail (n / 0x40), tail n]
  else [UInt8.ofNat (0xF0 + n / 0x40000), tail (n / 0x1000), tail (n / 0x40), tail n]

/-- The bytes of a text. -/
def encode (s : Text) : Bytes := s.flatMap encodeChar

/-- Whether the byte continues a character. -/
def isTail (b : UInt8) : Bool := 0x80 ≤ b && b < 0xC0

/-- Whether `b` may follow the first byte `a` of a character of three or four bytes: no character
is written longer than needed, none is a surrogate, none lies above the last code point. -/
def isSecond (a b : UInt8) : Bool :=
  isTail b && !(a = 0xE0 && b < 0xA0) && !(a = 0xED && 0xA0 ≤ b) && !(a = 0xF0 && b < 0x90) &&
    !(a = 0xF4 && 0x90 ≤ b)

/-- The six payload bits of a continuing byte. -/
def payload (b : UInt8) : Nat := b.toNat % 0x40

/-- The text of the bytes, of which `position` came before. -/
def decodeFrom (position : Nat) : Bytes → Except DecodeError Text
  | [] => .ok []
  | a :: s =>
    if a < 0x80 then (decodeFrom (position + 1) s).map (Char.ofNat a.toNat :: ·)
    -- a continuing byte, a form that is too long, or more than four bytes could say
    else if a < 0xC2 || 0xF5 ≤ a then .error ⟨position, a, 1, .invalidStart⟩
    else if a < 0xE0 then
      match s with
      | [] => .error ⟨position, a, 1, .unexpectedEnd⟩
      | b :: s =>
        if isTail b then
          (decodeFrom (position + 2) s).map
            (Char.ofNat (a.toNat % 0x20 * 0x40 + payload b) :: ·)
        else .error ⟨position, a, 1, .invalidContinuation⟩
    else
      match s with
      | [] => .error ⟨position, a, 1, .unexpectedEnd⟩
      | b :: s =>
        if !isSecond a b then .error ⟨position, a, 1, .invalidContinuation⟩
        else match s with
          | [] => .error ⟨position, a, 2, .unexpectedEnd⟩
          | c :: s =>
            if !isTail c then .error ⟨position, a, 2, .invalidContinuation⟩
            else if a < 0xF0 then
              (decodeFrom (position + 3) s).map
                (Char.ofNat (a.toNat % 0x10 * 0x1000 + payload b * 0x40 + payload c) :: ·)
            else match s with
              | [] => .error ⟨position, a, 3, .unexpectedEnd⟩
              | d :: s =>
                if !isTail d then .error ⟨position, a, 3, .invalidContinuation⟩
                else
                  (decodeFrom (position + 4) s).map
                    (Char.ofNat (a.toNat % 0x8 * 0x40000 + payload b * 0x1000 +
                      payload c * 0x40 + payload d) :: ·)

/-- The text that the bytes write, or the first bytes that write none. -/
def decode (bytes : Bytes) : Except DecodeError Text := decodeFrom 0 bytes

end Utf8

end Checklist
