import Checklist.Text.Raw
import Checklist.Text.Utf8

/-!
# Surrogates — raw texts as bytes

A raw text is stored in UTF-8 only when it is a text: `asText` gives that text, or tells of the
first surrogates in it. The names of files are looser. They are bytes of any kind, and a byte that
is no part of a character is shown as the surrogate that `ofByte` gives. `decodeName` shows a name
and `nameBytes` takes it back; the surrogates that stand for no byte are left to `nameFault?`.
-/

namespace Checklist

/-- The first surrogates of a raw text that keep it from being written. -/
structure EncodeError where
  /-- How many characters come before them. -/
  position : Nat
  /-- The first of them. -/
  first : Fin 0x800
  /-- How many stand together. -/
  size : Nat
  deriving DecidableEq

/-- The wording of the error, which shows a single surrogate. -/
def EncodeError.message (e : EncodeError) : Text :=
  let place :=
    if e.size = 1 then
      "character '".toList ++ RawChar.escape e.first ++ "' in position ".toList ++
        Text.decimal e.position
    else
      "characters in position ".toList ++ Text.decimal e.position ++ ['-'] ++
        Text.decimal (e.position + e.size - 1)
  "'utf-8' codec can't encode ".toList ++ place ++ ": surrogates not allowed".toList

namespace RawText

/-- The error about a surrogate and all that follow it directly. -/
def faultAt (position : Nat) (first : Fin 0x800) (rest : RawText) : EncodeError :=
  ⟨position, first, (rest.takeWhile RawChar.isSurrogate).length + 1⟩

/-- The text of a raw text of which `position` characters came before. -/
def asTextFrom (position : Nat) : RawText → Except EncodeError Text
  | [] => .ok []
  | .char c :: s => (asTextFrom (position + 1) s).map (c :: ·)
  | .surrogate index :: s => .error (faultAt position index s)

/-- The text that a raw text is, or the first surrogates in it. -/
def asText (s : RawText) : Except EncodeError Text := asTextFrom 0 s

/-! ## Names of files -/

/-- Whether the surrogate stands for a byte of a name that is no part of a character. -/
def standsForByte (index : Fin 0x800) : Bool := 0x480 ≤ index.val && index.val < 0x500

/-- The surrogate that stands for a byte. -/
def ofByte (b : UInt8) : RawChar :=
  .surrogate ⟨0x400 + b.toNat, by have := b.toNat_lt; omega⟩

/-- The bytes of one character of a name. -/
def charBytes : RawChar → Bytes
  | .char c => Utf8.encodeChar c
  | .surrogate index => [UInt8.ofNat index.val]

/-- The bytes of a name. -/
def nameBytes (s : RawText) : Bytes := s.flatMap charBytes

/-- The first surrogate that stands for no byte, in a name of which `position` characters came
before. -/
def nameFaultFrom? (position : Nat) : RawText → Option EncodeError
  | [] => none
  | .char _ :: s => nameFaultFrom? (position + 1) s
  | .surrogate index :: s =>
    if standsForByte index then nameFaultFrom? (position + 1) s
    else some (faultAt position index s)

/-- The first surrogate of a name that stands for no byte. -/
def nameFault? (s : RawText) : Option EncodeError := nameFaultFrom? 0 s

/-- The character that the bytes begin with, if they begin with one. -/
def firstChar? (bytes : Bytes) : Option Char :=
  [1, 2, 3, 4].findSome? fun size =>
    match Utf8.decode (bytes.take size) with
    | .ok [c] => some c
    | _ => none

/-- The name that the bytes behind the first `skip` are shown as. -/
def decodeNameFrom : (skip : Nat) → Bytes → RawText
  | _, [] => []
  | skip + 1, _ :: s => decodeNameFrom skip s
  | 0, a :: s =>
    match firstChar? (a :: s) with
    | some c => .char c :: decodeNameFrom ((Utf8.encodeChar c).length - 1) s
    | none => ofByte a :: decodeNameFrom 0 s

/-- The name that the bytes are shown as. -/
def decodeName (bytes : Bytes) : RawText := decodeNameFrom 0 bytes

end RawText

end Checklist
