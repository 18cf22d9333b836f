import Checklist.Json.Basic

/-!
# Reading JSON — the grammar of documents

The reader takes standard JSON and, as numbers, also `NaN`, `Infinity` and `-Infinity`. A control
character inside a string must be escaped, and nothing but white space may stand around the
document. Two bounds keep reading from taking too long: a whole number has at most so many digits,
and arrays and objects are nested at most so deep. Of several faults the first counts.
-/

namespace Checklist.Json

/-- What holds other values. -/
inductive Container where
  | array
  | object
  deriving DecidableEq

/-- The word for the container. -/
def Container.name : Container → Text
  | .array => "array".toList
  | .object => "object".toList

/-- Why a text is not read as a document. -/
inductive ReadError where
  /-- The text is no JSON. -/
  | malformed
  /-- A whole number has so many digits. -/
  | tooLong (digits : Nat)
  /-- This container is inside too many others. -/
  | tooDeep (container : Container)
  deriving DecidableEq

/-- The most containers that are read one inside the other. -/
def nestingLimit : Nat := 990

/-- The wording of the error. -/
def ReadError.message : ReadError → Text
  | .malformed => "not a JSON document".toList
  | .tooLong digits =>
    "Exceeds the limit (".toList ++ Text.decimal Integer.digitLimit ++
      " digits) for integer string conversion: value has ".toList ++ Text.decimal digits ++
      " digits; use sys.set_int_max_str_digits() to increase the limit".toList
  | .tooDeep container =>
    "maximum recursion depth exceeded while decoding a JSON ".toList ++ container.name ++
      " from a unicode string".toList

/-- The text without the white space that JSON allows between tokens. -/
def skipSpace (s : Text) : Text :=
  s.dropWhile fun c => c = ' ' || c = '\t' || c = '\n' || c = '\r'

/-- The value of a hexadecimal digit. -/
def hexValue? (c : Char) : Option Nat :=
  if '0' ≤ c ∧ c ≤ '9' then some (c.toNat - 48)
  else if 'a' ≤ c ∧ c ≤ 'f' then some (c.toNat - 87)
  else if 'A' ≤ c ∧ c ≤ 'F' then some (c.toNat - 55)
  else none

/-- The unit written by four hexadecimal digits. -/
def unit? (a b c d : Char) : Option Nat := do
  let a ← hexValue? a
  let b ← hexValue? b
  let c ← hexValue? c
  let d ← hexValue? d
  some (((a * 16 + b) * 16 + c) * 16 + d)

/-- The character written by a backslash and this letter. -/
def shortEscape? (c : Char) : Option Char :=
  if c = '"' ∨ c = '\\' ∨ c = '/' then some c
  else if c = 'n' then some '\n'
  else if c = 'r' then some '\r'
  else if c = 't' then some '\t'
  else if c = 'b' then some '\x08'
  else if c = 'f' then some '\x0c'
  else none

/-- Whether the unit is the first half of a pair. -/
def isHighSurrogate (n : Nat) : Bool := 0xD800 ≤ n && n < 0xDC00

/-- Whether the unit is the second half of a pair. -/
def isLowSurrogate (n : Nat) : Bool := 0xDC00 ≤ n && n < 0xE000

/-- The character of a pair of surrogates. -/
def ofPair (high low : Nat) : Char := .ofNat (0x10000 + (high - 0xD800) * 0x400 + (low - 0xDC00))

/-- The rest of a string whose opening quote was read, and what follows its closing quote. -/
def stringBody? : Text → Option (RawText × Text)
  | [] => none
  | '"' :: s => some ([], s)
  | '\\' :: 'u' :: a :: b :: c :: d :: '\\' :: 'u' :: e :: f :: g :: h :: s =>
    -- two escapes in a row are one character if they are the two halves of it
    match unit? a b c d, unit? e f g h with
    | some high, some low =>
      if isHighSurrogate high && isLowSurrogate low then
        (stringBody? s).map fun (t, rest) => (.char (ofPair high low) :: t, rest)
      else
        (stringBody? ('\\' :: 'u' :: e :: f :: g :: h :: s)).map fun (t, rest) =>
          (.ofUnit high :: t, rest)
    | _, _ => none
  | '\\' :: 'u' :: a :: b :: c :: d :: s =>
    match unit? a b c d with
    | some n => (stringBody? s).map fun (t, rest) => (.ofUnit n :: t, rest)
    | none => none
  | '\\' :: c :: s =>
    match shortEscape? c with
    | some e => (stringBody? s).map fun (t, rest) => (.char e :: t, rest)
    | none => none
  | c :: s =>
    -- control characters have to be escaped
    if c < ' ' then none else (stringBody? s).map fun (t, rest) => (.char c :: t, rest)

/-- The string whose opening quote was read, and what follows it. -/
def takeString (s : Text) : Except ReadError (RawText × Text) :=
  match stringBody? s with
  | some found => .ok found
  | none => .error .malformed

/-- Whether the character is one of the digits `0` to `9`. -/
def isPlainDigit (c : Char) : Bool := '0' ≤ c ∧ c ≤ '9'

/-- The digits at the start of the text, of which there must be one. -/
def takeDigits1? (s : Text) : Option (Text × Text) :=
  match s.takeWhile isPlainDigit with
  | [] => none
  | digits => some (digits, s.dropWhile isPlainDigit)

/-- The digits behind the point at the start of the text, if there is a fraction. -/
def takeFraction (s : Text) : Option Text × Text :=
  match s with
  | '.' :: rest =>
    match takeDigits1? rest with
    | some (digits, rest) => (some digits, rest)
    | none => (none, s)
  | _ => (none, s)

/-- The sign and the digits behind the letter at the start of the text, if there is an exponent. -/
def takeExponent (s : Text) : Option Text × Text :=
  match s with
  | e :: rest =>
    if e = 'e' ∨ e = 'E' then
      let (sign, rest) := match rest with
        | '+' :: rest => (['+'], rest)
        | '-' :: rest => (['-'], rest)
        | rest => ([], rest)
      match takeDigits1? rest with
      | some (digits, rest) => (some (sign ++ digits), rest)
      | none => (none, s)
    else (none, s)
  | [] => (none, s)

/-- The whole part of a number: a zero, or digits that do not begin with one. -/
def takeWhole? : Text → Option (Text × Text)
  | '0' :: s => some (['0'], s)
  | s => takeDigits1? s

/-- The number at the start of the text. -/
def takeNumber (s : Text) : Except ReadError (Numeral × Text) :=
  let (negative, s) := match s with
    | '-' :: s => (true, s)
    | s => (false, s)
  match takeWhole? s with
  | none => .error .malformed
  | some (digits, s) =>
    let (fraction, s) := takeFraction s
    let (exponent, s) := takeExponent s
    if fraction.isNone ∧ exponent.isNone ∧ Integer.digitLimit < digits.length then
      .error (.tooLong digits.length)
    else .ok (.ofParts negative digits fraction exponent, s)

/-- The words that stand for values. -/
def wordValues : List (Text × Json) := [
  ("null".toList, .null), ("true".toList, .bool true), ("false".toList, .bool false),
  ("NaN".toList, .number .undefined), ("Infinity".toList, .number (.infinite false)),
  ("-Infinity".toList, .number (.infinite true))]

/-- The value that is a word or a number. -/
def takeScalar (s : Text) : Except ReadError (Json × Text) :=
  match wordValues.findSome? fun (word, value) => (Text.dropStart? word s).map (value, ·) with
  | some found => .ok found
  | none => (takeNumber s).map fun (value, rest) => (.number value, rest)

mutual

/-- The value at the start of the text, which holds at most `room` containers one inside the other.
Each step of the grammar takes one of `fuel`. -/
def takeValue (fuel room : Nat) (s : Text) : Except ReadError (Json × Text) :=
  match fuel, s with
  | 0, _ => .error .malformed
  | _ + 1, '"' :: s => (takeString s).map fun (t, rest) => (.string t, rest)
  | fuel + 1, '[' :: s =>
    if room = 0 then .error (.tooDeep .array)
    else match skipSpace s with
      | ']' :: rest => .ok (.array [], rest)
      | s => (takeItems fuel (room - 1) s).map fun (items, rest) => (.array items, rest)
  | fuel + 1, '\x7b' :: s =>
    if room = 0 then .error (.tooDeep .object)
    else match skipSpace s with
      | '\x7d' :: rest => .ok (.object [], rest)
      | s => (takeMembers fuel (room - 1) s).map fun (members, rest) => (.ofMembers members, rest)
  | _ + 1, s => takeScalar s

/-- The items of an array up to its closing bracket. -/
def takeItems (fuel room : Nat) (s : Text) : Except ReadError (List Json × Text) :=
  match fuel with
  | 0 => .error .malformed
  | fuel + 1 => do
    let (item, s) ← takeValue fuel room s
    match skipSpace s with
    | ']' :: rest => .ok ([item], rest)
    | ',' :: s =>
      (takeItems fuel room (skipSpace s)).map fun (items, rest) => (item :: items, rest)
    | _ => .error .malformed

/-- The members of an object up to its closing brace. -/
def takeMembers (fuel room : Nat) (s : Text) : Except ReadError (List (RawText × Json) × Text) :=
  match fuel, s with
  | fuel + 1, '"' :: s => do
    let (name, s) ← takeString s
    match skipSpace s with
    | ':' :: s => do
      let (value, s) ← takeValue fuel room (skipSpace s)
      match skipSpace s with
      | '\x7d' :: rest => .ok ([(name, value)], rest)
      | ',' :: s =>
        (takeMembers fuel room (skipSpace s)).map fun (members, rest) =>
          ((name, value) :: members, rest)
      | _ => .error .malformed
    | _ => .error .malformed
  | _, _ => .error .malformed

end

/-- The document that the whole text writes. -/
def read (s : Text) : Except ReadError Json := do
  let (value, rest) ← takeValue (s.length + 1) nestingLimit (skipSpace s)
  if (skipSpace rest).isEmpty then .ok value else .error .malformed

end Checklist.Json
