import Checklist.Json.Basic

/-!
# Writing JSON — on one line or indented, with all characters or ASCII alone

Three choices of layout cover every document the library writes: settings are indented and ASCII
alone, printed tasks are indented and keep their characters. A surrogate without a partner is
escaped in all of them.
-/

namespace Checklist.Json

/-- How a document is laid out. -/
structure Layout where
  /-- Whether every character outside printable ASCII is escaped. -/
  ascii : Bool
  /-- Whether each item stands on a line of its own, two spaces deeper than its parent. -/
  indented : Bool

/-- One UTF-16 unit as an escape. -/
def escapeUnit (n : Nat) : Text := '\\' :: 'u' :: Text.fixedDigits 16 4 n

/-- A character inside a JSON string. -/
def escapeChar (ascii : Bool) (c : Char) : Text :=
  if c = '"' then ['\\', '"']
  else if c = '\\' then ['\\', '\\']
  else if c = '\n' then ['\\', 'n']
  else if c = '\r' then ['\\', 'r']
  else if c = '\t' then ['\\', 't']
  else if c = '\x0c' then ['\\', 'f']
  else if c = '\x08' then ['\\', 'b']
  else if c < ' ' then escapeUnit c.toNat
  else if ascii && '~' < c then
    if c.toNat < 0x10000 then escapeUnit c.toNat
    else
      let n := c.toNat - 0x10000
      escapeUnit (0xD800 + n / 0x400) ++ escapeUnit (0xDC00 + n % 0x400)
  else [c]

/-- A character or a surrogate inside a JSON string. -/
def escapeRaw (ascii : Bool) : RawChar → Text
  | .char c => escapeChar ascii c
  | .surrogate index => RawChar.escape index

/-- A JSON string. -/
def writeString (ascii : Bool) (s : RawText) : Text := '"' :: s.flatMap (escapeRaw ascii) ++ ['"']

/-- The break before an item at this depth. -/
def Layout.newline (layout : Layout) (depth : Nat) : Text :=
  if layout.indented then '\n' :: List.replicate (2 * depth) ' ' else []

/-- What separates two items at this depth. -/
def Layout.separator (layout : Layout) (depth : Nat) : Text :=
  if layout.indented then ',' :: layout.newline depth else [',', ' ']

mutual

/-- The document, at this depth inside another one. -/
def write (layout : Layout) (depth : Nat) : Json → Text
  | .null => "null".toList
  | .bool true => "true".toList
  | .bool false => "false".toList
  | .number value => value.written
  | .string s => writeString layout.ascii s
  | .array [] => ['[', ']']
  | .array (item :: items) =>
    '[' :: layout.newline (depth + 1) ++ write layout (depth + 1) item ++
      writeItems layout (depth + 1) items ++ layout.newline depth ++ [']']
  | .object [] => ['\x7b', '\x7d']
  | .object (member :: members) =>
    '\x7b' :: layout.newline (depth + 1) ++ writeMember layout (depth + 1) member ++
      writeMembers layout (depth + 1) members ++ layout.newline depth ++ ['\x7d']

/-- The items after the first. -/
def writeItems (layout : Layout) (depth : Nat) : List Json → Text
  | [] => []
  | item :: items =>
    layout.separator depth ++ write layout depth item ++ writeItems layout depth items

/-- One member of an object. -/
def writeMember (layout : Layout) (depth : Nat) : RawText × Json → Text
  | (name, value) => writeString layout.ascii name ++ [':', ' '] ++ write layout depth value

/-- The members after the first. -/
def writeMembers (layout : Layout) (depth : Nat) : List (RawText × Json) → Text
  | [] => []
  | member :: members =>
    layout.separator depth ++ writeMember layout depth member ++ writeMembers layout depth members

end

/-- The document on lines of its own, keeping every character. -/
def pretty (value : Json) : Text := write ⟨false, true⟩ 0 value

/-- The document on lines of its own, in ASCII alone. -/
def prettyAscii (value : Json) : Text := write ⟨true, true⟩ 0 value

/-- The document on one line, in ASCII alone. -/
def compact (value : Json) : Text := write ⟨true, false⟩ 0 value

end Checklist.Json
