import Checklist.Text.Blank
import Checklist.Text.Surrogates

/-!
# Paths — names of files and directories

A path is a row of names that leads from the root or from the working directory. Empty names and `.`
mean nothing and are left out when a path is read; `..` is kept, as what it means depends on the
directories that there are. One slash in front means the root, and so do two, but the two stay apart
from the one.

On the disk a name is bytes, of whatever kind. A path has it as a raw text, where surrogates stand
for the bytes that are no characters.
-/

namespace Checklist

/-- Where something is: the names that lead to it from the root, in bytes and without `..`. -/
abbrev Location := List Bytes

/-- A path. -/
structure Path where
  /-- How many slashes stand in front: none when the path leads from the working directory, one or
  two when it leads from the root. -/
  slashes : Nat
  names : List RawText
  deriving DecidableEq

namespace Path

/-- The path that the raw text writes. More than two slashes in front are the same as one. -/
def ofRaw (s : RawText) : Path :=
  let slashes := (s.takeWhile (· = .char '/')).length
  ⟨if slashes ≤ 2 then slashes else 1,
    (Text.splitOn (.char '/') s).filter fun name => name ≠ [] ∧ name ≠ [.char '.']⟩

/-- The path that the text writes. -/
def ofText (s : Text) : Path := ofRaw (.ofText s)

/-- The path from the root to the location. -/
def ofLocation (location : Location) : Path := ⟨1, location.map RawText.decodeName⟩

/-- Whether the path leads from the root. -/
def isAbsolute (p : Path) : Bool := p.slashes ≠ 0

/-- The path as it is shown. -/
def toRaw (p : Path) : RawText :=
  if p.slashes = 0 ∧ p.names.isEmpty then [.char '.']
  else List.replicate p.slashes (.char '/') ++ Text.joinWith [.char '/'] p.names

/-- The names of the path as they are on the disk. -/
def diskNames (p : Path) : Location := p.names.map RawText.nameBytes

/-- The last name, empty when there is none. -/
def name (p : Path) : RawText := p.names.getLast?.getD []

/-- The path without its last name. -/
def parent (p : Path) : Path := { p with names := p.names.dropLast }

/-- The path of something below this one. -/
def join (p : Path) (names : List RawText) : Path := { p with names := p.names ++ names }

/-- The names that lead from `base` to this path, when the path begins with it. -/
def relativeTo? (p base : Path) : Option (List RawText) :=
  if p.slashes = base.slashes ∧ base.names.isPrefixOf p.names then
    some (p.names.drop base.names.length)
  else none

/-- The user whose home directory a leading `~` means, who is not named when it is one's own. -/
def user? (p : Path) : Option RawText :=
  match p.isAbsolute, p.names with
  | false, (.char '~' :: user) :: _ => some user
  | _, _ => none

/-- The path with a leading `~` read as the home directory; the home of another is not known. -/
def expandHome (p : Path) (home : Location) : Option Path :=
  match p.user? with
  | none => some p
  | some user => if user.isEmpty then some ((ofLocation home).join (p.names.drop 1)) else none

/-- The sign that ends a text for the system. -/
def null : RawChar := .char '\x00'

/-- Whether there is a NUL in the path, which no file has in its name. -/
def hasNull (p : Path) : Bool := p.names.any (·.contains null)

/-- The first surrogates in the path that stand for no bytes, so that no file has them in its name.
-/
def fault? (p : Path) : Option EncodeError := p.toRaw.nameFault?

/-- The ending of the name of a note. -/
def noteEnding : RawText := .ofText ".md".toList

/-- Whether the name ends like that of a note; nothing need stand before the ending. -/
def hasNoteEnding (name : RawText) : Bool := noteEnding.isSuffixOf name

/-- Whether the path is named like a note, with something before the ending. -/
def isNoteName (p : Path) : Bool := hasNoteEnding p.name && noteEnding.length < p.name.length

end Path

end Checklist
