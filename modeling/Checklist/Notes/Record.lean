import Checklist.Task.Codec
import Checklist.Files.Tree

/-!
# Records — stored lines, and what can go wrong with a store

A store of notes hands out its checklist lines as records, each under an id by which the line can be
replaced later.
-/

namespace Checklist

/-- A stored line. -/
structure Record where
  id : Text
  line : Text
  source : Provenance
  deriving DecidableEq

/-- The tasks that the records write; records that write none are passed over. -/
def Codec.parseRecords (codec : Codec) (records : List Record) : List Task :=
  records.filterMap fun r => codec.parse r.line r.id r.source

/-- Why a store of notes cannot do what it is asked. -/
inductive NoteError where
  /-- No line has that id. -/
  | unknownRecord (id : RawText)
  /-- There are no notes at that place. -/
  | noNotes (place : RawText)
  /-- A line can be appended to a file only. -/
  | noteRequired
  /-- The home directory of a user is not known. -/
  | unknownHome
  | undecodable (error : Utf8.DecodeError)
  /-- There are surrogates where a text is needed. -/
  | unencodable (error : EncodeError)
  /-- The time of a file has no text. -/
  | stamp (error : StampError)
  | file (error : FileError)
  deriving DecidableEq

/-- The wording of the error. -/
def NoteError.message : NoteError → RawText
  | .unknownRecord id => .ofText id.quoted
  | .noNotes place => .ofText "No notes found at ".toList ++ place
  | .noteRequired => .ofText "A note file is required when the source is a directory".toList
  | .unknownHome => .ofText "Could not determine home directory.".toList
  | .undecodable error => .ofText error.message
  | .unencodable error => .ofText error.message
  | .stamp error => .ofText error.message
  | .file error => .ofText error.message

end Checklist
