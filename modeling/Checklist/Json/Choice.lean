import Checklist.Json.Shown

/-!
# Choices — a word out of a fixed list

States, priorities and other closed lists are written as one of their words. `choose` reads such a
word from a JSON value and tells what was there instead when it is none of them.
-/

namespace Checklist

/-- A value that is none of the words it should be one of. -/
structure UnknownChoice where
  /-- What the words are names of. -/
  kind : Text
  value : Json

/-- The wording of the error. -/
def UnknownChoice.message (e : UnknownChoice) : Text :=
  e.value.shown ++ " is not a valid ".toList ++ e.kind

/-- The choice that the value names. -/
def Json.choose {α : Type} (kind : Text) (ofName? : Text → Option α) (value : Json) :
    Except UnknownChoice α :=
  match value.text?.bind ofName? with
  | some choice => .ok choice
  | none => .error ⟨kind, value⟩

end Checklist
