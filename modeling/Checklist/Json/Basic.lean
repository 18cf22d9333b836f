import Checklist.Number.Numeral
import Checklist.Text.Raw

/-!
# JSON values — tasks and settings as data

A JSON document as a tree. A string may hold surrogates without a partner, which no text does, and
the members of an object keep their order. Where a name is put into an object a second time, the new
value counts (`lookup_put_self`) and stands in the place of the old one (`names_put`).
-/

namespace Checklist

/-- A JSON value. -/
inductive Json where
  | null
  | bool (value : Bool)
  | number (value : Numeral)
  | string (value : RawText)
  | array (items : List Json)
  | object (members : List (RawText × Json))
  deriving Inhabited

namespace Json

/-- A text as JSON. -/
def text (s : Text) : Json := .string (.ofText s)

/-- A text as JSON, a missing one as `null`. -/
def ofText? : Option Text → Json
  | some s => text s
  | none => .null

/-- A list of texts as JSON. -/
def ofTexts (texts : List Text) : Json := .array (texts.map text)

/-- An object whose names are texts. -/
def record (members : List (Text × Json)) : Json :=
  .object (members.map fun (name, value) => (.ofText name, value))

/-- The members with the value under that name: in the place of the one of that name, or last. -/
def put (name : RawText) (value : Json) : List (RawText × Json) → List (RawText × Json)
  | [] => [(name, value)]
  | (other, old) :: members =>
    if other = name then (name, value) :: members else (other, old) :: put name value members

/-- The object that members in this order make. -/
def ofMembers (members : List (RawText × Json)) : Json :=
  .object (members.foldl (fun before (name, value) => put name value before) [])

/-- The member of that name in a list of members. -/
def lookup (name : Text) (members : List (RawText × Json)) : Option Json :=
  List.lookup (RawText.ofText name) members

/-- The member of that name, if the value is an object that has it. -/
def member? (name : Text) : Json → Option Json
  | .object members => lookup name members
  | _ => none

/-- The text of a string that is one. -/
def text? : Json → Option Text
  | .string s => s.toText?
  | _ => none

/-- The texts of an array, its other items left out. -/
def texts : Json → List Text
  | .array items => items.filterMap text?
  | _ => []

/-- Whether a value counts as given: `null`, `false`, zero and everything empty do not. -/
def isGiven : Json → Bool
  | .null => false
  | .bool b => b
  | .number value => value.rat? ≠ some 0
  | .string s => !s.isEmpty
  | .array items => !items.isEmpty
  | .object members => !members.isEmpty

/-- A text is read back from its JSON. -/
theorem text?_text (s : Text) : (text s).text? = some s := RawText.toText?_ofText s

/-- What was put under a name is found there. -/
theorem lookup_put_self (name : Text) (value : Json) (members : List (RawText × Json)) :
    lookup name (put (.ofText name) value members) = some value := by
  induction members with
  | nil => simp [lookup, put]
  | cons member members ih =>
    obtain ⟨other, old⟩ := member
    by_cases h : other = RawText.ofText name
    · simp [lookup, put, h]
    · have h' : (RawText.ofText name == other) = false := by simpa using Ne.symm h
      simpa [lookup, put, h, List.lookup_cons, h'] using ih

/-- A name stays in its place, and a new one comes last. -/
theorem names_put (name : RawText) (value : Json) (members : List (RawText × Json)) :
    (put name value members).map Prod.fst =
      if name ∈ members.map Prod.fst then members.map Prod.fst
      else members.map Prod.fst ++ [name] := by
  induction members with
  | nil => rfl
  | cons member members ih =>
    obtain ⟨other, old⟩ := member
    by_cases h : other = name
    · subst h
      simp [put]
    · have h' : ¬name = other := fun e => h e.symm
      simp only [put, h, if_false, List.map_cons, List.mem_cons, h', false_or, ih]
      split <;> rfl

/-- What is put under one name leaves the others alone. -/
theorem lookup_put_of_ne {name : Text} {other : RawText} (h : RawText.ofText name ≠ other)
    (value : Json) (members : List (RawText × Json)) :
    lookup name (put other value members) = lookup name members := by
  have h' : (RawText.ofText name == other) = false := by simpa using h
  induction members with
  | nil => simp [lookup, put, List.lookup_cons, h']
  | cons member members ih =>
    obtain ⟨first, old⟩ := member
    by_cases hf : first = other
    · subst hf
      simp [lookup, put, List.lookup_cons, h']
    · unfold lookup at ih ⊢
      simp only [put, hf, if_false, List.lookup_cons, ih]

end Json

end Checklist
