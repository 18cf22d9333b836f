import Checklist.Query.Parts

/-!
# Editing queries — a query text as a store of directives

In a query of several lines each key has at most one line: setting a key changes its line where it
stands or adds one at the end, setting it to a blank value takes the line out. Of a key that stands
on several lines the first one counts.
-/

namespace Checklist.Editor

open Text

/-- The lines of a query to be edited. -/
def queryLines (query : Text) : List Text :=
  if query.isEmpty then [] else splitOn '\n' (normalizeQuery query)

/-- The query of these lines, without the blank ones. -/
def ofLines (lines : List Text) : Text :=
  joinWith ['\n'] (lines.filter fun line => !(trim line).isEmpty)

/-- Whether the line is a directive with this key, in any case. -/
def carries (key line : Text) : Bool := (lower key ++ [':']).isPrefixOf (lower (trim line))

/-- The value of the first line with this key, if there is one. -/
def get (query key : Text) : Option Text :=
  ((queryLines query).find? (carries key)).map fun line =>
    trim ((cutAt? ':' line).elim [] Prod.snd)

/-- The lines with the first one of the key replaced by `new`, by nothing at all when that is
`none`; a key that no line carries gets its line at the end. -/
def replaceFirst (key : Text) (new : Option Text) : List Text → List Text
  | [] => new.toList
  | line :: rest =>
    if carries key line then new.toList ++ rest else line :: replaceFirst key new rest

/-- The line of a directive, unless its value is missing or blank. -/
def directiveLine? (key : Text) (value : Option Text) : Option Text :=
  (value.map trim).bind fun v => if v.isEmpty then none else some (key ++ ':' :: ' ' :: v)

/-- The query with the key set to the value. -/
def set (query key : Text) (value : Option Text) : Text :=
  ofLines (replaceFirst key (directiveLine? key value) (queryLines query))

/-- The items of a list that a key is set to. -/
def getList (query key : Text) : List Text := splitList ((get query key).getD [])

/-- The query with the key set to a list. -/
def setList (query key : Text) (items : List Text) : Text :=
  set query key (some (joinWith [','] items))

/-- The query with the item taken out of the list of the key, or added to it when it is not there;
case does not matter. -/
def toggle (query key item : Text) : Text :=
  let items := getList query key
  if items.any (lower · = lower item) then
    setList query key (items.filter (lower · ≠ lower item))
  else setList query key (items ++ [item])

end Checklist.Editor
