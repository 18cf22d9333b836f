import Checklist.Query.Parts

/-!
# Compiling — from a query text to its specification

Each directive sets at most one field, or none when its value is of no use; the parts that are no
directives are the words to look for. The specification of a query is the merge of what its parts
set, in their order, so a later directive wins over an earlier one.
-/

namespace Checklist

/-- The list, unless it is empty. -/
def unlessEmpty {α : Type} (items : List α) : Option (List α) :=
  if items.isEmpty then none else some items

/-- The positive number that the value writes. -/
def parseLimit? (value : Text) : Option Int :=
  (Integer.read? (Text.trim value)).filter (0 < ·)

/-- The order that the value describes: a field, and a direction behind it. A field that is not
known stands for the due date in ascending order. -/
def parseSort (value : Text) : SortSpec :=
  let words := Text.words value
  let direction := words.getLast?.bind fun word => SortDirection.ofName? (Text.lower word)
  let (field, direction) :=
    match direction, words with
    | some direction, _ :: _ :: _ => (words.dropLast, direction)
    | _, _ => (words, .ascending)
  match SortField.ofAlias? (Text.lower (Text.joinWith [' '] field)) with
  | some field => ⟨field, direction⟩
  | none => ⟨.due, .ascending⟩

/-- What a directive with this value sets. -/
def Keyword.patch (k : Keyword) (value : Text) (today : Date) : Except DateOverflow Spec :=
  match k with
  | .status => .ok { statusIn := unlessEmpty ((splitList value).map Text.lower) }
  | .priority => .ok { priorityIn := unlessEmpty ((splitList value).map Text.lower) }
  | .due => (DateWindow.ofText? value today).map fun w => { dueWindow := w }
  | .starts => (DateWindow.ofText? value today).map fun w => { startsWindow := w }
  | .tag => .ok { tagsInclude := unlessEmpty (splitList value) }
  | .excludedTag => .ok { tagsExclude := unlessEmpty (splitList value) }
  | .path => .ok { pathGlob := unlessEmpty (Text.trim value) }
  | .limit => .ok { limit := parseLimit? value }
  | .sort => .ok { sort := some (parseSort value) }

/-- What a part of a query sets, apart from words to look for. -/
def partPatch (today : Date) (part : Text) : Except DateOverflow Spec :=
  match matchDirective part with
  | some (k, value) => k.patch value today
  | none => .ok .empty

/-- The merge of what the parts set. -/
def mergePatches (today : Date) : List Text → Except DateOverflow Spec
  | [] => .ok .empty
  | part :: parts => do
    let patch ← partPatch today part
    let rest ← mergePatches today parts
    .ok (patch.merge rest)

/-- The parts that are no directives, joined by spaces. -/
def freeText? (parts : List Text) : Option Text :=
  (unlessEmpty (parts.filter fun part => (matchDirective part).isNone)).map
    (Text.joinWith [' '])

/-- The specification of a query that is read on the day `today`. -/
def compileQuery (text : Text) (today : Date) : Except DateOverflow Spec :=
  (mergePatches today (splitQuery text)).map fun spec =>
    { spec with freeText := freeText? (splitQuery text) }

/-- The directives whose values are of no use, up to the first part that fails. -/
def ignoredDirectives (text : Text) (today : Date) : List (Keyword × Text) :=
  let parts := (splitQuery text).takeWhile fun part => (partPatch today part).toBool
  parts.filterMap fun part =>
    match matchDirective part, partPatch today part with
    | some directive, .ok patch => if patch = .empty then some directive else none
    | _, _ => none

end Checklist
