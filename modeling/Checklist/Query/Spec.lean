import Checklist.Query.Window

/-!
# Query specifications — what a query asks for

A `Spec` holds the filters, the order and the bound of a query; a field that is not set asks for
nothing. Specifications are put together by `merge`, in which the later one wins field by field.
-/

namespace Checklist

/-- What tasks are put in order by. -/
inductive SortField where
  | due
  | start
  | priority
  | created
  | updated
  | content
  deriving DecidableEq

/-- Which end of an order comes first. -/
inductive SortDirection where
  | ascending
  | descending
  deriving DecidableEq

namespace SortField

/-- The word for the field. -/
def name : SortField → Text
  | .due => "due".toList
  | .start => "start".toList
  | .priority => "priority".toList
  | .created => "created".toList
  | .updated => "updated".toList
  | .content => "content".toList

/-- Every field. -/
def all : List SortField := [.due, .start, .priority, .created, .updated, .content]

/-- The field with that name. -/
def ofName? (name : Text) : Option SortField := all.find? (·.name = name)

/-- The words by which a query may name a field. -/
def aliases : List (Text × SortField) := [
  ("priority".toList, .priority), ("due".toList, .due), ("duedate".toList, .due),
  ("start".toList, .start), ("startdate".toList, .start), ("content".toList, .content),
  ("description".toList, .content), ("created".toList, .created), ("updated".toList, .updated)]

/-- The field that a query names. -/
def ofAlias? (name : Text) : Option SortField := aliases.lookup name

end SortField

namespace SortDirection

/-- The word for the direction. -/
def name : SortDirection → Text
  | .ascending => "asc".toList
  | .descending => "desc".toList

/-- Both directions. -/
def all : List SortDirection := [.ascending, .descending]

/-- The direction with that name. -/
def ofName? (name : Text) : Option SortDirection := all.find? (·.name = name)

end SortDirection

/-- An order of tasks. -/
structure SortSpec where
  field : SortField := .due
  direction : SortDirection := .ascending
  deriving DecidableEq

/-- The filters, the order and the bound of a query. -/
structure Spec where
  statusIn : Option (List Text) := none
  priorityIn : Option (List Text) := none
  tagsInclude : Option (List Text) := none
  tagsExclude : Option (List Text) := none
  dueWindow : Option DateWindow := none
  startsWindow : Option DateWindow := none
  pathGlob : Option Text := none
  freeText : Option Text := none
  sort : Option SortSpec := none
  limit : Option Int := none
  deriving DecidableEq

namespace Spec

/-- The specification that sets nothing. -/
def empty : Spec := {}

/-- Both together; where both set a field the second one wins. -/
def merge (a b : Spec) : Spec where
  statusIn := b.statusIn <|> a.statusIn
  priorityIn := b.priorityIn <|> a.priorityIn
  tagsInclude := b.tagsInclude <|> a.tagsInclude
  tagsExclude := b.tagsExclude <|> a.tagsExclude
  dueWindow := b.dueWindow <|> a.dueWindow
  startsWindow := b.startsWindow <|> a.startsWindow
  pathGlob := b.pathGlob <|> a.pathGlob
  freeText := b.freeText <|> a.freeText
  sort := b.sort <|> a.sort
  limit := b.limit <|> a.limit

theorem merge_empty (a : Spec) : a.merge empty = a := by
  simp [merge, empty]

theorem empty_merge (a : Spec) : empty.merge a = a := by
  cases a
  simp [merge, empty]

theorem merge_assoc (a b c : Spec) : (a.merge b).merge c = a.merge (b.merge c) := by
  simp [merge, Option.or_assoc]

end Spec

end Checklist
