import Checklist.Json.Basic

/-!
# Shown values — a value as messages name it

A message about an unusable value shows it: texts are quoted, the three constants are written with a
capital letter, numbers in their shortest form, lists and objects in their brackets.
-/

namespace Checklist.Json

mutual

/-- The value as a message shows it. -/
def shown : Json → Text
  | .null => "None".toList
  | .bool true => "True".toList
  | .bool false => "False".toList
  | .number value => value.shown
  | .string s => s.quoted
  | .array items => '[' :: Text.joinWith [',', ' '] (shownItems items) ++ [']']
  | .object members => '\x7b' :: Text.joinWith [',', ' '] (shownMembers members) ++ ['\x7d']

/-- Each item as a message shows it. -/
def shownItems : List Json → List Text
  | [] => []
  | item :: items => shown item :: shownItems items

/-- Each member as a message shows it. -/
def shownMembers : List (RawText × Json) → List Text
  | [] => []
  | (name, value) :: members =>
    (name.quoted ++ [':', ' '] ++ shown value) :: shownMembers members

end

end Checklist.Json
