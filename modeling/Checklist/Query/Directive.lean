import Checklist.Text.Blank
import Checklist.Text.Lowercase

/-!
# Directives — the parts of a query that begin with a keyword

A directive is a keyword, in any case, a colon and a value. There are nine keywords, and no text
begins with two of them.
-/

namespace Checklist

/-- What a directive is about. -/
inductive Keyword where
  | status
  | priority
  | due
  | starts
  | tag
  | excludedTag
  | path
  | limit
  | sort
  deriving DecidableEq

namespace Keyword

/-- The word that a directive begins with. -/
def name : Keyword → Text
  | .status => "status".toList
  | .priority => "priority".toList
  | .due => "due".toList
  | .starts => "starts".toList
  | .tag => "tag".toList
  | .excludedTag => "-tag".toList
  | .path => "path".toList
  | .limit => "limit".toList
  | .sort => "sort".toList

/-- Every keyword. -/
def all : List Keyword :=
  [.status, .priority, .due, .starts, .tag, .excludedTag, .path, .limit, .sort]

/-- The keyword and its colon, as a directive begins. -/
def start (k : Keyword) : Text := k.name ++ [':']

/-- Whether the value is a list with commas between its items. -/
def isList : Keyword → Bool
  | .status | .priority | .tag | .excludedTag => true
  | _ => false

end Keyword

/-- The keyword and the value of a part that is a directive. -/
def matchDirective (part : Text) : Option (Keyword × Text) :=
  (Keyword.all.find? fun k => k.start.isPrefixOf (Text.lower part)).map fun k =>
    (k, Text.trim (part.drop k.start.length))

end Checklist
