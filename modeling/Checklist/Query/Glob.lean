import Checklist.Text.Basic

/-!
# Globs — patterns for paths

In a pattern a star stands for any characters on one line, and every other character for itself. A
line feed that ends the path does not count.
-/

namespace Checklist.Glob

/-- Whether the text is the first chunk, then any characters on one line, then the next chunk, and
so on to its end. -/
def matchChunks : List Text → Text → Bool
  | [], s => s.isEmpty
  | [chunk], s => s = chunk
  | chunk :: next :: rest, s =>
    match Text.dropStart? chunk s with
    | none => false
    | some s => afterStar (matchChunks (next :: rest)) s
where
  /-- Whether the rest matches behind some characters on one line. -/
  afterStar (rest : Text → Bool) : Text → Bool
    | [] => rest []
    | c :: s => rest (c :: s) || (c ≠ '\n' && afterStar rest s)

/-- Whether the path fits the pattern. -/
def isMatch (pattern path : Text) : Bool :=
  let chunks := Text.splitOn '*' pattern
  matchChunks chunks path ||
    (path.getLast? = some '\n' && matchChunks chunks path.dropLast)

end Checklist.Glob
