import Checklist.Text.Basic

/-!
# Scanning — finding tokens in a text

A `Scanner` tries to read one token at a place of the text. `pieces` walks a text from left to
right: where the scanner finds a token the walk goes on behind it, everywhere else one character is
passed. The tokens that were found, and the text with every token blanked out, are both read off the
pieces.
-/

namespace Checklist

/-- Given the character before a place, if any, and the text from there: the token that begins at
this place and the text behind it. -/
abbrev Scanner (α : Type) := Option Char → Text → Option (α × Text)

/-- A piece of a scanned text. -/
inductive Piece (α : Type) where
  /-- A character outside every token. -/
  | plain (c : Char)
  /-- A token, by its value. -/
  | token (value : α)

namespace Scanner

variable {α : Type}

/-- The pieces of the text, of which the first `skip` characters belong to a token found before. -/
def piecesFrom (scan : Scanner α) : (skip : Nat) → Option Char → Text → List (Piece α)
  | _, _, [] => []
  | skip + 1, _, c :: s => piecesFrom scan skip (some c) s
  | 0, before, c :: s =>
    match scan before (c :: s) with
    | some (value, rest) => .token value :: piecesFrom scan (s.length - rest.length) (some c) s
    | none => .plain c :: piecesFrom scan 0 (some c) s

/-- The tokens of the text and the characters between them. -/
def pieces (scan : Scanner α) (s : Text) : List (Piece α) := piecesFrom scan 0 none s

/-- The tokens of the text. -/
def tokens (scan : Scanner α) (s : Text) : List α :=
  (scan.pieces s).filterMap fun
    | .plain _ => none
    | .token value => some value

/-- The text with one space in place of every token. -/
def blankOut (scan : Scanner α) (s : Text) : Text :=
  (scan.pieces s).map fun
    | .plain c => c
    | .token _ => ' '

/-- Whether the text holds a token. -/
def finds (scan : Scanner α) (s : Text) : Bool := !(scan.tokens s).isEmpty

/-- Walking over the rest of a token leaves no trace. -/
theorem piecesFrom_append_of_length (scan : Scanner α) (before : Option Char) (w s : Text) :
    piecesFrom scan w.length before (w ++ s) = piecesFrom scan 0 (w.getLast?.or before) s := by
  induction w generalizing before with
  | nil => simp
  | cons c w ih =>
    simp only [List.length_cons, List.cons_append, piecesFrom, ih]
    cases w <;> simp [List.getLast?_cons]

end Scanner

end Checklist
