import Checklist.Task.Scan
import Checklist.Proofs.Words

/-!
# Scanning — how the tokens of a text depend on its parts

A scanner is `Lawful` when a token takes at least one character, begins with no blank, and does not
tell the start of the text from a space before it. For such scanners a text can be scanned part by
part, where no token reaches from one part into the next: the scanner `StopsAt` the second part
(`pieces_append_space`). A text without the signs that tokens begin with has no token at all
(`piecesFrom_append_of_unsigned`).

Blanking out a token takes ink off the text (`ink_blankOut_le`), so a text that keeps its words has
no token.
-/

namespace Checklist.Scanner

open Text

variable {α : Type} {scan : Scanner α}

/-- What every scanner of tokens does. -/
structure Lawful (scan : Scanner α) : Prop where
  /-- A token takes characters off the text, the first of them not blank. -/
  consumes : ∀ {before s value rest}, scan before s = some (value, rest) →
    ∃ c w, s = c :: w ++ rest ∧ isBlank c = false
  /-- The start of the text is as good as a space. -/
  behind : ∀ s, scan (some ' ') s = scan none s

/-- The scanner finds no token but at the characters of a class. -/
def StartsWith (scan : Scanner α) (sign : Char → Bool) : Prop :=
  ∀ before c s, sign c = false → scan before (c :: s) = none

/-- No token that begins before `tail` reaches into it, or is there only because of it. -/
def StopsAt (scan : Scanner α) (tail : Text) : Prop :=
  ∀ before c s, scan before (c :: s ++ tail) =
    (scan before (c :: s)).map fun (value, rest) => (value, rest ++ tail)

/-! ## One step of the walk -/

/-- A character at which no token begins is a piece of its own. -/
theorem piecesFrom_of_none {before : Option Char} {c : Char} {s : Text}
    (h : scan before (c :: s) = none) :
    scan.piecesFrom 0 before (c :: s) = .plain c :: scan.piecesFrom 0 (some c) s := by
  rw [piecesFrom, h]

/-- A token is one piece, and the walk goes on behind it. -/
theorem piecesFrom_of_some {before : Option Char} {value : α} {c : Char} {w rest : Text}
    (h : scan before (c :: w ++ rest) = some (value, rest)) :
    scan.piecesFrom 0 before (c :: w ++ rest) =
      .token value :: scan.piecesFrom 0 (c :: w).getLast? rest := by
  rw [List.cons_append] at h ⊢
  rw [piecesFrom, h]
  have hskip : (w ++ rest).length - rest.length = w.length := by
    rw [List.length_append]
    omega
  simp only [hskip, piecesFrom_append_of_length]
  cases w <;> simp [List.getLast?_cons]

/-- Behind a space the walk is like one at the start. -/
theorem piecesFrom_space (hl : scan.Lawful) (s : Text) :
    scan.piecesFrom 0 (some ' ') s = scan.pieces s := by
  cases s with
  | nil => rfl
  | cons c s => rw [pieces, piecesFrom, piecesFrom, hl.behind]

/-- A blank begins no token. -/
theorem Lawful.blank (hl : scan.Lawful) {before : Option Char} {c : Char} {s : Text}
    (hc : isBlank c = true) : scan before (c :: s) = none := by
  cases h : scan before (c :: s) with
  | none => rfl
  | some found =>
      obtain ⟨d, w, heq, hd⟩ := hl.consumes h
      obtain ⟨rfl, -⟩ : c = d ∧ s = w ++ found.2 := by simpa using heq
      rw [hc] at hd
      exact Bool.noConfusion hd

/-! ## Scanning part by part -/

/-- The walk over a text ends where the scanner stops. -/
theorem piecesFrom_append (hl : scan.Lawful) {tail : Text} (hstop : scan.StopsAt tail)
    (before : Option Char) (s : Text) :
    scan.piecesFrom 0 before (s ++ tail) =
      scan.piecesFrom 0 before s ++ scan.piecesFrom 0 (s.getLast?.or before) tail := by
  match s with
  | [] => simp [piecesFrom]
  | c :: s =>
      cases h : scan before (c :: s) with
      | none =>
          have htail : scan before (c :: (s ++ tail)) = none := by
            rw [← List.cons_append, hstop, h]
            rfl
          rw [piecesFrom_of_none h, List.cons_append, piecesFrom_of_none htail,
            piecesFrom_append hl hstop (some c) s]
          cases s <;> simp [List.getLast?_cons]
      | some found =>
          -- The token ends inside the first part, so the walk goes on with less of it.
          obtain ⟨value, rest⟩ := found
          obtain ⟨d, w, heq, -⟩ := hl.consumes h
          have hlen : rest.length ≤ s.length := by
            have := congrArg List.length heq
            simp only [List.length_append, List.length_cons] at this
            omega
          rw [heq] at h ⊢
          have htail : scan before (d :: w ++ (rest ++ tail)) = some (value, rest ++ tail) := by
            have := hstop before d (w ++ rest)
            rw [← List.cons_append, h] at this
            simpa using this
          rw [List.append_assoc, piecesFrom_of_some htail, piecesFrom_of_some h,
            piecesFrom_append hl hstop _ rest]
          have hlast : (d :: w ++ rest).getLast?.or before =
              rest.getLast?.or (d :: w).getLast? := by
            rw [List.getLast?_append, Option.or_assoc]
            simp [List.getLast?_cons]
          rw [hlast]
          rfl
termination_by s.length

/-- A text is scanned part by part where a space divides the parts and no token reaches across. -/
theorem pieces_append_space (hl : scan.Lawful) {s tail : Text}
    (hstop : scan.StopsAt (' ' :: tail)) :
    scan.pieces (s ++ ' ' :: tail) = scan.pieces s ++ .plain ' ' :: scan.pieces tail := by
  rw [pieces, piecesFrom_append hl hstop, piecesFrom_of_none (hl.blank isBlank_space),
    piecesFrom_space hl]
  rfl

/-- A text at whose characters no token begins is passed over. -/
theorem piecesFrom_append_of_none {before : Option Char} {s tail : Text}
    (h : ∀ p c u, s = p ++ c :: u → scan (p.getLast?.or before) (c :: u ++ tail) = none) :
    scan.piecesFrom 0 before (s ++ tail) =
      s.map .plain ++ scan.piecesFrom 0 (s.getLast?.or before) tail := by
  induction s generalizing before with
  | nil => simp
  | cons c s ih =>
      have hhead : scan before (c :: (s ++ tail)) = none := h [] c s rfl
      rw [List.cons_append, piecesFrom_of_none hhead, ih]
      · cases s <;> simp [List.getLast?_cons]
      · intro p d u hs
        have hnone := h (c :: p) d u (by rw [hs]; rfl)
        rwa [List.getLast?_cons, Option.some_or, ← Option.or_some] at hnone

/-- Where no token begins anywhere, every character is a piece. -/
theorem piecesFrom_eq_map_of_none {before : Option Char} {s : Text}
    (h : ∀ p c u, s = p ++ c :: u → scan (p.getLast?.or before) (c :: u) = none) :
    scan.piecesFrom 0 before s = s.map .plain := by
  have hnone : ∀ p c u, s = p ++ c :: u →
      scan (p.getLast?.or before) (c :: u ++ []) = none := fun p c u hs => by
    rw [List.append_nil]
    exact h p c u hs
  have hwalk := piecesFrom_append_of_none hnone
  rwa [List.append_nil, piecesFrom, List.append_nil] at hwalk

/-- A text without the signs of the scanner is passed over. -/
theorem piecesFrom_append_of_unsigned {sign : Char → Bool} (hs : scan.StartsWith sign)
    {s : Text} (h : ∀ c ∈ s, sign c = false) (before : Option Char) (tail : Text) :
    scan.piecesFrom 0 before (s ++ tail) =
      s.map .plain ++ scan.piecesFrom 0 (s.getLast?.or before) tail :=
  piecesFrom_append_of_none fun p c u hsplit => hs _ c _ (h c (by simp [hsplit]))

/-- So it is in a text without signs. -/
theorem pieces_of_unsigned {sign : Char → Bool} (hs : scan.StartsWith sign) {s : Text}
    (h : ∀ c ∈ s, sign c = false) : scan.pieces s = s.map .plain := by
  have := piecesFrom_append_of_unsigned hs h none []
  simpa [piecesFrom, pieces] using this

/-- A text without the signs of the scanner, with a space behind it, does not touch what follows. -/
theorem pieces_unsigned_space (hl : scan.Lawful) {sign : Char → Bool} (hs : scan.StartsWith sign)
    {s : Text} (h : ∀ c ∈ s, sign c = false) (tail : Text) :
    scan.pieces (s ++ ' ' :: tail) = s.map .plain ++ .plain ' ' :: scan.pieces tail := by
  rw [pieces, piecesFrom_append_of_unsigned hs h, piecesFrom_of_none (hl.blank isBlank_space),
    piecesFrom_space hl]

/-! ## Tokens, and the text without them -/

/-- The character that is left of a piece. -/
def shown : Piece α → Char
  | .plain c => c
  | .token _ => ' '

/-- The value of a token. -/
def value? : Piece α → Option α
  | .plain _ => none
  | .token value => some value

/-- The tokens are the values of the pieces. -/
theorem tokens_eq_filterMap (s : Text) : scan.tokens s = (scan.pieces s).filterMap value? :=
  List.filterMap_congr fun piece _ => by cases piece <;> rfl

/-- What is left is what the pieces show. -/
theorem blankOut_eq_map (s : Text) : scan.blankOut s = (scan.pieces s).map shown :=
  List.map_congr_left fun piece _ => by cases piece <;> rfl

/-- Plain pieces show the text. -/
theorem map_shown_plain (s : Text) : (s.map (.plain : Char → Piece α)).map shown = s := by
  rw [List.map_map]
  exact List.map_id s

/-- Plain pieces have no values. -/
theorem filterMap_value?_plain (s : Text) :
    (s.map (.plain : Char → Piece α)).filterMap value? = [] := by
  induction s with
  | nil => rfl
  | cons c s ih => exact ih

/-- A space in front is a piece of its own. -/
theorem pieces_space_cons (hl : scan.Lawful) (s : Text) :
    scan.pieces (' ' :: s) = .plain ' ' :: scan.pieces s := by
  rw [pieces, piecesFrom_of_none (hl.blank isBlank_space), piecesFrom_space hl]

/-- It is left where it stands. -/
theorem blankOut_space_cons (hl : scan.Lawful) (s : Text) :
    scan.blankOut (' ' :: s) = ' ' :: scan.blankOut s := by
  rw [blankOut_eq_map, pieces_space_cons hl, blankOut_eq_map]
  rfl

/-- And it makes no token more or less. -/
theorem tokens_space_cons (hl : scan.Lawful) (s : Text) :
    scan.tokens (' ' :: s) = scan.tokens s := by
  rw [tokens_eq_filterMap, pieces_space_cons hl, tokens_eq_filterMap]
  rfl

/-- The tokens of two parts that are scanned apart. -/
theorem tokens_append_space (hl : scan.Lawful) {s tail : Text}
    (hstop : scan.StopsAt (' ' :: tail)) :
    scan.tokens (s ++ ' ' :: tail) = scan.tokens s ++ scan.tokens tail := by
  simp [tokens, pieces_append_space hl hstop]

/-- What is left of two parts that are scanned apart. -/
theorem blankOut_append_space (hl : scan.Lawful) {s tail : Text}
    (hstop : scan.StopsAt (' ' :: tail)) :
    scan.blankOut (s ++ ' ' :: tail) = scan.blankOut s ++ ' ' :: scan.blankOut tail := by
  simp [blankOut, pieces_append_space hl hstop]

/-- A part without signs has no tokens. -/
theorem tokens_unsigned_space (hl : scan.Lawful) {sign : Char → Bool} (hs : scan.StartsWith sign)
    {s : Text} (h : ∀ c ∈ s, sign c = false) (tail : Text) :
    scan.tokens (s ++ ' ' :: tail) = scan.tokens tail := by
  rw [tokens_eq_filterMap, pieces_unsigned_space hl hs h, List.filterMap_append,
    filterMap_value?_plain, tokens_eq_filterMap]
  rfl

/-- A text without signs has no tokens. -/
theorem tokens_of_unsigned {sign : Char → Bool} (hs : scan.StartsWith sign) {s : Text}
    (h : ∀ c ∈ s, sign c = false) : scan.tokens s = [] := by
  simp [tokens, pieces_of_unsigned hs h]

/-- A text without signs is left as it is. -/
theorem blankOut_of_unsigned {sign : Char → Bool} (hs : scan.StartsWith sign) {s : Text}
    (h : ∀ c ∈ s, sign c = false) : scan.blankOut s = s := by
  rw [blankOut_eq_map, pieces_of_unsigned hs h, map_shown_plain]

/-- A walk meets no token when none begins anywhere. -/
theorem filterMap_value?_piecesFrom_eq_nil_iff {before : Option Char} {s : Text} :
    (scan.piecesFrom 0 before s).filterMap value? = [] ↔
      ∀ p c u, s = p ++ c :: u → scan (p.getLast?.or before) (c :: u) = none := by
  induction s generalizing before with
  | nil => simp [piecesFrom]
  | cons c s ih =>
      constructor
      · intro h p d u hs
        cases hscan : scan before (c :: s) with
        | some found =>
            rw [piecesFrom, hscan] at h
            exact absurd h (List.cons_ne_nil _ _)
        | none =>
            -- The place is the first character, or it is one behind it, where the walk goes on.
            cases p with
            | nil =>
                obtain ⟨rfl, rfl⟩ := List.cons.inj hs
                exact hscan
            | cons e p =>
                obtain ⟨rfl, rfl⟩ := List.cons.inj hs
                rw [piecesFrom_of_none hscan] at h
                rw [List.getLast?_cons, Option.some_or, ← Option.or_some]
                exact ih.mp h p d u rfl
      · intro h
        rw [piecesFrom_eq_map_of_none h, filterMap_value?_plain]

/-- A walk that meets no token passes every character over. -/
theorem piecesFrom_eq_map_plain {before : Option Char} {s : Text}
    (h : (scan.piecesFrom 0 before s).filterMap value? = []) :
    scan.piecesFrom 0 before s = s.map .plain :=
  piecesFrom_eq_map_of_none (filterMap_value?_piecesFrom_eq_nil_iff.mp h)

/-- A text without tokens is left as it is. -/
theorem blankOut_of_tokens_eq_nil {s : Text} (h : scan.tokens s = []) : scan.blankOut s = s := by
  rw [tokens_eq_filterMap] at h
  rw [blankOut_eq_map, pieces, piecesFrom_eq_map_plain h, map_shown_plain]

/-- Nothing is found exactly when there are no tokens. -/
theorem finds_eq_false_iff {s : Text} : scan.finds s = false ↔ scan.tokens s = [] := by
  simp [finds]

/-- A text holds a token when one begins at some place. -/
theorem finds_iff {s : Text} :
    scan.finds s = true ↔ ∃ p c u, s = p ++ c :: u ∧ (scan p.getLast? (c :: u)).isSome = true := by
  rw [← Bool.not_eq_false, finds_eq_false_iff, tokens_eq_filterMap, pieces,
    filterMap_value?_piecesFrom_eq_nil_iff]
  simp [Option.isSome_iff_ne_none]

/-! ## Where tokens and characters come from -/

/-- A token was found by the scanner. -/
theorem exists_of_mem_tokens {value : α} {s : Text} (h : value ∈ scan.tokens s) :
    ∃ before u rest, scan before u = some (value, rest) := by
  -- The induction is on the text, for any number of characters that are still to be skipped.
  have hwalk : ∀ (s : Text) (skip : Nat) (before : Option Char),
      value ∈ (scan.piecesFrom skip before s).filterMap value? →
        ∃ before u rest, scan before u = some (value, rest) := by
    intro s
    induction s with
    | nil =>
        intro skip before h
        cases skip <;> exact absurd h (by simp [piecesFrom])
    | cons c s ih =>
        intro skip before h
        cases skip with
        | succ skip => exact ih skip (some c) (by simpa [piecesFrom] using h)
        | zero =>
            cases hscan : scan before (c :: s) with
            | none =>
                rw [piecesFrom_of_none hscan] at h
                exact ih 0 (some c) h
            | some found =>
                obtain ⟨v, rest⟩ := found
                rw [piecesFrom, hscan] at h
                rcases List.mem_cons.mp h with rfl | h
                · exact ⟨before, c :: s, rest, hscan⟩
                · exact ih _ _ h
  rw [tokens_eq_filterMap] at h
  exact hwalk s 0 none h

/-- A character that is left when the tokens are blanked out is one at which none begins. -/
theorem of_mem_blankOut {c : Char} {s : Text} (h : c ∈ scan.blankOut s) :
    c = ' ' ∨ c ∈ s ∧ ∃ before rest, scan before (c :: rest) = none := by
  -- The induction needs the walk from any place, in the middle of a token too.
  have hwalk : ∀ (s : Text) (skip : Nat) (before : Option Char),
      c ∈ (scan.piecesFrom skip before s).map shown →
        c = ' ' ∨ c ∈ s ∧ ∃ before rest, scan before (c :: rest) = none := by
    intro s
    induction s with
    | nil =>
        intro skip before h
        cases skip <;> exact absurd h (by simp [piecesFrom])
    | cons d s ih =>
        intro skip before h
        have hmore : ∀ {skip before}, c ∈ (scan.piecesFrom skip before s).map shown →
            c = ' ' ∨ c ∈ d :: s ∧ ∃ before rest, scan before (c :: rest) = none :=
          fun h => (ih _ _ h).imp_right (And.imp_left (List.mem_cons_of_mem d))
        cases skip with
        | succ skip => exact hmore (by simpa [piecesFrom] using h)
        | zero =>
            cases hscan : scan before (d :: s) with
            | none =>
                rw [piecesFrom_of_none hscan] at h
                rcases List.mem_cons.mp h with rfl | h
                · exact .inr ⟨List.mem_cons_self, before, s, hscan⟩
                · exact hmore h
            | some found =>
                rw [piecesFrom, hscan] at h
                rcases List.mem_cons.mp h with rfl | h
                · exact .inl rfl
                · exact hmore h
  rw [blankOut_eq_map] at h
  exact hwalk s 0 none h

/-! ## Ink -/

/-- How many characters of a text are not blank. -/
def ink (s : Text) : Nat := s.countP (!isBlank ·)

/-- The ink of two texts is added. -/
theorem ink_append (s t : Text) : ink (s ++ t) = ink s + ink t := List.countP_append

/-- Texts with the same words have the same ink. -/
theorem ink_eq_of_words_eq {s t : Text} (h : words s = words t) : ink s = ink t := by
  rw [ink, ink, List.countP_eq_length_filter, List.countP_eq_length_filter, ← flatten_words,
    ← flatten_words, h]

/-- Every token that is met takes ink off the text. -/
theorem ink_piecesFrom_le (hl : scan.Lawful) (before : Option Char) (s : Text) :
    ink ((scan.piecesFrom 0 before s).map shown) +
      ((scan.piecesFrom 0 before s).filterMap value?).length ≤ ink s := by
  match s with
  | [] => simp [piecesFrom, ink]
  | c :: s =>
      cases h : scan before (c :: s) with
      | none =>
          have ih := ink_piecesFrom_le hl (some c) s
          rw [piecesFrom_of_none h]
          simp only [ink, List.map_cons, shown, List.countP_cons, List.filterMap_cons, value?]
            at ih ⊢
          omega
      | some found =>
          obtain ⟨value, rest⟩ := found
          obtain ⟨d, w, heq, hd⟩ := hl.consumes h
          have hlen : rest.length ≤ s.length := by
            have := congrArg List.length heq
            simp only [List.length_append, List.length_cons] at this
            omega
          -- The first character of the token is ink, and it is shown as a space.
          have ih := ink_piecesFrom_le hl (d :: w).getLast? rest
          rw [heq] at h ⊢
          rw [piecesFrom_of_some h]
          simp only [ink, List.map_cons, shown, List.countP_cons, List.filterMap_cons, value?,
            List.length_cons, List.cons_append, List.countP_append, hd, isBlank_space] at ih ⊢
          simp only [Bool.not_true, Bool.not_false, Bool.false_eq_true, if_true, if_false]
          omega
termination_by s.length

/-- Each token that is blanked out takes ink off the text. -/
theorem ink_blankOut_le (hl : scan.Lawful) (s : Text) :
    ink (scan.blankOut s) + (scan.tokens s).length ≤ ink s := by
  rw [blankOut_eq_map, tokens_eq_filterMap]
  exact ink_piecesFrom_le hl none s

/-- A text that keeps its ink when its tokens are blanked out has none. -/
theorem tokens_eq_nil_of_ink_le (hl : scan.Lawful) {s : Text}
    (h : ink s ≤ ink (scan.blankOut s)) : scan.tokens s = [] := by
  have := ink_blankOut_le hl s
  exact List.length_eq_zero_iff.mp (by omega)

end Checklist.Scanner
