/-!
# Text — a note, a line or a word as a list of characters

Everything the library reads or writes is a `Text`. This module holds the operations that know no
character class: cutting at a separator, joining, looking for a part. Cutting and joining undo each
other (`joinWith_splitOn`, `splitOn_joinWith`), and a part is found exactly when the text can be
written around it (`occursIn_iff`).
-/

namespace Checklist

/-- A text is the list of its characters. -/
abbrev Text := List Char

namespace Text

section Lists

variable {α : Type}

/-- The pieces between the separators; a list without one is its own single piece. -/
def splitOn [DecidableEq α] (sep : α) : List α → List (List α)
  | [] => [[]]
  | c :: s =>
    if c = sep then [] :: splitOn sep s
    else match splitOn sep s with
      | [] => [[c]]
      | piece :: pieces => (c :: piece) :: pieces

/-- The lists in order, with `sep` between neighbours. -/
def joinWith (sep : List α) : List (List α) → List α
  | [] => []
  | [t] => t
  | t :: u :: rest => t ++ sep ++ joinWith sep (u :: rest)

/-- Cut at the first `sep`: what stands before it and what stands after it. -/
def cutAt? [DecidableEq α] (sep : α) : List α → Option (List α × List α)
  | [] => none
  | c :: s =>
    if c = sep then some ([], s)
    else (cutAt? sep s).map fun cut => (c :: cut.1, cut.2)

end Lists

/-- Whether `part` stands somewhere in the text. -/
def occursIn (part : Text) : Text → Bool
  | [] => part.isEmpty
  | c :: s => part.isPrefixOf (c :: s) || occursIn part s

/-- The text after `part` when the text begins with it. -/
def dropStart? : Text → Text → Option Text
  | [], s => some s
  | _ :: _, [] => none
  | p :: part, c :: s => if p = c then dropStart? part s else none

/-- The first occurrence of each non-empty text, in order. -/
def distinct (texts : List Text) : List Text :=
  texts.foldl (fun seen t => if t.isEmpty || seen.contains t then seen else seen ++ [t]) []

section Lists

variable {α : Type} [DecidableEq α]

/-- There is always a piece. -/
theorem splitOn_ne_nil (sep : α) (s : List α) : splitOn sep s ≠ [] := by
  cases s with
  | nil => simp [splitOn]
  | cons c s =>
    unfold splitOn
    split
    · simp
    · split <;> simp

omit [DecidableEq α] in
theorem joinWith_cons {sep t : List α} {rest : List (List α)} (h : rest ≠ []) :
    joinWith sep (t :: rest) = t ++ sep ++ joinWith sep rest := by
  cases rest with
  | nil => exact absurd rfl h
  | cons u rest => rfl

omit [DecidableEq α] in
/-- Joining two rows of lists puts the separator between them. -/
theorem joinWith_append {sep : List α} {texts more : List (List α)} (htexts : texts ≠ [])
    (hmore : more ≠ []) :
    joinWith sep (texts ++ more) = joinWith sep texts ++ sep ++ joinWith sep more := by
  induction texts with
  | nil => exact absurd rfl htexts
  | cons t rest ih =>
    cases rest with
    | nil => exact joinWith_cons hmore
    | cons u rest =>
      rw [List.cons_append, joinWith_cons (by simp), ih (List.cons_ne_nil u rest),
        joinWith_cons (List.cons_ne_nil u rest)]
      simp only [List.append_assoc]

/-- Joining the pieces with the separator gives the text back. -/
theorem joinWith_splitOn (sep : α) (s : List α) : joinWith [sep] (splitOn sep s) = s := by
  induction s with
  | nil => rfl
  | cons c s ih =>
    unfold splitOn
    split
    · next h => rw [joinWith_cons (splitOn_ne_nil sep s), ih, h]; rfl
    · split
      · next h => exact absurd h (splitOn_ne_nil sep s)
      · next piece pieces h =>
        rw [h] at ih
        cases pieces with
        | nil => simpa [joinWith] using ih
        | cons u rest =>
          rw [joinWith_cons (by simp)] at ih ⊢
          simpa using ih

/-- No piece holds the separator. -/
theorem sep_not_mem_of_mem_splitOn {sep : α} {s piece : List α} (h : piece ∈ splitOn sep s) :
    sep ∉ piece := by
  induction s generalizing piece with
  | nil => simp_all [splitOn]
  | cons c s ih =>
    unfold splitOn at h
    split at h
    · rcases List.mem_cons.mp h with rfl | h
      · simp
      · exact ih h
    · next hc =>
      split at h
      · simp only [List.mem_singleton] at h
        subst h
        simpa using Ne.symm hc
      · next first pieces heq =>
        rcases List.mem_cons.mp h with rfl | h
        · simp only [List.mem_cons, not_or]
          exact ⟨Ne.symm hc, ih (by simp [heq])⟩
        · exact ih (by simp [heq, h])

theorem splitOn_append (sep : α) (u v : List α) :
    splitOn sep (u ++ sep :: v) = splitOn sep u ++ splitOn sep v := by
  induction u with
  | nil => simp [splitOn]
  | cons c u ih =>
    rw [List.cons_append, splitOn, splitOn, ih]
    split
    · rfl
    · cases hu : splitOn sep u with
      | nil => exact absurd hu (splitOn_ne_nil sep u)
      | cons piece pieces => rfl

theorem splitOn_of_not_mem {sep : α} {s : List α} (h : sep ∉ s) : splitOn sep s = [s] := by
  induction s with
  | nil => rfl
  | cons c s ih =>
    rw [List.mem_cons, not_or] at h
    rw [splitOn, if_neg (Ne.symm h.1), ih h.2]

/-- Texts without the separator are the pieces of what they are joined to. -/
theorem splitOn_joinWith {sep : α} {texts : List (List α)} (hne : texts ≠ [])
    (h : ∀ t ∈ texts, sep ∉ t) : splitOn sep (joinWith [sep] texts) = texts := by
  induction texts with
  | nil => exact absurd rfl hne
  | cons t rest ih =>
    obtain ⟨ht, hrest⟩ := List.forall_mem_cons.mp h
    cases rest with
    | nil => exact splitOn_of_not_mem ht
    | cons u rest =>
      rw [joinWith_cons (List.cons_ne_nil u rest), List.append_assoc, List.singleton_append,
        splitOn_append, splitOn_of_not_mem ht, ih (List.cons_ne_nil u rest) hrest,
        List.singleton_append]

end Lists

/-- A part is found exactly when the text can be written around it. -/
theorem occursIn_iff {part s : Text} : occursIn part s = true ↔ ∃ u v, s = u ++ part ++ v := by
  induction s with
  | nil =>
    constructor
    · intro h
      exact ⟨[], [], by simpa [occursIn] using h⟩
    · rintro ⟨u, v, h⟩
      simp_all [occursIn]
  | cons c s ih =>
    rw [occursIn, Bool.or_eq_true, ih, List.isPrefixOf_iff_prefix]
    constructor
    · rintro (⟨v, hv⟩ | ⟨u, v, rfl⟩)
      · exact ⟨[], v, by simp [hv]⟩
      · exact ⟨c :: u, v, by simp⟩
    · rintro ⟨u, v, h⟩
      cases u with
      | nil => exact .inl ⟨v, by simpa using h.symm⟩
      | cons d u =>
        simp only [List.cons_append, List.cons.injEq] at h
        exact .inr ⟨u, v, h.2⟩

/-- What is left after dropping a start is what stands behind it. -/
theorem dropStart?_eq_some_iff {part s rest : Text} :
    dropStart? part s = some rest ↔ s = part ++ rest := by
  induction part generalizing s with
  | nil => simp [dropStart?]
  | cons p part ih =>
    cases s with
    | nil => simp [dropStart?]
    | cons c s =>
      rw [dropStart?]
      split
      · next h => simp [ih, h]
      · next h => simp [Ne.symm h]

end Text

end Checklist
