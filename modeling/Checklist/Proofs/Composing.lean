import Checklist.Proofs.Compiling
import Checklist.Proofs.QueryLines

/-!
# Composing — one query behind another

A row of parts compiles to what its first piece says followed by what the second one says
(`compileParts_append`): each field is that of the second piece where that sets it, so a directive
of no use leaves an earlier one in force, while the texts to look for add up (`Spec.followedBy`).

Queries of several lines are cut into lines independently of each other, and what stands behind the
first of them can not be taken for a heading. So putting one below another composes their
specifications, as long as the second does not begin with a heading of its own
(`compileQuery_append_newline`).
-/

namespace Checklist

open Text

/-! ## What two specifications say one after the other -/

namespace Spec

/-- Both together: where both set a field the second one wins, but for the texts to look for, which
stand side by side. -/
def followedBy (a b : Spec) : Spec :=
  { a.merge b with freeText := a.freeText.merge (fun s t => s ++ ' ' :: t) b.freeText }

end Spec

/-- The texts to look for in a row of parts are those of its two pieces, with a space between. -/
theorem freeText?_append (ps rs : List Text) :
    freeText? (ps ++ rs) = (freeText? ps).merge (fun s t => s ++ ' ' :: t) (freeText? rs) := by
  show (unlessEmpty ((ps ++ rs).filter isFree)).map (joinWith [' ']) =
    ((unlessEmpty (ps.filter isFree)).map (joinWith [' '])).merge (fun s t => s ++ ' ' :: t)
      ((unlessEmpty (rs.filter isFree)).map (joinWith [' ']))
  rw [List.filter_append]
  cases ps.filter isFree with
  | nil =>
      rw [List.nil_append]
      exact Option.merge_none_left.symm
  | cons p free =>
      cases rs.filter isFree with
      | nil =>
          rw [List.append_nil]
          exact Option.merge_none_right.symm
      | cons r others =>
          have hjoin : joinWith [' '] (p :: free ++ r :: others) =
              joinWith [' '] (p :: free) ++ ' ' :: joinWith [' '] (r :: others) := by
            rw [joinWith_append (List.cons_ne_nil p free) (List.cons_ne_nil r others),
              List.append_assoc, List.singleton_append]
          exact congrArg some hjoin

/-- A row of parts says what its two pieces say one after the other. -/
theorem compileParts_append (today : Date) (ps rs : List Text) :
    compileParts today (ps ++ rs) = (do
      let a ← compileParts today ps
      let b ← compileParts today rs
      .ok (a.followedBy b)) := by
  unfold compileParts
  rw [mergePatches_append, freeText?_append]
  cases mergePatches today ps with
  | error e => rfl
  | ok a =>
      cases mergePatches today rs with
      | error e => rfl
      | ok b => rfl

/-! ## One query below another -/

/-- Whether the first line of a query that is not blank is a heading. -/
def HasHeading (q : Text) : Prop :=
  ∃ line ∈ (lineParts (normalizeQuery q)).head?, lower line = queryHeading

instance (q : Text) : Decidable (HasHeading q) :=
  match h : (lineParts (normalizeQuery q)).head? with
  | none => .isFalse fun ⟨_, hline, _⟩ => by simp [h] at hline
  | some line => decidable_of_iff (lower line = queryHeading) (by simp [HasHeading, h])

theorem dropHeading_of_not_hasHeading {q : Text} (h : ¬ HasHeading q) :
    dropHeading (lineParts (normalizeQuery q)) = lineParts (normalizeQuery q) := by
  cases hparts : lineParts (normalizeQuery q) with
  | nil => rfl
  | cons line rest =>
      have hheading : lower line ≠ queryHeading := fun hheading =>
        h ⟨line, by rw [hparts]; rfl, hheading⟩
      exact if_neg hheading

/-- A text that holds something has a part. -/
theorem lineParts_ne_nil {s : Text} (h : trim s ≠ []) : lineParts s ≠ [] := by
  induction s using boundary_induction with
  | free w hw =>
      rw [lineParts_of_not_boundary hw, List.filter_cons_of_pos (by simp [h])]
      exact List.cons_ne_nil _ _
  | cut w c s hw hc ih =>
      rw [lineParts_line_append hw hc]
      by_cases hs : trim s = []
      · -- The rest is blank, so the line holds something.
        have hfilled : trim w ≠ [] := by
          intro hblank
          refine h (trim_eq_nil_iff.mpr fun d hd => ?_)
          rcases List.mem_append.mp hd with hd | hd
          · exact trim_eq_nil_iff.mp hblank d hd
          · rcases List.mem_cons.mp hd with rfl | hd
            · exact isBlank_of_isBoundary hc
            · exact trim_eq_nil_iff.mp hs d hd
        rw [lineParts_of_not_boundary hw, List.filter_cons_of_pos (by simp [hfilled])]
        exact List.cons_ne_nil _ _
      · exact List.append_ne_nil_of_right_ne_nil _ (ih hs)

/-- What is left of two queries without invisible characters. -/
theorem normalizeQuery_append_newline (q₁ q₂ : Text) :
    normalizeQuery (q₁ ++ '\n' :: q₂) =
      trim (q₁.filter (!isInvisible ·) ++ ['\n'] ++ q₂.filter (!isInvisible ·)) := by
  simp [normalizeQuery, isInvisible]

/-- Two queries, one below the other, have the parts of the first and then those of the second. -/
theorem lineParts_append_newline (q₁ q₂ : Text) :
    lineParts (normalizeQuery (q₁ ++ '\n' :: q₂)) =
      lineParts (normalizeQuery q₁) ++ lineParts (normalizeQuery q₂) := by
  rw [normalizeQuery_append_newline, lineParts_trim, List.append_assoc, List.singleton_append,
    lineParts_append_boundary (by decide), normalizeQuery, normalizeQuery, lineParts_trim,
    lineParts_trim]

variable {q₁ q₂ : Text}

/-- Two queries that hold something are on several lines together. -/
theorem newline_mem_append (h₁ : normalizeQuery q₁ ≠ []) (h₂ : normalizeQuery q₂ ≠ []) :
    '\n' ∈ normalizeQuery (q₁ ++ '\n' :: q₂) := by
  rw [normalizeQuery_append_newline, trim_append_append h₁ h₂]
  simp

/-- Putting a query of several lines below another composes them: each field is set as the second
query sets it, or else as the first one does, and the texts to look for stand side by side. It fails
when one of them does. -/
theorem compileQuery_append_newline (h₁ : '\n' ∈ normalizeQuery q₁)
    (h₂ : '\n' ∈ normalizeQuery q₂) (hheading : ¬ HasHeading q₂) (today : Date) :
    compileQuery (q₁ ++ '\n' :: q₂) today = (do
      let a ← compileQuery q₁ today
      let b ← compileQuery q₂ today
      .ok (a.followedBy b)) := by
  have hfilled₁ : normalizeQuery q₁ ≠ [] := List.ne_nil_of_mem h₁
  have hfilled₂ : normalizeQuery q₂ ≠ [] := List.ne_nil_of_mem h₂
  have hparts : lineParts (normalizeQuery q₁) ≠ [] := by
    refine lineParts_ne_nil ?_
    rwa [normalizeQuery, trim_trim]
  simp only [compileQuery_eq]
  rw [splitQuery_of_newline (newline_mem_append hfilled₁ hfilled₂), splitQuery_of_newline h₁,
    splitQuery_of_newline h₂, lineParts_append_newline, dropHeading_append_of_ne_nil hparts,
    dropHeading_of_not_hasHeading hheading, compileParts_append]

/-- A bound of no use leaves the earlier one in force, a later window replaces the earlier one as a
whole, and the texts to look for add up. -/
theorem compileQuery_append_newline_shopping :
    '\n' ∈ normalizeQuery "tasks\nlimit: 3\nDUE: >2024-07-01\nmilk".toList ∧
      '\n' ∈ normalizeQuery "limit: none\ndue: <2024-08-01\nbread".toList ∧
      ¬ HasHeading "limit: none\ndue: <2024-08-01\nbread".toList ∧
      compileQuery ("tasks\nlimit: 3\nDUE: >2024-07-01\nmilk".toList ++
          '\n' :: "limit: none\ndue: <2024-08-01\nbread".toList) .first =
        .ok { dueWindow := some ⟨none, some ⟨2024, 8, 1, by decide⟩⟩, limit := some 3,
              freeText := some "milk bread".toList } := by
  have hfirst : '\n' ∈ normalizeQuery "tasks\nlimit: 3\nDUE: >2024-07-01\nmilk".toList := by
    decide +kernel
  have hsecond : '\n' ∈ normalizeQuery "limit: none\ndue: <2024-08-01\nbread".toList := by
    decide +kernel
  have hheading : ¬ HasHeading "limit: none\ndue: <2024-08-01\nbread".toList := by decide +kernel
  refine ⟨hfirst, hsecond, hheading, ?_⟩
  rw [compileQuery_append_newline hfirst hsecond hheading]
  decide +kernel

end Checklist
