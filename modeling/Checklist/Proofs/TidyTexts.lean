import Checklist.Proofs.Directives
import Checklist.Proofs.Trimming

/-!
# Tidy texts — texts that hold something and have no blanks at their ends

A text is tidy when something is left of it that trimming does not change (`IsTidy`). Words are
tidy, and so are tidy texts that are joined (`isTidy_joinWith`). Lowering the case keeps a text tidy
(`IsTidy.lower`): the lowercase form of a character is one or two characters, which are blank only
when the character is (`lowerFrom_cons`).
-/

namespace Checklist.Text

/-- The text holds something, and no blanks at its ends. -/
def IsTidy (s : Text) : Prop := s ≠ [] ∧ trim s = s

theorem isTidy_trim {s : Text} (h : trim s ≠ []) : IsTidy (trim s) := ⟨h, trim_trim s⟩

/-- A text is tidy when both of its ends are there and no blanks. -/
theorem isTidy_iff {s : Text} :
    IsTidy s ↔ (∃ c, s.head? = some c ∧ isBlank c = false) ∧
      ∃ c, s.getLast? = some c ∧ isBlank c = false := by
  constructor
  · rintro ⟨hne, htrim⟩
    obtain ⟨c, hc⟩ := Option.ne_none_iff_exists'.mp (mt List.head?_eq_none_iff.mp hne)
    obtain ⟨d, hd⟩ := Option.ne_none_iff_exists'.mp (mt List.getLast?_eq_none_iff.mp hne)
    rw [← htrim] at hc hd
    refine ⟨⟨c, ?_, isBlank_of_head_trim hc⟩, d, ?_, isBlank_of_getLast_trim hd⟩
    · rwa [htrim] at hc
    · rwa [htrim] at hd
  · rintro ⟨⟨c, hc, hblank⟩, d, hd, hblank'⟩
    refine ⟨?_, trim_eq_self ?_ ?_⟩
    · rintro rfl
      exact absurd hc (by simp)
    · intro e he
      obtain rfl := Option.some.inj (hc.symm.trans he)
      exact hblank
    · intro e he
      obtain rfl := Option.some.inj (hd.symm.trans he)
      exact hblank'

theorem isTidy_of_mem_words {w s : Text} (h : w ∈ words s) : IsTidy w :=
  ⟨ne_nil_of_mem_words h, trim_of_not_blank (not_isBlank_of_mem_words h)⟩

/-- Tidy texts that are joined make a tidy text. -/
theorem isTidy_joinWith {sep : Text} {texts : List Text} (hne : texts ≠ [])
    (h : ∀ t ∈ texts, IsTidy t) : IsTidy (joinWith sep texts) := by
  have hfilled : ∀ t ∈ texts, t ≠ [] := fun t ht => (h t ht).1
  obtain ⟨first, hfirst⟩ := Option.ne_none_iff_exists'.mp (mt List.head?_eq_none_iff.mp hne)
  obtain ⟨final, hfinal⟩ := Option.ne_none_iff_exists'.mp (mt List.getLast?_eq_none_iff.mp hne)
  obtain ⟨hhead, -⟩ := isTidy_iff.mp (h first (List.mem_of_head? hfirst))
  obtain ⟨-, hlast⟩ := isTidy_iff.mp (h final (List.mem_of_getLast? hfinal))
  rw [isTidy_iff, head?_joinWith hfilled, getLast?_joinWith hfilled, hfirst, hfinal]
  exact ⟨hhead, hlast⟩

/-! ## Lowercase forms -/

/-- A number is the code point of its character, or of none and stands for NUL. -/
theorem toNat_ofNat (n : Nat) : (Char.ofNat n).toNat = n ∨ Char.ofNat n = '\x00' := by
  by_cases hvalid : n.isValidChar
  · rw [Char.ofNat, dif_pos hvalid]
    exact .inl rfl
  · rw [Char.ofNat, dif_neg hvalid]
    exact .inr rfl

/-- The lowercase form of a character that is no blank has no blank in it. -/
theorem isBlank_of_mem_lowerChar {c d : Char} (hc : isBlank c = false) (hd : d ∈ lowerChar c) :
    isBlank d = false := by
  have hdot : ∀ d ∈ ['i', '\u0307'], isBlank d = false := forall_mem_of_all (by decide +kernel)
  have hsigma : isBlank 'σ' = false := by decide +kernel
  unfold lowerChar at hd
  split at hd
  · exact hdot d hd
  split at hd
  · rwa [List.mem_singleton.mp hd]
  rw [List.mem_singleton.mp hd]
  rcases caseShift_eq_zero_or_mem caseRuns c.toNat with hzero | ⟨run, hmem, hlo, hhi, hshift⟩
  · rwa [hzero, Int.add_zero, Int.toNat_natCast, Char.ofNat_toNat]
  -- No run of letters is shifted into a stretch of blanks.
  have hall : ∀ run ∈ caseRuns, ∀ range ∈ blankRanges, 0 < range.1 ∧
      (run.last + run.shift < range.1 ∨ (range.2 : Int) < run.first + run.shift) := by
    decide +kernel
  rw [hshift]
  rcases toNat_ofNat (c.toNat + run.shift).toNat with hcode | hnul
  · by_contra hblank
    obtain ⟨range, hrange, hlow, hhigh⟩ :=
      exists_of_inRanges ((Bool.not_eq_false _).mp hblank)
    rw [hcode] at hlow hhigh
    have := hall run hmem range hrange
    omega
  · rw [hnul]
    decide

/-- The first character of a text gives at least one character of the lowercase form, and no blank
when it is none itself. -/
theorem lowerFrom_cons (afterCased : Bool) (c : Char) (s : Text) :
    ∃ piece next, lowerFrom afterCased (c :: s) = piece ++ lowerFrom next s ∧ piece ≠ [] ∧
      (isBlank c = false → ∀ d ∈ piece, isBlank d = false) := by
  have hfinal : ∀ d ∈ ['ς'], isBlank d = false := forall_mem_of_all (by decide +kernel)
  refine ⟨_, _, rfl, ?_, ?_⟩
  · split
    · exact List.cons_ne_nil _ _
    · unfold lowerChar
      split
      · exact List.cons_ne_nil _ _
      · split <;> exact List.cons_ne_nil _ _
  · intro hc d hd
    split at hd
    · exact hfinal d hd
    · exact isBlank_of_mem_lowerChar hc hd

theorem exists_getLast_lowerFrom {s : Text} (h : ∃ c, s.getLast? = some c ∧ isBlank c = false)
    (afterCased : Bool) :
    ∃ d, (lowerFrom afterCased s).getLast? = some d ∧ isBlank d = false := by
  induction s generalizing afterCased with
  | nil =>
      obtain ⟨c, hc, -⟩ := h
      exact absurd hc (by simp)
  | cons c s ih =>
      obtain ⟨piece, next, heq, hne, hpiece⟩ := lowerFrom_cons afterCased c s
      rw [heq]
      cases s with
      | nil =>
          obtain ⟨e, he, hblank⟩ := h
          obtain rfl : c = e := Option.some.inj he
          obtain ⟨d, hd⟩ := Option.ne_none_iff_exists'.mp (mt List.getLast?_eq_none_iff.mp hne)
          exact ⟨d, by rwa [lowerFrom, List.append_nil],
            hpiece hblank d (List.mem_of_getLast? hd)⟩
      | cons e s =>
          rw [List.getLast?_cons_cons] at h
          obtain ⟨d, hd, hblank⟩ := ih h next
          exact ⟨d, by rw [List.getLast?_append, hd]; rfl, hblank⟩

/-- In lower case a tidy text is tidy. -/
theorem IsTidy.lower {s : Text} (h : IsTidy s) : IsTidy (lower s) := by
  obtain ⟨⟨c, hc, hblank⟩, hlast⟩ := isTidy_iff.mp h
  refine isTidy_iff.mpr ⟨?_, exists_getLast_lowerFrom hlast false⟩
  cases s with
  | nil => exact absurd hc (by simp)
  | cons e s =>
      obtain rfl : e = c := Option.some.inj hc
      obtain ⟨piece, next, heq, hne, hpiece⟩ := lowerFrom_cons false e s
      obtain ⟨d, hd⟩ := Option.ne_none_iff_exists'.mp (mt List.head?_eq_none_iff.mp hne)
      refine ⟨d, ?_, hpiece hblank d (List.mem_of_head? hd)⟩
      rw [Text.lower, heq, List.head?_append, hd]
      rfl

end Checklist.Text
