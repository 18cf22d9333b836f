import Checklist.Text.Basic

/-!
# Order — lists by the first items that differ, texts by their code points

`lexLe` carries an order of items over to lists: at the first place where two lists differ the items
decide, and a list comes before its continuations. It is a total order whenever the order of the
items is one (`lexLe_total`, `lexLe_trans`, `lexLe_antisymm`). Texts are ordered by the code points
of their characters.
-/

namespace Checklist

section Lists

variable {α : Type} [DecidableEq α] {le : α → α → Bool}

/-- Whether the first list does not come after the second. -/
def lexLe (le : α → α → Bool) : List α → List α → Bool
  | [], _ => true
  | _ :: _, [] => false
  | a :: s, b :: t => if a = b then lexLe le s t else le a b

theorem lexLe_total (total : ∀ a b, (le a b || le b a) = true) (s t : List α) :
    (lexLe le s t || lexLe le t s) = true := by
  induction s generalizing t with
  | nil => simp [lexLe]
  | cons a s ih =>
    cases t with
    | nil => simp [lexLe]
    | cons b t =>
      by_cases h : a = b
      · subst h
        simpa [lexLe] using ih t
      · simpa [lexLe, h, Ne.symm h] using total a b

theorem lexLe_antisymm (antisymm : ∀ a b, le a b = true → le b a = true → a = b) (s t : List α)
    (hst : lexLe le s t = true) (hts : lexLe le t s = true) : s = t := by
  induction s generalizing t with
  | nil => cases t <;> simp_all [lexLe]
  | cons a s ih =>
    cases t with
    | nil => simp [lexLe] at hst
    | cons b t =>
      by_cases h : a = b
      · subst h
        simp only [lexLe, if_true] at hst hts
        rw [ih t hst hts]
      · simp only [lexLe, if_neg h, if_neg (Ne.symm h)] at hst hts
        exact absurd (antisymm a b hst hts) h

theorem lexLe_trans (trans : ∀ a b c, le a b = true → le b c = true → le a c = true)
    (antisymm : ∀ a b, le a b = true → le b a = true → a = b) (s t u : List α)
    (hst : lexLe le s t = true) (htu : lexLe le t u = true) : lexLe le s u = true := by
  induction s generalizing t u with
  | nil => rfl
  | cons a s ih =>
    cases t with
    | nil => simp [lexLe] at hst
    | cons b t =>
      cases u with
      | nil => simp [lexLe] at htu
      | cons c u =>
        -- The first characters that differ decide, in whichever of the two pairs they are.
        by_cases hab : a = b
        · subst hab
          by_cases hac : a = c
          · subst hac
            simp only [lexLe, if_true] at hst htu ⊢
            exact ih t u hst htu
          · simpa [lexLe, hac] using htu
        · simp only [lexLe, if_neg hab] at hst
          by_cases hbc : b = c
          · subst hbc
            simpa [lexLe, hab] using hst
          · simp only [lexLe, if_neg hbc] at htu
            have hac : a ≠ c := by
              rintro rfl
              exact hab (antisymm a b hst htu)
            simpa [lexLe, hac] using trans a b c hst htu

end Lists

namespace Text

/-- Whether the code point of the first character is not the larger one. -/
def charLe (c d : Char) : Bool := decide (c.toNat ≤ d.toNat)

theorem charLe_total (c d : Char) : (charLe c d || charLe d c) = true := by
  simpa [charLe] using Nat.le_total c.toNat d.toNat

theorem charLe_antisymm (c d : Char) (hcd : charLe c d = true) (hdc : charLe d c = true) :
    c = d := by
  simp only [charLe, decide_eq_true_eq] at hcd hdc
  exact Char.toNat_inj.mp (Nat.le_antisymm hcd hdc)

theorem charLe_trans (c d e : Char) (hcd : charLe c d = true) (hde : charLe d e = true) :
    charLe c e = true := by
  simp only [charLe, decide_eq_true_eq] at hcd hde ⊢
  exact Nat.le_trans hcd hde

/-- Whether the first text does not come after the second. -/
def le (s t : Text) : Bool := lexLe charLe s t

theorem le_total (s t : Text) : (le s t || le t s) = true := lexLe_total charLe_total s t

theorem le_antisymm {s t : Text} (hst : le s t = true) (hts : le t s = true) : s = t :=
  lexLe_antisymm charLe_antisymm s t hst hts

theorem le_trans {s t u : Text} (hst : le s t = true) (htu : le t u = true) : le s u = true :=
  lexLe_trans charLe_trans charLe_antisymm s t u hst htu

end Text

end Checklist
