import Mathlib.Data.List.Forall2
import Checklist.Proofs.Characters
import Checklist.Query.Directive

/-!
# Directives — where a keyword stands at the start of a text

A directive is found in the lowercase form of a text, but its value is cut from the text itself.
Both fit together because a lowercase form can begin with a keyword only when the text does, letter
by letter up to case (`isPrefix_lowerFrom_iff`): apart from the capitals of the same letters, the
two characters whose lowercase forms begin with a letter of the alphabet are the Kelvin sign, whose
`k` is in no keyword, and the dotted capital I, behind whose `i` a dot follows. No text begins with
two keywords, so what `matchDirective` finds is described by one such start
(`matchDirective_eq_some_iff`), and the value is what stands behind it
(`matchDirective_cuts_behind_keyword`).
-/

namespace Checklist

namespace Text

/-! ## Letters in any case -/

/-- The characters are the same, or they are the two forms of a letter from `A` to `Z`. -/
inductive SameButCase : Char → Char → Prop
  | same (c : Char) : SameButCase c c
  | small {c d : Char} (h : c.isUpper = true) (hd : d.toNat = c.toNat + 32) : SameButCase c d
  | capital {c d : Char} (h : d.isUpper = true) (hc : c.toNat = d.toNat + 32) : SameButCase c d

/-- The capitals are the 26 ASCII ones. -/
theorem isUpper_iff {c : Char} : c.isUpper = true ↔ 65 ≤ c.toNat ∧ c.toNat ≤ 90 :=
  decide_eq_true_iff

/-- A capital is moved up by 32, and every other character stays. -/
theorem toNat_toLower (c : Char) :
    c.toLower.toNat = if 65 ≤ c.toNat ∧ c.toNat ≤ 90 then c.toNat + 32 else c.toNat := by
  unfold Char.toLower
  split
  · next h =>
      have hcode : 65 ≤ c.toNat ∧ c.toNat ≤ 90 := h
      rw [if_pos hcode]
      show (c.toNat + 32) % 2 ^ 32 = c.toNat + 32
      omega
  · next h => exact (if_neg h).symm

/-- Two characters differ in case only when their lowercase forms agree. -/
theorem sameButCase_iff {c d : Char} : SameButCase c d ↔ c.toLower = d.toLower := by
  rw [← Char.toNat_inj, toNat_toLower, toNat_toLower]
  constructor
  · intro h
    cases h with
    | same => rfl
    | small h hd =>
        have hc := isUpper_iff.mp h
        rw [if_pos hc, if_neg (by omega), hd]
    | capital h hc =>
        have hd := isUpper_iff.mp h
        rw [if_neg (by omega), if_pos hd, hc]
  · intro h
    split at h
    · next hc =>
        split at h
        · obtain rfl : c = d := Char.toNat_inj.mp (by omega)
          exact .same c
        · exact .small (isUpper_iff.mpr hc) h.symm
    · split at h
      · next hd => exact .capital (isUpper_iff.mpr hd) h
      · obtain rfl : c = d := Char.toNat_inj.mp h
        exact .same c

/-- Texts agree letter by letter, up to case, when their plain lowercase forms are the same. -/
theorem forall₂_sameButCase_iff {s t : Text} :
    List.Forall₂ SameButCase s t ↔ s.map Char.toLower = t.map Char.toLower := by
  have heq : s.map Char.toLower = t.map Char.toLower ↔
      List.Forall₂ (· = ·) (s.map Char.toLower) (t.map Char.toLower) := by
    rw [List.forall₂_eq_eq_eq]
  rw [heq, List.forall₂_map_left_iff, List.forall₂_map_right_iff]
  exact ⟨List.Forall₂.imp fun _ _ => sameButCase_iff.mp,
    List.Forall₂.imp fun _ _ => sameButCase_iff.mpr⟩

/-! ## Lowercase forms -/

/-- Below 128 the lowercase form is the plain one. -/
theorem lowerChar_of_ascii {c : Char} (h : c.toNat < 128) : lowerChar c = [c.toLower] := by
  have hall : ∀ n ∈ List.range 128, lowerChar (Char.ofNat n) = [(Char.ofNat n).toLower] := by
    decide +kernel
  exact of_ascii (P := fun c => lowerChar c = [c.toLower]) hall h

/-- This lowercase form does nothing outside ASCII. -/
theorem toLower_of_not_ascii {c : Char} (h : 128 ≤ c.toNat) : c.toLower = c := by
  unfold Char.toLower
  rw [dif_neg]
  intro hcapital
  have hz : c.toNat ≤ 90 := UInt32.le_iff_toNat_le.mp hcapital.2
  omega

/-- A shift in the table belongs to a run that holds the code point. -/
theorem caseShift_eq_zero_or_mem (runs : List CaseRun) (n : Nat) :
    caseShift runs n = 0 ∨
      ∃ run ∈ runs, run.first ≤ n ∧ n ≤ run.last ∧ caseShift runs n = run.shift := by
  induction runs with
  | nil => exact .inl rfl
  | cons run runs ih =>
      unfold caseShift
      split
      · exact .inl rfl
      · next hfirst =>
          split
          · next hlast => exact .inr ⟨run, by simp, by omega, hlast.1, rfl⟩
          · rcases ih with h | ⟨other, hmem, h⟩
            · exact .inl h
            · exact .inr ⟨other, by simp [hmem], h⟩

/-- From 128 on the Kelvin sign is the only code point that has one below 128 as its lowercase
form. -/
theorem le_shifted_of_not_ascii {n : Nat} (h : 128 ≤ n) (hkelvin : n ≠ 0x212A) :
    128 ≤ (n + caseShift caseRuns n).toNat := by
  have hall : ∀ run ∈ caseRuns, run.last < 128 ∨ 128 ≤ (run.first + run.shift : Int) ∨
      run.first = 0x212A ∧ run.last = 0x212A := by decide +kernel
  rcases caseShift_eq_zero_or_mem caseRuns n with hzero | ⟨run, hmem, hfirst, hlast, hshift⟩
  · omega
  · rcases hall run hmem with hrun | hrun | hrun <;> omega

/-- The letters that keywords and directions are made of, which are lowercase forms of no letters
but their own capitals. -/
def isPlain (c : Char) : Bool := c.toNat < 128 && c ≠ 'k' && c ≠ '\x00'

/-- Plain characters are ASCII. -/
theorem isPlain_ascii {c : Char} (h : isPlain c = true) : c.toNat < 128 := by
  simp only [isPlain, Bool.and_eq_true, decide_eq_true_eq] at h
  exact h.1.1

/-- The lowercase form of another letter is no plain letter, or it is an `i` with a dot. -/
theorem lowerChar_of_not_ascii {c : Char} (h : 128 ≤ c.toNat) :
    lowerChar c = ['i', '\u0307'] ∨ ∃ d, isPlain d = false ∧ lowerChar c = [d] := by
  unfold lowerChar
  split
  · exact .inl rfl
  · right
    split
    · exact ⟨'σ', by decide, rfl⟩
    · refine ⟨_, ?_, rfl⟩
      -- The sign for kelvin becomes a "k", which is why that letter is not plain.
      by_cases hkelvin : c.toNat = 0x212A
      · rw [hkelvin]
        decide +kernel
      · have hshift := le_shifted_of_not_ascii h hkelvin
        generalize (c.toNat + caseShift caseRuns c.toNat).toNat = n at hshift
        by_cases hvalid : n.isValidChar
        · have hcode : (Char.ofNat n).toNat = n := by
            rw [Char.ofNat, dif_pos hvalid]
            rfl
          simp only [isPlain, hcode, Bool.and_eq_false_iff, decide_eq_false_iff_not]
          exact .inl (.inl (by omega))
        · rw [Char.ofNat, dif_neg hvalid]
          rfl

/-- In ASCII, the lowercase form of a text goes character by character. -/
theorem lowerFrom_cons_of_ascii {c : Char} (h : c.toNat < 128) (afterCased : Bool) (s : Text) :
    ∃ next, lowerFrom afterCased (c :: s) = c.toLower :: lowerFrom next s := by
  refine ⟨if isCaseIgnorable c then afterCased else isCased c, ?_⟩
  have hsigma : c ≠ 'Σ' := by
    rintro rfl
    exact absurd h (by decide)
  simp [lowerFrom, hsigma, lowerChar_of_ascii h]

/-- A character outside ASCII becomes an `i` with a dot, or one character that is not plain. -/
theorem lowerFrom_cons_of_not_ascii {c : Char} (h : 128 ≤ c.toNat) (afterCased : Bool) (s : Text) :
    ∃ next, lowerFrom afterCased (c :: s) = 'i' :: '\u0307' :: lowerFrom next s ∨
      ∃ d, isPlain d = false ∧ lowerFrom afterCased (c :: s) = d :: lowerFrom next s := by
  refine ⟨if isCaseIgnorable c then afterCased else isCased c, ?_⟩
  simp only [lowerFrom]
  split
  · exact .inr ⟨'ς', by decide, rfl⟩
  · rcases lowerChar_of_not_ascii h with hdot | ⟨d, hd, hone⟩
    · exact .inl (by rw [hdot]; rfl)
    · exact .inr ⟨d, hd, by rw [hone]; rfl⟩

/-- Behind another letter no lowercase form begins with plain letters, but for a single `i`. -/
theorem not_isPrefix_lowerFrom_of_not_ascii {c d : Char} {a : Text} (hc : 128 ≤ c.toNat)
    (ha : ∀ e ∈ d :: a, isPlain e = true) (hlast : (d :: a).getLast? ≠ some 'i')
    (afterCased : Bool) (s : Text) : ¬ d :: a <+: lowerFrom afterCased (c :: s) := by
  intro hprefix
  obtain ⟨next, hdot | ⟨e, he, hone⟩⟩ := lowerFrom_cons_of_not_ascii hc afterCased s
  · rw [hdot, List.cons_prefix_cons] at hprefix
    obtain ⟨rfl, hprefix⟩ := hprefix
    cases a with
    | nil => exact hlast rfl
    | cons e a =>
        rw [List.cons_prefix_cons] at hprefix
        obtain ⟨rfl, -⟩ := hprefix
        exact absurd (ha '\u0307' (by simp)) (by decide)
  · rw [hone, List.cons_prefix_cons] at hprefix
    obtain ⟨rfl, -⟩ := hprefix
    exact absurd (ha d (by simp)) (by simp [he])

/-- Letters that are plain in lower case are plain, or capitals of plain letters. -/
theorem ascii_of_isPlain_toLower {c : Char} (h : isPlain c.toLower = true) : c.toNat < 128 := by
  by_contra hc
  rw [toLower_of_not_ascii (Nat.not_lt.mp hc)] at h
  exact hc (isPlain_ascii h)

/-- The lowercase form of a text begins with plain letters exactly when the text does, up to case.
-/
theorem isPrefix_lowerFrom_iff {a : Text} (ha : ∀ d ∈ a, isPlain d = true)
    (hlast : a.getLast? ≠ some 'i') (afterCased : Bool) (s : Text) :
    a <+: lowerFrom afterCased s ↔ ∃ p rest, s = p ++ rest ∧ p.map Char.toLower = a := by
  induction a generalizing afterCased s with
  | nil => exact ⟨fun _ => ⟨[], s, rfl, rfl⟩, fun _ => List.nil_prefix⟩
  | cons d a ih =>
      cases s with
      | nil => simp [lowerFrom]
      | cons c s =>
          have hstart : (∃ p rest, c :: s = p ++ rest ∧ p.map Char.toLower = d :: a) ↔
              c.toLower = d ∧ ∃ p rest, s = p ++ rest ∧ p.map Char.toLower = a := by
            constructor
            · rintro ⟨p, rest, hs, hp⟩
              cases p with
              | nil => exact absurd hp (by simp)
              | cons e p =>
                  obtain ⟨rfl, rfl⟩ := List.cons.inj hs
                  obtain ⟨hc, hp⟩ := List.cons.inj hp
                  exact ⟨hc, p, rest, rfl, hp⟩
            · rintro ⟨rfl, p, rest, rfl, rfl⟩
              exact ⟨c :: p, rest, rfl, rfl⟩
          rw [hstart]
          -- One step for an ASCII character; any other cannot become a plain letter.
          by_cases hc : c.toNat < 128
          · have hlast' : a.getLast? ≠ some 'i' := by
              intro h
              cases a with
              | nil => simp at h
              | cons e a => exact hlast (by rwa [List.getLast?_cons_cons])
            obtain ⟨next, heq⟩ := lowerFrom_cons_of_ascii hc afterCased s
            rw [heq, List.cons_prefix_cons, ih (fun e he => ha e (by simp [he])) hlast', eq_comm]
          · have hc : 128 ≤ c.toNat := Nat.not_lt.mp hc
            refine iff_of_false (not_isPrefix_lowerFrom_of_not_ascii hc ha hlast afterCased s) ?_
            rintro ⟨rfl, -⟩
            have := ascii_of_isPlain_toLower (ha c.toLower (by simp))
            omega

/-- The lowercase form of a text is a row of plain letters exactly when the text is one, up to
case. -/
theorem lowerFrom_eq_iff {a : Text} (ha : ∀ d ∈ a, isPlain d = true) (afterCased : Bool)
    (s : Text) : lowerFrom afterCased s = a ↔ s.map Char.toLower = a := by
  induction s generalizing a afterCased with
  | nil => exact Iff.rfl
  | cons c s ih =>
      by_cases hc : c.toNat < 128
      · obtain ⟨next, heq⟩ := lowerFrom_cons_of_ascii hc afterCased s
        rw [heq, List.map_cons]
        cases a with
        | nil => simp
        | cons d a => rw [List.cons.injEq, List.cons.injEq, ih fun e he => ha e (by simp [he])]
      · have hc : 128 ≤ c.toNat := Nat.not_lt.mp hc
        refine iff_of_false ?_ ?_
        · rintro rfl
          obtain ⟨next, hdot | ⟨e, he, hone⟩⟩ := lowerFrom_cons_of_not_ascii hc afterCased s
          · exact absurd (ha '\u0307' (by simp [hdot])) (by decide)
          · exact absurd (ha e (by simp [hone])) (by simp [he])
        · rintro rfl
          have := ascii_of_isPlain_toLower (ha c.toLower (by simp))
          omega

/-- A text of characters without case is its own lowercase form. -/
theorem lowerFrom_eq_self {s : Text} (h : ∀ c ∈ s, lowerChar c = [c]) (afterCased : Bool) :
    lowerFrom afterCased s = s := by
  induction s generalizing afterCased with
  | nil => rfl
  | cons c s ih =>
      obtain ⟨hc, hs⟩ := List.forall_mem_cons.mp h
      have hsigma : c ≠ 'Σ' := by
        rintro rfl
        exact absurd hc (by decide)
      simp [lowerFrom, hsigma, hc, ih hs]

/-! ## Blanks -/

/-- Blanks have no case. -/
theorem lowerChar_of_isBlank {c : Char} (h : isBlank c = true) :
    lowerChar c = [c] ∧ c.toLower = c := by
  have hall : ∀ n ∈ points blankRanges,
      lowerChar (Char.ofNat n) = [Char.ofNat n] ∧ (Char.ofNat n).toLower = Char.ofNat n := by
    decide +kernel
  have hc := hall c.toNat (mem_points_of_inRanges h)
  rwa [Char.ofNat_toNat] at hc

/-- The blanks of a text stand in its lowercase form. -/
theorem mem_lowerFrom_of_isBlank {c : Char} {s : Text} (hmem : c ∈ s) (hc : isBlank c = true)
    (afterCased : Bool) : c ∈ lowerFrom afterCased s := by
  induction s generalizing afterCased with
  | nil => exact absurd hmem (by simp)
  | cons d s ih =>
      rw [lowerFrom, List.mem_append]
      rcases List.mem_cons.mp hmem with rfl | hmem
      · have hsigma : c ≠ 'Σ' := by
          rintro rfl
          exact absurd hc (by decide)
        exact .inl (by simp [hsigma, (lowerChar_of_isBlank hc).1])
      · exact .inr (ih hmem _)

end Text

open Text

/-! ## Keywords -/

namespace Keyword

/-- Keywords are written in plain letters. -/
theorem isPlain_of_mem_start {k : Keyword} {c : Char} (h : c ∈ k.start) :
    isPlain c = true ∧ isBlank c = false := by
  have hall : ∀ c ∈ k.start, isPlain c = true ∧ isBlank c = false :=
    forall_mem_of_all (by cases k <;> decide)
  exact hall c h

/-- Keywords are named in lowercase. -/
theorem lower_name (k : Keyword) : lower k.name = k.name :=
  (lowerFrom_eq_iff (fun c hc => (isPlain_of_mem_start (List.mem_append_left [':'] hc)).1)
    false k.name).mpr (by cases k <;> decide)

/-- No keyword begins another one. -/
theorem eq_of_prefix_start {k l : Keyword} (h : k.start <+: l.start) : k = l := by
  cases k <;> cases l <;> first | rfl | exact absurd h (by decide)

/-- A text begins with the keyword when its lowercase form does. -/
theorem start_prefix_lower_iff {k : Keyword} {s : Text} :
    k.start <+: lower s ↔ ∃ p rest, s = p ++ rest ∧ p.map Char.toLower = k.start :=
  isPrefix_lowerFrom_iff (fun _ hc => (isPlain_of_mem_start hc).1)
    (by cases k <;> decide) false s

/-- No keyword is missing from the list. -/
theorem mem_all (k : Keyword) : k ∈ all := by cases k <;> decide

end Keyword

/-- The keyword that is found first is the only one that the text begins with. -/
theorem Keyword.find?_eq_some_iff {s : Text} {k : Keyword} :
    (Keyword.all.find? fun l => l.start.isPrefixOf s) = some k ↔ k.start <+: s := by
  have hfound : ∀ l, (Keyword.all.find? fun l => l.start.isPrefixOf s) = some l → l.start <+: s :=
    fun l hl => List.isPrefixOf_iff_prefix.mp (by simpa using List.find?_some hl)
  constructor
  · exact hfound k
  · intro h
    cases hl : Keyword.all.find? fun l => l.start.isPrefixOf s with
    | none => exact absurd (List.isPrefixOf_iff_prefix.mpr h) (List.find?_eq_none.mp hl k k.mem_all)
    | some l =>
        rcases List.prefix_or_prefix_of_prefix h (hfound l hl) with hkl | hlk
        · rw [eq_of_prefix_start hkl]
        · rw [eq_of_prefix_start hlk]

/-- A directive is found exactly when the text begins with its keyword, in any case. -/
theorem matchDirective_eq_some_iff {part value : Text} {k : Keyword} :
    matchDirective part = some (k, value) ↔
      ∃ p rest, part = p ++ rest ∧ p.map Char.toLower = k.start ∧ value = trim rest := by
  rw [matchDirective, Option.map_eq_some_iff]
  constructor
  · rintro ⟨l, hl, heq⟩
    obtain ⟨rfl, rfl⟩ := Prod.mk.inj heq
    obtain ⟨p, rest, rfl, hp⟩ := Keyword.start_prefix_lower_iff.mp (Keyword.find?_eq_some_iff.mp hl)
    have hlength : l.start.length = p.length := by rw [← hp, List.length_map]
    exact ⟨p, rest, rfl, hp, by rw [hlength, List.drop_left]⟩
  · rintro ⟨p, rest, rfl, hp, rfl⟩
    have hlength : k.start.length = p.length := by rw [← hp, List.length_map]
    have hk : k.start <+: lower (p ++ rest) :=
      Keyword.start_prefix_lower_iff.mpr ⟨p, rest, rfl, hp⟩
    exact ⟨k, Keyword.find?_eq_some_iff.mpr hk, by rw [hlength, List.drop_left]⟩

/-- A directive is not empty. -/
theorem ne_nil_of_matchDirective {part : Text} {directive : Keyword × Text}
    (h : matchDirective part = some directive) : part ≠ [] := by
  rintro rfl
  have hnone : matchDirective [] = none := by decide
  rw [hnone] at h
  exact absurd h (by simp)

/-- The keyword that the part carries. -/
def keyOf (part : Text) : Option Keyword := (matchDirective part).map Prod.fst

/-- A part has a keyword when its lowercase form begins with it and a colon. -/
theorem keyOf_eq_some_iff {part : Text} {k : Keyword} :
    keyOf part = some k ↔ k.start <+: lower part := by
  rw [← Keyword.find?_eq_some_iff, keyOf, matchDirective, Option.map_map]
  cases Keyword.all.find? fun l => l.start.isPrefixOf (lower part) with
  | none => exact Iff.rfl
  | some l => exact Iff.rfl

/-- Of texts that begin with no keyword there is no directive. -/
theorem matchDirective_eq_none_iff {part : Text} :
    matchDirective part = none ↔ ∀ k : Keyword, ¬ k.start <+: lower part := by
  rw [Option.eq_none_iff_forall_not_mem]
  constructor
  · intro h k hk
    obtain ⟨p, rest, hpart, hp⟩ := Keyword.start_prefix_lower_iff.mp hk
    exact h (k, trim rest) (matchDirective_eq_some_iff.mpr ⟨p, rest, hpart, hp, rfl⟩)
  · rintro h ⟨k, value⟩ hmem
    obtain ⟨p, rest, hpart, hp, -⟩ := matchDirective_eq_some_iff.mp hmem
    exact h k (Keyword.start_prefix_lower_iff.mpr ⟨p, rest, hpart, hp⟩)

/-! ## The cut behind a keyword -/

/-- The part is the keyword in any case and its colon, and behind them the rest. -/
def Keyword.Opens (k : Keyword) (part rest : Text) : Prop :=
  ∃ spelling, part = spelling ++ rest ∧ List.Forall₂ SameButCase spelling (k.name ++ [':'])

section Opens

variable {k l : Keyword} {part rest rest' value : Text}

/-- A keyword opens a part in any case of its letters. -/
theorem Keyword.opens_iff :
    k.Opens part rest ↔ ∃ p, part = p ++ rest ∧ p.map Char.toLower = k.start := by
  have hlower : (k.name ++ [':']).map Char.toLower = k.start := by cases k <;> decide
  simp only [Opens, forall₂_sameButCase_iff, hlower]

/-- What stands behind a keyword is in the part. -/
theorem Keyword.Opens.mem (h : k.Opens part rest) {c : Char} (hc : c ∈ rest) : c ∈ part := by
  obtain ⟨spelling, rfl, -⟩ := h
  exact List.mem_append_right spelling hc

/-- A directive is a keyword with its value behind it, trimmed. -/
theorem matchDirective_eq_some_iff_opens :
    matchDirective part = some (k, value) ↔ ∃ rest, k.Opens part rest ∧ value = trim rest := by
  simp only [matchDirective_eq_some_iff, Keyword.opens_iff]
  constructor
  · rintro ⟨p, rest, hpart, hp, hvalue⟩
    exact ⟨rest, ⟨p, hpart, hp⟩, hvalue⟩
  · rintro ⟨rest, ⟨p, hpart, hp⟩, hvalue⟩
    exact ⟨p, rest, hpart, hp, hvalue⟩

/-- A part that a keyword opens is a directive with that keyword and no other. -/
theorem Keyword.Opens.matchDirective_eq (h : k.Opens part rest) :
    matchDirective part = some (k, trim rest) :=
  matchDirective_eq_some_iff_opens.mpr ⟨rest, h, rfl⟩

/-- Where no keyword opens the part there is no directive. -/
theorem matchDirective_eq_none_iff_opens :
    matchDirective part = none ↔ ∀ (k : Keyword) rest, ¬ k.Opens part rest := by
  constructor
  · intro hnone k rest h
    exact absurd (hnone.symm.trans h.matchDirective_eq) (Option.some_ne_none _).symm
  · intro h
    rw [Option.eq_none_iff_forall_not_mem]
    rintro ⟨k, value⟩ hmem
    obtain ⟨rest, hopens, -⟩ := matchDirective_eq_some_iff_opens.mp hmem
    exact h k rest hopens

/-- A part is opened by one keyword at most, and in one way. -/
theorem Keyword.Opens.unique (h : k.Opens part rest) (h' : l.Opens part rest') :
    k = l ∧ rest = rest' := by
  have hdirective := h.matchDirective_eq.symm.trans h'.matchDirective_eq
  obtain rfl : k = l := congrArg Prod.fst (Option.some.inj hdirective)
  obtain ⟨p, rfl, hp⟩ := h
  obtain ⟨q, hpart, hq⟩ := h'
  -- both spellings are as long as the keyword and its colon
  exact ⟨rfl, (List.append_inj hpart (hp.length_eq.trans hq.length_eq.symm)).2⟩

end Opens

/-- **A directive is cut behind its keyword.** The part is read as a directive exactly when it is a
keyword up to the case of its letters, the colon, and a text whose trimmed form is the value. A part
that no keyword opens is no directive, and no part is opened by two of them or in two ways. -/
theorem matchDirective_cuts_behind_keyword (part : Text) :
    (∀ k value, matchDirective part = some (k, value) ↔
      ∃ rest, k.Opens part rest ∧ value = trim rest) ∧
    (matchDirective part = none ↔ ∀ (k : Keyword) rest, ¬ k.Opens part rest) ∧
    ∀ (k l : Keyword) rest rest', k.Opens part rest → l.Opens part rest' → k = l ∧ rest = rest' :=
  ⟨fun _ _ => matchDirective_eq_some_iff_opens, matchDirective_eq_none_iff_opens,
    fun _ _ _ _ h h' => h.unique h'⟩

/-- A dotted capital I is no form of the letter `i`. -/
example : matchDirective "LIMIT:\t3 ".toList = some (.limit, ['3']) ∧
    matchDirective "L\u0130MIT: 3".toList = none := by decide

end Checklist
