import Checklist.Proofs.Characters
import Checklist.Proofs.Scanning
import Checklist.Proofs.Trimming

/-!
# Tokens — where the tokens of a content end

Each scanner of a content is lawful, begins its tokens with signs of its own, and stops at a space
behind which the next word begins with a sign (`Signed`): a date, the name of another task and the
second of the words "when done" begin with none. So a row of parts that begin with signs is read
part by part, whatever stands before it (`pieces_append_spaced`).
-/

namespace Checklist

open Text Scanner

/-- Whether the first word of the text, if there is one, begins with a sign. -/
def Signed (s : Text) : Prop := ∀ c, (trimStart s).head? = some c → endsRule c = true

namespace Signed

/-- A text that begins with a sign is signed. -/
theorem cons {c : Char} (hc : endsRule c = true) (s : Text) : Signed (c :: s) := by
  intro d hd
  have htrim : trimStart (c :: s) = c :: s := by
    simp [trimStart, isBlank_of_endsRule hc]
  rw [htrim] at hd
  obtain rfl : c = d := by simpa using hd
  exact hc

/-- So is one without a word. -/
theorem of_blank {s : Text} (h : ∀ c ∈ s, isBlank c = true) : Signed s := by
  intro c hc
  rw [trimStart, List.dropWhile_eq_nil_iff.mpr h] at hc
  exact absurd hc (by simp)

/-- A space in front makes no difference. -/
theorem space_cons {s : Text} (h : Signed s) : Signed (' ' :: s) := by
  intro c hc
  rw [trimStart, List.dropWhile_cons, if_pos isBlank_space] at hc
  exact h c hc

/-- Two signed texts are signed together: the first word is that of the one or of the other. -/
theorem append {s t : Text} (hs : Signed s) (ht : Signed t) : Signed (s ++ t) := by
  intro c hc
  rw [trimStart, List.dropWhile_append] at hc
  split at hc
  · exact ht c hc
  · next hne =>
      cases hdrop : s.dropWhile isBlank with
      | nil => exact absurd (by simp [hdrop]) hne
      | cons d u =>
          rw [hdrop] at hc
          obtain rfl : d = c := by simpa using hc
          exact hs d (by rw [trimStart, hdrop]; rfl)

/-- A row of signed parts is signed as a whole. -/
theorem append_spaced {s : Text} {parts : List Text} (hs : Signed s)
    (h : ∀ part ∈ parts, Signed part) : Signed (s ++ spaced parts) := by
  refine hs.append ?_
  clear hs
  induction parts with
  | nil => exact of_blank (by simp)
  | cons part parts ih =>
      rw [spaced_cons]
      exact space_cons ((h part (by simp)).append (ih fun p hp => h p (by simp [hp])))

/-- The first character behind the blanks of a signed text is in no class that excludes signs. -/
theorem head_eq_false {s : Text} (h : Signed s) {p : Char → Bool}
    (hp : ∀ c, endsRule c = true → p c = false) : ∀ c, (trimStart s).head? = some c → p c = false :=
  fun c hc => hp c (h c hc)

end Signed

namespace Scanner

variable {α : Type} {scan : Scanner α}

/-- A scanner of tokens that end before the next sign. -/
structure Separable (scan : Scanner α) : Prop extends Lawful scan where
  stops : ∀ {s}, Signed s → scan.StopsAt (' ' :: s)

/-- A row of signed parts is scanned part by part. -/
theorem pieces_append_spaced (hs : scan.Separable) (s : Text) {parts : List Text}
    (h : ∀ part ∈ parts, Signed part) :
    scan.pieces (s ++ spaced parts) =
      scan.pieces s ++ parts.flatMap fun part => .plain ' ' :: scan.pieces part := by
  induction parts generalizing s with
  | nil => simp
  | cons part parts ih =>
      have hparts : ∀ p ∈ parts, Signed p := fun p hp => h p (by simp [hp])
      have hstop := hs.stops ((h part (by simp)).append_spaced hparts)
      rw [spaced_cons, pieces_append_space hs.toLawful hstop, ih part hparts]
      simp

/-- The tokens of such a row are those of its parts, one part after the other. -/
theorem tokens_append_spaced (hs : scan.Separable) (s : Text) {parts : List Text}
    (h : ∀ part ∈ parts, Signed part) :
    scan.tokens (s ++ spaced parts) = scan.tokens s ++ parts.flatMap scan.tokens := by
  rw [tokens_eq_filterMap, pieces_append_spaced hs s h, List.filterMap_append,
    List.filterMap_flatMap]
  refine congrArg₂ (· ++ ·) (tokens_eq_filterMap s).symm (List.flatMap_congr fun part _ => ?_)
  rw [tokens_eq_filterMap]
  rfl

/-- What is left of such a row is what is left of its parts. -/
theorem blankOut_append_spaced (hs : scan.Separable) (s : Text) {parts : List Text}
    (h : ∀ part ∈ parts, Signed part) :
    scan.blankOut (s ++ spaced parts) = scan.blankOut s ++ spaced (parts.map scan.blankOut) := by
  rw [blankOut_eq_map, pieces_append_spaced hs s h, List.map_append, List.map_flatMap, spaced,
    List.flatMap_map]
  refine congrArg₂ (· ++ ·) (blankOut_eq_map s).symm (List.flatMap_congr fun part _ => ?_)
  rw [blankOut_eq_map]
  rfl

/-- A text that is one token. -/
theorem pieces_of_token {value : α} {c : Char} {w : Text}
    (h : scan none (c :: w) = some (value, [])) : scan.pieces (c :: w) = [.token value] := by
  rw [← List.append_nil w] at h ⊢
  rw [← List.cons_append] at h ⊢
  rw [pieces, piecesFrom_of_some h]
  simp [piecesFrom]

end Scanner

namespace Token

/-! ## The gap between a sign and its datum -/

/-- Skipping a variation selector takes a start off the text. -/
theorem skipSelector_suffix (s : Text) : ∃ w, s = w ++ skipSelector s := by
  cases s with
  | nil => exact ⟨[], rfl⟩
  | cons c s =>
      rw [skipSelector]
      split
      · exact ⟨[c], rfl⟩
      · exact ⟨[], rfl⟩

/-- So does skipping the whole gap. -/
theorem skipGap_suffix (s : Text) : ∃ w, s = w ++ skipGap s := by
  obtain ⟨w, hw⟩ := skipSelector_suffix s
  refine ⟨w ++ (skipSelector s).takeWhile isBlank, ?_⟩
  rw [skipGap, trimStart, List.append_assoc, List.takeWhile_append_dropWhile]
  exact hw

/-- A selector does not reach over a space. -/
theorem skipSelector_append_space (s t : Text) :
    skipSelector (s ++ ' ' :: t) = skipSelector s ++ ' ' :: t := by
  cases s with
  | nil => rfl
  | cons c s =>
      rw [List.cons_append, skipSelector, skipSelector]
      split <;> rfl

/-- Blanks that run to the end of a part go on behind it, any others end where they did. -/
theorem trimStart_append_space (s t : Text) :
    trimStart (s ++ ' ' :: t) =
      if trimStart s = [] then trimStart t else trimStart s ++ ' ' :: t := by
  rw [trimStart, List.dropWhile_append]
  simp only [List.isEmpty_iff]
  split
  · next h => rw [trimStart, if_pos h, List.dropWhile_cons, if_pos isBlank_space]; rfl
  · next h => rw [trimStart, if_neg h]

/-- A gap reaches over a space only where nothing but blanks stands before it. -/
theorem skipGap_append_space (s t : Text) :
    skipGap (s ++ ' ' :: t) =
      if skipGap s = [] then trimStart t else skipGap s ++ ' ' :: t := by
  rw [skipGap, skipSelector_append_space, trimStart_append_space]
  rfl

/-! ## Priorities -/

/-- A priority is its sign. -/
theorem priority_startsWith : StartsWith priority isPriorityMarker := by
  intro before c s hc
  simp [priority, hc]

/-- No sign of a priority is blank. -/
theorem isBlank_of_isPriorityMarker {c : Char} (h : isPriorityMarker c = true) :
    isBlank c = false :=
  isBlank_of_endsRule (by simp [endsRule, h])

/-- A priority ends with its sign, whatever comes then. -/
theorem priority_separable : Separable priority where
  consumes := by
    intro before s value rest h
    cases s with
    | nil => exact absurd h (by simp [priority])
    | cons c s =>
        rw [priority] at h
        split at h
        · next hc =>
            obtain ⟨w, hw⟩ := skipSelector_suffix s
            obtain ⟨-, rfl⟩ := Prod.mk.inj (Option.some.inj h)
            exact ⟨c, w, congrArg (c :: ·) hw, isBlank_of_isPriorityMarker hc⟩
        · exact absurd h (by simp)
  behind := fun s => rfl
  stops := by
    intro t _ before c s
    show (if isPriorityMarker c then some ((), skipSelector (s ++ ' ' :: t)) else none) =
      (if isPriorityMarker c then some ((), skipSelector s) else none).map _
    rw [skipSelector_append_space]
    split <;> rfl

/-! ## Dates -/

/-- The shape of a date: four, two and two digits of any script, joined by hyphens. -/
def DateShaped (w : Text) : Prop :=
  ∃ y₁ y₂ y₃ y₄ m₁ m₂ d₁ d₂ : Char, w = [y₁, y₂, y₃, y₄, '-', m₁, m₂, '-', d₁, d₂] ∧
    [y₁, y₂, y₃, y₄, m₁, m₂, d₁, d₂].all isDigit = true

/-- A written date is taken off the start exactly when the text begins with its shape. -/
theorem takeDate?_eq_some_iff {s w rest : Text} :
    takeDate? s = some (w, rest) ↔ s = w ++ rest ∧ DateShaped w := by
  constructor
  · intro h
    unfold takeDate? at h
    split at h
    · next y₁ y₂ y₃ y₄ h₁ m₁ m₂ h₂ d₁ d₂ t =>
        split at h
        · next hc =>
            obtain ⟨hdigits, rfl, rfl⟩ := hc
            obtain ⟨rfl, rfl⟩ := Prod.mk.inj (Option.some.inj h)
            exact ⟨rfl, y₁, y₂, y₃, y₄, m₁, m₂, d₁, d₂, rfl, hdigits⟩
        · exact absurd h (by simp)
    · exact absurd h (by simp)
  · rintro ⟨rfl, y₁, y₂, y₃, y₄, m₁, m₂, d₁, d₂, rfl, hdigits⟩
    show (if _ ∧ _ ∧ _ then _ else none) = _
    rw [if_pos ⟨hdigits, rfl, rfl⟩]
    rfl

/-- A date has no blank in it, so it lies on one side of every blank. -/
theorem DateShaped.space_not_mem {w : Text} (h : DateShaped w) : ' ' ∉ w := by
  obtain ⟨y₁, y₂, y₃, y₄, m₁, m₂, d₁, d₂, rfl, hdigits⟩ := h
  have hspace : isDigit ' ' = false := isDigit_eq_false_of_isBlank isBlank_space
  intro hmem
  simp only [List.all_cons, List.all_nil, Bool.and_true, Bool.and_eq_true] at hdigits
  simp only [List.mem_cons, List.not_mem_nil, or_false] at hmem
  obtain ⟨h₁, h₂, h₃, h₄, h₅, h₆, h₇, h₈⟩ := hdigits
  rcases hmem with rfl | rfl | rfl | rfl | h | rfl | rfl | h | rfl | rfl
  all_goals first
    | exact absurd h (by decide)
    | simp_all

/-- What is cut off before a space is cut off the same way without what follows it. -/
theorem exists_of_append_eq_append_space {w rest s t : Text} (hw : ' ' ∉ w)
    (h : s ++ ' ' :: t = w ++ rest) : ∃ u, s = w ++ u ∧ rest = u ++ ' ' :: t := by
  rcases List.append_eq_append_iff.mp h with ⟨u, rfl, hu⟩ | ⟨u, rfl, hu⟩
  · cases u with
    | nil => exact ⟨[], by simp, by simpa using hu.symm⟩
    | cons c u =>
        obtain ⟨rfl, -⟩ := List.cons.inj hu
        exact absurd (by simp) hw
  · exact ⟨u, rfl, hu⟩

/-- A date does not reach over a space. -/
theorem takeDate?_append_space (s t : Text) :
    takeDate? (s ++ ' ' :: t) =
      (takeDate? s).map fun (written, rest) => (written, rest ++ ' ' :: t) := by
  cases h : takeDate? s with
  | some found =>
      obtain ⟨w, rest⟩ := found
      obtain ⟨rfl, hw⟩ := takeDate?_eq_some_iff.mp h
      exact takeDate?_eq_some_iff.mpr ⟨List.append_assoc .., hw⟩
  | none =>
      cases h' : takeDate? (s ++ ' ' :: t) with
      | none => rfl
      | some found =>
          obtain ⟨w, rest⟩ := found
          obtain ⟨heq, hw⟩ := takeDate?_eq_some_iff.mp h'
          obtain ⟨u, rfl, -⟩ := exists_of_append_eq_append_space hw.space_not_mem heq
          rw [takeDate?_eq_some_iff.mpr ⟨rfl, hw⟩] at h
          exact absurd h (by simp)

/-- A text that begins with no digit begins with no date. -/
theorem takeDate?_of_head {s : Text} (h : ∀ c, s.head? = some c → isDigit c = false) :
    takeDate? s = none := by
  cases hs : takeDate? s with
  | none => rfl
  | some found =>
      obtain ⟨w, rest⟩ := found
      obtain ⟨rfl, y₁, y₂, y₃, y₄, m₁, m₂, d₁, d₂, rfl, hdigits⟩ := takeDate?_eq_some_iff.mp hs
      have hdigit : isDigit y₁ = true := by
        simp only [List.all_cons, Bool.and_eq_true] at hdigits
        exact hdigits.1
      rw [h y₁ rfl] at hdigit
      exact Bool.noConfusion hdigit

/-- A date begins with the sign of its kind. -/
theorem date_startsWith : StartsWith date fun c => (DateKind.ofMarker? c).isSome := by
  intro before c s hc
  have hnone : DateKind.ofMarker? c = none := by simpa using hc
  simp [date, hnone]

/-- A date ends before the next sign, as its digits are no signs. -/
theorem date_separable : Separable date where
  consumes := by
    intro before s value rest h
    cases s with
    | nil => exact absurd h (by simp [date])
    | cons c s =>
        obtain ⟨kind, hkind, h⟩ := Option.bind_eq_some_iff.mp h
        obtain ⟨⟨written, rest'⟩, hdate, heq⟩ := Option.map_eq_some_iff.mp h
        obtain ⟨-, rfl⟩ := Prod.mk.inj heq
        obtain ⟨hgap, -⟩ := takeDate?_eq_some_iff.mp hdate
        obtain ⟨w, hw⟩ := skipGap_suffix s
        refine ⟨c, w ++ written, ?_, isBlank_of_endsRule (by simp [endsRule, hkind])⟩
        rw [List.cons_append, List.append_assoc, ← hgap, ← hw]
  behind := fun s => rfl
  stops := by
    intro t ht before c s
    show ((DateKind.ofMarker? c).bind fun kind =>
        (takeDate? (skipGap (s ++ ' ' :: t))).map fun (written, rest) => ((kind, written), rest)) =
      ((DateKind.ofMarker? c).bind fun kind =>
        (takeDate? (skipGap s)).map fun (written, rest) => ((kind, written), rest)).map _
    rw [skipGap_append_space]
    -- Either the gap runs up to the sign, which is no digit, or the date stands in the text
    -- already.
    split
    · next h =>
        rw [h, takeDate?_of_head (ht.head_eq_false fun c hc => (class_of_endsRule hc).2.1)]
        cases DateKind.ofMarker? c <;> rfl
    · rw [takeDate?_append_space]
      cases DateKind.ofMarker? c <;> cases takeDate? (skipGap s) <;> rfl

/-! ## Dependencies -/

/-- A dependency begins with its sign. -/
theorem dependency_startsWith : StartsWith dependency (· = Marker.dependency) := by
  intro before c s hc
  have hne : c ≠ Marker.dependency := by simpa using hc
  simp [dependency, hne]

/-- The name of another task holds no space. -/
theorem isReferenceChar_space : isReferenceChar ' ' = false := by
  simp [isReferenceChar, isWord_eq_false_of_isBlank isBlank_space]

/-- A dependency ends before the next sign, as names hold no signs. -/
theorem dependency_separable : Separable dependency where
  consumes := by
    intro before s value rest h
    cases s with
    | nil => exact absurd h (by simp [dependency])
    | cons c s =>
        rw [dependency] at h
        split at h
        · next hc =>
            split at h
            · exact absurd h (by simp)
            · obtain ⟨-, rfl⟩ := Prod.mk.inj (Option.some.inj h)
              obtain ⟨w, hw⟩ := skipGap_suffix s
              refine ⟨c, w ++ (skipGap s).takeWhile isReferenceChar, ?_,
                isBlank_of_endsRule (hc ▸ endsRule_dependency)⟩
              rw [List.cons_append, List.append_assoc, List.takeWhile_append_dropWhile, ← hw]
        · exact absurd h (by simp)
  behind := fun s => rfl
  stops := by
    intro t ht before c s
    have htake : ∀ u : Text, (u ++ ' ' :: t).takeWhile isReferenceChar =
        u.takeWhile isReferenceChar ∧ (u ++ ' ' :: t).dropWhile isReferenceChar =
        u.dropWhile isReferenceChar ++ ' ' :: t := fun u => span_append isReferenceChar_space u t
    -- What follows begins with a sign or a blank, so no name begins there.
    have hnone : (trimStart t).takeWhile isReferenceChar = [] := by
      cases htrim : trimStart t with
      | nil => rfl
      | cons d u =>
          have hd : isReferenceChar d = false :=
            (class_of_endsRule (ht d (by rw [htrim]; rfl))).2.2.1
          rw [List.takeWhile_cons, if_neg (by simp [hd])]
    rw [List.cons_append, dependency, dependency]
    split
    · rw [skipGap_append_space]
      by_cases hgap : skipGap s = []
      · rw [if_pos hgap, hnone, hgap]
        rfl
      · rw [if_neg hgap, (htake _).1, (htake _).2]
        cases (skipGap s).takeWhile isReferenceChar <;> rfl
    · rfl

/-! ## Tags -/

/-- A tag begins with its sign, in both styles. -/
theorem tag_startsWith (style : TagStyle) : StartsWith (tag style) (· = Marker.tag) := by
  intro before c s hc
  have hne : c ≠ Marker.tag := by simpa using hc
  cases style <;> simp [tag, wrappedTag, bareTag, hne]

/-- A bare tag holds no space. -/
theorem isTagChar_space : isTagChar ' ' = false := by
  simp [isTagChar, isWord_eq_false_of_isBlank isBlank_space]

/-- A wrapped tag holds no space, so it is closed before one or not at all. -/
theorem wrappedTag_separable : Separable wrappedTag where
  consumes := by
    intro before s value rest h
    cases s with
    | nil => exact absurd h (by simp [wrappedTag])
    | cons c s =>
        rw [wrappedTag] at h
        split at h
        · next hc =>
            split at h
            · next t tag d rest' htag hrest =>
                split at h
                · obtain ⟨-, rfl⟩ := Prod.mk.inj (Option.some.inj h)
                  refine ⟨c, t :: tag ++ [d], ?_, isBlank_of_endsRule (hc ▸ endsRule_tag)⟩
                  have hs := List.takeWhile_append_dropWhile (p := isTagChar) (l := s)
                  rw [htag, hrest] at hs
                  simp [← hs]
                · exact absurd h (by simp)
            · exact absurd h (by simp)
        · exact absurd h (by simp)
  behind := fun s => rfl
  stops := by
    intro t _ before c s
    -- The name stops at the space, and a space does not close the tag.
    obtain ⟨htake, hdrop⟩ := span_append isTagChar_space s t
    have hspace : ' ' ≠ Marker.tag := by decide
    rw [List.cons_append, wrappedTag, wrappedTag]
    split
    · rw [htake, hdrop]
      cases s.takeWhile isTagChar with
      | nil => rfl
      | cons d tag =>
          cases s.dropWhile isTagChar with
          | nil => simp [hspace]
          | cons e rest =>
              simp only [List.cons_append]
              split <;> rfl
    · rfl

/-- A bare tag ends at a space at the latest. -/
theorem bareTag_separable : Separable bareTag where
  consumes := by
    intro before s value rest h
    cases s with
    | nil => exact absurd h (by simp [bareTag])
    | cons c s =>
        rw [bareTag] at h
        split at h
        · next hc =>
            split at h
            · exact absurd h (by simp)
            · obtain ⟨-, rfl⟩ := Prod.mk.inj (Option.some.inj h)
              refine ⟨c, s.takeWhile isTagChar, ?_,
                isBlank_of_endsRule (hc.1 ▸ endsRule_tag)⟩
              rw [List.cons_append, List.takeWhile_append_dropWhile]
        · exact absurd h (by simp)
  behind := by
    intro s
    cases s with
    | nil => rfl
    | cons c s => simp [bareTag]
  stops := by
    intro t _ before c s
    -- The name stops at the space, which ends the tag.
    obtain ⟨htake, hdrop⟩ := span_append isTagChar_space s t
    rw [List.cons_append, bareTag, bareTag]
    split
    · rw [htake, hdrop]
      cases s.takeWhile isTagChar <;> rfl
    · rfl

/-- Tags of both styles end before the next sign. -/
theorem tag_separable (style : TagStyle) : Separable (tag style) := by
  cases style with
  | wrapped => exact wrappedTag_separable
  | bare => exact bareTag_separable

/-! ## Letters in any case -/

/-- The text has the letters of the word, some of them as capitals. -/
def Spells (word s : Text) : Prop := takeLetters? word s = some []

instance (word s : Text) : Decidable (Spells word s) :=
  inferInstanceAs (Decidable (takeLetters? word s = some []))

/-- Nothing but the empty text spells the empty word. -/
theorem spells_nil_iff {s : Text} : Spells [] s ↔ s = [] := by
  simp [Spells, takeLetters?]

/-- A word is spelled letter by letter, each in lower or in upper case. -/
theorem spells_cons_iff {a : Char} {word s : Text} :
    Spells (a :: word) s ↔ ∃ c l, s = c :: l ∧ (c = a ∨ c = a.toUpper) ∧ Spells word l := by
  cases s with
  | nil => simp [Spells, takeLetters?]
  | cons c s => simp [Spells, takeLetters?]

/-- The letters are taken off the start of the text. -/
theorem takeLetters?_eq_some_iff {word s rest : Text} :
    takeLetters? word s = some rest ↔ ∃ l, Spells word l ∧ s = l ++ rest := by
  induction word generalizing s with
  | nil => simp [takeLetters?, spells_nil_iff]
  | cons a word ih =>
      cases s with
      | nil =>
          simp only [takeLetters?, reduceCtorEq, false_iff]
          rintro ⟨w, hw, hs⟩
          obtain ⟨c, l, rfl, -⟩ := spells_cons_iff.mp hw
          exact absurd hs (by simp)
      | cons c s =>
          rw [takeLetters?]
          split
          · next hc =>
              rw [ih]
              -- The first letter fits; the rest is that of the shorter word.
              constructor
              · rintro ⟨l, hl, rfl⟩
                exact ⟨c :: l, spells_cons_iff.mpr ⟨c, l, rfl, hc, hl⟩, rfl⟩
              · rintro ⟨w, hw, hs⟩
                obtain ⟨d, l, rfl, -, hl⟩ := spells_cons_iff.mp hw
                obtain ⟨rfl, rfl⟩ := List.cons.inj hs
                exact ⟨l, hl, rfl⟩
          · next hc =>
              refine iff_of_false (by simp) ?_
              rintro ⟨w, hw, hs⟩
              obtain ⟨d, l, rfl, hd, -⟩ := spells_cons_iff.mp hw
              obtain ⟨rfl, -⟩ := List.cons.inj hs
              exact hc hd

/-- A spelling is as long as the word. -/
theorem Spells.length_eq {word s : Text} (h : Spells word s) : s.length = word.length := by
  induction word generalizing s with
  | nil => rw [spells_nil_iff.mp h]
  | cons a word ih =>
      obtain ⟨c, l, rfl, -, hl⟩ := spells_cons_iff.mp h
      rw [List.length_cons, List.length_cons, ih hl]

/-- Spellings of words are words. -/
theorem Spells.isWord {word s : Text} (h : Spells word s)
    (hword : ∀ a ∈ word, Text.isWord a = true ∧ Text.isWord a.toUpper = true) :
    ∀ c ∈ s, Text.isWord c = true := by
  induction word generalizing s with
  | nil =>
      rw [spells_nil_iff.mp h]
      exact fun c hc => absurd hc List.not_mem_nil
  | cons a word ih =>
      obtain ⟨c, l, rfl, hc, hl⟩ := spells_cons_iff.mp h
      obtain ⟨ha, hword⟩ := List.forall_mem_cons.mp hword
      refine List.forall_mem_cons.mpr ⟨?_, ih hl hword⟩
      rcases hc with rfl | rfl
      · exact ha.1
      · exact ha.2

/-- However it is spelled, "when" is a word. -/
theorem isWord_of_spells_when {l : Text} (h : Spells "when".toList l) : ∀ c ∈ l, isWord c = true :=
  h.isWord (forall_mem_of_all (by decide +kernel))

/-- And so is "done". -/
theorem isWord_of_spells_done {l : Text} (h : Spells "done".toList l) : ∀ c ∈ l, isWord c = true :=
  h.isWord (forall_mem_of_all (by decide +kernel))

/-- No text has the letters of both words. -/
theorem not_spells_both {l q : Text} (hwhen : Spells "when".toList (l ++ q)) :
    ¬Spells "done".toList l := by
  intro hdone
  obtain ⟨c, s, hs, hc, -⟩ := spells_cons_iff (a := 'w').mp hwhen
  obtain ⟨d, t, rfl, hd, -⟩ := spells_cons_iff (a := 'd').mp hdone
  obtain ⟨rfl, -⟩ := List.cons.inj hs
  rcases hc with rfl | rfl <;> exact absurd hd (by decide)

/-! ## The words "when done" -/

/-- The scanner of the words as a chain of three tests. -/
theorem whenDone_eq (before : Option Char) (s : Text) :
    whenDone before s =
      if before.any isWord then none
      else (takeLetters? "when".toList s).bind fun gap =>
        if gap.head?.any isBlank then
          (takeLetters? "done".toList (trimStart gap)).bind fun rest =>
            if rest.head?.any isWord then none else some ((), rest)
        else none := by
  unfold whenDone
  split
  · rfl
  · cases takeLetters? "when".toList s with
    | none => rfl
    | some gap => cases h : gap.head?.any isBlank <;> simp [h, bind]

/-- The words are found where they stand, with blanks between them. -/
theorem whenDone_eq_some_iff {before : Option Char} {s rest : Text} :
    whenDone before s = some ((), rest) ↔
      before.any isWord = false ∧ ∃ l gap d, s = l ++ (gap ++ (d ++ rest)) ∧
        Spells "when".toList l ∧ (gap ≠ [] ∧ ∀ c ∈ gap, isBlank c = true) ∧
        Spells "done".toList d ∧ rest.head?.any isWord = false := by
  rw [whenDone_eq]
  constructor
  · intro h
    split at h
    · exact nomatch h
    · next hbefore =>
        obtain ⟨u, hwhen, hnext⟩ := Option.bind_eq_some_iff.mp h
        obtain ⟨l, hl, rfl⟩ := takeLetters?_eq_some_iff.mp hwhen
        split at hnext
        · next hblank =>
            obtain ⟨after, hdone, hend⟩ := Option.bind_eq_some_iff.mp hnext
            obtain ⟨d, hd, hu⟩ := takeLetters?_eq_some_iff.mp hdone
            split at hend
            · exact nomatch hend
            · next hafter =>
                obtain ⟨-, rfl⟩ := Prod.mk.inj (Option.some.inj hend)
                have hgap : u.takeWhile isBlank ≠ [] := by
                  cases u with
                  | nil => exact absurd hblank (by simp)
                  | cons c u =>
                      have hc : isBlank c = true := hblank
                      rw [List.takeWhile_cons_of_pos hc]
                      exact List.cons_ne_nil _ _
                refine ⟨by simpa using hbefore, l, u.takeWhile isBlank, d, ?_, hl,
                  ⟨hgap, fun c hc => List.mem_takeWhile_imp hc⟩, hd, by simpa using hafter⟩
                rw [← hu, trimStart, List.takeWhile_append_dropWhile]
        · exact nomatch hnext
  · rintro ⟨hbefore, l, gap, d, rfl, hl, ⟨hne, hgap⟩, hd, hafter⟩
    have hblank : (gap ++ (d ++ rest)).head?.any isBlank = true := by
      obtain ⟨c, gap, rfl⟩ := List.exists_cons_of_ne_nil hne
      exact hgap c List.mem_cons_self
    -- The gap is as long as it can be: the second word begins with a letter.
    have htrim : trimStart (gap ++ (d ++ rest)) = d ++ rest := by
      rw [trimStart_append_of_blank hgap]
      obtain ⟨c, d, rfl, -, -⟩ := spells_cons_iff (a := 'd').mp hd
      refine trimStart_cons_of_not_blank (Bool.eq_false_iff.mpr fun hc => ?_) _
      have hword := isWord_of_spells_done hd c List.mem_cons_self
      exact Bool.false_ne_true ((isWord_eq_false_of_isBlank hc).symm.trans hword)
    rw [if_neg (by simp [hbefore]), takeLetters?_eq_some_iff.mpr ⟨l, hl, rfl⟩, Option.bind_some,
      if_pos hblank, htrim, takeLetters?_eq_some_iff.mpr ⟨d, hd, rfl⟩, Option.bind_some,
      if_neg (by simp [hafter])]

/-- The phrase begins with the first letter of "when". -/
theorem whenDone_startsWith : StartsWith whenDone fun c => c = 'w' || c = 'W' := by
  intro before c s hc
  have hne : ¬(c = 'w' ∨ c = 'W') := by simpa using hc
  have hupper : 'w'.toUpper = 'W' := by decide
  have hletters : takeLetters? "when".toList (c :: s) = none := by
    show takeLetters? ['w', 'h', 'e', 'n'] (c :: s) = none
    rw [takeLetters?, hupper, if_neg hne]
  rw [whenDone_eq, hletters]
  split <;> rfl

/-- Letters are not looked for behind a character that is none of them. -/
theorem takeLetters?_append_cons {word : Text} {d : Char}
    (hword : ∀ l ∈ word, l ≠ d ∧ l.toUpper ≠ d) (s t : Text) :
    takeLetters? word (s ++ d :: t) = (takeLetters? word s).map (· ++ d :: t) := by
  induction word generalizing s with
  | nil => rfl
  | cons l word ih =>
      obtain ⟨hl, hupper⟩ := hword l (by simp)
      cases s with
      | nil =>
          have hne : ¬(d = l ∨ d = l.toUpper) := fun h => h.elim (hl ·.symm) (hupper ·.symm)
          show (if d = l ∨ d = l.toUpper then takeLetters? word t else none) = none
          rw [if_neg hne]
      | cons c s =>
          rw [List.cons_append, takeLetters?, takeLetters?]
          split
          · exact ih (fun l hl => hword l (by simp [hl])) s
          · rfl

/-- The words stop at a space behind which the next word does not begin like the second of them. -/
theorem whenDone_stopsAt {t : Text} (ht : ∀ c, (trimStart t).head? = some c → c ≠ 'd' ∧ c ≠ 'D') :
    whenDone.StopsAt (' ' :: t) := by
  have hwhen : ∀ l ∈ "when".toList, l ≠ ' ' ∧ l.toUpper ≠ ' ' := forall_mem_of_all (by decide)
  have hdone : ∀ l ∈ "done".toList, l ≠ ' ' ∧ l.toUpper ≠ ' ' := forall_mem_of_all (by decide)
  have hword : isWord ' ' = false := isWord_eq_false_of_isBlank isBlank_space
  -- The tail does not go on with "done", whose first letter is ruled out.
  have hnone : takeLetters? "done".toList (trimStart t) = none := by
    cases htrim : trimStart t with
    | nil => rfl
    | cons c u =>
        obtain ⟨hd, hD⟩ := ht c (by rw [htrim]; rfl)
        have hupper : 'd'.toUpper = 'D' := by decide
        show takeLetters? ['d', 'o', 'n', 'e'] (c :: u) = none
        rw [takeLetters?, hupper, if_neg (not_or.mpr ⟨hd, hD⟩)]
  intro before c s
  rw [whenDone_eq, whenDone_eq, takeLetters?_append_cons hwhen]
  split
  · rfl
  · cases takeLetters? "when".toList (c :: s) with
    | none => rfl
    | some gap =>
        simp only [Option.map_some, Option.bind_some, trimStart_append_space]
        by_cases hgap : trimStart gap = []
        · -- the blanks behind "when" run into the tail, where "done" does not follow
          rw [if_pos hgap, hnone, hgap]
          show (if _ then none else none) = Option.map _ (if _ then none else none)
          simp
        -- "done" stands before the tail or nowhere, and a space ends it as the end of the text does
        · have hhead : (gap ++ ' ' :: t).head? = gap.head? := by
            cases gap with
            | nil => exact absurd rfl hgap
            | cons d gap => rfl
          rw [if_neg hgap, hhead, takeLetters?_append_cons hdone]
          split
          · cases takeLetters? "done".toList (trimStart gap) with
            | none => rfl
            | some rest =>
                have hnext : (rest ++ ' ' :: t).head?.any isWord = rest.head?.any isWord := by
                  cases rest <;> simp [hword]
                simp only [Option.map_some, Option.bind_some, hnext]
                split <;> rfl
          · rfl

/-- The words that are written behind a rule do not reach back into it. -/
theorem whenDone_stopsAt_words : whenDone.StopsAt (' ' :: "when done".toList) := by
  refine whenDone_stopsAt ?_
  intro c hc
  have hhead : (trimStart "when done".toList).head? = some 'w' := by decide
  rw [← Option.some.inj (hhead.symm.trans hc)]
  decide

/-- The phrase takes characters off the text. -/
theorem whenDone_suffix {before : Option Char} {s rest : Text} {value : Unit}
    (h : whenDone before s = some (value, rest)) : ∃ w, s = w ++ rest ∧ w ≠ [] := by
  obtain ⟨-, l, gap, d, rfl, hl, -⟩ := whenDone_eq_some_iff.mp h
  refine ⟨l ++ (gap ++ d), by simp, fun hnil => ?_⟩
  rw [(List.append_eq_nil_iff.mp hnil).1] at hl
  exact absurd hl (by decide)

/-- The phrase does not reach over a space into a sign: its second word begins with none. -/
theorem whenDone_separable : Separable whenDone where
  consumes := by
    intro before s value rest h
    obtain ⟨w, rfl, hw⟩ := whenDone_suffix h
    cases w with
    | nil => exact absurd rfl hw
    | cons c w =>
        refine ⟨c, w, rfl, ?_⟩
        cases hc : (c = 'w' || c = 'W' : Bool) with
        | false =>
            rw [List.cons_append, whenDone_startsWith before c _ hc] at h
            exact absurd h (by simp)
        | true =>
            simp only [Bool.or_eq_true, decide_eq_true_eq] at hc
            rcases hc with rfl | rfl <;> decide
  behind := by
    intro s
    have hword : isWord ' ' = false := isWord_eq_false_of_isBlank isBlank_space
    rw [whenDone_eq, whenDone_eq]
    simp [hword]
  stops := fun ht => whenDone_stopsAt fun c hc =>
    ⟨(class_of_endsRule (ht c hc)).2.2.2.2.2.2.2.1, (class_of_endsRule (ht c hc)).2.2.2.2.2.2.2.2⟩

end Token

end Checklist
