import Checklist.Query.Glob

/-!
# Globs — the paths that a pattern stands for

A pattern is written as chunks with a star between neighbours, in one way only (`writtenAs_iff`). A
line fits it when every star is filled with some text on one line and the chunks stand as they are,
and a path fits it when it is such a line, or such a line and a line feed (`Fits`). The search for
the place where a star ends finds a filling whenever there is one (`afterStar_iff`), and so by
induction on the stars the matcher accepts exactly the paths that fit
(`isMatch_iff_exists_fillings`).
-/

namespace Checklist.Glob

open Text

/-! ## Chunks -/

/-- The pattern is the chunks with a star between neighbours, and no chunk holds a star. -/
structure WrittenAs (pattern : Text) (chunks : List Text) : Prop where
  joined : joinWith ['*'] chunks = pattern
  ne_nil : chunks ≠ []
  star_not_mem : ∀ chunk ∈ chunks, '*' ∉ chunk

/-- Every pattern is written in one way. -/
theorem writtenAs_iff {pattern : Text} {chunks : List Text} :
    WrittenAs pattern chunks ↔ chunks = splitOn '*' pattern := by
  constructor
  · rintro ⟨rfl, hne, hstar⟩
    exact (splitOn_joinWith hne hstar).symm
  · rintro rfl
    exact ⟨joinWith_splitOn '*' pattern, splitOn_ne_nil '*' pattern,
      fun _ => sep_not_mem_of_mem_splitOn⟩

/-- The line is the first chunk and then the others, each behind some text without a line feed. -/
def Fills (first : Text) (rest : List Text) (line : Text) : Prop :=
  ∃ fillings : List Text, fillings.length = rest.length ∧ (∀ w ∈ fillings, '\n' ∉ w) ∧
    line = first ++ (fillings.zip rest).flatMap fun (filling, chunk) => filling ++ chunk

/-- The path is a line that fits the pattern, which a line feed may end. -/
def Fits (pattern path : Text) : Prop :=
  ∃ first rest line, WrittenAs pattern (first :: rest) ∧ Fills first rest line ∧
    (path = line ∨ path = line ++ ['\n'])

theorem fills_nil_iff {first line : Text} : Fills first [] line ↔ line = first := by
  constructor
  · rintro ⟨fillings, hlength, -, rfl⟩
    rw [List.length_eq_zero_iff.mp hlength]
    simp
  · rintro rfl
    exact ⟨[], rfl, by simp, by simp⟩

/-- The first star stands for a start of what follows the first chunk. -/
theorem fills_cons_iff {first next line : Text} {rest : List Text} :
    Fills first (next :: rest) line ↔
      ∃ filling behind, line = first ++ (filling ++ behind) ∧ '\n' ∉ filling ∧
        Fills next rest behind := by
  constructor
  · rintro ⟨fillings, hlength, hfeed, rfl⟩
    cases fillings with
    | nil => exact absurd hlength (by simp)
    | cons filling fillings =>
        have hlength' : fillings.length = rest.length := by simpa using hlength
        obtain ⟨hfilling, hfillings⟩ := List.forall_mem_cons.mp hfeed
        exact ⟨filling, _, by simp, hfilling, fillings, hlength', hfillings, rfl⟩
  · rintro ⟨filling, behind, rfl, hfilling, fillings, hlength, hfillings, rfl⟩
    exact ⟨filling :: fillings, by simp [hlength], List.forall_mem_cons.mpr ⟨hfilling, hfillings⟩,
      by simp⟩

/-! ## The matcher -/

/-- What follows a star is tried behind every start of the text that holds no line feed. -/
theorem afterStar_iff {rest : Text → Bool} {s : Text} :
    matchChunks.afterStar rest s = true ↔
      ∃ filling behind, s = filling ++ behind ∧ '\n' ∉ filling ∧ rest behind = true := by
  induction s with
  | nil =>
      constructor
      · intro h
        exact ⟨[], [], rfl, by simp, h⟩
      · rintro ⟨filling, behind, hs, -, h⟩
        rw [(List.append_eq_nil_iff.mp hs.symm).2] at h
        exact h
  | cons c s ih =>
      -- The filling ends here, or the first character belongs to it and is no line feed.
      rw [matchChunks.afterStar, Bool.or_eq_true, Bool.and_eq_true, ih, decide_eq_true_eq]
      constructor
      · rintro (h | ⟨hc, filling, behind, rfl, hfeed, h⟩)
        · exact ⟨[], c :: s, rfl, by simp, h⟩
        · exact ⟨c :: filling, behind, rfl, by simp [hfeed, Ne.symm hc], h⟩
      · rintro ⟨filling, behind, hs, hfeed, h⟩
        cases filling with
        | nil =>
            obtain rfl : c :: s = behind := hs
            exact .inl h
        | cons d filling =>
            obtain ⟨rfl, rfl⟩ := List.cons.inj hs
            rw [List.mem_cons, not_or] at hfeed
            exact .inr ⟨Ne.symm hfeed.1, filling, behind, rfl, hfeed.2, h⟩

/-- By induction on the chunks: each is cut off where it stands, and the next one is looked for
behind its star. -/
theorem matchChunks_iff {first : Text} {rest : List Text} {line : Text} :
    matchChunks (first :: rest) line = true ↔ Fills first rest line := by
  induction rest generalizing first line with
  | nil => rw [fills_nil_iff, matchChunks, decide_eq_true_eq]
  | cons next rest ih =>
      rw [fills_cons_iff, matchChunks]
      constructor
      · intro h
        cases hcut : dropStart? first line with
        | none => rw [hcut] at h; exact absurd h (by simp)
        | some s =>
            rw [hcut] at h
            obtain ⟨filling, behind, rfl, hfeed, hrest⟩ := afterStar_iff.mp h
            exact ⟨filling, behind, dropStart?_eq_some_iff.mp hcut, hfeed, ih.mp hrest⟩
      · rintro ⟨filling, behind, rfl, hfeed, hrest⟩
        rw [dropStart?_eq_some_iff.mpr rfl]
        exact afterStar_iff.mpr ⟨filling, behind, rfl, hfeed, ih.mpr hrest⟩

/-- A path matches when it is a line that matches the chunks, or such a line and a line feed. -/
theorem isMatch_iff {pattern path : Text} :
    isMatch pattern path = true ↔
      ∃ line, matchChunks (splitOn '*' pattern) line = true ∧
        (path = line ∨ path = line ++ ['\n']) := by
  rw [isMatch, Bool.or_eq_true, Bool.and_eq_true, decide_eq_true_eq]
  constructor
  · rintro (h | ⟨hlast, h⟩)
    · exact ⟨path, h, .inl rfl⟩
    · obtain ⟨line, rfl⟩ := List.getLast?_eq_some_iff.mp hlast
      exact ⟨line, by rwa [List.dropLast_concat] at h, .inr rfl⟩
  · rintro ⟨line, h, rfl | rfl⟩
    · exact .inl h
    · exact .inr ⟨List.getLast?_concat, by rwa [List.dropLast_concat]⟩

/-- The matcher accepts what fits. -/
theorem isMatch_iff_fits {pattern path : Text} :
    isMatch pattern path = true ↔ Fits pattern path := by
  rw [isMatch_iff]
  constructor
  · rintro ⟨line, hline, hpath⟩
    cases hchunks : splitOn '*' pattern with
    | nil => exact absurd hchunks (splitOn_ne_nil '*' pattern)
    | cons first rest =>
        rw [hchunks] at hline
        exact ⟨first, rest, line, writtenAs_iff.mpr hchunks.symm, matchChunks_iff.mp hline, hpath⟩
  · rintro ⟨first, rest, line, hwritten, hline, hpath⟩
    rw [← writtenAs_iff.mp hwritten]
    exact ⟨line, matchChunks_iff.mpr hline, hpath⟩

/-- **What a pattern stands for.** Every pattern is written in one way as chunks with stars between
them, and a path matches exactly when the path, or the path without one line feed at its end, is the
chunks as they stand, with some text that holds no line feed in place of each star. -/
theorem isMatch_iff_exists_fillings (pattern path : Text) :
    ∃ first rest,
      (∀ chunks, WrittenAs pattern chunks ↔ chunks = first :: rest) ∧
      (isMatch pattern path = true ↔
        ∃ (line : Text) (fillings : List Text), (path = line ∨ path = line ++ ['\n']) ∧
          fillings.length = rest.length ∧ (∀ w ∈ fillings, '\n' ∉ w) ∧
          line = first ++
            (fillings.zip rest).flatMap fun (filling, chunk) => filling ++ chunk) := by
  obtain ⟨first, rest, hchunks⟩ := List.exists_cons_of_ne_nil (splitOn_ne_nil '*' pattern)
  have hwritten : ∀ chunks, WrittenAs pattern chunks ↔ chunks = first :: rest := by
    intro chunks
    rw [writtenAs_iff, hchunks]
  refine ⟨first, rest, hwritten, isMatch_iff_fits.trans ?_⟩
  constructor
  · rintro ⟨first', rest', line, hfirst, ⟨fillings, hlength, hfeed, hline⟩, hpath⟩
    obtain ⟨rfl, rfl⟩ := List.cons.inj ((hwritten _).mp hfirst)
    exact ⟨line, fillings, hpath, hlength, hfeed, hline⟩
  · rintro ⟨line, fillings, hpath, hlength, hfeed, hline⟩
    exact ⟨first, rest, line, (hwritten _).mpr rfl, ⟨fillings, hlength, hfeed, hline⟩, hpath⟩

/-- A star may stand for nothing, chunks may share no character, and a dot is a dot. -/
example : isMatch "a*.md*".toList "a.md\n".toList = true ∧
    isMatch "ab*ba".toList "aba".toList = false ∧
    isMatch "a*.md".toList "a/xmd".toList = false := by decide

end Checklist.Glob
