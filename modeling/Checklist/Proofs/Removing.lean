import Checklist.Proofs.Dialects
import Checklist.Proofs.Editing

/-!
# Removing — what a line that is taken out does to the others

Taking the line of a keyword out of a query unsets the field of the keyword. It touches nothing else
unless it makes the parser read the lines that stay in another way, and there are two ways to do so
(`compileQuery_set_none_iff`): a line `tasks` that comes to be the first one is a heading from then
on (`UncoversHeading`), and a single line that is left is read word by word (`ReadsAlike`). So the
value `a b` of a line `tag: a b` falls apart when the only other line is taken out
(`not_compileQuery_set_none_twoWords`).
-/

namespace Checklist

open Text Editor

/-- Whether a text means the same on a line of its own and as a row of words. -/
def ReadsAlike (today : Date) (s : Text) : Prop :=
  compileParts today (dropHeading (lineParts s)) =
    compileParts today (dropHeading (partsOfWords (words s)))

/-- What both dialects can say means the same in both. -/
theorem readsAlike_of_item {item : QueryItem} (h : item.Valid) (today : Date) :
    ReadsAlike today item.text := by
  have hparts : partsOfWords item.words = [item.part] := by
    have hvalid : ∀ other ∈ [item], other.Valid := by simpa using h
    have hrow := partsOfWords_flatMap hvalid (.singleton item)
    simpa using hrow
  rw [ReadsAlike, h.lineParts_text, h.words_text, hparts]
  exact compileParts_congr today (SameReading.dropHeading (.cons h.sameReading .nil))

/-- A heading is left out in both dialects. -/
theorem readsAlike_of_heading {s : Text} (h : lower s = queryHeading) (today : Date) :
    ReadsAlike today s := by
  have hblank : ∀ c ∈ s, isBlank c = false := by
    intro c hc
    by_contra hblank
    have hmem := mem_lowerFrom_of_isBlank hc (by simpa using hblank) false
    rw [← lower, h] at hmem
    have hheading : ∀ c ∈ queryHeading, isBlank c = false := forall_mem_of_all (by decide +kernel)
    exact hblank (hheading c hmem)
  have hne : s ≠ [] := by
    rintro rfl
    exact absurd h (by decide)
  -- One line and one word: a line break would be a blank.
  have hline : lineParts s = [s] := by
    have hfree : ∀ c ∈ s, isBoundary c = false := by
      intro c hc
      by_contra hboundary
      have := isBlank_of_isBoundary (by simpa using hboundary)
      exact absurd this (by simp [hblank c hc])
    rw [lineParts_of_not_boundary hfree, trim_of_not_blank hblank,
      List.filter_cons_of_pos (by simp [hne]), List.filter_nil]
  have hparts : partsOfWords [s] = [s] := by
    rw [partsOfWords_of_none (matchDirective_of_heading h), partsOfWords]
  rw [ReadsAlike, hline, words_of_not_blank hne hblank, hparts]

/-- Whether the line after the first one comes to be the heading of the query when the keyword,
which the first one carries, is taken out. -/
def UncoversHeading (k : Keyword) (q : Text) : Prop :=
  ∃ first second rest, lineParts (normalizeQuery q) = first :: second :: rest ∧
    keyOf first = some k ∧ lower second = queryHeading

section

variable {q : Text} {k : Keyword} {pre post : List Text} {old : Option Text}

/-- Where a heading is uncovered, the line with the keyword is the first one and the heading the
first of those behind it. -/
theorem UncoversHeading.exists_post (h : UncoversHeading k q)
    (hplace : Place k.name (queryLines q) pre old post) (hq : LineFed q) :
    pre.flatMap lineParts = [] ∧
      ∃ heading rest, post.flatMap lineParts = heading :: rest ∧ lower heading = queryHeading := by
  obtain ⟨first, second, rest, hparts, hkey, hheading⟩ := h
  rw [hplace.lineParts_eq hq] at hparts
  have hpre : pre.flatMap lineParts = [] := by
    cases hp : pre.flatMap lineParts with
    | nil => rfl
    | cons p ps =>
        rw [hp] at hparts
        obtain ⟨rfl, -⟩ := List.cons.inj hparts
        exact absurd hkey (hplace.keyOf_ne hq (by simp [hp]))
  refine ⟨hpre, ?_⟩
  rw [hpre, List.nil_append] at hparts
  -- Without a line for the keyword nothing stands behind its place, where the heading should be.
  cases old with
  | none =>
      rw [hplace.at_end rfl] at hparts
      exact absurd hparts (by simp)
  | some line =>
      obtain ⟨value, hline, -⟩ := hplace.exists_part_of_some hq
      simp only [Option.toList_some, List.flatMap_singleton, hline] at hparts
      exact ⟨second, rest, (List.cons.inj hparts).2, hheading⟩

/-- Where no heading is uncovered, the same part is left out with the line and without it. -/
theorem dropHeading_of_not_uncoversHeading (h : ¬ UncoversHeading k q)
    (hplace : Place k.name (queryLines q) pre old post) (hq : LineFed q) :
    dropHeading (pre.flatMap lineParts ++ post.flatMap lineParts) =
      dropHeading (pre.flatMap lineParts) ++ post.flatMap lineParts := by
  cases hpre : pre.flatMap lineParts with
  | cons p ps => exact dropHeading_append_of_ne_nil (List.cons_ne_nil p ps) _
  | nil =>
      cases hpost : post.flatMap lineParts with
      | nil => rfl
      | cons second rest =>
          cases old with
          | none =>
              rw [hplace.at_end rfl] at hpost
              exact absurd hpost (by simp)
          | some line =>
              obtain ⟨value, hline, hpart⟩ := hplace.exists_part_of_some hq
              have hparts := hplace.lineParts_eq hq
              simp only [Option.toList_some, List.flatMap_singleton, hline, hpre, hpost] at hparts
              have hheading : lower second ≠ queryHeading := fun hheading =>
                h ⟨trim line, second, rest, hparts, by simp [keyOf, hpart], hheading⟩
              exact if_neg hheading

/-- Read line by line, and without the heading that the query had, the parts that stay set what they
have set before. -/
theorem Place.compileParts_others (hplace : Place k.name (queryLines q) pre old post)
    (hq : LineFed q) {today : Date} {spec : Spec} (hspec : compileQuery q today = .ok spec) :
    compileParts today (dropHeading (pre.flatMap lineParts) ++ post.flatMap lineParts) =
      .ok (spec.put k .empty) := by
  obtain ⟨patch, hslot, hcompiled⟩ := hplace.exists_slot hq hspec
  have hexchanged := hslot.exchange .vacant
    (fun p hp => hplace.keyOf_ne_of_mem_dropHeading hq hp) hcompiled
  rwa [List.append_nil] at hexchanged

/-- The edited query has the parts of the lines that stay. -/
theorem Place.lineParts_set_none (hplace : Place k.name (queryLines q) pre old post)
    (hq : LineFed q) : lineParts (normalizeQuery (Editor.set q k.name none)) =
      pre.flatMap lineParts ++ post.flatMap lineParts := by
  have hnone : directiveLine? k.name none = none := rfl
  have hparts := hplace.lineParts_set hq hnone (by simp)
  simpa using hparts

/-- The edited query is on one line for the parser when it has no line feed. -/
theorem Place.not_boundary_set (hplace : Place k.name (queryLines q) pre old post) (hq : LineFed q)
    (hnewline : '\n' ∉ normalizeQuery (Editor.set q k.name none)) :
    ∀ c ∈ normalizeQuery (Editor.set q k.name none), isBoundary c = false := by
  have hset : Editor.set q k.name none = ofLines (pre ++ post) := by
    rw [Editor.set, show directiveLine? k.name none = none from rfl, hplace.replaceFirst_eq]
    simp
  have hvisible : ∀ line ∈ pre ++ post, ∀ c ∈ line, isInvisible c = false := fun line hline =>
    hq.visible (hplace.mem_of_mem_others hline)
  rw [hset] at hnewline ⊢
  rcases normalizeQuery_ofLines_of_newline_not_mem hvisible hnewline with hnil | ⟨line, hline, heq⟩
  · simp [hnil]
  · rw [heq]
    exact hq.not_boundary line (hplace.mem_of_mem_others hline)

/-- An uncovered heading that stays alone is left out in both dialects. -/
theorem UncoversHeading.readsAlike (h : UncoversHeading k q)
    (hplace : Place k.name (queryLines q) pre old post) (hq : LineFed q)
    (hnewline : '\n' ∉ normalizeQuery (Editor.set q k.name none)) (today : Date) :
    ReadsAlike today (normalizeQuery (Editor.set q k.name none)) := by
  obtain ⟨hpre, heading, rest, hpost, hheading⟩ := h.exists_post hplace hq
  have hparts := hplace.lineParts_set_none hq
  rw [hpre, hpost] at hparts
  have hmem : heading ∈ lineParts (normalizeQuery (Editor.set q k.name none)) := by
    simp [hparts]
  rw [lineParts_of_not_boundary (hplace.not_boundary_set hq hnewline)] at hmem
  obtain rfl := List.mem_singleton.mp (List.mem_of_mem_filter hmem)
  rw [normalizeQuery, trim_trim] at hheading
  exact readsAlike_of_heading hheading today

/-- An uncovered heading is missing from what there is to look for. -/
theorem UncoversHeading.compileParts_ne (h : UncoversHeading k q)
    (hplace : Place k.name (queryLines q) pre old post) (hq : LineFed q)
    {today : Date} {spec : Spec}
    (hspec : compileParts today (dropHeading (pre.flatMap lineParts) ++ post.flatMap lineParts) =
      .ok spec) :
    compileParts today (dropHeading (pre.flatMap lineParts ++ post.flatMap lineParts)) ≠
      .ok spec := by
  obtain ⟨hpre, heading, rest, hpost, hheading⟩ := h.exists_post hplace hq
  rw [hpre, hpost] at hspec ⊢
  rw [List.nil_append, dropHeading, if_pos hheading]
  intro hrest
  have hfree : freeText? (heading :: rest) = freeText? rest :=
    (freeText_of_compileParts hspec).symm.trans (freeText_of_compileParts hrest)
  exact freeText?_cons_ne (matchDirective_of_heading hheading) rest hfree

/-- Read line by line, the parts that stay are right unless a heading is uncovered. -/
theorem Place.compileParts_others_iff (hplace : Place k.name (queryLines q) pre old post)
    (hq : LineFed q) {today : Date} {spec : Spec} (hspec : compileQuery q today = .ok spec) :
    compileParts today (dropHeading (pre.flatMap lineParts ++ post.flatMap lineParts)) =
      .ok (spec.put k .empty) ↔ ¬ UncoversHeading k q := by
  have hothers := hplace.compileParts_others hq hspec
  constructor
  · intro heq huncovers
    exact huncovers.compileParts_ne hplace hq hothers heq
  · intro hcovered
    rw [dropHeading_of_not_uncoversHeading hcovered hplace hq, hothers]

end

/-- Taking out the line of a keyword unsets the field of the keyword and changes no other field,
unless a heading is uncovered or a single line is left that says something else as a row of words;
and then it does change something. -/
theorem compileQuery_set_none_iff {q : Text} {k : Keyword} {today : Date} {spec : Spec}
    (hq : LineFed q) (honce : (queryLines q).countP (carries k.name) ≤ 1)
    (hspec : compileQuery q today = .ok spec) :
    compileQuery (Editor.set q k.name none) today = .ok (spec.put k .empty) ↔
      ¬ UncoversHeading k q ∧
        ('\n' ∉ normalizeQuery (Editor.set q k.name none) →
          ReadsAlike today (normalizeQuery (Editor.set q k.name none))) := by
  obtain ⟨pre, old, post, hplace⟩ := exists_place honce
  have hparts := hplace.lineParts_set_none hq
  have hlines := hplace.compileParts_others_iff hq hspec
  by_cases hnewline : '\n' ∈ normalizeQuery (Editor.set q k.name none)
  · rw [compileQuery_eq, splitQuery_of_newline hnewline, hparts, hlines]
    exact ⟨fun h => ⟨h, fun habsent => absurd hnewline habsent⟩, And.left⟩
  · have hcompile : compileQuery (Editor.set q k.name none) today =
        compileParts today (dropHeading (partsOfWords
          (words (normalizeQuery (Editor.set q k.name none))))) := by
      rw [compileQuery_eq, splitQuery_of_not_newline hnewline]
    constructor
    · intro heq
      have hcovered : ¬ UncoversHeading k q := by
        intro huncovers
        -- Alone in the query, the heading is left out of the row of words too.
        have halike := huncovers.readsAlike hplace hq hnewline today
        rw [ReadsAlike, ← hcompile, heq, hparts] at halike
        exact hlines.mp halike huncovers
      refine ⟨hcovered, fun _ => ?_⟩
      rw [ReadsAlike, ← hcompile, heq, hparts]
      exact hlines.mpr hcovered
    · rintro ⟨hcovered, halike⟩
      rw [hcompile, ← halike hnewline, hparts]
      exact hlines.mpr hcovered

/-- A directive with one word as its value may be left alone. -/
theorem compileQuery_set_none_iff_oneWord :
    LineFed "limit: 3\r\nTAG: work".toList ∧
      compileQuery "limit: 3\r\nTAG: work".toList .first =
        .ok { tagsInclude := some ["work".toList], limit := some 3 } ∧
      compileQuery (Editor.set "limit: 3\r\nTAG: work".toList "limit".toList none) .first =
        .ok { tagsInclude := some ["work".toList] } := by
  have hfed : LineFed "limit: 3\r\nTAG: work".toList := by decide +kernel
  have hspec : compileQuery "limit: 3\r\nTAG: work".toList .first =
      .ok { tagsInclude := some ["work".toList], limit := some 3 } := by decide +kernel
  have hcovered : ¬ UncoversHeading .limit "limit: 3\r\nTAG: work".toList := by
    rintro ⟨first, second, rest, hparts, -, hheading⟩
    have hlines : lineParts (normalizeQuery "limit: 3\r\nTAG: work".toList) =
        ["limit: 3".toList, "TAG: work".toList] := by decide +kernel
    rw [hlines] at hparts
    obtain ⟨-, hparts⟩ := List.cons.inj hparts
    obtain ⟨rfl, -⟩ := List.cons.inj hparts
    exact absurd hheading (by decide +kernel)
  have hvalid : (QueryItem.directive .tag "TAG".toList "work".toList).Valid :=
    ⟨by decide +kernel, by decide +kernel, by decide⟩
  have halike : ReadsAlike .first "TAG: work".toList := readsAlike_of_item hvalid .first
  have hleft : normalizeQuery (Editor.set "limit: 3\r\nTAG: work".toList Keyword.limit.name none) =
      "TAG: work".toList := by decide +kernel
  exact ⟨hfed, hspec, (compileQuery_set_none_iff (k := .limit) hfed (by decide +kernel) hspec).mpr
    ⟨hcovered, fun _ => hleft ▸ halike⟩⟩

/-- A value of two words falls apart when its line is left alone: the second word becomes a text to
look for. -/
theorem not_compileQuery_set_none_twoWords :
    LineFed "tag: a b\nlimit: 3".toList ∧
      (queryLines "tag: a b\nlimit: 3".toList).countP (carries Keyword.limit.name) ≤ 1 ∧
      compileQuery "tag: a b\nlimit: 3".toList .first =
        .ok { tagsInclude := some ["a b".toList], limit := some 3 } ∧
      compileQuery (Editor.set "tag: a b\nlimit: 3".toList Keyword.limit.name none) .first =
        .ok { tagsInclude := some ["a".toList], freeText := some "b".toList } ∧
      ¬ compileQuery (Editor.set "tag: a b\nlimit: 3".toList Keyword.limit.name none) .first =
        .ok (Spec.put { tagsInclude := some ["a b".toList], limit := some 3 } .limit .empty) := by
  exact ⟨by decide +kernel, by decide +kernel, by decide +kernel, by decide +kernel,
    by decide +kernel⟩

end Checklist
