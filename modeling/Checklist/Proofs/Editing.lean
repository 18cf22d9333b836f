import Checklist.Proofs.Compiling
import Checklist.Proofs.QueryLines

/-!
# Editing — what a changed line does to the compiled query

In a query whose lines are cut by line feeds (`LineFed`) the editor and the parser see the same
lines. A keyword that at most one of them carries has a place among them (`Place`): the line with
the keyword, or the end of the query. What stands there is a slot of the compiled query, so setting
the keyword changes its field and nothing else (`compileQuery_set`).
-/

namespace Checklist

open Text Editor

/-- A query of several lines, each of which is one line to the parser too: apart from the line feed,
a boundary stands at the ends of a line only. -/
structure LineFed (q : Text) : Prop where
  newline_mem : '\n' ∈ normalizeQuery q
  not_boundary : ∀ line ∈ queryLines q, ∀ c ∈ trim line, isBoundary c = false

theorem lineFed_iff {q : Text} : LineFed q ↔ (normalizeQuery q).contains '\n' = true ∧
    (queryLines q).all (fun line => (trim line).all (!isBoundary ·)) = true := by
  have hlines : (queryLines q).all (fun line => (trim line).all (!isBoundary ·)) = true ↔
      ∀ line ∈ queryLines q, ∀ c ∈ trim line, isBoundary c = false := by
    simp only [List.all_eq_true, Bool.not_eq_true']
  rw [List.contains_iff_mem, hlines]
  exact ⟨fun h => ⟨h.newline_mem, h.not_boundary⟩, fun h => ⟨h.1, h.2⟩⟩

instance (q : Text) : Decidable (LineFed q) := decidable_of_iff _ lineFed_iff.symm

namespace LineFed

variable {q line : Text}

theorem visible (h : LineFed q) (hline : line ∈ queryLines q) : ∀ c ∈ line, isInvisible c = false :=
  fun _ hc => isInvisible_of_mem_normalizeQuery (mem_normalizeQuery h.newline_mem hline hc)

/-- A line is one part, or none when it is blank. -/
theorem lineParts_eq (h : LineFed q) (hline : line ∈ queryLines q) :
    lineParts line = [trim line].filter (!·.isEmpty) := by
  rw [← lineParts_trim, lineParts_of_not_boundary (h.not_boundary line hline), trim_trim]

end LineFed

/-- Line feeds alone are boundaries that the editor and the parser agree on. -/
theorem lineFed_of_newline_only {q : Text} (hnewline : '\n' ∈ normalizeQuery q)
    (honly : ∀ c ∈ normalizeQuery q, isBoundary c = true → c = '\n') : LineFed q where
  newline_mem := hnewline
  not_boundary := by
    intro line hline c hc
    have hmem : c ∈ line := mem_of_mem_trim hc
    by_contra hboundary
    have hfeed : c = '\n' :=
      honly c (mem_normalizeQuery hnewline hline hmem) (by simpa using hboundary)
    rw [queryLines_eq hnewline] at hline
    exact sep_not_mem_of_mem_splitOn hline (hfeed ▸ hmem)

/-! ## The place of a keyword -/

/-- A line carries a keyword when its part is a directive with it. -/
theorem carries_name_iff {k : Keyword} {line : Text} :
    carries k.name line = true ↔ keyOf (trim line) = some k := by
  rw [keyOf_eq_some_iff, carries, k.lower_name]
  exact List.isPrefixOf_iff_prefix

/-- The lines before, at and after the place of a key that at most one of them carries. -/
structure Place (key : Text) (lines pre : List Text) (old : Option Text) (post : List Text) :
    Prop where
  lines_eq : lines = pre ++ old.toList ++ post
  others : ∀ line ∈ pre ++ post, carries key line = false
  own : ∀ line ∈ old, carries key line = true
  at_end : old = none → post = []
  replaceFirst_eq : ∀ new, replaceFirst key new lines = pre ++ new.toList ++ post

theorem exists_place {key : Text} {lines : List Text} (honce : lines.countP (carries key) ≤ 1) :
    ∃ pre old post, Place key lines pre old post := by
  induction lines with
  | nil =>
      exact ⟨[], none, [], rfl, by simp, by simp, fun _ => rfl, fun new => by simp [replaceFirst]⟩
  | cons line lines ih =>
      cases hline : carries key line with
      | true =>
          rw [List.countP_cons_of_pos hline] at honce
          have hnone : lines.countP (carries key) = 0 := by omega
          exact ⟨[], some line, lines,
            { lines_eq := rfl
              others := by simpa using hnone
              own := by simpa using hline
              at_end := fun h => absurd h (by simp)
              replaceFirst_eq := fun new => by simp [replaceFirst, hline] }⟩
      | false =>
          -- The line stands before the place that the lines behind it have.
          rw [List.countP_cons_of_neg (by simp [hline])] at honce
          obtain ⟨pre, old, post, hplace⟩ := ih honce
          exact ⟨line :: pre, old, post,
            { lines_eq := by rw [hplace.lines_eq]; rfl
              others := by simpa [hline] using hplace.others
              own := hplace.own
              at_end := hplace.at_end
              replaceFirst_eq := fun new => by
                simp only [replaceFirst, hline, hplace.replaceFirst_eq new]
                rfl }⟩

namespace Place

variable {q : Text} {k : Keyword} {pre post : List Text} {old : Option Text}

theorem mem_of_mem_others (h : Place k.name (queryLines q) pre old post) {line : Text}
    (hline : line ∈ pre ++ post) : line ∈ queryLines q := by
  rw [h.lines_eq]
  rcases List.mem_append.mp hline with hline | hline
  · exact List.mem_append_left _ (List.mem_append_left _ hline)
  · exact List.mem_append_right _ hline

theorem mem_of_mem_old (h : Place k.name (queryLines q) pre old post) {line : Text}
    (hline : line ∈ old) : line ∈ queryLines q := by
  rw [h.lines_eq]
  exact List.mem_append_left _ (List.mem_append_right _ (Option.mem_toList.mpr hline))

/-- No part of the other lines carries the keyword. -/
theorem keyOf_ne (h : Place k.name (queryLines q) pre old post) (hq : LineFed q) {p : Text}
    (hp : p ∈ pre.flatMap lineParts ++ post.flatMap lineParts) : keyOf p ≠ some k := by
  rw [← List.flatMap_append] at hp
  obtain ⟨line, hline, hp⟩ := List.mem_flatMap.mp hp
  rw [hq.lineParts_eq (h.mem_of_mem_others hline)] at hp
  rw [List.mem_singleton.mp (List.mem_of_mem_filter hp), Ne, ← carries_name_iff]
  simp [h.others line hline]

/-- Nor does one of those that stay when a heading is left out. -/
theorem keyOf_ne_of_mem_dropHeading (h : Place k.name (queryLines q) pre old post) (hq : LineFed q)
    {p : Text} (hp : p ∈ dropHeading (pre.flatMap lineParts) ++ post.flatMap lineParts) :
    keyOf p ≠ some k := by
  refine h.keyOf_ne hq ?_
  rcases List.mem_append.mp hp with hp | hp
  · exact List.mem_append_left _ (mem_of_mem_dropHeading hp)
  · exact List.mem_append_right _ hp

/-- The line with the keyword is one part, a directive with that keyword. -/
theorem exists_part_of_some {line : Text} (h : Place k.name (queryLines q) pre (some line) post)
    (hq : LineFed q) :
    ∃ value, lineParts line = [trim line] ∧ matchDirective (trim line) = some (k, value) := by
  have hkey : keyOf (trim line) = some k := carries_name_iff.mp (h.own line rfl)
  obtain ⟨⟨l, value⟩, hpart, rfl⟩ := Option.map_eq_some_iff.mp hkey
  refine ⟨value, ?_, hpart⟩
  have hne : trim line ≠ [] := ne_nil_of_matchDirective hpart
  rw [hq.lineParts_eq (h.mem_of_mem_old rfl), List.filter_cons_of_pos (by simp [hne]),
    List.filter_nil]

theorem lineParts_eq (h : Place k.name (queryLines q) pre old post) (hq : LineFed q) :
    lineParts (normalizeQuery q) = pre.flatMap lineParts ++ old.toList.flatMap lineParts ++
      post.flatMap lineParts := by
  rw [lineParts_normalizeQuery hq.newline_mem, h.lines_eq, List.flatMap_append,
    List.flatMap_append]

/-- What stands at the place is a slot of the compiled query. -/
theorem exists_slot (h : Place k.name (queryLines q) pre old post) (hq : LineFed q) {today : Date}
    {spec : Spec} (hspec : compileQuery q today = .ok spec) :
    ∃ patch, Slot today k (old.toList.flatMap lineParts) patch ∧
      compileParts today (dropHeading (pre.flatMap lineParts) ++ old.toList.flatMap lineParts ++
        post.flatMap lineParts) = .ok spec := by
  rw [compileQuery_eq, splitQuery_of_newline hq.newline_mem, h.lineParts_eq hq] at hspec
  cases old with
  | none =>
      rw [dropHeading_append (by simp) _ (fun _ => by rw [h.at_end rfl]; rfl)] at hspec
      exact ⟨.empty, .vacant, hspec⟩
  | some line =>
      obtain ⟨value, hparts, hpart⟩ := h.exists_part_of_some hq
      have hmid : (some line).toList.flatMap lineParts = [trim line] := by
        simpa using hparts
      rw [hmid] at hspec ⊢
      rw [dropHeading_append (by simp [isFree, hpart]) _ (by simp)] at hspec
      obtain ⟨patch, hslot⟩ := exists_slot_of_compileParts hpart hspec
      exact ⟨patch, hslot, hspec⟩

/-- Lines that are visible stay visible with a visible line at the place. -/
theorem visible (h : Place k.name (queryLines q) pre old post) (hq : LineFed q) {new : Option Text}
    (hnew : ∀ line ∈ new, ∀ c ∈ line, isInvisible c = false) :
    ∀ line ∈ pre ++ new.toList ++ post, ∀ c ∈ line, isInvisible c = false := by
  intro line hline
  by_cases hmem : line ∈ pre ++ post
  · exact hq.visible (h.mem_of_mem_others hmem)
  · refine hnew line (Option.mem_toList.mp ?_)
    simp only [List.mem_append, not_or] at hmem hline
    exact (hline.resolve_right hmem.2).resolve_left hmem.1

/-- The edited query has the parts of its lines. -/
theorem lineParts_set (h : Place k.name (queryLines q) pre old post) (hq : LineFed q)
    {value new : Option Text} (hvalue : directiveLine? k.name value = new)
    (hnew : ∀ line ∈ new, ∀ c ∈ line, isInvisible c = false) :
    lineParts (normalizeQuery (Editor.set q k.name value)) =
      pre.flatMap lineParts ++ new.toList.flatMap lineParts ++ post.flatMap lineParts := by
  rw [Editor.set, hvalue, h.replaceFirst_eq, lineParts_ofLines (h.visible hq hnew),
    List.flatMap_append, List.flatMap_append]

/-- With a line at the place the query still has several lines. -/
theorem newline_mem_set (h : Place k.name (queryLines q) pre old post) (hq : LineFed q)
    {value : Option Text} {new : Text} (hvalue : directiveLine? k.name value = some new)
    (hnew : ∀ c ∈ new, isInvisible c = false) (hfilled : trim new ≠ []) :
    '\n' ∈ normalizeQuery (Editor.set q k.name value) := by
  have hvisible : ∀ line ∈ pre ++ (some new).toList ++ post, ∀ c ∈ line, isInvisible c = false :=
    h.visible hq (by simpa using hnew)
  rw [Editor.set, hvalue, h.replaceFirst_eq]
  refine newline_mem_ofLines hvisible ?_
  have htwo := two_le_countP_isFilled hq.newline_mem
  have hold : old.toList.countP isFilled ≤ 1 :=
    List.countP_le_length.trans Option.length_toList_le
  have hone : (some new).toList.countP isFilled = 1 := by
    simp [isFilled_iff.mpr hfilled]
  rw [h.lines_eq, List.countP_append, List.countP_append] at htwo
  rw [List.countP_append, List.countP_append, hone]
  omega

end Place

/-! ## Setting a keyword -/

section Setting

variable {k : Keyword} {v : Text}

/-- The line of a directive. -/
def directiveLine (k : Keyword) (v : Text) : Text := k.name ++ ':' :: ' ' :: v

theorem directiveLine?_some (hv : trim v ≠ []) :
    directiveLine? k.name (some v) = some (directiveLine k (trim v)) := by
  simp [directiveLine?, hv, directiveLine]

theorem mem_directiveLine {c : Char} (h : c ∈ directiveLine k v) :
    c ∈ k.start ∨ c = ' ' ∨ c ∈ v := by
  simpa [directiveLine, Keyword.start, or_assoc] using h

theorem matchDirective_directiveLine (hv : trim v = v) :
    matchDirective (directiveLine k v) = some (k, v) := by
  have hlower : k.start.map Char.toLower = k.start := by cases k <;> decide
  rw [matchDirective_eq_some_iff]
  refine ⟨k.start, ' ' :: v, by simp [directiveLine, Keyword.start], hlower, ?_⟩
  have hspace : trim ([' '] ++ v) = trim v := trim_of_blank_append (by simp) v
  rw [← List.singleton_append, hspace, hv]

theorem trim_directiveLine (hv : trim v = v) (hne : v ≠ []) :
    trim (directiveLine k v) = directiveLine k v := by
  refine trim_eq_self ?_ ?_
  · intro c hc
    cases k <;> (obtain rfl := Option.some.inj hc; decide)
  · intro c hc
    refine isBlank_of_getLast_trim (s := v) ?_
    cases v with
    | nil => exact absurd rfl hne
    | cons d v =>
        rw [hv]
        simpa [directiveLine] using hc

theorem not_boundary_directiveLine (hv : ∀ c ∈ v, isBoundary c = false) :
    ∀ c ∈ directiveLine k v, isBoundary c = false := by
  intro c hc
  rcases mem_directiveLine hc with hc | rfl | hc
  · by_contra hboundary
    have hblank := isBlank_of_isBoundary (by simpa using hboundary)
    rw [(Keyword.isPlain_of_mem_start hc).2] at hblank
    exact absurd hblank (by decide)
  · decide
  · exact hv c hc

/-- The line of a directive is one part. -/
theorem lineParts_directiveLine (hv : trim v = v) (hne : v ≠ [])
    (hline : ∀ c ∈ v, isBoundary c = false) :
    lineParts (directiveLine k v) = [directiveLine k v] := by
  have hpart : matchDirective (directiveLine k v) = some (k, v) := matchDirective_directiveLine hv
  rw [lineParts_of_not_boundary (not_boundary_directiveLine hline), trim_directiveLine hv hne,
    List.filter_cons_of_pos (by simp [ne_nil_of_matchDirective hpart]), List.filter_nil]

theorem visible_directiveLine (hv : ∀ c ∈ v, isInvisible c = false) :
    ∀ c ∈ directiveLine k v, isInvisible c = false := by
  intro c hc
  rcases mem_directiveLine hc with hc | rfl | hc
  · exact isInvisible_of_ascii (isPlain_ascii (Keyword.isPlain_of_mem_start hc).1)
  · decide
  · exact hv c hc

end Setting

/-- Setting a keyword to a value of one line changes the field of the keyword to what the value
says, which is nothing when the value is of no use, and it changes no other field. -/
theorem compileQuery_set {q v : Text} {k : Keyword} {today : Date} {spec patch : Spec}
    (hq : LineFed q) (honce : (queryLines q).countP (carries k.name) ≤ 1) (hfilled : trim v ≠ [])
    (hline : ∀ c ∈ trim v, isBoundary c = false) (hvisible : ∀ c ∈ v, isInvisible c = false)
    (hspec : compileQuery q today = .ok spec) (hpatch : k.patch (trim v) today = .ok patch) :
    compileQuery (Editor.set q k.name (some v)) today = .ok (spec.put k patch) := by
  obtain ⟨pre, old, post, hplace⟩ := exists_place honce
  obtain ⟨before, hslot, hcompiled⟩ := hplace.exists_slot hq hspec
  have hnew := directiveLine?_some (k := k) hfilled
  have hshown : ∀ c ∈ directiveLine k (trim v), isInvisible c = false :=
    visible_directiveLine fun c hc => hvisible c (mem_of_mem_trim hc)
  have hpart : matchDirective (directiveLine k (trim v)) = some (k, trim v) :=
    matchDirective_directiveLine (trim_trim v)
  have hparts : lineParts (directiveLine k (trim v)) = [directiveLine k (trim v)] :=
    lineParts_directiveLine (trim_trim v) hfilled hline
  have hslot' : Slot today k [directiveLine k (trim v)] patch := .filled hpart hpatch
  have hsplit : splitQuery (Editor.set q k.name (some v)) =
      dropHeading (pre.flatMap lineParts) ++ [directiveLine k (trim v)] ++
        post.flatMap lineParts := by
    -- With the new line in it the query keeps several lines, so the dialect stays the same.
    have hnewline := hplace.newline_mem_set hq hnew hshown (by
      rw [trim_directiveLine (trim_trim v) hfilled]
      exact ne_nil_of_matchDirective hpart)
    rw [splitQuery_of_newline hnewline, hplace.lineParts_set hq hnew (by simpa using hshown)]
    have hmid : (some (directiveLine k (trim v))).toList.flatMap lineParts =
        [directiveLine k (trim v)] := by simpa using hparts
    rw [hmid]
    exact dropHeading_append hslot'.not_isFree _ (by simp)
  rw [compileQuery_eq, hsplit]
  exact hslot.exchange hslot' (fun p hp => hplace.keyOf_ne_of_mem_dropHeading hq hp) hcompiled

/-- A value that is of no use unsets what the line has set before. -/
theorem compileQuery_set_useless :
    LineFed "tasks\ntag: work, home\nDUE: <2024-07-01\nmilk".toList ∧
      compileQuery "tasks\ntag: work, home\nDUE: <2024-07-01\nmilk".toList .first =
        .ok { tagsInclude := some ["work".toList, "home".toList],
              dueWindow := some ⟨none, some ⟨2024, 7, 1, by decide⟩⟩,
              freeText := some "milk".toList } ∧
      compileQuery (Editor.set "tasks\ntag: work, home\nDUE: <2024-07-01\nmilk".toList
          "due".toList (some " someday".toList)) .first =
        .ok { tagsInclude := some ["work".toList, "home".toList],
              freeText := some "milk".toList } := by
  have hfed : LineFed "tasks\ntag: work, home\nDUE: <2024-07-01\nmilk".toList := by
    decide +kernel
  have hspec : compileQuery "tasks\ntag: work, home\nDUE: <2024-07-01\nmilk".toList .first =
      .ok { tagsInclude := some ["work".toList, "home".toList],
            dueWindow := some ⟨none, some ⟨2024, 7, 1, by decide⟩⟩,
            freeText := some "milk".toList } := by decide +kernel
  have hpatch : Keyword.due.patch (trim " someday".toList) .first = .ok .empty := by
    decide +kernel
  exact ⟨hfed, hspec, compileQuery_set (k := .due) hfed (by decide +kernel) (by decide)
    (forall_mem_of_all (by decide)) (forall_mem_of_all (by decide)) hspec hpatch⟩

end Checklist
