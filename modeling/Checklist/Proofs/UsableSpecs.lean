import Checklist.Proofs.Compiling
import Checklist.Proofs.DateWindows
import Checklist.Proofs.QueryLines
import Checklist.Proofs.RowBlocks
import Checklist.Proofs.TidyTexts

/-!
# Usable specifications — what compiling a query can give

A specification is usable when whatever it sets can be used: lists have items, none of them blank,
texts are not blank, a window is bounded on a side, and a limit is positive (`Spec.Usable`). Every
directive sets something usable or nothing (`usable_patch`), merging keeps that (`Usable.merge`),
and so every query that is compiled has a usable specification (`usable_of_compileQuery`). Compiling
fails for one reason only, a word for today or tomorrow whose window would end beyond the calendar
(`DateWindow.ofText?_eq_error_iff`), so a query has a usable specification exactly when none of its
parts is such a directive (`exists_usable_compileQuery_iff`). On the last day of the calendar there
are queries that have none (`not_exists_usable_dueToday`).
-/

namespace Checklist

open Text

/-! ## Windows at the end of the calendar -/

namespace DateWindow

variable {value : Text} {today : Date}

theorem only?_eq_none_iff {day : Date} : only? day = none ↔ day = .last := by
  rw [only?, Option.map_eq_none_iff, Date.next?_eq_none_iff]

theorem onlyOrOverflow_eq_error_iff {day : Option Date} {e : DateOverflow} :
    onlyOrOverflow day = .error e ↔ day.bind only? = none := by
  unfold onlyOrOverflow
  cases day.bind only? <;> simp

/-- What is left of a value is a word exactly when the value says that word. -/
theorem lower_trim_eq_iff {word : Text}
    (hplain : ∀ c ∈ word, isPlain c = true ∧ isBlank c = false) :
    lower (trim value) = word ↔ Says word value := by
  constructor
  · intro h
    obtain ⟨before, behind, hbefore, hbehind, hvalue⟩ := exists_trim_eq value
    exact ⟨before, trim value, behind, hbefore, hbehind,
      (lowerFrom_eq_iff (fun c hc => (hplain c hc).1) false _).mp h, hvalue⟩
  · exact fun h => h.lower_trim hplain

/-- The value asks for a window that would end beyond the calendar. -/
def EndsBeyond (value : Text) (today : Date) : Prop :=
  Says "today".toList value ∧ today = .last ∨
    Says "tomorrow".toList value ∧ (today = .last ∨ today.Precedes .last)

/-- The words for today and tomorrow fail at the end of the calendar, and nothing else fails. -/
theorem ofText?_eq_error_iff {e : DateOverflow} :
    ofText? value today = .error e ↔ EndsBeyond value today := by
  have hwords : "tomorrow".toList ≠ "today".toList := by decide
  have htoday : lower (trim value) = "today".toList ↔ Says "today".toList value :=
    lower_trim_eq_iff (forall_mem_of_all (by decide))
  have htomorrow : lower (trim value) = "tomorrow".toList ↔ Says "tomorrow".toList value :=
    lower_trim_eq_iff (forall_mem_of_all (by decide))
  rw [EndsBeyond, ← htoday, ← htomorrow]
  simp only [ofText?]
  split
  · next heq =>
      rw [onlyOrOverflow_eq_error_iff, Option.bind_some, only?_eq_none_iff, heq]
      simp
  · next hne =>
      split
      · next heq =>
          rw [onlyOrOverflow_eq_error_iff, Option.bind_eq_none_iff, heq]
          simp only [only?_eq_none_iff, hwords, false_and, false_or, true_and]
          rw [← Date.next?_eq_some_iff]
          -- For tomorrow, the last day fails for want of a next one, and the day before for want of
          -- one after that.
          cases hnext : today.next? with
          | none => simp [Date.next?_eq_none_iff.mp hnext]
          | some next =>
              have hlast : today ≠ .last := fun h => by
                rw [Date.next?_eq_none_iff.mpr h] at hnext
                exact absurd hnext (by simp)
              simp [hlast]
      · next hne' =>
          simp only [hne, hne', false_and, or_self, iff_false]
          split <;> simp

/-- A window that is described is bounded on a side. -/
theorem ne_of_ofText? {w : DateWindow} (h : ofText? value today = .ok (some w)) :
    w ≠ ⟨none, none⟩ := by
  have honly {day : Date} (hday : only? day = some w) : w ≠ ⟨none, none⟩ := by
    obtain ⟨next, -, rfl⟩ := Option.map_eq_some_iff.mp hday
    simp
  have honlyBind {day : Option Date} (hday : day.bind only? = some w) : w ≠ ⟨none, none⟩ := by
    obtain ⟨day, -, hday⟩ := Option.bind_eq_some_iff.mp hday
    exact honly hday
  -- The words for days give a window of one day, as a written day does.
  have hword {day : Option Date} (hday : onlyOrOverflow day = .ok (some w)) :
      w ≠ ⟨none, none⟩ := by
    unfold onlyOrOverflow at hday
    split at hday
    · next found hfound =>
        obtain rfl := Option.some.inj (Except.ok.inj hday)
        exact honlyBind hfound
    · exact nomatch hday
  simp only [ofText?] at h
  split at h
  · exact hword h
  split at h
  · exact hword h
  split at h
  · obtain ⟨day, -, rfl⟩ := Option.map_eq_some_iff.mp (Except.ok.inj h)
    simp
  · obtain ⟨day, -, rfl⟩ := Option.map_eq_some_iff.mp (Except.ok.inj h)
    simp
  · exact honlyBind (Except.ok.inj h)

end DateWindow

/-! ## What directives set -/

/-- A list of items, none of them blank. -/
def IsItemList (items : List Text) : Prop := items ≠ [] ∧ ∀ item ∈ items, IsTidy item

theorem unlessEmpty_eq_some_iff {α : Type} {items found : List α} :
    unlessEmpty items = some found ↔ items = found ∧ found ≠ [] := by
  unfold unlessEmpty
  split
  · next h =>
      obtain rfl := List.isEmpty_iff.mp h
      simp only [reduceCtorEq, false_iff, not_and, not_not]
      exact Eq.symm
  · next h =>
      simp only [Option.some.injEq, iff_self_and]
      rintro rfl
      simpa using h

namespace Spec

/-- Whatever the specification sets can be used. -/
structure Usable (spec : Spec) : Prop where
  statusIn : ∀ items ∈ spec.statusIn, IsItemList items
  priorityIn : ∀ items ∈ spec.priorityIn, IsItemList items
  tagsInclude : ∀ items ∈ spec.tagsInclude, IsItemList items
  tagsExclude : ∀ items ∈ spec.tagsExclude, IsItemList items
  dueWindow : ∀ w ∈ spec.dueWindow, w ≠ ⟨none, none⟩
  startsWindow : ∀ w ∈ spec.startsWindow, w ≠ ⟨none, none⟩
  pathGlob : ∀ s ∈ spec.pathGlob, IsTidy s
  freeText : ∀ s ∈ spec.freeText, IsTidy s
  limit : ∀ n ∈ spec.limit, 0 < n

theorem usable_empty : Usable .empty := by
  constructor <;> simp [empty]

/-- What is set in a merge is set in one of the two. -/
theorem Usable.merge {a b : Spec} (ha : a.Usable) (hb : b.Usable) : (a.merge b).Usable := by
  have hor {α : Type} {P : α → Prop} {x y : Option α} (hx : ∀ v ∈ x, P v) (hy : ∀ v ∈ y, P v) :
      ∀ v ∈ (x <|> y), P v := by
    cases x with
    | none => exact hy
    | some x => exact hx
  exact {
    statusIn := hor hb.statusIn ha.statusIn
    priorityIn := hor hb.priorityIn ha.priorityIn
    tagsInclude := hor hb.tagsInclude ha.tagsInclude
    tagsExclude := hor hb.tagsExclude ha.tagsExclude
    dueWindow := hor hb.dueWindow ha.dueWindow
    startsWindow := hor hb.startsWindow ha.startsWindow
    pathGlob := hor hb.pathGlob ha.pathGlob
    freeText := hor hb.freeText ha.freeText
    limit := hor hb.limit ha.limit }

end Spec

variable {value text : Text} {today : Date} {spec patch : Spec}

theorem isTidy_of_mem_splitList {item : Text} (h : item ∈ splitList value) : IsTidy item := by
  obtain ⟨hmem, hne⟩ := List.mem_filter.mp h
  obtain ⟨piece, -, rfl⟩ := List.mem_map.mp hmem
  exact isTidy_trim (by simpa using hne)

theorem isItemList_of_splitList : ∀ items ∈ unlessEmpty (splitList value), IsItemList items := by
  intro items h
  obtain ⟨rfl, hne⟩ := unlessEmpty_eq_some_iff.mp h
  exact ⟨hne, fun item hitem => isTidy_of_mem_splitList hitem⟩

theorem isItemList_of_lower :
    ∀ items ∈ unlessEmpty ((splitList value).map lower), IsItemList items := by
  intro items h
  obtain ⟨rfl, hne⟩ := unlessEmpty_eq_some_iff.mp h
  refine ⟨hne, fun item hitem => ?_⟩
  obtain ⟨written, hwritten, rfl⟩ := List.mem_map.mp hitem
  exact (isTidy_of_mem_splitList hwritten).lower

/-- Whatever a directive sets can be used. -/
theorem Keyword.usable_patch {k : Keyword} (h : k.patch value today = .ok patch) :
    patch.Usable := by
  have hwindow {f : Option DateWindow → Spec}
      (h : (DateWindow.ofText? value today).map f = .ok patch) :
      ∃ w, patch = f w ∧ ∀ window ∈ w, window ≠ ⟨none, none⟩ := by
    cases hvalue : DateWindow.ofText? value today with
    | error e =>
        rw [hvalue] at h
        exact nomatch h
    | ok w =>
        rw [hvalue] at h
        refine ⟨w, (Except.ok.inj h).symm, ?_⟩
        rintro window rfl
        exact DateWindow.ne_of_ofText? hvalue
  -- One field is set by each keyword, and the others are those of the empty query.
  cases k with
  | status =>
      obtain rfl := Except.ok.inj h
      exact { Spec.usable_empty with statusIn := isItemList_of_lower }
  | priority =>
      obtain rfl := Except.ok.inj h
      exact { Spec.usable_empty with priorityIn := isItemList_of_lower }
  | due =>
      obtain ⟨w, rfl, hw⟩ := hwindow h
      exact { Spec.usable_empty with dueWindow := hw }
  | starts =>
      obtain ⟨w, rfl, hw⟩ := hwindow h
      exact { Spec.usable_empty with startsWindow := hw }
  | tag =>
      obtain rfl := Except.ok.inj h
      exact { Spec.usable_empty with tagsInclude := isItemList_of_splitList }
  | excludedTag =>
      obtain rfl := Except.ok.inj h
      exact { Spec.usable_empty with tagsExclude := isItemList_of_splitList }
  | path =>
      obtain rfl := Except.ok.inj h
      refine { Spec.usable_empty with pathGlob := fun s hs => ?_ }
      obtain ⟨rfl, hne⟩ := unlessEmpty_eq_some_iff.mp hs
      exact isTidy_trim hne
  | limit =>
      obtain rfl := Except.ok.inj h
      refine { Spec.usable_empty with limit := fun n hn => ?_ }
      exact of_decide_eq_true (Option.filter_eq_some_iff.mp hn).2
  | sort =>
      obtain rfl := Except.ok.inj h
      exact { Spec.usable_empty with }

theorem usable_partPatch {part : Text} (h : partPatch today part = .ok patch) : patch.Usable := by
  unfold partPatch at h
  split at h
  · exact Keyword.usable_patch h
  · obtain rfl := Except.ok.inj h
    exact Spec.usable_empty

theorem usable_mergePatches {parts : List Text} (h : mergePatches today parts = .ok spec) :
    spec.Usable := by
  induction parts generalizing spec with
  | nil =>
      obtain rfl := Except.ok.inj h
      exact Spec.usable_empty
  | cons part parts ih =>
      obtain ⟨a, b, ha, hb, rfl⟩ := mergePatches_cons_eq_ok_iff.mp h
      exact (usable_partPatch ha).merge (ih hb)

/-! ## The words to look for -/

theorem matchDirective_start_append (k : Keyword) (value : Text) :
    matchDirective (k.start ++ value) = some (k, trim value) :=
  matchDirective_eq_some_iff.mpr ⟨k.start, value, rfl, by cases k <;> decide, rfl⟩

/-- The parts of a row of words that are no directives are words of the row. -/
theorem mem_of_mem_partsOfWords {words : List Text} {part : Text}
    (hpart : matchDirective part = none) (h : part ∈ partsOfWords words) : part ∈ words := by
  fun_induction partsOfWords words with
  | case1 => exact h
  | case2 word rest hword ih =>
      rcases List.mem_cons.mp h with rfl | h
      · exact List.mem_cons_self
      · exact List.mem_cons_of_mem _ (ih h)
  | case3 word rest k value hword ih =>
      rcases List.mem_cons.mp h with rfl | h
      · rw [matchDirective_start_append] at hpart
        exact absurd hpart (Option.some_ne_none _)
      · exact List.mem_cons_of_mem _ ((takes_takeValue k value rest).suffix.mem (ih h))

/-- The parts of a query that are no directives are tidy. -/
theorem isTidy_of_mem_splitQuery {part : Text} (hpart : matchDirective part = none)
    (h : part ∈ splitQuery text) : IsTidy part := by
  by_cases hline : '\n' ∈ normalizeQuery text
  · rw [splitQuery_of_newline hline] at h
    obtain ⟨hmem, hne⟩ := List.mem_filter.mp (mem_of_mem_dropHeading h)
    obtain ⟨line, -, rfl⟩ := List.mem_map.mp hmem
    exact isTidy_trim (by simpa using hne)
  · rw [splitQuery_of_not_newline hline] at h
    exact isTidy_of_mem_words (mem_of_mem_partsOfWords hpart (mem_of_mem_dropHeading h))

/-- What there is to look for is tidy. -/
theorem isTidy_freeText : ∀ s ∈ freeText? (splitQuery text), IsTidy s := by
  intro s hs
  obtain ⟨free, hfree, rfl⟩ := Option.map_eq_some_iff.mp hs
  obtain ⟨rfl, hne⟩ := unlessEmpty_eq_some_iff.mp hfree
  refine isTidy_joinWith hne fun part hpart => ?_
  obtain ⟨hmem, hnone⟩ := List.mem_filter.mp hpart
  exact isTidy_of_mem_splitQuery (Option.isNone_iff_eq_none.mp hnone) hmem

/-! ## Whole queries -/

theorem usable_of_compileQuery (h : compileQuery text today = .ok spec) : spec.Usable := by
  obtain ⟨merged, hmerged, rfl⟩ := compileParts_eq_ok_iff.mp (compileQuery_eq text today ▸ h)
  exact { usable_mergePatches hmerged with freeText := isTidy_freeText }

/-- The part is a date directive whose window would end beyond the calendar. -/
def AsksBeyond (today : Date) (part : Text) : Prop :=
  ∃ k value, matchDirective part = some (k, value) ∧ (k = .due ∨ k = .starts) ∧
    DateWindow.EndsBeyond value today

/-- A part fails when it is a date directive that asks for a day beyond the calendar. -/
theorem exists_partPatch_iff {part : Text} :
    (∃ patch, partPatch today part = .ok patch) ↔ ¬ AsksBeyond today part := by
  have hwindow (value : Text) (f : Option DateWindow → Spec) :
      (∃ patch, (DateWindow.ofText? value today).map f = .ok patch) ↔
        ¬ DateWindow.EndsBeyond value today := by
    cases hvalue : DateWindow.ofText? value today with
    | error e =>
        refine iff_of_false ?_ (not_not_intro (DateWindow.ofText?_eq_error_iff.mp hvalue))
        rintro ⟨patch, h⟩
        exact nomatch h
    | ok w =>
        refine iff_of_true ⟨f w, rfl⟩ fun hbeyond => ?_
        have herror : DateWindow.ofText? value today = .error ⟨⟩ :=
          DateWindow.ofText?_eq_error_iff.mpr hbeyond
        exact nomatch hvalue.symm.trans herror
  unfold partPatch AsksBeyond
  cases hpart : matchDirective part with
  | none => simp
  | some directive =>
      obtain ⟨k, value⟩ := directive
      -- Only the two keywords with a date can fail.
      cases k with
      | due => simpa [Keyword.patch] using hwindow value _
      | starts => simpa [Keyword.patch] using hwindow value _
      | _ => simp [Keyword.patch]

theorem exists_mergePatches_iff {parts : List Text} :
    (∃ spec, mergePatches today parts = .ok spec) ↔ ∀ part ∈ parts, ¬ AsksBeyond today part := by
  induction parts with
  | nil => exact ⟨fun _ _ h => absurd h List.not_mem_nil, fun _ => ⟨.empty, rfl⟩⟩
  | cons part parts ih =>
      rw [List.forall_mem_cons, ← ih, ← exists_partPatch_iff]
      constructor
      · rintro ⟨spec, h⟩
        obtain ⟨a, b, ha, hb, -⟩ := mergePatches_cons_eq_ok_iff.mp h
        exact ⟨⟨a, ha⟩, b, hb⟩
      · rintro ⟨⟨a, ha⟩, b, hb⟩
        exact ⟨a.merge b, mergePatches_cons_eq_ok_iff.mpr ⟨a, b, ha, hb, rfl⟩⟩

/-- **A query has a usable specification exactly when it asks for no day beyond the calendar.** -/
theorem exists_usable_compileQuery_iff (text : Text) (today : Date) :
    (∃ spec, compileQuery text today = .ok spec ∧ spec.Usable) ↔
      ∀ part ∈ splitQuery text, ¬ AsksBeyond today part := by
  -- The words to look for are put in last and never fail, so it is up to the patches.
  rw [← exists_mergePatches_iff]
  constructor
  · rintro ⟨spec, h, -⟩
    obtain ⟨merged, hmerged, -⟩ := compileParts_eq_ok_iff.mp (compileQuery_eq text today ▸ h)
    exact ⟨merged, hmerged⟩
  · rintro ⟨merged, hmerged⟩
    have h : compileQuery text today =
        .ok { merged with freeText := freeText? (splitQuery text) } :=
      compileParts_eq_ok_iff.mpr ⟨merged, hmerged, rfl⟩
    exact ⟨_, h, usable_of_compileQuery h⟩

/-- On the last day of the calendar the directive `due: today` has no specification at all, although
its window would be that day. -/
theorem not_exists_usable_dueToday :
    ¬ ∃ spec, compileQuery "due: today".toList .last = .ok spec ∧ spec.Usable := by
  have herror : compileQuery "due: today".toList .last = .error ⟨⟩ := by decide +kernel
  rintro ⟨spec, h, -⟩
  exact nomatch herror.symm.trans h

end Checklist
