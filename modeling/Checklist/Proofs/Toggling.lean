import Checklist.Proofs.KeyedLines

/-!
# Toggling — an item goes into a list or out of it

A list is written with commas between its items and read again (`splitList_joinWith`), as long as
each item is trimmed, not empty and without commas (`ListItem`), and the items that the editor reads
are all like that (`listItem_of_mem_getList`). So a keyword that stands on at most one line can be
set to any list (`getList_setList`); the empty list takes the line out. Toggling an item changes the
list accordingly, and the second time it takes out what it has added (`getList_toggle`).
-/

namespace Checklist

open Text

namespace Editor

/-- What can be an item of a list. -/
structure ListItem (item : Text) : Prop where
  ne_nil : item ≠ []
  trim_eq : trim item = item
  comma_not_mem : ',' ∉ item
  isLine : IsLine item

/-! ## Lists as texts -/

section Lists

variable {items : List Text} {value : Text}

theorem class_of_mem_splitList {item : Text} (h : item ∈ splitList value) :
    item ≠ [] ∧ trim item = item ∧ ',' ∉ item ∧ ∀ c ∈ item, c ∈ value := by
  obtain ⟨hmem, hne⟩ := List.mem_filter.mp h
  obtain ⟨piece, hpiece, rfl⟩ := List.mem_map.mp hmem
  refine ⟨by simpa using hne, trim_trim piece, ?_, ?_⟩
  · exact fun hcomma => sep_not_mem_of_mem_splitOn hpiece (mem_of_mem_trim hcomma)
  · intro c hc
    rw [← joinWith_splitOn ',' value]
    exact mem_joinWith_of_mem hpiece (mem_of_mem_trim hc)

/-- A list that is written is read again. -/
theorem splitList_joinWith (h : ∀ item ∈ items, ListItem item) :
    splitList (joinWith [','] items) = items := by
  by_cases hnil : items = []
  · subst hnil
    rfl
  · have htrim : items.map trim = items :=
      (List.map_congr_left fun item hitem => (h item hitem).trim_eq).trans (List.map_id items)
    rw [splitList, splitOn_joinWith hnil fun item hitem => (h item hitem).comma_not_mem, htrim]
    exact List.filter_eq_self.mpr fun item hitem => by simp [(h item hitem).ne_nil]

/-- A list that is written has no blanks at its ends. -/
theorem trim_joinWith_comma (h : ∀ item ∈ items, ListItem item) :
    trim (joinWith [','] items) = joinWith [','] items := by
  refine trim_eq_self ?_ ?_
  · intro c hc
    rw [head?_joinWith fun item hitem => (h item hitem).ne_nil] at hc
    obtain ⟨item, hitem, hc⟩ := Option.bind_eq_some_iff.mp hc
    refine isBlank_of_head_trim (s := item) ?_
    rw [(h item (List.mem_of_head? hitem)).trim_eq, hc]
  · intro c hc
    rw [getLast?_joinWith fun item hitem => (h item hitem).ne_nil] at hc
    obtain ⟨item, hitem, hc⟩ := Option.bind_eq_some_iff.mp hc
    refine isBlank_of_getLast_trim (s := item) ?_
    rw [(h item (List.mem_of_getLast? hitem)).trim_eq, hc]

theorem isLine_joinWith_comma (h : ∀ item ∈ items, ListItem item) :
    IsLine (joinWith [','] items) := by
  intro c hc
  rcases mem_joinWith hc with hc | ⟨item, hitem, hc⟩
  · rw [List.mem_singleton.mp hc]
    decide
  · exact (h item hitem).isLine c hc

end Lists

/-! ## Lists of keywords -/

section Keywords

variable {q item : Text} {k l : Keyword} {items : List Text}

theorem isLine_of_get {v : Text} (h : get q k.name = some v) : IsLine v := by
  rw [get_eq_findSome?] at h
  obtain ⟨line, hline, hvalue⟩ := List.exists_of_findSome?_eq_some h
  obtain ⟨p, rest, hp, -, rfl⟩ := matchDirective_eq_some_iff.mp (valueOn?_eq_some_iff.mp hvalue)
  intro c hc
  have hmem : c ∈ trim line := by
    rw [hp]
    exact List.mem_append_right p (mem_of_mem_trim hc)
  exact isLine_of_mem_queryLines hline c (mem_of_mem_trim hmem)

/-- The items that are read can be written. -/
theorem listItem_of_mem_getList (h : item ∈ getList q k.name) : ListItem item := by
  rw [getList] at h
  obtain ⟨hne, htrim, hcomma, hmem⟩ := class_of_mem_splitList h
  refine ⟨hne, htrim, hcomma, fun c hc => ?_⟩
  have hvalue := hmem c hc
  cases hget : get q k.name with
  | none =>
      rw [hget] at hvalue
      exact absurd hvalue List.not_mem_nil
  | some v =>
      rw [hget] at hvalue
      exact isLine_of_get hget c hvalue

/-- A blank value takes the keyword out. -/
theorem set_of_blank {v : Text} (hv : trim v = []) (q : Text) (k : Keyword) :
    Editor.set q k.name (some v) = Editor.set q k.name none := by
  have hnone : directiveLine? k.name (some v) = directiveLine? k.name none := by
    simp [directiveLine?, hv]
  rw [Editor.set, hnone, Editor.set]

/-- A keyword on at most one line stays on at most one line. -/
theorem countP_set_le_one {value : Option Text} (h : ∀ v ∈ value, IsLine v)
    (honce : (queryLines q).countP (carries k.name) ≤ 1) :
    (queryLines (Editor.set q k.name value)).countP (carries k.name) ≤ 1 := by
  rw [countP_queryLines_set h]
  rcases directiveLine?_cases k value with hnone | ⟨v, -, hfilled, hsome⟩
  · rw [hnone, countP_replaceFirst_none]
    omega
  · rw [hsome, countP_replaceFirst_some (carries_directiveLine hfilled)]
    omega

/-- A keyword that stands on at most one line can be set to any list. -/
theorem getList_setList (honce : (queryLines q).countP (carries k.name) ≤ 1)
    (h : ∀ item ∈ items, ListItem item) : getList (setList q k.name items) k.name = items := by
  have hwritten := splitList_joinWith h
  rw [getList, setList]
  by_cases hblank : trim (joinWith [','] items) = []
  · rw [set_of_blank hblank, (get_set_none_eq_none_iff q k).mpr honce]
    rw [trim_joinWith_comma h] at hblank
    rw [hblank] at hwritten
    exact hwritten
  · rw [get_set_self q k hblank (isLine_joinWith_comma h), trim_joinWith_comma h]
    exact hwritten

theorem toggle_of_mem (h : ∃ other ∈ getList q k.name, lower other = lower item) :
    toggle q k.name item =
      setList q k.name ((getList q k.name).filter (lower · ≠ lower item)) := by
  obtain ⟨other, hmem, heq⟩ := h
  exact if_pos (List.any_eq_true.mpr ⟨other, hmem, by simpa using heq⟩)

theorem toggle_of_not_mem (h : ∀ other ∈ getList q k.name, lower other ≠ lower item) :
    toggle q k.name item = setList q k.name (getList q k.name ++ [item]) :=
  if_neg (by simpa using h)

theorem listItem_of_mem_append (hitem : ListItem item) :
    ∀ other ∈ getList q k.name ++ [item], ListItem other := by
  intro other hother
  rcases List.mem_append.mp hother with hother | hother
  · exact listItem_of_mem_getList hother
  · rw [List.mem_singleton.mp hother]
    exact hitem

/-- Toggling sets the keyword to a list of items. -/
theorem exists_toggle_eq (hitem : ListItem item) (q : Text) (k : Keyword) :
    ∃ items, (∀ other ∈ items, ListItem other) ∧ toggle q k.name item = setList q k.name items := by
  by_cases h : ∃ other ∈ getList q k.name, lower other = lower item
  · refine ⟨_, fun other hother => ?_, toggle_of_mem h⟩
    exact listItem_of_mem_getList (List.mem_of_mem_filter hother)
  · simp only [not_exists, not_and] at h
    exact ⟨_, listItem_of_mem_append hitem, toggle_of_not_mem h⟩

/-- Toggling an item of a keyword that stands on at most one line takes the item out of the list,
however it is spelled, or puts it at the end when it was not there, and then toggling it once more
gives the list back. The values of the other keywords are not touched. -/
theorem getList_toggle (honce : (queryLines q).countP (carries k.name) ≤ 1)
    (hitem : ListItem item) :
    ((∃ other ∈ getList q k.name, lower other = lower item) →
      getList (toggle q k.name item) k.name =
        (getList q k.name).filter (lower · ≠ lower item)) ∧
    ((∀ other ∈ getList q k.name, lower other ≠ lower item) →
      getList (toggle q k.name item) k.name = getList q k.name ++ [item] ∧
        getList (toggle (toggle q k.name item) k.name item) k.name = getList q k.name) ∧
    ∀ l, l ≠ k → get (toggle q k.name item) l.name = get q l.name := by
  obtain ⟨items, hitems, hset⟩ := exists_toggle_eq hitem q k
  have hline : ∀ v ∈ some (joinWith [','] items), IsLine v := by
    rintro v hv
    obtain rfl := Option.some.inj hv
    exact isLine_joinWith_comma hitems
  refine ⟨?_, ?_, ?_⟩
  · intro h
    rw [toggle_of_mem h]
    exact getList_setList honce fun other hother =>
      listItem_of_mem_getList (List.mem_of_mem_filter hother)
  · intro h
    have hadded : getList (toggle q k.name item) k.name = getList q k.name ++ [item] := by
      rw [toggle_of_not_mem h]
      exact getList_setList honce (listItem_of_mem_append hitem)
    refine ⟨hadded, ?_⟩
    have honce' : (queryLines (toggle q k.name item)).countP (carries k.name) ≤ 1 := by
      rw [hset]
      exact countP_set_le_one hline honce
    have hmem : ∃ other ∈ getList (toggle q k.name item) k.name, lower other = lower item :=
      ⟨item, by simp [hadded], rfl⟩
    -- Of the longer list the item alone is taken out.
    rw [toggle_of_mem hmem, getList_setList honce' fun other hother =>
      listItem_of_mem_getList (List.mem_of_mem_filter hother), hadded, List.filter_append,
      List.filter_eq_self.mpr fun other hother => by simpa using h other hother]
    simp
  · intro l hne
    rw [hset]
    exact get_set_of_ne q hne hline

/-- A query with a list of one item, written with too many commas. -/
def oneStatus : Text := "status: Todo,,\n milk".toList

/-- The item is taken out however it is spelled; another one comes to it, and goes again. -/
theorem getList_toggle_oneStatus :
    (queryLines oneStatus).countP (carries "status".toList) ≤ 1 ∧
      ListItem "todo".toList ∧ ListItem "done".toList ∧
      getList (toggle oneStatus "status".toList "todo".toList) "status".toList = [] ∧
      getList (toggle oneStatus "status".toList "done".toList) "status".toList =
        ["Todo".toList, "done".toList] ∧
      getList (toggle (toggle oneStatus "status".toList "done".toList) "status".toList
        "done".toList) "status".toList = ["Todo".toList] := by
  have hone : getList oneStatus Keyword.status.name = ["Todo".toList] := by decide +kernel
  have honce : (queryLines oneStatus).countP (carries Keyword.status.name) ≤ 1 := by
    decide +kernel
  have htodo : ListItem "todo".toList :=
    ⟨by decide, by decide, by decide, forall_mem_of_all (by decide)⟩
  have hdone : ListItem "done".toList :=
    ⟨by decide, by decide, by decide, forall_mem_of_all (by decide)⟩
  have hout := (getList_toggle honce htodo).1 (by
    rw [hone]
    exact ⟨_, List.mem_singleton_self _, by decide⟩)
  obtain ⟨hadded, hback⟩ := (getList_toggle honce hdone).2.1 (by
    rw [hone]
    exact List.forall_mem_singleton.mpr (by decide))
  rw [hone] at hout hadded hback
  exact ⟨honce, htodo, hdone, hout.trans (by decide), hadded, hback⟩

end Keywords

end Editor

end Checklist
