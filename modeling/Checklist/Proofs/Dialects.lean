import Mathlib.Data.List.Chain
import Mathlib.Data.List.Forall2
import Checklist.Proofs.Compiling
import Checklist.Proofs.QueryLines

/-!
# Dialects — a query on many lines and the same query in one row of words

An item is what both dialects can say: a word to look for, or a directive whose value is one word
or, for an order, a word and a direction. Written one below the other, items are parts by
themselves. Written in a row they are taken apart into words and put together again, word by word: a
keyword takes the next word as its value, and nothing is absorbed by the item before it as long as
no direction follows an order that has none (`partsOfWords_flatMap`). So both ways to write them are
compiled to the same specification (`compileQuery_lines_eq_row`).
-/

namespace Checklist

open Text

/-! ## Words and directions -/

/-- A word that may stand alone: it begins with no keyword. -/
structure BareWord (w : Text) : Prop where
  ne_nil : w ≠ []
  not_blank : ∀ c ∈ w, isBlank c = false
  visible : ∀ c ∈ w, isInvisible c = false
  no_keyword : ∀ k : Keyword, ¬ k.start <+: lower w

/-- A bare word is no directive. -/
theorem BareWord.matchDirective_eq {w : Text} (h : BareWord w) : matchDirective w = none :=
  matchDirective_eq_none_iff.mpr h.no_keyword

/-- Whether a word is bare can be computed. -/
theorem bareWord_iff {w : Text} : BareWord w ↔ w.isEmpty = false ∧
    w.all (fun c => !isBlank c && !isInvisible c) = true ∧ (matchDirective w).isNone = true := by
  have hclass : w.all (fun c => !isBlank c && !isInvisible c) = true ↔
      ∀ c ∈ w, isBlank c = false ∧ isInvisible c = false := by
    simp only [List.all_eq_true, Bool.and_eq_true, Bool.not_eq_true']
  rw [hclass, List.isEmpty_eq_false_iff, Option.isNone_iff_eq_none]
  constructor
  · intro h
    exact ⟨h.ne_nil, fun c hc => ⟨h.not_blank c hc, h.visible c hc⟩, h.matchDirective_eq⟩
  · rintro ⟨hne, hclass, hnone⟩
    exact ⟨hne, fun c hc => (hclass c hc).1, fun c hc => (hclass c hc).2,
      matchDirective_eq_none_iff.mp hnone⟩

instance (w : Text) : Decidable (BareWord w) := decidable_of_iff _ bareWord_iff.symm

/-- A direction is known by its name. -/
theorem SortDirection.ofName?_eq_some_iff {name : Text} {d : SortDirection} :
    SortDirection.ofName? name = some d ↔ name = d.name := by
  constructor
  · intro h
    have hname : d.name = name := by simpa using List.find?_some h
    exact hname.symm
  · rintro rfl
    cases d <;> decide

/-- A text that is no direction's name names none. -/
theorem SortDirection.ofName?_eq_none_iff {name : Text} :
    SortDirection.ofName? name = none ↔ ∀ d : SortDirection, name ≠ d.name := by
  simp only [Option.eq_none_iff_forall_ne_some, Ne, ofName?_eq_some_iff]

/-- What is plain letters in lower case is one visible word. -/
theorem class_of_lower_eq {s a : Text} (ha : ∀ d ∈ a, isPlain d = true ∧ isBlank d = false)
    (h : lower s = a) : ∀ c ∈ s, isBlank c = false ∧ isInvisible c = false := by
  have hmap : s.map Char.toLower = a := (lowerFrom_eq_iff (fun d hd => (ha d hd).1) false s).mp h
  intro c hc
  have hlower : c.toLower ∈ a := hmap ▸ List.mem_map_of_mem hc
  refine ⟨?_, isInvisible_of_ascii (ascii_of_isPlain_toLower (ha _ hlower).1)⟩
  by_contra hblank
  have hself := (lowerChar_of_isBlank (by simpa using hblank)).2
  exact hblank (hself ▸ (ha _ hlower).2)

/-- The names of the directions are made of plain letters. -/
theorem SortDirection.isPlain_of_mem_name {d : SortDirection} :
    ∀ c ∈ d.name, isPlain c = true ∧ isBlank c = false :=
  forall_mem_of_all (by cases d <;> decide +kernel)

/-- A keyword in any case, and its colon. -/
structure Spelled (k : Keyword) (w : Text) : Prop where
  toLower_eq : w.map Char.toLower = k.start
  visible_word : ∀ c ∈ w, isBlank c = false ∧ isInvisible c = false

/-- A keyword is spelled in any case, with a colon behind it. -/
theorem spelled_of_lower_eq {k : Keyword} {spelling : Text} (h : lower spelling = k.name) :
    Spelled k (spelling ++ [':']) := by
  have hname : ∀ c ∈ k.name, isPlain c = true ∧ isBlank c = false := fun c hc =>
    Keyword.isPlain_of_mem_start (List.mem_append_left [':'] hc)
  constructor
  · rw [List.map_append, (lowerFrom_eq_iff (fun c hc => (hname c hc).1) false spelling).mp h]
    rfl
  · intro c hc
    rcases List.mem_append.mp hc with hc | hc
    · exact class_of_lower_eq hname h c hc
    · rw [List.mem_singleton.mp hc]
      decide

/-- Behind a keyword stands the value. -/
theorem Spelled.matchDirective_append {k : Keyword} {w : Text} (h : Spelled k w) (rest : Text) :
    matchDirective (w ++ rest) = some (k, trim rest) :=
  matchDirective_eq_some_iff.mpr ⟨w, rest, rfl, h.toLower_eq, rfl⟩

/-- So it is in lowercase. -/
theorem Keyword.spelled_start (k : Keyword) : Spelled k k.start :=
  spelled_of_lower_eq k.lower_name

/-- A direction is no keyword with its colon. -/
theorem Spelled.ne_direction {k : Keyword} {w : Text} (h : Spelled k w) (d : SortDirection) :
    lower w ≠ d.name := by
  intro hlower
  have hmap : w.map Char.toLower = d.name :=
    (lowerFrom_eq_iff (fun c hc => (SortDirection.isPlain_of_mem_name c hc).1) false w).mp hlower
  rw [h.toLower_eq] at hmap
  exact absurd hmap (by cases k <;> cases d <;> decide)

/-! ## Words in a row -/

/-- A list that ends with no comma is complete. -/
theorem extendList_of_closed {value : Text} (h : value.getLast? ≠ some ',') (rest : List Text) :
    extendList value rest = (value, rest) := by
  cases rest with
  | nil => rfl
  | cons w rest => exact if_neg h

/-- A field to sort by is complete when no direction stands behind it. -/
theorem extendSort_of_closed {rest : List Text}
    (h : ∀ w, rest.head? = some w → ∀ d : SortDirection, lower w ≠ d.name) (value : Text) :
    extendSort value rest = (value, rest) := by
  cases rest with
  | nil => rfl
  | cons w rest =>
      refine if_neg ?_
      simp [SortDirection.ofName?_eq_none_iff.mpr (h w rfl)]

/-- A direction behind the field to sort by is taken with it. -/
theorem extendSort_direction {direction : Text} {d : SortDirection} (h : lower direction = d.name)
    (value : Text) (rest : List Text) :
    extendSort value (direction :: rest) = (value ++ ' ' :: direction, rest) := by
  refine if_pos ?_
  simp [SortDirection.ofName?_eq_some_iff.mpr h]

/-- A keyword alone takes the next word as its value. -/
theorem fillValue_bareWord {value : Text} (h : BareWord value) (rest : List Text) :
    fillValue [] (value :: rest) = (value, rest) := by
  refine if_pos ?_
  simp [h.matchDirective_eq]

/-- A word that begins no directive is a part of its own. -/
theorem partsOfWords_of_none {w : Text} (h : matchDirective w = none) (rest : List Text) :
    partsOfWords (w :: rest) = w :: partsOfWords rest := by
  rw [partsOfWords, h]

/-- A word that begins a directive takes its value off the words behind it. -/
theorem partsOfWords_of_some {w value : Text} {k : Keyword}
    (h : matchDirective w = some (k, value)) {rest rest' : List Text} {whole : Text}
    (htake : takeValue k value rest = (whole, rest')) :
    partsOfWords (w :: rest) = (k.start ++ ' ' :: whole) :: partsOfWords rest' := by
  rw [partsOfWords, h]
  simp only [htake]

/-! ## Items -/

/-- What can be said in both dialects: a word, a directive with one word as its value, or an order
with a direction. Keywords are spelled in any case. -/
inductive QueryItem where
  | word (w : Text)
  | directive (k : Keyword) (spelling value : Text)
  | order (spelling value direction : Text)

namespace QueryItem

/-- The words of the item. -/
def words : QueryItem → List Text
  | word w => [w]
  | directive _ spelling value => [spelling ++ [':'], value]
  | order spelling value direction => [spelling ++ [':'], value, direction]

/-- The item as it is written. -/
def text (item : QueryItem) : Text := joinWith [' '] item.words

/-- The part that a row of words has for the item. -/
def part : QueryItem → Text
  | word w => w
  | directive k _ value => k.start ++ ' ' :: value
  | order _ value direction => Keyword.sort.start ++ ' ' :: (value ++ ' ' :: direction)

/-- Whether both dialects can say the item: its keyword is spelled right, its value is one word and,
for a list, no comma asks for another. -/
def Valid : QueryItem → Prop
  | word w => BareWord w
  | directive k spelling value =>
    lower spelling = k.name ∧ BareWord value ∧ (k.isList = true → value.getLast? ≠ some ',')
  | order spelling value direction =>
    lower spelling = Keyword.sort.name ∧ BareWord value ∧
      ∃ d : SortDirection, lower direction = d.name

/-- Whether the second item may follow the first one in a row: no direction follows an order that
has none. -/
def Apart : QueryItem → QueryItem → Prop
  | directive .sort _ _, word w => ∀ d : SortDirection, lower w ≠ d.name
  | _, _ => True

variable {item : QueryItem}

/-- The words of an item are words. -/
theorem Valid.words_class (h : item.Valid) : ∀ w ∈ item.words, w ≠ [] ∧
    ∀ c ∈ w, isBlank c = false ∧ isInvisible c = false := by
  cases item with
  | word w =>
      intro v hv
      rw [List.mem_singleton.mp hv]
      exact ⟨h.ne_nil, fun c hc => ⟨h.not_blank c hc, h.visible c hc⟩⟩
  | directive k spelling value =>
      obtain ⟨hspelling, hvalue, -⟩ := h
      intro v hv
      simp only [words, List.mem_cons, List.not_mem_nil, or_false] at hv
      rcases hv with rfl | rfl
      · exact ⟨by simp, (spelled_of_lower_eq hspelling).visible_word⟩
      · exact ⟨hvalue.ne_nil, fun c hc => ⟨hvalue.not_blank c hc, hvalue.visible c hc⟩⟩
  | order spelling value direction =>
      obtain ⟨hspelling, hvalue, d, hd⟩ := h
      intro v hv
      simp only [words, List.mem_cons, List.not_mem_nil, or_false] at hv
      rcases hv with rfl | rfl | rfl
      · exact ⟨by simp, (spelled_of_lower_eq hspelling).visible_word⟩
      · exact ⟨hvalue.ne_nil, fun c hc => ⟨hvalue.not_blank c hc, hvalue.visible c hc⟩⟩
      · refine ⟨?_, class_of_lower_eq SortDirection.isPlain_of_mem_name hd⟩
        rintro rfl
        exact absurd hd (by cases d <;> decide)

/-- The words of a valid item are those it was made of. -/
theorem Valid.words_text (h : item.Valid) : Text.words item.text = item.words := by
  have hwords : ∀ w ∈ item.words, Text.words w = [w] := fun w hw =>
    words_of_not_blank (h.words_class w hw).1 fun c hc => ((h.words_class w hw).2 c hc).1
  rw [text, words_joinWith_space, List.flatMap_congr hwords]
  exact List.flatMap_singleton' item.words

/-- The text of an item is visible and has no blank but the space. -/
theorem Valid.text_class (h : item.Valid) :
    ∀ c ∈ item.text, (isBlank c = true → c = ' ') ∧ isInvisible c = false := by
  intro c hc
  rcases mem_joinWith hc with hspace | ⟨w, hw, hc⟩
  · rw [List.mem_singleton.mp hspace]
    exact ⟨fun _ => rfl, rfl⟩
  · obtain ⟨hblank, hvisible⟩ := (h.words_class w hw).2 c hc
    exact ⟨fun hc => absurd hc (by simp [hblank]), hvisible⟩

/-- Every item has a word. -/
theorem words_ne_nil (item : QueryItem) : item.words ≠ [] := by
  cases item <;> exact List.cons_ne_nil _ _

/-- So its text is not empty. -/
theorem Valid.text_ne_nil (h : item.Valid) : item.text ≠ [] := by
  intro hnil
  have hwords := h.words_text
  rw [hnil] at hwords
  exact item.words_ne_nil hwords.symm

/-- The text of an item is trimmed. -/
theorem Valid.trim_text (h : item.Valid) : trim item.text = item.text := by
  have hcollapse : collapse item.text = item.text := by
    rw [collapse, h.words_text]
    rfl
  rw [← hcollapse, trim_collapse]

/-- On a line of its own an item is one part. -/
theorem Valid.lineParts_text (h : item.Valid) : lineParts item.text = [item.text] := by
  have hline : ∀ c ∈ item.text, isBoundary c = false := by
    intro c hc
    by_contra hboundary
    have hboundary : isBoundary c = true := by simpa using hboundary
    rw [(h.text_class c hc).1 (isBlank_of_isBoundary hboundary)] at hboundary
    exact absurd hboundary (by decide)
  rw [lineParts_of_not_boundary hline, h.trim_text, List.filter_cons_of_pos (by
    simp [h.text_ne_nil]), List.filter_nil]

/-- What is put together from the words of an item is read as the item. -/
theorem Valid.sameReading (h : item.Valid) : SameReading item.text item.part := by
  have hdirective {k : Keyword} {spelling : Text} (hspelling : lower spelling = k.name)
      (value : Text) :
      SameReading (spelling ++ [':'] ++ ' ' :: value) (k.start ++ ' ' :: value) := by
    have hleft := (spelled_of_lower_eq hspelling).matchDirective_append (' ' :: value)
    have hright := k.spelled_start.matchDirective_append (' ' :: value)
    exact ⟨hleft.trans hright.symm, fun hnone => absurd (hleft.symm.trans hnone) (by simp)⟩
  cases item with
  | word w => exact .refl w
  | directive k spelling value => simpa [text, words, joinWith, part] using hdirective h.1 value
  | order spelling value direction =>
      simpa [text, words, joinWith, part] using hdirective h.1 (value ++ ' ' :: direction)

/-! ## Items in a row -/

/-- Nothing that the item asks for stands at the start of the words behind it. -/
def Closed (item : QueryItem) (rest : List Text) : Prop :=
  match item with
  | directive .sort _ _ => ∀ w, rest.head? = some w → ∀ d : SortDirection, lower w ≠ d.name
  | _ => True

/-- In a row the words of an item make its part, and the others are read as if it were not there. -/
theorem Valid.partsOfWords_append (h : item.Valid) {rest : List Text} (hrest : item.Closed rest) :
    partsOfWords (item.words ++ rest) = item.part :: partsOfWords rest := by
  -- A keyword and its colon are a word of their own, which leaves the value to the next word.
  have hkeyword {k : Keyword} {spelling : Text} (hspelling : lower spelling = k.name) :
      matchDirective (spelling ++ [':']) = some (k, []) := by
    have hmatch := (spelled_of_lower_eq hspelling).matchDirective_append []
    rwa [List.append_nil] at hmatch
  cases item with
  | word w => exact partsOfWords_of_none h.matchDirective_eq rest
  | directive k spelling value =>
      obtain ⟨hspelling, hvalue, hcomma⟩ := h
      refine partsOfWords_of_some (hkeyword hspelling) ?_
      show takeValue k [] (value :: rest) = (value, rest)
      rw [takeValue, fillValue_bareWord hvalue]
      by_cases hlist : k.isList = true
      · simp only [if_pos hlist]
        exact extendList_of_closed (hcomma hlist) rest
      · simp only [if_neg hlist]
        split
        · next hsort =>
            subst hsort
            exact extendSort_of_closed hrest value
        · rfl
  | order spelling value direction =>
      obtain ⟨hspelling, hvalue, d, hd⟩ := h
      refine partsOfWords_of_some (hkeyword hspelling) ?_
      show takeValue .sort [] (value :: direction :: rest) = (value ++ ' ' :: direction, rest)
      rw [takeValue, fillValue_bareWord hvalue]
      exact extendSort_direction hd value rest

/-- The words of the next item ask nothing of an item that it may follow. -/
theorem Apart.closed {next : QueryItem} (h : Apart item next) (hnext : next.Valid)
    (rest : List Text) : item.Closed (next.words ++ rest) := by
  unfold Closed
  split
  · intro w hw d
    cases next with
    | word v =>
        obtain rfl := Option.some.inj hw
        exact h d
    | directive k spelling value =>
        obtain rfl := Option.some.inj hw
        exact (spelled_of_lower_eq hnext.1).ne_direction d
    | order spelling value direction =>
        obtain rfl := Option.some.inj hw
        exact (spelled_of_lower_eq hnext.1).ne_direction d
  · trivial

end QueryItem

section Items

variable {items : List QueryItem}

/-- A row of words is taken apart into the items that it was made of. -/
theorem partsOfWords_flatMap (hvalid : ∀ item ∈ items, item.Valid)
    (hapart : items.IsChain QueryItem.Apart) :
    partsOfWords (items.flatMap QueryItem.words) = items.map QueryItem.part := by
  induction items with
  | nil => rw [List.flatMap_nil, partsOfWords, List.map_nil]
  | cons item items ih =>
      have hclosed : item.Closed (items.flatMap QueryItem.words) := by
        cases items with
        | nil =>
            unfold QueryItem.Closed
            split
            · intro w hw
              exact absurd hw (by simp)
            · trivial
        | cons next items =>
            exact (List.isChain_cons_cons.mp hapart).1.closed (hvalid next (by simp)) _
      rw [List.flatMap_cons, (hvalid item (by simp)).partsOfWords_append hclosed, List.map_cons,
        ih (fun other hother => hvalid other (List.mem_cons_of_mem item hother)) hapart.of_cons]

/-- Nothing in the texts of valid items is invisible. -/
theorem isInvisible_of_mem_texts (hvalid : ∀ item ∈ items, item.Valid) :
    ∀ line ∈ items.map QueryItem.text, ∀ c ∈ line, isInvisible c = false := by
  intro line hline c hc
  obtain ⟨item, hitem, rfl⟩ := List.mem_map.mp hline
  exact ((hvalid item hitem).text_class c hc).2

/-- One below the other, two items or more are parts by themselves. -/
theorem splitQuery_lines (htwo : 2 ≤ items.length) (hvalid : ∀ item ∈ items, item.Valid) :
    splitQuery (joinWith ['\n'] (items.map QueryItem.text)) =
      dropHeading (items.map QueryItem.text) := by
  have hvisible := isInvisible_of_mem_texts hvalid
  have hfilled : ∀ line ∈ items.map QueryItem.text, Editor.isFilled line = true := by
    intro line hline
    obtain ⟨item, hitem, rfl⟩ := List.mem_map.mp hline
    rw [Editor.isFilled_iff, (hvalid item hitem).trim_text]
    exact (hvalid item hitem).text_ne_nil
  have hlines : joinWith ['\n'] (items.map QueryItem.text) =
      Editor.ofLines (items.map QueryItem.text) := by
    show _ = joinWith ['\n'] ((items.map QueryItem.text).filter Editor.isFilled)
    rw [List.filter_eq_self.mpr hfilled]
  have hcount : 2 ≤ (items.map QueryItem.text).countP Editor.isFilled := by
    rwa [List.countP_eq_length.mpr hfilled, List.length_map]
  have hparts : (items.map QueryItem.text).flatMap lineParts = items.map QueryItem.text := by
    rw [List.flatMap_map, List.flatMap_congr fun item hitem => (hvalid item hitem).lineParts_text]
    exact List.map_eq_flatMap.symm
  rw [hlines, splitQuery_of_newline (Editor.newline_mem_ofLines hvisible hcount),
    Editor.lineParts_ofLines hvisible, hparts]

/-- In a row, items have the parts that are put together from their words. -/
theorem splitQuery_row (hvalid : ∀ item ∈ items, item.Valid)
    (hapart : items.IsChain QueryItem.Apart) :
    splitQuery (joinWith [' '] (items.map QueryItem.text)) =
      dropHeading (items.map QueryItem.part) := by
  have hclass : ∀ c ∈ joinWith [' '] (items.map QueryItem.text),
      c ≠ '\n' ∧ isInvisible c = false := by
    intro c hc
    rcases mem_joinWith hc with hspace | ⟨line, hline, hc⟩
    · rw [List.mem_singleton.mp hspace]
      decide
    · obtain ⟨item, hitem, rfl⟩ := List.mem_map.mp hline
      refine ⟨?_, ((hvalid item hitem).text_class c hc).2⟩
      rintro rfl
      exact absurd (((hvalid item hitem).text_class _ hc).1 (by decide)) (by decide)
  -- A row without line feeds is read word by word.
  have hnewline : '\n' ∉ normalizeQuery (joinWith [' '] (items.map QueryItem.text)) := by
    intro hmem
    rw [normalizeQuery_of_visible fun c hc => (hclass c hc).2] at hmem
    exact (hclass _ (mem_of_mem_trim hmem)).1 rfl
  have hwords : words (joinWith [' '] (items.map QueryItem.text)) =
      items.flatMap QueryItem.words := by
    rw [words_joinWith_space, List.flatMap_map]
    exact List.flatMap_congr fun item hitem => (hvalid item hitem).words_text
  rw [splitQuery_of_not_newline hnewline,
    normalizeQuery_of_visible (fun c hc => (hclass c hc).2), words_trim, hwords,
    partsOfWords_flatMap hvalid hapart]

end Items

/-- Two items or more are compiled to the same specification when they are written one below the
other and when they are written in a row. -/
theorem compileQuery_lines_eq_row (items : List QueryItem) (htwo : 2 ≤ items.length)
    (hvalid : ∀ item ∈ items, item.Valid) (hapart : items.IsChain QueryItem.Apart) (today : Date) :
    compileQuery (joinWith ['\n'] (items.map QueryItem.text)) today =
      compileQuery (joinWith [' '] (items.map QueryItem.text)) today := by
  have halike : List.Forall₂ SameReading (items.map QueryItem.text) (items.map QueryItem.part) := by
    rw [List.forall₂_map_left_iff, List.forall₂_map_right_iff]
    exact List.forall₂_same.mpr fun item hitem => (hvalid item hitem).sameReading
  rw [compileQuery_eq, compileQuery_eq, splitQuery_lines htwo hvalid, splitQuery_row hvalid hapart]
  exact compileParts_congr today (SameReading.dropHeading halike)

/-- Behind an order with its direction, a second direction is a word to look for. -/
theorem compileQuery_lines_eq_row_directions :
    compileQuery "TAG: work,home\nSort: due DESC\ndesc\nlimit: 3".toList .first =
      compileQuery "TAG: work,home Sort: due DESC desc limit: 3".toList .first := by
  let items : List QueryItem :=
    [.directive .tag "TAG".toList "work,home".toList,
      .order "Sort".toList "due".toList "DESC".toList, .word "desc".toList,
      .directive .limit "limit".toList "3".toList]
  have hvalid : ∀ item ∈ items, item.Valid := by
    intro item hitem
    simp only [items, List.mem_cons, List.not_mem_nil, or_false] at hitem
    rcases hitem with rfl | rfl | rfl | rfl
    · exact ⟨by decide +kernel, by decide +kernel, by decide⟩
    · exact ⟨by decide +kernel, by decide +kernel, .descending, by decide +kernel⟩
    · show BareWord "desc".toList
      decide +kernel
    · exact ⟨by decide +kernel, by decide +kernel, by decide⟩
  have hapart : items.IsChain QueryItem.Apart :=
    .cons_cons trivial (.cons_cons trivial (.cons_cons trivial (.singleton _)))
  exact compileQuery_lines_eq_row items (by decide) hvalid hapart .first

end Checklist
