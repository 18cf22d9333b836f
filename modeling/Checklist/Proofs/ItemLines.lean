import Checklist.Task.Codec
import Checklist.Proofs.Characters
import Checklist.Proofs.Trimming

/-!
# Item lines — the grammar of checklist lines

`ItemReading` is the grammar: one way to cut a line into blanks, a list marker, a mark in brackets,
a gap, a content and an ending. A line can have several readings, because the blanks behind the
brackets may be given to the gap, to the content or, when the last of them is a line feed, to the
ending.

The route: whichever reading a line has, it is taken for the item that the reading says, up to the
blanks before the content (`ItemReading.ofLine?_eq`); and the item that a line is taken for can be
read off it (`exists_reading_of_ofLine?`). So the items are exactly the lines with a reading, and
the content is that of the readings that leave no blank before it (`isItem_iff_reading`).
-/

namespace Checklist

open Text

/-- What may stand before the brackets to make a list of the items. -/
inductive ListSign : Text → Prop where
  | dash : ListSign ['-']
  | star : ListSign ['*']
  | number {digits : Text} (hne : digits ≠ []) (hdigits : ∀ c ∈ digits, isDigit c = true) :
      ListSign (digits ++ ['.'])

/-- A list marker: nothing at all, or a sign with blanks behind it. -/
inductive ListMarker : Text → Prop where
  | none : ListMarker []
  | sign {sign gap : Text} (hsign : ListSign sign) (hgap : ∀ c ∈ gap, isBlank c = true) :
      ListMarker (sign ++ gap)

/-- One way to read the line as a checklist item. -/
structure ItemReading (line : Text) where
  indent : Text
  listMarker : Text
  mark : Char
  gap : Text
  content : Text
  ending : Text
  line_eq : line = indent ++ (listMarker ++ '[' :: mark :: ']' :: (gap ++ (content ++ ending)))
  indent_blank : ∀ c ∈ indent, isBlank c = true
  listMarker_ok : ListMarker listMarker
  mark_ne : mark ≠ ']'
  gap_ne_nil : gap ≠ []
  gap_blank : ∀ c ∈ gap, isBlank c = true
  content_one_line : '\n' ∉ content
  ending_eq : ending = [] ∨ ending = ['\n']

/-- Whether the reading leaves no blank before the content. -/
def ItemReading.Tight {line : Text} (r : ItemReading line) : Prop :=
  ∀ c, r.content.head? = some c → isBlank c = false

/-! ## From a reading to the item -/

theorem ListSign.exists_eq_cons {sign : Text} (h : ListSign sign) :
    ∃ c s, sign = c :: s ∧ isBlank c = false := by
  cases h with
  | dash => exact ⟨_, _, rfl, by decide⟩
  | star => exact ⟨_, _, rfl, by decide⟩
  | @number digits hne hdigits =>
      cases digits with
      | nil => exact absurd rfl hne
      | cons c digits =>
          refine ⟨c, digits ++ ['.'], rfl, ?_⟩
          cases hc : isBlank c with
          | false => rfl
          | true =>
              have hdigit := hdigits c (by simp)
              rw [isDigit_eq_false_of_isBlank hc] at hdigit
              exact Bool.noConfusion hdigit

/-- Neither a list marker nor the bracket behind it begins with a blank. -/
theorem ListMarker.exists_append_eq_cons {marker : Text} (h : ListMarker marker) (s : Text) :
    ∃ c t, marker ++ '[' :: s = c :: t ∧ isBlank c = false := by
  cases h with
  | none => exact ⟨'[', s, rfl, by decide⟩
  | sign hsign hgap =>
      obtain ⟨c, t, rfl, hc⟩ := hsign.exists_eq_cons
      exact ⟨c, _, rfl, hc⟩

/-- Every list marker is passed over. -/
theorem ListMarker.skipListMarker_append {marker : Text} (h : ListMarker marker) (s : Text) :
    Item.skipListMarker (marker ++ '[' :: s) = '[' :: s := by
  have hbracket : ∀ gap : Text, (∀ c ∈ gap, isBlank c = true) →
      trimStart (gap ++ '[' :: s) = '[' :: s := fun gap hgap => by
    rw [trimStart_append_of_blank hgap, trimStart_cons_of_not_blank (by decide)]
  cases h with
  | none => rfl
  | @sign sign gap hsign hgap =>
      cases hsign with
      | dash => exact hbracket gap hgap
      | star => exact hbracket gap hgap
      | @number digits hne hdigits =>
          obtain ⟨htake, hdrop⟩ := span_append (p := isDigit) (c := '.') (by decide) digits
            (gap ++ '[' :: s)
          rw [List.takeWhile_eq_self_iff.mpr hdigits] at htake
          rw [List.dropWhile_eq_nil_iff.mpr hdigits, List.nil_append] at hdrop
          have hline : digits ++ ['.'] ++ gap ++ '[' :: s = digits ++ '.' :: (gap ++ '[' :: s) := by
            simp
          rw [hline]
          -- A digit is neither of the other two signs.
          have hsigns : ∀ c ∈ digits, c ≠ '-' ∧ c ≠ '*' := by
            intro c hc
            constructor
            · rintro rfl
              exact absurd (hdigits _ hc) (by decide)
            · rintro rfl
              exact absurd (hdigits _ hc) (by decide)
          have hhead : ∀ c t, digits ++ '.' :: (gap ++ '[' :: s) = c :: t → c ≠ '-' ∧ c ≠ '*' := by
            intro c t heq
            cases digits with
            | nil => exact absurd rfl hne
            | cons d digits =>
                obtain ⟨rfl, -⟩ := List.cons.inj heq
                exact hsigns d (by simp)
          rw [Item.skipListMarker.eq_3 _ (fun rest h => (hhead _ _ h).1 rfl)
            (fun rest h => (hhead _ _ h).2 rfl), htake, hdrop, if_neg hne]
          exact hbracket gap hgap

/-- A content with its ending is the content without the blanks before it. -/
theorem content?_trimStart {content ending : Text} (hcontent : '\n' ∉ content)
    (hending : ending = [] ∨ ending = ['\n']) :
    Item.content? (trimStart (content ++ ending)) = some (trimStart content) := by
  have hblank : trimStart ending = [] := by
    rcases hending with rfl | rfl <;> decide
  rw [trimStart_append]
  split
  · next h => rw [hblank, h]; rfl
  · next h =>
      have hmem : '\n' ∉ trimStart content := fun hmem =>
        hcontent ((List.dropWhile_suffix isBlank).mem hmem)
      rcases hending with rfl | rfl
      · rw [List.append_nil, Item.content?, cutAt?_eq_none_iff.mpr hmem]
      · rw [Item.content?, cutAt?_eq_some_iff.mpr ⟨rfl, hmem⟩]

/-- Whichever way a line is read, it is taken for the item that the reading says, without the blanks
before the content. -/
theorem ItemReading.ofLine?_eq {line : Text} (r : ItemReading line) :
    Item.ofLine? line = some ⟨r.indent, r.mark, trimStart r.content⟩ := by
  obtain ⟨c, s, hs, hc⟩ := r.listMarker_ok.exists_append_eq_cons
    (r.mark :: ']' :: (r.gap ++ (r.content ++ r.ending)))
  -- The indent ends where the blanks do.
  obtain ⟨htake, hdrop⟩ := span_append hc r.indent s
  rw [← hs, ← r.line_eq, List.takeWhile_eq_self_iff.mpr r.indent_blank] at htake
  rw [← hs, ← r.line_eq, List.dropWhile_eq_nil_iff.mpr r.indent_blank, List.nil_append] at hdrop
  rw [Item.ofLine?, trimStart, htake, hdrop, r.listMarker_ok.skipListMarker_append]
  cases hgap : r.gap with
  | nil => exact absurd hgap r.gap_ne_nil
  | cons b gap =>
      have hblank : ∀ c ∈ b :: gap, isBlank c = true := hgap ▸ r.gap_blank
      have hrest : trimStart (gap ++ (r.content ++ r.ending)) = trimStart (r.content ++ r.ending) :=
        trimStart_append_of_blank fun c hc => hblank c (by simp [hc])
      rw [List.cons_append, Item.body?, if_pos ⟨r.mark_ne, hblank b (by simp)⟩, hrest,
        content?_trimStart r.content_one_line r.ending_eq]
      rfl

/-! ## From the item to a reading -/

/-- What is passed over before the brackets is a list marker. -/
theorem exists_listMarker_eq (s : Text) :
    ∃ marker, ListMarker marker ∧ s = marker ++ Item.skipListMarker s := by
  fun_cases Item.skipListMarker s with
  | case1 rest =>
      obtain ⟨gap, hgap, hrest⟩ := exists_trimStart_eq rest
      exact ⟨['-'] ++ gap, .sign .dash hgap, congrArg ('-' :: ·) hrest⟩
  | case2 rest =>
      obtain ⟨gap, hgap, hrest⟩ := exists_trimStart_eq rest
      exact ⟨['*'] ++ gap, .sign .star hgap, congrArg ('*' :: ·) hrest⟩
  | case3 _ hnone => exact ⟨[], .none, (if_pos hnone).symm⟩
  | case4 _ hne rest hrest =>
      obtain ⟨gap, hgap, htrim⟩ := exists_trimStart_eq rest
      refine ⟨s.takeWhile isDigit ++ ['.'] ++ gap,
        .sign (.number hne fun c hc => List.mem_takeWhile_imp hc) hgap, ?_⟩
      calc s = s.takeWhile isDigit ++ s.dropWhile isDigit := List.takeWhile_append_dropWhile.symm
        _ = s.takeWhile isDigit ++ '.' :: (gap ++ trimStart rest) := by rw [hrest, ← htrim]
        _ = s.takeWhile isDigit ++ ['.'] ++ gap ++ trimStart rest := by simp
        _ = _ := by rw [if_neg hne, hrest]; rfl
  | case5 _ hne => exact ⟨[], .none, by simp [hne]⟩

/-- A content is one line with at most one line feed behind it. -/
theorem exists_ending_of_content? {s content : Text} (h : Item.content? s = some content) :
    ∃ ending, s = content ++ ending ∧ '\n' ∉ content ∧ (ending = [] ∨ ending = ['\n']) := by
  rw [Item.content?] at h
  split at h
  · next hcut =>
      obtain rfl := Option.some.inj h
      exact ⟨[], (List.append_nil s).symm, cutAt?_eq_none_iff.mp hcut, .inl rfl⟩
  · next line hcut =>
      obtain rfl := Option.some.inj h
      obtain ⟨rfl, hmem⟩ := cutAt?_eq_some_iff.mp hcut
      exact ⟨['\n'], rfl, hmem, .inr rfl⟩
  · exact absurd h (by simp)

/-- The item that a line is taken for is a tight reading of the line. -/
theorem exists_reading_of_ofLine? {line : Text} {item : Item} (h : Item.ofLine? line = some item) :
    ∃ r : ItemReading line, r.Tight ∧ r.content = item.content := by
  obtain ⟨⟨mark, content⟩, hbody, rfl⟩ := Option.map_eq_some_iff.mp h
  obtain ⟨marker, hmarker, hskip⟩ := exists_listMarker_eq (trimStart line)
  generalize Item.skipListMarker (trimStart line) = body at hbody hskip
  -- The brackets are there, with a blank behind them, or the line is no item.
  fun_cases Item.body? body with
  | case1 mark' blank rest hcond =>
      rw [Item.body?, if_pos hcond] at hbody
      obtain ⟨content', hcontent, heq⟩ := Option.map_eq_some_iff.mp hbody
      obtain ⟨rfl, rfl⟩ := Prod.mk.inj heq
      obtain ⟨gap, hgap, hrest⟩ := exists_trimStart_eq rest
      obtain ⟨ending, htrim, hone, hending⟩ := exists_ending_of_content? hcontent
      rw [htrim] at hrest
      refine ⟨⟨line.takeWhile isBlank, marker, mark', blank :: gap, content', ending, ?_, ?_,
        hmarker,
        hcond.1, by simp, ?_, hone, hending⟩, ?_, rfl⟩
      · calc line = line.takeWhile isBlank ++ trimStart line :=
              List.takeWhile_append_dropWhile.symm
          _ = line.takeWhile isBlank ++ (marker ++ '[' :: mark' :: ']' ::
                (blank :: gap ++ (content' ++ ending))) := by rw [hskip, hrest]; rfl
      · exact fun c hc => List.mem_takeWhile_imp hc
      · exact List.forall_mem_cons.mpr ⟨hcond.2, hgap⟩
      · -- The content begins where the blanks behind the brackets end.
        intro c hc
        refine isBlank_of_head_trimStart (s := rest) ?_
        rw [htrim, List.head?_append, hc]
        rfl
  | case2 mark' blank rest hcond =>
      rw [Item.body?, if_neg hcond] at hbody
      exact absurd hbody (by simp)
  | case3 => exact absurd hbody (by simp [Item.body?])

/-! ## The items and their readings -/

/-- What an item says about the line that it was read from. -/
structure Item.TakenFrom (item : Item) (line : Text) : Prop where
  indent_prefix : item.indent <+: line
  indent_blank : ∀ c ∈ item.indent, isBlank c = true
  indent_longest : ∀ blanks, blanks <+: line → (∀ c ∈ blanks, isBlank c = true) →
    blanks.length ≤ item.indent.length
  mark : ∀ r : ItemReading line, r.mark = item.mark
  exists_tight : ∃ r : ItemReading line, r.Tight ∧ r.content = item.content
  content : ∀ r : ItemReading line, r.Tight → r.content = item.content

theorem takenFrom_of_ofLine? {line : Text} {item : Item} (h : Item.ofLine? line = some item) :
    item.TakenFrom line := by
  have hreading : ∀ r : ItemReading line, item = ⟨r.indent, r.mark, trimStart r.content⟩ :=
    fun r => Option.some.inj (h.symm.trans r.ofLine?_eq)
  have hindent : item.indent = line.takeWhile isBlank := by
    obtain ⟨found, -, rfl⟩ := Option.map_eq_some_iff.mp h
    rfl
  refine ⟨?_, ?_, ?_, ?_, exists_reading_of_ofLine? h, ?_⟩
  · exact hindent ▸ List.takeWhile_prefix isBlank
  · exact fun c hc => List.mem_takeWhile_imp (hindent ▸ hc)
  · rintro blanks ⟨rest, rfl⟩ hblanks
    rw [hindent, List.takeWhile_append_of_pos hblanks, List.length_append]
    exact Nat.le_add_right _ _
  · exact fun r => (congrArg Item.mark (hreading r)).symm
  · intro r htight
    have hcontent : item.content = trimStart r.content := congrArg Item.content (hreading r)
    rw [hcontent]
    cases hr : r.content with
    | nil => rfl
    | cons c s => exact (trimStart_cons_of_not_blank (htight c (by rw [hr]; rfl)) s).symm

theorem isItem_eq_true_iff {line : Text} : isItem line = true ↔ Nonempty (ItemReading line) := by
  constructor
  · intro h
    obtain ⟨item, hitem⟩ := Option.isSome_iff_exists.mp h
    obtain ⟨r, -, -⟩ := exists_reading_of_ofLine? hitem
    exact ⟨r⟩
  · rintro ⟨r⟩
    exact Option.isSome_iff_exists.mpr ⟨_, r.ofLine?_eq⟩

/-- **The gate.** A line is an item exactly when it follows the grammar. The task that is read off
it has the blanks before the item as its indent and the status that the mark stands for, and its
data come from the content of the one reading that leaves no blank before it. -/
theorem isItem_iff_reading (codec : Codec) (line id : Text) (source : Provenance) :
    (isItem line = true ↔ Nonempty (ItemReading line)) ∧
      ((codec.parse line id source).isSome = isItem line) ∧
      ∀ t, codec.parse line id source = some t → ∃ item : Item, item.TakenFrom line ∧
        t = item.toTask codec.style line id source ∧ t.indent = item.indent ∧
        t.status = Status.ofMark item.mark := by
  refine ⟨isItem_eq_true_iff, Option.isSome_map, ?_⟩
  intro t ht
  obtain ⟨item, hitem, rfl⟩ := Option.map_eq_some_iff.mp ht
  exact ⟨item, takenFrom_of_ofLine? hitem, rfl, rfl, rfl⟩

/-- A numbered item with blanks all around its parts and a line feed at its end. -/
def seventhItem : Text := "\t7.[x]  Pay rent\n".toList

/-- The task that is read off the numbered item. -/
def seventhTask : Task :=
  { id := [], description := "Pay rent".toList, status := .done, sourceText := seventhItem,
    indent := "\t".toList }

/-- The numbered item is read with its tabulation as the indent, and as done. -/
theorem isItem_iff_reading_seventh :
    (Codec.mk .bare Date.first).parse seventhItem [] {} = some seventhTask ∧
      ∃ item : Item, item.TakenFrom seventhItem ∧
        seventhTask = item.toTask .bare seventhItem [] {} ∧
        seventhTask.indent = item.indent ∧ seventhTask.status = Status.ofMark item.mark := by
  have hparse : (Codec.mk .bare Date.first).parse seventhItem [] {} = some seventhTask := by
    decide +kernel
  exact ⟨hparse, (isItem_iff_reading ⟨.bare, Date.first⟩ seventhItem [] {}).2.2 seventhTask hparse⟩

end Checklist
