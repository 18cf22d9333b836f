import Mathlib.Data.List.Forall2
import Checklist.Notes.TextStore
import Checklist.Proofs.NoteFiles
import Checklist.Proofs.NoteRows

/-!
# Source lines — one text in a file and in memory

A text that is read from a file has its newlines unified before it is cut into lines, and one that
is held in memory is cut as it is. Unifying newlines changes how lines end, but neither how many
there are nor what they hold (`map_body_lines_unifyNewlines`). Both kinds of source hand out the
checklist lines by number (`numberedItems`), so of one text they hand out the same lines under the
same numbers, and leave out none (`records_tell_same_lines`).
-/

namespace Checklist

open Text

/-! ## Lines of unified texts -/

namespace Text

theorem map_body_prependToFirst (w : Text) (all : List Line) :
    (prependToFirst w all).map Line.body = match all.map Line.body with
      | [] => [w]
      | body :: rest => (w ++ body) :: rest := by
  cases all <;> rfl

/-- A text whose newlines are unified has lines that hold the same. -/
theorem map_body_lines_unifyNewlines (s : Text) :
    (lines (unifyNewlines s)).map Line.body = (lines s).map Line.body := by
  fun_induction unifyNewlines s with
  | case1 => rfl
  | case2 s ih =>
      have hpair : lines ('\r' :: '\n' :: s) = ⟨[], ['\r', '\n']⟩ :: lines s := rfl
      rw [hpair, lines_cons_of_boundary (by decide) (by decide), List.map_cons, List.map_cons, ih]
  | case3 c s hpair ih =>
      by_cases hreturn : c = '\r'
      · -- A carriage return alone ends a line as the line feed does that stands for it.
        subst hreturn
        rw [if_pos rfl, lines_cons_of_boundary (by decide) (by decide),
          lines_cons_return fun t => hpair t rfl, List.map_cons, List.map_cons, ih]
      · rw [if_neg hreturn]
        cases hc : isBoundary c with
        | true =>
            rw [lines_cons_of_boundary hc hreturn, lines_cons_of_boundary hc hreturn,
              List.map_cons, List.map_cons, ih]
        | false =>
            rw [lines_cons_of_not_boundary hc, lines_cons_of_not_boundary hc,
              map_body_prependToFirst, map_body_prependToFirst, ih]

end Text

/-! ## Numbered lines -/

/-- The checklist lines among these, each with its number, counted from 1. -/
def numberedItems (bodies : List Text) : List (Text × Nat) :=
  (bodies.zipIdx 1).filter fun numbered => isItem numbered.1

theorem mem_numberedItems {bodies : List Text} {line : Text} {n : Nat} :
    (line, n) ∈ numberedItems bodies ↔
      1 ≤ n ∧ bodies[n - 1]? = some line ∧ isItem line = true := by
  rw [numberedItems, List.mem_filter, List.mk_mem_zipIdx_iff_le_and_getElem?_sub, and_assoc]

/-- What is made of each item by itself is made of the items. -/
theorem filterMap_isItem {α : Type} (bodies : List Text) (f : Text × Nat → α) :
    (bodies.zipIdx 1).filterMap (fun numbered =>
      if isItem numbered.1 then some (f numbered) else none) = (numberedItems bodies).map f := by
  rw [numberedItems, ← List.filterMap_eq_map, List.filterMap_filter]
  rfl

theorem TextStore.records_eq (store : TextStore) :
    store.records = (numberedItems store.lines).map fun numbered =>
      ⟨lineId numbered.2, numbered.1, { path := some store.name }⟩ :=
  filterMap_isItem store.lines _

namespace Notebook

/-- The records of a note are made of its checklist lines. -/
theorem recordsOfText_eq (path : Text) (source : Provenance) (text : Text) :
    recordsOfText path source text = (numberedItems ((lines text).map Line.body)).map
      fun numbered => ⟨lineId path numbered.2, numbered.1, source⟩ := by
  rw [← filterMap_isItem, List.zipIdx_map, List.filterMap_map]
  rfl

variable {book : Notebook} {tree : FileTree} {file : File} {s : Text} {rs : List Record}

/-- A file by itself is the only note of its notebook. -/
theorem records_of_file (hfile : tree.readFile book.root = .ok file) :
    book.records tree = .ok rs ↔ book.noteRecords tree book.root = .ok rs := by
  obtain ⟨target, hlocate, hnode⟩ := FileTree.readFile_eq_ok_iff.mp hfile
  rw [records_eq_ok_iff, notes_root ⟨hlocate, file, hnode⟩]
  constructor
  · rintro ⟨found, hfound, rfl⟩
    rw [List.flatMap_singleton]
    exact hfound book.root List.mem_cons_self
  · intro h
    refine ⟨fun _ => rs, fun n hn => ?_, by rw [List.flatMap_singleton]⟩
    rw [List.mem_singleton.mp hn, h]

/-- The note has a checklist line exactly when the text has one. -/
theorem hasItem_iff (hlines : noteLines tree book.root = lines (unifyNewlines s)) :
    HasItem tree book.root ↔ numberedItems ((lines s).map Line.body) ≠ [] := by
  have hany : HasItem tree book.root ↔ ∃ body ∈ (lines s).map Line.body, isItem body = true := by
    rw [← map_body_lines_unifyNewlines, HasItem, hlines]
    simp
  rw [hany]
  constructor
  · rintro ⟨body, hbody, hitem⟩
    obtain ⟨n, hn⟩ := List.mem_iff_getElem?.mp hbody
    have hmem : (body, n + 1) ∈ numberedItems ((lines s).map Line.body) :=
      mem_numberedItems.mpr ⟨Nat.le_add_left 1 n, hn, hitem⟩
    exact List.ne_nil_of_mem hmem
  · intro hne
    obtain ⟨⟨body, n⟩, hnumbered⟩ := List.exists_mem_of_ne_nil _ hne
    obtain ⟨-, hbody, hitem⟩ := mem_numberedItems.mp hnumbered
    exact ⟨body, List.mem_of_getElem? hbody, hitem⟩

/-- The records of a file are those of its checklist lines, under the name of the file. -/
theorem records_of_text (hfile : tree.readFile book.root = .ok file)
    (hbytes : file.bytes = Utf8.encode s) (hrs : book.records tree = .ok rs) :
    numberedItems ((lines s).map Line.body) = [] ∧ rs = [] ∨
      ∃ path source, book.root.name = .ofText path ∧
        rs = (numberedItems ((lines s).map Line.body)).map
          fun numbered => ⟨lineId path numbered.2, numbered.1, source⟩ := by
  have hread := read_of_readFile hfile (by rw [hbytes]; exact Utf8.decode_encode s)
  obtain ⟨-, target, hleads⟩ := exists_file_of_read hread
  have hlines : noteLines tree book.root = lines (unifyNewlines s) := by rw [noteLines, hread]
  obtain ⟨-, hnone, htold⟩ := noteRecords_eq_ok_iff.mp ((records_of_file hfile).mp hrs)
  by_cases hitem : HasItem tree book.root
  · obtain ⟨path, source, hpath, -, rfl⟩ := htold hitem
    refine .inr ⟨path, source, (relative_root hleads).symm.trans hpath, ?_⟩
    rw [hlines, ← map_body_lines_unifyNewlines]
    exact recordsOfText_eq path source (unifyNewlines s)
  · exact .inl ⟨Classical.not_not.mp (mt (hasItem_iff hlines).mpr hitem), hnone hitem⟩

end Notebook

/-! ## The same lines -/

/-- Both records hold the line of the text with one number, under the ids of that number in a note
and in a text store. -/
def SameLine (s : Text) (name : RawText) (inNote inStore : Record) : Prop :=
  ∃ (n : Nat) (path : Text), 1 ≤ n ∧ ((lines s).map Line.body)[n - 1]? = some inNote.line ∧
    inNote.line = inStore.line ∧ name = .ofText path ∧ inNote.id = Notebook.lineId path n ∧
    inStore.id = TextStore.lineId n

/-- **Both sources see the same lines.** A note that holds a text in UTF-8, and the same text in
memory, have as many records, and the records in one place hold the same line of the text under the
same number. Every checklist line of the text is among them. The note gives its records, unless
there are some and what they need cannot be told: a text for its name, and its times. -/
theorem records_tell_same_lines {book : Notebook} {tree : FileTree} {file : File} {s : Text}
    (hfile : tree.readFile book.root = .ok file) (hbytes : file.bytes = Utf8.encode s)
    (name : Text) :
    ((∃ rs, book.records tree = .ok rs) ↔
      ((TextStore.ofText s name).records ≠ [] → book.CanTell tree book.root)) ∧
    ∀ rs, book.records tree = .ok rs →
      List.Forall₂ (SameLine s book.root.name) rs (TextStore.ofText s name).records ∧
      ∀ n line, ((lines s).map Line.body)[n]? = some line → isItem line = true →
        ∃ r ∈ rs, ∃ path, book.root.name = .ofText path ∧
          r.id = Notebook.lineId path (n + 1 : Nat) ∧ r.line = line := by
  have hread := Notebook.read_of_readFile hfile (by rw [hbytes]; exact Utf8.decode_encode s)
  constructor
  -- Unifying the line breaks keeps the lines, which end at every boundary anyway.
  · have hlines : Notebook.noteLines tree book.root = lines (unifyNewlines s) := by
      rw [Notebook.noteLines, hread]
    have hstore : (TextStore.ofText s name).records ≠ [] ↔
        Notebook.HasItem tree book.root := by
      rw [Notebook.hasItem_iff hlines, TextStore.records_eq, ne_eq, List.map_eq_nil_iff]
      rfl
    simp only [Notebook.records_of_file hfile]
    rw [Notebook.exists_noteRecords_iff, hread, hstore]
    exact and_iff_right nofun
  intro rs hrs
  rw [TextStore.records_eq]
  rcases Notebook.records_of_text hfile hbytes hrs with ⟨hnone, rfl⟩ | ⟨path, source, hpath, rfl⟩
  · refine ⟨?_, fun n line hline hitem => ?_⟩
    · show List.Forall₂ _ [] ((numberedItems ((lines s).map Line.body)).map _)
      rw [hnone]
      exact .nil
    · have hmem : (line, n + 1) ∈ numberedItems ((lines s).map Line.body) :=
        mem_numberedItems.mpr ⟨Nat.le_add_left 1 n, hline, hitem⟩
      rw [hnone] at hmem
      exact absurd hmem List.not_mem_nil
  · refine ⟨?_, fun n line hline hitem => ?_⟩
    -- Both lists run over the numbered items, and each pair has the same number.
    · rw [List.forall₂_map_left_iff, List.forall₂_map_right_iff]
      refine List.forall₂_same.mpr fun numbered hnumbered => ?_
      obtain ⟨hpos, hline, -⟩ := mem_numberedItems.mp hnumbered
      exact ⟨numbered.2, path, hpos, hline, rfl, hpath, rfl, rfl⟩
    · exact ⟨_, List.mem_map_of_mem (mem_numberedItems.mpr ⟨Nat.le_add_left 1 n, hline, hitem⟩),
        path, hpath, rfl, rfl⟩

/-- A text with line ends of many kinds, one behind the other. -/
def mixedLines : Text := "- [ ] a\r\r\n- [ ] b\n\r\x0b- [x] c\u2028d\x1c- [ ] e\r".toList

/-- A note of that text, by itself. -/
def mixedNote : Notebook := ⟨Path.ofText "n.md".toList⟩

/-- The tree with the note. -/
def mixedNoteTree : FileTree where
  files := [([Utf8.encode "n.md".toList], ⟨Utf8.encode mixedLines, 0, 0⟩)]

/-- The note and the text in memory have records of the same four lines. -/
theorem records_tell_same_lines_mixedNote :
    mixedNoteTree.readFile mixedNote.root = .ok ⟨Utf8.encode mixedLines, 0, 0⟩ ∧
    ∃ rs, mixedNote.records mixedNoteTree = .ok rs ∧
      List.Forall₂ (SameLine mixedLines (.ofText "n.md".toList)) rs
        (TextStore.ofText mixedLines TextStore.standardInput).records ∧
      (TextStore.ofText mixedLines TextStore.standardInput).records.map (fun r => (r.id, r.line)) =
        [("line-1".toList, "- [ ] a".toList), ("line-3".toList, "- [ ] b".toList),
          ("line-6".toList, "- [x] c".toList), ("line-8".toList, "- [ ] e".toList)] := by
  have hfile : mixedNoteTree.readFile mixedNote.root = .ok ⟨Utf8.encode mixedLines, 0, 0⟩ := by
    decide +kernel
  have hname : mixedNote.root.name = .ofText "n.md".toList := by decide +kernel
  have htell : mixedNote.CanTell mixedNoteTree mixedNote.root :=
    ⟨⟨"n.md".toList, by decide +kernel⟩, fun path =>
      ⟨⟨some path, some Clock.epoch.text, some Clock.epoch.text⟩, by rfl⟩⟩
  obtain ⟨hiff, hsame⟩ := records_tell_same_lines hfile rfl TextStore.standardInput
  obtain ⟨rs, hrs⟩ := hiff.mpr fun _ => htell
  exact ⟨hfile, rs, hrs, hname ▸ (hsame rs hrs).1, by decide +kernel⟩

end Checklist
