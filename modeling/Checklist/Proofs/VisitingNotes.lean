import Checklist.Proofs.ReplaceLine

/-!
# Visiting notes — the one note that replacing a line writes

Where the search over the notes finds a line, its note is written, and that note alone. A text for a
line is written as it is; a line that is no text empties the note, as a note is emptied before it is
written. Where no line is found nothing is written at all (`replaces_replaceLine`).

So replacing a line either fails and changes nothing or changes the note of the first line with the
id, and it takes the ids of all records, except for lines that are no text and where the search
stops at a note before (`replaceLine_atomic_iff`).
-/

namespace Checklist

open Text

namespace Notebook

variable {book : Notebook} {tree : FileTree} {id line : RawText} {note : Path}
  {before : List Line} {old : Line} {rest : List Line}

/-! ## The write behind the search -/

/-- The note of a line is a file. -/
theorem FirstLine.exists_target (h : book.FirstLine tree id note before old rest) :
    ∃ target, tree.LeadsToFile note target := by
  obtain ⟨text, hread, -⟩ := exists_text_of_noteLines h.noteLines_ne_nil
  exact (exists_file_of_read hread).2

/-- What replacing a line can do: it fails where the search does, and else it writes the note that
was found, or empties it when the new line is no text. -/
inductive Replaces (book : Notebook) (tree : FileTree) (id : RawText) :
    (line : RawText) → FileTree × Except NoteError Unit → Prop where
  | written {note : Path} {target : Location} {before : List Line} {old : Line} {rest : List Line}
      {text : Text} (hreaches : book.Reaches tree id (book.notes tree) note)
      (hfirst : book.FirstLine tree id note before old rest)
      (htarget : tree.LeadsToFile note target) :
      Replaces book tree id (.ofText text)
        (tree.withText target (relinedText text before old rest), .ok ())
  | emptied {note : Path} {target : Location} {before : List Line} {old : Line} {rest : List Line}
      {line : RawText} {e : EncodeError} (hreaches : book.Reaches tree id (book.notes tree) note)
      (hfirst : book.FirstLine tree id note before old rest)
      (htarget : tree.LeadsToFile note target) (hline : ¬line.IsText) :
      Replaces book tree id line (tree.withText target [], .error (.unencodable e))
  | failed {note : Path} {line : RawText} {e : FileError}
      (hreaches : book.Reaches tree id (book.notes tree) note)
      (hread : read tree note = .failed e) :
      Replaces book tree id line (tree, .error (.file e))
  | unnamed {note : Path} {line : RawText} {e : EncodeError}
      (hreaches : book.Reaches tree id (book.notes tree) note) (hlines : noteLines tree note ≠ [])
      (hpath : needText (book.relative tree note) = .error (.unencodable e)) :
      Replaces book tree id line (tree, .error (.unencodable e))
  | missing {line : RawText} (hnotes : ∀ n ∈ book.notes tree, book.Passes tree id n) :
      Replaces book tree id line (tree, .error (.unknownRecord id))

/-- Replacing a line does nothing else. -/
theorem replaces_replaceLine (book : Notebook) (tree : FileTree) (id line : RawText) :
    book.Replaces tree id line (book.replaceLine tree id line) := by
  rw [replaceLine]
  generalize hplan : book.planReplace tree id line = plan
  have hends : book.SearchEnds tree id line (book.notes tree) plan :=
    hplan ▸ searchEnds_planReplace book tree id line
  cases hends with
  | found hreaches hfirst =>
      obtain ⟨target, htarget⟩ := hfirst.exists_target
      -- The file is opened for writing before the new text is encoded, so a line that is no text
      -- costs the old one.
      by_cases hline : line.IsText
      · obtain ⟨text, rfl⟩ := hline
        simp only [relined_ofText, writeNote_ofText htarget]
        exact .written hreaches hfirst htarget
      · have hnone (before : List Line) (old : Line) (rest : List Line) :
            ¬(relined line before old rest).IsText := mt isText_relined_iff.mp hline
        obtain ⟨e, he⟩ := needText_of_not_isText (hnone _ _ _)
        simp only [writeNote_eq htarget]
        rw [he]
        exact .emptied hreaches hfirst htarget hline
  | failed hreaches hread => exact .failed hreaches hread
  | unnamed hreaches hlines hpath => exact .unnamed hreaches hlines hpath
  | missing hnotes => exact .missing hnotes

/-- The line of a record can be replaced by a text unless the search stops before. -/
theorem exists_replaceLine_iff {rs : List Record} (hrs : book.records tree = .ok rs) {r : Record}
    (hr : r ∈ rs) (line : RawText) :
    (∃ after, book.replaceLine tree (.ofText r.id) line = (after, .ok ())) ↔
      line.IsText ∧ ¬book.Stops tree (.ofText r.id) := by
  have hfails (after : FileTree) (e : NoteError) :
      ¬∃ found, ((after, .error e) : FileTree × Except NoteError Unit) = (found, .ok ()) := by
    rintro ⟨found, h⟩
    exact nomatch congrArg Prod.snd h
  obtain ⟨note, before, old, rest, h, -⟩ := exists_line_of_mem_records hrs hr
  generalize hresult : book.replaceLine tree (.ofText r.id) line = result
  have hreplaces : book.Replaces tree (.ofText r.id) line result :=
    hresult ▸ replaces_replaceLine book tree (.ofText r.id) line
  cases hreplaces with
  | written hreaches hfirst htarget =>
      exact iff_of_true ⟨_, rfl⟩ ⟨RawText.isText_ofText _, not_stops_of_found hreaches hfirst⟩
  | emptied hreaches hfirst htarget hline =>
      exact iff_of_false (hfails _ _) fun hand => hline hand.1
  | failed hreaches hread =>
      exact iff_of_false (hfails _ _) fun hand => hand.2 (stops_of_failed hreaches hread)
  | unnamed hreaches hlines hpath =>
      exact iff_of_false (hfails _ _) fun hand => hand.2 (stops_of_unnamed hreaches hlines hpath)
  | missing hnotes =>
      -- The search cannot miss: the line of the record is in one of the notes.
      have hlength := h.length_eq
      exact absurd h.idAt_eq ((hnotes note h.mem_notes).idAt_ne before.length (by omega))

/-- A note with a line is changed when it is emptied. -/
theorem FirstLine.nodeAt_withText_nil_ne (h : book.FirstLine tree id note before old rest)
    {target : Location} (htarget : tree.LeadsToFile note target) :
    (tree.withText target []).nodeAt target ≠ tree.nodeAt target := by
  intro heq
  have hempty : tree.nodeAt target = some (.file (tree.written [])) :=
    heq.symm.trans ((FileTree.nodeAt_withFile tree _ _ _).trans (if_pos rfl))
  have hread : read tree note = .text [] :=
    read_eq_text_iff.mpr ⟨target, tree.written [], htarget.locate_eq, hempty, rfl⟩
  refine h.noteLines_ne_nil ?_
  rw [noteLines, hread]
  rfl

/-! ## All or nothing -/

/-- Replacing a line is all or nothing. An attempt that fails leaves every place as it was. One that
does not writes the first note, in the order of the notes, in which a line has the id, and leaves
every other place as it was. The id of a record is always taken. -/
structure Atomic (book : Notebook) (tree : FileTree) (id line : RawText) : Prop where
  of_error : ∀ after e, book.replaceLine tree id line = (after, .error e) →
    ∀ location, after.nodeAt location = tree.nodeAt location
  of_ok : ∀ after, book.replaceLine tree id line = (after, .ok ()) →
    ∃ note before old rest target text, book.Reaches tree id (book.notes tree) note ∧
      book.FirstLine tree id note before old rest ∧ tree.LeadsToFile note target ∧
      line = .ofText text ∧
      after.nodeAt target =
        some (.file (tree.written (Utf8.encode (relinedText text before old rest)))) ∧
      ∀ location ≠ target, after.nodeAt location = tree.nodeAt location
  of_record : ∀ rs, book.records tree = .ok rs → ∀ r ∈ rs,
    ∃ after, book.replaceLine tree (.ofText r.id) line = (after, .ok ())

/-- **Replacing a line.** Its outcomes are those of `Replaces`. It is all or nothing exactly when no
line with the id is to be replaced by a line that is no text, and the line of every record can be:
there the new line is a text, and the search does not stop before. -/
theorem replaceLine_atomic_iff (book : Notebook) (tree : FileTree) (id line : RawText) :
    book.Replaces tree id line (book.replaceLine tree id line) ∧
    (book.Atomic tree id line ↔
      (∀ note before old rest, book.Reaches tree id (book.notes tree) note →
        book.FirstLine tree id note before old rest → line.IsText) ∧
      ∀ rs, book.records tree = .ok rs → ∀ r ∈ rs,
        line.IsText ∧ ¬book.Stops tree (.ofText r.id)) := by
  have hreplaces := replaces_replaceLine book tree id line
  refine ⟨hreplaces, ?_⟩
  generalize hresult : book.replaceLine tree id line = result at hreplaces
  constructor
  · rintro ⟨herror, -, hrecord⟩
    refine ⟨fun note before old rest hreaches hfirst => ?_, fun rs hrs r hr =>
      (exists_replaceLine_iff hrs hr line).mp (hrecord rs hrs r hr)⟩
    cases hreplaces with
    | written => exact RawText.isText_ofText _
    -- A note that was emptied held a line, so it is not as it was.
    | emptied _ hfound htarget _ =>
        exact absurd (herror _ _ hresult _) (hfound.nodeAt_withText_nil_ne htarget)
    | failed hreaches' hread =>
        exact absurd (stops_of_failed hreaches' hread) (not_stops_of_found hreaches hfirst)
    | unnamed hreaches' hlines hpath =>
        exact absurd (stops_of_unnamed hreaches' hlines hpath) (not_stops_of_found hreaches hfirst)
    | missing hnotes => exact absurd (hnotes note hreaches.mem) hfirst.not_passes
  · rintro ⟨hline, hrecord⟩
    refine ⟨fun after e he location => ?_, fun after hafter => ?_, fun rs hrs r hr =>
      (exists_replaceLine_iff hrs hr line).mpr (hrecord rs hrs r hr)⟩
    · rw [hresult] at he
      cases hreplaces with
      | written => exact nomatch congrArg Prod.snd he
      | emptied hreaches hfirst _ hnone => exact absurd (hline _ _ _ _ hreaches hfirst) hnone
      | failed =>
          cases he
          rfl
      | unnamed =>
          cases he
          rfl
      | missing =>
          cases he
          rfl
    -- Of the ways to end, only one is without an error.
    · rw [hresult] at hafter
      cases hreplaces with
      | written hreaches hfirst htarget =>
          obtain rfl := congrArg Prod.fst hafter
          refine ⟨_, _, _, _, _, _, hreaches, hfirst, htarget, rfl, ?_, fun location hne => ?_⟩
          · exact (FileTree.nodeAt_withFile tree _ _ _).trans (if_pos rfl)
          · exact (FileTree.nodeAt_withFile tree _ _ _).trans (if_neg hne)
      | emptied => exact nomatch congrArg Prod.snd hafter
      | failed => exact nomatch congrArg Prod.snd hafter
      | unnamed => exact nomatch congrArg Prod.snd hafter
      | missing => exact nomatch congrArg Prod.snd hafter

/-- An item with half of a surrogate pair in it. -/
def brokenItem : RawText := RawText.ofText "- [x] ".toList ++ [.surrogate 0x4FF]

/-- An item that is no text empties the note whose line it is to replace. -/
theorem not_replaceLine_atomic_brokenItem :
    ¬∀ (book : Notebook) (tree : FileTree) (id line : RawText), book.Atomic tree id line := by
  intro h
  have hatomic := h oneNote (oneNoteTree "- [ ] a\n".toList)
    (.ofText (lineId "n.md".toList 1)) brokenItem
  have hfailed : (oneNote.replaceLine (oneNoteTree "- [ ] a\n".toList)
      (.ofText (lineId "n.md".toList 1)) brokenItem).2 =
        .error (.unencodable ⟨6, 0x4FF, 1⟩) := by
    decide +kernel
  have hemptied : (oneNote.replaceLine (oneNoteTree "- [ ] a\n".toList)
      (.ofText (lineId "n.md".toList 1)) brokenItem).1.nodeAt [Utf8.encode "n.md".toList] ≠
        (oneNoteTree "- [ ] a\n".toList).nodeAt [Utf8.encode "n.md".toList] := by
    decide +kernel
  generalize hresult : oneNote.replaceLine (oneNoteTree "- [ ] a\n".toList)
    (.ofText (lineId "n.md".toList 1)) brokenItem = result at hfailed hemptied
  obtain ⟨after, outcome⟩ := result
  rw [show outcome = _ from hfailed] at hresult
  exact hemptied (hatomic.of_error after _ hresult _)

end Notebook

end Checklist
