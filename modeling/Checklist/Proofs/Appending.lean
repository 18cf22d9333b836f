import Checklist.Proofs.ReplaceLine

/-!
# Appending a line — the number that is told and the number that is read

A line that is appended stands behind the lines of the note, which is first closed by a line feed
(`closed`), so it makes one row more at the end (`rows_appended`). The number of this row counts the
lines before it, and a line ends at any boundary (`length_lines_of_ended`). The number that is told
counts line feeds alone. The two agree exactly when the note has no other boundaries
(`told_eq_read_iff`), and then the record that is told is the one that is read
(`appendLine_adds_record_iff`).
-/

namespace Checklist

open Text

namespace Text

/-! ## Texts that end with a line feed -/

/-- The text is empty or ends with a line feed. -/
def Ended (s : Text) : Prop := s = [] ∨ s.getLast? = some '\n'

instance (s : Text) : Decidable (Ended s) :=
  inferInstanceAs (Decidable (s = [] ∨ s.getLast? = some '\n'))

/-- The text, with a line feed behind it unless it is ended. -/
def closed (s : Text) : Text := if Ended s then s else s ++ ['\n']

/-- A closed text ends with a line feed, if with anything. -/
theorem ended_closed (s : Text) : Ended (closed s) := by
  unfold closed
  split
  · next h => exact h
  · exact .inr List.getLast?_concat

/-- Nothing but a line feed is added to close a text. -/
theorem mem_closed {c : Char} {s : Text} (hc : c ≠ '\n') : c ∈ closed s ↔ c ∈ s := by
  unfold closed
  split
  · rfl
  · simp [hc]

/-- Behind any of its characters, an ended text goes on with an ended text. -/
theorem Ended.of_append_cons {w s : Text} {c : Char} (h : Ended (w ++ c :: s)) : Ended s := by
  cases s with
  | nil => exact .inl rfl
  | cons d s =>
      refine .inr ?_
      rcases h with h | h
      · exact absurd h (by simp)
      · simpa [List.getLast?_append, List.getLast?_cons] using h

/-- An ended text without boundaries is empty. -/
theorem Ended.eq_nil {w : Text} (h : Ended w) (hw : ∀ c ∈ w, isBoundary c = false) : w = [] := by
  refine h.resolve_right fun hlast => ?_
  exact absurd (hw '\n' (List.mem_of_getLast? hlast)) (by decide)

/-- What stands behind an ended text begins a line. -/
theorem lines_ended_append {s : Text} (h : Ended s) (hreturn : '\r' ∉ s) (t : Text) :
    lines (s ++ t) = lines s ++ lines t := by
  induction s using boundary_induction with
  | free w hw =>
      rw [h.eq_nil hw]
      rfl
  | cut w c s hw hc ih =>
      simp only [List.mem_append, List.mem_cons, not_or] at hreturn
      obtain ⟨-, hc', hs⟩ := hreturn
      rw [List.append_assoc, List.cons_append, lines_append_boundary hw hc (Ne.symm hc'),
        lines_append_boundary hw hc (Ne.symm hc'), ih h.of_append_cons hs, List.cons_append]

/-- An ended text has as many lines as boundaries. -/
theorem length_lines_of_ended {s : Text} (h : Ended s) (hreturn : '\r' ∉ s) :
    (lines s).length = s.countP isBoundary := by
  induction s using boundary_induction with
  | free w hw =>
      rw [h.eq_nil hw]
      rfl
  | cut w c s hw hc ih =>
      simp only [List.mem_append, List.mem_cons, not_or] at hreturn
      obtain ⟨-, hc', hs⟩ := hreturn
      have hnone : w.countP isBoundary = 0 :=
        List.countP_eq_zero.mpr fun d hd => by simp [hw d hd]
      rw [lines_append_boundary hw hc (Ne.symm hc'), List.length_cons, ih h.of_append_cons hs,
        List.countP_append, hnone, List.countP_cons, hc]
      simp

/-! ## Counting line feeds -/

/-- A text has at least as many line breaks as line feeds. -/
theorem count_newline_le (s : Text) : s.count '\n' ≤ s.countP isBoundary :=
  List.countP_mono_left fun c _ hc => by
    rw [beq_iff_eq.mp hc]
    decide

/-- Line feeds are as many as boundaries when there are no other boundaries. -/
theorem count_newline_eq_iff (s : Text) :
    s.count '\n' = s.countP isBoundary ↔ ∀ c ∈ s, isBoundary c = true → c = '\n' := by
  induction s with
  | nil => simp
  | cons c s ih =>
      have hle := count_newline_le s
      rw [List.forall_mem_cons, ← ih]
      -- A boundary that is no line feed is one too many, and later characters cannot make up for
      -- it.
      by_cases hfeed : c = '\n'
      · subst hfeed
        have hc : isBoundary '\n' = true := by decide
        rw [List.count_cons_self, List.countP_cons_of_pos hc]
        simp
      · rw [List.count_cons_of_ne hfeed]
        cases hc : isBoundary c with
        | true =>
            rw [List.countP_cons_of_pos hc]
            refine iff_of_false (by omega) ?_
            rintro ⟨himp, -⟩
            exact hfeed (himp rfl)
        | false =>
            rw [List.countP_cons_of_neg (by simp [hc])]
            simp

/-- All boundaries of the text are line feeds and carriage returns. -/
def PlainLines (s : Text) : Prop := ∀ c ∈ s, isBoundary c = true → c = '\n' ∨ c = '\r'

end Text

namespace Notebook

/-! ## The two numbers -/

/-- The number under which a line is told that is appended to the text. -/
def toldNumber (text : Text) : Nat := (closed text).count '\n' + 1

/-- The number that the line has when the note is read. -/
def readNumber (text : Text) : Nat := (lines (closed text)).length + 1

/-- The note with a line more is closed before that. -/
theorem longerText_eq (text line : Text) :
    longerText text line = closed text ++ line ++ ['\n'] := rfl

/-- The line is told the number that it has when line feeds are the only boundaries, in what was
read before carriage returns became line feeds. -/
theorem told_eq_read_iff (content : Text) :
    toldNumber (unifyNewlines content) = readNumber (unifyNewlines content) ↔
      PlainLines content := by
  have hreturn : '\r' ∉ closed (unifyNewlines content) := fun h =>
    return_not_mem_unifyNewlines content ((mem_closed (by decide)).mp h)
  rw [toldNumber, readNumber, length_lines_of_ended (ended_closed _) hreturn,
    Nat.add_right_cancel_iff, count_newline_eq_iff]
  constructor
  · intro h c hc hbound
    by_cases hplain : c = '\n' ∨ c = '\r'
    · exact hplain
    · rw [not_or] at hplain
      have hmem : c ∈ closed (unifyNewlines content) :=
        (mem_closed hplain.1).mpr ((mem_unifyNewlines hplain.1 hplain.2 content).mpr hc)
      exact .inl (h c hmem hbound)
  · intro h c hc hbound
    refine Decidable.byContradiction fun hfeed => ?_
    have hne : c ≠ '\r' := fun heq => hreturn (heq ▸ hc)
    have hmem : c ∈ content :=
      (mem_unifyNewlines hfeed hne content).mp ((mem_closed hfeed).mp hc)
    exact (h c hmem hbound).elim hfeed hne

/-! ## The rows of the longer note -/

section Rows

variable {path s line : Text}

/-- A line feed at the end of a text makes no rows. -/
theorem rows_append_newline (path : Text) (number : Nat) (hreturn : '\r' ∉ s) :
    rows path number (lines (s ++ ['\n'])) = rows path number (lines s) := by
  induction s using boundary_induction generalizing number with
  | free w hw =>
      rw [lines_append_newline hw]
      cases w with
      | nil => rfl
      | cons c w =>
          rw [lines_of_not_boundary (List.cons_ne_nil c w) hw]
          rfl
  | cut w c s hw hc ih =>
      simp only [List.mem_append, List.mem_cons, not_or] at hreturn
      obtain ⟨-, hc', hs⟩ := hreturn
      rw [List.append_assoc, List.cons_append, lines_append_boundary hw hc (Ne.symm hc'),
        lines_append_boundary hw hc (Ne.symm hc'), rows, rows, ih (number + 1) hs]

/-- Closing a text keeps its items where they are. -/
theorem rows_closed (hreturn : '\r' ∉ s) :
    rows path 1 (lines (closed s)) = rows path 1 (lines s) := by
  unfold closed
  split
  · rfl
  · exact rows_append_newline path 1 hreturn

/-- The appended line is the last row. -/
theorem rows_appended (hreturn : '\r' ∉ s) (hitem : isItem line = true)
    (hline : ∀ c ∈ line, isBoundary c = false) :
    rows path 1 (lines (closed s ++ line ++ ['\n'])) =
      rows path 1 (lines s) ++ [⟨lineId path (readNumber s), line, some path⟩] := by
  have hclosed : '\r' ∉ closed s := fun h => hreturn ((mem_closed (by decide)).mp h)
  rw [List.append_assoc, lines_ended_append (ended_closed s) hclosed, lines_append_newline hline,
    rows_append, rows_closed hreturn, rows_cons_of_item hitem, readNumber, Nat.add_comm 1]
  rfl

end Rows

/-! ## Appending to a note -/

section Note

variable {tree : FileTree} {note : Path} {text line : Text}

/-- The records of a notebook that is one note tell the rows of the note. -/
theorem map_row_of_read {path : Text} {rs : List Record} (h : read tree note = .text text)
    (hpath : note.name = .ofText path) (hrs : records ⟨note⟩ tree = .ok rs) :
    rs.map Record.row = rows path 1 (lines text) := by
  obtain ⟨-, target, hleads⟩ := exists_file_of_read h
  have hleads : tree.LeadsToFile (Notebook.mk note).root target := hleads
  have hrelative : relative ⟨note⟩ tree note = .ofText path := (relative_root hleads).trans hpath
  rw [map_row_of_records hrs, notes_root hleads, List.flatMap_singleton, noteRows, hrelative,
    needText_ofText, noteLines, h]

/-- Without carriage returns in the line, there are none in the note with the line more. -/
theorem return_not_mem_longerText (hreturn : '\r' ∉ text)
    (hline : ∀ c ∈ line, isBoundary c = false) : '\r' ∉ longerText text line := by
  rw [longerText_eq, List.mem_append, List.mem_append, not_or, not_or, mem_closed (by decide)]
  refine ⟨⟨hreturn, fun h => ?_⟩, by decide⟩
  exact absurd (hline _ h) (by decide)

/-- A note whose name is a text gives its records once a line is appended. -/
theorem exists_records_longerText {target : Location} (hleads : tree.LeadsToFile note target)
    (hname : note.name.IsText) (hreturn : '\r' ∉ text) (hline : ∀ c ∈ line, isBoundary c = false) :
    ∃ rs, records ⟨note⟩ (tree.withText target (longerText text line)) = .ok rs := by
  have hleads' : tree.LeadsToFile (Notebook.mk note).root target := hleads
  rw [exists_records_iff, notes_withText hleads, notes_root hleads']
  intro other hother
  rw [List.mem_singleton.mp hother]
  refine exists_noteRecords_withText hleads ?_ (return_not_mem_longerText hreturn hline)
  rw [relative_root hleads']
  exact hname

/-- The record that is told has the one number, and the record that is read has the other. -/
theorem exists_records_appended {path : Text} {rs : List Record} (h : read tree note = .text text)
    (hpath : note.name = .ofText path) (hrs : records ⟨note⟩ tree = .ok rs)
    (hitem : isItem line = true) (hline : ∀ c ∈ line, isBoundary c = false) :
    ∃ after r rs', appendLine ⟨note⟩ tree (.ofText line) none = (after, .ok r) ∧
      records ⟨note⟩ after = .ok rs' ∧
      r.row = ⟨lineId path (toldNumber text), line, some path⟩ ∧
      rs'.map Record.row =
        rs.map Record.row ++ [⟨lineId path (readNumber text), line, some path⟩] := by
  obtain ⟨hreturn, target, hleads⟩ := exists_file_of_read h
  obtain ⟨rs', hrs'⟩ := exists_records_longerText hleads ⟨path, hpath⟩ hreturn hline
  have happend : appendLine ⟨note⟩ tree (.ofText line) none = _ := appendLine_of_read h hleads line
  rw [hpath, needText_ofText] at happend
  have hlonger := read_withText_self hleads (return_not_mem_longerText hreturn hline)
  refine ⟨_, _, rs', happend, hrs', rfl, ?_⟩
  rw [map_row_of_read hlonger hpath hrs', longerText_eq, rows_appended hreturn hitem hline,
    map_row_of_read h hpath hrs]

/-- Only to a note whose name is a text can a line be appended, as its record is told in the end. -/
theorem isText_name_of_appendLine {after : FileTree} {r : Record} (h : read tree note = .text text)
    (happend : appendLine ⟨note⟩ tree (.ofText line) none = (after, .ok r)) :
    note.name.IsText := by
  obtain ⟨-, target, hleads⟩ := exists_file_of_read h
  refine Decidable.byContradiction fun hname => ?_
  obtain ⟨e, he⟩ := needText_of_not_isText hname
  have htold : appendLine ⟨note⟩ tree (.ofText line) none = _ := appendLine_of_read h hleads line
  rw [htold, he] at happend
  exact nomatch congrArg Prod.snd happend

/-- An item without boundaries can be appended to each note that is a text, if its name is one and
it gives its records. The records are then those from before and one more at the end, with this line
and the path of the note; and that is the record that was told exactly when the only boundaries of
the note are line feeds and carriage returns, or else the two numbers happen to have one id. -/
theorem appendLine_adds_record_iff {file : File} {content : Text}
    (hfile : tree.readFile note = .ok file) (hcontent : Utf8.decode file.bytes = .ok content)
    (hitem : isItem line = true) (hline : ∀ c ∈ line, isBoundary c = false) :
    open? tree note = .ok ⟨note⟩ ∧
    (note.name.IsText → ∀ rs, records ⟨note⟩ tree = .ok rs →
      ∃ after r rs', appendLine ⟨note⟩ tree (.ofText line) none = (after, .ok r) ∧
        records ⟨note⟩ after = .ok rs' ∧
        ∃ id, rs'.map Record.row = rs.map Record.row ++ [{ r.row with id }]) ∧
    ((∃ rs after r rs', records ⟨note⟩ tree = .ok rs ∧
        appendLine ⟨note⟩ tree (.ofText line) none = (after, .ok r) ∧
        records ⟨note⟩ after = .ok rs' ∧ rs'.map Record.row = rs.map Record.row ++ [r.row]) ↔
      ∃ path, note.name = .ofText path ∧ (∃ rs, records ⟨note⟩ tree = .ok rs) ∧
        (PlainLines content ∨ lineId path (toldNumber (unifyNewlines content)) =
          lineId path (readNumber (unifyNewlines content)))) := by
  have hread := read_of_readFile hfile hcontent
  refine ⟨open?_of_read hread, ?_, ?_⟩
  · rintro ⟨path, hpath⟩ rs hrs
    obtain ⟨after, r, rs', happend, hrs', hrow, hrows⟩ :=
      exists_records_appended hread hpath hrs hitem hline
    exact ⟨after, r, rs', happend, hrs', _, by rw [hrows, hrow]⟩
  constructor
  · rintro ⟨rs, after, r, rs', hrs, happend, hrs', heq⟩
    -- Whoever could append a line has a name for the note, so the two runs are the same.
    obtain ⟨path, hpath⟩ := isText_name_of_appendLine hread happend
    obtain ⟨after₀, r₀, rs₀, happend₀, hrs₀, hrow, hrows⟩ :=
      exists_records_appended hread hpath hrs hitem hline
    cases happend.symm.trans happend₀
    cases hrs'.symm.trans hrs₀
    rw [hrows, hrow, List.append_cancel_left_eq] at heq
    exact ⟨path, hpath, ⟨rs, hrs⟩, .inr (congrArg Row.id (List.cons.inj heq).1).symm⟩
  · rintro ⟨path, hpath, ⟨rs, hrs⟩, hnumbers⟩
    obtain ⟨after, r, rs', happend, hrs', hrow, hrows⟩ :=
      exists_records_appended hread hpath hrs hitem hline
    refine ⟨rs, after, r, rs', hrs, happend, hrs', ?_⟩
    rw [hrows, hrow]
    -- Either the two numbers are one, or their ids are.
    rcases hnumbers with hplain | hid
    · rw [(told_eq_read_iff content).mpr hplain]
    · rw [hid]

theorem readFile_oneNote (text : Text) :
    (oneNoteTree text).readFile oneNote.root = .ok ⟨Utf8.encode text, 0, 0⟩ := by
  have hlocate : (oneNoteTree text).locate oneNote.root = .ok [Utf8.encode "n.md".toList] := by rfl
  exact FileTree.readFile_eq_ok_iff.mpr ⟨_, hlocate, rfl⟩

/-- Behind a carriage return with a line feed, and with no line feed at the end, the record that is
told is read. -/
theorem appendLine_adds_record_returns :
    ∃ file, (oneNoteTree "a\r\nb".toList).readFile oneNote.root = .ok file ∧
      Utf8.decode file.bytes = .ok "a\r\nb".toList ∧
      open? (oneNoteTree "a\r\nb".toList) oneNote.root = .ok oneNote ∧
      ∃ rs after r rs', oneNote.records (oneNoteTree "a\r\nb".toList) = .ok rs ∧
        oneNote.appendLine (oneNoteTree "a\r\nb".toList) (.ofText "- [ ] c".toList) none =
          (after, .ok r) ∧
        oneNote.records after = .ok rs' ∧ rs'.map Record.row = rs.map Record.row ++ [r.row] := by
  have hfile := readFile_oneNote "a\r\nb".toList
  have hcontent := Utf8.decode_encode "a\r\nb".toList
  have hplain : PlainLines "a\r\nb".toList := forall_mem_of_all (by decide)
  have hitem : isItem "- [ ] c".toList = true := by decide
  have hline : ∀ c ∈ "- [ ] c".toList, isBoundary c = false := forall_mem_of_all (by decide)
  obtain ⟨hopen, -, hiff⟩ := appendLine_adds_record_iff hfile hcontent hitem hline
  -- The note has no items yet.
  have hrs : oneNote.records (oneNoteTree "a\r\nb".toList) = .ok [] := by decide +kernel
  exact ⟨_, hfile, hcontent, hopen,
    hiff.mpr ⟨"n.md".toList, by decide, ⟨[], hrs⟩, .inl hplain⟩⟩

/-- Behind a vertical tab the line is told to be the second, and is read as the third. -/
theorem not_appendLine_adds_record_verticalTab :
    ¬∀ (tree : FileTree) (note : Path) (file : File) (content line : Text),
      tree.readFile note = .ok file → Utf8.decode file.bytes = .ok content →
        isItem line = true → (∀ c ∈ line, isBoundary c = false) →
          ∃ book rs after r rs', open? tree note = .ok book ∧ book.records tree = .ok rs ∧
            book.appendLine tree (.ofText line) none = (after, .ok r) ∧
              book.records after = .ok rs' ∧ rs'.map Record.row = rs.map Record.row ++ [r.row] := by
  intro h
  have hfile := readFile_oneNote "a\x0bb".toList
  have hcontent := Utf8.decode_encode "a\x0bb".toList
  have hitem : isItem "- [ ] c".toList = true := by decide
  have hline : ∀ c ∈ "- [ ] c".toList, isBoundary c = false := forall_mem_of_all (by decide)
  obtain ⟨book, rs, after, r, rs', hopen, hrs, happend, hrs', heq⟩ :=
    h _ _ _ _ _ hfile hcontent hitem hline
  obtain ⟨rfl, -⟩ := open?_eq_ok_iff.mp hopen
  have hpath : oneNote.root.name = .ofText "n.md".toList := by decide
  obtain ⟨after₀, r₀, rs₀, happend₀, hrs₀, hrow, hrows⟩ :=
    exists_records_appended (read_of_readFile hfile hcontent) hpath hrs hitem hline
  cases happend.symm.trans happend₀
  cases hrs'.symm.trans hrs₀
  rw [hrows, hrow, List.append_cancel_left_eq] at heq
  exact absurd (congrArg Row.id (List.cons.inj heq).1) (by decide +kernel)

end Note

end Notebook

end Checklist
