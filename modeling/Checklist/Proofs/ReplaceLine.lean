import Checklist.Proofs.Characters
import Checklist.Proofs.NoteSearch

/-!
# Replacing a line — one row changes, or the line runs into the next

A replaced line keeps the line feed at its end and loses any other boundary. With a line feed it is
cut off like the old one; without one it runs into the line below, and all lines after that move up
by one (`lines_relinedText`).

So replacing a line changes the one row that it is to change exactly when a line feed ends the line
or nothing below it can be harmed: the line that it runs into is empty, and no item comes after it
(`rows_relinedTail_iff`). The other notes are read as before. For the notebook as a whole the search
for the line must not stop at a note before, and then nothing else can go wrong
(`replaceLine_changes_one_row_iff`).
-/

namespace Checklist

open Text

namespace Notebook

/-- Whether a line that is replaced leaves the lines behind it as they are: a line feed ends it, or
it runs into an empty line, if into any, and there is no item behind it. -/
def LeavesRest (old : Line) (rest : List Line) : Prop :=
  old.ending = ['\n'] ∨
    (∀ next ∈ rest.head?, next.body = []) ∧ ∀ line ∈ rest, isItem line.body = false

/-- The lines from the replaced one on. -/
def relinedTail (line : Text) (old : Line) (rest : List Line) : List Line :=
  if old.ending = ['\n'] then ⟨line, ['\n']⟩ :: rest else prependToFirst line rest

/-! ## The lines of the new text -/

/-- An item is not empty. -/
theorem ne_nil_of_isItem {line : Text} (h : isItem line = true) : line ≠ [] := by
  rintro rfl
  exact absurd h (by decide)

/-- A text in which a line was replaced has the lines before it and then the new one. -/
theorem lines_relinedText {s line : Text} {before : List Line} {old : Line} {rest : List Line}
    (h : '\r' ∉ s) (hs : lines s = before ++ old :: rest) (hne : line ≠ [])
    (hline : ∀ c ∈ line, isBoundary c = false) :
    lines (relinedText line before old rest) = before ++ relinedTail line old rest := by
  obtain ⟨⟨t, ht, hlines⟩, hcut⟩ := exists_cut_of_lines_eq h hs (List.cons_ne_nil _ _)
  rw [relinedText, hcut, relinedTail]
  rcases ending_of_lines_eq_cons ht hlines with
    ⟨hending, rfl⟩ | ⟨c, u, hc, hreturn, hending, -, rfl⟩
  · -- The replaced line is the last, and nothing ends it.
    have hkept : keptEnding old.ending = [] := by
      rw [hending]
      rfl
    have hopen : old.ending ≠ ['\n'] := by
      rw [hending]
      exact (List.cons_ne_nil _ _).symm
    rw [if_neg hopen, hkept, List.flatMap_nil, List.append_nil, lines_append hne hline]
    rfl
  -- A boundary ended the line, and it is kept if it is a line feed.
  · rw [flatMap_source_lines, hending]
    by_cases hfeed : c = '\n'
    · have hkept : keptEnding [c] = [c] := by
        rw [hfeed]
        rfl
      rw [if_pos (congrArg (fun d => [d]) hfeed), hkept, ← hfeed, List.append_assoc,
        List.singleton_append, lines_append_boundary hline hc hreturn]
    · have hlost : keptEnding [c] = [] := by simp [keptEnding, hfeed, hreturn]
      have hrare : [c] ≠ ['\n'] := fun heq => hfeed (List.cons.inj heq).1
      rw [if_neg hrare, hlost, List.append_nil, lines_append hne hline]

/-- Without carriage returns in the text and in the line, there are none afterwards. -/
theorem return_not_mem_relinedText {s line : Text} {before : List Line} {old : Line}
    {rest : List Line} (h : '\r' ∉ s) (hs : lines s = before ++ old :: rest)
    (hline : ∀ c ∈ line, isBoundary c = false) : '\r' ∉ relinedText line before old rest := by
  have hsource : s = before.flatMap Line.source ++ (old.source ++ rest.flatMap Line.source) := by
    rw [← flatMap_source_lines s, hs, List.flatMap_append, List.flatMap_cons]
  rw [hsource, List.mem_append, List.mem_append, not_or, not_or] at h
  obtain ⟨hbefore, hold, hrest⟩ := h
  rw [relinedText, List.mem_append, List.mem_append, List.mem_append, not_or, not_or, not_or]
  refine ⟨hbefore, ⟨fun hmem => ?_, fun hmem => ?_⟩, hrest⟩
  · exact absurd (hline _ hmem) (by decide)
  · rw [keptEnding, List.mem_reverse] at hmem
    have hending : '\r' ∈ old.ending :=
      List.mem_reverse.mp ((List.takeWhile_prefix _).subset hmem)
    exact hold (List.mem_append_right _ hending)

/-! ## The rows of the new text -/

section Rows

variable {path line : Text} {number : Nat} {old : Line} {rest : List Line}

/-- Rows that keep their place though all lines move up are none. -/
theorem not_isItem_of_rows_eq (hrows : rows path number rest = rows path (number + 1) rest)
    (hids : ∀ k < rest.length,
      lineId path (number + k : Nat) ≠ lineId path (number + k + 1 : Nat)) :
    ∀ line ∈ rest, isItem line.body = false := by
  induction rest generalizing number with
  | nil => exact fun line h => absurd h List.not_mem_nil
  | cons first rest ih =>
      have hfirst : isItem first.body = false := by
        refine Bool.eq_false_iff.mpr ?_
        intro hitem
        rw [rows_cons_of_item hitem, rows_cons_of_item hitem] at hrows
        exact hids 0 (Nat.succ_pos _) (congrArg Row.id (List.cons.inj hrows).1)
      rw [rows_cons_of_not_item hfirst, rows_cons_of_not_item hfirst] at hrows
      have hrest := ih hrows fun k hk => by
        have hshift : number + 1 + k = number + (k + 1) := by omega
        rw [hshift]
        exact hids (k + 1) (Nat.succ_lt_succ hk)
      exact List.forall_mem_cons.mpr ⟨hfirst, hrest⟩

/-- The rows behind the cut are the new line and the rows there were exactly when the line leaves
the rest as it is. -/
theorem rows_relinedTail_iff (hitem : isItem line = true)
    (hids : ∀ i ≤ rest.length, ∀ j ≤ rest.length,
      lineId path (number + i : Nat) = lineId path (number + j : Nat) → i = j) :
    rows path number (relinedTail line old rest) =
        ⟨lineId path number, line, some path⟩ :: rows path (number + 1) rest ↔
      LeavesRest old rest := by
  rw [relinedTail, LeavesRest]
  by_cases hfeed : old.ending = ['\n']
  · rw [if_pos hfeed]
    exact iff_of_true (rows_cons_of_item hitem) (.inl hfeed)
  · rw [if_neg hfeed, or_iff_right hfeed]
    cases rest with
    | nil =>
        refine iff_of_true (rows_cons_of_item hitem) ⟨fun _ h => ?_, fun _ h => ?_⟩
        · exact nomatch h
        · exact absurd h List.not_mem_nil
    | cons first rest =>
        rw [prependToFirst]
        constructor
        · intro hrows
          have hmerged : isItem (line ++ first.body) = true := by
            refine Bool.of_not_eq_false ?_
            intro hmerged
            rw [rows_cons_of_not_item hmerged] at hrows
            -- The new line has no row of its own, so another line has its id.
            obtain ⟨before, other, after, rfl, -, hrow⟩ :=
              exists_line_of_mem_rows (hrows ▸ List.mem_cons_self)
            have hzero := hids 0 (Nat.zero_le _) (1 + before.length) (by simp; omega)
              (by rw [← Nat.add_assoc]; exact congrArg Row.id hrow)
            omega
          -- The new line has its own row, which tells its text: nothing ran into it.
          rw [rows_cons_of_item hmerged] at hrows
          obtain ⟨hhead, hrest⟩ := List.cons.inj hrows
          have hbody : first.body = [] := List.append_right_eq_self.mp (congrArg Row.line hhead)
          have hfirst : isItem first.body = false := by rw [hbody]; rfl
          rw [rows_cons_of_not_item hfirst] at hrest
          have hnone := not_isItem_of_rows_eq hrest fun k hk heq => by
            have := hids (1 + k) (by simp; omega) (1 + k + 1) (by simp; omega)
              (by rw [← Nat.add_assoc, ← Nat.add_assoc, ← Nat.add_assoc]; exact heq)
            omega
          refine ⟨fun next hnext => ?_, List.forall_mem_cons.mpr ⟨hfirst, hnone⟩⟩
          obtain rfl := Option.some.inj hnext
          exact hbody
        · rintro ⟨hbody, hnone⟩
          obtain ⟨-, hrest⟩ := List.forall_mem_cons.mp hnone
          have hmerged : line ++ first.body = line := by
            rw [hbody first rfl, List.append_nil]
          rw [hmerged, rows_cons_of_item hitem, rows_eq_nil _ _ hrest, rows_eq_nil _ _ hnone]

/-- Replacing an item makes no rows more. -/
theorem length_rows_relinedTail_le (hold : isItem old.body = true) :
    (rows path number (relinedTail line old rest)).length ≤
      (rows path number (old :: rest)).length := by
  rw [length_rows, length_rows, relinedTail]
  split
  · simp only [List.countP_cons, hold, if_true]
    split <;> omega
  · cases rest with
    | nil =>
        simp only [prependToFirst, List.countP_cons, List.countP_nil, hold, if_true]
        split <;> omega
    | cons first rest =>
        simp only [prependToFirst, List.countP_cons, hold, if_true]
        split <;> omega

end Rows

/-! ## Ids of lines -/

/-- No two lines of the notes have one id. -/
def IdsDiffer (book : Notebook) (tree : FileTree) : Prop :=
  ∀ p ∈ book.notes tree, ∀ q ∈ book.notes tree,
    ∀ i < (noteLines tree p).length, ∀ j < (noteLines tree q).length,
      ∀ id ∈ book.idAt tree p i, id ∈ book.idAt tree q j → p = q ∧ i = j

instance (book : Notebook) (tree : FileTree) : Decidable (book.IdsDiffer tree) :=
  inferInstanceAs (Decidable (∀ p ∈ book.notes tree, ∀ q ∈ book.notes tree,
    ∀ i < (noteLines tree p).length, ∀ j < (noteLines tree q).length,
      ∀ id ∈ book.idAt tree p i, id ∈ book.idAt tree q j → p = q ∧ i = j))

/-- The line of a note that has this id, and what stands before and behind it. -/
structure HasLine (book : Notebook) (tree : FileTree) (id : Text) (note : Path)
    (before : List Line) (old : Line) (rest : List Line) : Prop where
  mem_notes : note ∈ book.notes tree
  noteLines_eq : noteLines tree note = before ++ old :: rest
  idAt_eq : book.idAt tree note before.length = some (.ofText id)

/-- Whether the line that has this id leaves the lines behind it as they are when it is replaced. -/
def KeepsRest (book : Notebook) (tree : FileTree) (id : Text) : Prop :=
  ∀ note before old rest, book.HasLine tree id note before old rest → LeavesRest old rest

section Ids

variable {book : Notebook} {tree : FileTree} {id path : Text} {note : Path} {before : List Line}
  {old : Line} {rest : List Line}

/-- The rows of a note whose path is a text. -/
theorem noteRows_of_relative (h : book.relative tree note = .ofText path) :
    book.noteRows tree note = rows path 1 (noteLines tree note) := by
  rw [noteRows, h, needText_ofText]

/-- A note whose path is no text has no rows. -/
theorem noteRows_of_not_isText (h : ¬(book.relative tree note).IsText) :
    book.noteRows tree note = [] := by
  obtain ⟨e, he⟩ := needText_of_not_isText h
  rw [noteRows, he]

/-- Each record is that of a line that is an item. -/
theorem exists_line_of_mem_records {rs : List Record} (hrs : book.records tree = .ok rs)
    {r : Record} (hr : r ∈ rs) :
    ∃ note before old rest, book.HasLine tree r.id note before old rest ∧
      isItem old.body = true := by
  have hrow : r.row ∈ rs.map Record.row := List.mem_map_of_mem hr
  rw [map_row_of_records hrs] at hrow
  obtain ⟨note, hnote, hrow⟩ := List.mem_flatMap.mp hrow
  by_cases htext : (book.relative tree note).IsText
  · obtain ⟨path, hpath⟩ := htext
    rw [noteRows_of_relative hpath] at hrow
    obtain ⟨before, old, rest, hlines, hitem, hrow⟩ := exists_line_of_mem_rows hrow
    have hid : r.id = lineId path (1 + before.length : Nat) := congrArg Row.id hrow
    exact ⟨note, before, old, rest, ⟨hnote, hlines, by rw [idAt_of_relative hpath, hid]⟩, hitem⟩
  · rw [noteRows_of_not_isText htext] at hrow
    exact absurd hrow List.not_mem_nil

/-- The note of a line is a file with a text. -/
theorem HasLine.exists_text (h : book.HasLine tree id note before old rest) :
    ∃ text, '\r' ∉ text ∧ lines text = before ++ old :: rest ∧
      ∃ target, tree.LeadsToFile note target := by
  have hne : noteLines tree note ≠ [] := by
    rw [h.noteLines_eq]
    exact List.append_ne_nil_of_right_ne_nil _ (List.cons_ne_nil _ _)
  obtain ⟨text, hread, hlines⟩ := exists_text_of_noteLines hne
  obtain ⟨hreturn, hfile⟩ := exists_file_of_read hread
  exact ⟨text, hreturn, hlines.trans h.noteLines_eq, hfile⟩

/-- The path of the note of a line is a text, from which the id is made. -/
theorem HasLine.exists_path (h : book.HasLine tree id note before old rest) :
    ∃ path, book.relative tree note = .ofText path ∧
      lineId path (1 + before.length : Nat) = id := by
  obtain ⟨path, hpath, hid⟩ := exists_relative_of_idAt h.idAt_eq
  exact ⟨path, hpath, RawText.ofText_injective hid⟩

/-- The lines around one line are all but one. -/
theorem HasLine.length_eq (h : book.HasLine tree id note before old rest) :
    (noteLines tree note).length = before.length + rest.length + 1 := by
  rw [h.noteLines_eq, List.length_append, List.length_cons]
  omega

/-- Any line with the id is this line. -/
theorem HasLine.eq_of_idAt (h : book.HasLine tree id note before old rest)
    (hids : book.IdsDiffer tree) {n : Path} (hn : n ∈ book.notes tree) {k : Nat}
    (hk : k < (noteLines tree n).length) (hid : book.idAt tree n k = some (.ofText id)) :
    n = note ∧ k = before.length := by
  have hlength := h.length_eq
  exact hids n hn note h.mem_notes k hk before.length (by omega) (.ofText id) hid h.idAt_eq

/-- There is one line with the id only. -/
theorem HasLine.unique (h : book.HasLine tree id note before old rest)
    (hids : book.IdsDiffer tree) {note' : Path} {before' : List Line} {old' : Line}
    {rest' : List Line} (h' : book.HasLine tree id note' before' old' rest') :
    note' = note ∧ before' = before ∧ old' = old ∧ rest' = rest := by
  have hlength := h'.length_eq
  obtain ⟨rfl, hnumber⟩ := h.eq_of_idAt hids h'.mem_notes (by omega) h'.idAt_eq
  obtain ⟨hbefore, hcut⟩ := List.append_inj (h'.noteLines_eq.symm.trans h.noteLines_eq) hnumber
  obtain ⟨hold, hrest⟩ := List.cons.inj hcut
  exact ⟨rfl, hbefore, hold, hrest⟩

/-- In this note, the other lines have other ids. -/
theorem HasLine.lineId_ne (h : book.HasLine tree id note before old rest)
    (hids : book.IdsDiffer tree) (hpath : book.relative tree note = .ofText path) {k : Nat}
    (hk : k ≤ before.length + rest.length) (hne : k ≠ before.length) :
    lineId path (1 + k : Nat) ≠ id := by
  intro hid
  have hlength := h.length_eq
  exact hne (h.eq_of_idAt hids h.mem_notes (by omega) (by rw [idAt_of_relative hpath, hid])).2

/-- In the other notes, all lines have other ids. -/
theorem HasLine.lineId_ne_of_ne (h : book.HasLine tree id note before old rest)
    (hids : book.IdsDiffer tree) {n : Path} (hn : n ∈ book.notes tree) (hne : n ≠ note)
    (hpath : book.relative tree n = .ofText path) {k : Nat} (hk : k < (noteLines tree n).length) :
    lineId path (1 + k : Nat) ≠ id := by
  intro hid
  exact hne (h.eq_of_idAt hids hn hk (by rw [idAt_of_relative hpath, hid])).1

/-- The line leaves the rest as it is wherever its id is met, as it is met here only. -/
theorem HasLine.keepsRest_iff (h : book.HasLine tree id note before old rest)
    (hids : book.IdsDiffer tree) : book.KeepsRest tree id ↔ LeavesRest old rest := by
  constructor
  · intro hkeeps
    exact hkeeps note before old rest h
  · intro hleaves n before' old' rest' h'
    obtain ⟨rfl, rfl, rfl, rfl⟩ := h.unique hids h'
    exact hleaves

/-! ## Replacing the line of an id -/

/-- The search finds the line unless it stops before. -/
theorem HasLine.planReplace_eq_ok (h : book.HasLine tree id note before old rest)
    (hids : book.IdsDiffer tree) (hgo : ¬book.Stops tree (.ofText id)) (line : RawText) :
    book.planReplace tree (.ofText id) line =
      .ok ⟨note, 1 + before.length, relined line before old rest⟩ := by
  generalize hplan : book.planReplace tree (.ofText id) line = plan
  have hends : book.SearchEnds tree (.ofText id) line (book.notes tree) plan :=
    hplan ▸ searchEnds_planReplace book tree (.ofText id) line
  cases hends with
  | found hreaches hline =>
      obtain ⟨rfl, rfl, rfl, rfl⟩ :=
        h.unique hids ⟨hreaches.mem, hline.noteLines_eq, hline.idAt_eq⟩
      rfl
  | failed hreaches hread => exact absurd (stops_of_failed hreaches hread) hgo
  | unnamed hreaches hlines hpath => exact absurd (stops_of_unnamed hreaches hlines hpath) hgo
  | missing hnotes =>
      have hlength := h.length_eq
      exact absurd h.idAt_eq ((hnotes note h.mem_notes).idAt_ne before.length (by omega))

/-- The line is replaced in its note and in no other. -/
theorem HasLine.replaceLine_eq_ok (h : book.HasLine tree id note before old rest)
    (hids : book.IdsDiffer tree) (hgo : ¬book.Stops tree (.ofText id)) {target : Location}
    (htarget : tree.LeadsToFile note target) (line : Text) :
    book.replaceLine tree (.ofText id) (.ofText line) =
      (tree.withText target (relinedText line before old rest), .ok ()) := by
  rw [replaceLine, h.planReplace_eq_ok hids hgo]
  simp only [relined_ofText]
  exact writeNote_ofText htarget (relinedText line before old rest)

/-- The rows of the note are to be those before the line, the new one, and those behind it. -/
theorem HasLine.map_relined_noteRows (h : book.HasLine tree id note before old rest)
    (hids : book.IdsDiffer tree) (hold : isItem old.body = true)
    (hpath : book.relative tree note = .ofText path)
    (hid : lineId path (1 + before.length : Nat) = id) (line : Text) :
    (book.noteRows tree note).map (Row.relined id line) =
      rows path 1 before ++
        ⟨id, line, some path⟩ :: rows path (1 + before.length + 1) rest := by
  have hbefore : ∀ k < before.length, lineId path (1 + k : Nat) ≠ id := by
    intro k hk
    exact h.lineId_ne hids hpath (by omega) (by omega)
  have hrest : ∀ k < rest.length, lineId path (1 + before.length + 1 + k : Nat) ≠ id := by
    intro k hk
    have hshift : 1 + before.length + 1 + k = 1 + (before.length + 1 + k) := by omega
    rw [hshift]
    exact h.lineId_ne hids hpath (by omega) (by omega)
  have hself : Row.relined id line ⟨id, old.body, some path⟩ = ⟨id, line, some path⟩ := if_pos rfl
  rw [noteRows_of_relative hpath, h.noteLines_eq, rows_append, rows_cons_of_item hold,
    List.map_append, List.map_cons, map_relined_rows line hbefore, map_relined_rows line hrest, hid,
    hself]

/-! ## The notes after the line is replaced -/

section After

variable {target : Location} {line : Text} (htarget : tree.LeadsToFile note target)

include htarget

/-- The note reads like the new text. -/
theorem HasLine.read_withText (h : book.HasLine tree id note before old rest)
    (hline : ∀ c ∈ line, isBoundary c = false) :
    read (tree.withText target (relinedText line before old rest)) note =
      .text (relinedText line before old rest) := by
  obtain ⟨text, hreturn, htext, -⟩ := h.exists_text
  exact read_withText_self htarget (return_not_mem_relinedText hreturn htext hline)

/-- The lines of the note change from the replaced one on. -/
theorem HasLine.noteLines_withText (h : book.HasLine tree id note before old rest)
    (hitem : isItem line = true) (hline : ∀ c ∈ line, isBoundary c = false) :
    noteLines (tree.withText target (relinedText line before old rest)) note =
      before ++ relinedTail line old rest := by
  obtain ⟨text, hreturn, htext, -⟩ := h.exists_text
  rw [noteLines, h.read_withText htarget hline]
  exact lines_relinedText hreturn htext (ne_nil_of_isItem hitem) hline

/-- The rows of the note are made from these lines. -/
theorem HasLine.noteRows_withText (h : book.HasLine tree id note before old rest)
    (hpath : book.relative tree note = .ofText path) (hitem : isItem line = true)
    (hline : ∀ c ∈ line, isBoundary c = false) :
    book.noteRows (tree.withText target (relinedText line before old rest)) note =
      rows path 1 before ++ rows path (1 + before.length) (relinedTail line old rest) := by
  have hpath' := (relative_withText htarget (relinedText line before old rest) note).trans hpath
  rw [noteRows_of_relative hpath', h.noteLines_withText htarget hitem hline, rows_append]

/-- The rows of the note are what they are to be exactly when the line leaves the rest as it is. -/
theorem HasLine.noteRows_withText_iff (h : book.HasLine tree id note before old rest)
    (hids : book.IdsDiffer tree) (hold : isItem old.body = true) (hitem : isItem line = true)
    (hline : ∀ c ∈ line, isBoundary c = false) :
    book.noteRows (tree.withText target (relinedText line before old rest)) note =
        (book.noteRows tree note).map (Row.relined id line) ↔
      LeavesRest old rest := by
  obtain ⟨path, hpath, hid⟩ := h.exists_path
  rw [h.map_relined_noteRows hids hold hpath hid, h.noteRows_withText htarget hpath hitem hline,
    List.append_cancel_left_eq, ← hid]
  refine rows_relinedTail_iff hitem ?_
  intro i hi j hj heq
  have hlength := h.length_eq
  rw [Nat.add_assoc, Nat.add_assoc] at heq
  have hsum := hids note h.mem_notes note h.mem_notes (before.length + i) (by omega)
    (before.length + j) (by omega) (.ofText (lineId path (1 + (before.length + i) : Nat)))
    (idAt_of_relative hpath _) (by rw [heq]; exact idAt_of_relative hpath _)
  omega

/-- The note has no rows more than before. -/
theorem HasLine.length_noteRows_withText_le (h : book.HasLine tree id note before old rest)
    (hold : isItem old.body = true) (hitem : isItem line = true)
    (hline : ∀ c ∈ line, isBoundary c = false) :
    (book.noteRows (tree.withText target (relinedText line before old rest)) note).length ≤
      (book.noteRows tree note).length := by
  obtain ⟨path, hpath, -⟩ := h.exists_path
  rw [h.noteRows_withText htarget hpath hitem hline, noteRows_of_relative hpath, h.noteLines_eq,
    rows_append, List.length_append, List.length_append]
  exact Nat.add_le_add_left (length_rows_relinedTail_le hold) _

/-- The rows of the other notes are what they are to be. -/
theorem HasLine.noteRows_withText_of_ne (h : book.HasLine tree id note before old rest)
    (hids : book.IdsDiffer tree) (hcanonical : tree.Canonical) (text : Text) {n : Path}
    (hn : n ∈ book.notes tree) (hne : n ≠ note) :
    book.noteRows (tree.withText target text) n =
      (book.noteRows tree n).map (Row.relined id line) := by
  have hkept : (book.noteRows tree n).map (Row.relined id line) = book.noteRows tree n := by
    by_cases hpath : (book.relative tree n).IsText
    · obtain ⟨path, hpath⟩ := hpath
      rw [noteRows_of_relative hpath]
      exact map_relined_rows line fun k hk => h.lineId_ne_of_ne hids hn hne hpath hk
    · rw [noteRows_of_not_isText hpath]
      rfl
  rw [hkept, noteRows, noteRows, noteLines, noteLines,
    read_withText_other hcanonical h.mem_notes htarget text hn hne, relative_withText htarget]

/-- The records of the other notes are what they were, times included. -/
theorem HasLine.noteRecords_withText_of_ne (h : book.HasLine tree id note before old rest)
    (hcanonical : tree.Canonical) (text : Text) {n : Path} (hn : n ∈ book.notes tree)
    (hne : n ≠ note) :
    book.noteRecords (tree.withText target text) n = book.noteRecords tree n := by
  have hfile := readFile_withText_other hcanonical h.mem_notes htarget text hn hne
  have hsource (path : Text) :
      provenance (tree.withText target text) path n = provenance tree path n := by
    rw [provenance, provenance, hfile]
  unfold noteRecords
  rw [read_withText_other hcanonical h.mem_notes htarget text hn hne]
  cases read tree n with
  | failed e => rfl
  | undecodable e => rfl
  | text content =>
      simp only [recordsIn, relative_withText htarget, hsource]

/-- All notes give their records again. -/
theorem HasLine.exists_records_withText (h : book.HasLine tree id note before old rest)
    (hcanonical : tree.Canonical) {rs : List Record} (hrs : book.records tree = .ok rs)
    (hline : ∀ c ∈ line, isBoundary c = false) :
    ∃ rs', book.records (tree.withText target (relinedText line before old rest)) = .ok rs' := by
  have hnotes := (exists_records_iff book tree).mp ⟨rs, hrs⟩
  obtain ⟨path, hpath, -⟩ := h.exists_path
  rw [exists_records_iff, notes_withText htarget]
  intro n hn
  by_cases heq : n = note
  · obtain ⟨text, hreturn, htext, -⟩ := h.exists_text
    rw [heq]
    exact exists_noteRecords_withText htarget ⟨path, hpath⟩
      (return_not_mem_relinedText hreturn htext hline)
  · rw [h.noteRecords_withText_of_ne htarget hcanonical _ hn heq]
    exact hnotes n hn

end After

end Ids

/-- Where the one side has no more for any item than the other, the two agree item by item if they
agree as a whole. -/
theorem flatMap_eq_iff_of_length_le {α β : Type} {f g : α → List β} {items : List α}
    (h : ∀ x ∈ items, (f x).length ≤ (g x).length) :
    items.flatMap f = items.flatMap g ↔ ∀ x ∈ items, f x = g x := by
  have hle (items : List α) (h : ∀ x ∈ items, (f x).length ≤ (g x).length) :
      (items.flatMap f).length ≤ (items.flatMap g).length := by
    induction items with
    | nil => exact Nat.le_refl 0
    | cons x items ih =>
        obtain ⟨hx, hitems⟩ := List.forall_mem_cons.mp h
        rw [List.flatMap_cons, List.flatMap_cons, List.length_append, List.length_append]
        exact Nat.add_le_add hx (ih hitems)
  induction items with
  | nil => exact iff_of_true rfl fun _ hx => absurd hx List.not_mem_nil
  | cons x items ih =>
      obtain ⟨hx, hitems⟩ := List.forall_mem_cons.mp h
      rw [List.forall_mem_cons, List.flatMap_cons, List.flatMap_cons]
      constructor
      · intro heq
        -- Both sides are as long as each other, so neither part of the left is shorter.
        have hlength := congrArg List.length heq
        rw [List.length_append, List.length_append] at hlength
        have hrest := hle items hitems
        obtain ⟨hfirst, htail⟩ := List.append_inj heq (by omega)
        exact ⟨hfirst, (ih hitems).mp htail⟩
      · rintro ⟨hfirst, htail⟩
        rw [hfirst, (ih hitems).mpr htail]

/-- Unless the search for a record stops at a note before, an item can be written over it, and after
that the notebook gives its records again. The row of the record is the only one that changed
exactly when, besides, its line leaves the rest as it is. -/
theorem replaceLine_changes_one_row_iff {book : Notebook} {tree : FileTree}
    (hcanonical : tree.Canonical) (hids : book.IdsDiffer tree) {rs : List Record}
    (hrs : book.records tree = .ok rs) {r : Record} (hr : r ∈ rs) {line : Text}
    (hitem : isItem line = true) (hline : ∀ c ∈ line, isBoundary c = false) :
    (¬book.Stops tree (.ofText r.id) → ∃ after rs',
      book.replaceLine tree (.ofText r.id) (.ofText line) = (after, .ok ()) ∧
        book.records after = .ok rs') ∧
    ((∃ after rs', book.replaceLine tree (.ofText r.id) (.ofText line) = (after, .ok ()) ∧
        book.records after = .ok rs' ∧
          rs'.map Record.row = (rs.map Record.row).map (Row.relined r.id line)) ↔
      ¬book.Stops tree (.ofText r.id) ∧ book.KeepsRest tree r.id) := by
  obtain ⟨note, before, old, rest, h, hold⟩ := exists_line_of_mem_records hrs hr
  obtain ⟨-, -, -, target, htarget⟩ := h.exists_text
  obtain ⟨rs', hrs'⟩ := h.exists_records_withText htarget hcanonical hrs hline
  have hself := h.noteRows_withText_iff htarget hids hold hitem hline
  have hother : ∀ n ∈ book.notes tree, n ≠ note →
      book.noteRows (tree.withText target (relinedText line before old rest)) n =
        (book.noteRows tree n).map (Row.relined r.id line) :=
    fun n hn hne => h.noteRows_withText_of_ne htarget hids hcanonical _ hn hne
  -- No note gains rows, so the rows agree as a whole only if they agree note by note.
  have hlength : ∀ n ∈ book.notes tree,
      (book.noteRows (tree.withText target (relinedText line before old rest)) n).length ≤
        ((book.noteRows tree n).map (Row.relined r.id line)).length := by
    intro n hn
    by_cases heq : n = note
    · rw [heq, List.length_map]
      exact h.length_noteRows_withText_le htarget hold hitem hline
    · exact Nat.le_of_eq (congrArg List.length (hother n hn heq))
  have hrows : rs'.map Record.row = (rs.map Record.row).map (Row.relined r.id line) ↔
      book.KeepsRest tree r.id := by
    rw [map_row_of_records hrs', map_row_of_records hrs, notes_withText htarget, List.map_flatMap,
      h.keepsRest_iff hids, ← hself, flatMap_eq_iff_of_length_le hlength]
    constructor
    · intro heq
      exact heq note h.mem_notes
    · intro heq n hn
      by_cases hn' : n = note
      · rw [hn']
        exact heq
      · exact hother n hn hn'
  constructor
  · intro hgo
    exact ⟨_, rs', h.replaceLine_eq_ok hids hgo htarget line, hrs'⟩
  · constructor
    · rintro ⟨after, found, hafter, hfound, hkept⟩
      have hgo : ¬book.Stops tree (.ofText r.id) := by
        intro hstops
        obtain ⟨e, he⟩ := planReplace_of_stops hstops (.ofText line)
        rw [replaceLine, he] at hafter
        exact nomatch congrArg Prod.snd hafter
      have heq := h.replaceLine_eq_ok hids hgo htarget line
      obtain rfl := congrArg Prod.fst (hafter.symm.trans heq)
      obtain rfl := Except.ok.inj (hfound.symm.trans hrs')
      exact ⟨hgo, hrows.mp hkept⟩
    · rintro ⟨hgo, hkeeps⟩
      exact ⟨_, rs', h.replaceLine_eq_ok hids hgo htarget line, hrs', hrows.mpr hkeeps⟩

/-! ## Two lines of one note -/

/-- A notebook that is one note. -/
def oneNote : Notebook := ⟨Path.ofText "n.md".toList⟩

/-- The tree that holds this note with this text. -/
def oneNoteTree (text : Text) : FileTree :=
  { files := [([Utf8.encode "n.md".toList], ⟨Utf8.encode text, 0, 0⟩)] }

/-- Two items, the first of which this character ends. -/
def twoItems (boundary : Char) : FileTree :=
  oneNoteTree ("- [ ] a".toList ++ boundary :: "- [ ] b".toList)

/-- The row of a line of the one note. -/
def oneNoteRow (number : Nat) (line : Text) : Row :=
  ⟨lineId "n.md".toList number, line, some "n.md".toList⟩

theorem canonical_twoItems (boundary : Char) : (twoItems boundary).Canonical where
  files := by
    intro entry hentry
    rw [List.mem_singleton.mp hentry]
    show FileTree.upName ∉ [Utf8.encode "n.md".toList]
    decide
  directories := fun _ h => absurd h List.not_mem_nil
  here := List.not_mem_nil

/-- Two items on two lines are two records. -/
theorem exists_records_twoItems (boundary : Char)
    (h : ∃ rs ∈ (oneNote.records (twoItems boundary)).toOption,
      rs.map Record.row = [oneNoteRow 1 "- [ ] a".toList, oneNoteRow 2 "- [ ] b".toList]) :
    ∃ rs, oneNote.records (twoItems boundary) = .ok rs ∧
      rs.map Record.row = [oneNoteRow 1 "- [ ] a".toList, oneNoteRow 2 "- [ ] b".toList] ∧
      ∃ r ∈ rs, r.id = lineId "n.md".toList 1 := by
  obtain ⟨rs, hrs, hrows⟩ := h
  have hok : oneNote.records (twoItems boundary) = .ok rs := by
    cases hrecords : oneNote.records (twoItems boundary) with
    | error e =>
        rw [hrecords] at hrs
        exact nomatch hrs
    | ok found =>
        rw [hrecords] at hrs
        exact congrArg Except.ok (Option.some.inj hrs)
  have hmem : oneNoteRow 1 "- [ ] a".toList ∈ rs.map Record.row := by
    rw [hrows]
    exact List.mem_cons_self
  obtain ⟨r, hr, hrow⟩ := List.mem_map.mp hmem
  exact ⟨rs, hok, hrows, r, hr, congrArg Row.id hrow⟩

/-- The first of the two items, and the other behind it. -/
theorem hasLine_twoItems {boundary : Char} {id : Text} (h : id = lineId "n.md".toList 1)
    (hnotes : oneNote.notes (twoItems boundary) = [oneNote.root])
    (hlines : noteLines (twoItems boundary) oneNote.root =
      [⟨"- [ ] a".toList, [boundary]⟩, ⟨"- [ ] b".toList, []⟩])
    (hid : oneNote.idAt (twoItems boundary) oneNote.root 0 =
      some (.ofText (lineId "n.md".toList 1))) :
    oneNote.HasLine (twoItems boundary) id oneNote.root [] ⟨"- [ ] a".toList, [boundary]⟩
      [⟨"- [ ] b".toList, []⟩] where
  mem_notes := by rw [hnotes]; exact List.mem_cons_self
  noteLines_eq := hlines
  idAt_eq := h ▸ hid

/-- With a line feed between the items, the first is replaced and the second is kept. -/
theorem replaceLine_changes_one_row_lineFeed :
    ∃ rs, oneNote.records (twoItems '\n') = .ok rs ∧ ∃ r ∈ rs, ∃ after,
      oneNote.replaceLine (twoItems '\n') (.ofText r.id) (.ofText "- [x] a".toList) =
          (after, .ok ()) ∧
        ∃ rs', oneNote.records after = .ok rs' ∧
          rs'.map Record.row = [oneNoteRow 1 "- [x] a".toList, oneNoteRow 2 "- [ ] b".toList] := by
  obtain ⟨rs, hrs, hrows, r, hr, hid⟩ := exists_records_twoItems '\n' (by decide +kernel)
  have hids : oneNote.IdsDiffer (twoItems '\n') := by decide +kernel
  have hitem : isItem "- [x] a".toList = true := by decide
  have hline : ∀ c ∈ "- [x] a".toList, isBoundary c = false := forall_mem_of_all (by decide)
  have hnotes : oneNote.notes (twoItems '\n') = [oneNote.root] := by decide +kernel
  have hfirst := hasLine_twoItems hid hnotes (by decide +kernel) (by decide +kernel)
  have hreaches : oneNote.Reaches (twoItems '\n') (.ofText r.id) (oneNote.notes (twoItems '\n'))
      oneNote.root := by
    rw [hnotes]
    exact .head oneNote.root []
  have hgo : ¬oneNote.Stops (twoItems '\n') (.ofText r.id) := not_stops_of_found hreaches
    ⟨hfirst.noteLines_eq, fun k hk => absurd hk (Nat.not_lt_zero k), hfirst.idAt_eq⟩
  have hkeeps : oneNote.KeepsRest (twoItems '\n') r.id :=
    (hfirst.keepsRest_iff hids).mpr (.inl rfl)
  obtain ⟨after, rs', hafter, hrs', hrows'⟩ :=
    (replaceLine_changes_one_row_iff (canonical_twoItems '\n') hids hrs hr hitem hline).2.mpr
      ⟨hgo, hkeeps⟩
  refine ⟨rs, hrs, r, hr, after, hafter, rs', hrs', ?_⟩
  rw [hrows', hrows, hid]
  decide +kernel

/-- With a vertical tab between the items, there is one record less than there should be. -/
theorem not_replaceLine_changes_one_row_verticalTab :
    ¬∀ (book : Notebook) (tree : FileTree), tree.Canonical → book.IdsDiffer tree →
      ∀ rs, book.records tree = .ok rs → ∀ r ∈ rs, ∀ line, isItem line = true →
        (∀ c ∈ line, isBoundary c = false) →
          ∃ after, book.replaceLine tree (.ofText r.id) (.ofText line) = (after, .ok ()) ∧
            ∃ rs', book.records after = .ok rs' ∧
              rs'.map Record.row = (rs.map Record.row).map (Row.relined r.id line) := by
  intro h
  obtain ⟨rs, hrs, hrows, r, hr, hid⟩ := exists_records_twoItems '\x0b' (by decide +kernel)
  obtain ⟨after, hafter, rs', hrs', hrows'⟩ := h oneNote (twoItems '\x0b')
    (canonical_twoItems '\x0b') (by decide +kernel) rs hrs r hr "- [x] a".toList (by decide)
    (forall_mem_of_all (by decide))
  have hmerged : (oneNote.records (oneNote.replaceLine (twoItems '\x0b')
      (.ofText (lineId "n.md".toList 1)) (.ofText "- [x] a".toList)).1).toOption.map
        List.length = some 1 := by
    decide +kernel
  rw [← hid, hafter, hrs'] at hmerged
  have hlength : rs'.length = 1 := Option.some.inj hmerged
  have htwo := congrArg List.length hrows'
  rw [hrows, List.length_map, List.length_map, hlength] at htwo
  exact absurd htwo (by decide)

end Notebook

end Checklist
