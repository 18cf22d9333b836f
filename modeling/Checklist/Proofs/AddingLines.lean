import Checklist.Proofs.NoteFiles

/-!
# Adding lines — a note that may have to be made first

A line is added to a note in two steps: it is made sure that there is something at its path, for
which an empty file may be made (`ensureFile_cases`), and then the line is appended. When all goes
well the note has the line more than before, and the other files are the same
(`addsLine_withText`).

The second step can fail when the note is written already. A line that is no text leaves the note
empty, and then the files are the same only if there was an empty one
(`sameBytes_withText_nil_iff`); a name that is no text is met when the line is in the note
(`not_sameBytes_longerText`). Both are what `SpoilsNote` says.
-/

namespace Checklist

open Text

namespace FileTree

variable {before tree after : FileTree} {path : Path} {target : Location}

/-! ## Files before and after -/

/-- There are the same files with the same bytes in them, whenever they were written. -/
def SameBytes (before after : FileTree) : Prop :=
  ∀ location, (after.files.lookup location).map File.bytes =
    (before.files.lookup location).map File.bytes

/-- One file that is there is written anew, and nothing else is changed. -/
def RewritesOne (before after : FileTree) : Prop :=
  ∃ target old new, before.nodeAt target = some (.file old) ∧ after = before.withFile target new

/-- What the file at a location says, where no file is read like an empty one. -/
def textAt (tree : FileTree) (location : Location) : Except Utf8.DecodeError Text :=
  match tree.files.lookup location with
  | none => .ok []
  | some file => Notebook.readText file

/-- The file that the path leads to has this line more, or is new and has no other, and the other
files are the same. -/
structure AddsLine (before after : FileTree) (path : Path) (line : Text) (target : Location) :
    Prop where
  locate_eq : after.locate path = .ok target
  exists_text : ∃ content new, before.textAt target = .ok content ∧
    after.files.lookup target = some new ∧
    new.bytes = Utf8.encode (Notebook.longerText content line)
  other_files : ∀ location ≠ target, after.files.lookup location = before.files.lookup location

/-- The path leads to an empty file that is new, and the other files are the same. -/
structure MakesFile (before after : FileTree) (path : Path) (target : Location) : Prop where
  locate_eq : after.locate path = .ok target
  absent : before.files.lookup target = none
  lookup_eq : ∃ new, after.files.lookup target = some new ∧ new.bytes = []
  other_files : ∀ location ≠ target, after.files.lookup location = before.files.lookup location

/-- The files are those that there were, and the path may lead to one that is new and empty. -/
def MakesAtMost (before after : FileTree) (path : Path) : Prop :=
  after.files = before.files ∨ ∃ target, before.MakesFile after path target

/-- Files that are not touched are the same. -/
theorem sameBytes_of_files (h : after.files = before.files) : before.SameBytes after := by
  intro location
  rw [h]

/-- The file that was written is found, and all others as before. -/
theorem lookup_withText (tree : FileTree) (target location : Location) (text : Text) :
    (tree.withText target text).files.lookup location =
      if location = target then some (tree.written (Utf8.encode text))
      else tree.files.lookup location :=
  lookup_putFile target location _ tree.files

/-! ## Making sure of a file -/

/-- Touching a path makes an empty file where there was nothing. -/
theorem makesAtMost_of_touch (hfiles : tree.files = before.files)
    (h : tree.touch path = .ok after) :
    before.MakesAtMost after path := by
  rcases touch_eq_ok h with rfl | ⟨target, htarget, hnode, rfl⟩
  · exact .inl hfiles
  · have hdirectory : tree.nodeAt target ≠ some .directory := by simp [hnode]
    refine .inr ⟨target, locate_withFile_of_ok hdirectory _ htarget, ?_, ?_, ?_⟩
    · rw [← hfiles]
      cases hlookup : tree.files.lookup target with
      | none => rfl
      | some file => simp [nodeAt_eq_file_iff.mpr hlookup] at hnode
    · exact ⟨_, (lookup_putFile target target _ _).trans (if_pos rfl), rfl⟩
    · intro location hne
      rw [← hfiles]
      exact (lookup_putFile target location _ _).trans (if_neg hne)

/-- Making sure of a file finds something at the path, or makes a file behind the directories that
were missing, or fails at any of these steps. -/
theorem ensureFile_cases {result : Except FileError Unit}
    (h : tree.ensureFile path = (after, result)) :
    after = tree ∧ result = .ok () ∨
      (∃ made : FileTree, made.files = tree.files ∧ made.touch path = .ok after ∧
        result = .ok ()) ∨
      after.files = tree.files ∧ ∃ e, result = .error e := by
  have hfiles := files_makeDirectories tree path.parent
  unfold ensureFile at h
  cases hprobe : tree.probe path with
  | error e =>
      rw [hprobe] at h
      cases h
      exact .inr (.inr ⟨rfl, e, rfl⟩)
  | ok found =>
      rw [hprobe] at h
      cases found with
      | some node =>
          cases h
          exact .inl ⟨rfl, rfl⟩
      | none =>
          -- Directories are made first, and what was made of them stays when the rest fails.
          cases hmade : tree.makeDirectories path.parent with
          | mk made outcome =>
              rw [hmade] at h hfiles
              cases outcome with
              | error e =>
                  cases h
                  exact .inr (.inr ⟨hfiles, e, rfl⟩)
              | ok done =>
                  dsimp only at h
                  cases htouch : made.touch path with
                  | error e =>
                      rw [htouch] at h
                      cases h
                      exact .inr (.inr ⟨hfiles, e, rfl⟩)
                  | ok touched =>
                      rw [htouch] at h
                      cases h
                      exact .inr (.inl ⟨made, hfiles, htouch, rfl⟩)

/-- When it is made sure that there is something at the path, an empty file at most is new. -/
theorem makesAtMost_of_ensureFile (h : tree.ensureFile path = (after, .ok ())) :
    tree.MakesAtMost after path := by
  rcases ensureFile_cases h with ⟨rfl, -⟩ | ⟨made, hfiles, htouch, -⟩ | ⟨-, e, he⟩
  · exact .inl rfl
  · exact makesAtMost_of_touch hfiles htouch
  · exact nomatch he

/-- When that fails, directories may be new, but no file is. -/
theorem files_of_ensureFile {e : FileError} (h : tree.ensureFile path = (after, .error e)) :
    after.files = tree.files := by
  rcases ensureFile_cases h with ⟨-, hok⟩ | ⟨-, -, -, hok⟩ | ⟨hfiles, -⟩
  · exact nomatch hok
  · exact nomatch hok
  · exact hfiles

end FileTree

namespace Notebook

variable {before made : FileTree} {note : Path} {target : Location} {text : Text}

/-! ## Appending to a note that was made -/

/-- An empty file reads as a text. -/
theorem read_of_makesFile (h : before.MakesFile made note target) : read made note = .text [] := by
  obtain ⟨new, hnew, hbytes⟩ := h.lookup_eq
  refine read_eq_text_iff.mpr
    ⟨target, new, h.locate_eq, FileTree.nodeAt_eq_file_iff.mpr hnew, ?_⟩
  rw [readText, hbytes]
  rfl

/-- Where the note does not read as a text, no file was made for it. -/
theorem files_eq_of_not_read (h : before.MakesAtMost made note)
    (hread : ∀ text, read made note ≠ .text text) : made.files = before.files := by
  rcases h with hfiles | ⟨target, hmade⟩
  · exact hfiles
  · exact absurd (read_of_makesFile hmade) (hread [])

/-- What the note says was there before, or the note is new and empty. -/
theorem textAt_of_read (h : before.MakesAtMost made note) (hread : read made note = .text text)
    (hleads : made.LeadsToFile note target) :
    before.textAt target = .ok text ∧
      ∀ location ≠ target, made.files.lookup location = before.files.lookup location := by
  obtain ⟨found, file, hfound, hfile, htext⟩ := read_eq_text_iff.mp hread
  obtain rfl : found = target := Except.ok.inj (hfound.symm.trans hleads.locate_eq)
  rcases h with hfiles | ⟨place, hmade⟩
  · rw [FileTree.textAt, ← hfiles, FileTree.nodeAt_eq_file_iff.mp hfile]
    exact ⟨htext, fun location _ => rfl⟩
  · obtain rfl : place = found := Except.ok.inj (hmade.locate_eq.symm.trans hfound)
    obtain rfl := Reading.text.inj ((read_of_makesFile hmade).symm.trans hread)
    rw [FileTree.textAt, hmade.absent]
    exact ⟨rfl, hmade.other_files⟩

/-- Appending a line to a note that may just have been made. -/
theorem addsLine_withText (h : before.MakesAtMost made note) (hread : read made note = .text text)
    (hleads : made.LeadsToFile note target) (line : Text) :
    before.AddsLine (made.withText target (longerText text line)) note line target := by
  obtain ⟨old, hold⟩ := hleads.exists_file
  obtain ⟨hbefore, hothers⟩ := textAt_of_read h hread hleads
  have hlookup := FileTree.lookup_withText made target
  refine ⟨(FileTree.locate_withFile hold _ note).trans hleads.locate_eq, ?_, ?_⟩
  · exact ⟨text, _, hbefore, (hlookup target _).trans (if_pos rfl), rfl⟩
  · intro location hne
    exact ((hlookup location _).trans (if_neg hne)).trans (hothers location hne)

/-! ## Notes that are spoiled -/

/-- Behind a text without carriage returns, the newlines of the rest are read as they are. -/
theorem unifyNewlines_append {s : Text} (h : '\r' ∉ s) (t : Text) :
    unifyNewlines (s ++ t) = s ++ unifyNewlines t := by
  induction s with
  | nil => rfl
  | cons c s ih =>
      rw [List.mem_cons, not_or] at h
      rw [List.cons_append, unifyNewlines.eq_3 c (s ++ t) (fun u hc ht => h.1 hc.symm),
        if_neg (Ne.symm h.1), ih h.2]
      rfl

/-- What a note with a line more says is not what it said before. -/
theorem unifyNewlines_longerText_ne (hreturn : '\r' ∉ text) (line : Text) :
    unifyNewlines (longerText text line) ≠ text := by
  obtain ⟨more, hmore, hne⟩ : ∃ more, longerText text line = text ++ more ∧ more ≠ [] := by
    unfold longerText
    split
    · exact ⟨line ++ ['\n'], List.append_assoc _ _ _, by simp⟩
    · exact ⟨['\n'] ++ line ++ ['\n'], by simp, by simp⟩
  rw [hmore, unifyNewlines_append hreturn]
  intro heq
  have hnil := List.append_right_eq_self.mp heq
  cases more with
  | nil => exact hne rfl
  | cons c more =>
      unfold unifyNewlines at hnil
      split at hnil
      · exact hne (by assumption)
      · exact nomatch hnil
      · exact nomatch hnil

/-- Emptying a note keeps the bytes of all files when it was empty before, and not new. -/
theorem sameBytes_withText_nil_iff (h : before.MakesAtMost made note)
    (hread : read made note = .text text) (hleads : made.LeadsToFile note target) :
    before.SameBytes (made.withText target []) ↔
      (before.files.lookup target).map File.bytes = some [] := by
  obtain ⟨-, hothers⟩ := textAt_of_read h hread hleads
  have hself : ((made.withText target []).files.lookup target).map File.bytes = some [] := by
    rw [FileTree.lookup_withText, if_pos rfl]
    rfl
  constructor
  · intro hsame
    exact (hsame target).symm.trans hself
  · intro hempty location
    by_cases hl : location = target
    · rw [hl, hself, hempty]
    · rw [FileTree.lookup_withText, if_neg hl, hothers location hl]

/-- With a line more, the note has not the bytes that it had. -/
theorem not_sameBytes_longerText (h : before.MakesAtMost made note)
    (hread : read made note = .text text) (hleads : made.LeadsToFile note target) (line : Text) :
    ¬before.SameBytes (made.withText target (longerText text line)) := by
  intro hsame
  obtain ⟨hbefore, -⟩ := textAt_of_read h hread hleads
  obtain ⟨hreturn, -⟩ := exists_file_of_read hread
  have htarget := hsame target
  rw [FileTree.lookup_withText, if_pos rfl] at htarget
  unfold FileTree.textAt at hbefore
  cases hlookup : before.files.lookup target with
  | none =>
      rw [hlookup] at htarget
      exact nomatch htarget
  | some old =>
      rw [hlookup] at htarget hbefore
      have hbytes : Utf8.encode (longerText text line) = old.bytes := Option.some.inj htarget
      have htext : readText old = .ok text := hbefore
      rw [readText, ← hbytes, Utf8.decode_encode] at htext
      exact unifyNewlines_longerText_ne hreturn line (Except.ok.inj htext)

/-- Whether adding the line to the note fails when the files are changed already: the line is no
text, and the note is emptied that was not there as an empty file; or the name of the note is none,
and the line is in the note before that is met. -/
def SpoilsNote (tree : FileTree) (note : Path) (line : RawText) : Prop :=
  ∃ made target text, tree.ensureFile note = (made, .ok ()) ∧ made.LeadsToFile note target ∧
    read made note = .text text ∧
      (¬line.IsText ∧ (tree.files.lookup target).map File.bytes ≠ some [] ∨
        line.IsText ∧ ¬note.name.IsText)

/-- What is made sure of, and read there, is told by the tree. -/
theorem spoilsNote_iff (hmade : before.ensureFile note = (made, .ok ()))
    (hread : read made note = .text text) (hleads : made.LeadsToFile note target)
    {line : RawText} :
    SpoilsNote before note line ↔
      ¬line.IsText ∧ (before.files.lookup target).map File.bytes ≠ some [] ∨
        line.IsText ∧ ¬note.name.IsText := by
  constructor
  · rintro ⟨made', target', text', hmade', hleads', -, hspoils⟩
    obtain rfl : made' = made := congrArg Prod.fst (hmade'.symm.trans hmade)
    obtain rfl : target' = target :=
      Except.ok.inj (hleads'.locate_eq.symm.trans hleads.locate_eq)
    exact hspoils
  · intro hspoils
    exact ⟨made, target, text, hmade, hleads, hread, hspoils⟩

/-- A note that cannot be made sure of is not spoiled. -/
theorem not_spoilsNote_of_error {e : FileError} (h : before.ensureFile note = (made, .error e))
    (line : RawText) : ¬SpoilsNote before note line := by
  rintro ⟨made', -, -, hmade', -⟩
  exact nomatch congrArg Prod.snd (hmade'.symm.trans h)

/-- Nor is one that does not read as a text. -/
theorem not_spoilsNote_of_not_read (h : before.ensureFile note = (made, .ok ()))
    (hread : ∀ text, read made note ≠ .text text) (line : RawText) :
    ¬SpoilsNote before note line := by
  rintro ⟨made', -, text, hmade', -, hread', -⟩
  obtain rfl : made' = made := congrArg Prod.fst (hmade'.symm.trans h)
  exact hread text hread'

end Notebook

end Checklist
