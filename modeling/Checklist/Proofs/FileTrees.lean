import Checklist.Files.Tree

/-!
# File trees — what writing a file leaves as it was

A file that is put at a location is found there, and all other locations keep what they had
(`nodeAt_withFile`). Where a file was already, no path leads anywhere else than before
(`locate_withFile`) and the tree has the same locations as before (`below_withFile`). Where there
was nothing, paths that led somewhere lead there still (`locate_withFile_of_ok`). Either way, what
was written is read (`readFile_of_writeFile`). Making directories leaves the files alone
(`files_makeDirectories`).

A tree is canonical when none of its names is `..`, as in every file system. Then names that lead on
from a directory lead below it (`eq_of_locate_join`). The tree that there is at first is canonical,
and what the library writes keeps it so (`Canonical.writeFile`, `Canonical.makeDirectories`).
-/

namespace Checklist

namespace FileTree

variable {tree after : FileTree} {target : Location}

/-! ## Paths that lead somewhere -/

/-- Whether the system can look the path up: it has no surrogates that stand for no bytes and no
NUL, and is not too long. -/
structure CanLookUp (path : Path) : Prop where
  fault?_eq : path.fault? = none
  hasNull_eq : path.hasNull = false
  length_le : path.toRaw.nameBytes.length ≤ pathLimit

/-- A path that can be looked up leads where its names lead, and others lead nowhere. -/
theorem locate_eq_ok_iff {path : Path} {location : Location} :
    tree.locate path = .ok location ↔
      CanLookUp path ∧ tree.walk (tree.origin path) path.diskNames = .ok location := by
  unfold locate
  constructor
  · intro h
    split at h
    · exact nomatch h
    · next hfault =>
        split at h
        · exact nomatch h
        · next hnull =>
            split at h
            · exact nomatch h
            · next hlength =>
                exact ⟨⟨hfault, Bool.eq_false_iff.mpr hnull, Nat.le_of_not_lt hlength⟩, h⟩
  · rintro ⟨⟨hfault, hnull, hlength⟩, hwalk⟩
    simp only [hfault, hnull, Bool.false_eq_true, if_false, if_neg (Nat.not_lt_of_le hlength)]
    exact hwalk

/-! ## Writing a file -/

/-- A file that is put in its place is found there, and the others where they were. -/
theorem lookup_putFile (target location : Location) (file : File)
    (files : List (Location × File)) :
    (putFile target file files).lookup location =
      if location = target then some file else files.lookup location := by
  induction files with
  | nil =>
      by_cases hl : location = target
      · simp [putFile, hl]
      · have hbeq : (location == target) = false := beq_eq_false_iff_ne.mpr hl
        simp [putFile, List.lookup_cons, hbeq, hl]
  | cons entry rest ih =>
      rw [putFile]
      -- The first entry for the target is replaced, and a lookup takes the first one.
      by_cases he : entry.1 = target
      · rw [if_pos he]
        by_cases hl : location = target
        · simp [hl]
        · have hbeq : (location == target) = false := beq_eq_false_iff_ne.mpr hl
          rw [List.lookup_cons, List.lookup_cons, he, hbeq, if_neg hl]
      · rw [if_neg he, List.lookup_cons, List.lookup_cons, ih]
        by_cases hl : location = target
        · have hbeq : (target == entry.1) = false := beq_eq_false_iff_ne.mpr (Ne.symm he)
          rw [if_pos hl, if_pos hl, hl, hbeq]
        · rw [if_neg hl, if_neg hl]

/-- Where there is an entry already, the entries keep their locations. -/
theorem map_fst_putFile {files : List (Location × File)} (h : (files.lookup target).isSome)
    (file : File) : (putFile target file files).map Prod.fst = files.map Prod.fst := by
  induction files with
  | nil => simp at h
  | cons entry rest ih =>
      rw [putFile]
      by_cases he : entry.1 = target
      · rw [if_pos he, List.map_cons, List.map_cons, he]
      · have hbeq : (target == entry.1) = false := beq_eq_false_iff_ne.mpr (Ne.symm he)
        rw [List.lookup_cons, hbeq] at h
        rw [if_neg he, List.map_cons, List.map_cons, ih h]

/-- The files of a tree are what is found there as a file. -/
theorem nodeAt_eq_file_iff {file : File} :
    tree.nodeAt target = some (.file file) ↔ tree.files.lookup target = some file := by
  unfold nodeAt
  constructor
  · intro h
    split at h
    · next found hfound => rw [hfound, Node.file.inj (Option.some.inj h)]
    · split at h <;> exact nomatch h
  · intro h
    rw [h]

/-- The new file is at its location, and the other locations keep what they had. -/
theorem nodeAt_withFile (tree : FileTree) (target location : Location) (file : File) :
    (tree.withFile target file).nodeAt location =
      if location = target then some (.file file) else tree.nodeAt location := by
  unfold nodeAt withFile
  simp only [lookup_putFile]
  by_cases hl : location = target
  · rw [if_pos hl, if_pos hl]
  · rw [if_neg hl, if_neg hl]

/-- Writing puts a file where the path leads to, unless that is a directory. -/
theorem writeFile_eq_ok_iff {path : Path} {bytes : Bytes} :
    tree.writeFile path bytes = .ok after ↔
      ∃ target, tree.locate path = .ok target ∧ tree.nodeAt target ≠ some .directory ∧
        after = tree.withFile target (tree.written bytes) := by
  unfold writeFile
  constructor
  · intro h
    split at h
    · exact nomatch h
    · next target htarget =>
        split at h
        · exact nomatch h
        · next hnode => exact ⟨target, htarget, hnode, (Except.ok.inj h).symm⟩
  · rintro ⟨target, htarget, hnode, rfl⟩
    simp only [htarget, if_neg hnode]
    rfl

/-! ## Writing a file anew -/

section Rewritten

variable {old : File} (h : tree.nodeAt target = some (.file old)) (new : File)

include h

/-- A file at a location is listed for it. -/
theorem lookup_of_nodeAt_file : tree.files.lookup target = some old :=
  nodeAt_eq_file_iff.mp h

/-- A new content of a file changes no way through the tree. -/
theorem walk_withFile (here : Location) (names : List Bytes) :
    (tree.withFile target new).walk here names = tree.walk here names := by
  induction names generalizing here with
  | nil => rfl
  | cons name names ih =>
      rw [walk, walk, nodeAt_withFile, ih, ih]
      by_cases hl : here = target
      · -- Both trees have a file here, and no name leads on from a file.
        rw [if_pos hl, hl, h]
      · rw [if_neg hl]

/-- No path leads anywhere else than before. -/
theorem locate_withFile (path : Path) :
    (tree.withFile target new).locate path = tree.locate path := by
  unfold locate
  rw [walk_withFile h]
  rfl

/-- A file is still one with a new content. -/
theorem isFile_withFile (path : Path) :
    (tree.withFile target new).isFile path = tree.isFile path := by
  unfold isFile node?
  rw [locate_withFile h]
  cases tree.locate path with
  | error fault => rfl
  | ok location =>
      by_cases hl : location = target
      · simp only [nodeAt_withFile, hl, h, if_true]
      · simp only [nodeAt_withFile, if_neg hl]

/-- The tree has the same locations as before. -/
theorem below_withFile (base : Location) :
    (tree.withFile target new).below base = tree.below base := by
  have hkeys : (tree.withFile target new).files.map Prod.fst = tree.files.map Prod.fst :=
    map_fst_putFile (by rw [lookup_of_nodeAt_file h]; rfl) new
  unfold below
  rw [hkeys]
  rfl

/-- The path that leads to the file reads it. -/
theorem readFile_withFile_self {path : Path} (hpath : tree.locate path = .ok target) :
    (tree.withFile target new).readFile path = .ok new := by
  unfold readFile
  rw [locate_withFile h, hpath]
  simp only [nodeAt_withFile, if_pos]

/-- All other paths read what they did before. -/
theorem readFile_withFile_other {path : Path} (hpath : tree.locate path ≠ .ok target) :
    (tree.withFile target new).readFile path = tree.readFile path := by
  unfold readFile
  rw [locate_withFile h]
  cases hlocate : tree.locate path with
  | error fault => rfl
  | ok location =>
      have hl : location ≠ target := fun hl => hpath (by rw [hlocate, hl])
      simp only [nodeAt_withFile, if_neg hl]

end Rewritten

/-- What is read is a file at the place where the path leads to. -/
theorem readFile_eq_ok_iff {path : Path} {file : File} :
    tree.readFile path = .ok file ↔
      ∃ location, tree.locate path = .ok location ∧ tree.nodeAt location = some (.file file) := by
  unfold readFile
  constructor
  · intro h
    split at h
    · exact nomatch h
    · next location hlocation =>
        split at h
        · next found hnode => exact ⟨location, hlocation, by rw [hnode, Except.ok.inj h]⟩
        · exact nomatch h
        · exact nomatch h
  · rintro ⟨location, hlocation, hnode⟩
    simp only [hlocation, hnode]

/-- A probe finds what stands at the location of the path. -/
theorem probe_eq_some_iff {path : Path} {node : Node} :
    tree.probe path = .ok (some node) ↔
      ∃ location, tree.locate path = .ok location ∧ tree.nodeAt location = some node := by
  unfold probe
  constructor
  · intro h
    split at h
    · next location hlocation => exact ⟨location, hlocation, Except.ok.inj h⟩
    · exact nomatch h
    · exact nomatch (Except.ok.inj h)
  · rintro ⟨location, hlocation, hnode⟩
    simp only [hlocation, hnode]

/-! ## Making directories -/

section Directories

variable (Kept : FileTree → Prop)
  (hstep : ∀ before after path, Kept before → before.makeDirectory path = .ok after → Kept after)

include hstep

/-- What is kept is kept when a step fails, too. -/
theorem settle_keeps (h : Kept tree) (path target : Path) :
    Kept (makeDirectories.settle tree path (tree.makeDirectory target)).1 := by
  cases hmade : tree.makeDirectory target with
  | ok after => exact hstep tree after target h hmade
  | error e => exact h

/-- By induction on how many directories may be missing above the new one. -/
theorem makeDirectoriesGo_keeps (h : Kept tree) (depth : Nat) (path : Path) :
    Kept (makeDirectories.go depth tree path).1 := by
  induction depth generalizing path with
  | zero => exact settle_keeps Kept hstep h path path
  | succ depth ih =>
      rw [makeDirectories.go]
      split
      · have habove := ih path.parent
        split
        · next above hgo =>
            rw [hgo] at habove
            exact settle_keeps Kept hstep habove path path
        · exact habove
      · exact settle_keeps Kept hstep h path path

/-- What each new directory keeps, all that are made together keep. -/
theorem makeDirectories_keeps (h : Kept tree) (path : Path) : Kept (tree.makeDirectories path).1 :=
  makeDirectoriesGo_keeps Kept hstep h path.names.length path

end Directories

/-- A new directory changes no file. -/
theorem files_of_makeDirectory {path : Path} (h : tree.makeDirectory path = .ok after) :
    after.files = tree.files := by
  unfold makeDirectory at h
  split at h
  · exact nomatch h
  · split at h
    · exact nomatch h
    · obtain rfl := Except.ok.inj h
      rfl

/-- Directories are made, but no files. -/
theorem files_makeDirectories (tree : FileTree) (path : Path) :
    (tree.makeDirectories path).1.files = tree.files :=
  makeDirectories_keeps (fun after => after.files = tree.files)
    (fun _ _ _ hbefore h => (files_of_makeDirectory h).trans hbefore) rfl path

/-! ## A new file -/

/-- Where no directory is, a file can be put, and paths that led somewhere lead there still. -/
theorem walk_withFile_of_ok (hnode : tree.nodeAt target ≠ some .directory) (new : File)
    {here location : Location} {names : List Bytes} (h : tree.walk here names = .ok location) :
    (tree.withFile target new).walk here names = .ok location := by
  induction names generalizing here with
  | nil => exact h
  | cons name names ih =>
      rw [walk] at h ⊢
      rw [nodeAt_withFile]
      cases hhere : tree.nodeAt here with
      | none =>
          rw [hhere] at h
          exact nomatch h
      | some node =>
          rw [hhere] at h
          cases node with
          | file file => exact nomatch h
          | directory =>
              -- The way passes through directories only, and there is none at the target.
              have hne : here ≠ target := fun heq => hnode (heq ▸ hhere)
              rw [if_neg hne]
              dsimp only at h ⊢
              split at h
              · exact nomatch h
              · next hlength =>
                  rw [if_neg hlength]
                  split at h
                  · next hup =>
                      rw [if_pos hup]
                      exact ih h
                  · next hup =>
                      rw [if_neg hup]
                      exact ih h

/-- A path that led somewhere leads there still. -/
theorem locate_withFile_of_ok (hnode : tree.nodeAt target ≠ some .directory) (new : File)
    {path : Path} {location : Location} (h : tree.locate path = .ok location) :
    (tree.withFile target new).locate path = .ok location := by
  obtain ⟨hlook, hwalk⟩ := locate_eq_ok_iff.mp h
  exact locate_eq_ok_iff.mpr ⟨hlook, walk_withFile_of_ok hnode new hwalk⟩

/-- What was written is read. -/
theorem readFile_of_writeFile {path : Path} {bytes : Bytes}
    (h : tree.writeFile path bytes = .ok after) :
    after.readFile path = .ok (tree.written bytes) := by
  obtain ⟨target, htarget, hnode, rfl⟩ := writeFile_eq_ok_iff.mp h
  refine readFile_eq_ok_iff.mpr ⟨target, locate_withFile_of_ok hnode _ htarget, ?_⟩
  rw [nodeAt_withFile, if_pos rfl]

/-- Touching a path puts an empty file where there was nothing, and changes nothing else. -/
theorem touch_eq_ok {path : Path} (h : tree.touch path = .ok after) :
    after = tree ∨ ∃ target, tree.locate path = .ok target ∧ tree.nodeAt target = none ∧
      after = tree.withFile target (tree.written []) := by
  unfold touch at h
  split at h
  · exact .inl (Except.ok.inj h).symm
  · next hnode =>
      obtain ⟨target, htarget, -, rfl⟩ := writeFile_eq_ok_iff.mp h
      refine .inr ⟨target, htarget, ?_, rfl⟩
      unfold node? at hnode
      rw [htarget] at hnode
      simpa using hnode

/-! ## Canonical trees -/

/-- No name in the tree is `..`, as no file or directory is ever named so. -/
structure Canonical (tree : FileTree) : Prop where
  files : ∀ entry ∈ tree.files, upName ∉ entry.1
  directories : ∀ location ∈ tree.directories, upName ∉ location
  here : upName ∉ tree.here

/-- A way in two pieces is walked piece by piece. -/
theorem walk_append (here : Location) (names more : List Bytes) :
    tree.walk here (names ++ more) = (tree.walk here names).bind (tree.walk · more) := by
  induction names generalizing here with
  | nil => rfl
  | cons name names ih =>
      rw [List.cons_append, walk, walk]
      cases tree.nodeAt here with
      | none => rfl
      | some node =>
          cases node with
          | file file => rfl
          | directory =>
              show (if _ then _ else _) = (if _ then _ else _ : Except FileFault Location).bind _
              split
              · rfl
              · split
                · exact ih here.dropLast
                · exact ih (here ++ [name])

/-- Names other than `..` lead below the directory where the walk begins. -/
theorem eq_of_walk {here location : Location} {names : List Bytes} (hnames : upName ∉ names)
    (h : tree.walk here names = .ok location) : location = here ++ names := by
  induction names generalizing here with
  | nil =>
      rw [List.append_nil]
      exact (Except.ok.inj h).symm
  | cons name names ih =>
      rw [List.mem_cons, not_or] at hnames
      rw [walk] at h
      split at h
      · exact nomatch h
      · exact nomatch h
      · split at h
        · exact nomatch h
        · have hname : name ≠ upName := Ne.symm hnames.1
          rw [if_neg hname] at h
          rw [ih hnames.2 h, List.append_assoc]
          rfl

/-- What is below a path has a location below its location. -/
theorem eq_of_locate_join {path : Path} {base location : Location} {names : List RawText}
    (hbase : tree.locate path = .ok base) (hnames : upName ∉ names.map RawText.nameBytes)
    (h : tree.locate (path.join names) = .ok location) :
    location = base ++ names.map RawText.nameBytes := by
  obtain ⟨-, hbase⟩ := locate_eq_ok_iff.mp hbase
  obtain ⟨-, h⟩ := locate_eq_ok_iff.mp h
  have hdisk : (path.join names).diskNames = path.diskNames ++ names.map RawText.nameBytes :=
    List.map_append
  have hwalk : tree.walk (tree.origin path)
      (path.diskNames ++ names.map RawText.nameBytes) = _ := walk_append _ _ _
  rw [hbase, ← hdisk] at hwalk
  exact eq_of_walk hnames (hwalk.symm.trans h)

/-- Names that lead on to something in the tree do not hold `..`. -/
theorem Canonical.upName_not_mem (hcanonical : tree.Canonical) {base : Location}
    {names : List Bytes} (h : names ∈ tree.below base) : upName ∉ names := by
  obtain ⟨location, hlocation, hbelow⟩ := List.mem_filterMap.mp h
  split at hbelow
  · obtain rfl := Option.some.inj hbelow
    intro hmem
    have hup : upName ∈ location := List.mem_of_mem_drop hmem
    rcases List.mem_append.mp hlocation with hfile | hdirectory
    · obtain ⟨entry, hentry, rfl⟩ := List.mem_map.mp hfile
      exact hcanonical.files entry hentry hup
    · exact hcanonical.directories location hdirectory hup
  · exact nomatch hbelow

/-! ## What the library writes is canonical -/

/-- A location that was walked to does not go up. -/
theorem upName_not_mem_of_walk {here location : Location} {names : List Bytes}
    (hhere : upName ∉ here) (h : tree.walk here names = .ok location) : upName ∉ location := by
  induction names generalizing here with
  | nil =>
      obtain rfl := Except.ok.inj h
      exact hhere
  | cons name names ih =>
      rw [walk] at h
      split at h
      · exact nomatch h
      · exact nomatch h
      · split at h
        · exact nomatch h
        · split at h
          · exact ih (fun hmem => hhere (List.dropLast_subset here hmem)) h
          · next hname =>
              refine ih (fun hmem => ?_) h
              rcases List.mem_append.mp hmem with hmem | hmem
              · exact hhere hmem
              · exact hname (List.mem_singleton.mp hmem).symm

/-- Whatever a path means, it does not mean a location with `..` in it. -/
theorem Canonical.upName_not_mem_of_locate (hcanonical : tree.Canonical) {path : Path}
    {location : Location} (h : tree.locate path = .ok location) : upName ∉ location := by
  obtain ⟨-, hwalk⟩ := locate_eq_ok_iff.mp h
  refine upName_not_mem_of_walk ?_ hwalk
  rw [origin]
  split
  · exact List.not_mem_nil
  · exact hcanonical.here

/-- Only the entry of the target is new. -/
theorem fst_of_mem_putFile {files : List (Location × File)} {file : File}
    {entry : Location × File} (h : entry ∈ putFile target file files) :
    entry.1 = target ∨ entry ∈ files := by
  induction files with
  | nil => exact .inl (congrArg Prod.fst (List.mem_singleton.mp h))
  | cons first rest ih =>
      rw [putFile] at h
      split at h
      · rcases List.mem_cons.mp h with rfl | h
        · exact .inl rfl
        · exact .inr (List.mem_cons_of_mem _ h)
      · rcases List.mem_cons.mp h with rfl | h
        · exact .inr List.mem_cons_self
        · exact (ih h).imp id (List.mem_cons_of_mem _)

/-- Writing a file leaves a tree canonical. -/
theorem Canonical.writeFile (hcanonical : tree.Canonical) {path : Path} {bytes : Bytes}
    (h : tree.writeFile path bytes = .ok after) : after.Canonical := by
  obtain ⟨target, htarget, -, rfl⟩ := writeFile_eq_ok_iff.mp h
  refine ⟨fun entry hentry => ?_, hcanonical.directories, hcanonical.here⟩
  rcases fst_of_mem_putFile hentry with hfst | hentry
  · rw [hfst]
    exact hcanonical.upName_not_mem_of_locate htarget
  · exact hcanonical.files entry hentry

/-- So does making a directory. -/
theorem Canonical.makeDirectory (hcanonical : tree.Canonical) {path : Path}
    (h : tree.makeDirectory path = .ok after) : after.Canonical := by
  unfold FileTree.makeDirectory at h
  split at h
  · exact nomatch h
  · next location hlocation =>
      split at h
      · exact nomatch h
      · obtain rfl := Except.ok.inj h
        refine ⟨hcanonical.files, fun found hfound => ?_, hcanonical.here⟩
        rcases List.mem_append.mp hfound with hfound | hfound
        · exact hcanonical.directories found hfound
        · rw [List.mem_singleton.mp hfound]
          exact hcanonical.upName_not_mem_of_locate hlocation

/-- So does making all that are missing on a path. -/
theorem Canonical.makeDirectories (hcanonical : tree.Canonical) (path : Path) :
    (tree.makeDirectories path).1.Canonical :=
  makeDirectories_keeps Canonical (fun _ _ _ hbefore h => hbefore.makeDirectory h) hcanonical path

/-- The tree that there is at first is canonical when its working directory is. -/
theorem canonical_start {here : Location} (hhere : upName ∉ here) (home : Location)
    (clock : Clock) :
    (start here home clock).Canonical := by
  have hempty : ({ clock, here, home } : FileTree).Canonical :=
    ⟨fun _ h => absurd h List.not_mem_nil, fun _ h => absurd h List.not_mem_nil, hhere⟩
  exact (hempty.makeDirectories (.ofLocation here)).makeDirectories (.ofLocation home)

end FileTree

end Checklist
