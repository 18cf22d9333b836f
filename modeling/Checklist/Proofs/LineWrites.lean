import Checklist.Proofs.StoreRuns

/-!
# Line writes — a text store under a run of replacements

A text store is written line by line. A write under the id of a line replaces that line, and a write
under any other id is refused and leaves the store as it is; these are all the cases
(`write_cases`). One equation tells of both what each line is afterwards (`getElem?_lines_write`),
so after a run every line is what was written last under its id, or what it was before
(`getElem?_lines_writeAll`), and the refused writes might as well be left out
(`fst_writeAll_filter`). A run that writes no line boundary leaves a store whose text is cut into
the same lines again (`writeAll_keeps_lines`).
-/

namespace Checklist

open Text

/-- A line to be written over the line of that id. -/
structure Write where
  id : Text
  line : Text
  deriving DecidableEq

/-- The line that is written last under the id, if there is one. -/
def lastWritten? (id : Text) (writes : List Write) : Option Text :=
  (writes.filter (·.id = id)).getLast?.map Write.line

/-- A write counts when none of those behind it is under its id. -/
theorem getD_lastWritten?_cons (id : Text) (w : Write) (writes : List Write) (old : Text) :
    (lastWritten? id (w :: writes)).getD old =
      (lastWritten? id writes).getD (if w.id = id then w.line else old) := by
  by_cases hid : w.id = id
  · rw [lastWritten?, List.filter_cons_of_pos (by simpa using hid), List.getLast?_cons, if_pos hid,
      lastWritten?]
    cases (writes.filter (·.id = id)).getLast? <;> rfl
  · rw [lastWritten?, List.filter_cons_of_neg (by simpa using hid), if_neg hid, lastWritten?]

namespace TextStore

/-- The ids of the lines, which are numbered from 1 on. -/
def lineIds (store : TextStore) : List Text := (List.range' 1 store.lines.length).map lineId

/-- The store after the write, and the error of a write that is refused, which leaves the store as
it is. -/
def write (store : TextStore) (w : Write) : TextStore × Option NoteError :=
  match store.replaceLine w.id w.line with
  | .ok next => (next, none)
  | .error e => (store, some e)

/-- The store after all the writes, and what each of them gave. -/
def writeAll (store : TextStore) : List Write → TextStore × List (Option NoteError)
  | [] => (store, [])
  | w :: writes =>
    let rest := (store.write w).1.writeAll writes
    (rest.1, (store.write w).2 :: rest.2)

/-! ## One write -/

variable {store : TextStore} {w : Write}

/-- The ids of a store are those of its lines, counted from one. -/
theorem mem_lineIds {id : Text} :
    id ∈ store.lineIds ↔ ∃ k < store.lines.length, id = lineId (1 + k) := by
  simp only [lineIds, List.mem_map, List.mem_range'_1]
  constructor
  · rintro ⟨n, hn, rfl⟩
    exact ⟨n - 1, by omega, by rw [Nat.add_sub_cancel' hn.1]⟩
  · rintro ⟨k, hk, rfl⟩
    exact ⟨1 + k, by omega, rfl⟩

theorem replaceIn_eq_none {lines : List Text} {id : Text} (line : Text) {first : Nat}
    (h : ∀ k < lines.length, id ≠ lineId (first + k)) : replaceIn id line first lines = none := by
  induction lines generalizing first with
  | nil => rfl
  | cons old lines ih =>
      have hfirst : lineId first ≠ id := Ne.symm (h 0 (Nat.succ_pos _))
      have hrest : ∀ k < lines.length, id ≠ lineId (first + 1 + k) := by
        intro k hk
        have hindex : first + 1 + k = first + (k + 1) := by omega
        rw [hindex]
        exact h (k + 1) (Nat.succ_lt_succ hk)
      rw [replaceIn, if_neg hfirst, ih hrest]
      rfl

/-- **One write.** It replaces the line of its id, or it is refused and there is no such line. -/
theorem write_cases (store : TextStore) (w : Write) :
    (∃ k < store.lines.length, w.id = lineId (1 + k) ∧
      store.write w = ({ store with lines := store.lines.set k w.line }, none)) ∨
    (w.id ∉ store.lineIds ∧ store.write w = (store, some (.unknownRecord (.ofText w.id)))) := by
  by_cases h : w.id ∈ store.lineIds
  · obtain ⟨k, hk, hid⟩ := mem_lineIds.mp h
    exact .inl ⟨k, hk, hid, by rw [write, replaceLine, hid, replaceIn_lineId hk]⟩
  · have hnone : replaceIn w.id w.line 1 store.lines = none :=
      replaceIn_eq_none w.line fun k hk hid => h (mem_lineIds.mpr ⟨k, hk, hid⟩)
    exact .inr ⟨h, by rw [write, replaceLine, hnone]⟩

/-- A write is refused exactly when its id is that of no line. -/
theorem snd_write (store : TextStore) (w : Write) :
    (store.write w).2 =
      if w.id ∈ store.lineIds then none else some (.unknownRecord (.ofText w.id)) := by
  obtain ⟨k, hk, hid, heq⟩ | ⟨hid, heq⟩ := store.write_cases w
  · rw [heq, if_pos (mem_lineIds.mpr ⟨k, hk, hid⟩)]
  · rw [heq, if_neg hid]

/-- After a write each line is what was written under its id, or what it was. -/
theorem getElem?_lines_write (store : TextStore) (w : Write) (k : Nat) :
    (store.write w).1.lines[k]? =
      store.lines[k]?.map fun old => if w.id = lineId (1 + k) then w.line else old := by
  obtain ⟨j, hj, hid, heq⟩ | ⟨hid, heq⟩ := store.write_cases w
  · rw [heq, hid]
    by_cases hjk : j = k
    · subst hjk
      rw [List.getElem?_set_self hj, List.getElem?_eq_getElem hj, Option.map_some, if_pos rfl]
    · have hne : lineId (1 + j) ≠ lineId (1 + k) := by
        intro hlines
        have := lineId_injective hlines
        omega
      rw [List.getElem?_set_ne hjk]
      simp only [if_neg hne, Option.map_id']
  · rw [heq]
    cases hold : store.lines[k]? with
    | none => rfl
    | some old =>
        have hlt : k < store.lines.length := (List.getElem?_eq_some_iff.mp hold).1
        rw [Option.map_some, if_neg fun hk => hid (mem_lineIds.mpr ⟨k, hlt, hk⟩)]

/-- A write adds no line and takes none away. -/
theorem length_lines_write (store : TextStore) (w : Write) :
    (store.write w).1.lines.length = store.lines.length := by
  obtain ⟨k, -, -, heq⟩ | ⟨-, heq⟩ := store.write_cases w
  · rw [heq]
    exact List.length_set
  · rw [heq]

/-- So the ids stay. -/
theorem lineIds_write (store : TextStore) (w : Write) :
    (store.write w).1.lineIds = store.lineIds := by
  rw [lineIds, length_lines_write, lineIds]

theorem name_write (store : TextStore) (w : Write) : (store.write w).1.name = store.name := by
  obtain ⟨k, -, -, heq⟩ | ⟨-, heq⟩ := store.write_cases w <;> rw [heq]

/-- A line without boundaries leaves a store without boundaries in its lines. -/
theorem Clean.write (h : store.Clean) (hline : ∀ c ∈ w.line, isBoundary c = false) :
    (store.write w).1.Clean := by
  obtain ⟨k, -, -, heq⟩ | ⟨-, heq⟩ := store.write_cases w
  · rw [heq]
    intro line hmem
    rcases List.mem_or_eq_of_mem_set hmem with hold | rfl
    · exact h line hold
    · exact hline
  · rw [heq]
    exact h

/-! ## Runs -/

/-- What every write of a run keeps holds of the store at the end. -/
theorem writeAll_induction {P : TextStore → Prop} {writes : List Write}
    (keeps : ∀ store, ∀ w ∈ writes, P store → P (store.write w).1) (h : P store) :
    P (store.writeAll writes).1 := by
  induction writes generalizing store with
  | nil => exact h
  | cons w writes ih =>
      exact ih (fun store v hv => keeps store v (List.mem_cons_of_mem w hv))
        (keeps store w List.mem_cons_self h)

/-- The writes that are refused are those under the id of no line of the store at the start. -/
theorem snd_writeAll (store : TextStore) (writes : List Write) :
    (store.writeAll writes).2 =
      writes.map fun w =>
        if w.id ∈ store.lineIds then none else some (.unknownRecord (.ofText w.id)) := by
  induction writes generalizing store with
  | nil => rfl
  | cons w writes ih => rw [writeAll, ih, lineIds_write, snd_write, List.map_cons]

/-- Each line is what was written last under its id, or what it was. -/
theorem getElem?_lines_writeAll (store : TextStore) (writes : List Write) (k : Nat) :
    (store.writeAll writes).1.lines[k]? =
      store.lines[k]?.map fun old => (lastWritten? (lineId (1 + k)) writes).getD old := by
  induction writes generalizing store with
  | nil => exact Option.map_id'.symm
  | cons w writes ih =>
      rw [writeAll, ih, getElem?_lines_write, Option.map_map]
      simp only [getD_lastWritten?_cons]
      rfl

/-- A run ends as it does without the writes that are refused. -/
theorem fst_writeAll_filter (store : TextStore) (writes : List Write) :
    (store.writeAll (writes.filter (·.id ∈ store.lineIds))).1 = (store.writeAll writes).1 := by
  induction writes generalizing store with
  | nil => rfl
  | cons w writes ih =>
      have hrest := ih (store.write w).1
      rw [lineIds_write] at hrest
      by_cases h : w.id ∈ store.lineIds
      · rw [List.filter_cons_of_pos (by simpa using h)]
        exact hrest
      · obtain ⟨k, hk, hid, -⟩ | ⟨-, heq⟩ := store.write_cases w
        · exact absurd (mem_lineIds.mpr ⟨k, hk, hid⟩) h
        · rw [List.filter_cons_of_neg (by simpa using h), writeAll, heq]
          rw [heq] at hrest
          exact hrest

/-- **A text store keeps its lines.** In a run of writes, those under the id of no line are refused
and change nothing, and all others replace their line. At the end there are as many lines as before,
each of them what was written last under its id or what it was in the text, and the text of the
store is cut into the lines and gives the records that the store has. -/
theorem writeAll_keeps_lines (text name : Text) (writes : List Write)
    (hwrites : ∀ w ∈ writes, ∀ c ∈ w.line, isBoundary c = false) :
    ∃ store outcomes, (ofText text name).writeAll writes = (store, outcomes) ∧
      outcomes = (writes.map fun w =>
        if w.id ∈ (ofText text name).lineIds then none else some (.unknownRecord (.ofText w.id))) ∧
      ((ofText text name).writeAll
        (writes.filter (·.id ∈ (ofText text name).lineIds))).1 = store ∧
      store.lines.length = (ofText text name).lines.length ∧
      (∀ k, store.lines[k]? = (ofText text name).lines[k]?.map fun old =>
        (lastWritten? (lineId (1 + k)) writes).getD old) ∧
      ofText store.text name = store := by
  -- What one write keeps, the run keeps: the number of lines, the name, and lines that are clean.
  have hlength : ((ofText text name).writeAll writes).1.lines.length =
      (ofText text name).lines.length :=
    writeAll_induction (fun store w _ h => (length_lines_write store w).trans h) rfl
  have hname : ((ofText text name).writeAll writes).1.name = name :=
    writeAll_induction (fun store w _ h => (name_write store w).trans h) rfl
  have hclean : ((ofText text name).writeAll writes).1.Clean :=
    writeAll_induction (fun _ w hw h => h.write (hwrites w hw)) (clean_ofText text name)
  have hread := ofText_text hclean
  rw [hname] at hread
  exact ⟨_, _, rfl, snd_writeAll _ writes, fst_writeAll_filter _ writes, hlength,
    getElem?_lines_writeAll _ writes, hread⟩

/-- Two lines for the second line of a text, and between them two lines under ids that a text of
three lines does not have. -/
def fourWrites : List Write :=
  [⟨"line-2".toList, "- [ ] milk".toList⟩, ⟨"line-4".toList, ['x']⟩, ⟨"line-02".toList, ['y']⟩,
    ⟨"line-2".toList, "- [x] milk".toList⟩]

/-- They are written to a text whose second line is empty. -/
theorem writeAll_keeps_lines_fourWrites :
    (∀ w ∈ fourWrites, ∀ c ∈ w.line, isBoundary c = false) ∧
    ∃ store, (ofText "a\r\n\x0bb\u2028".toList []).writeAll fourWrites =
        (store, [none, some (.unknownRecord (.ofText "line-4".toList)),
          some (.unknownRecord (.ofText "line-02".toList)), none]) ∧
      store.lines = [['a'], "- [x] milk".toList, ['b']] ∧
      ofText store.text [] = store := by
  have hwrites : ∀ w ∈ fourWrites, ∀ c ∈ w.line, isBoundary c = false := by
    have hall : (fourWrites.all fun w => w.line.all (!isBoundary ·)) = true := by decide
    simpa only [List.all_eq_true, Bool.not_eq_true'] using hall
  obtain ⟨store, outcomes, hrun, houtcomes, -, -, -, hread⟩ :=
    writeAll_keeps_lines "a\r\n\x0bb\u2028".toList [] fourWrites hwrites
  have hlines : ((ofText "a\r\n\x0bb\u2028".toList []).writeAll fourWrites).1.lines =
      [['a'], "- [x] milk".toList, ['b']] := by decide +kernel
  rw [hrun] at hlines
  refine ⟨hwrites, store, hrun.trans ?_, hlines, hread⟩
  rw [houtcomes]
  exact congrArg (Prod.mk store) (by decide +kernel)

end TextStore

end Checklist
