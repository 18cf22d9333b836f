import Checklist.Notes.TextStore
import Checklist.Proofs.LineCuts
import Checklist.Proofs.RoundTrip

/-!
# Runs over a text store — the store follows the list of its tasks

Moving a task of a text store to a status reads the tasks, finds the one with the id, and writes its
line. The list of tasks can be moved without a store: `Move.apply` changes the task of that id and
no other. When all tasks are well-formed the two agree: one move of the store has a list of tasks
that is the moved list (`exists_move`), it keeps all tasks well-formed, and so a run of any length
ends with the list moved step by step (`exists_run`). The lines that no move names stay as they are,
and the text that is held is cut into the same lines again.
-/

namespace Checklist

open Text

/-! ## Ids of lines -/

theorem Text.decimal_injective {m n : Nat} (h : decimal m = decimal n) : m = n := by
  have hne : ∀ n, decimal n ≠ [] := by
    intro n
    rw [decimal]
    split <;> simp
  have hdigit : ∀ {a b : Nat}, a < 10 → b < 10 → Nat.digitChar a = Nat.digitChar b → a = b := by
    have hall : ∀ a < 10, ∀ b < 10, Nat.digitChar a = Nat.digitChar b → a = b := by decide
    intro a b ha hb
    exact hall a ha b hb
  -- The last digit is the remainder by ten, and the digits before it are those of the quotient.
  induction m using Nat.strongRecOn generalizing n with
  | ind m ih =>
      rw [decimal, decimal.eq_def n] at h
      split at h
      · next hm =>
          split at h
          · next hn => exact hdigit hm hn (by simpa using h)
          · exact absurd (List.append_eq_singleton_iff.mp h.symm) (by simp [hne])
      · next hm =>
          split at h
          · exact absurd (List.append_eq_singleton_iff.mp h) (by simp [hne])
          · next hn =>
              obtain ⟨hinit, hlast⟩ := List.append_inj' h rfl
              have hmod := hdigit (Nat.mod_lt m (by decide)) (Nat.mod_lt n (by decide))
                (by simpa using hlast)
              have hdiv := ih (m / 10) (by omega) hinit
              omega

namespace TextStore

theorem lineId_injective {m n : Nat} (h : lineId m = lineId n) : m = n :=
  decimal_injective (List.append_cancel_left h)

/-! ## The tasks of numbered lines -/

/-- The task that the line with this number writes, if it writes one. -/
def taskAt (codec : Codec) (name : Text) (numbered : Text × Nat) : Option Task :=
  codec.parse numbered.1 (lineId numbered.2) { path := some name }

theorem tasks_eq (store : TextStore) (codec : Codec) :
    store.tasks codec = (store.lines.zipIdx 1).filterMap (taskAt codec store.name) := by
  rw [tasks, Codec.parseRecords, records, List.filterMap_filterMap]
  refine List.filterMap_congr ?_
  intro numbered _
  obtain ⟨line, number⟩ := numbered
  cases hitem : Item.ofLine? line with
  | none => simp [isItem, taskAt, Codec.parse, hitem]
  | some item => simp [isItem, taskAt, Codec.parse, hitem]

theorem id_of_taskAt {codec : Codec} {name line : Text} {number : Nat} {t : Task}
    (h : taskAt codec name (line, number) = some t) :
    t.id = lineId number ∧ t.provenance = { path := some name } := by
  obtain ⟨item, -, rfl⟩ := Option.map_eq_some_iff.mp h
  exact ⟨rfl, rfl⟩

variable {codec : Codec} {name : Text}

/-- The ids of tasks are those of their lines. -/
theorem exists_number_of_mem {lines : List Text} {first : Nat} {t : Task}
    (h : t ∈ (lines.zipIdx first).filterMap (taskAt codec name)) :
    ∃ k line, lines[k]? = some line ∧ taskAt codec name (line, first + k) = some t := by
  obtain ⟨⟨line, number⟩, hmem, htask⟩ := List.mem_filterMap.mp h
  obtain ⟨hle, hlt, hline⟩ := List.mem_zipIdx hmem
  refine ⟨number - first, line, ?_, ?_⟩
  · rw [List.getElem?_eq_getElem (by omega), ← hline]
  · rw [Nat.add_sub_cancel' hle]
    exact htask

/-- Writing a line over a task changes the task of that line and no other. -/
theorem filterMap_taskAt_set {lines : List Text} {k : Nat} {old new : Text} {t : Task}
    {f : Task → Task} (first : Nat) (hold : lines[k]? = some old)
    (htask : taskAt codec name (old, first + k) = some t)
    (hnew : taskAt codec name (new, first + k) = some (f t)) :
    ((lines.set k new).zipIdx first).filterMap (taskAt codec name) =
      ((lines.zipIdx first).filterMap (taskAt codec name)).map fun u =>
        if u.id = lineId (first + k) then f u else u := by
  have hother : ∀ (rest : List Text) (number start : Nat), number < start →
      ∀ u ∈ (rest.zipIdx start).filterMap (taskAt codec name), u.id ≠ lineId number := by
    intro rest number start hlt u hu hid
    obtain ⟨j, line, -, hu⟩ := exists_number_of_mem hu
    have := lineId_injective ((id_of_taskAt hu).1.symm.trans hid)
    omega
  induction lines generalizing k first with
  | nil => exact absurd hold (by simp)
  | cons line lines ih =>
      cases k with
      | zero =>
          -- The line itself: the tasks behind it have greater numbers, so none of them is moved.
          obtain rfl : line = old := by simpa using hold
          have htask' : taskAt codec name (line, first) = some t := htask
          have hnew' : taskAt codec name (new, first) = some (f t) := hnew
          have hrest : ((lines.zipIdx (first + 1)).filterMap (taskAt codec name)).map
              (fun u => if u.id = lineId (first + 0) then f u else u) =
              (lines.zipIdx (first + 1)).filterMap (taskAt codec name) := by
            refine (List.map_congr_left fun u hu => ?_).trans (List.map_id _)
            exact if_neg (hother lines (first + 0) (first + 1) (by omega) u hu)
          rw [List.set_cons_zero, List.zipIdx_cons, List.zipIdx_cons,
            List.filterMap_cons_some hnew', List.filterMap_cons_some htask', List.map_cons, hrest,
            if_pos (id_of_taskAt htask).1]
      | succ k =>
          -- A line before it: its task has a smaller number.
          have hindex : first + (k + 1) = first + 1 + k := by omega
          rw [hindex] at htask hnew ⊢
          rw [List.set_cons_succ, List.zipIdx_cons, List.zipIdx_cons]
          have hrest := ih (first + 1) (by simpa using hold) htask hnew
          cases hline : taskAt codec name (line, first) with
          | none => rw [List.filterMap_cons_none hline, List.filterMap_cons_none hline, hrest]
          | some u =>
              have hid : u.id ≠ lineId (first + 1 + k) := by
                intro hid
                have := lineId_injective ((id_of_taskAt hline).1.symm.trans hid)
                omega
              rw [List.filterMap_cons_some hline, List.filterMap_cons_some hline, hrest,
                List.map_cons, if_neg hid]

theorem replaceIn_lineId {lines : List Text} {k : Nat} (h : k < lines.length) (line : Text)
    (first : Nat) :
    replaceIn (lineId (first + k)) line first lines = some (lines.set k line) := by
  induction lines generalizing k first with
  | nil => exact absurd h (by simp)
  | cons old lines ih =>
      rw [replaceIn]
      cases k with
      | zero => exact if_pos rfl
      | succ k =>
          have hne : lineId first ≠ lineId (first + (k + 1)) := by
            intro heq
            have := lineId_injective heq
            omega
          have hindex : first + (k + 1) = first + 1 + k := by omega
          rw [if_neg hne, hindex, ih (by simpa using h)]
          rfl

end TextStore

/-! ## One move of a task -/

/-- A task is moved to a status, on a day if one is given. -/
structure Move where
  id : Text
  status : Status
  today : Option Date

/-- The tasks with the one of that id moved. -/
def Move.apply (codec : Codec) (tasks : List Task) (m : Move) : List Task :=
  tasks.map fun t => if t.id = m.id then t.setStatus codec m.today m.status else t

/-- The store with the first task of that id moved and saved. -/
def TextStore.move? (codec : Codec) (store : TextStore) (m : Move) : Option TextStore :=
  ((store.tasks codec).find? (·.id = m.id)).bind fun t =>
    ((store.saveTask codec (t.setStatus codec m.today m.status)).toOption).map Prod.snd

/-- The store after all the moves. -/
def TextStore.run? (codec : Codec) (store : TextStore) (moves : List Move) : Option TextStore :=
  moves.foldlM (TextStore.move? codec) store

namespace Task.WellFormed

variable {codec : Codec} {t : Task}

/-- A status change keeps or drops the completion date so that it is there for done tasks alone. -/
theorem exists_setStatus_eq (h : t.WellFormed codec.style) (today : Option Date) (status : Status) :
    ∃ done line, t.setStatus codec today status =
        { t with status, dates := { t.dates with done }, sourceText := line } ∧
      (done.isSome ↔ status = .done) ∧ ∀ w, done = some w → ∃ day : Date, w = day.iso := by
  have hdone := h.done_iff
  rw [setStatus, update, rendered, stamped]
  split
  · next hto =>
      refine ⟨some (today.getD codec.today).iso, _, rfl, ?_, ?_⟩
      · exact ⟨fun _ => hto.1, fun _ => rfl⟩
      · exact fun w hw => ⟨today.getD codec.today, (Option.some.inj hw).symm⟩
  · next hto =>
      split
      · next hfrom =>
          refine ⟨none, _, rfl, ?_, ?_⟩
          · exact ⟨fun hsome => absurd hsome (by simp), fun hstatus => absurd hstatus hfrom.1⟩
          · exact fun w hw => absurd hw (by simp)
      · next hfrom =>
          -- Neither to done nor from it: the task was done as it is now, and the day stays.
          have hsame : status = .done ↔ t.status = .done := by
            constructor
            · intro hstatus
              by_contra hne
              exact hto ⟨hstatus, hne⟩
            · intro hstatus
              by_contra hne
              exact hfrom ⟨hne, hstatus⟩
          exact ⟨t.dates.done, _, rfl, hdone.trans hsame.symm, h.date .done⟩

/-- A well-formed task stays well-formed when it is moved. -/
theorem setStatus (h : t.WellFormed codec.style) (today : Option Date) (status : Status) :
    (t.setStatus codec today status).WellFormed codec.style := by
  obtain ⟨done, line, heq, hiff, hdone⟩ := h.exists_setStatus_eq today status
  rw [heq]
  refine { h with date := ?_, done_iff := hiff }
  intro kind written hwritten
  cases kind with
  | done => exact hdone written hwritten
  | due => exact h.date .due written hwritten
  | start => exact h.date .start written hwritten
  | scheduled => exact h.date .scheduled written hwritten
  | cancelled => exact h.date .cancelled written hwritten

end Task.WellFormed

/-- What is written for a task that was moved. -/
theorem Task.rendered_setStatus (codec : Codec) (today : Option Date) (status : Status) (t : Task) :
    (t.setStatus codec today status).rendered codec = t.setStatus codec today status :=
  rfl

theorem indent_of_parse {codec : Codec} {line id : Text} {source : Provenance} {t : Task}
    (h : codec.parse line id source = some t) : ∀ c ∈ t.indent, c ∈ line := by
  obtain ⟨item, hitem, rfl⟩ := Option.map_eq_some_iff.mp h
  obtain ⟨⟨mark, content⟩, -, rfl⟩ := Option.map_eq_some_iff.mp hitem
  exact fun c hc => (List.takeWhile_prefix isBlank).subset hc

namespace TextStore

variable {codec : Codec} {store : TextStore}

/-- Whether no line of the store holds the end of a line. -/
def Clean (store : TextStore) : Prop := ∀ line ∈ store.lines, ∀ c ∈ line, isBoundary c = false

/-- **One move.** When all tasks are well-formed, moving one of them writes one line, and the tasks
of the store are moved as the list of them is. -/
theorem exists_move (hwell : ∀ t ∈ store.tasks codec, t.WellFormed codec.style)
    (hclean : store.Clean) {m : Move} (hm : ∃ t ∈ store.tasks codec, t.id = m.id) :
    ∃ k line, m.id = lineId (1 + k) ∧
      store.move? codec m = some { store with lines := store.lines.set k line } ∧
      tasks { store with lines := store.lines.set k line } codec =
        m.apply codec (store.tasks codec) ∧
      ∀ c ∈ line, isBoundary c = false := by
  cases hfind : (store.tasks codec).find? (·.id = m.id) with
  | none =>
      obtain ⟨t, ht, hid⟩ := hm
      exact absurd hid (by simpa using List.find?_eq_none.mp hfind t ht)
  | some t =>
      have hid : t.id = m.id := by simpa using List.find?_some hfind
      have ht : t ∈ store.tasks codec := List.mem_of_find?_eq_some hfind
      have hmoved := (hwell t ht).setStatus m.today m.status
      obtain ⟨done, source, heq, -, -⟩ := (hwell t ht).exists_setStatus_eq m.today m.status
      have hsame : (t.setStatus codec m.today m.status).id = t.id ∧
          (t.setStatus codec m.today m.status).provenance = t.provenance ∧
          (t.setStatus codec m.today m.status).indent = t.indent := by
        rw [heq]
        exact ⟨rfl, rfl, rfl⟩
      rw [tasks_eq] at ht
      obtain ⟨k, old, hold, htask⟩ := exists_number_of_mem ht
      obtain ⟨hnumber, hsource⟩ := id_of_taskAt htask
      have hlt : k < store.lines.length := (List.getElem?_eq_some_iff.mp hold).1
      -- the line that is written is read as the task that was moved
      have hnew : taskAt codec store.name
          (codec.format (t.setStatus codec m.today m.status), 1 + k) =
          some (t.setStatus codec m.today m.status) := by
        have hparse := parse_format_of_wellFormed hmoved
        rw [hsame.1, hsame.2.1, hnumber, hsource, Task.rendered_setStatus] at hparse
        exact hparse
      refine ⟨k, codec.format (t.setStatus codec m.today m.status),
        hid.symm.trans hnumber, ?_, ?_, ?_⟩
      · rw [move?, hfind, Option.bind_some, saveTask, replaceLine, hsame.1, hnumber,
          replaceIn_lineId hlt]
        rfl
      · rw [tasks_eq, tasks_eq]
        refine (filterMap_taskAt_set (f := Task.setStatus codec m.today m.status)
          1 hold htask hnew).trans
          ?_
        rw [Move.apply, hid.symm.trans hnumber]
      · intro c hc
        rcases Codec.isBoundary_of_mem_format hmoved.toReadable hc with hc | hc
        · exact hc
        · rw [hsame.2.2] at hc
          exact hclean old (List.mem_of_getElem? hold) c (indent_of_parse htask c hc)

/-! ## Runs -/

theorem wellFormed_apply {tasks : List Task} (h : ∀ t ∈ tasks, t.WellFormed codec.style)
    (m : Move) :
    ∀ t ∈ m.apply codec tasks, t.WellFormed codec.style := by
  intro t ht
  obtain ⟨u, hu, rfl⟩ := List.mem_map.mp ht
  split
  · exact (h u hu).setStatus m.today m.status
  · exact h u hu

/-- A move keeps all ids. -/
theorem exists_id_apply {tasks : List Task} (h : ∀ t ∈ tasks, t.WellFormed codec.style) (m : Move)
    {id : Text} (hid : ∃ t ∈ tasks, t.id = id) : ∃ t ∈ m.apply codec tasks, t.id = id := by
  obtain ⟨t, ht, rfl⟩ := hid
  refine ⟨_, List.mem_map_of_mem ht, ?_⟩
  split
  · obtain ⟨done, line, heq, -, -⟩ := (h t ht).exists_setStatus_eq m.today m.status
    rw [heq]
  · rfl

/-- **A run.** It ends, with the tasks of the list that was moved step by step; the lines that no
move names are the same, and there are as many lines as before. -/
theorem exists_run (moves : List Move) (hwell : ∀ t ∈ store.tasks codec, t.WellFormed codec.style)
    (hclean : store.Clean) (hmoves : ∀ m ∈ moves, ∃ t ∈ store.tasks codec, t.id = m.id) :
    ∃ next, store.run? codec moves = some next ∧
      next.tasks codec = moves.foldl (Move.apply codec) (store.tasks codec) ∧
      next.name = store.name ∧ next.lines.length = store.lines.length ∧
      (∀ k, (∀ m ∈ moves, m.id ≠ lineId (1 + k)) → next.lines[k]? = store.lines[k]?) ∧
      next.Clean := by
  induction moves generalizing store with
  | nil => exact ⟨store, rfl, rfl, rfl, rfl, fun _ _ => rfl, hclean⟩
  | cons m moves ih =>
      obtain ⟨k, line, hk, hmove, htasks, hline⟩ := exists_move hwell hclean (hmoves m (by simp))
      have hclean' : Clean { store with lines := store.lines.set k line } := by
        intro other hother
        rcases List.mem_or_eq_of_mem_set hother with hother | rfl
        · exact hclean other hother
        · exact hline
      obtain ⟨next, hrun, hnext, hname, hlength, hlines, hfinal⟩ :=
        @ih { store with lines := store.lines.set k line }
        (by rw [htasks]; exact wellFormed_apply hwell m) hclean'
        (by rw [htasks]; exact fun n hn => exists_id_apply hwell m (hmoves n (by simp [hn])))
      -- The first move set the line `k`, and what the others do is known by induction.
      refine ⟨next, ?_, ?_, hname, ?_, ?_, hfinal⟩
      · rw [run?, List.foldlM_cons, hmove]
        exact hrun
      · rw [hnext, htasks]
        rfl
      · rw [hlength]
        exact List.length_set
      · intro j hj
        have hne : k ≠ j := by
          rintro rfl
          exact hj m (by simp) hk
        rw [hlines j fun n hn => hj n (by simp [hn])]
        exact List.getElem?_set_ne hne

theorem clean_ofText (text name : Text) : (ofText text name).Clean := by
  intro line hline
  obtain ⟨cut, hcut, rfl⟩ := List.mem_map.mp hline
  exact not_isBoundary_of_mem_lines hcut

/-- The text of a store is cut into its lines again. -/
theorem ofText_text (h : store.Clean) : ofText store.text store.name = store := by
  rw [ofText, TextStore.text, lines_flatMap_newline h]

/-- **The store follows the list of its tasks.** Whatever well-formed tasks a text holds, and
however often its tasks are moved, the store ends with the tasks of the list that was moved step by
step. The number of lines, the lines that no move names and the name stay as they are, and the text
of the store is cut into the lines that it holds. -/
theorem run_follows_tasks (codec : Codec) (text name : Text) (moves : List Move)
    (hwell : ∀ t ∈ (ofText text name).tasks codec, t.WellFormed codec.style)
    (hmoves : ∀ m ∈ moves, ∃ t ∈ (ofText text name).tasks codec, t.id = m.id) :
    ∃ store, (ofText text name).run? codec moves = some store ∧
      store.tasks codec = moves.foldl (Move.apply codec) ((ofText text name).tasks codec) ∧
      store.lines.length = (ofText text name).lines.length ∧
      (∀ k, (∀ m ∈ moves, m.id ≠ lineId (1 + k)) →
        store.lines[k]? = (ofText text name).lines[k]?) ∧
      ofText store.text name = store := by
  obtain ⟨store, hrun, htasks, hname, hlength, hlines, hclean⟩ :=
    exists_run moves hwell (clean_ofText text name) hmoves
  refine ⟨store, hrun, htasks, hlength, hlines, ?_⟩
  have hread := ofText_text hclean
  rw [hname] at hread
  exact hread

/-- Two moves of the one task of a text with a heading. -/
theorem run_follows_tasks_rest :
    (∀ t ∈ (ofText "# Today\n- [ ] Rest".toList []).tasks ⟨.bare, newYear⟩, t.WellFormed .bare) ∧
    ∃ store, (ofText "# Today\n- [ ] Rest".toList []).run? ⟨.bare, newYear⟩
        [⟨lineId 2, .done, none⟩, ⟨lineId 2, .todo, none⟩] = some store ∧
      store.tasks ⟨.bare, newYear⟩ =
        [⟨lineId 2, .done, none⟩, ⟨lineId 2, .todo, none⟩].foldl (Move.apply ⟨.bare, newYear⟩)
          ((ofText "# Today\n- [ ] Rest".toList []).tasks ⟨.bare, newYear⟩) ∧
      store.lines.length = (ofText "# Today\n- [ ] Rest".toList []).lines.length ∧
      (∀ k, (∀ m ∈ [Move.mk (lineId 2) .done none, ⟨lineId 2, .todo, none⟩],
          m.id ≠ lineId (1 + k)) →
        store.lines[k]? = (ofText "# Today\n- [ ] Rest".toList []).lines[k]?) ∧
      ofText store.text [] = store := by
  have htasks : (ofText "# Today\n- [ ] Rest".toList []).tasks ⟨.bare, newYear⟩ =
      [{ id := lineId 2, description := "Rest".toList, sourceText := "- [ ] Rest".toList,
         path := some [] }] := by decide +kernel
  have hwell : ∀ t ∈ (ofText "# Today\n- [ ] Rest".toList []).tasks ⟨.bare, newYear⟩,
      t.WellFormed .bare := by
    intro t ht
    rw [htasks] at ht
    rw [List.mem_singleton.mp ht]
    have hreadable : Task.Readable
        { id := lineId 2, description := "Rest".toList, sourceText := "- [ ] Rest".toList,
          path := some [] } := by
      refine ⟨forall_mem_of_all (by decide), by decide, by decide, forall_mem_of_all (by decide),
        ?_, by decide, by decide, by decide, by decide, by simp⟩
      intro kind written hwritten
      cases kind <;> exact absurd hwritten (Option.some_ne_none written).symm
    exact ⟨hreadable, by decide, by decide, by decide, by decide, by decide, by simp, by simp⟩
  refine ⟨hwell, run_follows_tasks ⟨.bare, newYear⟩ _ [] _ hwell ?_⟩
  intro m hm
  rw [htasks]
  refine ⟨_, List.mem_singleton_self _, ?_⟩
  rcases List.mem_cons.mp hm with rfl | hm
  · rfl
  · rw [List.mem_singleton.mp hm]

end TextStore

end Checklist
