import Checklist.Proofs.Data

/-!
# Written lines — what a task's line is made of

`Codec.format` writes blanks, a list marker with the mark of the status, and a content: the sign of
the priority, the description and a row of data (`format_eq`). For a task that is `Readable` the
line is taken apart into the same three again (`ofLine?_format`), and the priority, the dates, the
tags and the dependencies are read off its content.
-/

namespace Checklist

open Text Scanner

/-! ## What an item is read as -/

/-- The description is read off what is left without the recurrence. -/
theorem Item.toTask_description (item : Item) (style : TagStyle) (line id : Text)
    (source : Provenance) :
    (item.toTask style line id source).description =
      parseDescription style (parseRecurrence item.content line).2 := by
  rw [toTask]

/-- The recurrence is read off the content, with a look at the whole line. -/
theorem Item.toTask_recurrence (item : Item) (style : TagStyle) (line id : Text)
    (source : Provenance) :
    (item.toTask style line id source).recurrence = (parseRecurrence item.content line).1 := by
  rw [toTask]

/-- What every task that is read off a line meets, and what lets its data be read again. -/
structure Task.Readable (t : Task) : Prop where
  indent : ∀ c ∈ t.indent, isBlank c = true
  description_ne_nil : t.description ≠ []
  collapse_description : collapse t.description = t.description
  no_priority : ∀ c ∈ t.description, isPriorityMarker c = false
  date : ∀ kind written, t.dates.get kind = some written → ∃ day : Date, written = day.iso
  tags_nodup : t.tags.Nodup
  tag : ∀ name ∈ t.tags, name ≠ [] ∧ ∀ c ∈ name, Token.isTagChar c = true
  dependencies_nodup : t.dependencies.Nodup
  dependency : ∀ name ∈ t.dependencies,
    name ≠ [] ∧ ∀ c ∈ name, Token.isReferenceChar c = true
  recurrence : ∀ r, t.recurrence = some r → r.Writable

/-- The sign of the priority with a space behind it; the lowest has none. -/
def Priority.lead (p : Priority) : Text :=
  match p.marker? with
  | some c => [c, ' ']
  | none => []

namespace Codec

variable {codec : Codec} {t : Task}

/-- The dates of a task that are written behind its description. -/
def plannedDates (t : Task) : List Datum :=
  [DateKind.due, .start, .scheduled, .cancelled].flatMap fun kind =>
    (t.dates.get kind).toList.map (.date kind false)

/-- The day that is written for a done task. -/
def completion (codec : Codec) (t : Task) : List Datum :=
  if t.status = .done then [.date .done true (codec.completionDate t)] else []

/-- The data of a task in the order in which they are written. -/
def data (codec : Codec) (t : Task) : List Datum :=
  plannedDates t ++ t.recurrence.toList.map .recurrence ++ codec.completion t ++
    t.tags.map .tag ++ t.dependencies.map .dependency

/-- What is written behind the mark of the status. -/
def content (codec : Codec) (t : Task) : Text :=
  t.priority.lead ++ (t.description ++ spaced ((codec.data t).map (Datum.text codec.style)))

section Data

variable (codec t)

/-- The tags are written in their order. -/
theorem filterMap_tag?_data : (codec.data t).filterMap Datum.tag? = t.tags := by
  cases hdone : t.status <;>
    simp [data, plannedDates, completion, hdone, List.filterMap_cons, Datum.tag?,
      Function.comp_def]

/-- The dependencies are written in their order. -/
theorem filterMap_dependency?_data :
    (codec.data t).filterMap Datum.dependency? = t.dependencies := by
  cases hdone : t.status <;>
    simp [data, plannedDates, completion, hdone, List.filterMap_cons, Datum.dependency?,
      Function.comp_def]

/-- The recurrence is written once. -/
theorem filterMap_recurrence?_data :
    (codec.data t).filterMap Datum.recurrence? = t.recurrence.toList := by
  cases hdone : t.status <;>
    simp [data, plannedDates, completion, hdone, List.filterMap_cons, Datum.recurrence?,
      Function.comp_def]

end Data

/-! ## The shape of a written line -/

/-- The parts of a recurrence make up its text, as long as its rule is not empty. -/
theorem spaced_recurrenceParts {r : Option Recurrence} (h : ∀ x, r = some x → x.rule ≠ []) :
    spaced (recurrenceParts r) = spaced (r.toList.map Recurrence.text) := by
  cases r with
  | none => rfl
  | some r =>
      obtain ⟨rule, fromDone⟩ := r
      cases rule with
      | nil => exact absurd rfl (h _ rfl)
      | cons c rule =>
          cases fromDone with
          | false => simp [recurrenceParts, Recurrence.text]
          | true => simp [recurrenceParts, Recurrence.text]

/-- A date that is not empty is written behind its sign. -/
theorem markedText_eq {kind : DateKind} {written : Option Text}
    (h : ∀ w, written = some w → w ≠ []) (style : TagStyle) :
    markedText kind.marker written =
      (written.toList.map (Datum.date kind false)).map (Datum.text style) := by
  cases written with
  | none => rfl
  | some w =>
      cases w with
      | nil => exact absurd rfl (h _ rfl)
      | cons c w => rfl

/-- The ISO form of a day is not empty. -/
theorem iso_ne_nil (day : Date) : day.iso ≠ [] := by
  intro h
  simpa [h] using day.length_iso

/-- The dates of a readable task are written behind their signs, in the order of the line. -/
theorem plannedDates_text (h : t.Readable) (style : TagStyle) :
    [DateKind.due, .start, .scheduled, .cancelled].flatMap
        (fun kind => markedText kind.marker (t.dates.get kind)) =
      (plannedDates t).map (Datum.text style) := by
  rw [plannedDates, List.map_flatMap]
  refine List.flatMap_congr fun kind _ => markedText_eq (fun w hw => ?_) style
  obtain ⟨day, rfl⟩ := h.date kind w hw
  exact iso_ne_nil day

/-- A line is the blanks, the mark and the content of its task. -/
theorem format_eq (h : t.Readable) :
    codec.format t =
      t.indent ++ '-' :: ' ' :: '[' :: t.status.mark :: ']' :: ' ' :: codec.content t := by
  -- The data of the task are what the line has behind the description, group by group.
  have hdata : spaced ((codec.data t).map (Datum.text codec.style)) =
      spaced ([DateKind.due, .start, .scheduled, .cancelled].flatMap
        fun kind => markedText kind.marker (t.dates.get kind)) ++
      spaced (recurrenceParts t.recurrence) ++
      spaced (if t.status = .done then [DateKind.done.marker :: ' ' :: codec.completionDate t]
        else []) ++
      spaced (t.tags.map (formatTag codec.style)) ++
      spaced (t.dependencies.map (Marker.dependency :: ·)) := by
    have hcompletion : (codec.completion t).map (Datum.text codec.style) =
        if t.status = .done then [DateKind.done.marker :: ' ' :: codec.completionDate t]
        else [] := by
      unfold completion
      split <;> rfl
    rw [plannedDates_text h codec.style,
      spaced_recurrenceParts fun r hr => (h.recurrence r hr).rule_ne_nil, ← hcompletion]
    simp only [data, List.map_append, spaced_append, List.map_map]
    rfl
  rw [content, hdata, format, parts]
  simp only [List.append_assoc, List.cons_append, List.nil_append, joinWith_space_cons]
  cases hmarker : t.priority.marker? with
  | none => simp [Priority.lead, hmarker]
  | some c => simp [Priority.lead, hmarker]

/-! ## Taking a written line apart -/

/-- The day that is written for a done task is in ISO form, be it the task's own or that of the
clock. -/
theorem completionDate_iso (h : t.Readable) : ∃ day : Date, codec.completionDate t = day.iso := by
  unfold completionDate
  split
  · next c s hdone => exact h.date .done _ hdone
  · exact ⟨codec.today, rfl⟩

/-- What is written for a readable task is read as it is written. -/
theorem data_writable (h : t.Readable) : ∀ datum ∈ codec.data t, datum.Writable := by
  intro datum hdatum
  simp only [data, plannedDates, completion, List.mem_append, List.mem_flatMap, List.mem_map,
    Option.mem_toList] at hdatum
  rcases hdatum with (((⟨kind, -, written, hwritten, rfl⟩ | ⟨r, hr, rfl⟩) | hdone) |
    ⟨name, hname, rfl⟩) | ⟨name, hname, rfl⟩
  · exact h.date kind written hwritten
  · exact h.recurrence r hr
  · split at hdone
    · obtain rfl := List.mem_singleton.mp hdone
      exact completionDate_iso h
    · exact absurd hdone (by simp)
  · exact h.tag name hname
  · exact h.dependency name hname

/-- The only blank in a content is the space, so no line ends in it. -/
theorem eq_space_of_mem_content (h : t.Readable) {c : Char} (hc : c ∈ codec.content t)
    (hblank : isBlank c = true) : c = ' ' := by
  rcases List.mem_append.mp hc with hc | hc
  · unfold Priority.lead at hc
    split at hc
    · next d hmarker =>
        rcases List.mem_cons.mp hc with rfl | hc
        · have hsign : isPriorityMarker c = true := by
            cases hp : t.priority <;> rw [hp] at hmarker <;>
              simp [isPriorityMarker, Priority.all, ← hmarker]
          rw [isBlank_of_endsRule (by simp [endsRule, hsign])] at hblank
          exact Bool.noConfusion hblank
        · exact List.mem_singleton.mp hc
    · exact absurd hc (by simp)
  · rcases List.mem_append.mp hc with hc | hc
    · exact eq_space_of_mem_collapse (h.collapse_description.symm ▸ hc) hblank
    · rcases mem_spaced hc with hc | ⟨part, hpart, hc⟩
      · exact hc
      · obtain ⟨datum, hdatum, rfl⟩ := List.mem_map.mp hpart
        exact Datum.eq_space_of_mem_text (data_writable h datum hdatum) hc hblank

/-- The content of a readable task is one line. -/
theorem isBoundary_of_mem_content (h : t.Readable) {c : Char} (hc : c ∈ codec.content t) :
    isBoundary c = false := by
  cases hb : isBoundary c with
  | false => rfl
  | true =>
      obtain rfl := eq_space_of_mem_content h hc (isBlank_of_isBoundary hb)
      exact absurd hb (by decide)

/-- A content begins with no blank. -/
theorem trimStart_content (h : t.Readable) : trimStart (codec.content t) = codec.content t := by
  have hhead : ∀ c, t.description.head? = some c → isBlank c = false := fun c hc =>
    isBlank_of_head_collapse (h.collapse_description.symm ▸ hc)
  cases hd : t.description with
  | nil => exact absurd hd h.description_ne_nil
  | cons c d =>
      have hc : isBlank c = false := hhead c (by rw [hd]; rfl)
      rw [content, hd]
      cases t.priority with
      | high => rfl
      | medium => rfl
      | low => simp [Priority.lead, Priority.marker?, trimStart, hc]

/-- The line that is written for a task is an item with the same three parts. -/
theorem ofLine?_format (h : t.Readable) :
    Item.ofLine? (codec.format t) = some ⟨t.indent, t.status.mark, codec.content t⟩ := by
  have hnewline : cutAt? '\n' (codec.content t) = none :=
    cutAt?_eq_none_iff.mpr fun hmem => by
      simpa [isBoundary] using isBoundary_of_mem_content h hmem
  have hspan := span_append (p := isBlank) (c := '-') (by decide) t.indent
    (' ' :: '[' :: t.status.mark :: ']' :: ' ' :: codec.content t)
  have hmark : t.status.mark ≠ ']' := by cases t.status <;> decide
  have hblank : ∀ s : Text, trimStart (' ' :: s) = trimStart s := fun s => by
    rw [trimStart, List.dropWhile_cons, if_pos isBlank_space]
    rfl
  have hbracket : ∀ s : Text, trimStart ('[' :: s) = '[' :: s := fun s => rfl
  rw [format_eq h, Item.ofLine?, trimStart_append_of_blank h.indent]
  rw [hspan.1, List.takeWhile_eq_self_iff.mpr h.indent]
  show ((Item.body? (trimStart (' ' :: '[' :: t.status.mark :: ']' :: ' ' :: codec.content t))).map
    _) = _
  rw [hblank, hbracket, Item.body?, if_pos ⟨hmark, isBlank_space⟩, trimStart_content h,
    Item.content?, hnewline]
  rfl

/-- A written line ends nowhere but in its blanks. -/
theorem isBoundary_of_mem_format (h : t.Readable) {c : Char} (hc : c ∈ codec.format t) :
    isBoundary c = false ∨ c ∈ t.indent := by
  have hmark : ∀ status : Status, ∀ d ∈ ['-', ' ', '[', status.mark, ']', ' '],
      isBoundary d = false := by
    intro status
    cases status <;> exact forall_mem_of_all (by decide)
  rw [format_eq h] at hc
  rcases List.mem_append.mp hc with hc | hc
  · exact .inr hc
  · left
    rcases List.mem_append (s := ['-', ' ', '[', t.status.mark, ']', ' ']).mp hc with hc | hc
    · exact hmark t.status c hc
    · exact isBoundary_of_mem_content h hc

/-! ## The data of a written line -/

/-- The sign of the priority stands apart from what follows. -/
theorem tokens_lead {α : Type} {scan : Scanner α} (hs : scan.Separable) {sign : Char → Bool}
    (hstart : scan.StartsWith sign) (hsign : ∀ c, isPriorityMarker c = true → sign c = false)
    (p : Priority) (s : Text) : scan.tokens (p.lead ++ s) = scan.tokens s := by
  have hone : ∀ c, isPriorityMarker c = true → scan.tokens ([c, ' '] ++ s) = scan.tokens s := by
    intro c hc
    refine tokens_unsigned_space (s := [c]) hs.toLawful hstart (fun d hd => ?_) s
    rw [List.mem_singleton.mp hd]
    exact hsign c hc
  cases p with
  | high => exact hone _ (by decide)
  | medium => exact hone _ (by decide)
  | low => rfl

/-- The tokens of a content are those of the description, and the data behind it. -/
theorem tokens_content (h : t.Readable) {α : Type} {scan : Scanner α} {own : Datum → Option α}
    (hs : scan.Separable) {sign : Char → Bool} (hstart : scan.StartsWith sign)
    (hsign : ∀ c, isPriorityMarker c = true → sign c = false)
    (hread : Datum.ReadBy scan codec.style own) :
    scan.tokens (codec.content t) =
      scan.tokens t.description ++ (codec.data t).filterMap own := by
  rw [content, tokens_lead hs hstart hsign,
    Datum.tokens_append_data hs hread _ (data_writable h)]

/-- The dates of the content are those of the description, and then those of the data. -/
theorem date_tokens_content (h : t.Readable) :
    Token.date.tokens (codec.content t) =
      Token.date.tokens t.description ++ (codec.data t).filterMap Datum.date? := by
  refine tokens_content h Token.date_separable Token.date_startsWith ?_ (Datum.readBy_date _)
  intro c hc
  rcases isPriorityMarker_iff.mp hc with rfl | rfl <;> decide

/-- The tags of the content are those of the description, and then the task's own. -/
theorem tag_tokens_content (h : t.Readable) :
    (Token.tag codec.style).tokens (codec.content t) =
      (Token.tag codec.style).tokens t.description ++ t.tags := by
  rw [← filterMap_tag?_data codec t]
  refine tokens_content h (Token.tag_separable _) (Token.tag_startsWith _) ?_ (Datum.readBy_tag _)
  intro c hc
  rcases isPriorityMarker_iff.mp hc with rfl | rfl <;> decide

/-- The dependencies of the content are those of the description, and then the task's own. -/
theorem dependency_tokens_content (h : t.Readable) :
    Token.dependency.tokens (codec.content t) =
      Token.dependency.tokens t.description ++ t.dependencies := by
  rw [← filterMap_dependency?_data codec t]
  refine tokens_content h Token.dependency_separable Token.dependency_startsWith ?_
    (Datum.readBy_dependency _)
  intro c hc
  rcases isPriorityMarker_iff.mp hc with rfl | rfl <;> decide

/-- The priority is read off the sign before a text without such signs. -/
theorem parsePriority_lead (p : Priority) {s : Text} (h : ∀ c ∈ s, isPriorityMarker c = false) :
    parsePriority (p.lead ++ s) = p := by
  have hnone : ∀ q ∈ Priority.all, s.any (q.marker? = some ·) = false := by
    intro q hq
    rw [List.any_eq_false]
    intro c hc hmarker
    have hmem : isPriorityMarker c = true := List.any_eq_true.mpr ⟨q, hq, hmarker⟩
    rw [h c hc] at hmem
    exact Bool.noConfusion hmem
  rw [parsePriority, List.any_append, List.any_append, hnone .high (by decide),
    hnone .medium (by decide)]
  cases p with
  | high => rfl
  | medium => rfl
  | low => rfl

/-- The sign in front of the content decides the priority, and no sign stands in the description of
a readable task. -/
theorem parsePriority_content (h : t.Readable) : parsePriority (codec.content t) = t.priority := by
  refine parsePriority_lead t.priority ?_
  intro c hc
  rcases List.mem_append.mp hc with hc | hc
  · exact h.no_priority c hc
  · rcases mem_spaced hc with rfl | ⟨part, hpart, hc⟩
    · decide
    · obtain ⟨datum, hdatum, rfl⟩ := List.mem_map.mp hpart
      exact Datum.isPriorityMarker_of_mem_text (data_writable h datum hdatum) hc

/-! ## Dates that are read back -/

/-- The task with the day on which it was done, as its line has it. -/
def asWritten (codec : Codec) (t : Task) : Task :=
  { t with dates := { t.dates with
      done := if t.status = .done then some (codec.completionDate t) else none } }

/-- One date more among those that were read. -/
def addDate (dates : TaskDates) (found : DateKind × Text) : TaskDates :=
  if (Date.ofIso? found.2).isSome then dates.set found.1 (some found.2) else dates

/-- A date of a kind that was not read before is put in its place. -/
theorem foldl_addDate {dates : TaskDates} {kind : DateKind} {written : Option Text}
    (h : ∀ w, written = some w → ∃ day : Date, w = day.iso) (hnone : dates.get kind = none) :
    (written.toList.map (kind, ·)).foldl addDate dates = dates.set kind written := by
  cases written with
  | none =>
      obtain ⟨due, start, scheduled, done, cancelled⟩ := dates
      cases kind <;> simp_all [TaskDates.set, TaskDates.get]
  | some w =>
      obtain ⟨day, rfl⟩ := h w rfl
      rw [Option.toList_some, List.map_singleton, List.foldl_cons, List.foldl_nil, addDate,
        Date.ofIso?_iso]
      rfl

/-- The dates are written in the order of the line, the day of a done task last. -/
theorem filterMap_date?_data (codec : Codec) (t : Task) :
    (codec.data t).filterMap Datum.date? =
      [DateKind.due, .start, .scheduled, .cancelled, .done].flatMap fun kind =>
        ((codec.asWritten t).dates.get kind).toList.map (kind, ·) := by
  cases hdone : t.status <;>
    simp [data, plannedDates, completion, asWritten, hdone, Datum.date?, TaskDates.get,
      Function.comp_def]

/-- Every date that is written is in ISO form. -/
theorem date_asWritten (h : t.Readable) (kind : DateKind) (w : Text)
    (hw : (codec.asWritten t).dates.get kind = some w) : ∃ day : Date, w = day.iso := by
  cases kind with
  | done =>
      have hw : (if t.status = .done then some (codec.completionDate t) else none) = some w := hw
      split at hw
      · obtain rfl := Option.some.inj hw
        exact completionDate_iso h
      · exact absurd hw (by simp)
  | due => exact h.date .due w hw
  | start => exact h.date .start w hw
  | scheduled => exact h.date .scheduled w hw
  | cancelled => exact h.date .cancelled w hw

/-- The dates of a content are the ones that were written, when the description holds none. -/
theorem parseDates_content (h : t.Readable) (hd : Token.date.tokens t.description = []) :
    parseDates (codec.content t) = (codec.asWritten t).dates := by
  have hdate : ∀ kind w, (codec.asWritten t).dates.get kind = some w → ∃ day : Date, w = day.iso :=
    date_asWritten h
  rw [parseDates, date_tokens_content h, hd, List.nil_append, filterMap_date?_data]
  show List.foldl addDate {} _ = _
  simp only [List.flatMap_cons, List.flatMap_nil, List.foldl_append, List.foldl_nil]
  rw [foldl_addDate (hdate .due) rfl, foldl_addDate (hdate .start) rfl,
    foldl_addDate (hdate .scheduled) rfl, foldl_addDate (hdate .cancelled) rfl,
    foldl_addDate (hdate .done) rfl]
  rfl

/-! ## The words "when done" and the description -/

/-- The words "when done" stand in a line where its description or its recurrence has them. -/
theorem tokens_whenDone_format (h : t.Readable) :
    Token.whenDone.tokens (codec.format t) = Token.whenDone.tokens t.description ++
      t.recurrence.toList.flatMap (Token.whenDone.tokens ·.text) := by
  have hmark : ∀ (status : Status), ∀ c ∈ ['-', ' ', '[', status.mark, ']'],
      (c = 'w' || c = 'W' : Bool) = false := by
    intro status
    cases status <;> exact forall_mem_of_all (by decide)
  -- No letter stands before the content, so the words begin nowhere in the prefix.
  have hprefix : ∀ c ∈ t.indent ++ ['-', ' ', '[', t.status.mark, ']'],
      (c = 'w' || c = 'W' : Bool) = false := by
    intro c hc
    rcases List.mem_append.mp hc with hc | hc
    · cases hw : (c = 'w' || c = 'W' : Bool) with
      | false => rfl
      | true =>
          have hblank := h.indent c hc
          simp only [Bool.or_eq_true, decide_eq_true_eq] at hw
          rcases hw with rfl | rfl <;> exact absurd hblank (by decide)
    · exact hmark t.status c hc
  have hsign : ∀ c, isPriorityMarker c = true → (c = 'w' || c = 'W' : Bool) = false := by
    intro c hc
    rcases isPriorityMarker_iff.mp hc with rfl | rfl <;> rfl
  have hline : codec.format t =
      (t.indent ++ ['-', ' ', '[', t.status.mark, ']']) ++ ' ' :: codec.content t := by
    simp [format_eq h]
  rw [hline, tokens_unsigned_space Token.whenDone_separable.toLawful Token.whenDone_startsWith
    hprefix, content, tokens_lead Token.whenDone_separable Token.whenDone_startsWith hsign,
    tokens_whenDone_append_data _ (data_writable h), filterMap_recurrence?_data]

/-- The sign of the priority is taken out. -/
theorem words_strip_lead (style : TagStyle) (p : Priority) (s : Text) :
    words (strip style (p.lead ++ s)) = words (strip style s) := by
  have hone : ∀ c, isPriorityMarker c = true →
      words (strip style ([c, ' '] ++ s)) = words (strip style s) := by
    intro c hc
    have hscan : Token.priority none (c :: [] ++ (' ' :: s)) = some ((), ' ' :: s) := by
      show (if isPriorityMarker c then some ((), Token.skipSelector (' ' :: s)) else none) = _
      rw [if_pos hc]
      rfl
    -- The sign becomes a space, and there is one behind it already.
    have hblankOut : Token.priority.blankOut (c :: [] ++ (' ' :: s)) =
        Token.priority.blankOut (' ' :: ' ' :: s) := by
      rw [blankOut_space_cons Token.priority_separable.toLawful, blankOut_eq_map, pieces,
        piecesFrom_of_some hscan, blankOut_eq_map,
        pieces_space_cons Token.priority_separable.toLawful]
      show shown (.token ()) :: (Token.priority.piecesFrom 0 (some c) (' ' :: s)).map shown = _
      rw [piecesFrom_of_none (Token.priority_separable.blank isBlank_space),
        piecesFrom_space Token.priority_separable.toLawful]
      rfl
    have hstrip : strip style (c :: [] ++ (' ' :: s)) = ' ' :: ' ' :: strip style s := by
      rw [← strip_space_cons, ← strip_space_cons, strip, hblankOut]
      rfl
    show words (strip style (c :: [] ++ (' ' :: s))) = _
    rw [hstrip, words_cons_of_isBlank isBlank_space, words_cons_of_isBlank isBlank_space]
  cases p with
  | high => exact hone _ (by decide)
  | medium => exact hone _ (by decide)
  | low => rfl

end Codec

/-- Texts that differ and are not empty are kept as they are. -/
theorem distinct_eq_self {texts : List Text} (hne : ∀ s ∈ texts, s ≠ []) (h : texts.Nodup) :
    distinct texts = texts := by
  have hfold : ∀ seen : List Text, (seen ++ texts).Nodup →
      texts.foldl (fun seen s => if s.isEmpty || seen.contains s then seen else seen ++ [s]) seen =
        seen ++ texts := by
    clear h
    induction texts with
    | nil => simp
    | cons s texts ih =>
        intro seen hseen
        have hmem : s ∉ seen := fun hs =>
          (List.nodup_append.mp hseen).2.2 s hs s (by simp) rfl
        have hs : s.isEmpty = false := by
          cases s with
          | nil => exact absurd rfl (hne [] (by simp))
          | cons c s => rfl
        rw [List.foldl_cons, hs, Bool.false_or, if_neg (by simpa using hmem),
          ih (fun s hs => hne s (by simp [hs])) _ (by simpa using hseen)]
        simp
  exact hfold [] h

end Checklist
