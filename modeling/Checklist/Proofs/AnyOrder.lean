import Mathlib.Data.List.Chain
import Checklist.Proofs.ItemLines
import Checklist.Proofs.ParsedTask
import Checklist.Proofs.Parts
import Checklist.Proofs.Rereading

/-!
# Any order — lines whose segments are not where a line has them

A task is written in segments: the sign of its priority, its description, and its data. A line may
have them in another order (`Task.Arranges`), and is read as the same task all the same
(`exists_equivalent_of_arranges`).

The route: every segment but the description is a `Part`, which the scanners take as a whole or not
at all, whatever stands around it. The description holds no token of its own and comes once, so each
scanner reads the row segment by segment. Only the recurrence is not delimited, and runs up to the
sign of the segment behind it.
-/

namespace Checklist

open Text Scanner

/-! ## Segments -/

/-- A segment of a line behind the mark of its item. -/
inductive Segment where
  /-- The sign of a priority. -/
  | sign (c : Char)
  | description (d : Text)
  | datum (datum : Datum)

namespace Segment

/-- The segment as it is written. -/
def text (style : TagStyle) : Segment → Text
  | .sign c => [c]
  | .description d => d
  | .datum x => x.text style

/-- The sign that the segment is. -/
def sign? : Segment → Option Char
  | .sign c => some c
  | _ => none

/-- The description that the segment is. -/
def description? : Segment → Option Text
  | .description d => some d
  | _ => none

/-- The datum that the segment is. -/
def datum? : Segment → Option Datum
  | .datum x => some x
  | _ => none

/-- The recurrence that the segment is. -/
def recurrence? (segment : Segment) : Option Recurrence := segment.datum?.bind Datum.recurrence?

/-- The segment as it is written, but with a text in place of a recurrence. -/
def textWithout (style : TagStyle) (blank : Text) : Segment → Text
  | .datum (.recurrence _) => blank
  | segment => segment.text style

end Segment

namespace Task

/-- The data of a task, with a space behind the signs of some of its dates. -/
def data (gap : DateKind → Bool) (t : Task) : List Datum :=
  (DateKind.all.flatMap fun kind => (t.dates.get kind).toList.map (.date kind (gap kind))) ++
    t.recurrence.toList.map .recurrence ++ t.tags.map .tag ++ t.dependencies.map .dependency

/-- The segments of a task. -/
def segments (gap : DateKind → Bool) (t : Task) : List Segment :=
  t.priority.marker?.toList.map .sign ++ .description t.description :: (t.data gap).map .datum

/-- Whether the row has the segments of the task in an order that keeps them apart. -/
structure Arranges (gap : DateKind → Bool) (t : Task) (row : List Segment) : Prop where
  perm : row.Perm (t.segments gap)
  tags : (row.filterMap Segment.datum?).filterMap Datum.tag? = t.tags
  dependencies : (row.filterMap Segment.datum?).filterMap Datum.dependency? = t.dependencies
  /-- The description is not directly behind the recurrence, which would run into it. -/
  description_apart : row.IsChain fun a b => a.recurrence? = none ∨ b.description? = none

/-- Whether the segments of the task can be told apart, in whatever order they are written. -/
structure Orderly (style : TagStyle) (t : Task) : Prop extends t.Readable where
  no_recurrence : Marker.recurrence ∉ t.description
  no_date : Token.date.finds t.description = false
  no_tag : (Token.tag style).finds t.description = false
  no_dependency : Token.dependency.finds t.description = false
  done_iff : t.dates.done.isSome ↔ t.status = .done
  rule : ∀ r, t.recurrence = some r → Token.whenDone.finds r.rule = false

/-- The line of the task that has its segments in this row. -/
def rowLine (style : TagStyle) (t : Task) (row : List Segment) : Text :=
  t.indent ++ '-' :: ' ' :: '[' :: t.status.mark :: ']' :: ' ' ::
    joinWith [' '] (row.map (Segment.text style))

end Task

/-! ## What the segments of a task are -/

section Segments

variable (gap : DateKind → Bool) (t : Task)

/-- A task has the sign of its priority among its segments, and no other sign. -/
theorem filterMap_sign?_segments :
    (t.segments gap).filterMap Segment.sign? = t.priority.marker?.toList := by
  simp [Task.segments, Segment.sign?, Function.comp_def]

/-- A task has its description among its segments, once. -/
theorem filterMap_description?_segments :
    (t.segments gap).filterMap Segment.description? = [t.description] := by
  simp [Task.segments, Segment.description?, Function.comp_def]

/-- The other segments of a task are its data. -/
theorem filterMap_datum?_segments :
    (t.segments gap).filterMap Segment.datum? = t.data gap := by
  simp [Task.segments, Segment.datum?, Function.comp_def, List.filterMap_cons]

/-- The data of a task hold its recurrence, if it has one. -/
theorem filterMap_recurrence?_data :
    (t.data gap).filterMap Datum.recurrence? = t.recurrence.toList := by
  simp [Task.data, DateKind.all, Datum.recurrence?, Function.comp_def]

/-- The data of a task hold its dates, kind by kind. -/
theorem filterMap_date?_data :
    (t.data gap).filterMap Datum.date? =
      DateKind.all.flatMap fun kind => (t.dates.get kind).toList.map (kind, ·) := by
  simp [Task.data, DateKind.all, Datum.date?, Function.comp_def]

/-- The data of a readable task are read as they are written. -/
theorem data_writable {t : Task} (h : t.Readable) : ∀ datum ∈ t.data gap, datum.Writable := by
  intro datum hdatum
  simp only [Task.data, List.mem_append, List.mem_flatMap, List.mem_map, Option.mem_toList]
    at hdatum
  rcases hdatum with ((⟨kind, -, written, hwritten, rfl⟩ | ⟨r, hr, rfl⟩) | ⟨name, hname, rfl⟩) |
    ⟨name, hname, rfl⟩
  · exact h.date kind written hwritten
  · exact h.recurrence r hr
  · exact h.tag name hname
  · exact h.dependency name hname

end Segments

/-- What a segment of a readable task is. -/
def Segment.Fits (t : Task) : Segment → Prop
  | .sign c => isPriorityMarker c = true
  | .description d => d = t.description
  | .datum x => x.Writable

/-- The sign of a priority is known as one. -/
theorem isPriorityMarker_of_marker? {p : Priority} {c : Char} (h : p.marker? = some c) :
    isPriorityMarker c = true :=
  List.any_eq_true.mpr ⟨p, by cases p <;> decide, by simp [h]⟩

section Rows

variable {style : TagStyle} {gap : DateKind → Bool} {t : Task} {row : List Segment}

namespace Task.Arranges

/-- Whatever the order, a segment in the row of a readable task can be written. -/
theorem fits (hrow : t.Arranges gap row) (h : t.Readable) : ∀ segment ∈ row, segment.Fits t := by
  intro segment hsegment
  have hmem := hrow.perm.mem_iff.mp hsegment
  simp only [Task.segments, List.mem_append, List.mem_cons, List.mem_map, Option.mem_toList]
    at hmem
  rcases hmem with ⟨c, hc, rfl⟩ | rfl | ⟨datum, hdatum, rfl⟩
  · exact isPriorityMarker_of_marker? hc
  · exact rfl
  · exact data_writable gap h datum hdatum

/-- A row with at most one of something has it where the task has it. -/
theorem eq_toList_of_perm {β : Type} {found : List β} {o : Option β} (h : found.Perm o.toList) :
    found = o.toList := by
  cases o with
  | none => exact h.eq_nil
  | some b => exact h.eq_singleton

/-- A task has at most one sign, so the order does not matter for it. -/
theorem filterMap_sign? (hrow : t.Arranges gap row) :
    row.filterMap Segment.sign? = t.priority.marker?.toList :=
  eq_toList_of_perm (filterMap_sign?_segments gap t ▸ hrow.perm.filterMap _)

/-- Nor does it for the description. -/
theorem filterMap_description? (hrow : t.Arranges gap row) :
    row.filterMap Segment.description? = [t.description] :=
  (filterMap_description?_segments gap t ▸ hrow.perm.filterMap _).eq_singleton

/-- The data stand in the row in some order. -/
theorem filterMap_datum? (hrow : t.Arranges gap row) :
    (row.filterMap Segment.datum?).Perm (t.data gap) :=
  filterMap_datum?_segments gap t ▸ hrow.perm.filterMap _

/-- A task has at most one recurrence, so the order does not matter for it either. -/
theorem filterMap_recurrence? (hrow : t.Arranges gap row) :
    row.filterMap Segment.recurrence? = t.recurrence.toList := by
  have hperm := hrow.filterMap_datum?.filterMap Datum.recurrence?
  rw [filterMap_recurrence?_data, List.filterMap_filterMap] at hperm
  exact eq_toList_of_perm hperm

end Task.Arranges

/-! ## The row as a text -/

/-- Of segments of which one is a description at most, every two have one that is none. -/
theorem pairwise_of_filterMap {β γ : Type} {f : β → Option γ} {found : List β}
    (h : (found.filterMap f).length ≤ 1) : found.Pairwise fun a b => f a = none ∨ f b = none := by
  induction found with
  | nil => exact .nil
  | cons a found ih =>
      rw [List.filterMap_cons] at h
      cases ha : f a with
      | none =>
          rw [ha] at h
          exact .cons (fun b _ => .inl ha) (ih h)
      | some c =>
          rw [ha, List.length_cons] at h
          have hnone : found.filterMap f = [] := List.length_eq_zero_iff.mp (by omega)
          exact .cons (fun b hb => .inr (List.filterMap_eq_nil_iff.mp hnone b hb))
            (ih (by simp [hnone]))

/-- A segment that is not the description keeps apart from its neighbours, and what is left of it
without its recurrence does too. -/
theorem Segment.Fits.part {segment : Segment} (h : segment.Fits t) (blank : Text)
    (hblank : blank = [] ∨ blank = [' ']) (hne : segment.description? = none) :
    Part style (segment.text style) ∧ Part style (segment.textWithout style blank) := by
  cases segment with
  | sign c => exact ⟨.of_isPriorityMarker style h, .of_isPriorityMarker style h⟩
  | description d => exact absurd hne (by simp [Segment.description?])
  | datum datum =>
      have htext : Part style (datum.text style) := .of_datum style h
      refine ⟨htext, ?_⟩
      cases datum with
      | recurrence r =>
          refine .of_spaces style (s := blank) ?_
          rcases hblank with rfl | rfl <;> simp
      | date kind gap written => exact htext
      | tag name => exact htext
      | dependency name => exact htext

namespace Task.Arranges

/-- All texts of a row but one are parts. -/
theorem pairwise_part (hrow : t.Arranges gap row) {text : Segment → Text}
    (htext : ∀ segment ∈ row, segment.description? = none → Part style (text segment)) :
    (row.map text).Pairwise fun s u => Part style s ∨ Part style u := by
  have hone : row.Pairwise fun a b => a.description? = none ∨ b.description? = none :=
    pairwise_of_filterMap (by simp [hrow.filterMap_description?])
  refine List.pairwise_map.mpr (hone.imp_of_mem fun ha hb hor => ?_)
  exact hor.imp (htext _ ha) (htext _ hb)

/-- A row is read datum by datum, when the description holds nothing to read. -/
theorem tokens_row (hrow : t.Arranges gap row) (h : t.Readable) {α : Type} {scan : Scanner α}
    {own : Datum → Option α} (hs : scan.Separable)
    (hsolid : ∀ {s}, Part style s → scan.Solid s) (hread : Datum.ReadBy scan style own)
    (hsign : ∀ c, isPriorityMarker c = true → scan.tokens [c] = [])
    (hdescription : scan.tokens t.description = []) :
    scan.tokens (joinWith [' '] (row.map (Segment.text style))) =
      (row.filterMap Segment.datum?).filterMap own := by
  have hpart : ∀ segment ∈ row, segment.description? = none → Part style (segment.text style) :=
    fun segment hsegment hne => ((hrow.fits h segment hsegment).part [] (.inl rfl) hne).1
  -- What a segment gives the scanner, read by itself, is its own datum or nothing.
  have htokens : ∀ segment ∈ row,
      scan.tokens (segment.text style) = (segment.datum?.bind own).toList := by
    intro segment hsegment
    have hfits := hrow.fits h segment hsegment
    cases segment with
    | sign c => exact hsign c hfits
    | description d =>
        obtain rfl : d = t.description := hfits
        exact hdescription
    | datum datum => exact Datum.tokens_text hread hfits
  rw [tokens_joinWith hs ((hrow.pairwise_part hpart).imp fun hor =>
      hor.imp (fun hs => (hsolid hs).closed) fun hu => hu.signed),
    List.flatMap_map, List.flatMap_congr htokens, List.filterMap_filterMap,
    List.filterMap_eq_flatMap_toList]

end Task.Arranges

/-! ## The data of a row -/

/-- Dates of different kinds can be read in either order. -/
theorem addDate_comm {x y : DateKind × Text} (h : x.1 = y.1 → x = y) (dates : TaskDates) :
    Codec.addDate (Codec.addDate dates x) y = Codec.addDate (Codec.addDate dates y) x := by
  by_cases hkind : x.1 = y.1
  · rw [h hkind]
  · unfold Codec.addDate
    split
    · split
      · obtain ⟨kind, w⟩ := x
        obtain ⟨other, v⟩ := y
        cases kind <;> cases other <;> first | exact absurd rfl hkind | rfl
      · rfl
    · rfl

/-- All dates of a task, one for each kind, make up its dates. -/
theorem foldl_addDate_dates (h : t.Readable) :
    (DateKind.all.flatMap fun kind => (t.dates.get kind).toList.map (kind, ·)).foldl Codec.addDate
      {} = t.dates := by
  simp only [DateKind.all, List.flatMap_cons, List.flatMap_nil, List.foldl_append, List.foldl_nil]
  rw [Codec.foldl_addDate (h.date .due) rfl, Codec.foldl_addDate (h.date .start) rfl,
    Codec.foldl_addDate (h.date .scheduled) rfl, Codec.foldl_addDate (h.date .done) rfl,
    Codec.foldl_addDate (h.date .cancelled) rfl]
  rfl

namespace Task.Arranges

/-- The dates are read back from a row, since a task has one date of a kind at most. -/
theorem parseDates_row (hrow : t.Arranges gap row) (h : t.Orderly style) :
    parseDates (joinWith [' '] (row.map (Segment.text style))) = t.dates := by
  have hsign : ∀ c, isPriorityMarker c = true → Token.date.tokens [c] = [] := by
    intro c hc
    rcases isPriorityMarker_iff.mp hc with rfl | rfl <;> decide
  have htokens := hrow.tokens_row h.toReadable Token.date_separable (fun {_} hs => hs.date)
    (Datum.readBy_date style) hsign (finds_eq_false_iff.mp h.no_date)
  have hperm : ((row.filterMap Segment.datum?).filterMap Datum.date?).Perm
      (DateKind.all.flatMap fun kind => (t.dates.get kind).toList.map (kind, ·)) :=
    filterMap_date?_data gap t ▸ hrow.filterMap_datum?.filterMap _
  -- A task has one date of each kind, so dates of one kind are one and the same.
  have hget : ∀ found ∈ (row.filterMap Segment.datum?).filterMap Datum.date?,
      t.dates.get found.1 = some found.2 := by
    intro found hfound
    obtain ⟨kind, -, hkind⟩ := List.mem_flatMap.mp (hperm.mem_iff.mp hfound)
    obtain ⟨written, hwritten, rfl⟩ := List.mem_map.mp hkind
    exact Option.mem_toList.mp hwritten
  have hcomm : ∀ x ∈ (row.filterMap Segment.datum?).filterMap Datum.date?,
      ∀ y ∈ (row.filterMap Segment.datum?).filterMap Datum.date?, ∀ dates,
        Codec.addDate (Codec.addDate dates x) y = Codec.addDate (Codec.addDate dates y) x := by
    intro x hx y hy dates
    refine addDate_comm (fun hkind => Prod.ext hkind ?_) dates
    exact Option.some.inj ((hget x hx).symm.trans (hkind ▸ hget y hy))
  rw [parseDates, htokens]
  show List.foldl Codec.addDate {} _ = _
  rw [hperm.foldl_eq' hcomm, foldl_addDate_dates h.toReadable]

/-- The tags are read back from a row in their order. -/
theorem tag_tokens_row (hrow : t.Arranges gap row) (h : t.Orderly style) :
    (Token.tag style).tokens (joinWith [' '] (row.map (Segment.text style))) = t.tags := by
  have hsign : ∀ c, isPriorityMarker c = true → (Token.tag style).tokens [c] = [] := by
    intro c hc
    rcases isPriorityMarker_iff.mp hc with rfl | rfl <;> cases style <;> decide
  rw [hrow.tokens_row h.toReadable (Token.tag_separable style) (fun {_} hs => hs.tag)
    (Datum.readBy_tag style) hsign (finds_eq_false_iff.mp h.no_tag), hrow.tags]

/-- The dependencies are read back from a row in their order. -/
theorem dependency_tokens_row (hrow : t.Arranges gap row) (h : t.Orderly style) :
    Token.dependency.tokens (joinWith [' '] (row.map (Segment.text style))) = t.dependencies := by
  have hsign : ∀ c, isPriorityMarker c = true → Token.dependency.tokens [c] = [] := by
    intro c hc
    rcases isPriorityMarker_iff.mp hc with rfl | rfl <;> decide
  rw [hrow.tokens_row h.toReadable Token.dependency_separable (fun {_} hs => hs.dependency)
    (Datum.readBy_dependency style) hsign (finds_eq_false_iff.mp h.no_dependency),
    hrow.dependencies]

end Task.Arranges

/-! ## The characters of a row -/

/-- The sign of a priority in a row is that of the task. -/
theorem Task.Arranges.mem_row_iff (hrow : t.Arranges gap row) (h : t.Readable) {c : Char}
    (hc : isPriorityMarker c = true) :
    c ∈ joinWith [' '] (row.map (Segment.text style)) ↔ t.priority.marker? = some c := by
  constructor
  · intro hmem
    -- The sign is in some segment, and neither a description nor a datum holds one.
    rcases mem_joinWith hmem with hspace | ⟨text, htext, hmem⟩
    · rw [List.mem_singleton.mp hspace] at hc
      exact absurd hc (by decide)
    · obtain ⟨segment, hsegment, rfl⟩ := List.mem_map.mp htext
      have hfits := hrow.fits h segment hsegment
      cases segment with
      | sign d =>
          obtain rfl := List.mem_singleton.mp hmem
          have hsign : c ∈ row.filterMap Segment.sign? := List.mem_filterMap.mpr ⟨_, hsegment, rfl⟩
          rw [hrow.filterMap_sign?] at hsign
          exact Option.mem_toList.mp hsign
      | description d =>
          obtain rfl : d = t.description := hfits
          rw [h.no_priority c hmem] at hc
          exact Bool.noConfusion hc
      | datum datum =>
          rw [Datum.isPriorityMarker_of_mem_text hfits hmem] at hc
          exact Bool.noConfusion hc
  · intro hmarker
    have hsign : c ∈ row.filterMap Segment.sign? := by
      rw [hrow.filterMap_sign?]
      exact Option.mem_toList.mpr hmarker
    obtain ⟨segment, hsegment, heq⟩ := List.mem_filterMap.mp hsign
    cases segment with
    | sign d =>
        obtain rfl := Option.some.inj heq
        exact mem_joinWith_of_mem (List.mem_map.mpr ⟨_, hsegment, rfl⟩) (List.mem_singleton_self _)
    | description d => exact absurd heq (by simp [Segment.sign?])
    | datum datum => exact absurd heq (by simp [Segment.sign?])

/-- The priority is read back from a row, wherever its sign stands. -/
theorem Task.Arranges.parsePriority_row (hrow : t.Arranges gap row) (h : t.Readable) :
    parsePriority (joinWith [' '] (row.map (Segment.text style))) = t.priority := by
  have hhigh := (parsePriority_eq_high_iff
    (s := joinWith [' '] (row.map (Segment.text style)))).trans
    (hrow.mem_row_iff h (by decide))
  have hmedium := parsePriority_eq_medium_iff
    (s := joinWith [' '] (row.map (Segment.text style)))
  rw [hrow.mem_row_iff h (by decide), hrow.mem_row_iff h (by decide)] at hmedium
  cases hp : t.priority with
  | high => exact hhigh.mpr (by rw [hp]; rfl)
  | medium => exact hmedium.mpr (by rw [hp]; decide)
  | low =>
      cases hparse : parsePriority (joinWith [' '] (row.map (Segment.text style))) with
      | high => exact absurd (hhigh.mp hparse) (by rw [hp]; decide)
      | medium => exact absurd (hmedium.mp hparse) (by rw [hp]; decide)
      | low => rfl

/-! ## The item of a row -/

/-- A segment begins with no blank, and the only blank in it is the space. -/
theorem Segment.Fits.class_of_mem {segment : Segment} (h : segment.Fits t) (style : TagStyle)
    (ht : t.Readable) :
    (∃ c s, segment.text style = c :: s ∧ isBlank c = false) ∧
      ∀ c ∈ segment.text style, isBlank c = true → c = ' ' := by
  cases segment with
  | sign c =>
      have hc : isBlank c = false := Token.isBlank_of_isPriorityMarker h
      refine ⟨⟨c, [], rfl, hc⟩, fun d hd hblank => ?_⟩
      rw [List.mem_singleton.mp hd, hc] at hblank
      exact Bool.noConfusion hblank
  | description d =>
      obtain rfl : d = t.description := h
      constructor
      · cases hd : t.description with
        | nil => exact absurd hd ht.description_ne_nil
        | cons c s =>
            refine ⟨c, s, rfl, isBlank_of_head_collapse (s := t.description) ?_⟩
            rw [ht.collapse_description, hd]
            rfl
      · exact fun c hc hblank => eq_space_of_mem_collapse (ht.collapse_description.symm ▸ hc) hblank
  | datum datum =>
      obtain ⟨s, hs⟩ := datum.exists_text_eq style
      exact ⟨⟨datum.sign, s, hs, isBlank_of_endsRule datum.endsRule_sign⟩,
        fun c hc hblank => Datum.eq_space_of_mem_text h hc hblank⟩

/-- The line of a row is an item with the row as its content. -/
theorem Task.Arranges.ofLine?_rowLine (hrow : t.Arranges gap row) (h : t.Readable) :
    Item.ofLine? (t.rowLine style row) =
      some ⟨t.indent, t.status.mark, joinWith [' '] (row.map (Segment.text style))⟩ := by
  have hspace : ∀ c ∈ joinWith [' '] (row.map (Segment.text style)),
    isBlank c = true → c = ' ' := by
    intro c hc hblank
    rcases mem_joinWith hc with hc | ⟨text, htext, hc⟩
    · exact List.mem_singleton.mp hc
    · obtain ⟨segment, hsegment, rfl⟩ := List.mem_map.mp htext
      exact ((hrow.fits h segment hsegment).class_of_mem style h).2 c hc hblank
  -- The first segment begins with no blank, so the content is not trimmed.
  have htrim : trimStart (joinWith [' '] (row.map (Segment.text style))) =
      joinWith [' '] (row.map (Segment.text style)) := by
    cases hcases : row with
    | nil => rfl
    | cons segment rest =>
        obtain ⟨⟨c, s, hs, hc⟩, -⟩ :=
          (hrow.fits h segment (by simp [hcases])).class_of_mem style h
        rw [List.map_cons, joinWith_space_cons, hs]
        exact trimStart_cons_of_not_blank hc _
  have hnewline : '\n' ∉ joinWith [' '] (row.map (Segment.text style)) := fun hmem =>
    absurd (hspace _ hmem (by decide)) (by decide)
  have hmark : t.status.mark ≠ ']' := by cases t.status <;> decide
  -- The line read off by hand; an item has no second reading.
  let reading : ItemReading (t.rowLine style row) :=
    { indent := t.indent
      listMarker := ['-'] ++ [' ']
      mark := t.status.mark
      gap := [' ']
      content := joinWith [' '] (row.map (Segment.text style))
      ending := []
      line_eq := by simp [Task.rowLine]
      indent_blank := h.indent
      listMarker_ok := .sign .dash (by simp)
      mark_ne := hmark
      gap_ne_nil := by simp
      gap_blank := by simp
      content_one_line := hnewline
      ending_eq := .inl rfl }
  rw [reading.ofLine?_eq]
  show some (Item.mk t.indent t.status.mark (trimStart _)) = _
  rw [htrim]

/-! ## The recurrence and the description of a row -/

/-- A row of texts is what stands before one of them, that text, and what stands behind it. -/
theorem exists_joinWith_append_cons (texts : List Text) :
    ∃ lead, (∀ c ∈ lead, c = ' ' ∨ ∃ s ∈ texts, c ∈ s) ∧
      ∀ s behind, joinWith [' '] (texts ++ s :: behind) = lead ++ (s ++ spaced behind) := by
  cases texts with
  | nil => exact ⟨[], by simp, fun s behind => joinWith_space_cons s behind⟩
  | cons u texts =>
      refine ⟨u ++ spaced texts ++ [' '], ?_, fun s behind => ?_⟩
      · intro c hc
        rcases List.mem_append.mp hc with hc | hc
        · rw [← joinWith_space_cons] at hc
          exact (mem_joinWith hc).imp_left List.mem_singleton.mp
        · exact .inl (List.mem_singleton.mp hc)
      · rw [List.cons_append, joinWith_space_cons, spaced_append, spaced_cons]
        simp

/-- Only the datum of a recurrence has one. -/
theorem Segment.eq_of_recurrence? {segment : Segment} {r : Recurrence}
    (h : segment.recurrence? = some r) : segment = .datum (.recurrence r) := by
  cases segment with
  | sign c => exact absurd h (by simp [recurrence?, datum?])
  | description d => exact absurd h (by simp [recurrence?, datum?])
  | datum datum =>
      cases datum with
      | recurrence q =>
          obtain rfl : q = r := Option.some.inj h
          rfl
      | date kind gap written => exact absurd h (by simp [recurrence?, datum?, Datum.recurrence?])
      | tag name => exact absurd h (by simp [recurrence?, datum?, Datum.recurrence?])
      | dependency name => exact absurd h (by simp [recurrence?, datum?, Datum.recurrence?])

/-- Segments without a recurrence are written as they are. -/
theorem textWithout_of_none (blank : Text) {segments : List Segment}
    (h : ∀ segment ∈ segments, segment.recurrence? = none) :
    segments.map (Segment.textWithout style blank) = segments.map (Segment.text style) := by
  refine List.map_congr_left fun segment hsegment => ?_
  have hnone := h segment hsegment
  cases segment with
  | sign c => rfl
  | description d => rfl
  | datum datum =>
      cases datum with
      | recurrence r => exact absurd hnone (Option.some_ne_none r)
      | date kind gap written => rfl
      | tag name => rfl
      | dependency name => rfl

/-- Of the segments, a recurrence taken out, the description alone has words of its own. -/
theorem Segment.Fits.words_strip_textWithout {segment : Segment} (hfits : segment.Fits t)
    (h : t.Orderly style) {blank : Text} (hblank : blank = [] ∨ blank = [' ']) :
    words (strip style (segment.textWithout style blank)) =
      segment.description?.toList.flatMap words := by
  cases segment with
  | sign c =>
      have hsign : ∀ style, words (strip style ['⏫']) = [] ∧ words (strip style ['🔼']) = [] := by
        intro style
        cases style <;> decide
      rcases isPriorityMarker_iff.mp hfits with rfl | rfl
      · exact (hsign style).1
      · exact (hsign style).2
  | description d =>
      obtain rfl : d = t.description := hfits
      show words (strip style t.description) = [t.description].flatMap words
      rw [strip_of_tokens_eq_nil h.no_priority (finds_eq_false_iff.mp h.no_date)
        (finds_eq_false_iff.mp h.no_tag) (finds_eq_false_iff.mp h.no_dependency)]
      exact (List.append_nil _).symm
  | datum datum =>
      have hdatum : words (strip style (datum.text style)) = _ := words_strip_text style hfits
      -- Only the recurrence is written otherwise, and then there are no words.
      cases datum with
      | recurrence r =>
          have hspace : words (strip style []) = [] ∧ words (strip style [' ']) = [] := by
            cases style <;> decide
          rcases hblank with rfl | rfl
          · exact hspace.1
          · exact hspace.2
      | date kind gap written => exact hdatum
      | tag name => exact hdatum
      | dependency name => exact hdatum

namespace Task.Arranges

/-- What holds no recurrence holds no sign of one. -/
theorem recurrence_not_mem_text (hrow : t.Arranges gap row) (h : t.Orderly style)
    {segment : Segment} (hsegment : segment ∈ row)
    (hnone : segment.recurrence? = none) :
    Marker.recurrence ∉ segment.text style := by
  intro hmem
  have hfits := hrow.fits h.toReadable segment hsegment
  cases segment with
  | sign c =>
      have hsign : isPriorityMarker c = true := hfits
      rw [← List.mem_singleton.mp hmem] at hsign
      exact absurd hsign (by decide)
  | description d =>
      obtain rfl : d = t.description := hfits
      exact h.no_recurrence hmem
  | datum datum => exact Datum.recurrence_not_mem_text hfits hnone hmem

/-- A row has the recurrence of its task, and no other. -/
theorem exists_eq_append_cons (hrow : t.Arranges gap row) {r : Recurrence}
    (hr : t.recurrence = some r) :
    ∃ front back, row = front ++ .datum (.recurrence r) :: back ∧
      (∀ segment ∈ front, segment.recurrence? = none) ∧
      ∀ segment ∈ back, segment.recurrence? = none := by
  have hone : row.filterMap Segment.recurrence? = [r] := by
    rw [hrow.filterMap_recurrence?, hr]
    rfl
  obtain ⟨front, segment, back, hcut, hfront, hsegment, hback⟩ := List.filterMap_eq_cons_iff.mp hone
  obtain rfl := Segment.eq_of_recurrence? hsegment
  exact ⟨front, back, hcut, hfront, List.filterMap_eq_nil_iff.mp hback⟩

/-- The segment behind the recurrence is not the description, so it begins with a sign. -/
theorem exists_endsRule_behind {front back : List Segment} {r : Recurrence} {segment : Segment}
    (hrow : t.Arranges gap (front ++ .datum (.recurrence r) :: segment :: back)) (h : t.Readable)
    (style : TagStyle) : ∃ c u, segment.text style = c :: u ∧ endsRule c = true := by
  have hfits : segment.Fits t := hrow.fits h segment (by simp)
  cases segment with
  | sign c =>
      have hc : isPriorityMarker c = true := hfits
      exact ⟨c, [], rfl, by simp [endsRule, hc]⟩
  | description d =>
      rcases (List.isChain_append_cons_cons.mp hrow.description_apart).2.1 with hnone | hnone
      · exact absurd hnone (Option.some_ne_none r)
      · exact absurd hnone (Option.some_ne_none d)
  | datum datum =>
      obtain ⟨u, hu⟩ := datum.exists_text_eq style
      exact ⟨datum.sign, u, hu, datum.endsRule_sign⟩

/-- The recurrence of a row is cut out up to the sign behind it, which leaves a row with spaces or
nothing in its place. -/
theorem exists_cut (hrow : t.Arranges gap row) (h : t.Orderly style) {r : Recurrence}
    (hr : t.recurrence = some r) :
    ∃ rule blank, (blank = [] ∨ blank = [' ']) ∧ (rule = r.tail ∨ rule = r.tail ++ [' ']) ∧
      Token.cutRecurrence? (joinWith [' '] (row.map (Segment.text style))) =
        some (rule, joinWith [' '] (row.map (Segment.textWithout style blank))) := by
  obtain ⟨front, back, rfl, hfront, hback⟩ := hrow.exists_eq_append_cons hr
  obtain ⟨lead, hlead, hjoin⟩ := exists_joinWith_append_cons (front.map (Segment.text style))
  have hmem : Marker.recurrence ∉ lead := by
    intro hmem
    rcases hlead _ hmem with hspace | ⟨text, htext, hmem⟩
    · exact absurd hspace (by decide)
    · obtain ⟨segment, hsegment, rfl⟩ := List.mem_map.mp htext
      exact hrow.recurrence_not_mem_text h (by simp [hsegment]) (hfront segment hsegment) hmem
  have hsigned : ∀ s, (back.map (Segment.text style)).head? = some s →
      ∃ c u, s = c :: u ∧ endsRule c = true := by
    intro s hs
    cases back with
    | nil => exact absurd hs (by simp)
    | cons segment back =>
        obtain rfl := Option.some.inj hs
        exact hrow.exists_endsRule_behind h.toReadable style
  obtain ⟨rule, blank, hblank, hrule, hcut⟩ :=
    cutRecurrence?_text_spaced (h.recurrence r hr) hsigned
  refine ⟨rule, blank, hblank, hrule, ?_⟩
  -- Nothing else in the row is a recurrence, so the rest of it is written as it is.
  rw [List.map_append, List.map_append, List.map_cons, List.map_cons,
    textWithout_of_none blank hfront,
    textWithout_of_none blank hback, hjoin, hjoin, cutRecurrence?_append_left hmem,
    show (Segment.datum (.recurrence r)).text style = r.text from rfl, hcut]
  rfl

/-- Of a row without its recurrence the description alone is left. -/
theorem words_strip_row (hrow : t.Arranges gap row) (h : t.Orderly style) {blank : Text}
    (hblank : blank = [] ∨ blank = [' ']) :
    words (strip style (joinWith [' '] (row.map (Segment.textWithout style blank)))) =
      words t.description := by
  have hfits := hrow.fits h.toReadable
  have hpart : ∀ segment ∈ row, segment.description? = none →
      Part style (segment.textWithout style blank) := fun segment hsegment hne =>
    ((hfits segment hsegment).part blank hblank hne).2
  have hwords : ∀ segment ∈ row, words (strip style (segment.textWithout style blank)) =
      segment.description?.toList.flatMap words := fun segment hsegment =>
    (hfits segment hsegment).words_strip_textWithout h hblank
  calc words (strip style (joinWith [' '] (row.map (Segment.textWithout style blank))))
      = row.flatMap fun segment => words (strip style (segment.textWithout style blank)) := by
        rw [strip_joinWith (hrow.pairwise_part hpart), words_joinWith_space, List.map_map,
          List.flatMap_map]
        rfl
    _ = row.flatMap fun segment => segment.description?.toList.flatMap words :=
        List.flatMap_congr hwords
    _ = (row.filterMap Segment.description?).flatMap words := by
        rw [List.filterMap_eq_flatMap_toList, List.flatMap_assoc]
    _ = words t.description := by
        rw [hrow.filterMap_description?]
        exact List.append_nil _

end Task.Arranges

/-! ## The words "when done" in a row -/

/-- The words are found behind a space and before a blank or the end. -/
theorem Token.whenDone_words {rest : Text} (h : rest.head?.any isWord = false) :
    Token.whenDone (some ' ') ('w' :: ("hen done".toList ++ rest)) = some ((), rest) := by
  have hword : isWord ' ' = false := isWord_eq_false_of_isBlank isBlank_space
  have hgap : [' '] ≠ [] ∧ ∀ c ∈ [' '], isBlank c = true := ⟨by simp, by simp⟩
  exact Token.whenDone_eq_some_iff.mpr
    ⟨hword, "when".toList, [' '], "done".toList, rfl, by decide, hgap, by decide, h⟩

namespace Task.Arranges

/-- A recurrence that counts from the day when the task was done says so in the line. -/
theorem finds_whenDone_rowLine (hrow : t.Arranges gap row) {r : Recurrence}
    (hr : t.recurrence = some r) (hfrom : r.fromDone = true) :
    Token.whenDone.finds (t.rowLine style row) = true := by
  obtain ⟨front, back, rfl, -, -⟩ := hrow.exists_eq_append_cons hr
  have htext : (Segment.datum (.recurrence r)).text style =
      Marker.recurrence :: ' ' :: r.rule ++ " when done".toList := by
    show r.text = _
    rw [Recurrence.text, hfrom]
    rfl
  obtain ⟨lead, -, hjoin⟩ := exists_joinWith_append_cons (front.map (Segment.text style))
  have hline : t.rowLine style (front ++ .datum (.recurrence r) :: back) =
      (t.indent ++ '-' :: ' ' :: '[' :: t.status.mark :: ']' :: ' ' ::
        (lead ++ Marker.recurrence :: ' ' :: r.rule) ++ [' ']) ++
        'w' :: ("hen done".toList ++ spaced (back.map (Segment.text style))) := by
    rw [Task.rowLine, List.map_append, List.map_cons, hjoin, htext]
    simp
  -- A space or the end of the line is behind the two words.
  have hhead : (spaced (back.map (Segment.text style))).head?.any isWord = false := by
    have hword : isWord ' ' = false := isWord_eq_false_of_isBlank isBlank_space
    cases back with
    | nil => rfl
    | cons segment back => simpa using hword
  rw [hline]
  refine Scanner.finds_iff.mpr ⟨_, 'w', _, rfl, ?_⟩
  rw [List.getLast?_concat, Token.whenDone_words hhead]
  rfl

/-- The recurrence of a row is read as the one of the task, and what is left of the row has the
words of the description. -/
theorem exists_parseRecurrence (hrow : t.Arranges gap row) (h : t.Orderly style)
    (hline : ∀ r, t.recurrence = some r → r.fromDone = false →
      Token.whenDone.finds (t.rowLine style row) = false) :
    ∃ rest, parseRecurrence (joinWith [' '] (row.map (Segment.text style))) (t.rowLine style row) =
        (t.recurrence, rest) ∧
      words (strip style rest) = words t.description := by
  cases hr : t.recurrence with
  | none =>
      have hnil : row.filterMap Segment.recurrence? = [] := by
        rw [hrow.filterMap_recurrence?, hr]
        rfl
      have hnone : ∀ segment ∈ row, segment.recurrence? = none := List.filterMap_eq_nil_iff.mp hnil
      have hmem : Marker.recurrence ∉ joinWith [' '] (row.map (Segment.text style)) := by
        intro hmem
        rcases mem_joinWith hmem with hspace | ⟨text, htext, hmem⟩
        · exact absurd hspace (by decide)
        · obtain ⟨segment, hsegment, rfl⟩ := List.mem_map.mp htext
          exact hrow.recurrence_not_mem_text h hsegment (hnone segment hsegment) hmem
      refine ⟨_, parseRecurrence_of_not_mem (cutRecurrence?_eq_none_iff.mpr hmem) _, ?_⟩
      rw [← textWithout_of_none [] hnone]
      exact hrow.words_strip_row h (.inl rfl)
  | some r =>
      obtain ⟨rule, blank, hblank, hrule, hcut⟩ := hrow.exists_cut h hr
      have hwritable := h.recurrence r hr
      -- What was cut off loses its "when done" and the blanks around it.
      have hcollapse : collapse (Token.whenDone.blankOut rule) = r.rule := by
        rw [← (collapse_whenDone_tail_iff hwritable).mpr (h.rule r hr), collapse, collapse]
        rcases hrule with rfl | rfl
        · rfl
        · rw [words_whenDone_append_space]
      -- The words are looked for in the whole line, so a tag or the description may hold them too;
      -- that is what `hline` excludes.
      have hfrom : Token.whenDone.finds (t.rowLine style row) = r.fromDone := by
        cases hfrom : r.fromDone with
        | true => exact hrow.finds_whenDone_rowLine hr hfrom
        | false => exact hline r hr hfrom
      refine ⟨_, ?_, hrow.words_strip_row h hblank⟩
      rw [parseRecurrence_of_cut hcut, hcollapse, hfrom,
        if_neg (by simpa using hwritable.rule_ne_nil)]

/-- The line of a row is read as the task, with the line as its source. -/
theorem parse_rowLine {codec : Codec} (hrow : t.Arranges gap row) (h : t.Orderly codec.style)
    (hline : ∀ r, t.recurrence = some r → r.fromDone = false →
      Token.whenDone.finds (t.rowLine codec.style row) = false) :
    codec.parse (t.rowLine codec.style row) t.id t.provenance =
      some { t with sourceText := t.rowLine codec.style row } := by
  obtain ⟨rest, hrec, hrest⟩ := hrow.exists_parseRecurrence h hline
  have hdescription := parseDescription_of_words h.collapse_description h.description_ne_nil hrest
  rw [Codec.parse, hrow.ofLine?_rowLine h.toReadable, Option.map_some, Item.toTask, hrec]
  simp only [hdescription, hrow.parseDates_row h, hrow.tag_tokens_row h,
    hrow.dependency_tokens_row h, hrow.parsePriority_row h.toReadable, Status.ofMark_mark,
    distinct_eq_self (fun name hname => (h.tag name hname).1) h.tags_nodup,
    distinct_eq_self (fun name hname => (h.dependency name hname).1) h.dependencies_nodup]
  rfl

end Task.Arranges

end Rows

/-- **Any order.** In both tag styles, a line with the segments of an orderly task is read as a task
that says the same, in whatever order they stand: only the tags keep theirs, the dependencies keep
theirs, and the description is not directly behind the recurrence. -/
theorem exists_equivalent_of_arranges (codec : Codec) {t : Task} {gap : DateKind → Bool}
    {row : List Segment} (h : t.Orderly codec.style) (hrow : t.Arranges gap row)
    (hline : ∀ r, t.recurrence = some r → r.fromDone = false →
      Token.whenDone.finds (t.rowLine codec.style row) = false) :
    ∃ u, codec.parse (t.rowLine codec.style row) t.id t.provenance = some u ∧ u.Equivalent t :=
  ⟨_, hrow.parse_rowLine h hline, rfl⟩

/-- A task with segments of every sort. -/
def sweepHall : Task where
  id := "hall".toList
  description := "Sweep the hall".toList
  status := .done
  priority := .medium
  dates := { due := some Date.first.iso, done := some Date.first.iso }
  tags := ["home".toList]
  dependencies := ["broom".toList]
  recurrence := some ⟨"every week".toList, false⟩

/-- The task can be told apart in its line. -/
theorem orderly_sweepHall : sweepHall.Orderly .wrapped where
  indent := forall_mem_of_all (by decide)
  description_ne_nil := by decide
  collapse_description := by decide
  no_priority := forall_mem_of_all (by decide)
  date := by
    intro kind written h
    cases kind with
    | due => exact ⟨Date.first, (Option.some.inj h).symm⟩
    | done => exact ⟨Date.first, (Option.some.inj h).symm⟩
    | start => exact absurd h (Option.some_ne_none written).symm
    | scheduled => exact absurd h (Option.some_ne_none written).symm
    | cancelled => exact absurd h (Option.some_ne_none written).symm
  tags_nodup := by decide
  tag := by
    intro name hname
    rw [List.mem_singleton.mp hname]
    exact ⟨by decide, forall_mem_of_all (by decide +kernel)⟩
  dependencies_nodup := by decide
  dependency := by
    intro name hname
    rw [List.mem_singleton.mp hname]
    exact ⟨by decide, forall_mem_of_all (by decide +kernel)⟩
  recurrence := by
    rintro r h
    obtain rfl := Option.some.inj h
    exact ⟨by decide, by decide, forall_mem_of_all (by decide)⟩
  no_recurrence := by decide
  no_date := by decide
  no_tag := by decide
  no_dependency := by decide
  done_iff := by decide
  rule := by
    rintro r h
    obtain rfl := Option.some.inj h
    decide

/-- The segments of the task, last to first. -/
theorem exists_equivalent_sweepHall : sweepHall.Orderly .wrapped ∧
    sweepHall.Arranges (fun _ => true) (sweepHall.segments fun _ => true).reverse ∧
    ∃ u, Codec.parse ⟨.wrapped, Date.first⟩
      (sweepHall.rowLine .wrapped (sweepHall.segments fun _ => true).reverse) sweepHall.id
      sweepHall.provenance = some u ∧ u.Equivalent sweepHall := by
  have harranges : sweepHall.Arranges (fun _ => true)
      (sweepHall.segments fun _ => true).reverse :=
    ⟨List.reverse_perm _, rfl, rfl, by decide⟩
  have hline : ∀ r, sweepHall.recurrence = some r → r.fromDone = false →
      Token.whenDone.finds
        (sweepHall.rowLine .wrapped (sweepHall.segments fun _ => true).reverse) = false := by
    intro r _ _
    decide +kernel
  exact ⟨orderly_sweepHall, harranges,
    exists_equivalent_of_arranges ⟨.wrapped, Date.first⟩ orderly_sweepHall harranges hline⟩

end Checklist
