import Checklist.Proofs.Editing
import Checklist.Proofs.TrimmedLines

/-!
# Keyed lines — a query text as a store of directives

The value of a keyword stands on the first line that is a directive with it, and the editor reads it
there as the parser does (`get_eq_findSome?`). An edit does to the values of a query what it does to
the list of its lines (`get_set`): setting a keyword writes its value and no other (`get_set_self`,
`get_set_of_ne`), and taking it out leaves the value of the next line with that keyword, if there is
one (`get_set_none_eq_none_iff`). A query in which a keyword was set is cut into the very lines that
it was made of (`queryLines_set_some`), so of two values that are set the first leaves no trace
(`set_set`). Together these are the laws of a store (`get_set_laws`).
-/

namespace Checklist

open Text

namespace Editor

/-! ## The value on a line -/

section Values

variable {k l : Keyword} {line v : Text}

/-- The value on the line, if the line is a directive with the keyword. -/
def valueOn? (k : Keyword) (line : Text) : Option Text :=
  (matchDirective (trim line)).bind fun found => if found.1 = k then some found.2 else none

/-- A line has a value for a keyword when it is a directive with it. -/
theorem valueOn?_eq_some_iff :
    valueOn? k line = some v ↔ matchDirective (trim line) = some (k, v) := by
  rw [valueOn?, Option.bind_eq_some_iff]
  constructor
  · rintro ⟨⟨found, value⟩, hfound, hvalue⟩
    split at hvalue
    · next heq =>
        obtain rfl := Option.some.inj hvalue
        rw [hfound, ← heq]
    · exact absurd hvalue.symm (Option.some_ne_none v)
  · intro h
    exact ⟨(k, v), h, if_pos rfl⟩

/-- The blanks around a line do not count. -/
@[simp] theorem valueOn?_trim (k : Keyword) (line : Text) :
    valueOn? k (trim line) = valueOn? k line := by
  rw [valueOn?, trim_trim, valueOn?]

/-- A line has a value for the keyword when it carries it. -/
theorem carries_iff_exists_value : carries k.name line = true ↔ ∃ v, valueOn? k line = some v := by
  rw [carries_name_iff, keyOf, Option.map_eq_some_iff]
  constructor
  · rintro ⟨⟨found, value⟩, hfound, rfl⟩
    exact ⟨value, valueOn?_eq_some_iff.mpr hfound⟩
  · rintro ⟨value, hvalue⟩
    exact ⟨(k, value), valueOn?_eq_some_iff.mp hvalue, rfl⟩

/-- The lines without a value for a keyword are those that do not carry it. -/
theorem valueOn?_eq_none_iff : valueOn? k line = none ↔ carries k.name line = false := by
  rw [← Bool.not_eq_true, carries_iff_exists_value, Option.eq_none_iff_forall_ne_some, not_exists]

/-- A blank line carries no keyword. -/
theorem carries_of_blank (h : trim line = []) : carries k.name line = false := by
  rw [← valueOn?_eq_none_iff, valueOn?, h]
  have hnone : matchDirective [] = none := by decide
  rw [hnone]
  rfl

/-- A line that carries one keyword carries no other. -/
theorem valueOn?_of_carries (h : carries k.name line = true) (hne : l ≠ k) :
    valueOn? l line = none := by
  rw [valueOn?_eq_none_iff, ← Bool.not_eq_true]
  intro hl
  rw [carries_name_iff] at h hl
  exact hne (Option.some.inj (hl.symm.trans h))

/-- A colon is the lowercase form of nothing else. -/
theorem eq_colon_of_toLower {c : Char} (h : c.toLower = ':') : c = ':' := by
  have hascii : c.toNat < 128 := ascii_of_isPlain_toLower (by rw [h]; decide)
  have hall : ∀ n ∈ List.range 128, (Char.ofNat n).toLower = ':' → Char.ofNat n = ':' := by
    decide +kernel
  exact of_ascii (P := fun c => c.toLower = ':' → c = ':') hall hascii h

/-- Behind the first colon of the line stands the value that the parser reads. -/
theorem trim_cut_of_valueOn? (h : valueOn? k line = some v) :
    trim ((cutAt? ':' line).elim [] Prod.snd) = v := by
  obtain ⟨p, rest, hp, hlower, rfl⟩ := matchDirective_eq_some_iff.mp (valueOn?_eq_some_iff.mp h)
  obtain ⟨b, b', hb, hb', hline⟩ := exists_trim_eq line
  obtain ⟨name, colon, rfl, hname, hcolon⟩ := List.map_eq_append_iff.mp hlower
  obtain ⟨c, rfl, hc⟩ := List.map_eq_singleton_iff.mp hcolon
  obtain rfl := eq_colon_of_toLower hc
  -- No colon stands in the blanks or in the keyword before the one that was read.
  have hfirst : ':' ∉ b ++ name := by
    rw [List.mem_append, not_or]
    constructor
    · intro hmem
      exact absurd (hb ':' hmem) (by decide)
    · intro hmem
      have hmem' : ':' ∈ k.name := by
        rw [← hname]
        exact List.mem_map.mpr ⟨':', hmem, by decide⟩
      exact absurd hmem' (by cases k <;> decide)
  have hcut : cutAt? ':' line = some (b ++ name, rest ++ b') := by
    refine cutAt?_eq_some_iff.mpr ⟨?_, hfirst⟩
    rw [hline, hp]
    simp only [List.append_assoc, List.cons_append, List.nil_append]
  rw [hcut]
  exact trim_append_of_blank hb' rest

/-- The value of a keyword is that of the first line that has one for it. -/
theorem get_eq_findSome? (q : Text) (k : Keyword) :
    get q k.name = (queryLines q).findSome? (valueOn? k) := by
  rw [get]
  induction queryLines q with
  | nil => rfl
  | cons line lines ih =>
      cases hline : carries k.name line with
      | true =>
          obtain ⟨v, hv⟩ := carries_iff_exists_value.mp hline
          rw [List.find?_cons_of_pos hline, List.findSome?_cons_of_isSome (by simp [hv]), hv,
            Option.map_some, trim_cut_of_valueOn? hv]
      | false =>
          have hnone := valueOn?_eq_none_iff.mpr hline
          rw [List.find?_cons_of_neg (by simp [hline]), ih,
            List.findSome?_cons_of_isNone (by simp [hnone])]

/-- Trimming lines takes no value away. -/
theorem findSome?_trimmedLines (k : Keyword) (ls : List Text) :
    (trimmedLines ls).findSome? (valueOn? k) = ls.findSome? (valueOn? k) := by
  induction ls with
  | nil => rfl
  | cons l ls ih =>
      by_cases hl : trim l = []
      · have hnone := valueOn?_eq_none_iff.mpr (carries_of_blank (k := k) hl)
        rw [trimmedLines_cons_of_blank hl, List.findSome?_cons, hnone, ih]
      · rw [trimmedLines_cons_of_filled hl, List.findSome?_cons, List.findSome?_cons, valueOn?_trim,
          ih]

/-- Trimming lines takes no keyword away. -/
theorem countP_trimmedLines (k : Keyword) (ls : List Text) :
    (trimmedLines ls).countP (carries k.name) = ls.countP (carries k.name) := by
  have htrim (l : Text) : carries k.name (trim l) = carries k.name l := by
    rw [carries, carries, trim_trim]
  induction ls with
  | nil => rfl
  | cons l ls ih =>
      by_cases hl : trim l = []
      · rw [trimmedLines_cons_of_blank hl, List.countP_cons, carries_of_blank hl, ih]
        rfl
      · rw [trimmedLines_cons_of_filled hl, List.countP_cons, List.countP_cons, htrim, ih]

end Values

/-! ## Replacing a line -/

section Replacing

variable {key new : Text} {k l : Keyword} {ls : List Text}

/-- Replacing a line adds none but the new one. -/
theorem mem_replaceFirst {line : Text} {new : Option Text} (h : line ∈ replaceFirst key new ls) :
    line ∈ new ∨ line ∈ ls := by
  induction ls with
  | nil => exact .inl (Option.mem_toList.mp h)
  | cons first ls ih =>
      rw [replaceFirst] at h
      split at h
      · rcases List.mem_append.mp h with h | h
        · exact .inl (Option.mem_toList.mp h)
        · exact .inr (List.mem_cons_of_mem first h)
      · rcases List.mem_cons.mp h with rfl | h
        · exact .inr List.mem_cons_self
        · exact (ih h).imp_right (List.mem_cons_of_mem first)

/-- The other keywords keep their first lines. -/
theorem findSome?_replaceFirst_of_ne (hne : l ≠ k) {new : Option Text}
    (hnew : ∀ line ∈ new, carries k.name line = true) (ls : List Text) :
    (replaceFirst k.name new ls).findSome? (valueOn? l) = ls.findSome? (valueOn? l) := by
  have hown : new.toList.findSome? (valueOn? l) = none :=
    List.findSome?_eq_none_iff.mpr fun line hline =>
      valueOn?_of_carries (hnew line (Option.mem_toList.mp hline)) hne
  induction ls with
  | nil => exact hown
  | cons line ls ih =>
      rw [replaceFirst]
      split
      · next hline =>
          rw [List.findSome?_append, hown, Option.none_or, List.findSome?_cons,
            valueOn?_of_carries hline hne]
      · rw [List.findSome?_cons, List.findSome?_cons, ih]

/-- The keyword has the value of its new line. -/
theorem findSome?_replaceFirst_self {v : Text} (hnew : valueOn? k new = some v) (ls : List Text) :
    (replaceFirst k.name (some new) ls).findSome? (valueOn? k) = some v := by
  induction ls with
  | nil =>
      show [new].findSome? (valueOn? k) = some v
      rw [List.findSome?_cons, hnew]
  | cons line ls ih =>
      rw [replaceFirst]
      split
      · rw [Option.toList_some, List.singleton_append, List.findSome?_cons, hnew]
      · next hline =>
          rw [List.findSome?_cons, valueOn?_eq_none_iff.mpr (by simpa using hline), ih]

/-- Taking the first line out leaves one line less with the key. -/
theorem countP_replaceFirst_none (key : Text) (ls : List Text) :
    (replaceFirst key none ls).countP (carries key) = ls.countP (carries key) - 1 := by
  induction ls with
  | nil => rfl
  | cons line ls ih =>
      rw [replaceFirst]
      split
      · next hline =>
          rw [Option.toList_none, List.nil_append, List.countP_cons_of_pos hline,
            Nat.add_sub_cancel]
      · next hline =>
          rw [List.countP_cons_of_neg hline, List.countP_cons_of_neg hline, ih]

/-- Writing a line makes one line with the key where there was none. -/
theorem countP_replaceFirst_some (hnew : carries key new = true) (ls : List Text) :
    (replaceFirst key (some new) ls).countP (carries key) = max 1 (ls.countP (carries key)) := by
  induction ls with
  | nil =>
      show [new].countP (carries key) = 1
      rw [List.countP_cons_of_pos hnew, List.countP_nil]
  | cons line ls ih =>
      rw [replaceFirst]
      split
      · next hline =>
          rw [Option.toList_some, List.singleton_append, List.countP_cons_of_pos hnew,
            List.countP_cons_of_pos hline]
          omega
      · next hline =>
          rw [List.countP_cons_of_neg hline, List.countP_cons_of_neg hline, ih]

/-- Of two lines that are written one after the other the second stays. -/
theorem replaceFirst_replaceFirst (hnew : carries key new = true) (later : Text) (ls : List Text) :
    replaceFirst key (some later) (replaceFirst key (some new) ls) =
      replaceFirst key (some later) ls := by
  induction ls with
  | nil =>
      show replaceFirst key (some later) [new] = [later]
      rw [replaceFirst, if_pos hnew]
      rfl
  | cons line ls ih =>
      by_cases hline : carries key line = true
      · rw [replaceFirst, if_pos hline, Option.toList_some, List.singleton_append, replaceFirst,
          if_pos hnew, replaceFirst, if_pos hline]
      · rw [replaceFirst, if_neg hline, replaceFirst, if_neg hline, ih, replaceFirst, if_neg hline]

/-- Blank lines can be left out before or after a line is written. -/
theorem filter_replaceFirst (hnew : isFilled new = true) (ls : List Text) :
    (replaceFirst k.name (some new) ls).filter isFilled =
      replaceFirst k.name (some new) (ls.filter isFilled) := by
  induction ls with
  | nil =>
      show [new].filter isFilled = [new]
      rw [List.filter_cons_of_pos hnew, List.filter_nil]
  | cons line ls ih =>
      -- A line with the keyword is not blank, so it is there in both lists.
      by_cases hline : carries k.name line = true
      · have hfilled : isFilled line = true := by
          rw [isFilled_iff]
          intro hblank
          rw [carries_of_blank hblank] at hline
          exact Bool.noConfusion hline
        rw [replaceFirst, if_pos hline, List.filter_cons_of_pos hfilled, replaceFirst, if_pos hline,
          Option.toList_some, List.singleton_append, List.singleton_append,
          List.filter_cons_of_pos hnew]
      · rw [replaceFirst, if_neg hline]
        by_cases hfilled : isFilled line = true
        · rw [List.filter_cons_of_pos hfilled, List.filter_cons_of_pos hfilled, replaceFirst,
            if_neg hline, ih]
        · rw [List.filter_cons_of_neg hfilled, List.filter_cons_of_neg hfilled, ih]

/-- The first line is the new one, or it is the one that was first. -/
theorem head?_replaceFirst (key new : Text) (ls : List Text) :
    (replaceFirst key (some new) ls).head? = some new ∨
      (replaceFirst key (some new) ls).head? = ls.head? := by
  cases ls with
  | nil => exact .inl rfl
  | cons line ls =>
      rw [replaceFirst]
      split
      · exact .inl rfl
      · exact .inr rfl

/-- The last line is the new one, or it is the one that was last. -/
theorem getLast?_replaceFirst (key new : Text) (ls : List Text) :
    (replaceFirst key (some new) ls).getLast? = some new ∨
      (replaceFirst key (some new) ls).getLast? = ls.getLast? := by
  induction ls with
  | nil => exact .inl rfl
  | cons line ls ih =>
      rw [replaceFirst]
      split
      · cases ls with
        | nil => exact .inl rfl
        | cons next ls =>
            right
            rw [Option.toList_some, List.singleton_append, List.getLast?_cons_cons,
              List.getLast?_cons_cons]
      · rw [List.getLast?_cons, List.getLast?_cons]
        rcases ih with h | h
        · left
          rw [h, Option.getD_some]
        · right
          rw [h]

/-- With a new line there is one. -/
theorem replaceFirst_some_ne_nil (key new : Text) (ls : List Text) :
    replaceFirst key (some new) ls ≠ [] := by
  cases ls with
  | nil => exact List.cons_ne_nil new []
  | cons line ls =>
      rw [replaceFirst]
      split <;> exact List.cons_ne_nil _ _

/-- Flush lines stay flush with a flush line written among them. -/
theorem Flush.replaceFirst (h : Flush ls) (hnew : Flush [new]) (key : Text) :
    Flush (replaceFirst key (some new) ls) where
  head := by
    rcases head?_replaceFirst key new ls with heq | heq
    · rw [heq]
      exact hnew.head
    · rw [heq]
      exact h.head
  last := by
    rcases getLast?_replaceFirst key new ls with heq | heq
    · rw [heq]
      exact hnew.last
    · rw [heq]
      exact h.last

end Replacing

/-! ## Setting a keyword -/

section Setting

variable {q v : Text} {k l : Keyword}

/-- A directive is a line when its value is one. -/
theorem isLine_directiveLine (hv : IsLine v) : IsLine (directiveLine k v) := by
  intro c hc
  rcases mem_directiveLine hc with hc | rfl | hc
  · obtain ⟨hplain, hblank⟩ := Keyword.isPlain_of_mem_start hc
    refine ⟨isInvisible_of_ascii (isPlain_ascii hplain), ?_⟩
    rintro rfl
    exact absurd hblank (by decide)
  · decide
  · exact hv c hc

/-- The line of a directive has the value it was made for. -/
theorem valueOn?_directiveLine (hv : trim v ≠ []) :
    valueOn? k (directiveLine k (trim v)) = some (trim v) := by
  rw [valueOn?_eq_some_iff, trim_directiveLine (trim_trim v) hv]
  exact matchDirective_directiveLine (trim_trim v)

/-- So it carries its keyword. -/
theorem carries_directiveLine (hv : trim v ≠ []) :
    carries k.name (directiveLine k (trim v)) = true :=
  carries_iff_exists_value.mpr ⟨trim v, valueOn?_directiveLine hv⟩

/-- And it is not blank. -/
theorem isFilled_directiveLine (hv : trim v ≠ []) : isFilled (directiveLine k (trim v)) = true := by
  rw [isFilled_iff]
  intro hblank
  have hcarries := carries_directiveLine (k := k) hv
  rw [carries_of_blank hblank] at hcarries
  exact Bool.noConfusion hcarries

/-- A value that is missing or blank has no line. -/
theorem directiveLine?_cases (k : Keyword) (value : Option Text) :
    directiveLine? k.name value = none ∨
      ∃ v ∈ value, trim v ≠ [] ∧ directiveLine? k.name value = some (directiveLine k (trim v)) := by
  cases value with
  | none => exact .inl rfl
  | some v =>
      by_cases hv : trim v = []
      · exact .inl (by simp [directiveLine?, hv])
      · exact .inr ⟨v, rfl, hv, directiveLine?_some hv⟩

/-- A directive that may be left out is a line, too. -/
theorem isLine_of_mem_directiveLine? {value : Option Text} (h : ∀ v ∈ value, IsLine v) :
    ∀ line ∈ directiveLine? k.name value, IsLine line := by
  intro line hline
  rcases directiveLine?_cases k value with hnone | ⟨v, hv, -, hsome⟩
  · rw [hnone] at hline
    exact nomatch hline
  · rw [hsome] at hline
    obtain rfl := Option.some.inj hline
    exact isLine_directiveLine (isLine_trim (h v hv))

/-- And it carries its keyword, when it is not left out. -/
theorem carries_of_mem_directiveLine? {value : Option Text} :
    ∀ line ∈ directiveLine? k.name value, carries k.name line = true := by
  intro line hline
  rcases directiveLine?_cases k value with hnone | ⟨v, -, hfilled, hsome⟩
  · rw [hnone] at hline
    exact nomatch hline
  · rw [hsome] at hline
    obtain rfl := Option.some.inj hline
    exact carries_directiveLine hfilled

/-- The lines of the edited query are the lines of the query with one replaced. -/
theorem trimmedLines_set {value : Option Text} (h : ∀ v ∈ value, IsLine v) (q : Text)
    (k : Keyword) : trimmedLines (queryLines (Editor.set q k.name value)) =
      trimmedLines (replaceFirst k.name (directiveLine? k.name value) (queryLines q)) := by
  refine trimmedLines_ofLines fun line hline => ?_
  rcases mem_replaceFirst hline with hline | hline
  · exact isLine_of_mem_directiveLine? h line hline
  · exact isLine_of_mem_queryLines hline

/-- What the edited query says is what its lines say. -/
theorem get_set {value : Option Text} (h : ∀ v ∈ value, IsLine v) (q : Text) (k l : Keyword) :
    get (Editor.set q k.name value) l.name =
      (replaceFirst k.name (directiveLine? k.name value) (queryLines q)).findSome?
        (valueOn? l) := by
  rw [get_eq_findSome?, ← findSome?_trimmedLines, trimmedLines_set h, findSome?_trimmedLines]

/-- The value that is set can be read. -/
theorem get_set_self (q : Text) (k : Keyword) (hfilled : trim v ≠ []) (hline : IsLine v) :
    get (Editor.set q k.name (some v)) k.name = some (trim v) := by
  rw [get_set (by simpa using hline), directiveLine?_some hfilled]
  exact findSome?_replaceFirst_self (valueOn?_directiveLine hfilled) (queryLines q)

/-- The values of the other keywords are not touched. -/
theorem get_set_of_ne (q : Text) (hne : l ≠ k) {value : Option Text} (h : ∀ v ∈ value, IsLine v) :
    get (Editor.set q k.name value) l.name = get q l.name := by
  rw [get_set h, findSome?_replaceFirst_of_ne hne carries_of_mem_directiveLine?, get_eq_findSome?]

/-- How many lines carry the keyword when it is set, or taken out. -/
theorem countP_queryLines_set {value : Option Text} (h : ∀ v ∈ value, IsLine v) (q : Text)
    (k : Keyword) : (queryLines (Editor.set q k.name value)).countP (carries k.name) =
      (replaceFirst k.name (directiveLine? k.name value) (queryLines q)).countP
        (carries k.name) := by
  rw [← countP_trimmedLines, trimmedLines_set h, countP_trimmedLines]

/-- A keyword has no value in a query when no line carries it. -/
theorem get_eq_none_iff (q : Text) (k : Keyword) :
    get q k.name = none ↔ (queryLines q).countP (carries k.name) = 0 := by
  rw [get_eq_findSome?, List.findSome?_eq_none_iff, List.countP_eq_zero]
  refine forall₂_congr fun line _ => ?_
  rw [valueOn?_eq_none_iff, Bool.not_eq_true]

/-- A keyword that is taken out has no value left exactly when no other line carries it. -/
theorem get_set_none_eq_none_iff (q : Text) (k : Keyword) :
    get (Editor.set q k.name none) k.name = none ↔ (queryLines q).countP (carries k.name) ≤ 1 := by
  have hnone : directiveLine? k.name none = none := rfl
  rw [get_eq_none_iff, countP_queryLines_set (by simp), hnone, countP_replaceFirst_none]
  omega

/-- A query in which a keyword was set has the lines that it was made of. -/
theorem queryLines_set_some (q : Text) (k : Keyword) (hfilled : trim v ≠ []) (hline : IsLine v) :
    queryLines (Editor.set q k.name (some v)) =
      replaceFirst k.name (some (directiveLine k (trim v))) ((queryLines q).filter isFilled) := by
  have hnew := isFilled_directiveLine (k := k) hfilled
  have hflush : Flush [directiveLine k (trim v)] :=
    flush_singleton (trim_directiveLine (trim_trim v) hfilled)
  have hlines : ∀ line ∈ replaceFirst k.name (some (directiveLine k (trim v))) (queryLines q),
      IsLine line := by
    intro line hmem
    rcases mem_replaceFirst hmem with hmem | hmem
    · obtain rfl := Option.some.inj hmem
      exact isLine_directiveLine (isLine_trim hline)
    · exact isLine_of_mem_queryLines hmem
  rw [Editor.set, directiveLine?_some hfilled, queryLines_ofLines hlines, filter_replaceFirst hnew]
  · rw [filter_replaceFirst hnew]
    exact (flush_queryLines q).replaceFirst hflush k.name
  · rw [filter_replaceFirst hnew]
    exact replaceFirst_some_ne_nil _ _ _

/-- Of two values that are set one after the other the second counts. -/
theorem set_set (q : Text) (k : Keyword) {w : Text} (hw : trim w ≠ []) (hw' : IsLine w)
    (hv : trim v ≠ []) :
    Editor.set (Editor.set q k.name (some w)) k.name (some v) = Editor.set q k.name (some v) := by
  rw [Editor.set, directiveLine?_some hv, queryLines_set_some q k hw hw',
    replaceFirst_replaceFirst (carries_directiveLine hw), Editor.set, directiveLine?_some hv,
    ← filter_replaceFirst (isFilled_directiveLine hv), ofLines_filter]

/-- A query text is a store of directives. A value that is set is read again, the values and lists
of the other keywords stay as they are when a keyword is set or taken out, the last of two values
counts, and a keyword that is taken out is gone exactly when no second line carried it. -/
theorem get_set_laws {q v : Text} {k l : Keyword} (hne : l ≠ k) (hfilled : trim v ≠ [])
    (hline : IsLine v) :
    get (Editor.set q k.name (some v)) k.name = some (trim v) ∧
      (get (Editor.set q k.name (some v)) l.name = get q l.name ∧
        get (Editor.set q k.name none) l.name = get q l.name) ∧
      (getList (Editor.set q k.name (some v)) l.name = getList q l.name ∧
        getList (Editor.set q k.name none) l.name = getList q l.name) ∧
      (∀ w, trim w ≠ [] → IsLine w →
        Editor.set (Editor.set q k.name (some w)) k.name (some v) =
          Editor.set q k.name (some v)) ∧
      (get (Editor.set q k.name none) k.name = none ↔
        (queryLines q).countP (carries k.name) ≤ 1) := by
  have hset : get (Editor.set q k.name (some v)) l.name = get q l.name :=
    get_set_of_ne q hne (by simpa using hline)
  have hunset : get (Editor.set q k.name none) l.name = get q l.name :=
    get_set_of_ne q hne (by simp)
  refine ⟨get_set_self q k hfilled hline, ⟨hset, hunset⟩, ⟨?_, ?_⟩, ?_,
    get_set_none_eq_none_iff q k⟩
  · rw [getList, hset, getList]
  · rw [getList, hunset, getList]
  · intro w hw hw'
    exact set_set q k hw hw' hfilled

/-- A query in which two lines carry a keyword, with blank lines and an invisible character. -/
def twoTags : Text := "tasks\n  TAG : x\n TAG: work\n\nmi\u200blk\ntag: home\nDUE: today ".toList

/-- Setting the keyword changes the first of the lines, and taking it out uncovers the second. -/
theorem get_set_laws_twoTags :
    trim " a, b ".toList ≠ [] ∧ IsLine " a, b ".toList ∧
      get (Editor.set twoTags "tag".toList (some " a, b ".toList)) "tag".toList =
        some "a, b".toList ∧
      get (Editor.set twoTags "tag".toList (some " a, b ".toList)) "due".toList =
        some "today".toList ∧
      get (Editor.set twoTags "tag".toList none) "tag".toList ≠ none := by
  have hfilled : trim " a, b ".toList ≠ [] := by decide
  have hline : IsLine " a, b ".toList := forall_mem_of_all (by decide)
  obtain ⟨hself, ⟨hother, -⟩, -, -, hnone⟩ :=
    get_set_laws (q := twoTags) (k := .tag) (l := .due) (by decide) hfilled hline
  have hdue : get twoTags Keyword.due.name = some "today".toList := by decide +kernel
  have htwo : ¬ (queryLines twoTags).countP (carries Keyword.tag.name) ≤ 1 := by decide +kernel
  exact ⟨hfilled, hline, hself, hother.trans hdue, fun h => htwo (hnone.mp h)⟩

end Setting

end Editor

end Checklist
