import Mathlib.Data.List.Forall2
import Checklist.Proofs.Directives
import Checklist.Proofs.Trimming
import Checklist.Query.Parts

/-!
# Row blocks — no word of a row is lost

In a row of words a directive takes words from the row behind it: one when it has no value yet, more
while a list ends in a comma, the direction of an order. Each of these steps takes words from the
start of the row and puts them into the value, with spaces at most between them (`Takes`), and such
steps follow one another (`Takes.trans`). So every part of a row is made of a block of words that
stand next to each other, and the blocks are the row (`partsOfWords_blocks`).
-/

namespace Checklist

open Text

namespace Text

/-- The text without its spaces. -/
def unspaced (s : Text) : Text := s.filter (· ≠ ' ')

@[simp] theorem unspaced_append (s t : Text) : unspaced (s ++ t) = unspaced s ++ unspaced t :=
  List.filter_append s t

@[simp] theorem unspaced_space_cons (s : Text) : unspaced (' ' :: s) = unspaced s :=
  List.filter_cons_of_neg (by decide)

/-- A text without blanks loses nothing with its spaces. -/
theorem unspaced_eq_self {s : Text} (h : ∀ c ∈ s, isBlank c = false) : unspaced s = s := by
  refine List.filter_eq_self.mpr fun c hc => ?_
  have hspace : c ≠ ' ' := by
    rintro rfl
    exact absurd (h ' ' hc) (by decide)
  simpa using hspace

end Text

/-! ## What a directive takes -/

/-- The words that are gone from the start of the row are in the value, which has nothing new
besides them but spaces. -/
def Takes (value : Text) (words : List Text) (taken : Text × List Text) : Prop :=
  ∃ more, words = more ++ taken.2 ∧ unspaced taken.1 = unspaced (value ++ more.flatten)

namespace Takes

variable {value : Text} {words : List Text}

/-- Nothing is taken. -/
theorem nothing (value : Text) (words : List Text) : Takes value words (value, words) :=
  ⟨[], rfl, by simp⟩

/-- One word is taken. -/
theorem word (value word : Text) (rest : List Text) :
    Takes value (word :: rest) (value ++ word, rest) :=
  ⟨[word], rfl, by simp⟩

theorem trans {taken : Text × List Text} {last : Text × List Text} (h : Takes value words taken)
    (h' : Takes taken.1 taken.2 last) : Takes value words last := by
  obtain ⟨more, hwords, hvalue⟩ := h
  obtain ⟨further, hrest, hlast⟩ := h'
  refine ⟨more ++ further, ?_, ?_⟩
  · rw [hwords, hrest, List.append_assoc]
  · rw [hlast, unspaced_append, hvalue, ← unspaced_append, List.append_assoc, List.flatten_append]

theorem suffix {taken : Text × List Text} (h : Takes value words taken) : taken.2 <:+ words := by
  obtain ⟨more, hwords, -⟩ := h
  exact ⟨more, hwords.symm⟩

end Takes

/-- A value that is missing is taken off the words behind the keyword. -/
theorem takes_fillValue (value : Text) (words : List Text) :
    Takes value words (fillValue value words) := by
  cases words with
  | nil => exact .nothing value []
  | cons word rest =>
      rw [fillValue]
      split
      · next h =>
          obtain rfl : value = [] := List.isEmpty_iff.mp h.1
          exact .word [] word rest
      · exact .nothing value (word :: rest)

/-- A list goes on as long as it ends with a comma. -/
theorem takes_extendList (value : Text) (words : List Text) :
    Takes value words (extendList value words) := by
  induction words generalizing value with
  | nil => exact .nothing value []
  | cons word rest ih =>
      rw [extendList]
      split
      · exact (Takes.word value word rest).trans (ih (value ++ word))
      · exact .nothing value (word :: rest)

/-- A field to sort by takes the direction behind it. -/
theorem takes_extendSort (value : Text) (words : List Text) :
    Takes value words (extendSort value words) := by
  cases words with
  | nil => exact .nothing value []
  | cons word rest =>
      rw [extendSort]
      split
      · exact ⟨[word], rfl, by simp⟩
      · exact .nothing value (word :: rest)

/-- A directive takes words from the start of the row, and all that it takes is in its value. -/
theorem takes_takeValue (k : Keyword) (value : Text) (words : List Text) :
    Takes value words (takeValue k value words) := by
  have hfill := takes_fillValue value words
  rw [takeValue]
  dsimp only
  split
  · exact hfill.trans (takes_extendList _ _)
  split
  · exact hfill.trans (takes_extendSort _ _)
  · exact hfill

/-! ## The blocks of a row -/

/-- The part is made of the block of words: it is the one word of the block, which no keyword opens,
or but for spaces it is what the words of the block are in a row, with the keyword in lower case. -/
inductive Makes : List Text → Text → Prop
  | word {w : Text} (h : ∀ (k : Keyword) rest, ¬ k.Opens w rest) : Makes [w] w
  | directive {k : Keyword} {w rest part : Text} {more : List Text} (h : k.Opens w rest)
      (hpart : unspaced part = k.start ++ rest ++ more.flatten) : Makes (w :: more) part

/-- What a directive makes of its word and of the words that it takes. -/
theorem Makes.of_takes {k : Keyword} {w rest whole : Text} {more : List Text} (h : k.Opens w rest)
    (hblank : ∀ c ∈ rest ++ more.flatten, isBlank c = false)
    (hwhole : unspaced whole = unspaced (rest ++ more.flatten)) :
    Makes (w :: more) (k.start ++ ' ' :: whole) := by
  have hstart : unspaced k.start = k.start :=
    unspaced_eq_self fun _ hc => (Keyword.isPlain_of_mem_start hc).2
  refine .directive h ?_
  rw [unspaced_append, unspaced_space_cons, hstart, hwhole, unspaced_eq_self hblank,
    List.append_assoc]

/-- **No word of a row is lost.** The parts of a row of words stand for blocks of words, one part
for each block, and the blocks one behind the other are the row. A word that is no directive is a
block and a part by itself; the part of a directive is, without its spaces, what the words of its
block are in a row, with nothing but the keyword changed to lower case. -/
theorem partsOfWords_blocks (words : List Text) (hwords : ∀ w ∈ words, ∀ c ∈ w, isBlank c = false) :
    ∃ blocks : List (List Text), blocks.flatten = words ∧ (∀ block ∈ blocks, block ≠ []) ∧
      List.Forall₂ Makes blocks (partsOfWords words) := by
  fun_induction partsOfWords words with
  | case1 => exact ⟨[], rfl, by simp, .nil⟩
  | case2 w rest hw ih =>
      obtain ⟨blocks, hflatten, hne, hmakes⟩ := ih fun v hv => hwords v (List.mem_cons_of_mem w hv)
      refine ⟨[w] :: blocks, ?_, List.forall_mem_cons.mpr ⟨List.cons_ne_nil w [], hne⟩, ?_⟩
      · rw [List.flatten_cons, hflatten, List.singleton_append]
      · exact .cons (.word (matchDirective_eq_none_iff_opens.mp hw)) hmakes
  | case3 w rest k value hw ih =>
      obtain ⟨hblank, hrest⟩ := List.forall_mem_cons.mp hwords
      obtain ⟨tail, hopens, rfl⟩ := matchDirective_eq_some_iff_opens.mp hw
      have htail : ∀ c ∈ tail, isBlank c = false := fun c hc => hblank c (hopens.mem hc)
      rw [trim_of_not_blank htail] at ih ⊢
      -- The value took the words `more`; with the keyword before them they are the block.
      obtain ⟨more, hmore, hwhole⟩ := takes_takeValue k tail rest
      obtain ⟨blocks, hflatten, hne, hmakes⟩ := ih fun v hv =>
        hrest v (hmore ▸ List.mem_append_right more hv)
      refine ⟨(w :: more) :: blocks, ?_,
        List.forall_mem_cons.mpr ⟨List.cons_ne_nil w more, hne⟩, ?_⟩
      · rw [List.flatten_cons, hflatten, List.cons_append, ← hmore]
      · refine .cons (.of_takes hopens ?_ hwhole) hmakes
        intro c hc
        rcases List.mem_append.mp hc with hc | hc
        · exact htail c hc
        · obtain ⟨v, hv, hc⟩ := List.mem_flatten.mp hc
          exact hrest v (hmore ▸ List.mem_append_left _ hv) c hc

/-- A list that goes on twice, an order with its direction, a directive that gets no value, and a
word to look for. -/
def variedRow : List Text :=
  ["TAG:a,".toList, "b,".toList, "c".toList, "sort:".toList, "due".toList, "Desc".toList,
    "limit:".toList, "status:x".toList, "milk".toList]

/-- The nine words of the row are in five parts. -/
theorem partsOfWords_blocks_variedRow :
    (∀ w ∈ variedRow, ∀ c ∈ w, isBlank c = false) ∧
    ∃ blocks : List (List Text), blocks.flatten = variedRow ∧ (∀ block ∈ blocks, block ≠ []) ∧
      List.Forall₂ Makes blocks ["tag: a,b,c".toList, "sort: due Desc".toList, "limit: ".toList,
        "status: x".toList, "milk".toList] := by
  have hwords : ∀ w ∈ variedRow, ∀ c ∈ w, isBlank c = false := by
    have hall : (variedRow.all fun w => w.all (!isBlank ·)) = true := by decide +kernel
    simpa only [List.all_eq_true, Bool.not_eq_true'] using hall
  have hparts : partsOfWords variedRow = ["tag: a,b,c".toList, "sort: due Desc".toList,
      "limit: ".toList, "status: x".toList, "milk".toList] := by decide +kernel
  refine ⟨hwords, ?_⟩
  rw [← hparts]
  exact partsOfWords_blocks variedRow hwords

end Checklist
