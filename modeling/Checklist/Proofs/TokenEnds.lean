import Checklist.Proofs.Tokens
import Checklist.Proofs.Trimming

/-!
# Token ends — what a token owes to the text around it

Each scanner of a content has a rule that says when it finds a token (`date_eq_some_iff` and the
others): its sign, its datum, and where the text goes on behind it. From the rules follows that the
scanners are `Firm`: a token is found again when another text stands behind it, as long as that
begins like the old one or with a space. So a token is `Closed`: a space and anything at all may
stand behind it (`closed_of_token`), and a row of closed texts is scanned text by text
(`pieces_joinWith`).
-/

namespace Checklist

open Text Scanner

namespace Text

/-- A stretch ends before a character of another class. -/
theorem span_append_of_head {p : Char → Bool} {w rest : Text} (hw : ∀ c ∈ w, p c = true)
    (hrest : ∀ c, rest.head? = some c → p c = false) :
    (w ++ rest).takeWhile p = w ∧ (w ++ rest).dropWhile p = rest := by
  rw [List.takeWhile_append_of_pos hw, List.dropWhile_append_of_pos hw]
  cases rest with
  | nil => simp
  | cons c rest => simp [hrest c rfl]

/-- What is left behind a stretch does not go on with it. -/
theorem head_dropWhile {p : Char → Bool} {s : Text} {c : Char}
    (h : (s.dropWhile p).head? = some c) : p c = false := by
  have hne : s.dropWhile p ≠ [] := by
    rintro hnil
    rw [hnil] at h
    exact absurd h (by simp)
  rw [List.head?_eq_some_head hne] at h
  rw [← Option.some.inj h]
  exact List.head_dropWhile_not p hne

/-- Whether a text begins like another one, or with a space. -/
def Continues (rest rest' : Text) : Prop := rest'.head? = rest.head? ∨ rest'.head? = some ' '

/-- A class without the space ends before both texts if it ends before one. -/
theorem Continues.head {rest rest' : Text} (h : Continues rest rest') {p : Char → Bool}
    (hspace : p ' ' = false) (hrest : ∀ c, rest.head? = some c → p c = false) :
    ∀ c, rest'.head? = some c → p c = false := by
  intro c hc
  rcases h with h | h
  · exact hrest c (h ▸ hc)
  · obtain rfl := Option.some.inj (h.symm.trans hc)
    exact hspace

end Text

namespace Scanner

variable {α : Type} {scan : Scanner α}

/-- A token is found again behind another blank and before a text that goes on like the old one. -/
def Firm (scan : Scanner α) : Prop :=
  ∀ {before before' : Option Char} {c : Char} {w rest rest' : Text} {value : α},
    scan before (c :: (w ++ rest)) = some (value, rest) →
    (before.all isBlank = true → before'.all isBlank = true) → Continues rest rest' →
    scan before' (c :: (w ++ rest')) = some (value, rest')

/-- A text that keeps its tokens, whatever stands behind a space after it. -/
def Closed (scan : Scanner α) (s : Text) : Prop :=
  ∀ t, scan.pieces (s ++ ' ' :: t) = scan.pieces s ++ .plain ' ' :: scan.pieces t

/-- A text without a sign at which a token could begin is closed. -/
theorem closed_of_unsigned (hl : scan.Lawful) {sign : Char → Bool} (hs : scan.StartsWith sign)
    {s : Text} (h : ∀ c ∈ s, sign c = false) : scan.Closed s := by
  intro t
  rw [pieces_unsigned_space hl hs h, pieces_of_unsigned hs h]

/-- A text that is read as one token is one token for the scanner. -/
theorem eq_some_of_pieces (hl : scan.Lawful) {s : Text} {value : α}
    (h : scan.pieces s = [.token value]) :
    ∃ c w, s = c :: w ∧ scan none (c :: w) = some (value, []) := by
  cases s with
  | nil => exact absurd h (by simp [pieces, piecesFrom])
  | cons c s =>
      refine ⟨c, s, rfl, ?_⟩
      cases hscan : scan none (c :: s) with
      | none =>
          rw [pieces, piecesFrom_of_none hscan] at h
          exact absurd (List.cons.inj h).1 (by simp)
      | some found =>
          obtain ⟨value', rest⟩ := found
          obtain ⟨d, w, heq, -⟩ := hl.consumes hscan
          rw [heq] at hscan
          rw [heq, pieces, piecesFrom_of_some hscan] at h
          obtain ⟨hvalue, hrest⟩ := List.cons.inj h
          -- Nothing is left behind the token, or it would be in a piece of its own.
          have hnil : rest = [] := by
            cases rest with
            | nil => rfl
            | cons e rest =>
                rw [piecesFrom] at hrest
                split at hrest <;> exact absurd hrest (List.cons_ne_nil _ _)
          rw [hnil, (Piece.token.inj hvalue)]

/-- A token is found as a whole, or it is not. -/
theorem closed_of_token (hl : scan.Lawful) (hf : scan.Firm) {s : Text} {value : α}
    (h : scan.pieces s = [.token value]) : scan.Closed s := by
  intro t
  obtain ⟨c, w, rfl, hscan⟩ := eq_some_of_pieces hl h
  rw [← List.append_nil w] at hscan
  have hfound : scan none (c :: (w ++ ' ' :: t)) = some (value, ' ' :: t) := hf hscan id (.inr rfl)
  rw [h, pieces, List.cons_append, ← List.cons_append, piecesFrom_of_some hfound,
    piecesFrom_of_none (hl.blank isBlank_space), piecesFrom_space hl]
  rfl

/-- A row of texts is scanned text by text when each of them is closed or has none but signed texts
behind it. -/
theorem pieces_joinWith (hs : scan.Separable) {s : Text} {texts : List Text}
    (h : (s :: texts).Pairwise fun s u => scan.Closed s ∨ Signed u) :
    scan.pieces (joinWith [' '] (s :: texts)) =
      scan.pieces s ++ texts.flatMap fun u => .plain ' ' :: scan.pieces u := by
  induction texts generalizing s with
  | nil => simp [joinWith]
  | cons u texts ih =>
      obtain ⟨hhead, htail⟩ := List.pairwise_cons.mp h
      rw [joinWith_space_cons]
      by_cases hclosed : scan.Closed s
      · rw [spaced_cons, hclosed, ← joinWith_space_cons, ih htail]
        rfl
      · exact pieces_append_spaced hs s fun part hpart => (hhead part hpart).resolve_left hclosed

/-- The tokens of joined texts are those of each in turn, when of any two the first is closed or the
second signed. -/
theorem tokens_joinWith (hs : scan.Separable) {texts : List Text}
    (h : texts.Pairwise fun s u => scan.Closed s ∨ Signed u) :
    scan.tokens (joinWith [' '] texts) = texts.flatMap scan.tokens := by
  cases texts with
  | nil => rfl
  | cons s texts =>
      rw [tokens_eq_filterMap, pieces_joinWith hs h, List.filterMap_append, List.filterMap_flatMap,
        List.flatMap_cons]
      refine congrArg₂ (· ++ ·) (tokens_eq_filterMap s).symm (List.flatMap_congr fun u _ => ?_)
      rw [tokens_eq_filterMap]
      rfl

/-- Then tokens are also taken out of each text by itself. -/
theorem blankOut_joinWith (hs : scan.Separable) {texts : List Text}
    (h : texts.Pairwise fun s u => scan.Closed s ∨ Signed u) :
    scan.blankOut (joinWith [' '] texts) = joinWith [' '] (texts.map scan.blankOut) := by
  cases texts with
  | nil => rfl
  | cons s texts =>
      rw [blankOut_eq_map, pieces_joinWith hs h, List.map_cons, joinWith_space_cons,
        List.map_append, List.map_flatMap, spaced, List.flatMap_map]
      refine congrArg₂ (· ++ ·) (blankOut_eq_map s).symm (List.flatMap_congr fun u _ => ?_)
      rw [blankOut_eq_map]
      rfl

end Scanner

namespace Token

/-! ## The gap between a sign and its datum -/

/-- A blank ends no rule. -/
theorem endsRule_of_isBlank {c : Char} (h : isBlank c = true) : endsRule c = false := by
  cases hc : endsRule c with
  | false => rfl
  | true => simp [isBlank_of_endsRule hc] at h

/-- A gap holds no sign. -/
theorem exists_gap_eq (s : Text) : ∃ gap, s = gap ++ skipGap s ∧ ∀ c ∈ gap, endsRule c = false := by
  have hblank : ∀ t : Text, ∀ c ∈ t.takeWhile isBlank, endsRule c = false := fun t c hc =>
    endsRule_of_isBlank (List.mem_takeWhile_imp hc)
  cases s with
  | nil => exact ⟨[], rfl, by simp⟩
  | cons c s =>
      rw [skipGap, skipSelector]
      split
      · next hc =>
          refine ⟨c :: s.takeWhile isBlank, ?_, ?_⟩
          · rw [trimStart, List.cons_append, List.takeWhile_append_dropWhile]
          · rw [hc]
            exact List.forall_mem_cons.mpr ⟨by decide, hblank s⟩
      · exact ⟨(c :: s).takeWhile isBlank, List.takeWhile_append_dropWhile.symm, hblank _⟩

/-- A gap that ends in a text ends there whatever is behind it. -/
theorem skipGap_append (s t : Text) (h : skipGap s ≠ []) : skipGap (s ++ t) = skipGap s ++ t := by
  cases s with
  | nil => exact absurd rfl h
  | cons c s =>
      rw [List.cons_append]
      rw [skipGap, skipSelector] at h ⊢
      rw [skipGap, skipSelector]
      split
      · next hc =>
          rw [if_pos hc] at h
          rw [trimStart_append, if_neg h]
      · next hc =>
          rw [if_neg hc] at h
          rw [← List.cons_append, trimStart_append, if_neg h]

/-- A gap that fills a text goes on behind it. -/
theorem length_skipGap_append_le (s t : Text) (h : skipGap s = []) :
    (skipGap (s ++ t)).length ≤ t.length := by
  have htrim : ∀ u : Text, (trimStart u).length ≤ u.length := length_dropWhile_le isBlank
  cases s with
  | nil =>
      obtain ⟨gap, hgap, -⟩ := exists_gap_eq t
      have := congrArg List.length hgap
      rw [List.length_append] at this
      rw [List.nil_append]
      omega
  | cons c s =>
      rw [List.cons_append]
      rw [skipGap, skipSelector] at h ⊢
      -- The gap is a selector and blanks, or blanks alone.
      split
      · next hc =>
          rw [if_pos hc] at h
          rw [trimStart_append, if_pos h]
          exact htrim t
      · next hc =>
          rw [if_neg hc] at h
          rw [← List.cons_append, trimStart_append, if_pos h]
          exact htrim t

/-- A datum that begins before `rest` is reached behind the gap, whatever stands in its place. -/
theorem skipGap_append_congr {w datum rest : Text} (hne : datum ≠ [])
    (h : skipGap (w ++ rest) = datum ++ rest) (rest' : Text) :
    skipGap (w ++ rest') = datum ++ rest' := by
  by_cases hgap : skipGap w = []
  · -- the gap would run into the rest, and the datum would be part of it
    have hle := length_skipGap_append_le w rest hgap
    have hpos := List.length_pos_iff.mpr hne
    rw [h, List.length_append] at hle
    omega
  · rw [skipGap_append w rest hgap] at h
    rw [skipGap_append w rest' hgap, List.append_cancel_right h]

/-! ## When a token is found -/

/-- A priority is a sign, with the selector behind it if there is one. -/
theorem priority_eq_some_iff {before : Option Char} {c : Char} {s rest : Text} :
    priority before (c :: s) = some ((), rest) ↔
      isPriorityMarker c = true ∧ skipSelector s = rest := by
  rw [priority]
  split
  · next hc => simp [hc]
  · next hc => simp [hc]

/-- A date is a sign and, behind a gap, ten characters in the shape of a date. -/
theorem date_eq_some_iff {before : Option Char} {c : Char} {s rest written : Text}
    {kind : DateKind} :
    date before (c :: s) = some ((kind, written), rest) ↔
      DateKind.ofMarker? c = some kind ∧ DateShaped written ∧ skipGap s = written ++ rest := by
  constructor
  · intro h
    obtain ⟨kind', hkind, h⟩ := Option.bind_eq_some_iff.mp h
    obtain ⟨⟨written', rest'⟩, hdate, heq⟩ := Option.map_eq_some_iff.mp h
    obtain ⟨hpair, rfl⟩ := Prod.mk.inj heq
    obtain ⟨rfl, rfl⟩ := Prod.mk.inj hpair
    obtain ⟨hgap, hshape⟩ := takeDate?_eq_some_iff.mp hdate
    exact ⟨hkind, hshape, hgap⟩
  · rintro ⟨hkind, hshape, hgap⟩
    show ((DateKind.ofMarker? c).bind fun kind =>
      (takeDate? (skipGap s)).map fun found => ((kind, found.1), found.2)) = _
    rw [hkind, takeDate?_eq_some_iff.mpr ⟨hgap, hshape⟩]
    rfl

/-- A dependency is a sign and, behind a gap, as many name characters as follow. -/
theorem dependency_eq_some_iff {before : Option Char} {c : Char} {s rest name : Text} :
    dependency before (c :: s) = some (name, rest) ↔
      c = Marker.dependency ∧ name ≠ [] ∧ (∀ d ∈ name, isReferenceChar d = true) ∧
        (∀ d, rest.head? = some d → isReferenceChar d = false) ∧ skipGap s = name ++ rest := by
  constructor
  · intro h
    rw [dependency] at h
    split at h
    · next hc =>
        split at h
        · exact absurd h (by simp)
        · next hne =>
            obtain ⟨rfl, rfl⟩ := Prod.mk.inj (Option.some.inj h)
            exact ⟨hc, hne, fun d hd => List.mem_takeWhile_imp hd, fun d => head_dropWhile,
              List.takeWhile_append_dropWhile.symm⟩
    · exact absurd h (by simp)
  · rintro ⟨rfl, hne, hname, hrest, hgap⟩
    obtain ⟨htake, hdrop⟩ := span_append_of_head hname hrest
    rw [dependency, if_pos rfl, hgap, htake, hdrop]
    cases name with
    | nil => exact absurd rfl hne
    | cons d name => rfl

/-- A wrapped tag is a name between two signs. -/
theorem wrappedTag_eq_some_iff {before : Option Char} {c : Char} {s rest name : Text} :
    wrappedTag before (c :: s) = some (name, rest) ↔
      c = Marker.tag ∧ name ≠ [] ∧ (∀ d ∈ name, isTagChar d = true) ∧
        s = name ++ Marker.tag :: rest := by
  constructor
  · intro h
    rw [wrappedTag] at h
    split at h
    · next hc =>
        split at h
        · next t tag d rest' htag hrest =>
            split at h
            · next hd =>
                obtain ⟨rfl, rfl⟩ := Prod.mk.inj (Option.some.inj h)
                refine ⟨hc, by simp, fun e he => List.mem_takeWhile_imp (htag ▸ he), ?_⟩
                have hs := List.takeWhile_append_dropWhile (p := isTagChar) (l := s)
                rw [htag, hrest, hd] at hs
                exact hs.symm
            · exact absurd h (by simp)
        · exact absurd h (by simp)
    · exact absurd h (by simp)
  · rintro ⟨rfl, hne, hname, rfl⟩
    have htag : isTagChar Marker.tag = false := (class_of_endsRule endsRule_tag).2.2.2.1
    have hrest : ∀ d, (Marker.tag :: rest).head? = some d → isTagChar d = false := by simp [htag]
    obtain ⟨htake, hdrop⟩ := span_append_of_head hname hrest
    rw [wrappedTag, if_pos rfl, htake, hdrop]
    cases name with
    | nil => exact absurd rfl hne
    | cons d name => rfl

/-- A bare tag is a sign behind a blank and as many name characters as follow. -/
theorem bareTag_eq_some_iff {before : Option Char} {c : Char} {s rest name : Text} :
    bareTag before (c :: s) = some (name, rest) ↔
      c = Marker.tag ∧ before.all isBlank = true ∧ name ≠ [] ∧
        (∀ d ∈ name, isTagChar d = true) ∧
        (∀ d, rest.head? = some d → isTagChar d = false) ∧ s = name ++ rest := by
  constructor
  · intro h
    rw [bareTag] at h
    split at h
    · next hc =>
        split at h
        · exact absurd h (by simp)
        · next hne =>
            obtain ⟨rfl, rfl⟩ := Prod.mk.inj (Option.some.inj h)
            exact ⟨hc.1, hc.2, hne, fun d hd => List.mem_takeWhile_imp hd, fun d => head_dropWhile,
              List.takeWhile_append_dropWhile.symm⟩
    · exact absurd h (by simp)
  · rintro ⟨rfl, hbefore, hne, hname, hrest, rfl⟩
    obtain ⟨htake, hdrop⟩ := span_append_of_head hname hrest
    rw [bareTag, if_pos ⟨rfl, hbefore⟩, htake, hdrop]
    cases name with
    | nil => exact absurd rfl hne
    | cons d name => rfl

/-! ## Tokens before another text -/

/-- A priority has no end to be moved. -/
theorem priority_firm : Firm priority := by
  intro before before' c w rest rest' value h _ hrest
  obtain ⟨hc, hskip⟩ := priority_eq_some_iff.mp h
  refine priority_eq_some_iff.mpr ⟨hc, ?_⟩
  have hselector : ∀ t : Text, (∀ d, t.head? = some d → decide (d = Marker.selector) = false) →
      skipSelector t = t := by
    intro t ht
    cases t with
    | nil => rfl
    | cons d t => rw [skipSelector, if_neg (of_decide_eq_false (ht d rfl))]
  cases w with
  | nil =>
      -- no selector stands behind the sign, neither before nor now
      have hhead : ∀ d, rest.head? = some d → decide (d = Marker.selector) = false := by
        intro d hd
        cases rest with
        | nil => exact absurd hd (by simp)
        | cons e rest =>
            obtain rfl : e = d := by simpa using hd
            refine decide_eq_false fun heq => ?_
            rw [List.nil_append, skipSelector, if_pos heq] at hskip
            have := congrArg List.length hskip
            simp at this
      exact hselector rest' (hrest.head (by decide) hhead)
  | cons d w =>
      rw [List.cons_append, skipSelector] at hskip ⊢
      split at hskip
      · next hd =>
          have hw : w = [] := by
            have := congrArg List.length hskip
            rw [List.length_append] at this
            exact List.length_eq_zero_iff.mp (by omega)
          rw [if_pos hd, hw, List.nil_append]
      · have := congrArg List.length hskip
        rw [List.length_cons, List.length_append] at this
        omega

/-- What has the shape of a date is not empty. -/
theorem DateShaped.ne_nil {w : Text} (h : DateShaped w) : w ≠ [] := by
  obtain ⟨y₁, y₂, y₃, y₄, m₁, m₂, d₁, d₂, rfl, -⟩ := h
  exact List.cons_ne_nil _ _

/-- A date ends after ten characters, whatever is behind it. -/
theorem date_firm : Firm date := by
  intro before before' c w rest rest' value h _ _
  obtain ⟨hkind, hshape, hgap⟩ := date_eq_some_iff.mp h
  exact date_eq_some_iff.mpr ⟨hkind, hshape, skipGap_append_congr hshape.ne_nil hgap rest'⟩

/-- A dependency ends where its name does. -/
theorem dependency_firm : Firm dependency := by
  intro before before' c w rest rest' value h _ hrest
  obtain ⟨hc, hne, hname, hhead, hgap⟩ := dependency_eq_some_iff.mp h
  exact dependency_eq_some_iff.mpr ⟨hc, hne, hname, hrest.head isReferenceChar_space hhead,
    skipGap_append_congr hne hgap rest'⟩

/-- A tag of either style ends where its name does. -/
theorem tag_firm (style : TagStyle) : Firm (tag style) := by
  intro before before' c w rest rest' value h hbefore hrest
  cases style with
  | wrapped =>
      have h : wrappedTag before (c :: (w ++ rest)) = some (value, rest) := h
      obtain ⟨hc, hne, hname, hs⟩ := wrappedTag_eq_some_iff.mp h
      have hw : w = value ++ [Marker.tag] := by
        rw [← List.append_cancel_right_eq _ rest, hs]
        simp
      show wrappedTag before' (c :: (w ++ rest')) = some (value, rest')
      exact wrappedTag_eq_some_iff.mpr ⟨hc, hne, hname, by simp [hw]⟩
  | bare =>
      have h : bareTag before (c :: (w ++ rest)) = some (value, rest) := h
      obtain ⟨hc, hblank, hne, hname, hhead, hs⟩ := bareTag_eq_some_iff.mp h
      show bareTag before' (c :: (w ++ rest')) = some (value, rest')
      exact bareTag_eq_some_iff.mpr ⟨hc, hbefore hblank, hne, hname,
        hrest.head isTagChar_space hhead, by rw [List.append_cancel_right hs]⟩

end Token

end Checklist
