import Checklist.Proofs.Recurring
import Checklist.Proofs.TokenEnds

/-!
# Spans — the characters of a content that belong to its tokens

Each kind of token has its spans in a content, where its scanner finds it. `clear` takes the spans
of some kinds out of a content, all of them as they stand there: with a space for each, whatever
else is taken out.

A span holds no sign but that of its own kind (`TokenKind.scan_eq_some`), so spans of different
kinds do not meet. Every content is a row of chunks, characters and spans (`exists_chunked`), and
clearing it puts a space in place of the chunks that are taken out (`clear_row`).
-/

namespace Checklist

open Text Scanner

/-! ## Kinds of tokens -/

/-- What a token of a content says. -/
inductive TokenKind where
  | recurrence
  | priority
  | date
  | tag
  | dependency
  deriving DecidableEq

/-- A recurrence, with its rule up to the next sign. -/
def Token.recurrence : Scanner Unit := fun _ s =>
  match s with
  | c :: s => if c = Marker.recurrence then some ((), (skipGap s).dropWhile isRuleChar) else none
  | [] => none

/-- The scanner, with the values of the tokens left out. -/
def Scanner.ends {α : Type} (scan : Scanner α) : Scanner Unit := fun before s =>
  (scan before s).map fun found => ((), found.2)

namespace TokenKind

/-- Every kind of token. -/
def all : List TokenKind := [.recurrence, .priority, .date, .tag, .dependency]

/-- Whether the character is the sign of such a token. -/
def isSign : TokenKind → Char → Bool
  | .recurrence, c => c = Marker.recurrence
  | .priority, c => isPriorityMarker c
  | .date, c => (DateKind.ofMarker? c).isSome
  | .tag, c => c = Marker.tag
  | .dependency, c => c = Marker.dependency

/-- Where such a token is, and where it ends. -/
def scan (style : TagStyle) : TokenKind → Scanner Unit
  | .recurrence => Token.recurrence
  | .priority => Token.priority.ends
  | .date => Token.date.ends
  | .tag => (Token.tag style).ends
  | .dependency => Token.dependency.ends

/-- The sign that closes such a token. -/
def closing (style : TagStyle) : TokenKind → Text
  | .tag => if style = .wrapped then [Marker.tag] else []
  | _ => []

end TokenKind

/-! ## Spans -/

/-- Where a character stands when the tokens of some kinds are marked. -/
inductive Token.Place where
  | outside
  /-- At the start of a token. -/
  | first
  /-- In a token, behind its start. -/
  | behind

namespace Token.Place

/-- Where a character stands when more tokens are marked. -/
def join : Token.Place → Token.Place → Token.Place
  | .outside, place => place
  | place, _ => place

/-- What is left of a character when every token becomes a space. -/
def shown (c : Char) : Token.Place → Option Char
  | .outside => some c
  | .first => some ' '
  | .behind => none

end Token.Place

/-- Where the characters of the text stand, of which the first `skip` belong to a token that begins
before them. -/
def Scanner.placesFrom {α : Type} (scan : Scanner α) :
    (skip : Nat) → Option Char → Text → List Token.Place
  | _, _, [] => []
  | skip + 1, _, c :: s => .behind :: placesFrom scan skip (some c) s
  | 0, before, c :: s =>
    match scan before (c :: s) with
    | some (_, rest) => .first :: placesFrom scan (s.length - rest.length) (some c) s
    | none => .outside :: placesFrom scan 0 (some c) s

/-- Where the characters of the content stand for the tokens of that kind. Of the recurrences only
the first is a token. -/
def TokenKind.places (style : TagStyle) : TokenKind → Text → List Token.Place
  | .recurrence, content =>
    match cutAt? Marker.recurrence content with
    | none => content.map fun _ => .outside
    | some (before, after) =>
      let rest := (Token.skipGap after).dropWhile Token.isRuleChar
      before.map (fun _ => .outside) ++
        .first :: List.replicate (after.length - rest.length) .behind ++
        rest.map (fun _ => .outside)
  | kind, content => (kind.scan style).placesFrom 0 none content

/-- Where the characters of the content stand for the tokens of all these kinds. -/
def placesOf (style : TagStyle) (kinds : List TokenKind) (content : Text) : List Token.Place :=
  kinds.foldr (fun kind => List.zipWith Token.Place.join (kind.places style content))
    (content.map fun _ => .outside)

/-- The content with every token of these kinds replaced by a space. -/
def clear (style : TagStyle) (kinds : List TokenKind) (content : Text) : Text :=
  (List.zipWith Token.Place.shown content (placesOf style kinds content)).filterMap id

/-! ## The signs of a token -/

namespace TokenKind

variable {kind other : TokenKind} {style : TagStyle} {c : Char}

/-- No kind is left out. -/
theorem mem_all (kind : TokenKind) : kind ∈ all := by cases kind <;> decide

/-- The sign of a token ends a rule. -/
theorem endsRule_of_isSign (h : kind.isSign c = true) : endsRule c = true := by
  cases kind <;> simp_all [isSign, endsRule]

/-- What ends no rule is no sign. -/
theorem isSign_eq_false (h : endsRule c = false) : kind.isSign c = false :=
  Bool.eq_false_iff.mpr fun hsign => by simp [endsRule_of_isSign hsign] at h

/-- A sign belongs to one kind of tokens. -/
theorem eq_of_isSign (h : kind.isSign c = true) (h' : other.isSign c = true) : other = kind := by
  have hall : ∀ c ∈ signs, ∀ kind ∈ all, ∀ other ∈ all,
      kind.isSign c = true → other.isSign c = true → other = kind :=
    forall_mem_of_all (by decide +kernel)
  exact hall c (endsRule_iff_mem_signs.mp (endsRule_of_isSign h)) kind kind.mem_all other
    other.mem_all h h'

/-- Only tags are closed, by their sign. -/
theorem eq_of_mem_closing (h : c ∈ kind.closing style) : kind = .tag ∧ c = Marker.tag := by
  cases kind with
  | tag =>
      rw [closing] at h
      split at h
      · exact ⟨rfl, List.mem_singleton.mp h⟩
      · exact absurd h List.not_mem_nil
  | recurrence => exact absurd h List.not_mem_nil
  | priority => exact absurd h List.not_mem_nil
  | date => exact absurd h List.not_mem_nil
  | dependency => exact absurd h List.not_mem_nil

end TokenKind

namespace Token

/-- The digits and hyphens of a date end no rule. -/
theorem DateShaped.endsRule_of_mem {w : Text} (h : DateShaped w) : ∀ c ∈ w, endsRule c = false := by
  obtain ⟨y₁, y₂, y₃, y₄, m₁, m₂, d₁, d₂, rfl, hdigits⟩ := h
  have hdigit : ∀ c ∈ [y₁, y₂, y₃, y₄, m₁, m₂, d₁, d₂], endsRule c = false := by
    intro c hc
    cases hsign : endsRule c with
    | false => rfl
    | true =>
        have := List.all_eq_true.mp hdigits c hc
        rw [(class_of_endsRule hsign).2.1] at this
        exact Bool.noConfusion this
  have hhyphen : endsRule '-' = false := by decide
  simp only [List.mem_cons, List.not_mem_nil, or_false, forall_eq_or_imp, forall_eq] at hdigit ⊢
  exact ⟨hdigit.1, hdigit.2.1, hdigit.2.2.1, hdigit.2.2.2.1, hhyphen, hdigit.2.2.2.2.1,
    hdigit.2.2.2.2.2.1, hhyphen, hdigit.2.2.2.2.2.2⟩

/-- What stands behind a gap has no sign before it. -/
theorem exists_of_skipGap_eq {s w rest : Text} (h : skipGap s = w ++ rest)
    (hw : ∀ c ∈ w, endsRule c = false) :
    ∃ u, s = u ++ rest ∧ ∀ c ∈ u, endsRule c = false := by
  obtain ⟨gap, hs, hgap⟩ := exists_gap_eq s
  refine ⟨gap ++ w, by rw [List.append_assoc, ← h]; exact hs, fun c hc => ?_⟩
  rcases List.mem_append.mp hc with hc | hc
  · exact hgap c hc
  · exact hw c hc

end Token

namespace TokenKind

variable {style : TagStyle} {before : Option Char} {c : Char} {s rest : Text}

/-- A recurrence is found at its sign, and ends where its rule does. -/
theorem scan_recurrence_eq_some_iff :
    recurrence.scan style before (c :: s) = some ((), rest) ↔
      c = Marker.recurrence ∧ (Token.skipGap s).dropWhile Token.isRuleChar = rest := by
  rw [scan, Token.recurrence]
  split
  · next hc => simp [hc]
  · next hc => simp [hc]

/-- Where none is found, its sign does not stand. -/
theorem recurrence_not_mem_of_scan_eq_none
    (h : recurrence.scan style before (c :: s) = none) : Marker.recurrence ∉ [c] := by
  intro hmem
  have hsome : recurrence.scan style before (c :: s) = some _ :=
    scan_recurrence_eq_some_iff.mpr ⟨(List.mem_singleton.mp hmem).symm, rfl⟩
  exact absurd (h.symm.trans hsome).symm (Option.some_ne_none _)

end TokenKind

/-- A token begins with a sign of its kind, and holds no other but the one that closes it. -/
theorem TokenKind.scan_eq_some {kind : TokenKind} {style : TagStyle} {before : Option Char}
    {c : Char}
    {s rest : Text} (h : kind.scan style before (c :: s) = some ((), rest)) :
    kind.isSign c = true ∧
      ∃ u, s = u ++ (kind.closing style ++ rest) ∧ ∀ d ∈ u, endsRule d = false := by
  cases kind with
  -- Each kind has its own grammar; what they have in common is all that the row needs.
  | recurrence =>
      obtain ⟨hc, rfl⟩ := TokenKind.scan_recurrence_eq_some_iff.mp h
      refine ⟨by simp [isSign, hc], Token.exists_of_skipGap_eq
        List.takeWhile_append_dropWhile.symm fun d hd => ?_⟩
      have hrule := List.mem_takeWhile_imp hd
      simp only [Token.isRuleChar, Bool.and_eq_true, Bool.not_eq_true'] at hrule
      exact hrule.1
  | priority =>
      obtain ⟨⟨value, rest'⟩, hscan, heq⟩ := Option.map_eq_some_iff.mp h
      obtain ⟨-, rfl⟩ := Prod.mk.inj heq
      obtain ⟨hc, hskip⟩ := Token.priority_eq_some_iff.mp hscan
      refine ⟨hc, ?_⟩
      cases s with
      | nil => exact ⟨[], by rw [← hskip]; rfl, by simp⟩
      | cons d s =>
          rw [Token.skipSelector] at hskip
          split at hskip
          · next hd =>
              exact ⟨[d], by rw [← hskip]; rfl, by rw [hd]; exact forall_mem_of_all (by decide)⟩
          · exact ⟨[], by rw [← hskip]; rfl, by simp⟩
  | date =>
      obtain ⟨⟨⟨day, written⟩, rest'⟩, hscan, heq⟩ := Option.map_eq_some_iff.mp h
      obtain ⟨-, rfl⟩ := Prod.mk.inj heq
      obtain ⟨hc, hshape, hgap⟩ := Token.date_eq_some_iff.mp hscan
      exact ⟨by simp [isSign, hc], Token.exists_of_skipGap_eq hgap hshape.endsRule_of_mem⟩
  | dependency =>
      obtain ⟨⟨name, rest'⟩, hscan, heq⟩ := Option.map_eq_some_iff.mp h
      obtain ⟨-, rfl⟩ := Prod.mk.inj heq
      obtain ⟨hc, -, hname, -, hgap⟩ := Token.dependency_eq_some_iff.mp hscan
      exact ⟨by simp [isSign, hc], Token.exists_of_skipGap_eq hgap fun d hd =>
        Datum.endsRule_of_isReferenceChar (hname d hd)⟩
  | tag =>
      obtain ⟨⟨name, rest'⟩, hscan, heq⟩ := Option.map_eq_some_iff.mp h
      obtain ⟨-, rfl⟩ := Prod.mk.inj heq
      cases style with
      | wrapped =>
          have hscan : Token.wrappedTag before (c :: s) = some (name, rest') := hscan
          obtain ⟨hc, -, hname, hs⟩ := Token.wrappedTag_eq_some_iff.mp hscan
          exact ⟨by simp [isSign, hc], name, hs, fun d hd =>
            Datum.endsRule_of_isTagChar (hname d hd)⟩
      | bare =>
          have hscan : Token.bareTag before (c :: s) = some (name, rest') := hscan
          obtain ⟨hc, -, -, hname, -, hs⟩ := Token.bareTag_eq_some_iff.mp hscan
          exact ⟨by simp [isSign, hc], name, hs, fun d hd =>
            Datum.endsRule_of_isTagChar (hname d hd)⟩

/-! ## Chunks -/

/-- A character outside every token, or a token with its span. -/
inductive Chunk where
  | plain (c : Char)
  | span (kind : TokenKind) (sign : Char) (tail : Text)

namespace Chunk

/-- The chunk with a space in place of a token of one of these kinds. -/
def without (out : List TokenKind) : Chunk → Text
  | .plain c => [c]
  | .span kind sign tail => if kind ∈ out then [' '] else sign :: tail

/-- Where the characters of the chunk stand for the tokens of one of these kinds. -/
def places (out : List TokenKind) : Chunk → List Token.Place
  | .plain _ => [.outside]
  | .span kind _ tail =>
    if kind ∈ out then .first :: tail.map fun _ => .behind
    else .outside :: tail.map fun _ => .outside

/-- The text of the chunks with a space in place of every token of these kinds. -/
def rowWithout (out : List TokenKind) (chunks : List Chunk) : Text := chunks.flatMap (without out)

/-- The text of the chunks. -/
def row (chunks : List Chunk) : Text := rowWithout [] chunks

/-- Without chunks there is no text. -/
@[simp] theorem rowWithout_nil (out : List TokenKind) : rowWithout out [] = [] := rfl

/-- A plain character is kept, whatever is taken out. -/
@[simp] theorem rowWithout_plain (out : List TokenKind) (c : Char) (chunks : List Chunk) :
    rowWithout out (.plain c :: chunks) = c :: rowWithout out chunks := rfl

/-- A span of a kind that is taken out becomes a space. -/
theorem rowWithout_span_of_mem {out : List TokenKind} {kind : TokenKind} (h : kind ∈ out)
    (sign : Char) (tail : Text) (chunks : List Chunk) :
    rowWithout out (.span kind sign tail :: chunks) = ' ' :: rowWithout out chunks := by
  rw [rowWithout, List.flatMap_cons, without, if_pos h]
  rfl

/-- A span of another kind is kept. -/
theorem rowWithout_span_of_not_mem {out : List TokenKind} {kind : TokenKind} (h : kind ∉ out)
    (sign : Char) (tail : Text) (chunks : List Chunk) :
    rowWithout out (.span kind sign tail :: chunks) =
      sign :: (tail ++ rowWithout out chunks) := by
  rw [rowWithout, List.flatMap_cons, without, if_neg h]
  rfl

/-- A row without chunks is empty. -/
@[simp] theorem row_nil : row [] = [] := rfl

/-- A plain chunk is its character. -/
@[simp] theorem row_plain (c : Char) (chunks : List Chunk) :
    row (.plain c :: chunks) = c :: row chunks :=
  rfl

/-- A span is its sign and what stands behind it. -/
@[simp] theorem row_span (kind : TokenKind) (sign : Char) (tail : Text) (chunks : List Chunk) :
    row (.span kind sign tail :: chunks) = sign :: (tail ++ row chunks) :=
  rowWithout_span_of_not_mem List.not_mem_nil sign tail chunks

end Chunk

open Chunk

/-- Whether the chunks are cut off their text where the scanners find tokens. A recurrence is a
token only while the row is `fresh`, that is, while none has been cut off yet. -/
inductive Chunked (style : TagStyle) : (fresh : Bool) → Option Char → List Chunk → Prop where
  | nil {fresh : Bool} {before : Option Char} : Chunked style fresh before []
  | plain {fresh : Bool} {before : Option Char} {c : Char} {chunks : List Chunk}
      (hnone : ∀ kind : TokenKind, (kind = .recurrence → fresh = true) →
        kind.scan style before (c :: row chunks) = none)
      (hrest : Chunked style fresh (some c) chunks) :
      Chunked style fresh before (.plain c :: chunks)
  | span {fresh : Bool} {before : Option Char} {kind : TokenKind} {sign : Char} {tail : Text}
      {chunks : List Chunk} (hlive : kind = .recurrence → fresh = true)
      (hscan : kind.scan style before (sign :: (tail ++ row chunks)) = some ((), row chunks))
      (hsign : kind.isSign sign = true)
      (htail : ∀ c ∈ tail, ∀ other : TokenKind, other.isSign c = true → other = kind)
      (hrest : Chunked style (fresh && kind ≠ .recurrence) (sign :: tail).getLast? chunks) :
      Chunked style fresh before (.span kind sign tail :: chunks)

/-- Every text is a row of chunks. -/
theorem exists_chunked (style : TagStyle) (fresh : Bool) (before : Option Char) (s : Text) :
    ∃ chunks, Chunked style fresh before chunks ∧ row chunks = s := by
  match s with
  | [] => exact ⟨[], .nil, rfl⟩
  | c :: s =>
      -- A token, if one begins here, becomes a span and the walk goes on behind it.
      by_cases hfound : ∃ kind : TokenKind, (kind = .recurrence → fresh = true) ∧
          (kind.scan style before (c :: s)).isSome
      · obtain ⟨kind, hlive, hsome⟩ := hfound
        obtain ⟨⟨⟨⟩, rest⟩, hscan⟩ := Option.isSome_iff_exists.mp hsome
        obtain ⟨hsign, u, hs, hu⟩ := kind.scan_eq_some hscan
        have hlen : rest.length ≤ s.length := by
          have := congrArg List.length hs
          simp only [List.length_append] at this
          omega
        obtain ⟨chunks, hrest, rfl⟩ := exists_chunked style (fresh && kind ≠ .recurrence)
          (c :: (u ++ kind.closing style)).getLast? rest
        rw [← List.append_assoc] at hs
        refine ⟨.span kind c (u ++ kind.closing style) :: chunks,
          .span hlive (hs ▸ hscan) hsign ?_ hrest, ?_⟩
        · intro d hd other hother
          rcases List.mem_append.mp hd with hd | hd
          · exact absurd hother (by simp [TokenKind.isSign_eq_false (hu d hd)])
          -- What closes the token is the sign of its own kind.
          · obtain ⟨rfl, rfl⟩ := TokenKind.eq_of_mem_closing hd
            exact TokenKind.eq_of_isSign (by decide) hother
        · rw [hs, row_span]
      · obtain ⟨chunks, hrest, rfl⟩ := exists_chunked style fresh (some c) s
        refine ⟨.plain c :: chunks, .plain (fun kind hlive => ?_) hrest, rfl⟩
        cases hscan : kind.scan style before (c :: row chunks) with
        | none => rfl
        | some found => exact absurd ⟨kind, hlive, by rw [hscan]; rfl⟩ hfound
termination_by s.length

/-! ## The spans of a row of chunks -/

section Places

variable {style : TagStyle} {kind : TokenKind} {fresh : Bool} {before : Option Char}
  {chunks : List Chunk}

/-- Each kind of token begins with its own sign. -/
theorem TokenKind.scan_startsWith (style : TagStyle) (kind : TokenKind) :
    (kind.scan style).StartsWith kind.isSign := by
  intro before c s hc
  cases hscan : kind.scan style before (c :: s) with
  | none => rfl
  | some found =>
      obtain ⟨⟨⟩, rest⟩ := found
      rw [(kind.scan_eq_some hscan).1] at hc
      exact Bool.noConfusion hc

/-- A span holds signs of its own kind only. -/
theorem Chunk.isSign_of_mem_span {sign : Char} {tail : Text} (hsign : kind.isSign sign = true)
    (htail : ∀ c ∈ tail, ∀ other : TokenKind, other.isSign c = true → other = kind)
    {other : TokenKind} (hne : kind ≠ other) : ∀ c ∈ sign :: tail, other.isSign c = false := by
  intro c hc
  cases hother : other.isSign c with
  | false => rfl
  | true =>
      rcases List.mem_cons.mp hc with rfl | hc
      · exact absurd (TokenKind.eq_of_isSign hsign hother).symm hne
      · exact absurd (htail c hc other hother).symm hne

/-- Characters that belong to a token that began before them are behind its start. -/
theorem Scanner.placesFrom_append_of_length {α : Type} (scan : Scanner α) (before : Option Char)
    (w s : Text) :
    scan.placesFrom w.length before (w ++ s) =
      w.map (fun _ => .behind) ++ scan.placesFrom 0 (w.getLast?.or before) s := by
  induction w generalizing before with
  | nil => simp
  | cons c w ih =>
      rw [List.length_cons, List.cons_append, placesFrom, ih]
      cases w <;> simp [List.getLast?_cons]

/-- Characters that are no signs and belong to no token are outside. -/
theorem Scanner.placesFrom_append_of_unsigned {α : Type} {scan : Scanner α} {sign : Char → Bool}
    (hs : scan.StartsWith sign) {w : Text} (h : ∀ c ∈ w, sign c = false) (before : Option Char)
    (s : Text) :
    scan.placesFrom 0 before (w ++ s) =
      w.map (fun _ => .outside) ++ scan.placesFrom 0 (w.getLast?.or before) s := by
  induction w generalizing before with
  | nil => simp
  | cons c w ih =>
      rw [List.cons_append, placesFrom, hs before c _ (h c (by simp)),
        ih fun d hd => h d (by simp [hd])]
      cases w <;> simp [List.getLast?_cons]

/-- The spans of a kind are the chunks of that kind. -/
theorem placesFrom_row (hkind : kind ≠ .recurrence) (h : Chunked style fresh before chunks) :
    (kind.scan style).placesFrom 0 before (row chunks) = chunks.flatMap (Chunk.places [kind]) := by
  induction h with
  | nil => rfl
  | @plain fresh before c chunks hnone hrest ih =>
      rw [row_plain, placesFrom, hnone kind (absurd · hkind), ih]
      rfl
  | @span fresh before other sign tail chunks hlive hscan hsign htail hrest ih =>
      rw [row_span, List.flatMap_cons, ← ih, Chunk.places]
      by_cases hother : other = kind
      · subst hother
        have hskip : (tail ++ row chunks).length - (row chunks).length = tail.length := by
          rw [List.length_append, Nat.add_sub_cancel]
        rw [placesFrom, hscan, if_pos (List.mem_singleton_self _)]
        simp only [hskip, placesFrom_append_of_length]
        cases tail <;> simp [List.getLast?_cons]
      · rw [if_neg (by simpa using hother), ← List.cons_append, placesFrom_append_of_unsigned
          (kind.scan_startsWith style) (Chunk.isSign_of_mem_span hsign htail hother)]
        cases tail <;> simp [List.getLast?_cons]

/-- A row that is no more fresh has no recurrence among its chunks. -/
theorem flatMap_places_recurrence (h : Chunked style false before chunks) :
    chunks.flatMap (Chunk.places [.recurrence]) = (row chunks).map fun _ => .outside := by
  generalize hfresh : false = fresh at h
  induction h with
  | nil => rfl
  | plain hnone hrest ih =>
      rw [List.flatMap_cons, ih hfresh]
      rfl
  | @span fresh before kind sign tail chunks hlive hscan hsign htail hrest ih =>
      have hne : kind ≠ .recurrence := fun heq => by simp [hlive heq] at hfresh
      rw [List.flatMap_cons, ih (by simp [← hfresh]), Chunk.places, if_neg (by simpa using hne)]
      simp

/-- What holds no sign of a recurrence stands outside the first one. -/
theorem places_recurrence_append {u : Text} (hu : Marker.recurrence ∉ u) (s : Text) :
    TokenKind.places style .recurrence (u ++ s) =
      u.map (fun _ => .outside) ++ TokenKind.places style .recurrence s := by
  cases hcut : cutAt? Marker.recurrence s with
  | none =>
      have hmem : Marker.recurrence ∉ u ++ s := by simp [hu, cutAt?_eq_none_iff.mp hcut]
      simp [TokenKind.places, hcut, cutAt?_eq_none_iff.mpr hmem]
  | some cut =>
      obtain ⟨front, after⟩ := cut
      obtain ⟨rfl, hfront⟩ := cutAt?_eq_some_iff.mp hcut
      have hcut' : cutAt? Marker.recurrence (u ++ (front ++ Marker.recurrence :: after)) =
          some (u ++ front, after) := cutAt?_eq_some_iff.mpr ⟨by simp, by simp [hu, hfront]⟩
      simp only [TokenKind.places, hcut, hcut', List.map_append, List.append_assoc]

/-- The one recurrence of a row is marked chunk by chunk. -/
theorem places_recurrence_row (h : Chunked style true before chunks) :
    TokenKind.places style .recurrence (row chunks) =
      chunks.flatMap (Chunk.places [.recurrence]) := by
  generalize hfresh : true = fresh at h
  induction h with
  | nil => rfl
  | @plain fresh before c chunks hnone hrest ih =>
      have hc := TokenKind.recurrence_not_mem_of_scan_eq_none
        (hnone .recurrence fun _ => hfresh.symm)
      rw [List.flatMap_cons, ← ih hfresh]
      exact places_recurrence_append hc (row chunks)
  | @span fresh before kind sign tail chunks hlive hscan hsign htail hrest ih =>
      rw [row_span, List.flatMap_cons, Chunk.places]
      by_cases hkind : kind = .recurrence
      -- The first recurrence takes its place, and no later one is looked for.
      · subst hkind
        obtain ⟨rfl, hrest'⟩ := TokenKind.scan_recurrence_eq_some_iff.mp hscan
        have hcut : cutAt? Marker.recurrence (Marker.recurrence :: (tail ++ row chunks)) =
            some ([], tail ++ row chunks) := cutAt?_eq_some_iff.mpr ⟨rfl, List.not_mem_nil⟩
        rw [if_pos (List.mem_singleton_self _), flatMap_places_recurrence (by simpa using hrest)]
        simp [TokenKind.places, hcut, hrest', List.map_const']
      · have hmem : Marker.recurrence ∉ sign :: tail := fun hmem =>
          absurd (Chunk.isSign_of_mem_span hsign htail hkind _ hmem) (by decide)
        rw [if_neg (by simpa using hkind), ← ih (by simp [← hfresh, hkind]), ← List.cons_append,
          places_recurrence_append hmem]
        rfl

/-- So are the tokens of each kind. -/
theorem places_row (kind : TokenKind) (h : Chunked style true none chunks) :
    kind.places style (row chunks) = chunks.flatMap (Chunk.places [kind]) := by
  cases kind with
  | recurrence => exact places_recurrence_row h
  | priority => exact placesFrom_row (by decide) h
  | date => exact placesFrom_row (by decide) h
  | tag => exact placesFrom_row (by decide) h
  | dependency => exact placesFrom_row (by decide) h

/-! ## Clearing a row of chunks -/

/-- Rows whose parts are as long as each other are zipped part by part. -/
theorem zipWith_flatMap {α β γ δ : Type} {f : α → List β} {g : α → List γ} {op : β → γ → δ}
    (h : ∀ a, (f a).length = (g a).length) (l : List α) :
    List.zipWith op (l.flatMap f) (l.flatMap g) =
      l.flatMap fun a => List.zipWith op (f a) (g a) := by
  induction l with
  | nil => rfl
  | cons a l ih => rw [List.flatMap_cons, List.flatMap_cons, List.zipWith_append (h a), ih]; rfl

/-- Each character of a chunk has one place. -/
theorem Chunk.length_places (kinds : List TokenKind) (chunk : Chunk) :
    (chunk.places kinds).length = (chunk.without []).length := by
  cases chunk with
  | plain c => rfl
  | span kind sign tail =>
      rw [places, without, if_neg List.not_mem_nil]
      split <;> simp

/-- The places of a chunk for some kinds are made up of those for each of them. -/
theorem Chunk.join_places (kind : TokenKind) (kinds : List TokenKind) (chunk : Chunk) :
    List.zipWith Token.Place.join (chunk.places [kind]) (chunk.places kinds) =
      chunk.places (kind :: kinds) := by
  cases chunk with
  | plain c => rfl
  | span other sign tail =>
      by_cases hkind : other = kind
      · subst hkind
        rw [places, places, places, if_pos (List.mem_singleton_self _), if_pos List.mem_cons_self]
        split <;> simp [Token.Place.join]
      · simp only [places, List.mem_cons, hkind, List.not_mem_nil, or_false, false_or, if_false]
        split <;> simp [Token.Place.join]

/-- The tokens of several kinds are marked chunk by chunk. -/
theorem placesOf_row (kinds : List TokenKind) (h : Chunked style true none chunks) :
    placesOf style kinds (row chunks) = chunks.flatMap (Chunk.places kinds) := by
  induction kinds with
  | nil =>
      rw [placesOf, List.foldr_nil, row, rowWithout, List.map_flatMap]
      refine List.flatMap_congr fun chunk _ => ?_
      cases chunk with
      | plain c => rfl
      | span kind sign tail => simp [without, places]
  | cons kind kinds ih =>
      have hlength : ∀ chunk : Chunk,
          (chunk.places [kind]).length = (chunk.places kinds).length := fun chunk => by
        rw [chunk.length_places, chunk.length_places]
      show List.zipWith Token.Place.join (kind.places style (row chunks))
        (placesOf style kinds (row chunks)) = _
      rw [ih, places_row kind h, zipWith_flatMap hlength]
      exact List.flatMap_congr fun chunk _ => chunk.join_places kind kinds

/-- What is left of a chunk whose places are known. -/
theorem Chunk.shown_places (kinds : List TokenKind) (chunk : Chunk) :
    (List.zipWith Token.Place.shown (chunk.without []) (chunk.places kinds)).filterMap id =
      chunk.without kinds := by
  cases chunk with
  | plain c => rfl
  | span kind sign tail =>
      have hshown : ∀ place : Token.Place,
          List.zipWith Token.Place.shown tail (tail.map fun _ => place) =
          tail.map fun c => place.shown c := fun place => by
        rw [List.zipWith_map_right, List.zipWith_self]
      rw [without, without, places, if_neg List.not_mem_nil]
      split
      · rw [List.zipWith_cons_cons, hshown]
        simp [Token.Place.shown]
      · rw [List.zipWith_cons_cons, hshown]
        simp [Token.Place.shown]

/-- Clearing a row of chunks puts a space in place of every token that is taken out. -/
theorem clear_row (kinds : List TokenKind) (h : Chunked style true none chunks) :
    clear style kinds (row chunks) = rowWithout kinds chunks := by
  rw [clear, placesOf_row kinds h, row, rowWithout,
    zipWith_flatMap fun chunk => (chunk.length_places kinds).symm, List.filterMap_flatMap]
  exact List.flatMap_congr fun chunk _ => chunk.shown_places kinds

end Places

end Checklist
