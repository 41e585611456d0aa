import Lox.Proofs.Munch

/-!
# Where pieces end

A piece ends where it does because of what follows it (`Piece.EndsBefore`), and of that only the
first two characters can matter (`extends_cons_iff`). So pieces are those of the text that they make
up exactly if each of them ends before the next (`IsCut`, `isCut_iff`), and a change of a source
that leaves each piece its reason to end leaves the pieces.
-/

set_option autoImplicit false

namespace Lox

/-! ## What a lexeme sees of the text behind it -/

theorem not_extends_nil (kind : Kind) (text : List Char) : ¬ Extends kind text [] := by
  cases kind <;> simp [Extends]

theorem extends_number_cons_iff {text s : List Char} {c : Char} :
    Extends .number text (c :: s) ↔
      c.isDigit = true ∨ ('.' ∉ text ∧ c = '.' ∧ s.head?.any Char.isDigit = true) := by
  cases s with
  | nil => simp [Extends]
  | cons d s => simp [Extends, and_assoc]

/-- Behind its first character a lexeme only sees whether a digit follows a point. -/
theorem extends_cons_iff {kind : Kind} {text s s' : List Char} {c : Char}
    (h : c = '.' → s.head?.any Char.isDigit = s'.head?.any Char.isDigit) :
    Extends kind text (c :: s) ↔ Extends kind text (c :: s') := by
  cases kind with
  | number =>
    rw [extends_number_cons_iff, extends_number_cons_iff]
    exact or_congr_right (and_congr_right fun _ => and_congr_right fun hc => by rw [h hc])
  | _ => rfl

/-- More text behind what extends a lexeme changes nothing. -/
theorem Extends.append {kind : Kind} {text after : List Char} (h : Extends kind text after)
    (more : List Char) : Extends kind text (after ++ more) := by
  cases after with
  | nil => exact absurd h (not_extends_nil kind text)
  | cons c s =>
    cases kind with
    | number =>
      rw [List.cons_append, extends_number_cons_iff]
      refine (extends_number_cons_iff.1 h).imp_right fun ⟨hpoint, hc, hdigit⟩ => ⟨hpoint, hc, ?_⟩
      cases s with
      | nil => exact absurd hdigit (by simp)
      | cons d s => exact hdigit
    | _ => exact h

/-- A character that is no digit shows nothing new to a lexeme that something follows already. -/
theorem extends_append_cons_iff {kind : Kind} {text after more : List Char} {e : Char}
    (hne : after ≠ []) (he : e.isDigit = false) :
    Extends kind text (after ++ e :: more) ↔ Extends kind text after := by
  obtain ⟨c, s, rfl⟩ := List.exists_cons_of_ne_nil hne
  refine extends_cons_iff fun _ => ?_
  cases s with
  | nil => simp [he]
  | cons d s => rfl

/-! ## What lets a piece end -/

namespace Piece

/-- Whether the text `after` a piece lets it end: it does not extend a lexeme, and a comment goes on
to the end of its line. Nothing is ever behind an open string. -/
def EndsBefore (after : List Char) : Piece → Prop
  | lexeme kind text => ¬ Extends kind text after
  | blank text => text.head? = some '/' → ∀ c ∈ after.head?, c = '\n'
  | stray _ => True
  | openString text => after = [] ∧ '"' ∉ text.tail

/-- What lets a piece end still does so when the text behind it is cut off somewhere. -/
theorem EndsBefore.of_append {x : Piece} {after more : List Char}
    (h : x.EndsBefore (after ++ more)) : x.EndsBefore after := by
  cases x with
  | lexeme kind text => exact fun hext => h (hext.append more)
  | blank text =>
    intro hslash c hc
    obtain ⟨s, rfl⟩ := List.head?_eq_some_iff.1 hc
    exact h hslash c rfl
  | stray c => trivial
  | openString text => exact ⟨(List.append_eq_nil_iff.1 h.1).1, h.2⟩

/-- A character that is no digit makes no difference to a piece that something stands behind
already. -/
theorem EndsBefore.append_cons {x : Piece} {after more : List Char} {e : Char}
    (h : x.EndsBefore after) (hne : after ≠ []) (he : e.isDigit = false) :
    x.EndsBefore (after ++ e :: more) := by
  cases x with
  | lexeme kind text => exact fun hext => h ((extends_append_cons_iff hne he).1 hext)
  | blank text =>
    obtain ⟨c, s, rfl⟩ := List.exists_cons_of_ne_nil hne
    exact h
  | stray c => trivial
  | openString text => exact absurd h.1 hne

/-- Whether a piece is a string that nothing closes. -/
def isOpen : Piece → Bool
  | openString _ => true
  | _ => false

end Piece

/-- A mark of two characters begins with a mark of one. -/
theorem Punctuation.exists_spelling_eq_head {p : Punctuation} {c : Char} {s : List Char}
    (h : p.spelling.toList = c :: s) : ∃ q : Punctuation, q.spelling.toList = [c] := by
  have hc : p.spelling.toList.head? = some c := by rw [h]; rfl
  have hfound : ∃ q, ofSpelling? [c] = some q := by
    revert hc
    cases p <;> (rintro ⟨⟩; exact ⟨_, rfl⟩)
  exact hfound.imp fun q hq => ofSpelling?_eq_some_iff.1 hq

/-- The first character of a match is a match, if the match is no string. -/
theorem Matches.head {c : Char} {s : List Char} (h : Matches (c :: s)) (hquote : c ≠ '"') :
    Matches [c] := by
  rcases h.cases_head with ⟨hc, -⟩ | ⟨hc, -⟩ | ⟨hc, -⟩ | ⟨hc, -⟩ | ⟨rfl, -⟩ | ⟨p, hp⟩
  · exact absurd hc hquote
  · exact .inl ⟨.number, .whole ⟨List.cons_ne_nil _ _, by simpa using hc⟩⟩
  · exact matches_of_isWord ⟨c, [], rfl, hc, by simp⟩
  · exact .inr (.space hc)
  · exact .inl ⟨_, .mark .slash⟩
  · obtain ⟨q, hq⟩ := Punctuation.exists_spelling_eq_head hp
    exact .inl ⟨.mark q, hq ▸ .mark q⟩

/-- A comment that is the longest match ends with its line or with the source. -/
theorem IsLongestMatch.lineFeed_of_comment {text after : List Char} (oneLine : '\n' ∉ text)
    (h : IsLongestMatch ('/' :: '/' :: text) ('/' :: '/' :: text ++ after)) :
    ∀ c ∈ after.head?, c = '\n' := by
  intro c hc
  by_contra hne
  obtain ⟨s, rfl⟩ := List.head?_eq_some_iff.1 hc
  -- otherwise the comment with that character is a longer match
  have hlonger : Matches ('/' :: '/' :: (text ++ [c])) :=
    .inr (.comment (by simp [oneLine, Ne.symm hne]))
  have hle := h.longest _ ⟨s, by simp⟩ hlonger
  simp only [List.length_cons, List.length_append] at hle
  omega

/-- **A piece is the first one exactly if what follows lets it end.** -/
theorem isFirst_append_iff {x : Piece} (hx : x.IsSound) (after : List Char) :
    IsFirst (x.text ++ after) x ↔ x.EndsBefore after := by
  cases hx with
  | @lexeme kind text hlex =>
    constructor
    · intro h
      exact (isLongestMatch_append_iff hlex).1 h.of_lexeme.2
    · intro h
      exact isFirst_of_not_extends hlex h
  | @blank text hskip =>
    cases hskip with
    | @space c hc =>
      refine ⟨fun _ hslash => ?_, fun _ => .blank (.space hc) (isLongestMatch_space hc after)⟩
      obtain rfl : c = '/' := Option.some.inj hslash
      exact absurd hc (by decide)
    | @comment text oneLine =>
      constructor
      · intro h _
        have hlongest := h.next.isLongestMatch (.inr (.comment oneLine))
        exact hlongest.lineFeed_of_comment oneLine
      · intro h
        exact .blank (.comment oneLine) (isLongestMatch_comment oneLine (h rfl))
  | @stray c hno hquote =>
    refine ⟨fun _ => trivial, fun _ => .stray (fun t ht hmatch => ?_) rfl hquote⟩
    obtain ⟨d, u, rfl⟩ := List.exists_cons_of_ne_nil hmatch.text_ne_nil
    obtain ⟨rfl, -⟩ := List.cons_prefix_cons.1 ht
    exact hno (hmatch.head hquote)
  | @openString text hno head =>
    obtain ⟨body, rfl⟩ := List.head?_eq_some_iff.1 head
    constructor
    · intro h
      obtain ⟨htext, body', hbody, hunclosed⟩ := h.of_openString
      have hafter : after = [] := List.self_eq_append_right.1 htext
      rw [← htext] at hbody
      obtain ⟨-, rfl⟩ := List.cons.inj hbody
      exact ⟨hafter, hunclosed⟩
    · rintro ⟨rfl, hunclosed⟩
      have hopen : Piece.string body = .openString ('"' :: body) := if_neg hunclosed
      have hfirst := isFirst_string body
      rw [hopen] at hfirst
      rw [List.append_nil]
      exact hfirst

/-! ## Pieces that end before each other -/

/-- Consecutive pieces, each known as what it is, and each ending before the next. -/
inductive IsCut : List Piece → Prop where
  | nil : IsCut []
  | cons {x : Piece} {xs : List Piece} (sound : x.IsSound)
      (ends : x.EndsBefore (xs.flatMap Piece.text)) (later : IsCut xs) : IsCut (x :: xs)

namespace IsCut

variable {xs ys : List Piece}

theorem sound (h : IsCut xs) : ∀ x ∈ xs, x.IsSound := by
  induction h with
  | nil => simp
  | cons sound _ _ ih => exact List.forall_mem_cons.2 ⟨sound, ih⟩

theorem pieces_eq (h : IsCut xs) : pieces (xs.flatMap Piece.text) = xs := by
  induction h with
  | nil => exact pieces_nil
  | cons sound ends _ ih =>
    rw [List.flatMap_cons, pieces_of_isFirst ((isFirst_append_iff sound _).2 ends), ih]

theorem of_append_right (h : IsCut (xs ++ ys)) : IsCut ys := by
  induction xs with
  | nil => exact h
  | cons x xs ih =>
    rw [List.cons_append] at h
    cases h with
    | cons _ _ later => exact ih later

/-- A source that is cut off where a piece ends has the pieces before that place. -/
theorem of_append_left (h : IsCut (xs ++ ys)) : IsCut xs := by
  induction xs with
  | nil => exact .nil
  | cons x xs ih =>
    rw [List.cons_append] at h
    cases h with
    | cons sound ends later =>
      rw [List.flatMap_append] at ends
      exact .cons sound ends.of_append (ih later)

end IsCut

theorem isCut_pieces : (s : List Char) → IsCut (pieces s)
  | [] => by
    rw [pieces_nil]
    exact .nil
  | c :: s => by
    have hfirst := isFirst_first c s
    rw [pieces_cons]
    refine .cons hfirst.sound ?_ (isCut_pieces (afterFirst c s))
    rw [flatten_pieces, ← isFirst_append_iff hfirst.sound, first_append_afterFirst]
    exact hfirst
termination_by s => s.length
decreasing_by exact Nat.lt_succ_of_le (length_afterFirst_le c s)

/-- **Pieces are cut right exactly if they are the pieces of the text that they make up.** -/
theorem isCut_iff {xs : List Piece} : IsCut xs ↔ pieces (xs.flatMap Piece.text) = xs :=
  ⟨IsCut.pieces_eq, fun h => h ▸ isCut_pieces _⟩

end Lox
