import Lox.Grammar

/-!
# Pieces of a source text

`pieces` cuts a source text into consecutive pieces, each as long as it can be: lexemes, blanks
between them, and what is neither. Nothing is lost (`flatten_pieces`), no piece is empty
(`Piece.text_ne_nil`), and what a piece is depends on the text from its first character on and on
nothing before it (`pieces_cons`).
-/

set_option autoImplicit false

namespace Lox

/-- A part of a source text. -/
inductive Piece where
  | lexeme (kind : Kind) (text : List Char)
  /-- A space character or a comment. -/
  | blank (text : List Char)
  /-- A character that nothing begins with. -/
  | stray (c : Char)
  /-- A quote that no other quote follows, with the rest of the source. -/
  | openString (text : List Char)
  deriving DecidableEq, Repr

namespace Piece

/-- The characters of a piece. -/
def text : Piece → List Char
  | lexeme _ text => text
  | blank text => text
  | stray c => [c]
  | openString text => text

/-! ## The first piece of a text -/

/-- The fraction that a text begins with: a point and the digits after it, if there are any. -/
def fraction : List Char → List Char
  | '.' :: s =>
    let digits := s.takeWhile Char.isDigit
    if digits.isEmpty then [] else '.' :: digits
  | _ => []

/-- The number that begins with the digit `c`. -/
def number (c : Char) (s : List Char) : Piece :=
  lexeme .number (c :: s.takeWhile Char.isDigit ++ fraction (s.dropWhile Char.isDigit))

/-- The word that begins with the letter or underscore `c`. -/
def word (c : Char) (s : List Char) : Piece :=
  let text := c :: s.takeWhile isWordPart
  lexeme (Kind.ofWord text) text

/-- The string that begins with a quote before `s`. -/
def string (s : List Char) : Piece :=
  if '"' ∈ s then lexeme .string ('"' :: s.takeWhile (· ≠ '"') ++ ['"']) else openString ('"' :: s)

/-- The mark that begins with `c`; a mark of two characters goes before one of one. -/
def mark? (c : Char) (s : List Char) : Option Punctuation :=
  Punctuation.ofSpelling? (c :: s.take 1) <|> Punctuation.ofSpelling? [c]

/-- The first piece of the text `c :: s`. -/
def first (c : Char) (s : List Char) : Piece :=
  if c = '"' then string s
  else if c.isDigit then number c s
  else if isWordStart c then word c s
  else if isSpace c then blank [c]
  else if c = '/' ∧ s.head? = some '/' then blank (c :: s.takeWhile (· ≠ '\n'))
  else
    match mark? c s with
    | some p => lexeme (.mark p) p.spelling.toList
    | none => stray c

/-! ## The first piece begins the text -/

theorem isPrefix_fraction (s : List Char) : fraction s <+: s := by
  unfold fraction
  split
  · dsimp only
    split
    · exact List.nil_prefix
    · exact List.prefix_cons_inj _ |>.2 (List.takeWhile_prefix _)
  · exact List.nil_prefix

theorem isPrefix_number (c : Char) (s : List Char) : (number c s).text <+: c :: s := by
  unfold number text
  refine (List.prefix_cons_inj _).2 ?_
  conv => rhs; rw [← List.takeWhile_append_dropWhile (p := Char.isDigit) (l := s)]
  exact (List.prefix_append_right_inj _).2 (isPrefix_fraction _)

theorem isPrefix_word (c : Char) (s : List Char) : (word c s).text <+: c :: s :=
  (List.prefix_cons_inj _).2 (List.takeWhile_prefix _)

theorem isPrefix_string (s : List Char) : (string s).text <+: '"' :: s := by
  unfold string
  split
  next h =>
    refine (List.prefix_cons_inj _).2 ?_
    induction s with
    | nil => simp at h
    | cons d s ih =>
      by_cases hd : d = '"'
      · subst hd
        simp
      · have hs : '"' ∈ s := by
          rcases List.mem_cons.1 h with h | h
          · exact absurd h.symm hd
          · exact h
        rw [List.takeWhile_cons_of_pos (by simpa using hd)]
        exact (List.prefix_cons_inj _).2 (ih hs)
  next => exact List.prefix_rfl

theorem isPrefix_of_mark? {c : Char} {s : List Char} {p : Punctuation} (h : mark? c s = some p) :
    p.spelling.toList <+: c :: s := by
  unfold mark? at h
  rcases Option.or_eq_some_iff.1 (by simpa using h) with h | ⟨_, h⟩
  · rw [Punctuation.ofSpelling?_eq_some_iff.1 h]
    exact (List.prefix_cons_inj _).2 (List.take_prefix _ _)
  · rw [Punctuation.ofSpelling?_eq_some_iff.1 h]
    exact (List.prefix_cons_inj _).2 List.nil_prefix

/-- The first piece of a text begins it. -/
theorem isPrefix_first (c : Char) (s : List Char) : (first c s).text <+: c :: s := by
  unfold first
  split
  next h => exact h ▸ isPrefix_string s
  next =>
    split
    next => exact isPrefix_number c s
    next =>
      split
      next => exact isPrefix_word c s
      next =>
        split
        next => exact (List.prefix_cons_inj _).2 List.nil_prefix
        next =>
          split
          next => exact (List.prefix_cons_inj _).2 (List.takeWhile_prefix _)
          next =>
            split
            next p h => exact isPrefix_of_mark? h
            next => exact (List.prefix_cons_inj _).2 List.nil_prefix

/-- The first piece of a text is not empty. -/
theorem first_text_ne_nil (c : Char) (s : List Char) : (first c s).text ≠ [] := by
  unfold first
  split
  next =>
    unfold string
    split <;> simp [text]
  next =>
    split
    next => simp [number, text]
    next =>
      split
      next => simp [word, text]
      next =>
        split
        next => simp [text]
        next =>
          split
          next => simp [text]
          next =>
            split
            next p h => cases p <;> decide
            next => simp [text]

end Piece

/-! ## All pieces -/

/-- What follows the first piece of the text `c :: s`. -/
def afterFirst (c : Char) (s : List Char) : List Char :=
  (c :: s).drop (Piece.first c s).text.length

theorem length_afterFirst_le (c : Char) (s : List Char) : (afterFirst c s).length ≤ s.length := by
  have h := List.length_pos_iff.2 (Piece.first_text_ne_nil c s)
  simp only [afterFirst, List.length_drop, List.length_cons]
  omega

theorem first_append_afterFirst (c : Char) (s : List Char) :
    (Piece.first c s).text ++ afterFirst c s = c :: s := by
  obtain ⟨t, ht⟩ := Piece.isPrefix_first c s
  rw [afterFirst, ← ht, List.drop_left]

/-- The pieces found so far, the latest first, followed by those of the rest of the text. -/
def piecesAfter (found : List Piece) : List Char → List Piece
  | [] => found.reverse
  | c :: s => piecesAfter (Piece.first c s :: found) (afterFirst c s)
termination_by s => s.length
decreasing_by exact Nat.lt_succ_of_le (length_afterFirst_le c s)

/-- The pieces of a text, in order. -/
def pieces (s : List Char) : List Piece :=
  piecesAfter [] s

theorem piecesAfter_eq (found : List Piece) :
    (s : List Char) → piecesAfter found s = found.reverse ++ piecesAfter [] s
  | [] => by simp [piecesAfter]
  | c :: s => by
    rw [piecesAfter, piecesAfter, piecesAfter_eq (_ :: found) (afterFirst c s),
      piecesAfter_eq [_] (afterFirst c s)]
    simp
termination_by s => s.length
decreasing_by all_goals exact Nat.lt_succ_of_le (length_afterFirst_le c s)

@[simp] theorem pieces_nil : pieces [] = [] := by
  simp [pieces, piecesAfter]

/-- The pieces of a text are its first piece and the pieces of what follows. -/
theorem pieces_cons (c : Char) (s : List Char) :
    pieces (c :: s) = Piece.first c s :: pieces (afterFirst c s) := by
  rw [pieces, piecesAfter, piecesAfter_eq]
  rfl

/-- The pieces of a text make it up. -/
theorem flatten_pieces : (s : List Char) → (pieces s).flatMap Piece.text = s
  | [] => by simp
  | c :: s => by
    rw [pieces_cons, List.flatMap_cons, flatten_pieces (afterFirst c s), first_append_afterFirst]
termination_by s => s.length
decreasing_by exact Nat.lt_succ_of_le (length_afterFirst_le c s)

end Lox
