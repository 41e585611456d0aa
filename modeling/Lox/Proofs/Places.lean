import Lox.Proofs.Cut

/-!
# Pieces in their places

A piece begins where the pieces before it end (`mem_placedFrom_iff`), and it is the first piece of
the text that begins there (`isFirst_of_pieces_eq`). Hence every token of a scan is a longest match
at the place that its span names (`exists_of_mem_tokens`).
-/

set_option autoImplicit false

namespace Lox

namespace Position

theorem offset_le_advance (p : Position) (text : List Char) : p.offset ≤ (p.advance text).offset :=
  Nat.le_add_right _ _

theorem line_le_advance (p : Position) (text : List Char) : p.line ≤ (p.advance text).line :=
  Nat.le_add_right _ _

end Position

theorem utf8Length_pos {text : List Char} (h : text ≠ []) : 0 < utf8Length text := by
  obtain ⟨c, s, rfl⟩ := List.exists_cons_of_ne_nil h
  rw [utf8Length_cons]
  have := c.utf8Size_pos
  omega

/-- Two texts of as many bytes that begin the same source are the same. -/
theorem eq_of_utf8Length_eq {s t s' t' : List Char} (h : s ++ s' = t ++ t')
    (hlen : utf8Length s = utf8Length t) : s = t := by
  rcases List.append_eq_append_iff.1 h with ⟨u, rfl, -⟩ | ⟨u, rfl, -⟩
  · cases u with
    | nil => simp
    | cons c u =>
      have hpos := utf8Length_pos (List.cons_ne_nil c u)
      rw [utf8Length_append] at hlen
      omega
  · cases u with
    | nil => simp
    | cons c u =>
      have hpos := utf8Length_pos (List.cons_ne_nil c u)
      rw [utf8Length_append] at hlen
      omega

/-! ## Places -/

theorem mem_placedFrom_iff {p q : Position} {x : Piece} {xs : List Piece} :
    (q, x) ∈ placedFrom p xs ↔
      ∃ earlier later, xs = earlier ++ x :: later ∧ q = p.advance (earlier.flatMap Piece.text) := by
  induction xs generalizing p with
  | nil => simp
  | cons y ys ih =>
    rw [placedFrom_cons, List.mem_cons, ih]
    constructor
    · rintro (h | ⟨earlier, later, rfl, rfl⟩)
      · obtain ⟨rfl, rfl⟩ := Prod.mk.inj h
        exact ⟨[], ys, rfl, rfl⟩
      · exact ⟨y :: earlier, later, rfl, by rw [List.flatMap_cons, Position.advance_append]⟩
    · rintro ⟨earlier, later, hxs, rfl⟩
      cases earlier with
      | nil =>
        obtain ⟨rfl, rfl⟩ := List.cons.inj hxs
        exact .inl rfl
      | cons z earlier =>
        obtain ⟨rfl, rfl⟩ := List.cons.inj hxs
        exact .inr ⟨earlier, later, rfl, by rw [List.flatMap_cons, Position.advance_append]⟩

/-- A piece that stands before another one ends where the other begins, or earlier. -/
theorem pairwise_placedFrom (p : Position) (xs : List Piece) :
    (placedFrom p xs).Pairwise fun a b =>
      (a.1.advance a.2.text).offset ≤ b.1.offset ∧ (a.1.advance a.2.text).line ≤ b.1.line := by
  induction xs generalizing p with
  | nil => exact List.Pairwise.nil
  | cons x xs ih =>
    rw [placedFrom_cons, List.pairwise_cons]
    refine ⟨fun ⟨q, y⟩ hmem => ?_, ih _⟩
    obtain ⟨earlier, later, -, rfl⟩ := mem_placedFrom_iff.1 hmem
    exact ⟨Position.offset_le_advance _ _, Position.line_le_advance _ _⟩

/-- A piece of a source is what the first piece of the rest of the source is. -/
theorem isFirst_of_pieces_eq {earlier later : List Piece} {x : Piece} {s : List Char}
    (h : pieces s = earlier ++ x :: later) : IsFirst (x.text ++ later.flatMap Piece.text) x := by
  have hcut := isCut_pieces s
  rw [h] at hcut
  cases hcut.of_append_right with
  | cons sound ends _ => exact (isFirst_append_iff sound _).2 ends

/-! ## Tokens in their places -/

/-- A token that is found is the token of a longest match: its span says where that match begins. -/
theorem exists_of_mem_events {s : List Char} {t : Token}
    (h : .token t ∈ (scanFrom .start s).events) :
    ∃ kind before text after, s = before ++ text ++ after ∧ IsLexeme kind text ∧
      IsLongestMatch text (text ++ after) ∧
      t = tokenAt (Position.start.advance before) kind text := by
  obtain ⟨⟨q, x⟩, hplace, hevent⟩ := List.mem_filterMap.1 h
  obtain ⟨earlier, later, hpieces, rfl⟩ := mem_placedFrom_iff.1 hplace
  obtain ⟨kind, text, rfl, rfl⟩ := Piece.eventAt?_eq_token_iff.1 hevent
  have hs : s = earlier.flatMap Piece.text ++ text ++ later.flatMap Piece.text := by
    rw [← flatten_pieces s, hpieces, List.flatMap_append, List.flatMap_cons, List.append_assoc]
    rfl
  obtain ⟨hlex, hlongest⟩ := (isFirst_of_pieces_eq hpieces).of_lexeme
  exact ⟨kind, _, text, _, hs, hlex, hlongest, rfl⟩

/-- The tokens of a scan are those found, and `eof`. -/
theorem exists_of_mem_tokens {s : List Char} {t : Token} (h : t ∈ (scanFrom .start s).tokens) :
    t = eofAt (Position.start.advance s) ∨
      ∃ kind before text after, s = before ++ text ++ after ∧ IsLexeme kind text ∧
        IsLongestMatch text (text ++ after) ∧
        t = tokenAt (Position.start.advance before) kind text := by
  rcases Scan.mem_tokens_iff.1 h with h | h
  · exact .inr (exists_of_mem_events h)
  · exact .inl h

/-- The value of a token of a scan is that of its kind and its text. -/
theorem literal_of_mem_tokens {source : String} {t : Token} (h : t ∈ (scan source).tokens) :
    t.literal = literalOf t.kind t.lexeme.toList := by
  rcases exists_of_mem_tokens h with rfl | ⟨kind, _, text, _, _, _, _, rfl⟩
  · rfl
  · rw [tokenAt, String.toList_ofList]

end Lox
