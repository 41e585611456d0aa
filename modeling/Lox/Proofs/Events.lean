import Lox.Scan

/-!
# The events of pieces

A scan is made of its pieces one by one: what a piece adds to the tokens and to the errors does not
depend on the pieces around it, only on the place where it begins (`scanOf_cons_tokens`,
`scanOf_cons_errors`).
-/

set_option autoImplicit false

namespace Lox

/-- The events of consecutive pieces, the first of which begins at `p`. -/
def eventsFrom (p : Position) (xs : List Piece) : List Event :=
  (placedFrom p xs).filterMap fun (q, x) => x.eventAt? q

/-- The scan of consecutive pieces, the first of which begins at `p`. -/
def scanOf (p : Position) (xs : List Piece) : Scan :=
  ⟨eventsFrom p xs, p.advance (xs.flatMap Piece.text)⟩

theorem scanOf_pieces (p : Position) (s : List Char) : scanOf p (pieces s) = scanFrom p s := by
  rw [scanOf, flatten_pieces]
  rfl

@[simp] theorem eventsFrom_nil (p : Position) : eventsFrom p [] = [] := rfl

theorem eventsFrom_cons (p : Position) (x : Piece) (xs : List Piece) :
    eventsFrom p (x :: xs) = (x.eventAt? p).toList ++ eventsFrom (p.advance x.text) xs := by
  rw [eventsFrom, placedFrom_cons, List.filterMap_cons]
  cases h : x.eventAt? p <;> simp only [h] <;> rfl

theorem scanOf_cons_tokens (p : Position) (x : Piece) (xs : List Piece) :
    (scanOf p (x :: xs)).tokens
      = (x.eventAt? p).toList.filterMap Event.token? ++ (scanOf (p.advance x.text) xs).tokens := by
  simp only [Scan.tokens, scanOf, eventsFrom_cons, List.filterMap_append, List.append_assoc,
    List.flatMap_cons, Position.advance_append]

theorem scanOf_cons_errors (p : Position) (x : Piece) (xs : List Piece) :
    (scanOf p (x :: xs)).errors
      = (x.eventAt? p).toList.filterMap Event.diagnostic?
        ++ (scanOf (p.advance x.text) xs).errors := by
  simp only [Scan.errors, scanOf, eventsFrom_cons, List.filterMap_append]

/-! ## Where tokens stand -/

theorem Event.token?_eq_some_iff {e : Event} {t : Token} : e.token? = some t ↔ e = .token t := by
  cases e <;> simp [token?]

theorem Scan.mem_tokens_iff {s : Scan} {t : Token} :
    t ∈ s.tokens ↔ .token t ∈ s.events ∨ t = eofAt s.stop := by
  simp [tokens, Event.token?_eq_some_iff]

/-- Only lexemes leave tokens. -/
theorem Piece.eventAt?_eq_token_iff {p : Position} {x : Piece} {t : Token} :
    x.eventAt? p = some (.token t) ↔
      ∃ kind text, x = .lexeme kind text ∧ t = tokenAt p kind text := by
  cases x with
  | lexeme kind text =>
    constructor
    · intro h
      exact ⟨kind, text, rfl, (Event.token.inj (Option.some.inj h)).symm⟩
    · rintro ⟨_, _, heq, rfl⟩
      obtain ⟨rfl, rfl⟩ := Piece.lexeme.inj heq
      rfl
  | _ => simp [eventAt?]

/-- Tokens stand inside the text that they were found in. -/
theorem span_of_mem_eventsFrom {p : Position} {xs : List Piece} {t : Token}
    (h : .token t ∈ eventsFrom p xs) :
    p.offset ≤ t.span.start ∧ t.span.start ≤ t.span.stop ∧
      t.span.stop ≤ p.offset + utf8Length (xs.flatMap Piece.text) := by
  induction xs generalizing p with
  | nil => exact absurd h List.not_mem_nil
  | cons x xs ih =>
    rw [eventsFrom_cons] at h
    rw [List.flatMap_cons, utf8Length_append]
    rcases List.mem_append.1 h with h | h
    · obtain ⟨kind, text, rfl, rfl⟩ := Piece.eventAt?_eq_token_iff.1 (Option.mem_toList.1 h)
      simp only [tokenAt, Piece.text]
      omega
    · have hbounds := ih h
      simp only [Position.advance] at hbounds
      omega

theorem offset_le_of_mem_tokens {p : Position} {xs : List Piece} {t : Token}
    (h : t ∈ (scanOf p xs).tokens) : p.offset ≤ t.span.start ∧ t.span.start ≤ t.span.stop := by
  rcases Scan.mem_tokens_iff.1 h with h | rfl
  · exact ⟨(span_of_mem_eventsFrom h).1, (span_of_mem_eventsFrom h).2.1⟩
  · exact ⟨Nat.le_add_right _ _, Nat.le_add_right _ _⟩

/-! ## Pieces behind pieces -/

theorem eventsFrom_append (p : Position) (xs ys : List Piece) :
    eventsFrom p (xs ++ ys)
      = eventsFrom p xs ++ eventsFrom (p.advance (xs.flatMap Piece.text)) ys := by
  induction xs generalizing p with
  | nil => rfl
  | cons x xs ih =>
    rw [List.cons_append, eventsFrom_cons, eventsFrom_cons, ih, List.append_assoc,
      List.flatMap_cons, Position.advance_append]

theorem scanOf_append_tokens (p : Position) (xs ys : List Piece) :
    (scanOf p (xs ++ ys)).tokens = (eventsFrom p xs).filterMap Event.token?
      ++ (scanOf (p.advance (xs.flatMap Piece.text)) ys).tokens := by
  simp only [Scan.tokens, scanOf, eventsFrom_append, List.filterMap_append, List.append_assoc,
    List.flatMap_append, Position.advance_append]

theorem scanOf_append_errors (p : Position) (xs ys : List Piece) :
    (scanOf p (xs ++ ys)).errors
      = (scanOf p xs).errors ++ (scanOf (p.advance (xs.flatMap Piece.text)) ys).errors := by
  simp only [Scan.errors, scanOf, eventsFrom_append, List.filterMap_append]

/-- The last token of a scan is the `eof` token; the others are those found. -/
theorem Scan.dropLast_tokens (s : Scan) : s.tokens.dropLast = s.events.filterMap Event.token? := by
  rw [tokens, List.dropLast_concat]

/-- Blanks leave no events. -/
theorem eventsFrom_blanks_append (p : Position) (blanks : List (List Char)) (xs : List Piece) :
    eventsFrom p (blanks.map Piece.blank ++ xs) = eventsFrom (p.advance blanks.flatten) xs := by
  induction blanks generalizing p with
  | nil => rfl
  | cons text blanks ih =>
    rw [List.map_cons, List.cons_append, eventsFrom_cons, ih, List.flatten_cons,
      Position.advance_append]
    rfl

end Lox
