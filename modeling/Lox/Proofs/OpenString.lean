import Lox.Proofs.Cut
import Lox.Proofs.Events

/-!
# Open strings

Nothing follows a string that is not closed, so a source has one of them at most, and it comes last
(`IsCut.closed_or_exists_openString`). A scan reports it exactly if there is one
(`stringsClosed_iff`).
-/

set_option autoImplicit false

namespace Lox

/-- A scan reports no string that nothing closes. -/
def Scan.StringsClosed (s : Scan) : Prop :=
  ∀ d ∈ s.errors, d.message ≠ LexicalFault.unterminatedString.message

instance (s : Scan) : Decidable s.StringsClosed :=
  inferInstanceAs (Decidable (∀ d ∈ s.errors, d.message ≠ _))

/-- Pieces none of which is an open string. -/
def AllClosed (xs : List Piece) : Prop :=
  ∀ x ∈ xs, x.isOpen = false

/-- Either all pieces of a source are closed, or all but the last, and that is an open string. -/
theorem IsCut.closed_or_exists_openString {xs : List Piece} (h : IsCut xs) :
    AllClosed xs ∨
      ∃ ys body, xs = ys ++ [.openString ('"' :: body)] ∧ AllClosed ys ∧ '"' ∉ body := by
  induction h with
  | nil => exact .inl (by simp [AllClosed])
  | @cons x xs sound ends later ih =>
    cases hx : x.isOpen with
    | true =>
      cases sound with
      | openString hno head =>
        obtain ⟨body, rfl⟩ := List.head?_eq_some_iff.1 head
        obtain ⟨hrest, hunclosed⟩ := ends
        -- nothing follows an open string, so no piece does
        have hnil : xs = [] := by
          cases xs with
          | nil => rfl
          | cons y ys =>
            have hy := later.sound y List.mem_cons_self
            exact absurd (List.append_eq_nil_iff.1 hrest).1 hy.text_ne_nil
        exact .inr ⟨[], body, by rw [hnil]; rfl, by simp [AllClosed], hunclosed⟩
      | _ => exact absurd hx (by simp [Piece.isOpen])
    | false =>
      rcases ih with hclosed | ⟨ys, body, rfl, hclosed, hunclosed⟩
      · exact .inl (List.forall_mem_cons.2 ⟨hx, hclosed⟩)
      · exact .inr ⟨x :: ys, body, rfl, List.forall_mem_cons.2 ⟨hx, hclosed⟩, hunclosed⟩

/-- In a source with an open string the pieces before it are those of the text before it. -/
theorem exists_pieces_eq_of_not_allClosed {s : List Char} (h : ¬ AllClosed (pieces s)) :
    ∃ before body, s = before ++ '"' :: body ∧ '"' ∉ body ∧ AllClosed (pieces before) ∧
      pieces s = pieces before ++ [.openString ('"' :: body)] := by
  have hcut := isCut_pieces s
  rcases hcut.closed_or_exists_openString with hclosed | ⟨ys, body, hpieces, hclosed, hunclosed⟩
  · exact absurd hclosed h
  · have hbefore := (hpieces ▸ hcut).of_append_left.pieces_eq
    refine ⟨ys.flatMap Piece.text, body, ?_, hunclosed, hbefore.symm ▸ hclosed, ?_⟩
    · rw [← flatten_pieces s, hpieces, List.flatMap_append, List.flatMap_singleton]
      rfl
    · rw [hbefore, hpieces]

/-! ## What is reported -/

theorem AllClosed.fault_notMem {xs : List Piece} (h : AllClosed xs) (p q : Position) :
    .fault q .unterminatedString ∉ eventsFrom p xs := by
  induction xs generalizing p with
  | nil => exact List.not_mem_nil
  | cons x xs ih =>
    obtain ⟨hx, hxs⟩ := List.forall_mem_cons.1 h
    rw [eventsFrom_cons, List.mem_append, not_or]
    refine ⟨?_, ih hxs _⟩
    cases x with
    | openString text => exact absurd hx (by simp [Piece.isOpen])
    | _ => simp [Piece.eventAt?]

/-- Closed pieces can only have characters that are not expected. -/
theorem AllClosed.message_eq {xs : List Piece} (h : AllClosed xs) (p : Position) :
    ∀ d ∈ (scanOf p xs).errors, d.message = LexicalFault.unexpectedCharacter.message := by
  intro d hd
  obtain ⟨e, he, hdiagnostic⟩ := List.mem_filterMap.1 hd
  cases e with
  | token t => exact absurd hdiagnostic (by simp [Event.diagnostic?])
  | fault q cause =>
    obtain rfl := Option.some.inj hdiagnostic
    cases cause with
    | unexpectedCharacter => rfl
    | unterminatedString => exact absurd he (h.fault_notMem p q)

/-- The fault of an open string is the last thing found. -/
theorem eventsFrom_append_openString (p : Position) (xs : List Piece) (text : List Char) :
    eventsFrom p (xs ++ [.openString text])
      = eventsFrom p xs ++ [.fault (p.advance (xs.flatMap Piece.text)) .unterminatedString] := by
  rw [eventsFrom_append]
  rfl

theorem scanOf_append_openString_errors (p : Position) (xs : List Piece) (text : List Char) :
    (scanOf p (xs ++ [.openString text])).errors = (scanOf p xs).errors
      ++ [.onLine (p.advance (xs.flatMap Piece.text)).line
            LexicalFault.unterminatedString.message] := by
  rw [Scan.errors, scanOf, eventsFrom_append_openString, List.filterMap_append]
  rfl

/-- A scan reports that a string is not closed exactly if the source has an open string. -/
theorem stringsClosed_iff {p : Position} {s : List Char} :
    (scanFrom p s).StringsClosed ↔ AllClosed (pieces s) := by
  rw [← scanOf_pieces]
  constructor
  · intro h
    by_contra hopen
    obtain ⟨before, body, -, -, -, hpieces⟩ := exists_pieces_eq_of_not_allClosed hopen
    rw [hpieces, Scan.StringsClosed, scanOf_append_openString_errors] at h
    exact h _ (List.mem_append_right _ List.mem_cons_self) rfl
  · intro h d hd
    rw [h.message_eq p d hd]
    decide

end Lox
