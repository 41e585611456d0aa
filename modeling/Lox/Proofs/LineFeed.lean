import Lox.Proofs.Move
import Lox.Proofs.OpenString

/-!
# Scanning across a line feed

A line feed lets every piece end but an open string (`Piece.EndsBefore.append_lineFeed`), and it is
a piece of its own. So two sources with a line feed between them are scanned as if each were alone:
the tokens and errors of the first, then those of the second in their places
(`scan_append_lineFeed`).
-/

set_option autoImplicit false

namespace Lox

/-- A line feed lets every piece end that is not an open string. -/
theorem Piece.EndsBefore.append_lineFeed {x : Piece} {after : List Char} (h : x.EndsBefore after)
    (hclosed : x.isOpen = false) (more : List Char) : x.EndsBefore (after ++ '\n' :: more) := by
  cases after with
  | nil =>
    cases x with
    | lexeme kind text => exact not_extends_of_isSpace (by decide)
    | blank text => exact fun _ c hc => (Option.some.inj hc).symm
    | stray c => trivial
    | openString text => exact absurd hclosed (by simp [isOpen])
  | cons c s => exact h.append_cons (List.cons_ne_nil c s) (by decide)

/-- A line feed stands between two sources as a piece of its own. -/
theorem IsCut.append_lineFeed {xs ys : List Piece} (hxs : IsCut xs) (hclosed : AllClosed xs)
    (hys : IsCut ys) : IsCut (xs ++ .blank ['\n'] :: ys) := by
  induction hxs with
  | nil => exact .cons (.blank (.space (by decide))) (fun h => absurd h (by decide)) hys
  | @cons x xs sound ends _ ih =>
    obtain ⟨hx, hclosed⟩ := List.forall_mem_cons.1 hclosed
    rw [List.cons_append]
    refine .cons sound ?_ (ih hclosed)
    rw [List.flatMap_append]
    exact ends.append_lineFeed hx _

theorem pieces_append_lineFeed {a : List Char} (hclosed : AllClosed (pieces a)) (b : List Char) :
    pieces (a ++ '\n' :: b) = pieces a ++ .blank ['\n'] :: pieces b := by
  have hcut := ((isCut_pieces a).append_lineFeed hclosed (isCut_pieces b)).pieces_eq
  rw [List.flatMap_append, List.flatMap_cons, flatten_pieces, flatten_pieces] at hcut
  exact hcut

/-- The scan of what comes after a text and a line feed is moved by both. -/
theorem scanFrom_advance_lineFeed (a b : List Char) :
    scanFrom ((Position.start.advance a).advance ['\n']) b
      = (scanFrom .start b).moveBy (utf8Length a + 1) (a.count '\n' + 1) := by
  have hstart : (Position.start.advance a).advance ['\n']
      = Position.start.moveBy (utf8Length a + 1) (a.count '\n' + 1) := by
    rw [← Position.advance_append, advance_start, utf8Length_append, List.count_append]
    rfl
  rw [hstart, scanFrom_moveBy]

section

variable {a : List Char}

theorem tokens_append_lineFeed (hclosed : AllClosed (pieces a)) (b : List Char) :
    (scanFrom .start (a ++ '\n' :: b)).tokens
      = (scanFrom .start a).tokens.dropLast ++ (scanFrom .start b).tokens.map
          (·.moveBy (utf8Length a + 1) (a.count '\n' + 1)) := by
  calc (scanFrom .start (a ++ '\n' :: b)).tokens
      = (scanOf .start (pieces a ++ .blank ['\n'] :: pieces b)).tokens := by
        rw [← scanOf_pieces, pieces_append_lineFeed hclosed]
    _ = (scanFrom .start a).tokens.dropLast
          ++ (scanFrom ((Position.start.advance a).advance ['\n']) b).tokens := by
        rw [scanOf_append_tokens, scanOf_cons_tokens, flatten_pieces, scanOf_pieces,
          Scan.dropLast_tokens]
        rfl
    _ = _ := by rw [scanFrom_advance_lineFeed, Scan.tokens_moveBy]

theorem errors_append_lineFeed (hclosed : AllClosed (pieces a)) (b : List Char) :
    (scanFrom .start (a ++ '\n' :: b)).errors
      = (scanFrom .start a).errors
        ++ (scanFrom .start b).errors.map (·.moveBy (a.count '\n' + 1)) := by
  calc (scanFrom .start (a ++ '\n' :: b)).errors
      = (scanOf .start (pieces a ++ .blank ['\n'] :: pieces b)).errors := by
        rw [← scanOf_pieces, pieces_append_lineFeed hclosed]
    _ = (scanFrom .start a).errors
          ++ (scanFrom ((Position.start.advance a).advance ['\n']) b).errors := by
        rw [scanOf_append_errors, scanOf_cons_errors, flatten_pieces, scanOf_pieces,
          scanOf_pieces]
        rfl
    _ = _ := by rw [scanFrom_advance_lineFeed, Scan.errors_moveBy]

end

/-- **Sources are scanned apart where a line feed divides them.** If no string is open at the end of
the first, the scan of both finds the tokens and errors of the first, without its last token, and
then those of the second, moved by the bytes and the lines before it. -/
theorem scan_append_lineFeed (a b : String) (closed : (scan a).StringsClosed) :
    (scan (a ++ "\n" ++ b)).tokens
        = (scan a).tokens.dropLast ++ (scan b).tokens.map
            (·.moveBy (utf8Length a.toList + 1) (a.toList.count '\n' + 1)) ∧
      (scan (a ++ "\n" ++ b)).errors
        = (scan a).errors ++ (scan b).errors.map (·.moveBy (a.toList.count '\n' + 1)) := by
  have htext : (a ++ "\n" ++ b).toList = a.toList ++ '\n' :: b.toList := by simp
  have hclosed := stringsClosed_iff.1 closed
  rw [scan, htext]
  exact ⟨tokens_append_lineFeed hclosed b.toList, errors_append_lineFeed hclosed b.toList⟩

/-- A number that a point follows, a character that is not expected and a comment, and then a
fraction that is none and an open string. -/
theorem scan_append_lineFeed_behind_comment :
    (scan "1. @ // \"").StringsClosed ∧
      (scan ("1. @ // \"" ++ "\n" ++ ".5\n\"")).tokens
        = (scan "1. @ // \"").tokens.dropLast ++ (scan ".5\n\"").tokens.map (·.moveBy 10 1) ∧
      (scan ("1. @ // \"" ++ "\n" ++ ".5\n\"")).errors
        = (scan "1. @ // \"").errors ++ (scan ".5\n\"").errors.map (·.moveBy 1) := by
  have closed : (scan "1. @ // \"").StringsClosed := by decide +kernel
  exact ⟨closed, scan_append_lineFeed "1. @ // \"" ".5\n\"" closed⟩

end Lox
