import Lox.Proofs.Places
import Mathlib.Data.List.Basic

/-!
# Lines

Every token and every error of a scan carries the line on which its text begins, which is one more
than the number of line feeds before that text (`lines_exact`). Line feeds inside a string or an
open string count for what comes after it only.
-/

set_option autoImplicit false

namespace Lox

/-! ## The line of a byte -/

/-- The characters of a text that begin before its byte `n`. -/
def charsBefore : Nat → List Char → List Char
  | _, [] => []
  | n, c :: s => if n = 0 then [] else c :: charsBefore (n - c.utf8Size) s

/-- The line on which the byte `offset` of a source stands. -/
def lineAt (source : List Char) (offset : Nat) : Nat :=
  1 + (charsBefore offset source).count '\n'

theorem charsBefore_append (s t : List Char) : charsBefore (utf8Length s) (s ++ t) = s := by
  induction s with
  | nil => cases t <;> rfl
  | cons c s ih =>
    have hpos := c.utf8Size_pos
    rw [utf8Length_cons, List.cons_append, charsBefore, if_neg (by omega), Nat.add_sub_cancel_left,
      ih]

/-- A position reached from the start knows its line. -/
theorem line_advance_start (s t : List Char) :
    (Position.start.advance s).line = lineAt (s ++ t) (Position.start.advance s).offset := by
  have hoffset : (Position.start.advance s).offset = utf8Length s := Nat.zero_add _
  rw [lineAt, hoffset, charsBefore_append]
  rfl

/-! ## Faults -/

/-- A piece that is no match begins at a byte of a source: a single character, or an open string. -/
inductive FaultAt (source : List Char) (offset : Nat) : LexicalFault → Prop where
  | unexpectedCharacter {earlier later : List (List Char)} {c : Char}
      (split : IsSplit source (earlier ++ [c] :: later))
      (place : utf8Length earlier.flatten = offset) (noMatch : ¬ Matches [c]) (noQuote : c ≠ '"') :
      FaultAt source offset .unexpectedCharacter
  | unterminatedString {earlier : List (List Char)} {body : List Char}
      (split : IsSplit source (earlier ++ [('"' :: body)]))
      (place : utf8Length earlier.flatten = offset) (unclosed : '"' ∉ body) :
      FaultAt source offset .unterminatedString

/-- The fault of a piece. -/
def Piece.fault? : Piece → Option LexicalFault
  | lexeme _ _ => none
  | blank _ => none
  | stray _ => some .unexpectedCharacter
  | openString _ => some .unterminatedString

/-- The faults of a source, each with the byte where it begins. -/
def faultsOf (s : List Char) : List (Nat × LexicalFault) :=
  (placedFrom .start (pieces s)).filterMap fun (q, x) => x.fault?.map (q.offset, ·)

theorem mem_faultsOf_iff {s : List Char} {offset : Nat} {cause : LexicalFault} :
    (offset, cause) ∈ faultsOf s ↔
      ∃ earlier x later, pieces s = earlier ++ x :: later ∧
        offset = utf8Length (earlier.flatMap Piece.text) ∧ x.fault? = some cause := by
  rw [faultsOf, List.mem_filterMap]
  constructor
  · rintro ⟨⟨q, x⟩, hplace, hfault⟩
    obtain ⟨earlier, later, hpieces, rfl⟩ := mem_placedFrom_iff.1 hplace
    obtain ⟨cause', hcause, heq⟩ := Option.map_eq_some_iff.1 hfault
    obtain ⟨rfl, rfl⟩ := Prod.mk.inj heq
    exact ⟨earlier, x, later, hpieces, Nat.zero_add _, hcause⟩
  · rintro ⟨earlier, x, later, hpieces, rfl, hcause⟩
    refine ⟨_, mem_placedFrom_iff.2 ⟨earlier, later, hpieces, rfl⟩, ?_⟩
    exact Option.map_eq_some_iff.2 ⟨cause, hcause, Prod.ext (Nat.zero_add _) rfl⟩

theorem isSplit_of_pieces_eq {s : List Char} {earlier later : List Piece} {x : Piece}
    (h : pieces s = earlier ++ x :: later) :
    IsSplit s (earlier.map Piece.text ++ x.text :: later.map Piece.text) := by
  rw [isSplit_iff, h, List.map_append, List.map_cons]

/-- A text in the split of a source is the text of a piece. -/
theorem pieces_eq_of_isSplit {s text : List Char} {earlier later : List (List Char)}
    (h : IsSplit s (earlier ++ text :: later)) :
    ∃ xs x ys, pieces s = xs ++ x :: ys ∧ xs.map Piece.text = earlier ∧ x.text = text ∧
      ys.map Piece.text = later := by
  obtain ⟨xs, zs, hpieces, rfl, hzs⟩ := List.map_eq_append_iff.1 (isSplit_iff.1 h).symm
  obtain ⟨x, ys, rfl, rfl, rfl⟩ := List.map_eq_cons_iff.1 hzs
  exact ⟨xs, x, ys, hpieces, rfl, rfl, rfl⟩

/-- A piece that begins with a quote which nothing closes is an open string. -/
theorem IsFirst.eq_openString {s body : List Char} {x : Piece} (h : IsFirst s x)
    (htext : x.text = '"' :: body) (unclosed : '"' ∉ body) : x = .openString ('"' :: body) := by
  have hno : ¬ Matches ('"' :: body) := by
    intro hmatch
    obtain ⟨inner, -, rfl⟩ := hmatch.of_quote
    exact unclosed (by simp)
  exact h.sound.eq_openString hno rfl htext

/-- The list of faults is what the split says. -/
theorem mem_faultsOf_iff_faultAt {s : List Char} {offset : Nat} {cause : LexicalFault} :
    (offset, cause) ∈ faultsOf s ↔ FaultAt s offset cause := by
  rw [mem_faultsOf_iff]
  constructor
  · rintro ⟨earlier, x, later, hpieces, rfl, hcause⟩
    have hfirst := isFirst_of_pieces_eq hpieces
    have hsplit := isSplit_of_pieces_eq hpieces
    have hplace : utf8Length (earlier.map Piece.text).flatten
        = utf8Length (earlier.flatMap Piece.text) := by rw [List.flatMap_def]
    cases x with
    | lexeme _ _ => exact absurd hcause (by simp [Piece.fault?])
    | blank _ => exact absurd hcause (by simp [Piece.fault?])
    | stray c =>
      obtain rfl := Option.some.inj hcause
      cases hfirst.sound with
      | stray hno hquote => exact .unexpectedCharacter hsplit hplace hno hquote
    | openString text =>
      obtain rfl := Option.some.inj hcause
      obtain ⟨htext, body, hbody, hunclosed⟩ := hfirst.of_openString
      -- it takes all that is left, and no piece is empty
      have hlater : later = [] := by
        have hnil : later.flatMap Piece.text = [] := List.self_eq_append_right.1 htext
        cases later with
        | nil => rfl
        | cons y later =>
          have hy := isSound_of_mem_pieces s y (by simp [hpieces])
          exact absurd (List.append_eq_nil_iff.1 hnil).1 hy.text_ne_nil
      rw [htext, hbody, hlater] at hsplit
      exact .unterminatedString hsplit hplace hunclosed
  · rintro (⟨split, place, hno, hquote⟩ | ⟨split, place, hunclosed⟩)
    · obtain ⟨xs, x, ys, hpieces, rfl, htext, -⟩ := pieces_eq_of_isSplit split
      have hx := (isFirst_of_pieces_eq hpieces).sound.eq_stray hno hquote htext
      refine ⟨xs, x, ys, hpieces, ?_, hx ▸ rfl⟩
      rw [← place, List.flatMap_def]
    · obtain ⟨xs, x, ys, hpieces, rfl, htext, -⟩ := pieces_eq_of_isSplit split
      have hx := (isFirst_of_pieces_eq hpieces).eq_openString htext hunclosed
      refine ⟨xs, x, ys, hpieces, ?_, hx ▸ rfl⟩
      rw [← place, List.flatMap_def]

/-! ## Lines of places -/

/-- Every piece stands on the line of the byte where it begins. -/
theorem line_of_mem_placedFrom {s : List Char} {q : Position} {x : Piece}
    (h : (q, x) ∈ placedFrom .start (pieces s)) : q.line = lineAt s q.offset := by
  obtain ⟨earlier, later, hpieces, rfl⟩ := mem_placedFrom_iff.1 h
  have hs : s = earlier.flatMap Piece.text ++ (x :: later).flatMap Piece.text := by
    rw [← List.flatMap_append, ← hpieces, flatten_pieces]
  rw [line_advance_start _ ((x :: later).flatMap Piece.text), ← hs]

/-- The errors of a scan are its faults, each on the line of the byte where it begins. -/
theorem errors_eq_map_faultsOf (s : List Char) :
    (scanFrom .start s).errors
      = (faultsOf s).map fun f => ⟨lineAt s f.1, "", f.2.message⟩ := by
  rw [Scan.errors, scanFrom, List.filterMap_filterMap, faultsOf, List.map_filterMap]
  refine List.filterMap_congr ?_
  rintro ⟨q, x⟩ hplace
  have hline := line_of_mem_placedFrom hplace
  cases x with
  | lexeme _ _ => rfl
  | blank _ => rfl
  | stray _ => exact congrArg (fun line => some (Diagnostic.onLine line _)) hline
  | openString _ => exact congrArg (fun line => some (Diagnostic.onLine line _)) hline

/-- Pieces are not empty, so each begins strictly before the next one. -/
theorem pairwise_offset_placedFrom (s : List Char) :
    (placedFrom .start (pieces s)).Pairwise fun a b => a.1.offset < b.1.offset := by
  have hne : ∀ b ∈ placedFrom .start (pieces s), b.2.text ≠ [] := by
    rintro ⟨q, x⟩ hplace
    obtain ⟨earlier, later, hpieces, -⟩ := mem_placedFrom_iff.1 hplace
    exact (isFirst_of_pieces_eq hpieces).sound.text_ne_nil
  refine (pairwise_placedFrom .start (pieces s)).imp_of_mem fun {a b} ha _ hab => ?_
  have hpos := utf8Length_pos (hne a ha)
  exact Nat.lt_of_lt_of_le (Nat.lt_add_of_pos_right hpos) hab.1

theorem pairwise_faultsOf (s : List Char) : (faultsOf s).Pairwise fun f g => f.1 < g.1 := by
  refine (pairwise_offset_placedFrom s).filterMap _ ?_
  rintro ⟨q, x⟩ ⟨q', x'⟩ hlt f hf g hg
  obtain ⟨_, -, rfl⟩ := Option.map_eq_some_iff.1 hf
  obtain ⟨_, -, rfl⟩ := Option.map_eq_some_iff.1 hg
  exact hlt

/-- A token that comes after another one stands below all lines of the other. -/
theorem pairwise_tokens_line (s : List Char) :
    (scanFrom .start s).tokens.Pairwise fun t u =>
      t.line + t.lexeme.toList.count '\n' ≤ u.line := by
  -- a token stands at the place of its piece, and the line feeds in it are those of the piece
  have htoken : ∀ {q : Position} {x : Piece} {t : Token},
      (x.eventAt? q).bind Event.token? = some t →
      t.line = q.line ∧ t.line + t.lexeme.toList.count '\n' = (q.advance x.text).line := by
    intro q x t h
    cases x with
    | lexeme kind text =>
      obtain rfl := Option.some.inj h
      exact ⟨rfl, by simp [tokenAt, Piece.text, Position.advance]⟩
    | blank _ => exact absurd h (by simp [Piece.eventAt?])
    | stray _ => exact absurd h (by simp [Piece.eventAt?, Event.token?])
    | openString _ => exact absurd h (by simp [Piece.eventAt?, Event.token?])
  rw [Scan.tokens, scanFrom, List.filterMap_filterMap, List.pairwise_append]
  refine ⟨(pairwise_placedFrom .start (pieces s)).filterMap _ ?_, List.pairwise_singleton _ _, ?_⟩
  · rintro ⟨q, x⟩ ⟨q', x'⟩ ⟨-, hline⟩ t ht u hu
    rw [(htoken ht).2, (htoken hu).1]
    exact hline
  · intro t ht u hu
    obtain rfl := List.mem_singleton.1 hu
    obtain ⟨⟨q, x⟩, hplace, ht⟩ := List.mem_filterMap.1 ht
    obtain ⟨earlier, later, hpieces, rfl⟩ := mem_placedFrom_iff.1 hplace
    have hs : s = earlier.flatMap Piece.text ++ (x.text ++ later.flatMap Piece.text) := by
      rw [← flatten_pieces s, hpieces, List.flatMap_append, List.flatMap_cons]
    rw [(htoken ht).2]
    show _ ≤ (Position.start.advance s).line
    rw [hs, Position.advance_append, Position.advance_append]
    exact Position.line_le_advance _ _

theorem eofAt_advance_start (s : List Char) :
    eofAt (Position.start.advance s)
      = ⟨.eof, "", .absent, 1 + s.count '\n', ⟨utf8Length s, utf8Length s⟩⟩ := by
  simp [eofAt, tokenAt, literalOf, Position.advance, Position.start]

theorem lineAt_mono (s : List Char) {m n : Nat} (h : m ≤ n) : lineAt s m ≤ lineAt s n := by
  refine Nat.add_le_add_left ?_ 1
  induction s generalizing m n with
  | nil => cases m <;> cases n <;> rfl
  | cons c s ih =>
    by_cases hm : m = 0
    · simp [charsBefore, hm]
    · have hn : n ≠ 0 := by omega
      have htail : m - c.utf8Size ≤ n - c.utf8Size := by omega
      simp only [charsBefore, if_neg hm, if_neg hn, List.count_cons]
      exact Nat.add_le_add_right (ih htail) _

/-- **Lines are exact.** A token stands on the line of its first byte, the last one on the line that
the source ends on; what comes after a token stands below the line feeds inside it. The errors are
those of the faults of the split, in their order, each on the line of its first byte. -/
theorem lines_exact (source : String) :
    (∀ t ∈ (scan source).tokens, t.line = lineAt source.toList t.span.start) ∧
    (∃ earlier, (scan source).tokens = earlier ++
      [⟨.eof, "", .absent, 1 + source.toList.count '\n',
        ⟨utf8Length source.toList, utf8Length source.toList⟩⟩]) ∧
    (scan source).tokens.Pairwise (fun t u => t.line + t.lexeme.toList.count '\n' ≤ u.line) ∧
    (∃ faults : List (Nat × LexicalFault),
      (∀ offset cause, (offset, cause) ∈ faults ↔ FaultAt source.toList offset cause) ∧
      faults.Pairwise (fun f g => f.1 < g.1) ∧
      (scan source).errors = faults.map fun f => ⟨lineAt source.toList f.1, "", f.2.message⟩) ∧
    (scan source).errors.Pairwise fun d e => d.line ≤ e.line := by
  have hlast : (scan source).tokens
      = (scan source).events.filterMap Event.token? ++ [_] :=
    congrArg (fun t => _ ++ [t]) (eofAt_advance_start source.toList)
  refine ⟨fun t ht => ?_, ⟨_, hlast⟩, pairwise_tokens_line _,
    ⟨faultsOf source.toList, fun _ _ => mem_faultsOf_iff_faultAt, pairwise_faultsOf _,
      errors_eq_map_faultsOf _⟩, ?_⟩
  · rcases exists_of_mem_tokens ht with rfl | ⟨kind, before, text, after, hs, -, -, rfl⟩
    · have hline := line_advance_start source.toList []
      rwa [List.append_nil] at hline
    · rw [hs, List.append_assoc]
      exact line_advance_start before (text ++ after)
  · rw [show (scan source).errors = _ from errors_eq_map_faultsOf _, List.pairwise_map]
    exact (pairwise_faultsOf _).imp fun h => lineAt_mono _ (Nat.le_of_lt h)

end Lox
