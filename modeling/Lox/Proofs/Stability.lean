import Lox.Proofs.Cut
import Lox.Proofs.Events

/-!
# What later text cannot change

Two bytes behind a piece are enough to see that it ends (`Piece.EndsBefore.append_iff`). So a piece
that ends two bytes or more before the end of a source is the first piece of every longer source
too (`isFirst_append_append_iff`), and the tokens up to there stay whatever text is added
(`scan_append_settled`).
-/

set_option autoImplicit false

namespace Lox

/-- Two bytes show a piece whether it ends. -/
theorem Piece.EndsBefore.append_iff {x : Piece} {after : List Char} (h : 2 ≤ utf8Length after)
    (more : List Char) : x.EndsBefore (after ++ more) ↔ x.EndsBefore after := by
  cases after with
  | nil => exact absurd h (by simp)
  | cons c s =>
    cases x with
    | lexeme kind text =>
      refine not_congr (extends_cons_iff fun hpoint => ?_)
      -- a point is one byte, so another character follows it
      cases s with
      | nil =>
        subst hpoint
        exact absurd h (by decide)
      | cons d s => rfl
    | blank text => rfl
    | stray c => rfl
    | openString text => simp [EndsBefore]

/-- A piece with two bytes behind it is the first one of a text, or it is not, whatever goes on
behind these bytes. -/
theorem isFirst_append_append_iff {x : Piece} {after : List Char} (h : 2 ≤ utf8Length after)
    (more : List Char) : IsFirst (x.text ++ (after ++ more)) x ↔ IsFirst (x.text ++ after) x := by
  have hends := Piece.EndsBefore.append_iff (x := x) h more
  constructor
  · intro hx
    exact (isFirst_append_iff hx.sound _).2 (hends.1 ((isFirst_append_iff hx.sound _).1 hx))
  · intro hx
    exact (isFirst_append_iff hx.sound _).2 (hends.2 ((isFirst_append_iff hx.sound _).1 hx))

/-- If the first piece of a text reaches into its last two bytes, so does the first piece of every
longer text. -/
theorem IsFirst.reaches_of_append {a more after : List Char} {x y : Piece} (hx : IsFirst a x)
    (hreach : utf8Length a < utf8Length x.text + 2) (hy : IsFirst (y.text ++ after) y)
    (happend : y.text ++ after = a ++ more) : utf8Length a < utf8Length y.text + 2 := by
  by_contra hshort
  rcases List.append_eq_append_iff.1 happend with ⟨u, rfl, rfl⟩ | ⟨u, hu, -⟩
  · rw [utf8Length_append] at hshort hreach
    -- the longer text has a first piece that ends early, so it is that of the shorter one too
    have hy' := (isFirst_append_append_iff (by omega) more).1 hy
    obtain rfl := hx.unique hy'
    omega
  · rw [hu, utf8Length_append] at hshort
    omega

/-! ## Settled tokens -/

/-- The tokens that end two bytes or more before byte `n`. -/
def Scan.tokensSettledAt (s : Scan) (n : Nat) : List Token :=
  s.tokens.filter fun t => t.span.stop + 2 ≤ n

theorem Scan.tokensSettledAt_eq_nil {s : Scan} {n : Nat}
    (h : ∀ t ∈ s.tokens, n < t.span.stop + 2) : s.tokensSettledAt n = [] := by
  refine List.filter_eq_nil_iff.2 fun t ht => ?_
  have hlate := h t ht
  simp only [decide_eq_true_eq]
  omega

theorem tokensSettledAt_scanOf_cons (p : Position) (x : Piece) (xs : List Piece) (n : Nat) :
    (scanOf p (x :: xs)).tokensSettledAt n
      = ((x.eventAt? p).toList.filterMap Event.token?).filter (fun t => t.span.stop + 2 ≤ n)
        ++ (scanOf (p.advance x.text) xs).tokensSettledAt n := by
  rw [Scan.tokensSettledAt, scanOf_cons_tokens, List.filter_append]
  rfl

theorem stop_of_mem_tokens_cons {p : Position} {x : Piece} {xs : List Piece} {t : Token}
    (h : t ∈ (scanOf p (x :: xs)).tokens) : p.offset + utf8Length x.text ≤ t.span.stop := by
  rw [scanOf_cons_tokens] at h
  rcases List.mem_append.1 h with h | h
  · cases x with
    | lexeme kind text =>
      obtain rfl := List.mem_singleton.1 h
      exact Nat.le_refl _
    | _ => exact absurd h List.not_mem_nil
  · obtain ⟨hstart, hstop⟩ := offset_le_of_mem_tokens h
    exact Nat.le_trans hstart hstop

/-- If the first piece of a text reaches into its last two bytes, no token is settled there. -/
theorem tokensSettledAt_of_reaches {p : Position} {x : Piece} {xs : List Piece} {n : Nat}
    (h : n < utf8Length x.text + 2) : (scanOf p (x :: xs)).tokensSettledAt (p.offset + n) = [] := by
  refine Scan.tokensSettledAt_eq_nil fun t ht => ?_
  have hstop := stop_of_mem_tokens_cons ht
  omega

/-- If the first piece of a text reaches into its last two bytes, no token is settled there in any
longer text. -/
theorem tokensSettledAt_append_of_reaches {a : List Char} {x : Piece} (hx : IsFirst a x)
    (hreach : utf8Length a < utf8Length x.text + 2) (more : List Char) (p : Position) :
    (scanFrom p (a ++ more)).tokensSettledAt (p.offset + utf8Length a) = [] := by
  have hne : a ++ more ≠ [] := by
    intro hnil
    obtain ⟨rfl, -⟩ := List.append_eq_nil_iff.1 hnil
    exact hx.sound.text_ne_nil (List.prefix_nil.1 hx.next.isPrefix)
  obtain ⟨c, s, hs⟩ := List.exists_cons_of_ne_nil hne
  have hcut := first_append_afterFirst c s
  have hfirst : IsFirst ((Piece.first c s).text ++ afterFirst c s) (Piece.first c s) :=
    hcut.symm ▸ isFirst_first c s
  rw [hs, ← scanOf_pieces, pieces_cons]
  exact tokensSettledAt_of_reaches (hx.reaches_of_append hreach hfirst (hcut.trans hs.symm))

/-- Text behind a source leaves the tokens that are settled in it. -/
theorem IsCut.tokensSettledAt_append {xs : List Piece} (h : IsCut xs) (more : List Char)
    (p : Position) :
    (scanFrom p (xs.flatMap Piece.text ++ more)).tokensSettledAt
        (p.offset + utf8Length (xs.flatMap Piece.text))
      = (scanOf p xs).tokensSettledAt (p.offset + utf8Length (xs.flatMap Piece.text)) := by
  induction h generalizing p with
  | nil =>
    have hnone : ∀ ys, (scanOf p ys).tokensSettledAt (p.offset + 0) = [] := fun ys =>
      Scan.tokensSettledAt_eq_nil fun t ht => by
        have hbounds := offset_le_of_mem_tokens ht
        omega
    rw [← scanOf_pieces]
    exact (hnone _).trans (hnone _).symm
  | @cons x xs sound ends later ih =>
    rw [List.flatMap_cons]
    by_cases hsettled : 2 ≤ utf8Length (xs.flatMap Piece.text)
    · -- the longer source has the same first piece, and behind it the same is settled
      have hends := (Piece.EndsBefore.append_iff hsettled more).2 ends
      have hpieces := pieces_of_isFirst ((isFirst_append_iff sound _).2 hends)
      have hoffset : p.offset + utf8Length (x.text ++ xs.flatMap Piece.text)
          = (p.advance x.text).offset + utf8Length (xs.flatMap Piece.text) := by
        rw [utf8Length_append, Position.advance, Nat.add_assoc]
      rw [List.append_assoc, ← scanOf_pieces, hpieces, tokensSettledAt_scanOf_cons,
        tokensSettledAt_scanOf_cons, scanOf_pieces, hoffset, ih (p.advance x.text)]
    · -- the first piece reaches into the last two bytes, and so it does in the longer source
      have hfirst := (isFirst_append_iff sound _).2 ends
      have hreach : utf8Length (x.text ++ xs.flatMap Piece.text) < utf8Length x.text + 2 := by
        rw [utf8Length_append]
        omega
      rw [tokensSettledAt_of_reaches hreach,
        tokensSettledAt_append_of_reaches hfirst hreach more p]

/-- **Later text changes nothing that ends two bytes before it.** The tokens that end two bytes or
more before the end of a source are the tokens that end there in every source that goes on from
it. -/
theorem scan_append_settled (a b : String) :
    (scan (a ++ b)).tokensSettledAt (utf8Length a.toList)
      = (scan a).tokensSettledAt (utf8Length a.toList) := by
  have hcut := (isCut_pieces a.toList).tokensSettledAt_append b.toList .start
  have hstart : Position.start.offset + utf8Length a.toList = utf8Length a.toList := Nat.zero_add _
  rw [flatten_pieces, scanOf_pieces, hstart] at hcut
  rw [scan, String.toList_append]
  exact hcut

/-- One byte is not enough: a point ends a number only if no digit comes behind it. -/
example : (scan "1.").tokens.map Token.span = [⟨0, 1⟩, ⟨1, 2⟩, ⟨2, 2⟩] ∧
    (scan ("1." ++ "5")).tokens.map Token.span = [⟨0, 3⟩, ⟨3, 3⟩] := by
  decide +kernel

end Lox
