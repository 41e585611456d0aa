import Lox.Proofs.Move
import Lox.Proofs.Places

/-!
# Scanning from a token on

A token begins where a piece begins (`exists_pieces_of_tokens_eq`), and from there on the pieces are
those of the text that begins there. So a scan of that text alone finds the token, what comes after
it, and the errors that begin behind it, only in other places (`scan_from_token`). What came before
is not remembered.
-/

set_option autoImplicit false

namespace Lox

/-! ## Where events stand -/

/-- The byte where what is found begins. -/
def Event.offset : Event → Nat
  | token t => t.span.start
  | fault start _ => start.offset

/-- The diagnostics of the faults that begin at the byte `n` or later. -/
def Scan.errorsFrom (s : Scan) (n : Nat) : List Diagnostic :=
  (s.events.filter fun e => n ≤ e.offset).filterMap Event.diagnostic?

theorem Piece.offset_of_eventAt? {p : Position} {x : Piece} {e : Event}
    (h : x.eventAt? p = some e) : e.offset = p.offset := by
  cases x with
  | blank text => exact absurd h (by simp [eventAt?])
  | _ =>
    obtain rfl := Option.some.inj h
    rfl

/-- What is found in pieces begins inside them. -/
theorem offset_of_mem_eventsFrom {p : Position} {xs : List Piece} {e : Event}
    (hxs : ∀ x ∈ xs, x.IsSound) (h : e ∈ eventsFrom p xs) :
    p.offset ≤ e.offset ∧ e.offset < p.offset + utf8Length (xs.flatMap Piece.text) := by
  induction xs generalizing p with
  | nil => exact absurd h List.not_mem_nil
  | cons x xs ih =>
    obtain ⟨hx, hxs⟩ := List.forall_mem_cons.1 hxs
    have hpos := utf8Length_pos hx.text_ne_nil
    rw [eventsFrom_cons, List.mem_append] at h
    rw [List.flatMap_cons, utf8Length_append]
    rcases h with h | h
    · have hoffset := Piece.offset_of_eventAt? (Option.mem_toList.1 h)
      omega
    · have hbounds := ih hxs h
      simp only [Position.advance] at hbounds
      omega

/-- From the byte on where a piece begins, the errors are those of the pieces from there on. -/
theorem errorsFrom_append {p : Position} {xs ys : List Piece} (h : IsCut (xs ++ ys)) :
    (scanOf p (xs ++ ys)).errorsFrom (p.advance (xs.flatMap Piece.text)).offset
      = (scanOf (p.advance (xs.flatMap Piece.text)) ys).errors := by
  have hbefore : (eventsFrom p xs).filter
      (fun e => (p.advance (xs.flatMap Piece.text)).offset ≤ e.offset) = [] := by
    refine List.filter_eq_nil_iff.2 fun e he hle => ?_
    have hlt := (offset_of_mem_eventsFrom h.of_append_left.sound he).2
    exact absurd hlt (Nat.not_lt.2 (of_decide_eq_true hle))
  have hafter : (eventsFrom (p.advance (xs.flatMap Piece.text)) ys).filter
      (fun e => (p.advance (xs.flatMap Piece.text)).offset ≤ e.offset)
        = eventsFrom (p.advance (xs.flatMap Piece.text)) ys := by
    refine List.filter_eq_self.2 fun e he => ?_
    exact decide_eq_true (offset_of_mem_eventsFrom h.of_append_right.sound he).1
  rw [Scan.errorsFrom, scanOf, eventsFrom_append, List.filter_append, hbefore, hafter]
  rfl

/-! ## The pieces from a token on -/

/-- A token and those after it are the tokens of the pieces from the one on where it begins. -/
theorem exists_pieces_of_tokens_eq {p : Position} {zs : List Piece} {earlier later : List Token}
    {t : Token} (h : (scanOf p zs).tokens = earlier ++ t :: later) :
    ∃ xs ys, zs = xs ++ ys ∧ t.span.start = (p.advance (xs.flatMap Piece.text)).offset ∧
      t :: later = (scanOf (p.advance (xs.flatMap Piece.text)) ys).tokens := by
  induction zs generalizing p earlier with
  | nil =>
    -- only the end of the source is left
    have hnil : [eofAt p] = earlier ++ t :: later := h
    cases earlier with
    | nil =>
      obtain ⟨rfl, rfl⟩ := List.cons.inj hnil
      exact ⟨[], [], rfl, rfl, rfl⟩
    | cons u earlier => exact absurd (List.cons.inj hnil).2 (by simp)
  | cons z zs ih =>
    have hlater : ∀ found, (scanOf (p.advance z.text) zs).tokens = found ++ t :: later →
        ∃ xs ys, z :: zs = xs ++ ys ∧
          t.span.start = (p.advance (xs.flatMap Piece.text)).offset ∧
          t :: later = (scanOf (p.advance (xs.flatMap Piece.text)) ys).tokens := by
      intro found htokens
      obtain ⟨xs, ys, rfl, hstart, hrest⟩ := ih htokens
      refine ⟨z :: xs, ys, rfl, ?_, ?_⟩
      · rw [hstart, List.flatMap_cons, Position.advance_append]
      · rw [hrest, List.flatMap_cons, Position.advance_append]
    have hcons := h
    rw [scanOf_cons_tokens] at hcons
    cases z with
    | lexeme kind text =>
      cases earlier with
      | nil =>
        obtain ⟨ht, -⟩ := List.cons.inj hcons
        exact ⟨[], .lexeme kind text :: zs, rfl, ht ▸ rfl, h.symm⟩
      | cons u earlier => exact hlater earlier (List.cons.inj hcons).2
    | blank text => exact hlater earlier hcons
    | stray c => exact hlater earlier hcons
    | openString text => exact hlater earlier hcons

/-- A source can be cut before any of its tokens; from there on a scan of the rest finds what the
scan of the whole finds, moved by what comes before. -/
theorem exists_split_of_tokens_eq {s : List Char} {earlier later : List Token} {t : Token}
    (h : (scanFrom .start s).tokens = earlier ++ t :: later) :
    ∃ before after, s = before ++ after ∧ utf8Length before = t.span.start ∧
      t :: later = (scanFrom .start after).tokens.map
        (·.moveBy (utf8Length before) (before.count '\n')) ∧
      (scanFrom .start s).errorsFrom t.span.start
        = (scanFrom .start after).errors.map (·.moveBy (before.count '\n')) := by
  rw [← scanOf_pieces] at h
  obtain ⟨xs, ys, hpieces, hstart, hrest⟩ := exists_pieces_of_tokens_eq h
  have hcut : IsCut (xs ++ ys) := hpieces ▸ isCut_pieces s
  have hoffset : (Position.start.advance (xs.flatMap Piece.text)).offset
      = utf8Length (xs.flatMap Piece.text) := Nat.zero_add _
  have hscan : scanOf (Position.start.advance (xs.flatMap Piece.text)) ys
      = (scanFrom .start (ys.flatMap Piece.text)).moveBy (utf8Length (xs.flatMap Piece.text))
          ((xs.flatMap Piece.text).count '\n') := by
    rw [← scanFrom_moveBy, ← advance_start, ← scanOf_pieces, hcut.of_append_right.pieces_eq]
  refine ⟨xs.flatMap Piece.text, ys.flatMap Piece.text, ?_, ?_, ?_, ?_⟩
  · rw [← List.flatMap_append, ← hpieces, flatten_pieces]
  · rw [hstart, hoffset]
  · rw [hrest, hscan, Scan.tokens_moveBy]
  · rw [hstart, ← scanOf_pieces, hpieces, errorsFrom_append hcut, hscan, Scan.errors_moveBy]

/-- **A scan can begin at any token.** The text from a token on, scanned alone, has that token and
those after it, only with as many bytes and lines less as come before, and of the errors those that
begin from there on. So sources that are the same from a token on have the same tokens from there
on, up to their places. -/
theorem scan_from_token (source : String) :
    (∀ earlier t later, (scan source).tokens = earlier ++ t :: later →
      ∃ before after : String, source = before ++ after ∧
        utf8Length before.toList = t.span.start ∧
        t :: later = (scan after).tokens.map
          (·.moveBy t.span.start (before.toList.count '\n')) ∧
        (scan source).errorsFrom t.span.start
          = (scan after).errors.map (·.moveBy (before.toList.count '\n'))) ∧
    ∀ (other before before' after : String) (earlier earlier' later later' : List Token)
      (t t' : Token), source = before ++ after → other = before' ++ after →
      (scan source).tokens = earlier ++ t :: later → t.span.start = utf8Length before.toList →
      (scan other).tokens = earlier' ++ t' :: later' → t'.span.start = utf8Length before'.toList →
      ∃ shared : List Token,
        t :: later
          = shared.map (·.moveBy (utf8Length before.toList) (before.toList.count '\n')) ∧
        t' :: later'
          = shared.map (·.moveBy (utf8Length before'.toList) (before'.toList.count '\n')) := by
  -- a text before a token is known by its length
  have hshared : ∀ (whole before after : String) (earlier later : List Token) (t : Token),
      whole = before ++ after → (scan whole).tokens = earlier ++ t :: later →
      t.span.start = utf8Length before.toList →
      t :: later = (scan after).tokens.map
        (·.moveBy (utf8Length before.toList) (before.toList.count '\n')) := by
    intro whole before after earlier later t hwhole htokens hstart
    obtain ⟨b, a, hs, hlen, hrest, -⟩ := exists_split_of_tokens_eq htokens
    rw [hwhole, String.toList_append] at hs
    obtain rfl := eq_of_utf8Length_eq hs (hstart.symm.trans hlen.symm)
    obtain rfl := List.append_cancel_left hs
    exact hrest
  refine ⟨fun earlier t later htokens => ?_, ?_⟩
  · obtain ⟨before, after, hs, hlen, hrest, herrors⟩ := exists_split_of_tokens_eq htokens
    refine ⟨String.ofList before, String.ofList after, ?_, ?_, ?_, ?_⟩
    · rw [← String.toList_inj, hs]
      simp
    · rw [String.toList_ofList, hlen]
    · rw [String.toList_ofList, scan, String.toList_ofList, ← hlen, hrest]
    · rw [String.toList_ofList, scan, scan, String.toList_ofList, herrors]
  · intro other before before' after earlier earlier' later later' t t' hsource hother htokens
      hstart htokens' hstart'
    exact ⟨_, hshared _ _ _ _ _ _ hsource htokens hstart,
      hshared _ _ _ _ _ _ hother htokens' hstart'⟩

/-- From the point behind a number on, with a character that is not expected before it and an open
string after it. -/
theorem scan_from_token_behind_number :
    (scan "@\n1.;\"a").tokens = (scan "@\n1.;\"a").tokens.take 1
        ++ ⟨.mark .dot, ".", .absent, 2, ⟨3, 4⟩⟩ :: (scan "@\n1.;\"a").tokens.drop 2 ∧
      ∃ before after : String, "@\n1.;\"a" = before ++ after ∧ utf8Length before.toList = 3 ∧
        ⟨.mark .dot, ".", .absent, 2, ⟨3, 4⟩⟩ :: (scan "@\n1.;\"a").tokens.drop 2
          = (scan after).tokens.map (·.moveBy 3 (before.toList.count '\n')) ∧
        (scan "@\n1.;\"a").errorsFrom 3
          = (scan after).errors.map (·.moveBy (before.toList.count '\n')) := by
  have htokens : (scan "@\n1.;\"a").tokens = (scan "@\n1.;\"a").tokens.take 1
      ++ ⟨.mark .dot, ".", .absent, 2, ⟨3, 4⟩⟩ :: (scan "@\n1.;\"a").tokens.drop 2 := by
    decide +kernel
  exact ⟨htokens, (scan_from_token "@\n1.;\"a").1 _ _ _ htokens⟩

end Lox
