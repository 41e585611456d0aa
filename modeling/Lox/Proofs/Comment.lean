import Lox.Proofs.LineFeed
import Mathlib.Data.List.Forall2

/-!
# What comments say

Two slashes behind a source in which no string is open begin a comment, or go on with the one that
the source ends in; a slash at the end of the source becomes part of it. The pieces before that
comment do not depend on what it says (`IsCut.exists_opensComment`), and what comes on the lines
after it only on how many bytes it has. So two sources that differ in the text of a comment are
scanned alike (`scan_comment_agree`).
-/

set_option autoImplicit false

namespace Lox

/-! ## Slashes behind pieces -/

/-- Only a slash looks ahead to a slash. -/
theorem Extends.eq_slash {kind : Kind} {text s : List Char} (h : Extends kind text ('/' :: s)) :
    kind = .mark .slash := by
  have hword : ¬ ∃ c ∈ ('/' :: s).head?, isWordPart c = true := by
    rintro ⟨c, hc, hpart⟩
    obtain rfl := Option.some.inj hc
    exact absurd hpart (by decide)
  cases kind with
  | mark p =>
    obtain ⟨e, he, hhead⟩ := h
    obtain rfl := Option.some.inj hhead
    cases p <;> first | rfl | exact absurd he (by decide)
  | keyword k => exact absurd h hword
  | identifier => exact absurd h hword
  | number =>
    rcases extends_number_cons_iff.1 h with hdigit | ⟨-, hpoint, -⟩
    · exact absurd hdigit (by decide)
    · exact absurd hpoint (by decide)
  | string => exact h.elim
  | eof => exact h.elim

theorem isCut_comment {text : List Char} (oneLine : '\n' ∉ text) :
    IsCut [.blank ('/' :: '/' :: text)] :=
  .cons (.blank (.comment oneLine)) (fun _ _ hc => absurd hc (by simp)) .nil

/-- Two slashes behind the text `s` are in a comment: the pieces `ys` stand before it, and it begins
with `text`, whatever it goes on with. -/
structure OpensComment (s : List Char) (ys : List Piece) (text : List Char) : Prop where
  text_eq : ys.flatMap Piece.text ++ '/' :: '/' :: text = s ++ ['/', '/']
  isCut : ∀ c, '\n' ∉ c → IsCut (ys ++ [.blank ('/' :: '/' :: (text ++ c))])

theorem OpensComment.append_eq {s text : List Char} {ys : List Piece} (h : OpensComment s ys text)
    (c : List Char) :
    (ys ++ [Piece.blank ('/' :: '/' :: (text ++ c))]).flatMap Piece.text
      = s ++ '/' :: '/' :: c := by
  have happend := congrArg (· ++ c) h.text_eq
  simpa [Piece.text] using happend

/-- The last piece in front of two slashes goes into the comment, or it stays. -/
theorem Piece.IsSound.exists_opensComment {x : Piece} (sound : x.IsSound)
    (hclosed : x.isOpen = false) : ∃ ys text, OpensComment x.text ys text := by
  have hstays : (∀ s, x.EndsBefore ('/' :: s)) → ∃ ys text, OpensComment x.text ys text :=
    fun ends => ⟨[x], [], by simp, fun c hc => .cons sound (ends _) (isCut_comment hc)⟩
  cases sound with
  | @lexeme kind text hlex =>
    by_cases hk : kind = .mark .slash
    · subst hk
      cases hlex with
      | mark _ => exact ⟨[], ['/'], rfl, fun c hc => isCut_comment (by simp [hc])⟩
    · exact hstays fun s hext => hk hext.eq_slash
  | @blank text hskip =>
    cases hskip with
    | @space c hc =>
      refine hstays fun s hslash => ?_
      obtain rfl : c = '/' := Option.some.inj hslash
      exact absurd hc (by decide)
    | @comment text oneLine =>
      refine ⟨[], text ++ ['/', '/'], rfl, fun c hc => isCut_comment ?_⟩
      simp [oneLine, hc]
  | stray _ _ => exact hstays fun _ => trivial
  | openString _ _ => exact absurd hclosed (by simp [Piece.isOpen])

/-- Two slashes behind a source are in a comment, and what stands before that comment does not
depend on what it says. -/
theorem IsCut.exists_opensComment {xs : List Piece} (h : IsCut xs) (hclosed : AllClosed xs) :
    ∃ ys text, OpensComment (xs.flatMap Piece.text) ys text := by
  induction h with
  | nil => exact ⟨[], [], rfl, fun c hc => isCut_comment hc⟩
  | @cons x xs sound ends later ih =>
    obtain ⟨hx, hclosed⟩ := List.forall_mem_cons.1 hclosed
    rw [List.flatMap_cons]
    by_cases hnil : xs.flatMap Piece.text = []
    · rw [hnil, List.append_nil]
      exact sound.exists_opensComment hx
    · -- the first piece sees what it saw before, and then slashes
      obtain ⟨ys, text, hopens⟩ := ih hclosed
      refine ⟨x :: ys, text, ?_, fun c hc => ?_⟩
      · rw [List.flatMap_cons, List.append_assoc, hopens.text_eq, List.append_assoc]
      · rw [List.cons_append]
        refine .cons sound ?_ (hopens.isCut c hc)
        rw [hopens.append_eq]
        exact ends.append_cons hnil (by decide)

/-! ## Scans around a comment -/

/-- What is found before the text of a comment ends before that text, and does not depend on it. -/
theorem exists_events_comment {a : List Char} (hclosed : AllClosed (pieces a)) :
    ∃ ys, utf8Length (ys.flatMap Piece.text) ≤ utf8Length a ∧ ∀ c, '\n' ∉ c →
      AllClosed (pieces (a ++ '/' :: '/' :: c)) ∧
        (scanFrom .start (a ++ '/' :: '/' :: c)).events = eventsFrom .start ys := by
  obtain ⟨ys, text, hopens⟩ := (isCut_pieces a).exists_opensComment hclosed
  rw [flatten_pieces] at hopens
  have hlen := congrArg utf8Length hopens.text_eq
  refine ⟨ys, ?_, fun c hc => ?_⟩
  · simp only [utf8Length_append, utf8Length_cons, utf8Length_nil] at hlen
    omega
  · have hcut := hopens.isCut c hc
    have hpieces := hcut.pieces_eq
    rw [hopens.append_eq] at hpieces
    constructor
    · -- the last piece is the comment, and no other one can be open
      rw [hpieces]
      rcases hcut.closed_or_exists_openString with h | ⟨zs, body, h, -, -⟩
      · exact h
      · exact absurd (List.append_inj_right' h rfl) (by simp)
    · calc (scanFrom .start (a ++ '/' :: '/' :: c)).events
          = eventsFrom .start (pieces (a ++ '/' :: '/' :: c)) := rfl
        _ = eventsFrom .start ys ++ [] := by rw [hpieces, eventsFrom_append]; rfl
        _ = eventsFrom .start ys := List.append_nil _

/-- The same token in two sources that differ from byte `n` on, where one has `m` bytes and the
other `m'`: before these bytes it stands in the same place, and behind them it is as far off as they
differ in length. -/
structure Token.AgreesAround (n m m' : Nat) (t t' : Token) : Prop where
  kind : t.kind = t'.kind
  lexeme : t.lexeme = t'.lexeme
  literal : t.literal = t'.literal
  line : t.line = t'.line
  span : (t.span.start < n ∧ t.span = t'.span) ∨
    (n + m ≤ t.span.start ∧ n + m' ≤ t'.span.start ∧
      (t'.span.start : Int) - t.span.start = (m' : Int) - m ∧
      (t'.span.stop : Int) - t.span.stop = (m' : Int) - m)

theorem Token.agreesAround_of_lt {n m m' : Nat} {t : Token} (h : t.span.start < n) :
    t.AgreesAround n m m' t :=
  ⟨rfl, rfl, rfl, rfl, .inl ⟨h, rfl⟩⟩

theorem Token.agreesAround_moveBy {n m m' k : Nat} (lines : Nat) (t : Token) (h : n ≤ k) :
    (t.moveBy (k + m) lines).AgreesAround n m m' (t.moveBy (k + m') lines) := by
  refine ⟨rfl, rfl, rfl, rfl, .inr ?_⟩
  simp only [moveBy]
  omega

/-- The tokens and errors of a source with a comment in it: what is found before the comment and
what is found in the lines behind it. -/
theorem exists_scan_comment {a : List Char} (hclosed : AllClosed (pieces a)) (b : List Char) :
    ∃ front : List Token, ∃ found : List Diagnostic,
      (∀ t ∈ front, t.span.start < utf8Length a + 2) ∧ ∀ c, '\n' ∉ c →
        (scanFrom .start (a ++ '/' :: '/' :: c ++ '\n' :: b)).tokens
            = front ++ (scanFrom .start b).tokens.map
                (·.moveBy (utf8Length a + 3 + utf8Length c) (a.count '\n' + 1)) ∧
          (scanFrom .start (a ++ '/' :: '/' :: c ++ '\n' :: b)).errors
            = found ++ (scanFrom .start b).errors.map (·.moveBy (a.count '\n' + 1)) := by
  obtain ⟨ys, hle, hys⟩ := exists_events_comment hclosed
  refine ⟨(eventsFrom .start ys).filterMap Event.token?,
    (eventsFrom .start ys).filterMap Event.diagnostic?, fun t ht => ?_, fun c hc => ?_⟩
  · obtain ⟨e, he, htoken⟩ := List.mem_filterMap.1 ht
    have hspan := span_of_mem_eventsFrom (Event.token?_eq_some_iff.1 htoken ▸ he)
    simp only [Position.start] at hspan
    omega
  · obtain ⟨hclosed', hevents⟩ := hys c hc
    have hbytes : utf8Length (a ++ '/' :: '/' :: c) + 1 = utf8Length a + 3 + utf8Length c := by
      simp only [utf8Length_append, utf8Length_cons, show ('/').utf8Size = 1 from rfl]
      omega
    have hlines : (a ++ '/' :: '/' :: c).count '\n' = a.count '\n' := by
      simp [List.count_eq_zero_of_not_mem hc]
    rw [tokens_append_lineFeed hclosed', errors_append_lineFeed hclosed', hbytes, hlines,
      Scan.dropLast_tokens, Scan.errors, hevents]
    exact ⟨rfl, rfl⟩

/-- **What a comment says has no influence.** If no string is open where the comment begins, two
sources that differ in its text only have the same errors, and the same tokens in the same lines;
tokens before the text of the comment stand in the same place, and those behind it are as far off
as the texts differ in length. -/
theorem scan_comment_agree (a c c' b : String) (closed : (scan a).StringsClosed)
    (oneLine : '\n' ∉ c.toList) (oneLine' : '\n' ∉ c'.toList) :
    (scan (a ++ "//" ++ c ++ "\n" ++ b)).errors = (scan (a ++ "//" ++ c' ++ "\n" ++ b)).errors ∧
      List.Forall₂
        (Token.AgreesAround (utf8Length a.toList + 2) (utf8Length c.toList) (utf8Length c'.toList))
        (scan (a ++ "//" ++ c ++ "\n" ++ b)).tokens
        (scan (a ++ "//" ++ c' ++ "\n" ++ b)).tokens := by
  have htext : ∀ d : String, (a ++ "//" ++ d ++ "\n" ++ b).toList
      = a.toList ++ '/' :: '/' :: d.toList ++ '\n' :: b.toList := fun d => by simp
  obtain ⟨front, found, hfront, hscan⟩ := exists_scan_comment (stringsClosed_iff.1 closed) b.toList
  obtain ⟨htokens, herrors⟩ := hscan c.toList oneLine
  obtain ⟨htokens', herrors'⟩ := hscan c'.toList oneLine'
  rw [scan, scan, htext, htext, htokens, htokens', herrors, herrors']
  refine ⟨rfl, List.rel_append ?_ ?_⟩
  · exact List.forall₂_same.2 fun t ht => Token.agreesAround_of_lt (hfront t ht)
  · rw [List.forall₂_map_left_iff, List.forall₂_map_right_iff, List.forall₂_same]
    exact fun t _ => Token.agreesAround_moveBy _ t (by omega)

/-- A slash before the comment and a quote in it, and a string over two lines behind it. -/
theorem scan_comment_agree_behind_slash :
    (scan "1 /").StringsClosed ∧ '\n' ∉ "\"é".toList ∧ '\n' ∉ "".toList ∧
      (scan ("1 /" ++ "//" ++ "\"é" ++ "\n" ++ "@ \"\n\" x")).errors
        = (scan ("1 /" ++ "//" ++ "" ++ "\n" ++ "@ \"\n\" x")).errors ∧
      List.Forall₂ (Token.AgreesAround 5 3 0)
        (scan ("1 /" ++ "//" ++ "\"é" ++ "\n" ++ "@ \"\n\" x")).tokens
        (scan ("1 /" ++ "//" ++ "" ++ "\n" ++ "@ \"\n\" x")).tokens := by
  have closed : (scan "1 /").StringsClosed := by decide +kernel
  have oneLine : '\n' ∉ "\"é".toList := by decide
  have oneLine' : '\n' ∉ "".toList := by decide
  exact ⟨closed, oneLine, oneLine',
    scan_comment_agree "1 /" "\"é" "" "@ \"\n\" x" closed oneLine oneLine'⟩

end Lox
