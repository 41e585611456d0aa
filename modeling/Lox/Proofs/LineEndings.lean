import Lox.Proofs.Alone

/-!
# Line endings

A source with a carriage return in front of every line feed (`addReturns`) has the same errors, and
its tokens are the same but for what stands in strings over several lines and for the places, which
move by the carriage returns in front of them (`scan_withReturns`). The pieces are not the same: a
carriage return is a blank of its own, or a part of the string or the comment that it falls into.
But every piece leaves the event that it left before (`eventsFrom_withReturns_append`), as no lexeme
looks ahead to a carriage return.
-/

set_option autoImplicit false

namespace Lox

/-! ## Texts -/

/-- A text with a carriage return in front of every line feed. -/
def addReturns (text : List Char) : List Char :=
  text.flatMap fun c => if c = '\n' then ['\r', '\n'] else [c]

@[simp] theorem addReturns_nil : addReturns [] = [] := rfl

theorem addReturns_lineFeed (s : List Char) :
    addReturns ('\n' :: s) = '\r' :: '\n' :: addReturns s := rfl

theorem addReturns_cons_of_ne {c : Char} (h : c ≠ '\n') (s : List Char) :
    addReturns (c :: s) = c :: addReturns s := by
  rw [addReturns, List.flatMap_cons, if_neg h]
  rfl

theorem addReturns_append (s t : List Char) :
    addReturns (s ++ t) = addReturns s ++ addReturns t :=
  List.flatMap_append

theorem addReturns_of_notMem {s : List Char} (h : '\n' ∉ s) : addReturns s = s := by
  induction s with
  | nil => rfl
  | cons c s ih =>
    obtain ⟨hc, hs⟩ := List.ne_and_not_mem_of_not_mem_cons h
    rw [addReturns_cons_of_ne hc.symm, ih hs]

theorem quote_notMem_addReturns {s : List Char} (h : '"' ∉ s) : '"' ∉ addReturns s := by
  intro hmem
  obtain ⟨c, hc, hquote⟩ := List.mem_flatMap.1 hmem
  split at hquote
  · exact absurd hquote (by decide)
  · obtain rfl := List.mem_singleton.1 hquote
    exact h hc

theorem utf8Length_addReturns (s : List Char) :
    utf8Length (addReturns s) = utf8Length s + s.count '\n' := by
  induction s with
  | nil => rfl
  | cons c s ih =>
    by_cases hc : c = '\n'
    · subst hc
      rw [addReturns_lineFeed, utf8Length_cons, utf8Length_cons, utf8Length_cons, ih,
        List.count_cons_self]
      have hreturn : '\r'.utf8Size = 1 := rfl
      omega
    · rw [addReturns_cons_of_ne hc, utf8Length_cons, utf8Length_cons, ih,
        List.count_cons_of_ne hc, Nat.add_assoc]

theorem count_addReturns (s : List Char) : (addReturns s).count '\n' = s.count '\n' := by
  induction s with
  | nil => rfl
  | cons c s ih =>
    by_cases hc : c = '\n'
    · subst hc
      rw [addReturns_lineFeed, List.count_cons_of_ne (by decide), List.count_cons_self,
        List.count_cons_self, ih]
    · rw [addReturns_cons_of_ne hc, List.count_cons_of_ne hc, List.count_cons_of_ne hc, ih]

/-- A carriage return is no digit, and neither is a line feed. -/
theorem isDigit_head?_addReturns (s : List Char) :
    (addReturns s).head?.any Char.isDigit = s.head?.any Char.isDigit := by
  cases s with
  | nil => rfl
  | cons c s =>
    by_cases hc : c = '\n'
    · subst hc
      rfl
    · rw [addReturns_cons_of_ne hc]
      rfl

/-! ## Pieces -/

/-- A piece with a carriage return in front of every line feed in it. -/
def Piece.withReturns : Piece → Piece
  | lexeme kind text => lexeme kind (addReturns text)
  | blank text => blank (addReturns text)
  | stray c => stray c
  | openString text => openString (addReturns text)

theorem IsLexeme.addReturns {kind : Kind} {text : List Char} (h : IsLexeme kind text) :
    IsLexeme kind (addReturns text) := by
  by_cases hkind : kind = .string
  · subst hkind
    obtain ⟨body, rfl, unquoted⟩ := h.exists_body
    rw [addReturns_append, addReturns_cons_of_ne (by decide)]
    exact .string (quote_notMem_addReturns unquoted)
  · rw [addReturns_of_notMem (h.notMem_of_isSpace hkind (by decide))]
    exact h

/-- Carriage returns extend no lexeme. -/
theorem Extends.of_addReturns {kind : Kind} {text rest : List Char}
    (h : Extends kind text (addReturns rest)) : Extends kind text rest := by
  cases rest with
  | nil => exact h
  | cons c s =>
    by_cases hc : c = '\n'
    · subst hc
      exact absurd h (not_extends_of_isSpace (by decide))
    · rw [addReturns_cons_of_ne hc] at h
      exact (extends_cons_iff fun _ => isDigit_head?_addReturns s).1 h

theorem Extends.addReturns_text {kind : Kind} {text rest : List Char} (hlex : IsLexeme kind text)
    (h : Extends kind (addReturns text) rest) : Extends kind text rest := by
  by_cases hkind : kind = .string
  · subst hkind
    exact h
  · rwa [addReturns_of_notMem (hlex.notMem_of_isSpace hkind (by decide))] at h

/-- A character that nothing begins with is no line feed. -/
theorem ne_lineFeed_of_not_matches {c : Char} (h : ¬ Matches [c]) : c ≠ '\n' := by
  rintro rfl
  exact h (.inr (.space (by decide)))

theorem Piece.IsSound.text_withReturns {x : Piece} (hx : x.IsSound) :
    x.withReturns.text = addReturns x.text := by
  cases hx with
  | stray hno _ => exact (addReturns_cons_of_ne (ne_lineFeed_of_not_matches hno) []).symm
  | _ => rfl

/-- A piece that is not blank stays what it is. -/
theorem Piece.IsSound.isFirst_withReturns {x : Piece} {rest : List Char} (hx : x.IsSound)
    (hblank : ∀ text, x ≠ .blank text) (ends : x.EndsBefore rest) :
    IsFirst (x.withReturns.text ++ addReturns rest) x.withReturns := by
  cases hx with
  | blank _ => exact absurd rfl (hblank _)
  | lexeme hlex =>
    refine (isFirst_append_iff (.lexeme hlex.addReturns) _).2 fun hext => ends ?_
    exact (hext.addReturns_text hlex).of_addReturns
  | stray hno hquote => exact (isFirst_append_iff (.stray hno hquote) _).2 trivial
  | @openString text hno head =>
    obtain ⟨body, rfl⟩ := List.head?_eq_some_iff.1 head
    obtain ⟨rfl, unclosed⟩ := ends
    have hopen : addReturns ('"' :: body) = '"' :: addReturns body :=
      addReturns_cons_of_ne (by decide) body
    have hno : ¬ Matches ('"' :: addReturns body) := by
      intro hmatch
      obtain ⟨inner, -, hinner⟩ := hmatch.of_quote
      exact quote_notMem_addReturns unclosed (hinner ▸ by simp)
    rw [Piece.withReturns, hopen]
    exact (isFirst_append_iff (.openString hno rfl) _).2
      ⟨rfl, quote_notMem_addReturns unclosed⟩

theorem eventsFrom_withReturns_of_not_blank {x : Piece} {rest : List Char} (hx : x.IsSound)
    (hblank : ∀ text, x ≠ .blank text) (ends : x.EndsBefore rest) (p : Position) :
    eventsFrom p (pieces (addReturns x.text ++ addReturns rest))
      = (x.withReturns.eventAt? p).toList
        ++ eventsFrom (p.advance (addReturns x.text)) (pieces (addReturns rest)) := by
  rw [← hx.text_withReturns, pieces_of_isFirst (hx.isFirst_withReturns hblank ends),
    eventsFrom_cons]

/-- A blank leaves no event. -/
theorem eventsFrom_blank_cons (p : Position) (text : List Char) (xs : List Piece) :
    eventsFrom p (.blank text :: xs) = eventsFrom (p.advance text) xs :=
  eventsFrom_cons p (.blank text) xs

/-- Blanks leave no event with carriage returns either. -/
theorem eventsFrom_withReturns_blank {text rest : List Char} (hskip : IsSkippable text)
    (ends : (Piece.blank text).EndsBefore rest) (p : Position) :
    eventsFrom p (pieces (addReturns text ++ addReturns rest))
      = eventsFrom (p.advance (addReturns text)) (pieces (addReturns rest)) := by
  cases hskip with
  | @space c hc =>
    by_cases hfeed : c = '\n'
    · subst hfeed
      show eventsFrom p (pieces ('\r' :: '\n' :: addReturns rest)) = _
      rw [pieces_space_cons (by decide), pieces_space_cons (by decide), eventsFrom_blank_cons,
        eventsFrom_blank_cons, ← Position.advance_append]
      rfl
    · rw [addReturns_cons_of_ne hfeed, addReturns_nil]
      show eventsFrom p (pieces (c :: addReturns rest)) = _
      rw [pieces_space_cons hc, eventsFrom_blank_cons]
  | @comment text oneLine =>
    have hcomment : addReturns ('/' :: '/' :: text) = '/' :: '/' :: text :=
      addReturns_of_notMem (by simp [oneLine])
    rw [hcomment]
    cases rest with
    | nil => rw [addReturns_nil, pieces_comment_append oneLine (by simp), eventsFrom_blank_cons]
    | cons c s =>
      obtain rfl : c = '\n' := ends rfl c rfl
      rw [addReturns_lineFeed]
      -- the carriage return becomes the last character of the comment
      have hreturn : '/' :: '/' :: text ++ '\r' :: '\n' :: addReturns s
          = '/' :: '/' :: (text ++ ['\r']) ++ '\n' :: addReturns s := by simp
      have honeLine : '\n' ∉ text ++ ['\r'] := by simp [oneLine]
      calc eventsFrom p (pieces ('/' :: '/' :: text ++ '\r' :: '\n' :: addReturns s))
          = eventsFrom (p.advance ('/' :: '/' :: (text ++ ['\r'])))
              (pieces ('\n' :: addReturns s)) := by
            rw [hreturn, pieces_comment_append honeLine (by simp), eventsFrom_blank_cons]
        _ = eventsFrom ((p.advance ('/' :: '/' :: text)).advance ['\r'])
              (pieces ('\n' :: addReturns s)) := by
            rw [← Position.advance_append]
            rfl
        _ = eventsFrom (p.advance ('/' :: '/' :: text))
              (pieces ('\r' :: '\n' :: addReturns s)) := by
            rw [pieces_space_cons (c := '\r') (by decide), eventsFrom_blank_cons]

/-- A piece leaves the event that it leaves without the carriage returns, in its place. -/
theorem eventsFrom_withReturns_append {x : Piece} {rest : List Char} (hx : x.IsSound)
    (ends : x.EndsBefore rest) (p : Position) :
    eventsFrom p (pieces (addReturns (x.text ++ rest)))
      = (x.withReturns.eventAt? p).toList
        ++ eventsFrom (p.advance (addReturns x.text)) (pieces (addReturns rest)) := by
  rw [addReturns_append]
  cases hx with
  | blank hskip => exact eventsFrom_withReturns_blank hskip ends p
  | lexeme hlex =>
    exact eventsFrom_withReturns_of_not_blank (.lexeme hlex) (by simp) ends p
  | stray hno hquote =>
    exact eventsFrom_withReturns_of_not_blank (.stray hno hquote) (by simp) ends p
  | openString hno head =>
    exact eventsFrom_withReturns_of_not_blank (.openString hno head) (by simp) ends p

/-! ## Places -/

/-- How many line feeds of a source begin before the byte `offset`. -/
def lineFeedsBefore (source : List Char) (offset : Nat) : Nat :=
  (charsBefore offset source).count '\n'

/-- Where a place of a source is found behind the carriage returns. -/
def Position.withReturns (source : List Char) (p : Position) : Position :=
  ⟨p.offset + lineFeedsBefore source p.offset, p.line⟩

def Literal.withReturns : Literal → Literal
  | string text => string (.ofList (addReturns text.toList))
  | l => l

/-- A token of a source, found in the source with carriage returns. -/
def Token.withReturns (source : List Char) (t : Token) : Token where
  kind := t.kind
  lexeme := .ofList (addReturns t.lexeme.toList)
  literal := t.literal.withReturns
  line := t.line
  span := ⟨t.span.start + lineFeedsBefore source t.span.start,
    t.span.stop + lineFeedsBefore source t.span.stop⟩

def Event.withReturns (source : List Char) : Event → Event
  | token t => token (t.withReturns source)
  | fault start cause => fault (start.withReturns source) cause

theorem lineFeedsBefore_append (before rest : List Char) :
    lineFeedsBefore (before ++ rest) (utf8Length before) = before.count '\n' := by
  rw [lineFeedsBefore, charsBefore_append]

/-- A text with carriage returns ends where the text ends, behind the carriage returns. -/
theorem advance_addReturns (before rest : List Char) :
    Position.start.advance (addReturns before)
      = (Position.start.advance before).withReturns (before ++ rest) := by
  have hoffset : (Position.start.advance before).offset = utf8Length before := Nat.zero_add _
  rw [Position.withReturns, hoffset, lineFeedsBefore_append, Position.advance, count_addReturns,
    utf8Length_addReturns, Position.start, Nat.zero_add]
  rfl

theorem withReturns_literalOf_of_ne {kind : Kind} (h : kind ≠ .string) (text : List Char) :
    (literalOf kind text).withReturns = literalOf kind text := by
  cases kind with
  | string => exact absurd rfl h
  | _ => rfl

theorem literalOf_addReturns {kind : Kind} {text : List Char} (hlex : IsLexeme kind text) :
    literalOf kind (addReturns text) = (literalOf kind text).withReturns := by
  by_cases hkind : kind = .string
  · subst hkind
    obtain ⟨body, rfl, -⟩ := hlex.exists_body
    have hquotes : addReturns ('"' :: body ++ ['"']) = '"' :: addReturns body ++ ['"'] := by
      rw [addReturns_append, addReturns_cons_of_ne (by decide)]
      rfl
    rw [hquotes, literalOf_string, literalOf_string, Literal.withReturns, String.toList_ofList]
  · rw [withReturns_literalOf_of_ne hkind,
      addReturns_of_notMem (hlex.notMem_of_isSpace hkind (by decide))]

theorem tokenAt_withReturns {kind : Kind} {text : List Char}
    (hliteral : literalOf kind (addReturns text) = (literalOf kind text).withReturns)
    (before rest : List Char) :
    tokenAt (Position.start.advance (addReturns before)) kind (addReturns text)
      = (tokenAt (Position.start.advance before) kind text).withReturns
          (before ++ (text ++ rest)) := by
  have hplace := advance_addReturns before (text ++ rest)
  have hline : (Position.start.advance (addReturns before)).line
      = (Position.start.advance before).line := by
    rw [hplace]
    rfl
  have hstop := congrArg Position.offset (advance_addReturns (before ++ text) rest)
  rw [addReturns_append, Position.advance_append, Position.advance_append,
    List.append_assoc] at hstop
  simp only [tokenAt, Token.withReturns, String.toList_ofList, hliteral, Token.mk.injEq,
    Span.mk.injEq, true_and]
  exact ⟨hline, congrArg Position.offset hplace, hstop⟩

/-- The event of a piece is the event that it leaves without carriage returns, found again. -/
theorem eventAt?_withReturns {x : Piece} (hx : x.IsSound) (before rest : List Char) :
    x.withReturns.eventAt? (Position.start.advance (addReturns before))
      = (x.eventAt? (Position.start.advance before)).map
          (Event.withReturns (before ++ (x.text ++ rest))) := by
  have hplace := advance_addReturns before (x.text ++ rest)
  cases hx with
  | lexeme hlex =>
    have htoken := tokenAt_withReturns (literalOf_addReturns hlex) before rest
    exact congrArg (fun t => some (Event.token t)) htoken
  | blank _ => rfl
  | stray _ _ => exact congrArg (fun q => some (Event.fault q _)) hplace
  | openString _ _ => exact congrArg (fun q => some (Event.fault q _)) hplace

/-! ## Scans -/

/-- Piece by piece, the rest of a source with carriage returns leaves the events that it leaves
without them. -/
theorem IsCut.eventsFrom_withReturns {xs : List Piece} (h : IsCut xs) (before : List Char) :
    eventsFrom (Position.start.advance (addReturns before))
        (pieces (addReturns (xs.flatMap Piece.text)))
      = (eventsFrom (Position.start.advance before) xs).map
          (Event.withReturns (before ++ xs.flatMap Piece.text)) := by
  induction h generalizing before with
  | nil => simp
  | @cons x xs sound ends _ ih =>
    have hlater := ih (before ++ x.text)
    rw [addReturns_append, Position.advance_append, Position.advance_append,
      List.append_assoc] at hlater
    rw [List.flatMap_cons, eventsFrom_withReturns_append sound ends, eventsFrom_cons,
      List.map_append, hlater, eventAt?_withReturns sound before (xs.flatMap Piece.text)]
    cases x.eventAt? (Position.start.advance before) <;> rfl

/-- A source with carriage returns has the events of the source, found again. -/
theorem events_withReturns (s : List Char) :
    (scanFrom .start (addReturns s)).events
      = (scanFrom .start s).events.map (Event.withReturns s) := by
  have hevents := (isCut_pieces s).eventsFrom_withReturns []
  rw [flatten_pieces] at hevents
  exact hevents

theorem Event.token?_withReturns (source : List Char) (e : Event) :
    (e.withReturns source).token? = e.token?.map (Token.withReturns source) := by
  cases e <;> rfl

/-- The line of a fault does not change, and its message does not either. -/
theorem Event.diagnostic?_withReturns (source : List Char) (e : Event) :
    (e.withReturns source).diagnostic? = e.diagnostic? := by
  cases e <;> rfl

theorem eofAt_withReturns (s : List Char) :
    eofAt (Position.start.advance (addReturns s))
      = (eofAt (Position.start.advance s)).withReturns s := by
  have hliteral : literalOf .eof (addReturns []) = (literalOf .eof []).withReturns := rfl
  have htoken := tokenAt_withReturns hliteral s []
  rw [List.append_nil, List.append_nil] at htoken
  exact htoken

/-- A token without line feeds in it only moves, and only strings have line feeds in them. -/
theorem Token.IsSound.withReturns_eq {t : Token} (h : t.IsSound)
    (hlines : t.kind = .string → '\n' ∉ t.lexeme.toList) (source : List Char) :
    (t.withReturns source).lexeme = t.lexeme ∧ (t.withReturns source).literal = t.literal := by
  have hlexeme : '\n' ∉ t.lexeme.toList := by
    by_cases hkind : t.kind = .string
    · exact hlines hkind
    · rcases h.lexeme with ⟨-, hempty⟩ | hlex
      · simp [hempty]
      · exact hlex.notMem_of_isSpace hkind (by decide)
  have hliteral : t.literal.withReturns = t.literal := by
    by_cases hkind : t.kind = .string
    · obtain ⟨body, htext, -, hbody⟩ := h.agreesWithLexeme.quoted hkind
      have hfeed : '\n' ∉ body := fun hmem => hlexeme (by simp [htext, hmem])
      rw [hbody, Literal.withReturns, String.toList_ofList, addReturns_of_notMem hfeed]
    · rw [h.literal, withReturns_literalOf_of_ne hkind]
  refine ⟨?_, hliteral⟩
  rw [Token.withReturns, addReturns_of_notMem hlexeme, String.ofList_toList]

/-- **Line endings change what strings hold, and where things stand.** With a carriage return in
front of every line feed a source has the same errors, and token by token the same kinds, lines and
numbers. Lexemes and the values of strings get the carriage returns too, so that only strings over
several lines change. Both ends of a span move by the line feeds before them. -/
theorem scan_withReturns (source : String) :
    (scan (.ofList (addReturns source.toList))).errors = (scan source).errors ∧
      (scan (.ofList (addReturns source.toList))).tokens
        = (scan source).tokens.map (Token.withReturns source.toList) ∧
      ∀ t ∈ (scan source).tokens, (t.kind = .string → '\n' ∉ t.lexeme.toList) →
        (t.withReturns source.toList).lexeme = t.lexeme ∧
          (t.withReturns source.toList).literal = t.literal := by
  have hevents := events_withReturns source.toList
  have hreturned : scan (String.ofList (addReturns source.toList))
      = scanFrom .start (addReturns source.toList) := by rw [scan, String.toList_ofList]
  refine ⟨?_, ?_, fun t ht hlines => (isSound_of_mem_tokens ht).withReturns_eq hlines _⟩
  · rw [hreturned, Scan.errors, hevents, List.filterMap_map]
    exact List.filterMap_congr fun e _ => Event.diagnostic?_withReturns _ e
  · have hlast : eofAt (scanFrom .start (addReturns source.toList)).stop
        = (eofAt (scan source).stop).withReturns source.toList := eofAt_withReturns source.toList
    rw [hreturned, Scan.tokens, hevents, hlast, Scan.tokens, List.map_append, List.map_singleton,
      List.filterMap_map, List.map_filterMap]
    congr 1
    exact List.filterMap_congr fun e _ => Event.token?_withReturns _ e

/-- A string over two lines, and a word behind it. -/
example : (scan "\"a\nb\" c").tokens.map (Token.withReturns "\"a\nb\" c".toList)
    = [⟨.string, "\"a\r\nb\"", .string "a\r\nb", 1, ⟨0, 6⟩⟩, ⟨.identifier, "c", .absent, 2, ⟨7, 8⟩⟩,
        ⟨.eof, "", .absent, 2, ⟨8, 8⟩⟩] := by decide +kernel

end Lox
