import Lox.Proofs.OpenString
import Lox.Proofs.Places

/-!
# What is wrong disturbs nothing around it

A character that is not expected could as well be spaces of as many bytes (`blankStrays`): no piece
looks ahead to either of them (`Piece.EndsBefore.flatMap_blanked`). An open string could as well not
be there, since what comes before it does not see it. Both ways the tokens stay as they are
(`scan_recovers`).
-/

set_option autoImplicit false

namespace Lox

/-! ## Spaces for characters that are not expected -/

def Event.isStrayAt (offset : Nat) : Event → Bool
  | fault start .unexpectedCharacter => start.offset == offset
  | _ => false

/-- Whether one of the events is a character that is not expected at the byte `offset`. -/
def hasStrayAt (events : List Event) (offset : Nat) : Bool :=
  events.any (Event.isStrayAt offset)

/-- The text that begins at the byte `n`, where every character for whose first byte `faulty` holds
is replaced by as many spaces as it has bytes. -/
def blankOut (faulty : Nat → Bool) (n : Nat) : List Char → List Char
  | [] => []
  | c :: s =>
    (if faulty n then List.replicate c.utf8Size ' ' else [c])
      ++ blankOut faulty (n + c.utf8Size) s

/-- A source with spaces for all characters that its scan does not expect. -/
def blankStrays (source : String) : String :=
  String.ofList (blankOut (hasStrayAt (scan source).events) 0 source.toList)

/-- A piece, or the spaces that stand for it. -/
def Piece.blanked : Piece → List Piece
  | stray c => List.replicate c.utf8Size (blank [' '])
  | x => [x]

theorem blankOut_append (faulty : Nat → Bool) (n : Nat) (s t : List Char) :
    blankOut faulty n (s ++ t) = blankOut faulty n s ++ blankOut faulty (n + utf8Length s) t := by
  induction s generalizing n with
  | nil => rfl
  | cons c s ih =>
    rw [List.cons_append, blankOut, blankOut, ih, utf8Length_cons, List.append_assoc,
      Nat.add_assoc]

theorem blankOut_congr {f g : Nat → Bool} {n : Nat} {s : List Char}
    (h : ∀ m, n ≤ m → m < n + utf8Length s → f m = g m) : blankOut f n s = blankOut g n s := by
  induction s generalizing n with
  | nil => rfl
  | cons c s ih =>
    have hpos := c.utf8Size_pos
    rw [utf8Length_cons] at h
    have htail : blankOut f (n + c.utf8Size) s = blankOut g (n + c.utf8Size) s :=
      ih fun m hle hlt => h m (by omega) (by omega)
    rw [blankOut, blankOut, h n (Nat.le_refl n) (by omega), htail]

theorem blankOut_false (n : Nat) (s : List Char) : blankOut (fun _ => false) n s = s := by
  induction s generalizing n with
  | nil => rfl
  | cons c s ih =>
    rw [blankOut, ih]
    rfl

/-! ### The characters of pieces -/

theorem hasStrayAt_eventsFrom_cons (p : Position) (x : Piece) (xs : List Piece) (m : Nat) :
    hasStrayAt (eventsFrom p (x :: xs)) m
      = (hasStrayAt (x.eventAt? p).toList m
          || hasStrayAt (eventsFrom (p.advance x.text) xs) m) := by
  rw [eventsFrom_cons]
  exact List.any_append

/-- What is found in a piece is found at its first byte. -/
theorem eq_of_hasStrayAt_eventAt? {p : Position} {x : Piece} {m : Nat}
    (h : hasStrayAt (x.eventAt? p).toList m = true) : p.offset = m := by
  cases x with
  | stray c => simpa [hasStrayAt, Piece.eventAt?, Event.isStrayAt] using h
  | _ => exact absurd h (by simp [hasStrayAt, Piece.eventAt?, Event.isStrayAt])

theorem offset_le_of_hasStrayAt {p : Position} {xs : List Piece} {m : Nat}
    (h : hasStrayAt (eventsFrom p xs) m = true) : p.offset ≤ m := by
  induction xs generalizing p with
  | nil => exact absurd h (by simp [hasStrayAt])
  | cons x xs ih =>
    rw [hasStrayAt_eventsFrom_cons, Bool.or_eq_true] at h
    rcases h with h | h
    · exact Nat.le_of_eq (eq_of_hasStrayAt_eventAt? h)
    · exact Nat.le_trans (Nat.le_add_right _ _) (ih h)

theorem flatMap_text_spaces (n : Nat) :
    (List.replicate n (Piece.blank [' '])).flatMap Piece.text = List.replicate n ' ' := by
  rw [List.flatMap_replicate, Piece.text, List.flatten_replicate_singleton]

/-- Of a single piece everything is blanked out or nothing. -/
theorem blankOut_text (p : Position) (x : Piece) :
    blankOut (hasStrayAt (x.eventAt? p).toList) p.offset x.text
      = x.blanked.flatMap Piece.text := by
  cases x with
  | stray c =>
    rw [Piece.blanked, flatMap_text_spaces]
    simp [hasStrayAt, Piece.text, blankOut, Piece.eventAt?, Event.isStrayAt]
  | _ => exact (blankOut_false p.offset _).trans (List.flatMap_singleton _ _).symm

/-- Blanking out what a scan does not expect replaces exactly the pieces that are such. -/
theorem blankOut_flatMap_text {xs : List Piece} (hxs : ∀ x ∈ xs, x.IsSound) (p : Position) :
    blankOut (hasStrayAt (eventsFrom p xs)) p.offset (xs.flatMap Piece.text)
      = (xs.flatMap Piece.blanked).flatMap Piece.text := by
  induction xs generalizing p with
  | nil => rfl
  | cons x xs ih =>
    obtain ⟨hx, hxs⟩ := List.forall_mem_cons.1 hxs
    have hpos := utf8Length_pos hx.text_ne_nil
    -- inside the first piece only its own event counts, and behind it only those of the others
    have hhead : ∀ m, p.offset ≤ m → m < p.offset + utf8Length x.text →
        hasStrayAt (eventsFrom p (x :: xs)) m = hasStrayAt (x.eventAt? p).toList m := by
      intro m _ hlt
      have hlater : hasStrayAt (eventsFrom (p.advance x.text) xs) m = false := by
        by_contra h
        have hle := offset_le_of_hasStrayAt ((Bool.not_eq_false _).mp h)
        exact absurd hle (Nat.not_le.2 hlt)
      rw [hasStrayAt_eventsFrom_cons, hlater, Bool.or_false]
    have htail : ∀ m, p.offset + utf8Length x.text ≤ m →
        m < p.offset + utf8Length x.text + utf8Length (xs.flatMap Piece.text) →
        hasStrayAt (eventsFrom p (x :: xs)) m
          = hasStrayAt (eventsFrom (p.advance x.text) xs) m := by
      intro m hle _
      have hfirst : hasStrayAt (x.eventAt? p).toList m = false := by
        by_contra h
        have heq := eq_of_hasStrayAt_eventAt? ((Bool.not_eq_false _).mp h)
        omega
      rw [hasStrayAt_eventsFrom_cons, hfirst, Bool.false_or]
    calc blankOut (hasStrayAt (eventsFrom p (x :: xs))) p.offset ((x :: xs).flatMap Piece.text)
        = blankOut (hasStrayAt (x.eventAt? p).toList) p.offset x.text
            ++ blankOut (hasStrayAt (eventsFrom (p.advance x.text) xs)) (p.advance x.text).offset
              (xs.flatMap Piece.text) := by
          rw [List.flatMap_cons, blankOut_append, blankOut_congr hhead, blankOut_congr htail]
          rfl
      _ = ((x :: xs).flatMap Piece.blanked).flatMap Piece.text := by
          rw [blankOut_text, ih hxs, List.flatMap_cons, List.flatMap_append]

/-! ### Pieces with spaces for characters -/

theorem isCut_spaces_append (n : Nat) {xs : List Piece} (h : IsCut xs) :
    IsCut (List.replicate n (.blank [' ']) ++ xs) := by
  induction n with
  | zero => exact h
  | succ n ih => exact .cons (.blank (.space (by decide))) (fun hc => absurd hc (by decide)) ih

theorem not_isDigit_of_not_matches {c : Char} (h : ¬ Matches [c]) : c.isDigit = false := by
  by_contra hdigit
  exact h (.inl ⟨.number, .whole ⟨List.cons_ne_nil c [], by simpa using hdigit⟩⟩)

/-- A piece of a source is a character that is not expected, or it stays. -/
theorem Piece.IsSound.stray_or_blanked_eq {x : Piece} (hx : x.IsSound) :
    (∃ c, x = .stray c ∧ ¬ Matches [c]) ∨ x.blanked = [x] := by
  cases hx with
  | @stray c hno _ => exact .inl ⟨c, rfl, hno⟩
  | _ => exact .inr rfl

theorem exists_flatMap_blanked_stray (c : Char) (xs : List Piece) :
    ∃ s, ((Piece.stray c :: xs).flatMap Piece.blanked).flatMap Piece.text = ' ' :: s := by
  obtain ⟨n, hn⟩ := Nat.exists_eq_succ_of_ne_zero (Nat.ne_of_gt c.utf8Size_pos)
  rw [List.flatMap_cons, List.flatMap_append, Piece.blanked, flatMap_text_spaces, hn]
  exact ⟨_, rfl⟩

theorem flatMap_blanked_cons {x : Piece} (h : x.blanked = [x]) (xs : List Piece) :
    ((x :: xs).flatMap Piece.blanked).flatMap Piece.text
      = x.text ++ (xs.flatMap Piece.blanked).flatMap Piece.text := by
  rw [List.flatMap_cons, h, List.singleton_append, List.flatMap_cons]

/-- Neither a character that is not expected nor a space is a digit. -/
theorem isDigit_head?_flatMap_blanked {xs : List Piece} (hxs : ∀ x ∈ xs, x.IsSound) :
    (xs.flatMap Piece.text).head?.any Char.isDigit
      = ((xs.flatMap Piece.blanked).flatMap Piece.text).head?.any Char.isDigit := by
  cases xs with
  | nil => rfl
  | cons x xs =>
    have hx := hxs x List.mem_cons_self
    rcases hx.stray_or_blanked_eq with ⟨c, rfl, hno⟩ | hblanked
    · obtain ⟨s, hs⟩ := exists_flatMap_blanked_stray c xs
      rw [hs]
      simpa [Piece.text] using not_isDigit_of_not_matches hno
    · obtain ⟨c, s, htext⟩ := List.exists_cons_of_ne_nil hx.text_ne_nil
      rw [List.flatMap_cons, flatMap_blanked_cons hblanked, htext]
      rfl

/-- No piece needs a character that is not expected in order to end. -/
theorem Piece.EndsBefore.flatMap_blanked {x : Piece} {xs : List Piece}
    (hxs : ∀ y ∈ xs, y.IsSound) (h : x.EndsBefore (xs.flatMap Piece.text)) :
    x.EndsBefore ((xs.flatMap Piece.blanked).flatMap Piece.text) := by
  cases xs with
  | nil => exact h
  | cons y ys =>
    obtain ⟨hy, hys⟩ := List.forall_mem_cons.1 hxs
    rcases hy.stray_or_blanked_eq with ⟨c, rfl, hno⟩ | hblanked
    · obtain ⟨s, hs⟩ := exists_flatMap_blanked_stray c ys
      rw [hs]
      cases x with
      | lexeme kind text => exact not_extends_of_isSpace (by decide)
      | blank text =>
        -- a comment ends before a line feed only, and that is expected
        intro hslash
        obtain rfl : c = '\n' := h hslash c rfl
        exact absurd (.inr (.space (by decide))) hno
      | stray d => trivial
      | openString text => exact absurd h.1 (List.cons_ne_nil _ _)
    · obtain ⟨c, s, htext⟩ := List.exists_cons_of_ne_nil hy.text_ne_nil
      rw [List.flatMap_cons, htext] at h
      rw [flatMap_blanked_cons hblanked, htext]
      cases x with
      | lexeme kind text =>
        -- the first character stays, and behind it only a digit could matter
        refine fun hext => h ((extends_cons_iff fun _ => ?_).1 hext)
        cases s with
        | nil => exact (isDigit_head?_flatMap_blanked hys).symm
        | cons d s => rfl
      | blank text => exact h
      | stray d => trivial
      | openString text => exact absurd h.1 (List.cons_ne_nil _ _)

theorem IsCut.flatMap_blanked {xs : List Piece} (h : IsCut xs) :
    IsCut (xs.flatMap Piece.blanked) := by
  induction h with
  | nil => exact .nil
  | @cons x xs sound ends later ih =>
    have hends := ends.flatMap_blanked later.sound
    rw [List.flatMap_cons]
    cases x with
    | stray c => exact isCut_spaces_append c.utf8Size ih
    | _ => exact .cons sound hends ih

/-! ### What is found -/

def Event.isStray : Event → Bool
  | fault _ .unexpectedCharacter => true
  | _ => false

theorem utf8Length_spaces (n : Nat) : utf8Length (List.replicate n ' ') = n := by
  induction n with
  | zero => rfl
  | succ n ih =>
    rw [List.replicate_succ, utf8Length_cons, ih, Nat.add_comm]
    rfl

/-- Spaces take as many bytes and lines as a character that is not expected. -/
theorem advance_blanked {x : Piece} (hx : x.IsSound) (p : Position) :
    p.advance (x.blanked.flatMap Piece.text) = p.advance x.text := by
  cases hx with
  | @stray c hno _ =>
    have hfeed : c ≠ '\n' := by
      rintro rfl
      exact hno (.inr (.space (by decide)))
    rw [Piece.blanked, flatMap_text_spaces, Position.advance, utf8Length_spaces]
    simp [Position.advance, Piece.text, List.count_replicate, hfeed]
  | _ => exact congrArg p.advance (List.flatMap_singleton _ _)

theorem advance_flatMap_blanked {xs : List Piece} (hxs : ∀ x ∈ xs, x.IsSound) (p : Position) :
    p.advance ((xs.flatMap Piece.blanked).flatMap Piece.text)
      = p.advance (xs.flatMap Piece.text) := by
  induction xs generalizing p with
  | nil => rfl
  | cons x xs ih =>
    obtain ⟨hx, hxs⟩ := List.forall_mem_cons.1 hxs
    rw [List.flatMap_cons, List.flatMap_append, List.flatMap_cons, Position.advance_append,
      Position.advance_append, advance_blanked hx, ih hxs]

/-- With spaces for what is not expected everything else is found, in its place. -/
theorem eventsFrom_flatMap_blanked {xs : List Piece} (hxs : ∀ x ∈ xs, x.IsSound) (p : Position) :
    eventsFrom p (xs.flatMap Piece.blanked)
      = (eventsFrom p xs).filter fun e => !e.isStray := by
  induction xs generalizing p with
  | nil => rfl
  | cons x xs ih =>
    obtain ⟨hx, hxs⟩ := List.forall_mem_cons.1 hxs
    rw [List.flatMap_cons, eventsFrom_append, advance_blanked hx, ih hxs, eventsFrom_cons,
      List.filter_append]
    congr 1
    cases x with
    | stray c =>
      have hblanks := eventsFrom_blanks_append p (List.replicate c.utf8Size [' ']) []
      rw [List.map_replicate, List.append_nil] at hblanks
      exact hblanks
    | _ => rfl

theorem scanOf_flatMap_blanked {xs : List Piece} (hxs : ∀ x ∈ xs, x.IsSound) (p : Position) :
    (scanOf p (xs.flatMap Piece.blanked)).tokens = (scanOf p xs).tokens ∧
      (scanOf p (xs.flatMap Piece.blanked)).errors = (scanOf p xs).errors.filter
        (·.message = LexicalFault.unterminatedString.message) := by
  have hevents := eventsFrom_flatMap_blanked hxs p
  have hstop := advance_flatMap_blanked hxs p
  simp only [Scan.tokens, Scan.errors, scanOf, hevents, hstop, List.filterMap_filter,
    List.filter_filterMap]
  constructor
  · congr 2
    funext e
    cases e with
    | token t => rfl
    | fault q cause => cases cause <;> rfl
  · congr 1
    funext e
    cases e with
    | token t => rfl
    | fault q cause => cases cause <;> rfl

theorem scan_blankStrays (source : String) :
    (scan (blankStrays source)).tokens = (scan source).tokens ∧
      (scan (blankStrays source)).errors = (scan source).errors.filter
        (·.message = LexicalFault.unterminatedString.message) := by
  have hcut := isCut_pieces source.toList
  have htext : (blankStrays source).toList
      = ((pieces source.toList).flatMap Piece.blanked).flatMap Piece.text := by
    have hblank := blankOut_flatMap_text hcut.sound .start
    rw [flatten_pieces] at hblank
    rw [blankStrays, String.toList_ofList, ← hblank]
    rfl
  have hscan := scanOf_flatMap_blanked hcut.sound .start
  rw [scanOf_pieces, ← hcut.flatMap_blanked.pieces_eq, scanOf_pieces, ← htext] at hscan
  exact hscan

/-! ## An open string -/

/-- If a scan reports an open string, that is its last error, and the source without the string is
scanned alike up to there. -/
theorem scan_of_error_eq {s : List Char} {earlier later : List Diagnostic} {d : Diagnostic}
    (herrors : (scanFrom .start s).errors = earlier ++ d :: later)
    (hmessage : d.message = LexicalFault.unterminatedString.message) :
    ∃ before body, s = before ++ '"' :: body ∧ '"' ∉ body ∧ AllClosed (pieces before) ∧
      (scanFrom .start s).events = (scanFrom .start before).events
        ++ [.fault (Position.start.advance before) .unterminatedString] ∧
      later = [] ∧ earlier = (scanFrom .start before).errors := by
  have hopen : ¬ AllClosed (pieces s) := by
    intro hclosed
    have hmem : d ∈ (scanFrom .start s).errors := by simp [herrors]
    exact stringsClosed_iff.2 hclosed d hmem hmessage
  obtain ⟨before, body, hs, hunclosed, hclosed, hpieces⟩ :=
    exists_pieces_eq_of_not_allClosed hopen
  have hevents : (scanFrom .start s).events = (scanFrom .start before).events
      ++ [.fault (Position.start.advance before) .unterminatedString] := by
    have happend := eventsFrom_append_openString .start (pieces before) ('"' :: body)
    rw [← hpieces, flatten_pieces] at happend
    exact happend
  refine ⟨before, body, hs, hunclosed, hclosed, hevents, ?_⟩
  -- the errors before the last one are of another kind
  have hlast : earlier ++ d :: later = (scanFrom .start before).errors
      ++ [.onLine (Position.start.advance before).line
            LexicalFault.unterminatedString.message] := by
    rw [← herrors, Scan.errors, hevents, List.filterMap_append]
    rfl
  rcases List.eq_nil_or_concat later with rfl | ⟨later, e, rfl⟩
  · exact ⟨rfl, (List.append_inj' hlast rfl).1⟩
  · rw [List.concat_eq_append, ← List.cons_append, ← List.append_assoc] at hlast
    have hbefore := (List.append_inj' hlast rfl).1
    have hmem : d ∈ (scanFrom .start before).errors := by simp [← hbefore]
    exact absurd hmessage (stringsClosed_iff.2 hclosed d hmem)

/-- **What is wrong with a source disturbs no token.** With spaces for the characters that are not
expected the tokens are the same, and the errors are those of open strings. Of these there is one at
most; it is the last error, and the source up to its opening quote has the same tokens but for the
end of the source, and the same errors but for this one. -/
theorem scan_recovers (source : String) :
    (scan (blankStrays source)).tokens = (scan source).tokens ∧
    (scan (blankStrays source)).errors = (scan source).errors.filter
      (·.message = LexicalFault.unterminatedString.message) ∧
    ∀ earlier d later, (scan source).errors = earlier ++ d :: later →
      d.message = LexicalFault.unterminatedString.message →
      later = [] ∧ (∀ e ∈ earlier, e.message ≠ LexicalFault.unterminatedString.message) ∧
      ∃ before body : String, source = before ++ "\"" ++ body ∧ '"' ∉ body.toList ∧
        (∀ p, .fault p .unterminatedString ∈ (scan source).events ↔
          p = Position.start.advance before.toList) ∧
        (∃ tokens, (scan source).tokens = tokens ++ [eofAt (scan source).stop] ∧
          (scan before).tokens = tokens ++ [eofAt (scan before).stop]) ∧
        (scan before).errors = earlier := by
  obtain ⟨htokens, herrors⟩ := scan_blankStrays source
  refine ⟨htokens, herrors, fun earlier d later herror hmessage => ?_⟩
  obtain ⟨before, body, hs, hunclosed, hclosed, hevents, hlater, hearlier⟩ :=
    scan_of_error_eq herror hmessage
  have hbefore : scan (String.ofList before) = scanFrom .start before := by
    rw [scan, String.toList_ofList]
  refine ⟨hlater, fun e he => ?_, String.ofList before, String.ofList body, ?_, ?_, ?_, ?_, ?_⟩
  · exact stringsClosed_iff.2 hclosed e (hearlier ▸ he)
  · rw [← String.toList_inj, hs]
    simp
  · rwa [String.toList_ofList]
  · intro p
    rw [String.toList_ofList, scan, hevents, List.mem_append, List.mem_singleton]
    constructor
    · rintro (h | h)
      · exact absurd h (hclosed.fault_notMem .start p)
      · exact (Event.fault.inj h).1
    · rintro rfl
      exact .inr rfl
  · refine ⟨(scanFrom .start before).events.filterMap Event.token?, ?_, ?_⟩
    · rw [Scan.tokens, scan, hevents, List.filterMap_append, List.append_assoc]
      rfl
    · rw [hbefore, Scan.tokens]
  · rw [hbefore, hearlier]

/-- A character of two bytes behind a point that ends a number, and then an open string over two
lines. -/
theorem scan_recovers_before_open_string :
    (scan "1.é \"a\n").errors
        = [.onLine 1 "Unexpected character."] ++ .onLine 1 "Unterminated string." :: [] ∧
      blankStrays "1.é \"a\n" = "1.   \"a\n" ∧
      (scan (blankStrays "1.é \"a\n")).tokens = (scan "1.é \"a\n").tokens ∧
      ∃ before body : String, "1.é \"a\n" = before ++ "\"" ++ body ∧ '"' ∉ body.toList ∧
        (scan before).errors = [.onLine 1 "Unexpected character."] := by
  have herrors : (scan "1.é \"a\n").errors
      = [.onLine 1 "Unexpected character."] ++ .onLine 1 "Unterminated string." :: [] := by
    decide +kernel
  obtain ⟨htokens, -, hopen⟩ := scan_recovers "1.é \"a\n"
  obtain ⟨-, -, before, body, hs, hunclosed, -, -, hbefore⟩ := hopen _ _ _ herrors rfl
  exact ⟨herrors, by decide +kernel, htokens, before, body, hs, hunclosed, hbefore⟩

end Lox
