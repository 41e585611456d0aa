import Lox.Proofs.NumeralShape
import Lox.Proofs.Prompt.Lines
import Lox.Proofs.TextListing

/-!
# Lines of a text listing

Nothing is escaped in a text listing, so a record is one line only if its token is. The one kind of
token that can have line feeds is a string, and they stand in its record twice, in the lexeme and in
the value (`count_lineFeed_display`). So a text listing has one line for each token, and two more
for each line feed in a string; and its lines are its records if and only if no string goes over a
line end (`listing_text_lines`).
-/

set_option autoImplicit false

namespace Lox

/-! ## Lines of joined texts -/

namespace Prompt

/-- Behind a line feed the lines begin anew. -/
theorem linesAfter_lineFeed (begun before after : List UInt8) :
    linesAfter [] begun (before ++ 10 :: after)
      = linesAfter [] begun (before ++ [10]) ++ lines after := by
  induction before generalizing begun with
  | nil =>
    rw [List.nil_append, List.nil_append, linesAfter, linesAfter, if_pos rfl, if_pos rfl,
      linesAfter_eq]
    rfl
  | cons b before ih =>
    simp only [List.cons_append, linesAfter]
    split
    · rw [linesAfter_eq [_], linesAfter_eq [_], ih, List.append_assoc]
    · rw [ih]

theorem lines_lineFeed (before after : List UInt8) :
    lines (before ++ 10 :: after) = lines (before ++ [10]) ++ lines after :=
  linesAfter_lineFeed [] before after

/-- A text that ends with a line feed has as many lines as line feeds. -/
theorem length_lines_ended (bytes : List UInt8) :
    (lines (bytes ++ [10])).length = bytes.count 10 + 1 := by
  have hbegun : ∀ begun : List UInt8,
      (linesAfter [] begun (bytes ++ [10])).length = bytes.count 10 + 1 := by
    induction bytes with
    | nil =>
      intro begun
      simp [linesAfter]
    | cons b bytes ih =>
      intro begun
      simp only [List.cons_append, linesAfter]
      split
      next hb =>
        rw [linesAfter_eq, List.length_append, ih, hb, List.count_cons_self]
        simp only [List.length_reverse, List.length_cons, List.length_nil]
        omega
      next hb => rw [ih, List.count_cons_of_ne hb]
  exact hbegun []

end Prompt

/-- A text has as many line feeds as its UTF-8 form has bytes 10. -/
theorem count_encodeUtf8 (text : String) :
    (encodeUtf8 text).count 10 = text.toList.count '\n' := by
  have hchar : ∀ c : Char, c ≠ '\n' → (String.utf8EncodeChar c).count 10 = 0 := by
    intro c hc
    rw [List.count_eq_zero]
    intro hten
    exact hc (Char.toNat_inj.1 (toNat_of_mem_utf8EncodeChar hten (by decide)))
  have hfeed : String.utf8EncodeChar '\n' = [10] := by decide
  rw [encodeUtf8_eq_flatMap]
  induction text.toList with
  | nil => rfl
  | cons c s ih =>
    rw [List.flatMap_cons, List.count_append, ih]
    by_cases hc : c = '\n'
    · rw [hc, hfeed, List.count_cons_self, List.count_cons_self, List.count_nil, Nat.add_comm]
    · rw [hchar c hc, List.count_cons_of_ne hc, Nat.zero_add]

/-! ## Line feeds in records -/

theorem Kind.lineFeed_notMem_name (k : Kind) : '\n' ∉ k.name.toList := by
  have hall : ∀ k ∈ all, '\n' ∉ k.name.toList := by decide +kernel
  exact hall k (mem_all k)

theorem lineFeed_notMem_digits {s : List Char} (h : ∀ c ∈ s, c.isDigit = true) : '\n' ∉ s :=
  fun hfeed => absurd (h _ hfeed) (by decide)

theorem Binary64.lineFeed_notMem_display (x : Binary64) : '\n' ∉ x.display.toList := by
  unfold display
  split
  · decide
  split
  · split <;> decide
  next hnan hinfinite =>
    have hx : x.isFinite = true :=
      isFinite_iff.2 ⟨Bool.eq_false_of_not_eq_true hnan, Bool.eq_false_of_not_eq_true hinfinite⟩
    obtain ⟨whole, fraction, power, htext, hwhole, hfraction, hpower⟩ :=
      displayStyle.exists_parts
        (Decimal.leadingExponent_shortest_of_eq_zero displayStyle.tie hx)
    have hpointed : '\n' ∉ Json.pointed fraction := by
      unfold Json.pointed
      split
      · exact List.not_mem_nil
      · simp [lineFeed_notMem_digits hfraction]
    have hpower : '\n' ∉ power := by
      cases hpower with
      | none => exact List.not_mem_nil
      | signed isSign isDigits =>
        rcases isSign with rfl | rfl <;> simp [displayStyle, lineFeed_notMem_digits isDigits.2]
    have hsign : '\n' ∉ (if x.isNegative then ['-'] else []) := by
      split <;> decide
    rw [String.toList_ofList, NumeralStyle.finite, htext]
    simp [hsign, hpointed, hpower, lineFeed_notMem_digits hwhole.isDigits.2]

/-- A string stands in its record twice, and nothing else there has line feeds. -/
theorem Token.IsSound.count_lineFeed_display {t : Token} (h : t.IsSound) :
    t.display.toList.count '\n' = 2 * t.lexeme.toList.count '\n' := by
  have hparts : t.display.toList.count '\n'
      = t.lexeme.toList.count '\n' + t.literal.display.toList.count '\n' := by
    have hname : t.kind.name.toList.count '\n' = 0 :=
      List.count_eq_zero.2 t.kind.lineFeed_notMem_name
    simp [display, hname]
  by_cases hstring : t.kind = .string
  · obtain ⟨body, htext, -, hliteral⟩ := h.agreesWithLexeme.quoted hstring
    have hlexeme : t.lexeme.toList.count '\n' = body.count '\n' := by simp [htext]
    rw [hparts, hliteral, Literal.display, String.toList_ofList, hlexeme, Nat.two_mul]
  · have hlexeme : t.lexeme.toList.count '\n' = 0 :=
      List.count_eq_zero.2 (h.notMem_lexeme_of_isSpace hstring (by decide))
    have hliteral : t.literal.display.toList.count '\n' = 0 := by
      by_cases hnumber : t.kind = .number
      · obtain ⟨x, hx⟩ := h.agreesWithLexeme.numeral hnumber
        rw [hx]
        exact List.count_eq_zero.2 x.lineFeed_notMem_display
      · rw [h.agreesWithLexeme.absent hstring hnumber]
        decide
    rw [hparts, hlexeme, hliteral]

/-! ## The lines of a listing -/

/-- What a reader gets that takes a text line by line. -/
def textLines (text : String) : List (List UInt8) :=
  Prompt.lines (encodeUtf8 text)

theorem encodeUtf8_append (s t : String) : encodeUtf8 (s ++ t) = encodeUtf8 s ++ encodeUtf8 t := by
  simp [encodeUtf8_eq_flatMap]

theorem encodeUtf8_append_lineFeed (s : String) :
    encodeUtf8 (s ++ "\n") = encodeUtf8 s ++ [10] := by
  have hfeed : encodeUtf8 "\n" = [10] := by decide +kernel
  rw [encodeUtf8_append, hfeed]

/-- A record and what is behind it share no line. -/
theorem textLines_append (record rest : String) :
    textLines (record ++ "\n" ++ rest) = textLines (record ++ "\n") ++ textLines rest := by
  unfold textLines
  rw [encodeUtf8_append, encodeUtf8_append_lineFeed, List.append_assoc]
  exact Prompt.lines_lineFeed _ _

theorem length_textLines (record : String) :
    (textLines (record ++ "\n")).length = record.toList.count '\n' + 1 := by
  rw [textLines, encodeUtf8_append_lineFeed, Prompt.length_lines_ended, count_encodeUtf8]

theorem textLines_of_lineFeed_notMem {record : String} (h : '\n' ∉ record.toList) :
    textLines (record ++ "\n") = [encodeUtf8 (record ++ "\n")] := by
  rw [textLines, encodeUtf8_append_lineFeed,
    Prompt.lines_cons (mt lineFeed_mem_encodeUtf8_iff.1 h)]
  rfl

namespace Listing

variable {tokens : List Token}

/-- Each token has its own lines. -/
theorem textLines_text (tokens : List Token) :
    textLines (text tokens) = tokens.flatMap fun t => textLines (t.display ++ "\n") := by
  induction tokens with
  | nil => decide +kernel
  | cons t ts ih =>
    have htext : text (t :: ts) = t.display ++ "\n" ++ text ts := by
      simp [text, String.join_cons]
    rw [htext, textLines_append, ih, List.flatMap_cons]

/-- There is a line for each token, and two more for each line feed in one. -/
theorem length_textLines_text (h : ∀ t ∈ tokens, t.IsSound) :
    (textLines (text tokens)).length
      = tokens.length + 2 * (tokens.flatMap fun t => t.lexeme.toList).count '\n' := by
  rw [textLines_text]
  induction tokens with
  | nil => rfl
  | cons t ts ih =>
    obtain ⟨ht, hts⟩ := List.forall_mem_cons.1 h
    rw [List.flatMap_cons, List.length_append, length_textLines, ht.count_lineFeed_display, ih hts,
      List.flatMap_cons, List.count_append, List.length_cons]
    omega

/-- The lines are the records if no token has a line feed, and only then. -/
theorem textLines_text_eq_iff (h : ∀ t ∈ tokens, t.IsSound) :
    textLines (text tokens) = tokens.map (fun t => encodeUtf8 (t.display ++ "\n"))
      ↔ ∀ t ∈ tokens, '\n' ∉ t.lexeme.toList := by
  constructor
  · intro heq t ht hfeed
    -- there would be more lines than records
    have hlength := length_textLines_text h
    rw [heq, List.length_map] at hlength
    have hnone : (tokens.flatMap fun t => t.lexeme.toList).count '\n' = 0 := by omega
    exact List.count_eq_zero.1 hnone (List.mem_flatMap.2 ⟨t, ht, hfeed⟩)
  · intro honeLine
    rw [textLines_text, List.map_eq_flatMap]
    refine List.flatMap_congr fun t ht => textLines_of_lineFeed_notMem ?_
    rw [← List.count_eq_zero, (h t ht).count_lineFeed_display,
      List.count_eq_zero.2 (honeLine t ht)]

end Listing

/-- **The lines of a text listing.** The text listing of a source without errors has as many lines
as the source has tokens, and two more for each line feed in a string. Its lines are the records of
the tokens, one by one, if and only if no string of the source goes over a line end. -/
theorem listing_text_lines {source : String} (clean : (scan source).errors = []) :
    ∃ text, listingOf .text source = .ok text ∧
      (textLines text).length = (scan source).tokens.length
        + 2 * ((scan source).tokens.flatMap fun t => t.lexeme.toList).count '\n' ∧
      (textLines text = ((scan source).tokens.map fun t =>
          encodeUtf8 (t.kind.name ++ " " ++ t.lexeme ++ " " ++ t.literal.display ++ "\n"))
        ↔ ∀ t ∈ (scan source).tokens, t.kind = .string → '\n' ∉ t.lexeme.toList) := by
  have hsound : ∀ t ∈ (scan source).tokens, t.IsSound := fun _ => isSound_of_mem_tokens
  refine ⟨_, listingOf_of_errors_eq_nil clean .text, Listing.length_textLines_text hsound,
    (Listing.textLines_text_eq_iff hsound).trans ?_⟩
  refine forall₂_congr fun t ht => ?_
  constructor
  · intro h _
    exact h
  · intro h
    by_cases hstring : t.kind = .string
    · exact h hstring
    · exact (hsound t ht).notMem_lexeme_of_isSpace hstring (by decide)

/-- A string over three lines between tokens without a line feed: eight lines for four tokens. -/
theorem listing_text_lines_of_string :
    ∃ text, listingOf .text "print // \n\"a\n\nb\" 1" = .ok text ∧
      (textLines text).length = 8 ∧
      (scan "print // \n\"a\n\nb\" 1").tokens.length = 4 ∧
      textLines text ≠ (scan "print // \n\"a\n\nb\" 1").tokens.map fun t =>
        encodeUtf8 (t.kind.name ++ " " ++ t.lexeme ++ " " ++ t.literal.display ++ "\n") := by
  have clean : (scan "print // \n\"a\n\nb\" 1").errors = [] := by decide +kernel
  obtain ⟨text, hlisting, hlength, hrecords⟩ := listing_text_lines clean
  have htokens : (scan "print // \n\"a\n\nb\" 1").tokens.length
      + 2 * ((scan "print // \n\"a\n\nb\" 1").tokens.flatMap fun t => t.lexeme.toList).count '\n'
        = 8 := by decide +kernel
  refine ⟨text, hlisting, hlength.trans htokens, by decide +kernel, mt hrecords.1 ?_⟩
  intro honeLine
  have hstring : (⟨.string, "\"a\n\nb\"", .string "a\n\nb", 2, ⟨10, 16⟩⟩ : Token)
      ∈ (scan "print // \n\"a\n\nb\" 1").tokens := by decide +kernel
  exact honeLine _ hstring rfl (by decide)

/-- The shortest string that is more than one line: its record is three lines. -/
theorem textLines_of_lineFeed_in_string :
    (scan "\"\n\"").errors = [] ∧
      listingOf .text "\"\n\"" = .ok "STRING \"\n\" \n\nEOF  null\n" ∧
      (scan "\"\n\"").tokens.length = 2 ∧
      textLines "STRING \"\n\" \n\nEOF  null\n"
        = [encodeUtf8 "STRING \"\n", encodeUtf8 "\" \n", encodeUtf8 "\n",
          encodeUtf8 "EOF  null\n"] := by
  decide +kernel

end Lox
