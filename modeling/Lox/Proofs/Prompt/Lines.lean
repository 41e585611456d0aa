import Lox.Prompt
import Mathlib.Data.List.DropRight

/-!
# Typed lines

What the lines of an input are (`IsLines`), and what each of them means at the prompt (`Means`),
said without reading the input and without decoding it. Every input has exactly one list of lines
(`isLines_iff`), and every line one meaning (`ofLine_eq_iff`).
-/

set_option autoImplicit false

namespace Lox

namespace Prompt

/-! ## The lines of an input -/

/-- Each line ends with its only line feed, but the last may lack one. -/
inductive IsLines : List UInt8 → List (List UInt8) → Prop where
  | nil : IsLines [] []
  | last {line : List UInt8} (nonempty : line ≠ []) (unended : 10 ∉ line) : IsLines line [line]
  | cons {body rest : List UInt8} {lines : List (List UInt8)} (oneLine : 10 ∉ body)
      (later : IsLines rest lines) : IsLines (body ++ 10 :: rest) ((body ++ [10]) :: lines)

/-- A line that is being cut takes in what has no line feed. -/
theorem linesAfter_append {body : List UInt8} (oneLine : 10 ∉ body) (begun bytes : List UInt8) :
    linesAfter [] begun (body ++ bytes) = linesAfter [] (body.reverse ++ begun) bytes := by
  induction body generalizing begun with
  | nil => rfl
  | cons b body ih =>
    obtain ⟨hb, hbody⟩ := not_or.1 (mt List.mem_cons.2 oneLine)
    rw [List.cons_append, linesAfter, if_neg (Ne.symm hb), ih hbody]
    simp

theorem lines_of_lineFeed_notMem {line : List UInt8} (nonempty : line ≠ []) (unended : 10 ∉ line) :
    lines line = [line] := by
  have hcut := linesAfter_append unended [] []
  rw [List.append_nil, List.append_nil] at hcut
  rw [lines, hcut, linesAfter]
  simp [nonempty]

theorem lines_cons {body : List UInt8} (oneLine : 10 ∉ body) (rest : List UInt8) :
    lines (body ++ 10 :: rest) = (body ++ [10]) :: lines rest := by
  rw [lines, linesAfter_append oneLine, linesAfter, if_pos rfl, linesAfter_eq]
  simp [lines]

/-- Lines are cut right, behind what is begun of the first of them. -/
theorem isLines_linesAfter {begun : List UInt8} (oneLine : 10 ∉ begun) (bytes : List UInt8) :
    IsLines (begun.reverse ++ bytes) (linesAfter [] begun bytes) := by
  induction bytes generalizing begun with
  | nil =>
    unfold linesAfter
    cases begun with
    | nil => exact .nil
    | cons b begun =>
      rw [List.append_nil]
      exact .last (by simp) (mt List.mem_reverse.1 oneLine)
  | cons b bytes ih =>
    unfold linesAfter
    split
    next hb =>
      have hbody : 10 ∉ begun.reverse := mt List.mem_reverse.1 oneLine
      have hlater : IsLines bytes (linesAfter [] [] bytes) := ih List.not_mem_nil
      have hcut : linesAfter [(b :: begun).reverse] [] bytes
          = (begun.reverse ++ [10]) :: linesAfter [] [] bytes := by
        rw [linesAfter_eq, hb]
        simp
      rw [hcut, hb]
      exact .cons hbody hlater
    next hb =>
      have hbegun : 10 ∉ b :: begun := List.not_mem_cons_of_ne_of_not_mem (Ne.symm hb) oneLine
      have hlater := ih hbegun
      rw [List.reverse_cons, List.append_assoc] at hlater
      exact hlater

/-- Every input has exactly one list of lines. -/
theorem isLines_iff {bytes : List UInt8} {ls : List (List UInt8)} :
    IsLines bytes ls ↔ ls = lines bytes := by
  constructor
  · intro h
    induction h with
    | nil => rfl
    | last nonempty unended => exact (lines_of_lineFeed_notMem nonempty unended).symm
    | cons oneLine _ ih => rw [lines_cons oneLine, ih]
  · rintro rfl
    exact isLines_linesAfter List.not_mem_nil bytes

/-- A line feed is the last byte of its line. -/
theorem IsLines.eq_nil_of_mem {bytes line before after : List UInt8} {ls : List (List UInt8)}
    (h : IsLines bytes ls) (hline : line ∈ ls) (hfeed : line = before ++ 10 :: after) :
    after = [] := by
  induction h with
  | nil => exact absurd hline List.not_mem_nil
  | last _ unended =>
    obtain rfl := List.mem_singleton.1 hline
    exact absurd (hfeed ▸ List.mem_append_right before List.mem_cons_self) unended
  | @cons body rest lines oneLine _ ih =>
    rcases List.mem_cons.1 hline with hbody | hline
    · by_contra hafter
      -- then the line feed stands in what comes before the last byte
      have hmem : 10 ∈ (before ++ 10 :: after).dropLast := by
        rw [List.dropLast_append_of_ne_nil (List.cons_ne_nil _ _),
          List.dropLast_cons_of_ne_nil hafter]
        exact List.mem_append_right _ List.mem_cons_self
      rw [← hfeed, hbody, List.dropLast_concat] at hmem
      exact oneLine hmem
    · exact ih hline

/-! ## What lines mean -/

/-- What a typed line means: what is left of its text without the carriage returns and line feeds at
its end goes into the source, and if nothing is left the source ends. -/
inductive Means : List UInt8 → Reply → Prop where
  | keep {text ending : List Char} (nonempty : text ≠ [])
      (stripped : ∀ c ∈ text.getLast?, isLineEnd c = false)
      (lineEnd : ∀ c ∈ ending, isLineEnd c = true) :
      Means (encodeUtf8 (String.ofList (text ++ ending))) (.keep text)
  | stop {ending : List Char} (lineEnd : ∀ c ∈ ending, isLineEnd c = true) :
      Means (encodeUtf8 (String.ofList ending)) .stop
  | malformed {line : List UInt8} (noText : ∀ text, encodeUtf8 text ≠ line) :
      Means line .malformed

theorem stripEnd_eq_rdropWhile (text : List Char) : stripEnd text = text.rdropWhile isLineEnd := rfl

/-- Line ends at the end of a text are taken off. -/
theorem stripEnd_append {text ending : List Char}
    (stripped : ∀ c ∈ text.getLast?, isLineEnd c = false)
    (lineEnd : ∀ c ∈ ending, isLineEnd c = true) : stripEnd (text ++ ending) = text := by
  rw [stripEnd_eq_rdropWhile]
  induction ending using List.reverseRecOn with
  | nil =>
    rw [List.append_nil, List.rdropWhile_eq_self_iff]
    intro hne
    rw [stripped _ (List.getLast?_eq_some_getLast hne)]
    exact Bool.false_ne_true
  | append_singleton ending c ih =>
    have hc : isLineEnd c = true := lineEnd c (by simp)
    rw [← List.append_assoc, List.rdropWhile_concat_pos _ _ _ hc]
    exact ih fun d hd => lineEnd d (List.mem_append_left _ hd)

/-- Only line ends are taken off, and all of them. -/
theorem exists_stripEnd_append (text : List Char) :
    (∀ c ∈ (stripEnd text).getLast?, isLineEnd c = false) ∧
      ∃ ending, stripEnd text ++ ending = text ∧ ∀ c ∈ ending, isLineEnd c = true := by
  rw [stripEnd_eq_rdropWhile]
  refine ⟨fun c hc => ?_, text.rtakeWhile isLineEnd,
    List.rdropWhile_append_rtakeWhile, fun c hc => List.mem_rtakeWhile_imp hc⟩
  obtain ⟨hne, rfl⟩ := List.mem_getLast?_eq_getLast hc
  have hlast := List.rdropWhile_last_not isLineEnd text hne
  simpa using hlast

/-- Every line has exactly one meaning. -/
theorem ofLine_eq_iff {line : List UInt8} {reply : Reply} :
    Reply.ofLine line = reply ↔ Means line reply := by
  unfold Reply.ofLine
  constructor
  · rintro rfl
    cases hdecode : decodeUtf8? line with
    | none =>
      refine .malformed fun text htext => ?_
      rw [decodeUtf8?_eq_some_iff.2 htext] at hdecode
      contradiction
    | some text =>
      obtain ⟨stripped, ending, htext, lineEnd⟩ := exists_stripEnd_append text.toList
      have hline : line = encodeUtf8 (String.ofList (stripEnd text.toList ++ ending)) := by
        rw [htext, String.ofList_toList, decodeUtf8?_eq_some_iff.1 hdecode]
      simp only [List.isEmpty_iff]
      split
      next hempty =>
        rw [hline, hempty]
        exact .stop lineEnd
      next hne =>
        rw [hline]
        exact .keep hne stripped lineEnd
  · intro h
    cases h with
    | keep nonempty stripped lineEnd =>
      rw [decodeUtf8?_eq_some_iff.2 rfl]
      simp [stripEnd_append stripped lineEnd, nonempty]
    | @stop ending lineEnd =>
      have hnil : stripEnd ([] ++ ending) = [] := stripEnd_append (by simp) lineEnd
      rw [List.nil_append] at hnil
      rw [decodeUtf8?_eq_some_iff.2 rfl]
      simp [hnil]
    | malformed noText =>
      have hnone : decodeUtf8? line = none :=
        Option.eq_none_iff_forall_ne_some.2 fun text htext =>
          noText text (decodeUtf8?_eq_some_iff.1 htext)
      rw [hnone]

end Prompt

end Lox
