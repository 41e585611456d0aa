import Lox.Proofs.Lines
import Lox.Proofs.Prompt.Dialogue

/-!
# Sources that were typed

A source that was typed consists of the texts that were kept, each on a line of its own. So typing
it again makes no difference to the dialogue (`isDivided_encode_sourceText`), and its lines are
those that were typed: what a scan finds on a line begins inside what was kept of it
(`standsIn_of_sourceText_eq`). `dialogue_idempotent` puts the two together.
-/

set_option autoImplicit false

namespace Lox

namespace Prompt

/-! ## What is kept -/

/-- What can be kept of a line. -/
structure IsKeptText (text : List Char) : Prop where
  nonempty : text ≠ []
  oneLine : '\n' ∉ text
  stripped : ∀ c ∈ text.getLast?, isLineEnd c = false

/-- A line feed in a text stands in its UTF-8 form. -/
theorem encodeUtf8_lineFeed (s t : List Char) :
    encodeUtf8 (String.ofList (s ++ '\n' :: t))
      = encodeUtf8 (String.ofList s) ++ 10 :: encodeUtf8 (String.ofList t) := by
  have hfeed : String.utf8EncodeChar '\n' = [10] := by decide
  simp only [encodeUtf8_eq_flatMap, String.toList_ofList, List.flatMap_append, List.flatMap_cons,
    hfeed, List.singleton_append]

/-- What is kept of a line of an input has no line feed in it. -/
theorem Means.isKeptText {line bytes : List UInt8} {ls : List (List UInt8)} {text : List Char}
    (h : Means line (.keep text)) (hlines : IsLines bytes ls) (hline : line ∈ ls) :
    IsKeptText text := by
  cases h with
  | @keep _ ending nonempty stripped lineEnd =>
    refine ⟨nonempty, fun hfeed => ?_, stripped⟩
    obtain ⟨before, after, rfl, -⟩ := List.eq_append_cons_of_mem hfeed
    -- nothing of the line is behind the line feed, so the text ends with it
    have hparts : encodeUtf8 (String.ofList (before ++ '\n' :: after ++ ending))
        = encodeUtf8 (String.ofList before)
          ++ 10 :: encodeUtf8 (String.ofList (after ++ ending)) := by
      rw [List.append_assoc, List.cons_append, encodeUtf8_lineFeed]
    have hafter : encodeUtf8 (String.ofList (after ++ ending)) = [] :=
      hlines.eq_nil_of_mem hline hparts
    rw [encodeUtf8_eq_nil_iff, String.toList_ofList, List.append_eq_nil_iff] at hafter
    have hlast := stripped '\n' (by rw [hafter.1]; simp)
    exact absurd hlast (by decide)

theorem IsDivided.isKeptText {input : Input} {typed rest : List (List UInt8)}
    {texts : List (List Char)} (h : IsDivided input typed texts rest) :
    ∀ text ∈ texts, IsKeptText text := by
  have hmem : ∀ line ∈ typed, line ∈ typed ++ rest := fun _ => List.mem_append_left rest
  obtain ⟨hlines, hkept, -⟩ := h
  generalize typed ++ rest = ls at hmem hlines
  induction hkept with
  | nil => exact fun _ htext => absurd htext List.not_mem_nil
  | cons hline _ ih =>
    obtain ⟨hhead, htail⟩ := List.forall_mem_cons.1 hmem
    exact List.forall_mem_cons.2 ⟨hline.isKeptText hlines hhead, ih htail⟩

/-! ## Typing a source again -/

theorem sourceText_cons (text : List Char) (texts : List (List Char)) :
    sourceText (text :: texts) = text ++ '\n' :: sourceText texts := by
  rw [sourceText, List.flatMap_cons, List.append_assoc]
  rfl

theorem isLines_sourceText {texts : List (List Char)} (h : ∀ text ∈ texts, IsKeptText text) :
    IsLines (encodeUtf8 (String.ofList (sourceText texts)))
      (texts.map fun text => encodeUtf8 (String.ofList text) ++ [10]) := by
  induction texts with
  | nil =>
    have hnil : encodeUtf8 (String.ofList (sourceText [])) = [] := encodeUtf8_eq_nil_iff.2 rfl
    rw [hnil]
    exact .nil
  | cons text texts ih =>
    obtain ⟨htext, htexts⟩ := List.forall_mem_cons.1 h
    have honeLine : 10 ∉ encodeUtf8 (String.ofList text) := by
      rw [lineFeed_mem_encodeUtf8_iff, String.toList_ofList]
      exact htext.oneLine
    rw [sourceText_cons, encodeUtf8_lineFeed]
    exact .cons honeLine (ih htexts)

/-- A text that is kept is all that is left of its own line. -/
theorem IsKeptText.means {text : List Char} (h : IsKeptText text) :
    Means (encodeUtf8 (String.ofList text) ++ [10]) (.keep text) := by
  have hnil : encodeUtf8 (String.ofList []) = [] := encodeUtf8_eq_nil_iff.2 rfl
  rw [← hnil, ← encodeUtf8_lineFeed]
  refine .keep h.nonempty h.stripped fun c hc => ?_
  obtain rfl := List.mem_singleton.1 hc
  rfl

/-- A source that was typed is typed again as it is, with nothing behind it. -/
theorem isDivided_encode_sourceText {texts : List (List Char)}
    (h : ∀ text ∈ texts, IsKeptText text) :
    IsDivided (encodeUtf8 (String.ofList (sourceText texts)))
      (texts.map fun text => encodeUtf8 (String.ofList text) ++ [10]) texts [] := by
  refine ⟨?_, ?_, fun line hline => absurd hline (by simp)⟩
  · rw [List.append_nil]
    exact isLines_sourceText h
  · rw [List.forall₂_map_left_iff, List.forall₂_same]
    exact fun text htext => (h text htext).means

/-! ## Lines of a source that was typed -/

/-- The byte `offset` of a source that was typed stands in what was kept of its line `i`. -/
def StandsIn (texts : List (List Char)) (i offset : Nat) : Prop :=
  ∃ earlier text later, texts = earlier ++ text :: later ∧ i = earlier.length + 1 ∧
    utf8Length (sourceText earlier) ≤ offset ∧ offset < utf8Length (sourceText earlier ++ text)

theorem StandsIn.cons {texts : List (List Char)} {i offset : Nat} (h : StandsIn texts i offset)
    (text : List Char) :
    StandsIn (text :: texts) (i + 1) (utf8Length (text ++ ['\n']) + offset) := by
  obtain ⟨earlier, text', later, rfl, rfl, hstart, hstop⟩ := h
  refine ⟨text :: earlier, text', later, rfl, rfl, ?_, ?_⟩
  all_goals
    simp only [sourceText_cons, utf8Length_append, utf8Length_cons, utf8Length_nil] at hstop ⊢
    omega

theorem StandsIn.bounds {texts : List (List Char)} {i offset : Nat} (h : StandsIn texts i offset) :
    1 ≤ i ∧ i ≤ texts.length := by
  obtain ⟨earlier, text, later, rfl, rfl, -, -⟩ := h
  rw [List.length_append, List.length_cons]
  omega

/-- A character that is no line feed stands in the line that the line feeds before it count. -/
theorem standsIn_of_sourceText_eq {texts : List (List Char)} {before after : List Char} {c : Char}
    (h : sourceText texts = before ++ c :: after) (hc : c ≠ '\n')
    (oneLine : ∀ text ∈ texts, '\n' ∉ text) :
    StandsIn texts (1 + before.count '\n') (utf8Length before) := by
  induction texts generalizing before with
  | nil => exact absurd h (by simp [sourceText])
  | cons text texts ih =>
    obtain ⟨htext, htexts⟩ := List.forall_mem_cons.1 oneLine
    rw [sourceText_cons] at h
    rcases List.append_eq_append_iff.1 h with ⟨u, rfl, hu⟩ | ⟨u, rfl, hu⟩
    · -- the character stands behind the first line
      cases u with
      | nil => exact absurd (List.cons.inj hu).1.symm hc
      | cons d u =>
        obtain ⟨rfl, hlater⟩ := List.cons.inj hu
        have hcount : text.count '\n' = 0 := List.count_eq_zero.2 htext
        have hline : 1 + (text ++ '\n' :: u).count '\n' = 1 + u.count '\n' + 1 := by
          rw [List.count_append, List.count_cons_self, hcount]
          omega
        have hplace : utf8Length (text ++ '\n' :: u)
            = utf8Length (text ++ ['\n']) + utf8Length u := by
          simp [Nat.add_assoc]
        rw [hline, hplace]
        exact (ih hlater htexts).cons text
    · cases u with
      | nil => exact absurd (List.cons.inj hu).1 hc
      | cons d u =>
        obtain ⟨rfl, -⟩ := List.cons.inj hu
        have hcount : before.count '\n' = 0 :=
          List.count_eq_zero.2 fun hmem => htext (List.mem_append_left _ hmem)
        have hpos := c.utf8Size_pos
        refine ⟨[], _, texts, rfl, by rw [hcount]; rfl, Nat.zero_le _, ?_⟩
        simp only [sourceText, List.flatMap_nil, List.nil_append, utf8Length_append,
          utf8Length_cons]
        omega

/-- A source that was typed has as many lines as texts were kept. -/
theorem count_lineFeed_sourceText {texts : List (List Char)} (h : ∀ text ∈ texts, IsKeptText text) :
    (sourceText texts).count '\n' = texts.length := by
  induction texts with
  | nil => rfl
  | cons text texts ih =>
    obtain ⟨htext, htexts⟩ := List.forall_mem_cons.1 h
    rw [sourceText_cons, List.count_append, List.count_cons_self,
      List.count_eq_zero.2 htext.oneLine, ih htexts, List.length_cons]
    omega

end Prompt

/-! ## What a scan finds in its lines -/

/-- Only a blank begins with a line feed. -/
theorem Piece.IsSound.head_ne_lineFeed {x : Piece} (h : x.IsSound) (hblank : ∀ s, x ≠ .blank s) :
    ∃ c s, x.text = c :: s ∧ c ≠ '\n' := by
  have hfeed : IsSkippable ['\n'] := .space (by decide)
  obtain ⟨c, s, hx⟩ := List.exists_cons_of_ne_nil h.text_ne_nil
  refine ⟨c, s, hx, ?_⟩
  rintro rfl
  cases h with
  | @lexeme kind text hlex =>
    obtain rfl : text = '\n' :: s := hx
    have hnil : s = [] := Matches.of_isSpace (.inl ⟨kind, hlex⟩) (by decide)
    rw [hnil] at hlex
    exact hlex.not_isSkippable hfeed
  | @blank text hskip => exact hblank text rfl
  | @stray c hno _ =>
    obtain ⟨rfl, -⟩ := List.cons.inj hx
    exact hno (.inr hfeed)
  | @openString text _ head =>
    obtain rfl : text = '\n' :: s := hx
    exact absurd (Option.some.inj head) (by decide)

namespace Prompt

variable {texts : List (List Char)}

/-- What is no blank stands in what was kept of its line. -/
theorem standsIn_of_isSound {x : Piece} {before after : List Char} (hx : x.IsSound)
    (hblank : ∀ s, x ≠ .blank s) (h : sourceText texts = before ++ x.text ++ after)
    (hkept : ∀ text ∈ texts, IsKeptText text) :
    StandsIn texts (1 + before.count '\n') (utf8Length before) := by
  obtain ⟨c, s, htext, hc⟩ := hx.head_ne_lineFeed hblank
  rw [htext, List.append_assoc, List.cons_append] at h
  exact standsIn_of_sourceText_eq h hc fun text htext => (hkept text htext).oneLine

theorem standsIn_of_mem_tokens (hkept : ∀ text ∈ texts, IsKeptText text) {t : Token}
    (ht : t ∈ (scanFrom .start (sourceText texts)).tokens) (heof : t.kind ≠ .eof) :
    StandsIn texts t.line t.span.start := by
  rcases exists_of_mem_tokens ht with rfl | ⟨kind, before, text, after, hs, hlex, -, rfl⟩
  · exact absurd rfl heof
  · have hstands := standsIn_of_isSound (.lexeme hlex) (by simp) hs hkept
    rw [← Nat.zero_add (utf8Length before)] at hstands
    exact hstands

theorem standsIn_of_mem_faultsOf (hkept : ∀ text ∈ texts, IsKeptText text) {offset : Nat}
    {cause : LexicalFault} (h : (offset, cause) ∈ faultsOf (sourceText texts)) :
    StandsIn texts (lineAt (sourceText texts) offset) offset := by
  obtain ⟨earlier, x, later, hpieces, rfl, hcause⟩ := mem_faultsOf_iff.1 h
  have hs : sourceText texts
      = earlier.flatMap Piece.text ++ (x.text ++ later.flatMap Piece.text) := by
    rw [← flatten_pieces (sourceText texts), hpieces, List.flatMap_append, List.flatMap_cons]
  have hx := isSound_of_mem_pieces (sourceText texts) x (by simp [hpieces])
  have hblank : ∀ s, x ≠ .blank s := by
    rintro s rfl
    exact absurd hcause (by simp [Piece.fault?])
  have hline : lineAt (sourceText texts) (utf8Length (earlier.flatMap Piece.text))
      = 1 + (earlier.flatMap Piece.text).count '\n' := by
    rw [lineAt, hs, charsBefore_append]
  rw [hline]
  rw [← List.append_assoc] at hs
  exact standsIn_of_isSound hx hblank hs hkept

/-- **What was typed is its own normal form, line by line.** -/
theorem dialogue_idempotent {input : Input} {output after : Tape} {source : String} {p : Nat}
    (read : dialogue input output = (.ok source, after))
    (written : after.text = output.text ++ prompts p) :
    (∀ other : Tape, dialogue (encodeUtf8 source) other = dialogue input other) ∧
    ∃ typed texts rest, IsDivided input typed texts rest ∧
      source.toList = sourceText texts ∧ texts.length + 1 = p ∧
      source.toList.count '\n' + 1 = p ∧
      (∀ text ∈ texts, text ≠ [] ∧ '\n' ∉ text ∧ text.getLast? ≠ some '\r') ∧
      (∃ earlier stop, (scan source).tokens = earlier ++ [⟨.eof, "", .absent, p, ⟨stop, stop⟩⟩]) ∧
      (∀ t ∈ (scan source).tokens, t.kind ≠ .eof →
        StandsIn texts t.line t.span.start ∧ 1 ≤ t.line ∧ t.line ≤ p - 1) ∧
      ∀ d ∈ (scan source).errors, ∃ offset cause, FaultAt source.toList offset cause ∧
        d = ⟨lineAt source.toList offset, "", cause.message⟩ ∧
        StandsIn texts d.line offset ∧ 1 ≤ d.line ∧ d.line ≤ p - 1 := by
  obtain ⟨typed, texts, rest, h⟩ := exists_isDivided input
  have hlength : typed.length = texts.length := h.kept.length_eq
  have hkept := h.isKeptText
  rw [dialogue_eq h] at read
  obtain ⟨hresult, hwritten⟩ := takes_of_afterPrompts_eq_ok _ read
  obtain rfl := eq_sourceText_of_resultOf hresult
  have hp : texts.length + 1 = p := by
    have hprompts := congrArg String.length (hwritten.symm.trans written)
    rw [String.length_append, String.length_append, length_prompts, length_prompts] at hprompts
    omega
  have hcount := count_lineFeed_sourceText hkept
  have hbounds : ∀ {i offset : Nat}, StandsIn texts i offset →
      StandsIn texts i offset ∧ 1 ≤ i ∧ i ≤ p - 1 := by
    intro i offset hstands
    have hbounds := hstands.bounds
    exact ⟨hstands, hbounds.1, by omega⟩
  refine ⟨fun other => ?_, typed, texts, rest, h, String.toList_ofList, hp, ?_, ?_, ?_, ?_, ?_⟩
  · have hagain := dialogue_eq (isDivided_encode_sourceText hkept) other
    rw [hagain, dialogue_eq h, List.length_map, hlength, hresult]
    rfl
  · rw [String.toList_ofList, hcount, hp]
  · intro text htext
    have hspec := hkept text htext
    refine ⟨hspec.nonempty, hspec.oneLine, fun hlast => ?_⟩
    exact absurd (hspec.stripped _ hlast) (by decide)
  · refine ⟨(scanFrom .start (sourceText texts)).events.filterMap Event.token?,
      utf8Length (sourceText texts), ?_⟩
    rw [scan, String.toList_ofList, ← hp, ← hcount, Nat.add_comm, ← eofAt_advance_start]
    rfl
  · intro t ht heof
    rw [scan, String.toList_ofList] at ht
    exact hbounds (standsIn_of_mem_tokens hkept ht heof)
  · intro d hd
    rw [scan, String.toList_ofList, errors_eq_map_faultsOf] at hd
    obtain ⟨⟨offset, cause⟩, hfault, rfl⟩ := List.mem_map.1 hd
    rw [String.toList_ofList]
    exact ⟨offset, cause, mem_faultsOf_iff_faultAt.1 hfault, rfl,
      hbounds (standsIn_of_mem_faultsOf hkept hfault)⟩

/-- A string over two lines with carriage returns in them, a character that is not expected, and a
line of a carriage return alone that ends the source. -/
theorem dialogue_idempotent_on_carriage_returns :
    (dialogue (encodeUtf8 "a = \"\rb\r\r\nc\"@\r\n\r\nd") .endless).1 = .ok "a = \"\rb\nc\"@\n" ∧
    (dialogue (encodeUtf8 "a = \"\rb\r\r\nc\"@\r\n\r\nd") .endless).2.text
      = Tape.endless.text ++ prompts 3 ∧
    ∀ other, dialogue (encodeUtf8 "a = \"\rb\nc\"@\n") other
      = dialogue (encodeUtf8 "a = \"\rb\r\r\nc\"@\r\n\r\nd") other := by
  have read : (dialogue (encodeUtf8 "a = \"\rb\r\r\nc\"@\r\n\r\nd") .endless).1
      = .ok "a = \"\rb\nc\"@\n" := by decide +kernel
  have written : (dialogue (encodeUtf8 "a = \"\rb\r\r\nc\"@\r\n\r\nd") .endless).2.text
      = Tape.endless.text ++ prompts 3 := by decide +kernel
  exact ⟨read, written, (dialogue_idempotent (Prod.ext read rfl) written).1⟩

end Prompt

end Lox
