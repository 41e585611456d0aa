import Lox.Proofs.Prompt.Lines
import Mathlib.Data.List.Forall2

/-!
# The dialogue at the prompt

An input falls into lines that are kept and the lines from the first one on that is not
(`IsDivided`), in exactly one way. A dialogue writes a prompt for each line that is kept and one
more, and only then it has a result, which depends on the first line that is not kept and on nothing
behind it (`dialogue_eq`). Until then the output can break it off after any prompt
(`dialogue_spec`). An input that fails is met only where no line is left to take
(`dialogue_eq_brokenInput_iff`).
-/

set_option autoImplicit false

namespace Lox

/-! ## Outputs -/

namespace Tape

/-- The next `n` texts are taken. -/
def Takes (t : Tape) (n : Nat) : Prop :=
  ∀ i < n, t.refusal (t.attempts + i) = none

/-- The next `n` texts are taken, and the one after them is refused. -/
def TakesOnly (t : Tape) (n : Nat) (reason : String) : Prop :=
  t.Takes n ∧ t.refusal (t.attempts + n) = some reason

variable {t : Tape} {n : Nat} {reason : String}

theorem Takes.write (h : t.Takes (n + 1)) (text : String) :
    ∃ t', t.write text = (none, t') ∧ t'.Takes n ∧ t'.text = t.text ++ text := by
  have hfirst : t.refusal t.attempts = none := h 0 (Nat.succ_pos n)
  refine ⟨⟨t.text ++ text, t.attempts + 1, t.refusal⟩, ?_, fun i hi => ?_, rfl⟩
  · rw [Tape.write, hfirst]
  · have hlater := h (i + 1) (Nat.succ_lt_succ hi)
    rw [← Nat.add_assoc, Nat.add_right_comm] at hlater
    exact hlater

theorem TakesOnly.write_succ (h : t.TakesOnly (n + 1) reason) (text : String) :
    ∃ t', t.write text = (none, t') ∧ t'.TakesOnly n reason ∧ t'.text = t.text ++ text := by
  obtain ⟨t', hwrite, htakes, htext⟩ := h.1.write text
  refine ⟨t', hwrite, ⟨htakes, ?_⟩, htext⟩
  have hfirst : t.refusal t.attempts = none := h.1 0 (Nat.succ_pos n)
  rw [Tape.write, hfirst] at hwrite
  obtain ⟨-, rfl⟩ := Prod.mk.inj hwrite
  have hrefused := h.2
  rw [← Nat.add_assoc, Nat.add_right_comm] at hrefused
  exact hrefused

theorem TakesOnly.write_zero (h : t.TakesOnly 0 reason) (text : String) :
    ∃ t', t.write text = (some reason, t') ∧ t'.text = t.text := by
  have hrefused : t.refusal t.attempts = some reason := h.2
  refine ⟨⟨t.text, t.attempts + 1, t.refusal⟩, ?_, rfl⟩
  rw [Tape.write, hrefused]

/-- Among so many texts there is a first one that is refused, or none is. -/
theorem takes_or_takesOnly (t : Tape) (n : Nat) :
    t.Takes n ∨ ∃ m < n, ∃ reason, t.TakesOnly m reason := by
  induction n with
  | zero => exact .inl fun i hi => absurd hi (Nat.not_lt_zero i)
  | succ n ih =>
    rcases ih with htakes | ⟨m, hm, reason, hrefused⟩
    · cases hlast : t.refusal (t.attempts + n) with
      | none =>
        refine .inl fun i hi => ?_
        rcases Nat.lt_succ_iff_lt_or_eq.1 hi with hi | rfl
        · exact htakes i hi
        · exact hlast
      | some reason => exact .inr ⟨n, Nat.lt_succ_self n, reason, htakes, hlast⟩
    · exact .inr ⟨m, Nat.lt_succ_of_lt hm, reason, hrefused⟩

end Tape

namespace Prompt

/-! ## Prompts -/

/-- So many prompts, one after the other. -/
def prompts (n : Nat) : String :=
  String.join (List.replicate n text)

theorem prompts_zero : prompts 0 = "" := rfl

theorem prompts_succ (n : Nat) : prompts (n + 1) = text ++ prompts n := by
  rw [prompts, List.replicate_succ, String.join_cons]
  rfl

theorem length_prompts (n : Nat) : (prompts n).length = 2 * n := by
  induction n with
  | zero => rfl
  | succ n ih =>
    have htext : text.length = 2 := by decide
    rw [prompts_succ, String.length_append, ih, htext]
    omega

/-- A dialogue of so many prompts has its result if the output takes them all, and else it ends with
the first one that is refused. -/
def afterPrompts (result : Except Fault String) : Nat → Tape → Except Fault String × Tape
  | 0, output => (result, output)
  | n + 1, output =>
    match output.write text with
    | (some reason, output) => (.error (.brokenOutput reason), output)
    | (none, output) => afterPrompts result n output

section

variable {output : Tape} {m n : Nat} {reason : String} (result : Except Fault String)

theorem afterPrompts_of_takes (h : output.Takes n) :
    (afterPrompts result n output).1 = result ∧
      (afterPrompts result n output).2.text = output.text ++ prompts n := by
  induction n generalizing output with
  | zero => exact ⟨rfl, String.append_empty.symm⟩
  | succ n ih =>
    obtain ⟨output', hwrite, htakes, htext⟩ := h.write text
    obtain ⟨hresult, hprompts⟩ := ih htakes
    rw [afterPrompts, hwrite]
    refine ⟨hresult, ?_⟩
    rw [hprompts, htext, prompts_succ, String.append_assoc]

theorem afterPrompts_of_takesOnly (h : output.TakesOnly m reason) (hm : m < n) :
    (afterPrompts result n output).1 = .error (.brokenOutput reason) ∧
      (afterPrompts result n output).2.text = output.text ++ prompts m := by
  induction n generalizing output m with
  | zero => exact absurd hm (Nat.not_lt_zero m)
  | succ n ih =>
    rw [afterPrompts]
    cases m with
    | zero =>
      obtain ⟨output', hwrite, htext⟩ := h.write_zero text
      rw [hwrite]
      refine ⟨rfl, ?_⟩
      rw [prompts_zero, String.append_empty]
      exact htext
    | succ m =>
      obtain ⟨output', hwrite, hrefused, htext⟩ := h.write_succ text
      obtain ⟨hresult, hprompts⟩ := ih hrefused (Nat.lt_of_succ_lt_succ hm)
      rw [hwrite]
      refine ⟨hresult, ?_⟩
      rw [hprompts, htext, prompts_succ, String.append_assoc]

/-- A dialogue that succeeds has written all its prompts. -/
theorem takes_of_afterPrompts_eq_ok {after : Tape} {source : String}
    (h : afterPrompts result n output = (.ok source, after)) :
    result = .ok source ∧ after.text = output.text ++ prompts n := by
  rcases output.takes_or_takesOnly n with htakes | ⟨m, hm, reason, hrefused⟩
  · obtain ⟨hresult, hprompts⟩ := afterPrompts_of_takes result htakes
    rw [h] at hresult hprompts
    exact ⟨hresult.symm, hprompts⟩
  · obtain ⟨herror, -⟩ := afterPrompts_of_takesOnly result hrefused hm
    rw [h] at herror
    contradiction

end

/-! ## Lines that are kept -/

/-- The source that kept texts make up, each on a line of its own. -/
def sourceText (texts : List (List Char)) : List Char :=
  texts.flatMap fun text => text ++ ['\n']

/-- What can be read of an input consists of lines that are kept, with what is left of each, and of
the lines from the first one on that is not. -/
structure IsDivided (input : Input) (typed : List (List UInt8)) (texts : List (List Char))
    (rest : List (List UInt8)) : Prop where
  isLines : IsLines input.readable (typed ++ rest)
  kept : List.Forall₂ (fun line text => Means line (.keep text)) typed texts
  ended : ∀ line ∈ rest.head?, ∀ text, ¬ Means line (.keep text)

theorem Means.unique {line : List UInt8} {reply reply' : Reply} (h : Means line reply)
    (h' : Means line reply') : reply = reply' :=
  (ofLine_eq_iff.2 h).symm.trans (ofLine_eq_iff.2 h')

theorem exists_kept (ls : List (List UInt8)) :
    ∃ typed texts rest, ls = typed ++ rest ∧
      List.Forall₂ (fun line text => Means line (.keep text)) typed texts ∧
      ∀ line ∈ rest.head?, ∀ text, ¬ Means line (.keep text) := by
  induction ls with
  | nil => exact ⟨[], [], [], rfl, .nil, by simp⟩
  | cons line ls ih =>
    by_cases hline : ∃ text, Means line (.keep text)
    · obtain ⟨text, htext⟩ := hline
      obtain ⟨typed, texts, rest, rfl, hkept, hended⟩ := ih
      exact ⟨line :: typed, text :: texts, rest, rfl, .cons htext hkept, hended⟩
    · refine ⟨[], [], line :: ls, rfl, .nil, fun line' hline' text htext => ?_⟩
      obtain rfl := Option.some.inj hline'
      exact hline ⟨text, htext⟩

theorem exists_isDivided (input : Input) :
    ∃ typed texts rest, IsDivided input typed texts rest := by
  obtain ⟨typed, texts, rest, hlines, hkept, hended⟩ := exists_kept (lines input.readable)
  exact ⟨typed, texts, rest, isLines_iff.2 hlines.symm, hkept, hended⟩

theorem IsDivided.unique {input : Input} {typed typed' rest rest' : List (List UInt8)}
    {texts texts' : List (List Char)} (h : IsDivided input typed texts rest)
    (h' : IsDivided input typed' texts' rest') :
    typed' = typed ∧ texts' = texts ∧ rest' = rest := by
  have hlines : typed ++ rest = typed' ++ rest' :=
    (isLines_iff.1 h.isLines).trans (isLines_iff.1 h'.isLines).symm
  obtain ⟨-, hkept, hended⟩ := h
  obtain ⟨-, hkept', hended'⟩ := h'
  -- along the lines: both keep a line, or neither does
  induction hkept generalizing typed' texts' with
  | nil =>
    cases hkept' with
    | nil => exact ⟨rfl, rfl, hlines.symm⟩
    | cons hline _ => exact absurd hline (hended _ (by rw [← List.nil_append rest, hlines]; rfl) _)
  | cons hline hlater ih =>
    cases hkept' with
    | nil => exact absurd hline (hended' _ (by rw [← List.nil_append rest', ← hlines]; rfl) _)
    | cons hline' hlater' =>
      obtain ⟨rfl, htail⟩ := List.cons.inj hlines
      obtain ⟨rfl, rfl, rfl⟩ := ih htail hlater'
      obtain rfl := Reply.keep.inj (hline'.unique hline)
      exact ⟨rfl, rfl, rfl⟩

/-! ## The dialogue -/

/-- The result of a dialogue that keeps these texts and meets this line behind them, or else the end
of what can be read. -/
def resultOf (failure : Option String) (texts : List (List Char)) :
    Option (List UInt8) → Except Fault String
  | none =>
    match failure with
    | none => .ok (String.ofList (sourceText texts))
    | some reason => .error (.brokenInput reason)
  | some line =>
    match Reply.ofLine line with
    | .malformed => .error .notUtf8
    | _ => .ok (String.ofList (sourceText texts))

section

variable {failure : Option String}

/-- At a line that is not kept one more prompt is written, and nothing more is taken. -/
theorem converse_of_ended {rest : List (List UInt8)}
    (ended : ∀ line ∈ rest.head?, ∀ text, ¬ Means line (.keep text)) (output : Tape)
    (kept : List (List Char)) :
    converse failure output kept rest
      = afterPrompts (resultOf failure kept.reverse rest.head?) 1 output := by
  unfold converse afterPrompts
  rcases output.write text with ⟨_ | reason, output'⟩
  · cases rest with
    | nil => cases failure <;> rfl
    | cons line later =>
      cases hreply : Reply.ofLine line with
      | keep text => exact absurd (ofLine_eq_iff.1 hreply) (ended line rfl text)
      | stop => simp only [hreply, resultOf, List.head?_cons]; rfl
      | malformed => simp only [hreply, resultOf, List.head?_cons]; rfl
  · rfl

theorem converse_append {typed rest : List (List UInt8)} {texts : List (List Char)}
    (hkept : List.Forall₂ (fun line text => Means line (.keep text)) typed texts)
    (ended : ∀ line ∈ rest.head?, ∀ text, ¬ Means line (.keep text)) (output : Tape)
    (kept : List (List Char)) :
    converse failure output kept (typed ++ rest)
      = afterPrompts (resultOf failure (kept.reverse ++ texts) rest.head?) (typed.length + 1)
          output := by
  induction hkept generalizing output kept with
  | nil =>
    rw [List.nil_append, List.append_nil]
    exact converse_of_ended ended output kept
  | @cons line text typed texts hline _ ih =>
    have hreply : Reply.ofLine line = .keep text := ofLine_eq_iff.2 hline
    have hkept : (text :: kept).reverse ++ texts = kept.reverse ++ text :: texts := by simp
    rw [List.cons_append, converse, List.length_cons, afterPrompts, ← hkept]
    -- both sides write the same prompt, and go on if it is taken
    rcases output.write Prompt.text with ⟨_ | reason, output'⟩
    · simp only [hreply]
      exact ih output' (text :: kept)
    · rfl

end

/-- A dialogue writes a prompt for each line that is kept and one more, and then has a result that
the first line behind these settles. -/
theorem dialogue_eq {input : Input} {typed rest : List (List UInt8)}
    {texts : List (List Char)} (h : IsDivided input typed texts rest) (output : Tape) :
    dialogue input output
      = afterPrompts (resultOf input.failure texts rest.head?) (typed.length + 1) output := by
  rw [dialogue, ← isLines_iff.1 h.isLines, converse_append h.kept h.ended]
  rfl

section

variable {failure : Option String} {texts : List (List Char)}

theorem resultOf_of_malformed {line : List UInt8} (h : ∀ text, encodeUtf8 text ≠ line) :
    resultOf failure texts (some line) = .error .notUtf8 := by
  rw [resultOf, ofLine_eq_iff.2 (.malformed h)]

theorem resultOf_of_stop {line : List UInt8} (h : Means line .stop) :
    resultOf failure texts (some line) = .ok (String.ofList (sourceText texts)) := by
  rw [resultOf, ofLine_eq_iff.2 h]

theorem resultOf_of_text {next : Option (List UInt8)}
    (h : ∀ line ∈ next, ∃ text, encodeUtf8 text = line) :
    resultOf none texts next = .ok (String.ofList (sourceText texts)) := by
  cases next with
  | none => rfl
  | some line =>
    rw [resultOf]
    split
    next hreply =>
      obtain ⟨text, htext⟩ := h line rfl
      cases ofLine_eq_iff.1 hreply with
      | malformed noText => exact absurd htext (noText text)
    next => rfl

/-- A dialogue only succeeds with what was kept. -/
theorem eq_sourceText_of_resultOf {next : Option (List UInt8)} {source : String}
    (h : resultOf failure texts next = .ok source) : source = String.ofList (sourceText texts) := by
  unfold resultOf at h
  split at h <;> split at h <;> cases h <;> rfl

theorem resultOf_eq_brokenInput_iff {next : Option (List UInt8)} {reason : String} :
    resultOf failure texts next = .error (.brokenInput reason) ↔
      next = none ∧ failure = some reason := by
  constructor
  · intro h
    unfold resultOf at h
    split at h <;> split at h <;> cases h
    exact ⟨rfl, rfl⟩
  · rintro ⟨rfl, rfl⟩
    rfl

end

/-- A line of nothing but carriage returns, with or without a line feed, is empty. -/
theorem means_stop {line : List UInt8} (h : ∀ b ∈ line, b = 13 ∨ b = 10) : Means line .stop := by
  have hline : line = encodeUtf8 (String.ofList (line.map fun b => Char.ofNat b.toNat)) := by
    rw [encodeUtf8_eq_flatMap, String.toList_ofList, List.flatMap_map]
    induction line with
    | nil => rfl
    | cons b line ih =>
      obtain ⟨hb, hlater⟩ := List.forall_mem_cons.1 h
      rw [List.flatMap_cons, ← ih hlater]
      rcases hb with rfl | rfl <;> rfl
  rw [hline]
  refine .stop fun c hc => ?_
  obtain ⟨b, hb, rfl⟩ := List.mem_map.1 hc
  rcases h b hb with rfl | rfl <;> rfl

/-- Lines behind the first one that is not kept make no difference, nor does an input that fails
behind it. -/
theorem dialogue_congr_rest {input input' : Input} {typed later later' : List (List UInt8)}
    {texts : List (List Char)} {line : List UInt8}
    (h : IsDivided input typed texts (line :: later))
    (h' : IsLines input'.readable (typed ++ line :: later')) :
    dialogue input' = dialogue input := by
  have hdivided : IsDivided input' typed texts (line :: later') := ⟨h', h.kept, h.ended⟩
  funext output
  rw [dialogue_eq h, dialogue_eq hdivided]
  rfl

/-- **When an input is said to fail.** It has to fail where the dialogue has kept all that can be
read, and the output has to take the prompt for the line that is missing. -/
theorem dialogue_eq_brokenInput_iff {input : Input} {output : Tape} {reason : String} :
    (dialogue input output).1 = .error (.brokenInput reason) ↔
      input.failure = some reason ∧
        ∃ typed texts, IsDivided input typed texts [] ∧ output.Takes (typed.length + 1) := by
  constructor
  · intro herror
    obtain ⟨typed, texts, rest, h⟩ := exists_isDivided input
    rw [dialogue_eq h] at herror
    rcases output.takes_or_takesOnly (typed.length + 1) with htakes | ⟨n, hn, reason', hrefused⟩
    · rw [(afterPrompts_of_takes _ htakes).1, resultOf_eq_brokenInput_iff] at herror
      obtain ⟨hend, hfailure⟩ := herror
      obtain rfl := List.head?_eq_none_iff.1 hend
      exact ⟨hfailure, typed, texts, h, htakes⟩
    · rw [(afterPrompts_of_takesOnly _ hrefused hn).1] at herror
      cases herror
  · rintro ⟨hfailure, typed, texts, h, htakes⟩
    rw [dialogue_eq h, (afterPrompts_of_takes _ htakes).1, resultOf_eq_brokenInput_iff]
    exact ⟨rfl, hfailure⟩

/-- A line that is begun when reading fails is lost, and with it all that was kept. -/
example : (dialogue ⟨encodeUtf8 "a\nb", some "gone"⟩ .endless).1
    = .error (.brokenInput "gone") := by decide +kernel

/-- **What is typed settles the source, and the output what comes of it.** Let some lines be kept,
up to the first that is not text or of which nothing is left. If the output does not take a prompt
for each of them and one more, its reason is the error, behind the prompts that it took. Else so
many prompts are written; the next line is an error if it is no text, and if it is empty or missing
the source is made of what is left of the lines before it. Nothing behind that line is looked at,
and carriage returns alone do not make a line less empty. -/
theorem dialogue_spec (input : List UInt8) :
    ∃ typed texts rest,
      (∀ typed' texts' rest', IsDivided input typed' texts' rest' ↔
        typed' = typed ∧ texts' = texts ∧ rest' = rest) ∧
      (∀ (output : Tape) (n : Nat) (reason : String), n < typed.length + 1 →
        output.TakesOnly n reason →
          (dialogue input output).1 = .error (.brokenOutput reason) ∧
          (dialogue input output).2.text = output.text ++ prompts n) ∧
      (∀ output : Tape, output.Takes (typed.length + 1) →
        (dialogue input output).2.text = output.text ++ prompts (typed.length + 1) ∧
        (∀ line, rest.head? = some line → (∀ text, encodeUtf8 text ≠ line) →
          (dialogue input output).1 = .error .notUtf8) ∧
        ((∀ line, rest.head? = some line → ∃ text, encodeUtf8 text = line) →
          (dialogue input output).1 = .ok (String.ofList (sourceText texts)))) ∧
      (∀ input' line later later', rest = line :: later →
        IsLines input' (typed ++ line :: later') → dialogue input' = dialogue input) ∧
      ∀ input' line later, IsLines input' (typed ++ line :: later) →
        (∀ b ∈ line, b = 13 ∨ b = 10) → ∀ output : Tape, output.Takes (typed.length + 1) →
          (dialogue input' output).1 = .ok (String.ofList (sourceText texts)) ∧
          (dialogue input' output).2.text = output.text ++ prompts (typed.length + 1) := by
  obtain ⟨typed, texts, rest, h⟩ := exists_isDivided input
  refine ⟨typed, texts, rest, fun typed' texts' rest' => ⟨h.unique, ?_⟩, ?_, ?_, ?_, ?_⟩
  · rintro ⟨rfl, rfl, rfl⟩
    exact h
  · intro output n reason hn hrefused
    rw [dialogue_eq h]
    exact afterPrompts_of_takesOnly _ hrefused hn
  · intro output htakes
    obtain ⟨hresult, hprompts⟩ := afterPrompts_of_takes (resultOf none texts rest.head?) htakes
    rw [dialogue_eq h]
    refine ⟨hprompts, fun line hline hmalformed => ?_, fun htext => ?_⟩
    · rw [hresult, hline, resultOf_of_malformed hmalformed]
    · rw [hresult, resultOf_of_text htext]
  · rintro input' line later later' rfl hlines
    exact dialogue_congr_rest h hlines
  · intro input' line later hlines hempty output htakes
    have hstop := means_stop hempty
    have hdivided : IsDivided input' typed texts (line :: later) := by
      refine ⟨hlines, h.kept, fun line' hline' text hkeep => ?_⟩
      obtain rfl := Option.some.inj hline'
      exact absurd (hkeep.unique hstop) (by simp)
    obtain ⟨hresult, hprompts⟩ := afterPrompts_of_takes (resultOf none texts (some line)) htakes
    rw [dialogue_eq hdivided, List.head?_cons]
    exact ⟨hresult.trans (resultOf_of_stop hstop), hprompts⟩

/-- A second line is kept as well, but the output takes no third prompt. -/
example : (dialogue (encodeUtf8 "a\r\nb") (.limited 2 "full")).1
    = .error (.brokenOutput "full") := by decide +kernel

end Prompt

end Lox
