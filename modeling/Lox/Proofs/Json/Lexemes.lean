import Lox.Listing
import Mathlib.Data.List.Forall2

/-!
# Lexemes of a JSON text

A JSON text is read as a list of lexemes: marks, texts in quotes, and words, which are numerals and
names as they are written. Blanks between lexemes mean nothing. The reader is a machine with one
step for each character (`Reading.step`).

A text *spells* lexemes if it is read as them whatever stands behind it, as long as its last word
is not continued (`Spells`). Texts in quotes spell themselves, however many of their characters are
escaped (`spells_quoted`), and what layouts put around items spells marks only (`spells_array`,
`spells_object`).
-/

set_option autoImplicit false

namespace Lox

namespace Json

/-! ## Reading lexemes -/

/-- A part of a JSON text. -/
inductive Lexeme where
  /-- A bracket, a brace, a comma or a colon. -/
  | mark (c : Char)
  /-- A text in quotes, without its quotes and with the characters that its escapes mean. -/
  | text (s : String)
  /-- A numeral or a name, as it is written. -/
  | word (w : List Char)
  /-- A text in quotes that does not end, or an escape in it that means nothing. -/
  | broken
  deriving DecidableEq, Repr

def isBlank (c : Char) : Bool :=
  c ∈ [' ', '\t', '\n', '\r']

def isMark (c : Char) : Bool :=
  c ∈ ['[', ']', '\x7b', '\x7d', ',', ':']

/-- Whether a character belongs to a word when it stands outside of quotes. -/
def isWordPart (c : Char) : Bool :=
  !isBlank c && !isMark c && c ≠ '"'

/-- The character that an escape of one letter means. -/
def unescape? : Char → Option Char
  | '"' => some '"'
  | '\\' => some '\\'
  | '/' => some '/'
  | 'b' => some '\x08'
  | 't' => some '\t'
  | 'n' => some '\n'
  | 'f' => some '\x0c'
  | 'r' => some '\r'
  | _ => none

/-- The value of a hexadecimal digit, in either case. -/
def hexDigit? (c : Char) : Option Nat :=
  (List.range 16).find? fun n => Nat.digitChar n = c.toLower

/-- Where a reader stands, and what it has read of the lexeme that it stands in. -/
inductive Reading where
  | between
  | word (w : List Char)
  | text (s : List Char)
  /-- Behind a backslash in a text. -/
  | escape (s : List Char)
  /-- Behind so many digits of an escape by number in a text, and their value. -/
  | number (s : List Char) (digits value : Nat)

namespace Reading

/-- What a character that belongs to no word before it ends and begins. -/
def start (c : Char) : List Lexeme × Reading :=
  if isBlank c then ([], between)
  else if isMark c then ([.mark c], between)
  else if c = '"' then ([], text [])
  else ([], word [c])

/-- The lexemes that a character ends, and where the reader stands behind it. -/
def step : Reading → Char → List Lexeme × Reading
  | between, c => start c
  | word w, c =>
    if isWordPart c then ([], word (w ++ [c])) else (.word w :: (start c).1, (start c).2)
  | text s, c =>
    if c = '"' then ([.text (String.ofList s)], between)
    else if c = '\\' then ([], escape s)
    else ([], text (s ++ [c]))
  | escape s, c =>
    match unescape? c with
    | some d => ([], text (s ++ [d]))
    | none => if c = 'u' then ([], number s 0 0) else ([.broken], text s)
  | number s digits value, c =>
    match hexDigit? c with
    | none => ([.broken], text s)
    | some d =>
      if digits < 3 then ([], number s (digits + 1) (16 * value + d))
      else if (16 * value + d).isValidChar then ([], text (s ++ [Char.ofNat (16 * value + d)]))
      else ([.broken], text s)

/-- The lexemes that the end of the text ends. -/
def stop : Reading → List Lexeme
  | between => []
  | word w => [.word w]
  | text _ | escape _ | number .. => [.broken]

end Reading

/-- The lexemes that are still to come for a reader that stands before a text. -/
def lexemesFrom : Reading → List Char → List Lexeme
  | r, [] => r.stop
  | r, c :: s => (r.step c).1 ++ lexemesFrom (r.step c).2 s

/-- The lexemes of a text. -/
def lexemes (s : List Char) : List Lexeme :=
  lexemesFrom .between s

/-- A character that ends no lexeme only moves the reader. -/
theorem lexemesFrom_of_step {r q : Reading} {c : Char} (h : r.step c = ([], q)) (s : List Char) :
    lexemesFrom r (c :: s) = lexemesFrom q s := by
  rw [lexemesFrom, h]
  rfl

/-! ## Blanks, marks and words -/

theorem lexemes_mark {c : Char} (h : isMark c = true) (s : List Char) :
    lexemes (c :: s) = .mark c :: lexemes s := by
  simp only [isMark, decide_eq_true_eq, List.mem_cons, List.not_mem_nil, or_false] at h
  rcases h with rfl | rfl | rfl | rfl | rfl | rfl <;> rfl

theorem lexemes_blanks {blanks : List Char} (h : ∀ c ∈ blanks, isBlank c = true) (s : List Char) :
    lexemes (blanks ++ s) = lexemes s := by
  induction blanks with
  | nil => rfl
  | cons c blanks ih =>
    obtain ⟨hc, hblanks⟩ := List.forall_mem_cons.1 h
    simp only [List.cons_append, lexemes, lexemesFrom, Reading.step, Reading.start, hc]
    exact ih hblanks

/-- No word goes on at the beginning of a text. -/
def EndsWord (s : List Char) : Prop :=
  ∀ c ∈ s.head?, isWordPart c = false

theorem endsWord_mark {c : Char} (h : isMark c = true) (s : List Char) : EndsWord (c :: s) := by
  simp [EndsWord, isWordPart, h]

theorem endsWord_blanks {blanks : List Char} (h : ∀ c ∈ blanks, isBlank c = true) {s : List Char}
    (hs : EndsWord s) : EndsWord (blanks ++ s) := by
  cases blanks with
  | nil => exact hs
  | cons c blanks => simp [EndsWord, isWordPart, (List.forall_mem_cons.1 h).1]

theorem lexemesFrom_word_append (w : List Char) {v : List Char}
    (h : ∀ c ∈ v, isWordPart c = true) (s : List Char) :
    lexemesFrom (.word w) (v ++ s) = lexemesFrom (.word (w ++ v)) s := by
  induction v generalizing w with
  | nil => rw [List.append_nil, List.nil_append]
  | cons c v ih =>
    obtain ⟨hc, hv⟩ := List.forall_mem_cons.1 h
    have hstep : (Reading.word w).step c = ([], .word (w ++ [c])) := if_pos hc
    rw [List.cons_append, lexemesFrom_of_step hstep, ih _ hv, List.append_assoc,
      List.singleton_append]

theorem lexemesFrom_word_of_endsWord (w : List Char) {s : List Char} (h : EndsWord s) :
    lexemesFrom (.word w) s = .word w :: lexemes s := by
  cases s with
  | nil => rfl
  | cons c s =>
    have hc : isWordPart c = false := h c rfl
    simp [lexemes, lexemesFrom, Reading.step, hc]

/-! ## Texts in quotes -/

/-- A character is escaped by a letter, by its number, or not at all. -/
theorem escape_cases (c : Char) :
    (∃ letter, escape c = ['\\', letter] ∧ unescape? letter = some c) ∨
      (c.toNat < 32 ∧ escape c
        = ['\\', 'u', '0', '0', Nat.digitChar (c.toNat / 16), Nat.digitChar (c.toNat % 16)]) ∨
      (c ≠ '"' ∧ c ≠ '\\' ∧ escape c = [c]) := by
  unfold escape
  by_cases hquote : c = '"'
  · subst hquote
    exact .inl ⟨_, rfl, rfl⟩
  by_cases hbackslash : c = '\\'
  · subst hbackslash
    exact .inl ⟨_, rfl, rfl⟩
  by_cases hb : c = '\x08'
  · subst hb
    exact .inl ⟨_, rfl, rfl⟩
  by_cases ht : c = '\t'
  · subst ht
    exact .inl ⟨_, rfl, rfl⟩
  by_cases hn : c = '\n'
  · subst hn
    exact .inl ⟨_, rfl, rfl⟩
  by_cases hf : c = '\x0c'
  · subst hf
    exact .inl ⟨_, rfl, rfl⟩
  by_cases hr : c = '\r'
  · subst hr
    exact .inl ⟨_, rfl, rfl⟩
  rw [if_neg hquote, if_neg hbackslash, if_neg hb, if_neg ht, if_neg hn, if_neg hf, if_neg hr]
  by_cases hcontrol : c.toNat < 32
  · rw [if_pos hcontrol]
    exact .inr (.inl ⟨hcontrol, rfl⟩)
  · rw [if_neg hcontrol]
    exact .inr (.inr ⟨hquote, hbackslash, rfl⟩)

theorem hexDigit?_digitChar : ∀ n < 16, hexDigit? (Nat.digitChar n) = some n := by
  decide

namespace Reading

variable {s : List Char} {digits value d : Nat} {c : Char}

theorem step_number (hc : hexDigit? c = some d) (h : digits < 3) :
    (number s digits value).step c = ([], number s (digits + 1) (16 * value + d)) := by
  simp only [step, hc, if_pos h]

theorem step_number_last (hc : hexDigit? c = some d) (h : (16 * value + d).isValidChar) :
    (number s 3 value).step c = ([], text (s ++ [Char.ofNat (16 * value + d)])) := by
  simp only [step, hc, Nat.lt_irrefl, if_false, if_pos h]

end Reading

/-- A character that is escaped by its number is read as the character. -/
theorem lexemesFrom_escape_number (before : List Char) {c : Char} (h : c.toNat < 32)
    (s : List Char) :
    lexemesFrom (.text before) ('\\' :: 'u' :: '0' :: '0' :: Nat.digitChar (c.toNat / 16)
        :: Nat.digitChar (c.toNat % 16) :: s)
      = lexemesFrom (.text (before ++ [c])) s := by
  have hbackslash : (Reading.text before).step '\\' = ([], .escape before) := rfl
  have hletter : (Reading.escape before).step 'u' = ([], .number before 0 0) := rfl
  have hzero : hexDigit? '0' = some 0 := by decide
  have hhigh := hexDigit?_digitChar (c.toNat / 16) (by omega)
  have hlow := hexDigit?_digitChar (c.toNat % 16) (by omega)
  have hvalue : 16 * (16 * (16 * (16 * 0 + 0) + 0) + c.toNat / 16) + c.toNat % 16 = c.toNat := by
    omega
  have hvalid : Nat.isValidChar
      (16 * (16 * (16 * (16 * 0 + 0) + 0) + c.toNat / 16) + c.toNat % 16) := by
    rw [hvalue]
    exact c.valid
  rw [lexemesFrom_of_step hbackslash, lexemesFrom_of_step hletter,
    lexemesFrom_of_step (Reading.step_number hzero (by decide)),
    lexemesFrom_of_step (Reading.step_number hzero (by decide)),
    lexemesFrom_of_step (Reading.step_number hhigh (by decide)),
    lexemesFrom_of_step (Reading.step_number_last hlow hvalid), hvalue, Char.ofNat_toNat]

/-- A character between quotes is read as itself. -/
theorem lexemesFrom_escape (before : List Char) (c : Char) (s : List Char) :
    lexemesFrom (.text before) (escape c ++ s) = lexemesFrom (.text (before ++ [c])) s := by
  rcases escape_cases c with
    ⟨letter, hescape, hletter⟩ | ⟨hcontrol, hescape⟩ | ⟨hquote, hbackslash, hescape⟩
  · have hopen : (Reading.text before).step '\\' = ([], .escape before) := rfl
    have hstep : (Reading.escape before).step letter = ([], .text (before ++ [c])) := by
      simp only [Reading.step, hletter]
    rw [hescape]
    exact (lexemesFrom_of_step hopen _).trans (lexemesFrom_of_step hstep _)
  · rw [hescape]
    exact lexemesFrom_escape_number before hcontrol s
  · have hstep : (Reading.text before).step c = ([], .text (before ++ [c])) := by
      simp only [Reading.step, if_neg hquote, if_neg hbackslash]
    rw [hescape]
    exact lexemesFrom_of_step hstep s

theorem lexemesFrom_text (before text s : List Char) :
    lexemesFrom (.text before) (text.flatMap escape ++ '"' :: s)
      = .text (String.ofList (before ++ text)) :: lexemes s := by
  induction text generalizing before with
  | nil =>
    rw [List.append_nil]
    rfl
  | cons c text ih =>
    rw [List.flatMap_cons, List.append_assoc, lexemesFrom_escape, ih, List.append_assoc,
      List.singleton_append]

/-! ## Texts that spell lexemes -/

/-- A text is read as lexemes, whatever stands behind it that does not continue its last word. -/
def Spells (text : String) (ls : List Lexeme) : Prop :=
  ∀ s, EndsWord s → lexemes (text.toList ++ s) = ls ++ lexemes s

theorem spells_quoted (text : String) : Spells (quoted text) [.text text] := by
  intro s _
  have hquote : lexemes ('"' :: (text.toList.flatMap escape ++ '"' :: s))
      = lexemesFrom (.text []) (text.toList.flatMap escape ++ '"' :: s) := rfl
  have htext := lexemesFrom_text [] text.toList s
  simpa [quoted, hquote] using htext

theorem spells_word {w : List Char} (hne : w ≠ []) (hw : ∀ c ∈ w, isWordPart c = true) :
    Spells (String.ofList w) [.word w] := by
  intro s hs
  obtain ⟨c, w, rfl⟩ := List.exists_cons_of_ne_nil hne
  obtain ⟨hc, hw⟩ := List.forall_mem_cons.1 hw
  have hstart : Reading.start c = ([], .word [c]) := by
    simp_all [isWordPart, Reading.start]
  have hstep : Reading.between.step c = ([], .word [c]) := hstart
  rw [String.toList_ofList, List.cons_append, lexemes, lexemesFrom_of_step hstep,
    lexemesFrom_word_append _ hw, lexemesFrom_word_of_endsWord _ hs]
  rfl

/-! ## Layouts -/

/-- The lexemes of items between two brackets. -/
def enclosed (opening closing : Char) (items : List (List Lexeme)) : List Lexeme :=
  .mark opening :: [Lexeme.mark ','].intercalate items ++ [.mark closing]

/-- The lexemes of a member of an object. -/
def member (name : String) (value : List Lexeme) : List Lexeme :=
  .text name :: .mark ':' :: value

/-- The lexemes of an object with the given names and values of its members. -/
def object (members : List (String × List Lexeme)) : List Lexeme :=
  enclosed '\x7b' '\x7d' (members.map fun (name, value) => member name value)

end Json

/-- A layout that puts only blanks around items and behind colons. -/
structure JsonLayout.AddsBlanks (layout : JsonLayout) : Prop where
  lineStart : ∀ depth, ∀ c ∈ (layout.lineStart depth).toList, Json.isBlank c = true
  colon : ∃ blanks, layout.colon.toList = ':' :: blanks ∧ ∀ c ∈ blanks, Json.isBlank c = true

theorem JsonLayout.addsBlanks_pretty : JsonLayout.pretty.AddsBlanks where
  lineStart depth c hc := by
    simp only [pretty, String.toList_append, String.toList_ofList, List.mem_append] at hc
    rcases hc with hc | hc
    · obtain rfl := List.mem_singleton.1 hc
      rfl
    · rw [List.eq_of_mem_replicate hc]
      rfl
  colon := ⟨[' '], rfl, by simp [Json.isBlank]⟩

namespace Json

variable {layout : JsonLayout}

theorem spells_member (h : layout.AddsBlanks) {value : String} {ls : List Lexeme}
    (hvalue : Spells value ls) (name : String) :
    Spells (quoted name ++ layout.colon ++ value) (member name ls) := by
  intro s hs
  obtain ⟨blanks, hcolon, hblanks⟩ := h.colon
  simp only [String.toList_append, hcolon, List.append_assoc, List.cons_append]
  rw [spells_quoted name _ (endsWord_mark rfl _), lexemes_mark rfl, lexemes_blanks hblanks,
    hvalue s hs]
  rfl

/-- Items with a comma between them, and blanks before each, spell what they spell. -/
theorem lexemes_items (h : layout.AddsBlanks) (depth : Nat) {items : List String}
    {lss : List (List Lexeme)} (hitems : List.Forall₂ Spells items lss) {s : List Char}
    (hs : EndsWord s) :
    lexemes ((",".intercalate (items.map (layout.lineStart depth ++ ·))).toList ++ s)
      = [Lexeme.mark ','].intercalate lss ++ lexemes s := by
  have hcomma : ",".toList = [','] := rfl
  induction hitems with
  | nil => rfl
  | cons hitem hitems ih =>
    cases hitems with
    | nil =>
      simp only [List.map_cons, List.map_nil, String.intercalate_singleton, String.toList_append,
        List.append_assoc, List.intercalate_singleton]
      rw [lexemes_blanks (h.lineStart depth), hitem s hs]
    | cons hnext hitems =>
      -- the comma ends the last word of the item
      simp only [List.map_cons, String.intercalate_cons_cons, List.intercalate_cons_cons,
        String.toList_append, List.append_assoc, hcomma, List.cons_append, List.nil_append] at ih ⊢
      rw [lexemes_blanks (h.lineStart depth), hitem _ (endsWord_mark rfl _), lexemes_mark rfl, ih]

theorem spells_enclosed (h : layout.AddsBlanks) (depth : Nat) {opening closing : Char}
    (hopening : isMark opening = true) (hclosing : isMark closing = true) {items : List String}
    {lss : List (List Lexeme)} (hitems : List.Forall₂ Spells items lss) :
    Spells (layout.enclosed (String.ofList [opening]) (String.ofList [closing]) depth items)
      (enclosed opening closing lss) := by
  intro s _
  unfold JsonLayout.enclosed enclosed
  cases hitems with
  | nil =>
    simp only [List.isEmpty_nil, if_true, String.toList_append, String.toList_ofList,
      List.cons_append, List.nil_append]
    rw [lexemes_mark hopening, lexemes_mark hclosing]
    rfl
  | cons hitem hitems =>
    have hclose : EndsWord (closing :: s) := endsWord_mark hclosing s
    simp only [List.isEmpty_cons, Bool.false_eq_true, if_false, String.toList_append,
      String.toList_ofList, List.append_assoc, List.cons_append, List.nil_append]
    rw [lexemes_mark hopening, lexemes_items h _ (.cons hitem hitems)
        (endsWord_blanks (h.lineStart depth) hclose),
      lexemes_blanks (h.lineStart depth), lexemes_mark hclosing]

theorem spells_array (h : layout.AddsBlanks) (depth : Nat) {items : List String}
    {lss : List (List Lexeme)} (hitems : List.Forall₂ Spells items lss) :
    Spells (layout.array depth items) (enclosed '[' ']' lss) :=
  spells_enclosed h depth rfl rfl hitems

/-- An object spells its members, each of which has its own name. -/
theorem spells_object (h : layout.AddsBlanks) (depth : Nat) {members : List (String × String)}
    {values : List (String × List Lexeme)}
    (hmembers : List.Forall₂ (fun m v => m.1 = v.1 ∧ Spells m.2 v.2) members values) :
    Spells (layout.object depth members) (object values) := by
  refine spells_enclosed h depth rfl rfl ?_
  rw [List.forall₂_map_left_iff, List.forall₂_map_right_iff]
  refine hmembers.imp ?_
  rintro ⟨name, text⟩ ⟨_, value⟩ ⟨rfl, hvalue⟩
  exact spells_member h hvalue name

end Json

end Lox
