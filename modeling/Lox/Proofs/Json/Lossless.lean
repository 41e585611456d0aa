import Lox.Proofs.Json.Numeral
import Lox.Proofs.Places

/-!
# JSON loses nothing

The JSON of a list of tokens is read back: the lexemes of its text are those of the tokens
(`spells_token`), and a reader that expects the members in their order gives the tokens again
(`tokensOf?_listing`). Only a number that is not finite is lost, for which JSON has no numeral. A
scan gives such a number to no token whose kind and text would not tell it, so different tokens of
scans still have different texts (`listing_json_lossless`).
-/

set_option autoImplicit false

namespace Lox

open Json

/-! ## The lexemes of tokens -/

/-- The name of what is absent. -/
def Json.null : List Char := ['n', 'u', 'l', 'l']

def Json.numeral (n : Nat) : Lexeme :=
  .word (Nat.toDigits 10 n)

def Literal.jsonLexeme : Literal → Lexeme
  | absent => .word null
  | string s => .text s
  | number x => .word (if x.isFinite then Binary64.jsonStyle.finite x else null)

def Span.jsonLexemes (s : Span) : List Lexeme :=
  object [("start", [numeral s.start]), ("end", [numeral s.stop])]

def Token.jsonLexemes (t : Token) : List Lexeme :=
  object
    [("kind", [.text t.kind.name]),
      ("lexeme", [.text t.lexeme]),
      ("literal", [t.literal.jsonLexeme]),
      ("line", [numeral t.line]),
      ("span", t.span.jsonLexemes)]

namespace Json

theorem spells_null : Spells "null" [.word null] :=
  spells_word (List.cons_ne_nil _ _) (by simp [isWordPart, isBlank, isMark])

theorem spells_numeral (n : Nat) : Spells (toString n) [numeral n] := by
  rw [Nat.toString_eq_ofList_toDigits]
  exact spells_word Nat.toDigits_ne_nil (isWordPart_of_natOf? (natOf?_toDigits n))

theorem spells_literal (l : Literal) : Spells l.json [l.jsonLexeme] := by
  cases l with
  | absent => exact spells_null
  | string s => exact spells_quoted s
  | number x =>
    by_cases hx : x.isFinite = true
    · obtain ⟨-, hne, hparts⟩ := numberOf?_finite hx
      simp only [Literal.json, Binary64.json, Literal.jsonLexeme, if_pos hx]
      exact spells_word hne hparts
    · simp only [Literal.json, Binary64.json, Literal.jsonLexeme, if_neg hx]
      exact spells_null

variable {layout : JsonLayout}

theorem spells_span (h : layout.AddsBlanks) (depth : Nat) (s : Span) :
    Spells (s.json layout depth) s.jsonLexemes :=
  spells_object h depth
    (.cons ⟨rfl, spells_numeral _⟩ (.cons ⟨rfl, spells_numeral _⟩ .nil))

theorem spells_token (h : layout.AddsBlanks) (depth : Nat) (t : Token) :
    Spells (t.json layout depth) t.jsonLexemes :=
  spells_object h depth
    (.cons ⟨rfl, spells_quoted _⟩ (.cons ⟨rfl, spells_quoted _⟩ (.cons ⟨rfl, spells_literal _⟩
      (.cons ⟨rfl, spells_numeral _⟩ (.cons ⟨rfl, spells_span h _ _⟩ .nil)))))

theorem lexemes_array (h : layout.AddsBlanks) (tokens : List Token) :
    lexemes (layout.array 0 (tokens.map (Token.json layout 1)) ++ "\n").toList
      = enclosed '[' ']' (tokens.map Token.jsonLexemes) := by
  have hspells : List.Forall₂ Spells (tokens.map (Token.json layout 1))
      (tokens.map Token.jsonLexemes) := by
    rw [List.forall₂_map_left_iff, List.forall₂_map_right_iff]
    exact List.forall₂_same.2 fun t _ => spells_token h 1 t
  have hend : EndsWord "\n".toList := by simp [EndsWord, isWordPart, isBlank]
  rw [String.toList_append, spells_array h 0 hspells _ hend]
  exact List.append_nil _

/-! ## Reading tokens -/

/-- What lexemes begin with, and the lexemes behind it. -/
abbrev Read (α : Type) : Type := List Lexeme → Option (α × List Lexeme)

/-- Reads a mark. -/
def readMark (c : Char) : Read Unit
  | .mark d :: ls => if d = c then some ((), ls) else none
  | _ => none

/-- Reads a value of one lexeme. -/
def readLexeme {α : Type} (of? : Lexeme → Option α) : Read α
  | l :: ls => (of? l).map (·, ls)
  | [] => none

/-- Reads a member of an object, which must have the given name. -/
def readMember {α : Type} (name : String) (read : Read α) : Read α
  | .text s :: .mark ':' :: ls => if s = name then read ls else none
  | _ => none

@[simp] theorem readMark_mark (c : Char) (ls : List Lexeme) :
    readMark c (.mark c :: ls) = some ((), ls) := if_pos rfl

@[simp] theorem readLexeme_cons {α : Type} (of? : Lexeme → Option α) (l : Lexeme)
    (ls : List Lexeme) : readLexeme of? (l :: ls) = (of? l).map (·, ls) := rfl

@[simp] theorem readMember_member {α : Type} (name : String) (read : Read α)
    (value ls : List Lexeme) :
    readMember name read (member name value ++ ls) = read (value ++ ls) := if_pos rfl

end Json

namespace Json.Lexeme

def text? : Lexeme → Option String
  | text s => some s
  | _ => none

def nat? : Lexeme → Option Nat
  | word w => natOf? w
  | _ => none

def kind? (l : Lexeme) : Option Kind :=
  l.text?.bind Kind.ofName?

/-- A value is told by what it is written as: in quotes, as a numeral, or as the name of what is
absent. -/
def literal? : Lexeme → Option Literal
  | text s => some (.string s)
  | word w => if w = null then some .absent else (numberOf? w).map .number
  | _ => none

end Json.Lexeme

namespace Json

def readSpan : Read Span := fun ls => do
  let (_, ls) ← readMark '\x7b' ls
  let (start, ls) ← readMember "start" (readLexeme Lexeme.nat?) ls
  let (_, ls) ← readMark ',' ls
  let (stop, ls) ← readMember "end" (readLexeme Lexeme.nat?) ls
  let (_, ls) ← readMark '\x7d' ls
  return (⟨start, stop⟩, ls)

def readToken : Read Token := fun ls => do
  let (_, ls) ← readMark '\x7b' ls
  let (kind, ls) ← readMember "kind" (readLexeme Lexeme.kind?) ls
  let (_, ls) ← readMark ',' ls
  let (lexeme, ls) ← readMember "lexeme" (readLexeme Lexeme.text?) ls
  let (_, ls) ← readMark ',' ls
  let (literal, ls) ← readMember "literal" (readLexeme Lexeme.literal?) ls
  let (_, ls) ← readMark ',' ls
  let (line, ls) ← readMember "line" (readLexeme Lexeme.nat?) ls
  let (_, ls) ← readMark ',' ls
  let (span, ls) ← readMember "span" readSpan ls
  let (_, ls) ← readMark '\x7d' ls
  return (⟨kind, lexeme, literal, line, span⟩, ls)

/-- Reads tokens with commas between them, up to the bracket that ends the text. -/
def readTokens (ls : List Lexeme) : Option (List Token) :=
  match readToken ls with
  | some (t, [.mark ']']) => some [t]
  | some (t, .mark ',' :: rest) =>
    if rest.length < ls.length then (readTokens rest).map (t :: ·) else none
  | _ => none
termination_by ls.length

/-- The tokens of an array of tokens, wherever its lines end. -/
def tokensOf? (text : String) : Option (List Token) :=
  match lexemes text.toList with
  | .mark '[' :: ls => if ls = [.mark ']'] then some [] else readTokens ls
  | _ => none

end Json

/-- What is left of a value in JSON: a number that is not finite becomes absent. -/
def Literal.finiteOnly : Literal → Literal
  | number x => if x.isFinite then number x else absent
  | l => l

def Token.finiteOnly (t : Token) : Token :=
  { t with literal := t.literal.finiteOnly }

namespace Json

theorem literal?_jsonLexeme (l : Literal) : l.jsonLexeme.literal? = some l.finiteOnly := by
  cases l with
  | absent => rfl
  | string s => rfl
  | number x =>
    by_cases hx : x.isFinite = true
    · obtain ⟨hread, -⟩ := numberOf?_finite hx
      have hnull : Binary64.jsonStyle.finite x ≠ null := by
        intro hnull
        rw [hnull] at hread
        exact absurd hread (Option.some_ne_none x).symm
      simp only [Literal.jsonLexeme, Literal.finiteOnly, Lexeme.literal?, if_pos hx, if_neg hnull,
        hread, Option.map_some]
    · simp only [Literal.jsonLexeme, Literal.finiteOnly, Lexeme.literal?, if_neg hx, if_true]

theorem nat?_numeral (n : Nat) : (numeral n).nat? = some n :=
  natOf?_toDigits n

theorem kind?_name (k : Kind) : (Lexeme.text k.name).kind? = some k :=
  k.ofName?_name

theorem readSpan_jsonLexemes (s : Span) (ls : List Lexeme) :
    readSpan (s.jsonLexemes ++ ls) = some (s, ls) := by
  simp [readSpan, Span.jsonLexemes, object, enclosed, List.intercalate_cons_cons, nat?_numeral]

theorem readToken_jsonLexemes (t : Token) (ls : List Lexeme) :
    readToken (t.jsonLexemes ++ ls) = some (t.finiteOnly, ls) := by
  simp [readToken, Token.jsonLexemes, Token.finiteOnly, object, enclosed,
    List.intercalate_cons_cons, kind?_name, Lexeme.text?, literal?_jsonLexeme, nat?_numeral,
    readSpan_jsonLexemes]

theorem readTokens_intercalate (t : Token) (ts : List Token) :
    readTokens ([Lexeme.mark ','].intercalate ((t :: ts).map Token.jsonLexemes) ++ [.mark ']'])
      = some ((t :: ts).map Token.finiteOnly) := by
  induction ts generalizing t with
  | nil =>
    rw [readTokens]
    simp only [List.map_cons, List.map_nil, List.intercalate_singleton, readToken_jsonLexemes]
  | cons u ts ih =>
    have hrest := ih u
    rw [readTokens]
    simp only [List.map_cons, List.intercalate_cons_cons, List.append_assoc, List.cons_append,
      List.nil_append, readToken_jsonLexemes] at hrest ⊢
    -- the record and the comma are behind the reader
    rw [if_pos (by simp only [List.length_append, List.length_cons]; omega), hrest]
    rfl

/-- An array of tokens is read back, in every layout that adds only blanks. -/
theorem tokensOf?_array {layout : JsonLayout} (h : layout.AddsBlanks) (tokens : List Token) :
    tokensOf? (layout.array 0 (tokens.map (Token.json layout 1)) ++ "\n")
      = some (tokens.map Token.finiteOnly) := by
  unfold tokensOf?
  rw [lexemes_array h]
  cases tokens with
  | nil => rfl
  | cons t ts =>
    -- an empty array holds nothing that could be read as a token
    have hread := readTokens_intercalate t ts
    have hne : [Lexeme.mark ','].intercalate ((t :: ts).map Token.jsonLexemes) ++ [.mark ']']
        ≠ [.mark ']'] := by
      intro heq
      rw [heq, readTokens] at hread
      exact absurd hread (Option.some_ne_none _).symm
    exact (if_neg hne).trans hread

/-- The listing of tokens is read back, except for numbers that are not finite. -/
theorem tokensOf?_listing (tokens : List Token) :
    tokensOf? (listing .json tokens) = some (tokens.map Token.finiteOnly) :=
  tokensOf?_array JsonLayout.addsBlanks_pretty tokens

end Json

/-! ## What is lost -/

/-- A token whose value, if it is a number, is a finite one. -/
def Token.HasFiniteValue (t : Token) : Prop :=
  ∀ x, t.literal = .number x → x.isFinite = true

theorem Token.HasFiniteValue.finiteOnly_eq {t : Token} (h : t.HasFiniteValue) :
    t.finiteOnly = t := by
  have hliteral : t.literal.finiteOnly = t.literal := by
    cases hl : t.literal with
    | number x => exact if_pos (h x hl)
    | _ => rfl
  rw [Token.finiteOnly, hliteral]

theorem map_finiteOnly_eq {tokens : List Token} (h : ∀ t ∈ tokens, t.HasFiniteValue) :
    tokens.map Token.finiteOnly = tokens := by
  rw [List.map_congr_left fun t ht => (h t ht).finiteOnly_eq, List.map_id']

/-- A token with the value of its kind and its text. -/
def Token.withLiteral (t : Token) : Token :=
  { t with literal := literalOf t.kind t.lexeme.toList }

/-- Tokens of a scan are told by what is left of them. -/
theorem map_withLiteral_finiteOnly (source : String) :
    ((scan source).tokens.map Token.finiteOnly).map Token.withLiteral = (scan source).tokens := by
  have hsame : ∀ t ∈ (scan source).tokens, t.finiteOnly.withLiteral = t := by
    intro t ht
    show { t with literal := literalOf t.kind t.lexeme.toList } = t
    rw [← literal_of_mem_tokens ht]
  rw [List.map_map]
  calc
    _ = (scan source).tokens.map fun t => t := List.map_congr_left hsame
    _ = (scan source).tokens := List.map_id' _

/-- Lists of tokens whose numbers are finite are read back from their JSON, bit for bit, so no two
of them have the same JSON; and no two different lists of tokens that scans return have the same
JSON, whatever their numbers are. -/
theorem listing_json_lossless :
    (∀ tokens : List Token, (∀ t ∈ tokens, t.HasFiniteValue) →
        tokensOf? (listing .json tokens) = some tokens) ∧
      (∀ ts us : List Token, (∀ t ∈ ts, t.HasFiniteValue) → (∀ u ∈ us, u.HasFiniteValue) →
        listing .json ts = listing .json us → ts = us) ∧
      ∀ source₁ source₂ : String,
        listing .json (scan source₁).tokens = listing .json (scan source₂).tokens →
          (scan source₁).tokens = (scan source₂).tokens := by
  have hread : ∀ tokens : List Token, (∀ t ∈ tokens, t.HasFiniteValue) →
      tokensOf? (listing .json tokens) = some tokens := by
    intro tokens hfinite
    rw [tokensOf?_listing, map_finiteOnly_eq hfinite]
  refine ⟨hread, ?_, ?_⟩
  · intro ts us hts hus heq
    have hsome : some ts = some us := by rw [← hread ts hts, heq, hread us hus]
    exact Option.some.inj hsome
  · intro source₁ source₂ heq
    have hsome : some ((scan source₁).tokens.map Token.finiteOnly)
        = some ((scan source₂).tokens.map Token.finiteOnly) := by
      rw [← tokensOf?_listing, heq, tokensOf?_listing]
    rw [← map_withLiteral_finiteOnly source₁, Option.some.inj hsome, map_withLiteral_finiteOnly]

/-- Without its text, an infinite number cannot be told from what is absent. -/
example : (Literal.number ⟨0x7FF0000000000000⟩).json = Literal.absent.json := by decide

end Lox
