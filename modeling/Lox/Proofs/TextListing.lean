import Lox.Command.Source
import Lox.Proofs.Alone

/-!
# Text listings are read back

Nothing is escaped in a text listing: a string stands there twice, as it is, with its spaces and
line feeds, so that a part of it can look like a record. The records are told apart all the same.
The name of a kind has no space; no lexeme has one but a string, which ends at its second quote; and
the value follows from the lexeme, so it is known where it ends. `entriesOf?` reads by these three
rules.
-/

set_option autoImplicit false

namespace Lox

/-- What a text listing says of a token. -/
structure Entry where
  kind : Kind
  lexeme : String
  literal : Literal
  deriving DecidableEq, Repr

def Token.entry (t : Token) : Entry :=
  ⟨t.kind, t.lexeme, t.literal⟩

/-! ## Reading -/

namespace Listing

/-- Divides a text at the first `c`, which is left out. -/
def cutAt? (c : Char) : List Char → Option (List Char × List Char)
  | [] => none
  | d :: s => if d = c then some ([], s) else (cutAt? c s).map fun (t, rest) => (d :: t, rest)

/-- Reads a lexeme of a known kind and the space behind it. -/
def readLexeme (kind : Kind) (s : List Char) : Option (List Char × List Char) :=
  match kind with
  | .string => do
    let s ← ['"'].isPrefixOf? s
    let (body, s) ← cutAt? '"' s
    let s ← [' '].isPrefixOf? s
    return ('"' :: body ++ ['"'], s)
  | _ => cutAt? ' ' s

/-- Reads the record of a token and the line feed behind it. The value is not read but worked out,
and must stand where it is expected. -/
def readEntry (s : List Char) : Option (Entry × List Char) := do
  let (name, s) ← cutAt? ' ' s
  let kind ← Kind.ofName? (String.ofList name)
  let (lexeme, s) ← readLexeme kind s
  let literal := literalOf kind lexeme
  let s ← (literal.display.toList ++ ['\n']).isPrefixOf? s
  return (⟨kind, String.ofList lexeme, literal⟩, s)

/-- Reads records up to the end of the text. -/
def readEntries (s : List Char) : Option (List Entry) :=
  if s = [] then some []
  else
    match readEntry s with
    | some (e, rest) =>
      if rest.length < s.length then (readEntries rest).map (e :: ·) else none
    | none => none
termination_by s.length

/-- The entries of a text listing. -/
def entriesOf? (text : String) : Option (List Entry) :=
  readEntries text.toList

end Listing

/-! ## Where names end -/

theorem Kind.space_notMem_name (k : Kind) : ' ' ∉ k.name.toList := by
  have hall : ∀ k ∈ all, ' ' ∉ k.name.toList := by decide +kernel
  exact hall k (mem_all k)

/-! ## Reading what was written -/

namespace Listing

theorem cutAt?_append {c : Char} {t : List Char} (h : c ∉ t) (rest : List Char) :
    cutAt? c (t ++ c :: rest) = some (t, rest) := by
  induction t with
  | nil => simp [cutAt?]
  | cons d t ih =>
    obtain ⟨hd, ht⟩ := List.ne_and_not_mem_of_not_mem_cons h
    rw [List.cons_append, cutAt?, if_neg (Ne.symm hd), ih ht, Option.map_some]

theorem isPrefixOf?_append (s rest : List Char) : s.isPrefixOf? (s ++ rest) = some rest :=
  List.isPrefixOf?_eq_some_iff_append_eq.2 rfl

theorem readLexeme_append {t : Token} (h : t.IsSound) (rest : List Char) :
    readLexeme t.kind (t.lexeme.toList ++ ' ' :: rest) = some (t.lexeme.toList, rest) := by
  by_cases hstring : t.kind = .string
  · -- between the quotes there is no quote, so the second one is met where it was written
    obtain ⟨body, htext, hunquoted⟩ := (h.isLexeme hstring (by simp)).exists_body
    rw [hstring]
    have hquotes : t.lexeme.toList ++ ' ' :: rest = ['"'] ++ (body ++ '"' :: ([' '] ++ rest)) := by
      simp [htext]
    simp only [hquotes, readLexeme, isPrefixOf?_append, cutAt?_append hunquoted,
      Option.bind_eq_bind, Option.bind_some]
    rw [htext]
    rfl
  · have hspace : ' ' ∉ t.lexeme.toList := h.notMem_lexeme_of_isSpace hstring (by decide)
    have hread : readLexeme t.kind = cutAt? ' ' := by
      funext s
      unfold readLexeme
      split
      · exact absurd ‹_› hstring
      · rfl
    rw [hread, cutAt?_append hspace]

/-- One record is read, whatever is behind it. -/
theorem readEntry_display {t : Token} (h : t.IsSound) (rest : List Char) :
    readEntry ((t.display ++ "\n").toList ++ rest) = some (t.entry, rest) := by
  have htext : (t.display ++ "\n").toList ++ rest
      = t.kind.name.toList ++ ' ' :: (t.lexeme.toList
          ++ ' ' :: ((t.literal.display.toList ++ ['\n']) ++ rest)) := by
    simp [Token.display]
  rw [htext, readEntry, cutAt?_append t.kind.space_notMem_name]
  simp only [Option.bind_eq_bind, Option.bind_some, String.ofList_toList, Kind.ofName?_name,
    readLexeme_append h, ← h.literal, isPrefixOf?_append]
  rfl

/-- All records are read. -/
theorem entriesOf?_text (tokens : List Token) (h : ∀ t ∈ tokens, t.IsSound) :
    entriesOf? (text tokens) = some (tokens.map Token.entry) := by
  unfold entriesOf?
  induction tokens with
  | nil => simp [text, readEntries]
  | cons t ts ih =>
    obtain ⟨ht, hts⟩ := List.forall_mem_cons.1 h
    have htext : (text (t :: ts)).toList = (t.display ++ "\n").toList ++ (text ts).toList := by
      simp [text]
    have hlonger : (text ts).toList.length < (text (t :: ts)).toList.length := by
      simp only [htext, String.toList_append, List.length_append]
      have hfeed : "\n".toList.length = 1 := rfl
      omega
    rw [readEntries, if_neg (List.ne_nil_of_length_pos (by omega))]
    simp only [htext, readEntry_display ht] at hlonger ⊢
    rw [if_pos hlonger, ih hts]
    rfl

/-- The record of a lexeme of a given kind, and the line feed behind it. -/
def record (kind : Kind) (lexeme : String) : String :=
  kind.name ++ " " ++ lexeme ++ " " ++ (literalOf kind lexeme.toList).display ++ "\n"

/-- A text listing is one of kinds and lexemes. -/
theorem text_eq_join (tokens : List Token) (h : ∀ t ∈ tokens, t.IsSound) :
    text tokens
      = String.join ((tokens.map fun t => (t.kind, t.lexeme)).map fun (k, l) => record k l) := by
  have hrecord : ∀ t ∈ tokens, t.display ++ "\n" = record t.kind t.lexeme := by
    intro t ht
    rw [Token.display, record, (h t ht).literal]
  rw [text, List.map_congr_left hrecord, List.map_map]
  rfl

/-- Two text listings are equal when kinds and lexemes are, and only then. -/
theorem text_eq_iff {ts us : List Token} (hts : ∀ t ∈ ts, t.IsSound) (hus : ∀ u ∈ us, u.IsSound) :
    text ts = text us
      ↔ (ts.map fun t => (t.kind, t.lexeme)) = us.map fun u => (u.kind, u.lexeme) := by
  constructor
  · intro heq
    -- what was read from equal texts is equal
    have hentries : some (ts.map Token.entry) = some (us.map Token.entry) :=
      calc
        some (ts.map Token.entry) = entriesOf? (text ts) := (entriesOf?_text ts hts).symm
        _ = entriesOf? (text us) := congrArg entriesOf? heq
        _ = some (us.map Token.entry) := entriesOf?_text us hus
    have hparts := congrArg (List.map fun e : Entry => (e.kind, e.lexeme))
      (Option.some.inj hentries)
    rw [List.map_map, List.map_map] at hparts
    exact hparts
  · intro heq
    -- the values stand in the text as well, but they follow from the lexemes
    rw [text_eq_join ts hts, heq, text_eq_join us hus]

end Listing

theorem listingOf_of_errors_eq_nil {source : String} (clean : (scan source).errors = [])
    (format : Format) : listingOf format source = .ok (listing format (scan source).tokens) := by
  simp [listingOf, Scan.checked, clean, Except.map]

/-- From the text listing of a source without errors one reads the kinds, lexemes and values of its
tokens; and two such sources have the same text listing if and only if their tokens have the same
kinds and lexemes, in the same order. -/
theorem listing_text_decodable :
    (∀ source : String, (scan source).errors = [] →
        ∃ text, listingOf .text source = .ok text ∧
          Listing.entriesOf? text = some ((scan source).tokens.map Token.entry)) ∧
      ∀ source₁ source₂ : String, (scan source₁).errors = [] → (scan source₂).errors = [] →
        (listingOf .text source₁ = listingOf .text source₂
          ↔ ((scan source₁).tokens.map fun t => (t.kind, t.lexeme))
            = (scan source₂).tokens.map fun t => (t.kind, t.lexeme)) := by
  constructor
  · intro source clean
    exact ⟨_, listingOf_of_errors_eq_nil clean .text,
      Listing.entriesOf?_text _ fun _ => isSound_of_mem_tokens⟩
  · intro source₁ source₂ clean₁ clean₂
    rw [listingOf_of_errors_eq_nil clean₁, listingOf_of_errors_eq_nil clean₂, Except.ok.injEq]
    exact Listing.text_eq_iff (fun _ => isSound_of_mem_tokens) fun _ => isSound_of_mem_tokens

/-- A string that looks like the end of its record, two more records and the beginning of another.
-/
theorem listing_text_decodable_of_records_in_string :
    ∃ text,
      listingOf .text "\" \nNUMBER 1 1.0\nEOF  null\nSTRING \"" = .ok text ∧
        listingOf .text "// \n\" \nNUMBER 1 1.0\nEOF  null\nSTRING \"" = .ok text ∧
        Listing.entriesOf? text = some
          [⟨.string, "\" \nNUMBER 1 1.0\nEOF  null\nSTRING \"",
              .string " \nNUMBER 1 1.0\nEOF  null\nSTRING "⟩,
            ⟨.eof, "", .absent⟩] := by
  have clean : (scan "\" \nNUMBER 1 1.0\nEOF  null\nSTRING \"").errors = [] := by
    decide +kernel
  have clean' : (scan "// \n\" \nNUMBER 1 1.0\nEOF  null\nSTRING \"").errors = [] := by
    decide +kernel
  obtain ⟨text, hlisting, hread⟩ := listing_text_decodable.1 _ clean
  have hsame := (listing_text_decodable.2 _ _ clean clean').2 (by decide +kernel)
  refine ⟨text, hlisting, hsame.symm.trans hlisting, hread.trans (congrArg some ?_)⟩
  decide +kernel

/-- Tokens that no scan finds can have the same record. -/
example : Token.display ⟨.string, "x", .string "y z", 1, ⟨0, 1⟩⟩
    = Token.display ⟨.string, "x y", .string "z", 1, ⟨0, 3⟩⟩ := by decide

end Lox
