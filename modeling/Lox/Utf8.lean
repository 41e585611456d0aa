/-!
# Text as bytes

How many bytes a text takes in UTF-8 (`utf8Length`), which they are (`encodeUtf8`), and whether
bytes are the UTF-8 form of a text, and of which (`decodeUtf8?`).
-/

set_option autoImplicit false

namespace Lox

/-- The number of bytes that a text takes in UTF-8, added to `n`. -/
def utf8LengthFrom (n : Nat) (text : List Char) : Nat :=
  text.foldl (fun n c => n + c.utf8Size) n

/-- The number of bytes that a text takes in UTF-8. -/
def utf8Length (text : List Char) : Nat :=
  utf8LengthFrom 0 text

theorem utf8LengthFrom_eq (n : Nat) (text : List Char) :
    utf8LengthFrom n text = n + utf8Length text := by
  unfold utf8Length utf8LengthFrom
  induction text generalizing n with
  | nil => rfl
  | cons c s ih =>
    rw [List.foldl_cons, List.foldl_cons, ih, ih (0 + _)]
    omega

@[simp] theorem utf8Length_nil : utf8Length [] = 0 := rfl

@[simp] theorem utf8Length_cons (c : Char) (s : List Char) :
    utf8Length (c :: s) = c.utf8Size + utf8Length s := by
  have h := utf8LengthFrom_eq c.utf8Size s
  rw [← h]
  unfold utf8Length utf8LengthFrom
  rw [List.foldl_cons, Nat.zero_add]

@[simp] theorem utf8Length_append (s t : List Char) :
    utf8Length (s ++ t) = utf8Length s + utf8Length t := by
  induction s with
  | nil => simp
  | cons c s ih => simp [ih, Nat.add_assoc]

/-- The text whose UTF-8 form the bytes are, if there is one. -/
def decodeUtf8? (bytes : List UInt8) : Option String :=
  String.fromUTF8? bytes.toByteArray

/-- The UTF-8 form of a text. -/
def encodeUtf8 (text : String) : List UInt8 :=
  text.toUTF8.toList

/-- How the refusal of bytes that are no text is worded. -/
def notUtf8Message : String := "stream did not contain valid UTF-8"

/-! ## The bytes of a text -/

/-- A listing of bytes that has come to some place goes on behind it. -/
theorem toList_loop_append (before after : List UInt8) :
    ByteArray.toList.loop (before ++ after).toByteArray before.length before.reverse
      = before ++ after := by
  induction after generalizing before with
  | nil =>
    unfold ByteArray.toList.loop
    rw [if_neg (by simp)]
    simp
  | cons b after ih =>
    have hlt : before.length < (before ++ b :: after).toByteArray.size := by simp
    have hbyte : (before ++ b :: after).toByteArray.get! before.length = b := by
      simp [ByteArray.get!]
    have hlater := ih (before ++ [b])
    rw [List.append_assoc, List.length_append, List.reverse_append] at hlater
    unfold ByteArray.toList.loop
    rw [if_pos hlt, hbyte]
    exact hlater

theorem toList_toByteArray (bytes : List UInt8) : bytes.toByteArray.toList = bytes :=
  toList_loop_append [] bytes

/-- The UTF-8 form of a text is that of its characters, one after the other. -/
theorem encodeUtf8_eq_flatMap (text : String) :
    encodeUtf8 text = text.toList.flatMap String.utf8EncodeChar := by
  rw [encodeUtf8, String.toUTF8_eq_toByteArray, ← String.utf8Encode_toList, List.utf8Encode,
    toList_toByteArray]

theorem encodeUtf8_eq_nil_iff {text : String} : encodeUtf8 text = [] ↔ text.toList = [] := by
  rw [encodeUtf8_eq_flatMap, List.flatMap_eq_nil_iff, List.eq_nil_iff_forall_not_mem]
  exact forall₂_congr fun c _ => iff_false_intro String.utf8EncodeChar_ne_nil

/-- Bytes are decoded to the text whose UTF-8 form they are. -/
theorem decodeUtf8?_eq_some_iff {bytes : List UInt8} {text : String} :
    decodeUtf8? bytes = some text ↔ encodeUtf8 text = bytes := by
  have hencode : encodeUtf8 text = bytes ↔ text.toByteArray = bytes.toByteArray := by
    rw [encodeUtf8_eq_flatMap, ← List.toByteArray_inj, ← String.utf8Encode_toList, List.utf8Encode]
  rw [hencode, decodeUtf8?, String.fromUTF8?]
  constructor
  · intro h
    split at h
    next hvalid => exact (Option.some.inj h) ▸ rfl
    next => contradiction
  · intro h
    have hvalid : bytes.toByteArray.IsValidUTF8 := h ▸ text.isValidUTF8
    rw [dif_pos hvalid]
    exact congrArg some (String.toByteArray_inj.1 h.symm)

/-- A byte below 128 stands for the character with its number. -/
theorem toNat_of_mem_utf8EncodeChar {c : Char} {b : UInt8} (h : b ∈ String.utf8EncodeChar c)
    (hb : b.toNat < 128) : c.toNat = b.toNat := by
  revert h
  fun_cases String.utf8EncodeChar c with
  | case1 v hv =>
    intro h
    obtain rfl := List.mem_singleton.1 h
    rw [UInt8.toNat_ofNat', Nat.mod_eq_of_lt (by omega)]
    rfl
  | case2 v | case3 v | case4 v =>
    intro h
    -- every byte of a longer form has the highest bit set
    have hhigh : 128 ≤ b.toNat := by
      simp only [List.mem_cons, List.not_mem_nil, or_false] at h
      rcases h with rfl | rfl | rfl | rfl <;> rw [UInt8.toNat_ofNat'] <;> omega
    omega

/-- The byte 10 stands for a line feed, and for nothing else. -/
theorem lineFeed_mem_encodeUtf8_iff {text : String} :
    10 ∈ encodeUtf8 text ↔ '\n' ∈ text.toList := by
  rw [encodeUtf8_eq_flatMap, List.mem_flatMap]
  constructor
  · rintro ⟨c, hc, hten⟩
    have hfeed : c = '\n' := Char.toNat_inj.1 (toNat_of_mem_utf8EncodeChar hten (by decide))
    exact hfeed ▸ hc
  · intro h
    exact ⟨'\n', h, by decide⟩

end Lox
