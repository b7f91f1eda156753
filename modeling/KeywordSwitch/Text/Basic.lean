/-!
# Texts, lines and bytes

## Implementation notes

A text is a list of characters, so every reader and printer below recurses on it
directly. Bytes appear only where something outside counts them: a sink with a
limit, a file, a path component, and the cursor of a matcher.
-/

namespace KeywordSwitch

/-- A text is the list of its characters, each a Unicode scalar value. -/
abbrev Text := List Char

namespace Text

/-- The UTF-8 bytes of a text, character by character. -/
def utf8 (t : Text) : List UInt8 :=
  t.flatMap String.utf8EncodeChar

/-- The text whose UTF-8 form is `bytes`, if they are well formed. -/
def ofUtf8? (bytes : List UInt8) : Option Text :=
  (String.fromUTF8? ⟨bytes.toArray⟩).map String.toList

/-- One character per byte, the character with the byte's number. -/
def ofLatin1 (bytes : List UInt8) : Text :=
  bytes.map Char.ofUInt8

/-- The lines one after the other, each followed by a line feed. -/
def unlines (lines : List Text) : Text :=
  lines.flatMap (· ++ ['\n'])

/-- The decimal digits of `n`, without leading zeros. -/
def decimal (n : Nat) : Text :=
  Nat.toDigits 10 n

/-- What follows the first occurrence of `mark`, or `none` if there is no occurrence. -/
def after? (mark : Text) : Text → Option Text
  | [] => mark.isPrefixOf? []
  | c :: t => (mark.isPrefixOf? (c :: t)).or (after? mark t)

@[simp] theorem utf8_nil : utf8 [] = [] := rfl

@[simp] theorem utf8_cons (c : Char) (t : Text) :
    utf8 (c :: t) = String.utf8EncodeChar c ++ utf8 t := rfl

@[simp] theorem utf8_append (s t : Text) : utf8 (s ++ t) = utf8 s ++ utf8 t := by
  simp [utf8]

/-- A text is read back from its bytes. -/
theorem ofUtf8?_utf8 (t : Text) : ofUtf8? (utf8 t) = some t := by
  have bytes : (⟨(utf8 t).toArray⟩ : ByteArray) = t.utf8Encode := by
    rw [ByteArray.ext_iff, List.utf8Encode, List.data_toByteArray, utf8]
  have valid : t.utf8Encode.IsValidUTF8 := ByteArray.isValidUTF8_utf8Encode
  have decoded : String.fromUTF8 t.utf8Encode valid = String.ofList t := rfl
  rw [ofUtf8?, bytes, String.fromUTF8?, dif_pos valid, decoded, Option.map_some,
    String.toList_ofList]

@[simp] theorem unlines_nil : unlines [] = [] := rfl

@[simp] theorem unlines_cons (line : Text) (lines : List Text) :
    unlines (line :: lines) = line ++ '\n' :: unlines lines := by
  simp [unlines]

@[simp] theorem unlines_append (first second : List Text) :
    unlines (first ++ second) = unlines first ++ unlines second := by
  simp [unlines]

end Text

end KeywordSwitch
