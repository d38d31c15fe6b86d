/-!
# The bytes of a text

Limits on texts and positions inside them are counted in UTF-8 bytes.  This
module gives the byte view of a string.

Main results:

- Theorem {lit}`utf8_ofList`: the bytes of a string are the concatenated encodings
  of its characters.
-/

namespace MeteredMachine

namespace Text

/-- The UTF-8 bytes of a string, in order. -/
def utf8 (s : String) : List UInt8 :=
  s.toByteArray.data.toList

/-- The bytes of a list of characters are the encodings of the characters in turn. -/
theorem utf8_ofList (chars : List Char) :
    utf8 (String.ofList chars) = chars.flatMap String.utf8EncodeChar := by
  simp [utf8, List.utf8Encode]

end Text

end MeteredMachine
