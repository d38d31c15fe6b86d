/-!
# Aligned text

A short text is brought to a given width by repeating a fill character on one
side or on both.  A text that is wide enough is left alone.

Main results:

- Theorem {lit}`length_align`: the result is as wide as the wider of the two.
-/

namespace MeteredMachine

namespace Text

/-- Where the text stands in its column. -/
inductive Alignment where
  /-- The fill goes behind the text. -/
  | left
  /-- The fill goes in front of the text. -/
  | right
  /-- The fill goes on both sides; an odd one goes behind. -/
  | center
deriving DecidableEq, Repr

/-- The characters of `text` brought to `width` with `fill`. -/
def alignChars (alignment : Alignment) (fill : Char) (width : Nat) (text : List Char) :
    List Char :=
  let missing := width - text.length
  match alignment with
  | .left => text ++ List.replicate missing fill
  | .right => List.replicate missing fill ++ text
  | .center =>
    List.replicate (missing / 2) fill ++ text ++ List.replicate (missing - missing / 2) fill

/-- The string `text` brought to `width` with `fill`. -/
def align (alignment : Alignment) (fill : Char) (width : Nat) (text : String) : String :=
  String.ofList (alignChars alignment fill width text.toList)

/-- Aligning fills up to the width and never cuts. -/
@[simp] theorem length_alignChars (alignment : Alignment) (fill : Char) (width : Nat)
    (text : List Char) :
    (alignChars alignment fill width text).length = max width text.length := by
  cases alignment <;> simp [alignChars] <;> omega

/-- An aligned string is as wide as the wider of the column and the text. -/
theorem length_align (alignment : Alignment) (fill : Char) (width : Nat) (text : String) :
    (align alignment fill width text).length = max width text.length := by
  simp [align, String.length_toList]

end Text

end MeteredMachine
