import UtsInsight.Outline.Header
import UtsInsight.Text.Position

/-!
# Texts that declare a given word

A coarser test than the headers: one of several keywords, a gap, the given word taken literally, and
then the end of the text or a character that does not continue a name. The word may be any text, so
the gap is tried from its longest form down to a single blank.
-/

namespace UtsInsight.Outline

open UtsInsight.Text

/-- The word and the character that ends it, or the word alone at the end of the text. -/
def endedWord? (word cs : List Char) : Option (List Char) :=
  match dropPrefix? word cs with
  | some [] => some word
  | some (c :: _) => if isNamePart c then none else some (word ++ [c])
  | none => none

/-- A gap, as long as possible, such that `read` accepts what follows: the text of both. -/
def gapThen? (read : List Char → Option (List Char)) : List Char → Option (List Char)
  | [] => none
  | c :: cs =>
    if isBlank c then (gapThen? read cs <|> read cs).map (c :: ·) else none

/-- The first of the keywords that introduces the word here, with the text of the match. -/
def introduction? (keywords : List String) (word cs : List Char) : Option (String × List Char) :=
  keywords.findSome? fun keyword => do
    let (kw, rest) ← keyword? keyword cs
    let consumed ← gapThen? (endedWord? word) rest
    return (keyword, kw ++ consumed)

/-- The leftmost place where a text declares a word: the byte range of the match, which includes the
character that ends the word, and the keyword. -/
def declaring? (keywords : List String) (word text : List Char) : Option (ByteSpan × String) :=
  (search (introduction? keywords word) text).map fun (before, keyword, consumed) =>
    (⟨byteLength before, byteLength before + byteLength consumed⟩, keyword)

/-- Whether a text declares a word after one of the keywords. -/
def declares (keywords : List String) (word text : List Char) : Bool :=
  (declaring? keywords word text).isSome

end UtsInsight.Outline
