import UtsInsight.Text.Position

/-!
# Words under a cursor and occurrences of a word

The word under a cursor is the run of identifier characters that touches it from either side, so a
cursor right behind a word still selects it. The occurrences of a word are its literal matches that
do not continue an identifier on either side; matches are taken from left to right without overlap
before the ones inside longer identifiers are dropped.
-/

namespace UtsInsight.Text

/-- The longest end of a text in the class `p`. -/
def tailRun (p : Char → Bool) (cs : List Char) : List Char :=
  (cs.reverse.takeWhile p).reverse

/-- What stands before the longest end of a text in the class `p`. -/
def beforeTailRun (p : Char → Bool) (cs : List Char) : List Char :=
  (cs.reverse.dropWhile p).reverse

theorem beforeTailRun_append_tailRun (p : Char → Bool) (cs : List Char) :
    beforeTailRun p cs ++ tailRun p cs = cs := by
  rw [beforeTailRun, tailRun, ← List.reverse_append, List.takeWhile_append_dropWhile,
    List.reverse_reverse]

/-- The identifier that a cursor touches, with its columns in the line, the second excluded. -/
structure CursorWord where
  text : String
  start : Nat
  stop : Nat
  deriving DecidableEq, Repr

/-- The identifier touching a column of a line. -/
def wordAt (line : List Char) (column : Nat) : Option CursorWord :=
  let before := takeUnits column line
  let word := tailRun isIdentifier before ++ (dropUnits column line).takeWhile isIdentifier
  let start := unitLength (beforeTailRun isIdentifier before)
  if word.isEmpty then none else some ⟨String.ofList word, start, start + unitLength word⟩

/-- The identifier ending right before the dot in front of a word. -/
def CursorWord.receiver? (line : List Char) (word : CursorWord) : Option String :=
  match (takeUnits word.start line).reverse with
  | '.' :: rest =>
    let name := (rest.takeWhile isIdentifier).reverse
    if name.isEmpty then none else some (String.ofList name)
  | _ => none

/-- Whether the next character after a word that is not blank opens a call. -/
def CursorWord.isCalled (line : List Char) (word : CursorWord) : Bool :=
  (trimStart (dropUnits word.stop line)).head? == some '('

/-- Whether a neighbouring character continues an identifier. -/
def continuesIdentifier (neighbour : Option Char) : Bool :=
  neighbour.any isIdentifier

/-- The occurrences of a word in the rest of a text. The first argument counts the characters that
the match before still covers, then come the character before the rest and its byte offset. -/
def occurrencesFrom (word : List Char) : Nat → Option Char → Nat → List Char → List ByteSpan
  | _, _, _, [] => []
  | covered + 1, _, offset, c :: cs =>
    occurrencesFrom word covered (some c) (offset + c.utf8Size) cs
  | 0, before, offset, c :: cs =>
    if word.isPrefixOf (c :: cs) then
      let later := occurrencesFrom word (word.length - 1) (some c) (offset + c.utf8Size) cs
      if continuesIdentifier before || continuesIdentifier ((c :: cs).drop word.length).head? then
        later
      else
        ⟨offset, offset + byteLength word⟩ :: later
    else
      occurrencesFrom word 0 (some c) (offset + c.utf8Size) cs

/-- The byte ranges of the occurrences of a word. The empty word has none. -/
def occurrences (text word : List Char) : List ByteSpan :=
  if word.isEmpty then [] else occurrencesFrom word 0 none 0 text

end UtsInsight.Text
