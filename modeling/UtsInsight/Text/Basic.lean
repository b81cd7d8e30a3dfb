import UtsInsight.Text.Character

/-!
# Texts as lists of characters

A document, a line or a fragment is a list of characters. Offsets count the bytes of its UTF-8
form and columns count UTF-16 units, and both are functions on the list, so a position in a text is
always a split of that text into two lists. Cutting at an offset that falls inside a character is
answered by `none` where the caller asked for an exact cut, and by the character boundary below it
where it asked for a clamped one.
-/

namespace UtsInsight.Text

/-- Bytes of the UTF-8 form. -/
def byteLength : List Char → Nat
  | [] => 0
  | c :: cs => c.utf8Size + byteLength cs

/-- UTF-16 units of one character. -/
def unitSize (c : Char) : Nat :=
  if c.toNat < 0x10000 then 1 else 2

/-- UTF-16 units of a text. -/
def unitLength : List Char → Nat
  | [] => 0
  | c :: cs => unitSize c + unitLength cs

theorem byteLength_append (a b : List Char) :
    byteLength (a ++ b) = byteLength a + byteLength b := by
  induction a with
  | nil => simp [byteLength]
  | cons c a ih => simp [byteLength, ih, Nat.add_assoc]

theorem unitLength_append (a b : List Char) :
    unitLength (a ++ b) = unitLength a + unitLength b := by
  induction a with
  | nil => simp [unitLength]
  | cons c a ih => simp [unitLength, ih, Nat.add_assoc]

/-! ## Cutting at bytes and units -/

/-- The longest beginning of whole characters with at most `n` bytes. -/
def bytePrefix : Nat → List Char → List Char
  | _, [] => []
  | n, c :: cs => if c.utf8Size ≤ n then c :: bytePrefix (n - c.utf8Size) cs else []

/-- The first `n` bytes, if a character ends there. -/
def takeBytes? : Nat → List Char → Option (List Char)
  | 0, _ => some []
  | _ + 1, [] => none
  | n + 1, c :: cs =>
    if c.utf8Size ≤ n + 1 then (takeBytes? (n + 1 - c.utf8Size) cs).map (c :: ·) else none

/-- What follows the first `n` bytes, if a character ends there. -/
def dropBytes? : Nat → List Char → Option (List Char)
  | 0, cs => some cs
  | _ + 1, [] => none
  | n + 1, c :: cs => if c.utf8Size ≤ n + 1 then dropBytes? (n + 1 - c.utf8Size) cs else none

/-- The characters between two byte offsets, if both are character boundaries in order. -/
def slice? (text : List Char) (start stop : Nat) : Option (List Char) :=
  if start ≤ stop then (dropBytes? start text).bind (takeBytes? (stop - start)) else none

/-- The characters that begin before UTF-16 column `n`. A column inside a surrogate pair takes the
whole character. -/
def takeUnits : Nat → List Char → List Char
  | 0, _ => []
  | _ + 1, [] => []
  | n + 1, c :: cs => c :: takeUnits (n + 1 - unitSize c) cs

/-- The characters that begin at or after UTF-16 column `n`. -/
def dropUnits : Nat → List Char → List Char
  | 0, cs => cs
  | _ + 1, [] => []
  | n + 1, c :: cs => dropUnits (n + 1 - unitSize c) cs

theorem takeUnits_append_dropUnits (n : Nat) (cs : List Char) :
    takeUnits n cs ++ dropUnits n cs = cs := by
  induction cs generalizing n with
  | nil => cases n <;> rfl
  | cons c cs ih =>
    cases n with
    | zero => rfl
    | succ n => simp [takeUnits, dropUnits, ih]

/-! ## Blanks -/

def trimStart (cs : List Char) : List Char :=
  cs.dropWhile isBlank

def trimEnd (cs : List Char) : List Char :=
  (cs.reverse.dropWhile isBlank).reverse

def trim (cs : List Char) : List Char :=
  trimEnd (trimStart cs)

/-- The maximal runs of characters that are not blank. -/
def words : List Char → List (List Char)
  | [] => []
  | c :: cs =>
    if isBlank c then words cs
    else match cs, words cs with
      | d :: _, w :: ws => if isBlank d then [c] :: w :: ws else (c :: w) :: ws
      | _, ws => [c] :: ws

/-- The words of a text with one blank between them. -/
def collapse (cs : List Char) : List Char :=
  [' '].intercalate (words cs)

/-! ## Lines -/

/-- The lines of a text: only a line feed ends one, and it belongs to none. -/
def lines : List Char → List (List Char)
  | [] => [[]]
  | c :: cs =>
    if c = '\n' then [] :: lines cs
    else match lines cs with
      | [] => [[c]]
      | l :: ls => (c :: l) :: ls

theorem lines_ne_nil (cs : List Char) : lines cs ≠ [] := by
  cases cs with
  | nil => simp [lines]
  | cons c cs => simp only [lines]; split <;> (try split) <;> simp

/-- A line without the carriage return that may end it. -/
def dropReturn (line : List Char) : List Char :=
  if line.getLast? = some '\r' then line.dropLast else line

/-- The lines of a text as an analysis sees them, without their terminators. -/
def contentLines (text : List Char) : List (List Char) :=
  (lines text).map dropReturn

/-- Line `n` without its terminator; a line past the end is empty. -/
def lineAt (text : List Char) (n : Nat) : List Char :=
  (contentLines text)[n]?.getD []

/-! ## Searching -/

/-- Whether `part` occurs in `text`. -/
def contains (part : List Char) : List Char → Bool
  | [] => part.isEmpty
  | c :: cs => part.isPrefixOf (c :: cs) || contains part cs

/-- What follows `part` at the beginning of `text`. -/
def dropPrefix? (part text : List Char) : Option (List Char) :=
  if part.isPrefixOf text then some (text.drop part.length) else none

theorem append_of_dropPrefix? {part text rest : List Char} (h : dropPrefix? part text = some rest) :
    text = part ++ rest := by
  unfold dropPrefix? at h
  split at h
  next hprefix =>
    obtain ⟨tail, rfl⟩ := List.isPrefixOf_iff_prefix.mp hprefix
    rw [← Option.some.inj h, List.drop_left]
  next => cases h

end UtsInsight.Text
