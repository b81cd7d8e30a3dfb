import UtsInsight.Proofs.Text.Canonical

/-!
# Cuts and counts that can fail

A text that is stored as bytes is cut at byte offsets, and the cut fails unless both are character
boundaries of the text, in order. So do a difference below zero, an index past the end of a table
and a count that does not fit 32 bits. The conversions of columns are written here with such steps,
each as a walk over the bytes of a line. None of them fails, and they give what the conversions on
lists of characters give.
-/
namespace UtsInsight

open Text

/-- What can go wrong in a step. -/
inductive Fault where
  /-- The ends of a cut are not character boundaries in order. -/
  | cut
  /-- An index past the end of a table. -/
  | index
  /-- A difference below zero. -/
  | difference
  /-- A count that does not fit 32 bits. -/
  | overflow
  deriving DecidableEq, Repr

/-- The result of steps that can go wrong. -/
abbrev Checked := Except Fault

namespace Checked

/-! ### Steps -/

/-- The text between two byte offsets. -/
def cut (text : List Char) (start stop : Nat) : Checked (List Char) :=
  match slice? text start stop with
  | some part => .ok part
  | none => .error .cut

def item {α : Type} (items : List α) (i : Nat) : Checked α :=
  match items[i]? with
  | some a => .ok a
  | none => .error .index

def minus (m n : Nat) : Checked Nat :=
  if n ≤ m then .ok (m - n) else .error .difference

/-- 2 ^ 32, the first number that does not fit into 32 bits. -/
def countLimit : Nat :=
  0x100000000

def plus (m n : Nat) : Checked Nat :=
  if m + n < countLimit then .ok (m + n) else .error .overflow

@[simp]
theorem ok_bind {α β : Type} (a : α) (f : α → Checked β) : (Except.ok a >>= f) = f a :=
  rfl

theorem item_ok {α : Type} {items : List α} {i : Nat} {a : α} (h : items[i]? = some a) :
    item items i = .ok a := by
  rw [item, h]

theorem minus_ok (m n : Nat) : minus (m + n) m = .ok n := by
  rw [minus, if_pos (Nat.le_add_right m n), Nat.add_sub_cancel_left]

theorem minus_one_ok {m n : Nat} : minus m 1 = .ok n ↔ m = n + 1 := by
  unfold minus
  split_ifs with h
  · rw [Except.ok.injEq]
    omega
  · exact iff_of_false (fun h => by cases h) (by omega)

theorem plus_ok {m n : Nat} (h : m + n < countLimit) : plus m n = .ok (m + n) :=
  if_pos h

/-! ### Cuts at boundaries -/

theorem takeBytes?_append (a b : List Char) : takeBytes? (byteLength a) (a ++ b) = some a := by
  induction a with
  | nil => rw [byteLength, takeBytes?]
  | cons c a ih =>
    obtain ⟨k, hk⟩ := Nat.exists_eq_add_one.mpr (Nat.add_pos_left c.utf8Size_pos (byteLength a))
    have hrest : k + 1 - c.utf8Size = byteLength a := by omega
    rw [byteLength, hk, List.cons_append, takeBytes?, if_pos (by omega), hrest, ih, Option.map_some]

theorem dropBytes?_append (a b : List Char) : dropBytes? (byteLength a) (a ++ b) = some b := by
  induction a with
  | nil => rw [byteLength, dropBytes?, List.nil_append]
  | cons c a ih =>
    obtain ⟨k, hk⟩ := Nat.exists_eq_add_one.mpr (Nat.add_pos_left c.utf8Size_pos (byteLength a))
    have hrest : k + 1 - c.utf8Size = byteLength a := by omega
    rw [byteLength, hk, List.cons_append, dropBytes?, if_pos (by omega), hrest, ih]

theorem exists_of_takeBytes? {n : Nat} {text part : List Char} (h : takeBytes? n text = some part) :
    ∃ b, text = part ++ b ∧ byteLength part = n := by
  fun_induction takeBytes? n text generalizing part with
  | case1 text =>
    obtain rfl := Option.some.inj h
    exact ⟨text, rfl, rfl⟩
  | case2 => cases h
  | case3 n c cs hsize ih =>
    obtain ⟨rest, hrest, rfl⟩ := Option.map_eq_some_iff.mp h
    obtain ⟨b, rfl, hlength⟩ := ih hrest
    exact ⟨b, rfl, by rw [byteLength, hlength, Nat.add_sub_of_le hsize]⟩
  | case4 => cases h

theorem exists_of_dropBytes? {n : Nat} {text rest : List Char} (h : dropBytes? n text = some rest) :
    ∃ a, text = a ++ rest ∧ byteLength a = n := by
  fun_induction dropBytes? n text with
  | case1 text =>
    obtain rfl := Option.some.inj h
    exact ⟨[], rfl, rfl⟩
  | case2 => cases h
  | case3 n c cs hsize ih =>
    obtain ⟨a, rfl, hlength⟩ := ih h
    exact ⟨c :: a, rfl, by rw [byteLength, hlength, Nat.add_sub_of_le hsize]⟩
  | case4 => cases h

/-- A cut gives a part of the text exactly if it is made at both ends of the part. -/
theorem cut_eq_ok_iff {text part : List Char} {start stop : Nat} :
    cut text start stop = .ok part ↔ ∃ a b, text = a ++ (part ++ b) ∧ start = byteLength a ∧
      stop = byteLength a + byteLength part := by
  constructor
  · intro h
    unfold cut slice? at h
    split at h
    next hslice =>
      split at hslice
      next hle =>
        obtain ⟨rest, hdrop, htake⟩ := Option.bind_eq_some_iff.mp hslice
        obtain ⟨a, rfl, rfl⟩ := exists_of_dropBytes? hdrop
        obtain ⟨b, rfl, hlength⟩ := exists_of_takeBytes? htake
        rw [← Except.ok.inj h]
        exact ⟨a, b, rfl, rfl, by omega⟩
      next => cases hslice
    next => cases h
  · rintro ⟨a, b, rfl, rfl, rfl⟩
    have hslice : slice? (a ++ (part ++ b)) (byteLength a) (byteLength a + byteLength part) =
        some part := by
      rw [slice?, if_pos (Nat.le_add_right _ _), dropBytes?_append, Option.bind_some,
        Nat.add_sub_cancel_left, takeBytes?_append]
    rw [cut, hslice]

-- inside a character
example : cut ['é'] 0 1 = .error .cut := rfl

theorem cut_start {a text : List Char} (h : a <+: text) : cut text 0 (byteLength a) = .ok a := by
  obtain ⟨b, rfl⟩ := h
  exact cut_eq_ok_iff.mpr ⟨[], b, rfl, rfl, (Nat.zero_add _).symm⟩

theorem cut_rest (a b : List Char) : cut (a ++ b) (byteLength a) (byteLength (a ++ b)) = .ok b :=
  cut_eq_ok_iff.mpr ⟨a, [], by rw [List.append_nil], rfl, byteLength_append a b⟩

/-- Whether a character begins or ends at an offset. -/
def isBoundary (text : List Char) (offset : Nat) : Bool :=
  (dropBytes? offset text).isSome

/-- The last character boundary at or below an offset. -/
def floorBoundary (text : List Char) : Nat → Nat
  | 0 => 0
  | offset + 1 => if isBoundary text (offset + 1) then offset + 1 else floorBoundary text offset

theorem isBoundary_iff {text : List Char} {offset : Nat} :
    isBoundary text offset = true ↔ ∃ a b, text = a ++ b ∧ byteLength a = offset := by
  rw [isBoundary, Option.isSome_iff_exists]
  constructor
  · rintro ⟨b, h⟩
    obtain ⟨a, htext, hlength⟩ := exists_of_dropBytes? h
    exact ⟨a, b, htext, hlength⟩
  · rintro ⟨a, b, rfl, rfl⟩
    exact ⟨b, dropBytes?_append a b⟩

theorem byteLength_bytePrefix_le (n : Nat) (cs : List Char) :
    byteLength (bytePrefix n cs) ≤ n := by
  induction cs generalizing n with
  | nil => exact Nat.zero_le n
  | cons c cs ih =>
    rw [bytePrefix]
    split_ifs with hsize
    · have hrest := ih (n - c.utf8Size)
      rw [byteLength]
      omega
    · exact Nat.zero_le n

theorem bytePrefix_of_isPrefix {a text : List Char} (h : a <+: text) :
    bytePrefix (byteLength a) text = a := by
  obtain ⟨b, rfl⟩ := h
  exact bytePrefix_byteLength a b

theorem bytePrefix_eq_self {n : Nat} {cs : List Char} (h : byteLength cs ≤ n) :
    bytePrefix n cs = cs := by
  have hmono := bytePrefix_mono h cs
  rw [bytePrefix_of_isPrefix (List.prefix_refl cs)] at hmono
  exact (bytePrefix_isPrefix n cs).eq_of_length_le hmono.length_le

theorem floorBoundary_eq (text : List Char) (offset : Nat) :
    floorBoundary text offset = byteLength (bytePrefix offset text) := by
  induction offset with
  | zero => exact (Nat.le_zero.mp (byteLength_bytePrefix_le 0 text)).symm
  | succ offset ih =>
    rw [floorBoundary]
    split_ifs with hboundary
    · obtain ⟨a, b, rfl, hlength⟩ := isBoundary_iff.mp hboundary
      rw [← hlength, bytePrefix_byteLength]
    · obtain ⟨b, hb⟩ := bytePrefix_isPrefix (offset + 1) text
      have hle := byteLength_bytePrefix_le (offset + 1) text
      have hne : byteLength (bytePrefix (offset + 1) text) ≠ offset + 1 := fun heq =>
        hboundary (isBoundary_iff.mpr ⟨_, b, hb.symm, heq⟩)
      -- what ends at no boundary already ends one byte earlier
      have hmono : bytePrefix (offset + 1) text <+: bytePrefix offset text := by
        have h := bytePrefix_mono (Nat.le_of_lt_succ (Nat.lt_of_le_of_ne hle hne)) text
        rwa [bytePrefix_of_isPrefix (bytePrefix_isPrefix _ text)] at h
      rw [ih, hmono.eq_of_length_le (bytePrefix_mono (Nat.le_succ offset) text).length_le]

/-- Clamping an offset to the text changes nothing. -/
theorem floorBoundary_min (text : List Char) (offset : Nat) :
    floorBoundary text (min offset (byteLength text)) = byteLength (bytePrefix offset text) := by
  rw [floorBoundary_eq]
  rcases Nat.le_total offset (byteLength text) with hle | hle
  · rw [Nat.min_eq_left hle]
  · rw [Nat.min_eq_right hle, bytePrefix_eq_self (Nat.le_refl _), bytePrefix_eq_self hle]

/-! ### Columns of a line -/

/-- The number of UTF-16 units of a text. -/
def units (text : List Char) : Checked Nat :=
  text.foldlM (fun n c => plus n (unitSize c)) 0

/-- The column of a byte of a line. -/
def columnOfByte (line : List Char) (byte : Nat) : Checked Nat := do
  let before ← cut line 0 (floorBoundary line (min byte (byteLength line)))
  units before

/-- The byte at which the walk over a line reaches a column, from a byte at which `units` units are
passed. -/
def byteOfColumnFrom (column : Nat) : Nat → Nat → List Char → Checked Nat
  | _, byte, [] => .ok byte
  | units, byte, c :: cs =>
    if column ≤ units then .ok byte
    else do
      let units ← plus units (unitSize c)
      byteOfColumnFrom column units (byte + c.utf8Size) cs

def byteOfColumn (line : List Char) (column : Nat) : Checked Nat :=
  byteOfColumnFrom column 0 0 line

/-- The part of a line before a column. -/
def before (line : List Char) (column : Nat) : Checked (List Char) := do
  let stop ← byteOfColumn line column
  cut line 0 stop

section

variable {line : List Char}

theorem byteLength_le_of_isPrefix {a text : List Char} (h : a <+: text) :
    byteLength a ≤ byteLength text := by
  obtain ⟨b, rfl⟩ := h
  rw [byteLength_append]
  exact Nat.le_add_right _ _

theorem foldlM_units {n : Nat} {cs : List Char} (h : n + byteLength cs < countLimit) :
    cs.foldlM (fun n c => plus n (unitSize c)) n = .ok (n + unitLength cs) := by
  induction cs generalizing n with
  | nil => rfl
  | cons c cs ih =>
    have hsize := unitSize_le_utf8Size c
    rw [byteLength] at h
    rw [List.foldlM_cons, plus_ok (by omega), ok_bind, ih (by omega), unitLength, Nat.add_assoc]

theorem units_ok (h : byteLength line < countLimit) : units line = .ok (unitLength line) := by
  rw [units, foldlM_units (by omega), Nat.zero_add]

theorem columnOfByte_ok (h : byteLength line < countLimit) (byte : Nat) :
    columnOfByte line byte = .ok (Text.columnOfByte line byte) := by
  have hle := byteLength_le_of_isPrefix (bytePrefix_isPrefix byte line)
  rw [columnOfByte, floorBoundary_min, cut_start (bytePrefix_isPrefix byte line), ok_bind,
    units_ok (Nat.lt_of_le_of_lt hle h), Text.columnOfByte]

theorem columnOfByte_of_isPrefix {a : List Char} (h : byteLength line < countLimit) (ha : a <+: line) :
    columnOfByte line (byteLength a) = .ok (unitLength a) := by
  rw [columnOfByte_ok h, Text.columnOfByte, bytePrefix_of_isPrefix ha]

/-- A part of a line is cut out at its ends, and the columns of its ends are counted. -/
theorem part_ok {a part b : List Char} (h : byteLength line < countLimit)
    (hline : line = a ++ (part ++ b)) :
    cut line (byteLength a) (byteLength a + byteLength part) = .ok part ∧
      columnOfByte line (byteLength a) = .ok (unitLength a) ∧
      columnOfByte line (byteLength a + byteLength part) =
        .ok (unitLength a + unitLength part) := by
  refine ⟨cut_eq_ok_iff.mpr ⟨a, b, hline, rfl, rfl⟩, columnOfByte_of_isPrefix h ⟨_, hline.symm⟩, ?_⟩
  rw [← byteLength_append, ← unitLength_append]
  refine columnOfByte_of_isPrefix h ⟨b, ?_⟩
  rw [List.append_assoc, ← hline]

theorem byteOfColumnFrom_ok {column units byte : Nat} {cs : List Char}
    (h : units + byteLength cs < countLimit) :
    byteOfColumnFrom column units byte cs =
      .ok (byte + byteLength (takeUnits (column - units) cs)) := by
  induction cs generalizing units byte with
  | nil =>
    rw [byteOfColumnFrom]
    cases column - units <;> rfl
  | cons c cs ih =>
    have hsize := unitSize_le_utf8Size c
    rw [byteLength] at h
    rw [byteOfColumnFrom]
    split_ifs with hcolumn
    · rw [Nat.sub_eq_zero_of_le hcolumn, takeUnits_zero]
      rfl
    · obtain ⟨k, hk⟩ := Nat.exists_eq_add_one.mpr (Nat.sub_pos_of_lt (Nat.lt_of_not_le hcolumn))
      have hrest : column - (units + unitSize c) = k + 1 - unitSize c := by omega
      rw [plus_ok (by omega), ok_bind, ih (by omega), hk, takeUnits, byteLength, hrest,
        Nat.add_assoc]

theorem byteOfColumn_ok (h : byteLength line < countLimit) (column : Nat) :
    byteOfColumn line column = .ok (Text.byteOfColumn line column) := by
  rw [byteOfColumn, byteOfColumnFrom_ok (by omega), Nat.zero_add, Nat.sub_zero, Text.byteOfColumn]

/-- A line is cut at a column into what begins before it and the rest. -/
theorem cut_beforeColumn (line : List Char) (column : Nat) :
    cut line 0 (Text.byteOfColumn line column) = .ok (takeUnits column line) :=
  cut_start (takeUnits_isPrefix column line)

theorem cut_behindColumn (line : List Char) (column : Nat) :
    cut line (Text.byteOfColumn line column) (byteLength line) = .ok (dropUnits column line) := by
  have hcut := cut_rest (takeUnits column line) (dropUnits column line)
  rwa [takeUnits_append_dropUnits] at hcut

theorem before_ok (h : byteLength line < countLimit) (column : Nat) :
    before line column = .ok (takeUnits column line) := by
  rw [before, byteOfColumn_ok h, ok_bind, cut_beforeColumn]

end

end Checked

end UtsInsight
