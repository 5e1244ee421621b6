/-
# `Wshttp.BufferPrinter` — the text that `buffer_printer` makes of a buffer

    Buffer[34/0x22 bytes]:
    0000  00070e15 1c232a31 ... d2d9e0e7  ┃∅····#*1...····┃
    0020  4142                            ┃AB┃

A line has an offset, 32 cells in groups of four, and a gutter; cells past the end of the
buffer are blank.  The strings are UTF-8, and a text is a list of characters here.

The reader below knows of the text only: where its lines, spaces and bars are.

**Proved here.**  Whatever the buffer, the reader finds one line for each started block of
32 bytes with the index of its first byte, a cell for each index and a symbol for each
byte, and the cells are the buffer; so different buffers print differently
(`toString_faithful`).
-/
import Wshttp.Lib.Text
import Wshttp.Types

namespace Wshttp

namespace BufferPrinter

open Text

/-! ## What the code does -/

/-- The symbol of a byte in the gutter.  A `char` from `0x80` on is below `0x20` or above
`0x7e`, whether it is signed or not. -/
def symbol (c : UInt8) : Char :=
  if c = 0x00 then '∅'
  else if c < 0x20 ∨ 0x7e < c then '·'
  else Char.ofNat c.toNat

/-- `Buffer[{}/{:#x} bytes]:`. -/
def header (size : Nat) : List Char :=
  "Buffer[".toList ++ Nat.toDigits 10 size ++ "/0x".toList ++ padHex 0 size ++ " bytes]:".toList

def stop (buf : Bytes) (i : Nat) : Nat := min buf.length (i + 32)

/-- What is written for `k = i + j`. -/
def cellChars (buf : Bytes) (i j : Nat) : List Char :=
  if stop buf i ≤ i + j then [' ', ' '] else padHex 2 (buf.getD (i + j) 0).toNat

/-- The body of the loop over `j`. -/
def cell (buf : Bytes) (i j : Nat) : List Char :=
  (if j % 4 = 0 then [' '] else []) ++ cellChars buf i j

/-- The second loop, from `i` to `stop`. -/
def gutter (buf : Bytes) (i : Nat) : List Char :=
  (List.range' i (stop buf i - i)).map fun j => symbol (buf.getD j 0)

/-- A line, without the newline it begins with. -/
def line (buf : Bytes) (i : Nat) : List Char :=
  padHex 4 i ++ ' ' :: ((List.range 32).flatMap (cell buf i)
    ++ ("  ┃".toList ++ (gutter buf i ++ ['┃'])))

/-- The loop over `i`. -/
def linesFrom (buf : Bytes) (i : Nat) : List Char :=
  if i < buf.length then '\n' :: line buf i ++ linesFrom buf (i + 32) else []
termination_by buf.length - i

/-- `buffer_printer::to_string`. -/
def toString (buf : Bytes) : String := String.ofList (header buf.length ++ linesFrom buf 0)

/-! ## Reading the text -/

/-- The lines after the header. -/
def linesOf (text : String) : List (List Char) := (text.toList.splitOn '\n').tail

def offsetOf (line : List Char) : Option Nat := parseHex (line.takeWhile (· ≠ ' '))

/-- What follows the offset and a space. -/
def columns (line : List Char) : List Char := (line.dropWhile (· ≠ ' ')).tail

/-- The two characters at the place of a cell; every group begins with a space. -/
def cellOf (line : List Char) (j : Nat) : List Char :=
  ((columns line).drop (2 * j + j / 4 + 1)).take 2

def byteOf (cell : List Char) : Option UInt8 := (parseHex cell).map UInt8.ofNat

/-- The text between the bars. -/
def gutterOf (line : List Char) : List Char := ((columns line).drop 75).takeWhile (· ≠ '┃')

/-- The bytes in the cells, line by line. -/
def decode (text : String) : Bytes :=
  (linesOf text).flatMap fun line => (List.range 32).filterMap fun j => byteOf (cellOf line j)

/-- The line that begins at the index `i` of the buffer. -/
structure ShowsBlock (buf : Bytes) (i : Nat) (line : List Char) : Prop where
  offset : offsetOf line = some i
  /-- each cell is there, with the byte of its index or blank -/
  cells : ∀ j < 32, (cellOf line j).length = 2 ∧ byteOf (cellOf line j) = buf[i + j]?
  blank : ∀ j < 32, cellOf line j = [' ', ' '] ↔ buf.length ≤ i + j
  gutter : gutterOf line = ((buf.drop i).take 32).map symbol

structure ShowsBuffer (buf : Bytes) (text : String) : Prop where
  lines : (linesOf text).length = (buf.length + 31) / 32
  blocks : ∀ k line, (linesOf text)[k]? = some line → ShowsBlock buf (32 * k) line
  decodes : decode text = buf

/-! ## A line -/

section
variable {buf : Bytes} {i j : Nat}

theorem length_padHex_byte (b : UInt8) : (padHex 2 b.toNat).length = 2 :=
  length_padHex (by decide) b.toNat_lt

theorem length_cellChars (buf : Bytes) (i j : Nat) : (cellChars buf i j).length = 2 := by
  rw [cellChars]
  split
  · rfl
  · exact length_padHex_byte _

/-- The spaces between the groups make a group of four one column wider. -/
theorem length_cells (buf : Bytes) (i j : Nat) :
    ((List.range j).flatMap (cell buf i)).length = 2 * j + (j + 3) / 4 := by
  induction j with
  | zero => rfl
  | succ j ih =>
      rw [List.range_succ, List.flatMap_append, List.length_append, ih, List.flatMap_singleton,
        cell, List.length_append, length_cellChars]
      split
      · rw [List.length_singleton]
        omega
      · rw [List.length_nil]
        omega

/-- A number has no space in it. -/
theorem ne_space_of_mem_padHex {c : Char} {width n : Nat} (h : c ∈ padHex width n) : c ≠ ' ' :=
  ne_of_mem_padHex h (by decide)

theorem offsetOf_line (buf : Bytes) (i : Nat) : offsetOf (line buf i) = some i := by
  rw [offsetOf, line, takeWhile_word fun c hc => ne_space_of_mem_padHex hc, parseHex_padHex]

theorem columns_line (buf : Bytes) (i : Nat) : columns (line buf i)
    = (List.range 32).flatMap (cell buf i) ++ ("  ┃".toList ++ (gutter buf i ++ ['┃'])) := by
  rw [columns, line, dropWhile_word fun c hc => ne_space_of_mem_padHex hc]
  rfl

theorem cellOf_line (buf : Bytes) (i : Nat) (hj : j < 32) :
    cellOf (line buf i) j = cellChars buf i j := by
  obtain ⟨more, hmore⟩ := drop_row (cell buf i) hj ("  ┃".toList ++ (gutter buf i ++ ['┃']))
  rw [length_cells] at hmore
  have hdrop : (columns (line buf i)).drop (2 * j + j / 4 + 1) = cellChars buf i j ++ more := by
    rw [columns_line]
    by_cases hgroup : j % 4 = 0
    · -- the space before the group is dropped, too
      have hstart : 2 * j + j / 4 + 1 = 2 * j + (j + 3) / 4 + 1 := by omega
      rw [hstart, ← List.drop_drop, hmore, cell, if_pos hgroup]
      rfl
    · have hstart : 2 * j + j / 4 + 1 = 2 * j + (j + 3) / 4 := by omega
      rw [hstart, hmore, cell, if_neg hgroup]
      rfl
  rw [cellOf, hdrop]
  exact List.take_left' (length_cellChars buf i j)

theorem stop_le_iff (hj : j < 32) : stop buf i ≤ i + j ↔ buf.length ≤ i + j := by
  rw [stop]
  omega

theorem byteOf_cellChars (buf : Bytes) (i : Nat) (hj : j < 32) :
    byteOf (cellChars buf i j) = buf[i + j]? := by
  rw [cellChars]
  split
  · next hpast =>
    rw [List.getElem?_eq_none ((stop_le_iff hj).mp hpast)]
    rfl
  · next hin =>
    have hlt : i + j < buf.length := Nat.not_le.mp fun h => hin ((stop_le_iff hj).mpr h)
    rw [byteOf, parseHex_padHex, Option.map_some, UInt8.ofNat_toNat, List.getD_eq_getElem?_getD,
      List.getElem?_eq_getElem hlt, Option.getD_some]

theorem cellChars_blank_iff (buf : Bytes) (i : Nat) (hj : j < 32) :
    cellChars buf i j = [' ', ' '] ↔ buf.length ≤ i + j := by
  rw [cellChars, ← stop_le_iff hj]
  constructor
  · intro h
    by_contra hin
    rw [if_neg hin] at h
    have hspace : ' ' ∈ padHex 2 (buf.getD (i + j) 0).toNat := by
      rw [h]
      exact List.mem_cons_self
    exact ne_space_of_mem_padHex hspace rfl
  · exact fun h => if_pos h

/-- The symbols are apart from what a line is taken to pieces by. -/
theorem symbol_ne (b : UInt8) : symbol b ≠ '┃' ∧ symbol b ≠ '\n' := by
  rw [symbol]
  split
  · decide
  split
  · decide
  next hprint =>
  rw [not_or, UInt8.not_lt, UInt8.not_lt] at hprint
  have hlow : 0x20 ≤ b.toNat := hprint.1
  have hhigh : b.toNat < 0x7f := Nat.lt_succ_of_le hprint.2
  have hall : ∀ n : Fin 0x7f, 0x20 ≤ n.val → Char.ofNat n.val ≠ '┃' ∧ Char.ofNat n.val ≠ '\n' := by
    decide
  exact hall ⟨b.toNat, hhigh⟩ hlow

theorem gutter_eq (buf : Bytes) (i : Nat) :
    gutter buf i = ((buf.drop i).take 32).map symbol := by
  refine List.ext_getElem ?_ fun k hk hk' => ?_
  · simp [gutter, stop]
    omega
  · have hlt : i + k < buf.length := by
      simp [gutter, stop] at hk
      omega
    simp [gutter, hlt]

theorem gutterOf_line (buf : Bytes) (i : Nat) :
    gutterOf (line buf i) = ((buf.drop i).take 32).map symbol := by
  have hwidth : 75 = ((List.range 32).flatMap (cell buf i)).length + "  ┃".toList.length := by
    rw [length_cells]
    rfl
  rw [gutterOf, columns_line, hwidth, ← List.drop_drop, List.drop_left, List.drop_left,
    ← gutter_eq]
  refine takeWhile_word fun c hc => ?_
  obtain ⟨k, -, rfl⟩ := List.mem_map.mp hc
  exact (symbol_ne _).1

theorem line_showsBlock (buf : Bytes) (i : Nat) : ShowsBlock buf i (line buf i) where
  offset := offsetOf_line buf i
  cells := by
    intro j hj
    rw [cellOf_line buf i hj]
    exact ⟨length_cellChars buf i j, byteOf_cellChars buf i hj⟩
  blank := by
    intro j hj
    rw [cellOf_line buf i hj]
    exact cellChars_blank_iff buf i hj
  gutter := gutterOf_line buf i

/-! ## The lines -/

/-- The loop over `i` makes a line for each started block. -/
theorem linesFrom_eq (buf : Bytes) (i : Nat) : linesFrom buf i
    = (List.range' i ((buf.length - i + 31) / 32) 32).flatMap fun i => '\n' :: line buf i := by
  induction i using linesFrom.induct buf with
  | case1 i hlt ih =>
      have hblocks : (buf.length - i + 31) / 32 = (buf.length - (i + 32) + 31) / 32 + 1 := by omega
      rw [linesFrom, if_pos hlt, ih, hblocks, List.range'_succ, List.flatMap_cons]
  | case2 i hge =>
      have hnone : (buf.length - i + 31) / 32 = 0 := by omega
      rw [linesFrom, if_neg hge, hnone]
      rfl

theorem newline_notMem_padHex (width n : Nat) : '\n' ∉ padHex width n :=
  fun h => ne_of_mem_padHex h (by decide) rfl

theorem newline_notMem_header (size : Nat) : '\n' ∉ header size := by
  have hdigits : '\n' ∉ Nat.toDigits 10 size := by
    intro h
    have hdigit : '\n'.isDigit = true :=
      Nat.isDigit_of_mem_toDigits (b := 10) (by decide) (by decide) h
    exact absurd hdigit (by decide)
  unfold header
  simp only [List.mem_append, not_or]
  exact ⟨⟨⟨⟨by decide, hdigits⟩, by decide⟩, newline_notMem_padHex 0 size⟩, by decide⟩

theorem newline_notMem_cell (buf : Bytes) (i j : Nat) : '\n' ∉ cell buf i j := by
  rw [cell, List.mem_append, not_or]
  constructor
  · split
    · decide
    · exact List.not_mem_nil
  · rw [cellChars]
    split
    · decide
    · exact newline_notMem_padHex _ _

theorem newline_notMem_gutter (buf : Bytes) (i : Nat) : '\n' ∉ gutter buf i := by
  intro h
  obtain ⟨k, -, hk⟩ := List.mem_map.mp h
  exact (symbol_ne _).2 hk

theorem newline_notMem_line (buf : Bytes) (i : Nat) : '\n' ∉ line buf i := by
  have hcells : '\n' ∉ (List.range 32).flatMap (cell buf i) := by
    intro h
    obtain ⟨j, -, hj⟩ := List.mem_flatMap.mp h
    exact newline_notMem_cell buf i j hj
  simp [line, newline_notMem_padHex, hcells, newline_notMem_gutter]

theorem linesOf_toString (buf : Bytes) :
    linesOf (toString buf) = (List.range' 0 ((buf.length + 31) / 32) 32).map (line buf) := by
  have hlines : linesFrom buf 0
      = ((List.range' 0 ((buf.length + 31) / 32) 32).map (line buf)).flatMap ('\n' :: ·) := by
    rw [linesFrom_eq, List.flatMap_map]
    rfl
  rw [linesOf, toString, String.toList_ofList, hlines,
    splitOn_lines (newline_notMem_header buf.length)]
  · rfl
  · intro l hl
    obtain ⟨i, -, rfl⟩ := List.mem_map.mp hl
    exact newline_notMem_line buf i

/-- The cells of a line hold its block, and the blocks are the buffer. -/
theorem decode_toString (buf : Bytes) : decode (toString buf) = buf := by
  have hline (i : Nat) : (List.range 32).filterMap (fun j => byteOf (cellOf (line buf i) j))
      = (buf.drop i).take 32 := by
    refine filterMap_getElem? fun j hj => ?_
    rw [cellOf_line buf i hj, byteOf_cellChars buf i hj, List.getElem?_drop]
  rw [decode, linesOf_toString, List.flatMap_map]
  simp only [hline]
  rw [flatMap_blocks, List.drop_zero]
  refine List.take_of_length_le ?_
  omega

theorem toString_showsBuffer (buf : Bytes) : ShowsBuffer buf (toString buf) where
  lines := by
    rw [linesOf_toString, List.length_map, List.length_range']
  blocks := by
    intro k l hl
    rw [linesOf_toString, List.getElem?_map, Option.map_eq_some_iff] at hl
    obtain ⟨i, hi, rfl⟩ := hl
    obtain ⟨hk, hstart⟩ := List.getElem?_eq_some_iff.mp hi
    rw [List.getElem_range', Nat.zero_add] at hstart
    rw [hstart]
    exact line_showsBlock buf i
  decodes := decode_toString buf

/-- **What is printed shows the buffer, and no two buffers print alike.** -/
theorem toString_faithful :
    (∀ buf, ShowsBuffer buf (toString buf)) ∧
    ∀ buf buf', toString buf = toString buf' → buf = buf' := by
  refine ⟨toString_showsBuffer, fun buf buf' h => ?_⟩
  rw [← decode_toString buf, h, decode_toString]

end

end BufferPrinter

end Wshttp
