/-
# `Wshttp.Format` — the logger, and the time it puts before each line

    +4.017s    +12m04.017s    +3h12m04.017s

`startup_elapsed_flag` prints the time since the start of the program in one of three
formats.  Durations are in nanoseconds, the period of `steady_clock`.

**Proved here.**  A reader that knows the separators only gets back the whole milliseconds
of the elapsed time, however long it is; so two lines carry the same time exactly if they
were written in the same millisecond (`elapsed_reads`).
-/
import Wshttp.Lib.Fields
import Wshttp.Types

namespace Wshttp

open Fields

/-! ## The elapsed time -/

namespace startup_elapsed_flag

def MILLISECOND : Nat := 1000000
def SECOND : Nat := 1000 * MILLISECOND
def MINUTE : Nat := 60 * SECOND
def HOUR : Nat := 60 * MINUTE

/-- `duration_cast<hours>(elapsed)`. -/
def hours (elapsed : Nat) : Nat := elapsed / HOUR

/-- `duration_cast<minutes>(elapsed) % 1h`, and so on. -/
def minutes (elapsed : Nat) : Nat := elapsed / MINUTE % 60

def seconds (elapsed : Nat) : Nat := elapsed / SECOND % 60

def milliseconds (elapsed : Nat) : Nat := elapsed / MILLISECOND % 1000

/-- `{:02d}m{:02d}.{:03d}s` from the minutes on, which are padded to `width`. -/
def fromMinutes (width elapsed : Nat) : List Char :=
  padDecimal width (minutes elapsed) ++ 'm' :: (padDecimal 2 (seconds elapsed) ++
    '.' :: (padDecimal 3 (milliseconds elapsed) ++ ['s']))

def formatHours (elapsed : Nat) : List Char :=
  '+' :: (padDecimal 0 (hours elapsed) ++ 'h' :: fromMinutes 2 elapsed)

def formatMinutes (elapsed : Nat) : List Char := '+' :: fromMinutes 0 elapsed

def formatSeconds (elapsed : Nat) : List Char :=
  '+' :: (padDecimal 0 (seconds elapsed) ++ '.' :: (padDecimal 3 (milliseconds elapsed) ++ ['s']))

/-- `startup_elapsed_flag::format`. -/
def format (elapsed : Nat) : List Char :=
  if HOUR ≤ elapsed then formatHours elapsed
  else if MINUTE ≤ elapsed then formatMinutes elapsed
  else formatSeconds elapsed

/-! ## Reading it back -/

/-- A field before `sep`, or `0` if there is no `sep`, and the rest of the line. -/
def field (sep : Char) (cs : List Char) : Nat × List Char :=
  match cut sep cs with
  | some (word, rest) => (number word, rest)
  | none => (0, cs)

/-- The milliseconds that a line shows. -/
def read (line : List Char) : Nat :=
  let h := field 'h' (line.drop 1)
  let m := field 'm' h.2
  let s := field '.' m.2
  let ms := field 's' s.2
  ((h.1 * 60 + m.1) * 60 + s.1) * 1000 + ms.1

theorem field_padDecimal {sep : Char} (hsep : sep.isDigit = false) (width n : Nat)
    (rest : List Char) : field sep (padDecimal width n ++ sep :: rest) = (n, rest) := by
  rw [field, cut_word (notMem_padDecimal hsep width n)]
  simp only [number_padDecimal]

theorem field_absent {sep : Char} {cs : List Char} (h : sep ∉ cs) : field sep cs = (0, cs) := by
  rw [field, cut_absent h]

/-- What separates the later fields does not separate an earlier one. -/
theorem notMem_fromSeconds {sep : Char} (hdigit : sep.isDigit = false) (hdot : sep ≠ '.')
    (hs : sep ≠ 's') (width elapsed : Nat) :
    sep ∉ padDecimal width (seconds elapsed) ++
      '.' :: (padDecimal 3 (milliseconds elapsed) ++ ['s']) := by
  simp only [List.mem_append, List.mem_cons, List.not_mem_nil, or_false, not_or]
  exact ⟨notMem_padDecimal hdigit _ _, hdot, notMem_padDecimal hdigit _ _, hs⟩

theorem notMem_fromMinutes (width elapsed : Nat) : 'h' ∉ fromMinutes width elapsed := by
  rw [fromMinutes, List.mem_append, List.mem_cons, not_or, not_or]
  exact ⟨notMem_padDecimal rfl _ _, by decide, notMem_fromSeconds rfl (by decide) (by decide) _ _⟩

/-! ## The arithmetic of the three formats -/

theorem div_second (elapsed : Nat) : elapsed / SECOND = elapsed / MILLISECOND / 1000 := by
  rw [Nat.div_div_eq_div_mul, SECOND, Nat.mul_comm]

theorem div_minute (elapsed : Nat) : elapsed / MINUTE = elapsed / SECOND / 60 := by
  rw [Nat.div_div_eq_div_mul, MINUTE, Nat.mul_comm]

theorem div_hour (elapsed : Nat) : elapsed / HOUR = elapsed / MINUTE / 60 := by
  rw [Nat.div_div_eq_div_mul, HOUR, Nat.mul_comm]

/-- From the minutes on, the fields are those of the milliseconds. -/
theorem fields_eq (elapsed : Nat) :
    ((elapsed / HOUR * 60 + minutes elapsed) * 60 + seconds elapsed) * 1000 + milliseconds elapsed
      = elapsed / MILLISECOND := by
  rw [minutes, seconds, milliseconds, div_hour, div_minute, div_second]
  omega

theorem minute_le_iff (elapsed : Nat) : MINUTE ≤ elapsed ↔ 0 < elapsed / MINUTE :=
  (Nat.div_pos_iff.trans (and_iff_right (by decide))).symm

theorem hour_le_iff (elapsed : Nat) : HOUR ≤ elapsed ↔ 0 < elapsed / HOUR :=
  (Nat.div_pos_iff.trans (and_iff_right (by decide))).symm

/-- What the three formats look at of a time is its whole milliseconds. -/
theorem format_congr {e e' : Nat} (h : e / MILLISECOND = e' / MILLISECOND) :
    format e = format e' := by
  have hsecond : e / SECOND = e' / SECOND := by rw [div_second, h, ← div_second]
  have hminute : e / MINUTE = e' / MINUTE := by rw [div_minute, hsecond, ← div_minute]
  have hhour : e / HOUR = e' / HOUR := by rw [div_hour, hminute, ← div_hour]
  simp only [format, formatHours, formatMinutes, formatSeconds, fromMinutes, hour_le_iff,
    minute_le_iff, hours, minutes, seconds, milliseconds, h, hsecond, hminute, hhour]

theorem read_fromMinutes {width elapsed : Nat} {cs : List Char} {h : Nat}
    (hfield : field 'h' cs = (h, fromMinutes width elapsed)) :
    read ('+' :: cs) = ((h * 60 + minutes elapsed) * 60 + seconds elapsed) * 1000
      + milliseconds elapsed := by
  simp only [read, List.drop_one, List.tail_cons, hfield, fromMinutes,
    @field_padDecimal 'm' rfl, @field_padDecimal '.' rfl, @field_padDecimal 's' rfl]

theorem read_formatSeconds (elapsed : Nat) :
    read (formatSeconds elapsed) = seconds elapsed * 1000 + milliseconds elapsed := by
  have hh := field_absent (@notMem_fromSeconds 'h' rfl (by decide) (by decide) 0 elapsed)
  have hm := field_absent (@notMem_fromSeconds 'm' rfl (by decide) (by decide) 0 elapsed)
  simp only [read, formatSeconds, List.drop_one, List.tail_cons, hh, hm,
    @field_padDecimal '.' rfl, @field_padDecimal 's' rfl]
  omega

theorem read_format (elapsed : Nat) : read (format elapsed) = elapsed / MILLISECOND := by
  rw [← fields_eq elapsed, format]
  split
  · rw [formatHours, read_fromMinutes (field_padDecimal rfl 0 _ _), hours]
  next hhour =>
  have hzero : elapsed / HOUR = 0 := Nat.div_eq_of_lt (Nat.lt_of_not_le hhour)
  rw [hzero]
  split
  · exact read_fromMinutes (field_absent (notMem_fromMinutes 0 elapsed))
  next hminute =>
  have hminutes : minutes elapsed = 0 := by
    rw [minutes, Nat.div_eq_of_lt (Nat.lt_of_not_le hminute)]
  rw [read_formatSeconds, hminutes]
  omega

/-- The format without hours does not show the hours as `0`: it is another text. -/
example : format (2 * MINUTE + 3 * SECOND) = "+2m03.000s".toList := by
  decide

/-- **The line shows the whole milliseconds**, and so nothing else. -/
theorem elapsed_reads (e e' : Nat) :
    read (format e) = e / MILLISECOND ∧
      (format e = format e' ↔ e / MILLISECOND = e' / MILLISECOND) := by
  refine ⟨read_format e, fun h => ?_, format_congr⟩
  rw [← read_format e, h, read_format e']

end startup_elapsed_flag

end Wshttp
