/-
# `Wshttp.Stream.FileRead` — `file_read_callback`, and the retry loop in it

nghttp2 asks for the body of a response by calling `file_read_callback` with a buffer,
again and again.  The callback is to read from the stream's descriptor, once more
whenever `read` was interrupted:

    ssize_t ret{-1};
    while (ret == -1 and errno == EINTR)
        ret = read(fd, buf, length);

The loop asks `errno` before the first `read` has set it.  And at the end of the file
the value returned is the flag `NGHTTP2_DATA_FLAG_EOF`, which nghttp2 takes for a count.

What `read` answers during one call is a parameter (`Reads`): some interruptions, and
then a failure, or as many bytes as happen to be there.  `errno` on entry is whatever
other code has left in it.

**Proved here.**  All calls of a sequence hand over the content well exactly if each is
entered with `errno` equal to `EINTR` and none meets the end of the file
(`file_read_delivers_iff`).
-/
import Wshttp.Lib.Run
import Wshttp.Types

namespace Wshttp

open Machine

def EINTR : Int := 4

def NGHTTP2_DATA_FLAG_EOF : UInt32 := 1
def NGHTTP2_ERR_TEMPORAL_CALLBACK_FAILURE : Int := -521

/-- What `read` answers while one call repeats it. -/
inductive Reads where
  | interrupted (rest : Reads)
  | fails (e : Int) (notInterrupted : e ≠ EINTR)
  /-- the descriptor has `n + 1` bytes at hand, if that many are left -/
  | gives (n : Nat)

namespace Reads

/-- How `read` ends once it is not interrupted. -/
def outcome : Reads → Option Nat
  | interrupted rest => rest.outcome
  | fails _ _ => none
  | gives n => some n

end Reads

/-- One call: `errno` on entry, the buffer nghttp2 hands over with the bytes that
happen to be in it, and what `read` answers. -/
structure ReadCall where
  errno : Int
  buf : Bytes
  room : buf ≠ []
  reads : Reads

/-- The variables of a call, and the content the descriptor has left.  `failed` is
history: a `read` has failed otherwise than by an interruption. -/
structure Reading where
  ret : Int
  errno : Int
  buf : Bytes
  left : Bytes
  failed : Bool := false

/-- How a call ends. -/
structure ReadResult where
  ret : Int
  dataFlags : UInt32
  reading : Reading

/-! ## What the code does -/

/-- The bytes one `read` moves. -/
def moved (n length : Nat) (left : Bytes) : Nat := min (n + 1) (min length left.length)

/-- `ret = read(fd, buf, length)`, where `read` is not interrupted. -/
def Reading.take (n : Nat) (r : Reading) : Reading :=
  let k := moved n r.buf.length r.left
  { r with ret := k, buf := r.left.take k ++ r.buf.drop k, left := r.left.drop k }

/-- The `while` loop.  Its condition is false after a `read` that was not interrupted. -/
def retry (r : Reading) (reads : Reads) : Reading :=
  if r.ret = -1 ∧ r.errno = EINTR then
    match reads with
    | .interrupted rest => retry { r with ret := -1, errno := EINTR } rest
    | .fails e _ => { r with ret := -1, errno := e, failed := true }
    | .gives n => r.take n
  else r

/-- The variables before the loop. -/
def ReadCall.start (c : ReadCall) (left : Bytes) : Reading :=
  { ret := -1, errno := c.errno, buf := c.buf, left }

/-- The rest of the callback.  `*data_flags` is zero on entry. -/
def Reading.report (r : Reading) : ReadResult :=
  if r.ret = -1 then ⟨NGHTTP2_ERR_TEMPORAL_CALLBACK_FAILURE, 0, r⟩
  else if r.ret = 0 then ⟨NGHTTP2_DATA_FLAG_EOF.toNat, 0 ||| NGHTTP2_DATA_FLAG_EOF, r⟩
  else ⟨r.ret, 0, r⟩

def fileReadCallback (left : Bytes) (c : ReadCall) : ReadResult :=
  (retry (c.start left) c.reads).report

/-! ## Sequences of calls -/

/-- `reported` is history: the bytes of the buffers, as many of each as were reported. -/
structure Source where
  left : Bytes
  reported : Bytes := []

namespace Source

def step (s : Source) (c : ReadCall) : Option Source :=
  let result := fileReadCallback s.left c
  some {
    left := result.reading.left
    reported := s.reported ++ result.reading.buf.take result.ret.toNat }

/-- The call comes to the end of the file. -/
def MeetsEof (s : Source) (c : ReadCall) : Prop := s.left = [] ∧ c.reads.outcome.isSome

/-- What one call is to do. -/
structure Delivers (s : Source) (c : ReadCall) (result : ReadResult) : Prop where
  /-- the bytes it reports are the next ones of the content -/
  next : s.left = result.reading.buf.take result.ret.toNat ++ result.reading.left
  /-- it reports some, as long as there are any and `read` does not fail -/
  progress : c.reads.outcome.isSome → s.left ≠ [] → 0 < result.ret
  atEof : s.MeetsEof c → result.ret = 0 ∧ result.dataFlags = NGHTTP2_DATA_FLAG_EOF
  flagged : result.dataFlags = NGHTTP2_DATA_FLAG_EOF → s.MeetsEof c
  failure : result.ret = NGHTTP2_ERR_TEMPORAL_CALLBACK_FAILURE → result.reading.failed = true

/-- `errno` lets the loop begin, and the end of the file is not reached. -/
def Entered (s : Source) (c : ReadCall) : Prop := c.errno = EINTR ∧ ¬ s.MeetsEof c

end Source

/-! ## The loop -/

section
variable {c : ReadCall} {left : Bytes} {r : Reading} {n : Nat}

theorem moved_le_left (n length : Nat) (left : Bytes) : moved n length left ≤ left.length :=
  Nat.le_trans (Nat.min_le_right ..) (Nat.min_le_right ..)

theorem moved_pos {length : Nat} (hlength : 0 < length) (hleft : left ≠ []) :
    0 < moved n length left :=
  Nat.lt_min.mpr ⟨Nat.succ_pos n, Nat.lt_min.mpr ⟨hlength, List.length_pos_iff.mpr hleft⟩⟩

theorem moved_nil {length : Nat} : moved n length [] = 0 := by
  rw [moved, List.length_nil, Nat.min_zero, Nat.min_zero]

/-- Entered with another `errno`, the loop does nothing. -/
theorem retry_of_ne (h : r.errno ≠ EINTR) (reads : Reads) : retry r reads = r := by
  unfold retry
  exact if_neg fun hboth => h hboth.2

/-- Interruptions leave no trace: the loop ends as the last `read` does. -/
theorem retry_entered (reads : Reads) {r : Reading} (hret : r.ret = -1) (herr : r.errno = EINTR) :
    (∃ n, reads.outcome = some n ∧ retry r reads = r.take n) ∨
      ∃ e, reads.outcome = none ∧ retry r reads = { r with errno := e, failed := true } := by
  induction reads generalizing r with
  | interrupted rest ih =>
      have hsame : { r with ret := -1, errno := EINTR } = r := by rw [← hret, ← herr]
      rw [retry, if_pos ⟨hret, herr⟩, hsame]
      exact ih hret herr
  | fails e _ =>
      refine .inr ⟨e, rfl, ?_⟩
      rw [retry, if_pos ⟨hret, herr⟩, ← hret]
  | gives n =>
      refine .inl ⟨n, rfl, ?_⟩
      rw [retry, if_pos ⟨hret, herr⟩]

/-! ## One call -/

theorem file_read_refused (h : c.errno ≠ EINTR) :
    fileReadCallback left c = ⟨NGHTTP2_ERR_TEMPORAL_CALLBACK_FAILURE, 0, c.start left⟩ := by
  rw [fileReadCallback, retry_of_ne h]
  rfl

/-- Entered with `EINTR`: `read` fails, or it gives bytes, or there are none left. -/
theorem file_read_entered (left : Bytes) (h : c.errno = EINTR) :
    (c.reads.outcome = none ∧ ∃ e, fileReadCallback left c =
        ⟨NGHTTP2_ERR_TEMPORAL_CALLBACK_FAILURE, 0,
          { c.start left with errno := e, failed := true }⟩) ∨
      ∃ n, c.reads.outcome = some n ∧ fileReadCallback left c =
        if left = [] then ⟨1, NGHTTP2_DATA_FLAG_EOF, (c.start left).take n⟩
        else ⟨moved n c.buf.length left, 0, (c.start left).take n⟩ := by
  rcases retry_entered (r := c.start left) c.reads rfl h with ⟨n, hn, heq⟩ | ⟨e, hnone, heq⟩
  · refine .inr ⟨n, hn, ?_⟩
    have hret : ((c.start left).take n).ret = moved n c.buf.length left := rfl
    have hne : ¬ (moved n c.buf.length left : Int) = -1 := by omega
    rw [fileReadCallback, heq, Reading.report, hret, if_neg hne]
    by_cases hleft : left = []
    · rw [if_pos hleft, hleft, moved_nil]
      rfl
    · have hpos := moved_pos (n := n) (List.length_pos_iff.mpr c.room) hleft
      rw [if_neg hleft, if_neg (by omega)]
  · refine .inl ⟨hnone, e, ?_⟩
    rw [fileReadCallback, heq]
    rfl

/-- The buffer after a `read` holds the bytes that were moved, and they come first. -/
theorem take_next (n : Nat) : left =
    ((c.start left).take n).buf.take (moved n c.buf.length left) ++
      ((c.start left).take n).left := by
  have hlen : (left.take (moved n c.buf.length left)).length = moved n c.buf.length left := by
    rw [List.length_take]
    exact Nat.min_eq_left (moved_le_left ..)
  rw [Reading.take, ReadCall.start]
  dsimp only
  rw [List.take_append_of_le_length (Nat.le_of_eq hlen.symm), List.take_take, Nat.min_self,
    List.take_append_drop]

namespace Source

variable {s : Source}

theorem delivers_of_entered (h : s.Entered c) : s.Delivers c (fileReadCallback s.left c) := by
  obtain ⟨herr, heof⟩ := h
  rcases file_read_entered s.left herr with ⟨hnone, e, heq⟩ | ⟨n, hn, heq⟩
  · rw [heq]
    have hfails : ¬ c.reads.outcome.isSome := by
      rw [hnone]
      exact Bool.false_ne_true
    exact ⟨rfl, fun hsome => absurd hsome hfails, fun hmeets => absurd hmeets heof,
      fun hflag => (nomatch hflag), fun _ => rfl⟩
  · have hleft : s.left ≠ [] := fun hnil => heof ⟨hnil, by rw [hn]; rfl⟩
    rw [heq, if_neg hleft]
    have hpos := moved_pos (n := n) (List.length_pos_iff.mpr c.room) hleft
    refine ⟨?_, fun _ _ => ?_, fun hmeets => absurd hmeets heof, fun hflag => (nomatch hflag),
      fun hfail => ?_⟩
    · exact take_next n
    · show (0 : Int) < moved n c.buf.length s.left
      omega
    · change (moved n c.buf.length s.left : Int) = -521 at hfail
      omega

theorem entered_of_delivers (h : s.Delivers c (fileReadCallback s.left c)) : s.Entered c := by
  have herr : c.errno = EINTR := by
    by_contra hne
    rw [file_read_refused hne] at h
    cases h.failure rfl
  refine ⟨herr, fun hmeets => ?_⟩
  have hret := (h.atEof hmeets).1
  rcases file_read_entered s.left herr with ⟨hnone, -⟩ | ⟨n, -, heq⟩
  · have hsome := hmeets.2
    rw [hnone] at hsome
    cases hsome
  · rw [heq, if_pos hmeets.1] at hret
    cases hret

/-! ## The whole sequence -/

/-- The buffers so far, and then what is left, are the content. -/
def Whole (content : Bytes) (s : Source) : Prop := s.reported ++ s.left = content

theorem Whole.step {content : Bytes} {t : Source} (hs : s.Whole content)
    (hdeliv : s.Delivers c (fileReadCallback s.left c)) (h : s.step c = some t) :
    t.Whole content := by
  obtain rfl := Option.some.inj h
  show (s.reported ++ _) ++ _ = content
  rw [List.append_assoc, ← hdeliv.next]
  exact hs

/-- **The calls hand over the content, exactly if each is entered with `EINTR` and none
meets the end of the file.**  For every content, and every sequence of calls. -/
theorem file_read_delivers_iff (content : Bytes) (calls : List ReadCall) :
    Along step (fun s c t => s.Delivers c (fileReadCallback s.left c) ∧ t.Whole content)
        { left := content } calls ↔
      Along step (fun s c _ => s.Entered c) { left := content } calls := by
  refine along_iff (I := Whole content)
    (Q := fun s c t => s.Delivers c (fileReadCallback s.left c) ∧ t.Whole content)
    (R := fun s c _ => s.Entered c) ?_ ?_ ?_ calls
  · intro s c t hs h
    constructor
    · exact fun hq => entered_of_delivers hq.1
    · intro hentered
      have hdeliv := delivers_of_entered hentered
      exact ⟨hdeliv, hs.step hdeliv h⟩
  · exact fun _ _ _ _ hq _ => hq.2
  · exact List.nil_append content

/-- The first call of a response whose content is one byte, with `errno` at zero: `read`
is not called, and the failure is reported. -/
theorem first_read_refused :
    ¬ Along step (fun s c t => s.Delivers c (fileReadCallback s.left c) ∧ t.Whole [65])
        { left := [65] } [⟨0, [0], List.cons_ne_nil _ _, .gives 0⟩] ∧
      (fileReadCallback [65] ⟨0, [0], List.cons_ne_nil _ _, .gives 0⟩).ret
        = NGHTTP2_ERR_TEMPORAL_CALLBACK_FAILURE := by
  refine ⟨fun h => ?_, rfl⟩
  obtain ⟨⟨hdeliv, -⟩, -⟩ := h _ rfl
  cases hdeliv.failure rfl

end Source

end

end Wshttp
