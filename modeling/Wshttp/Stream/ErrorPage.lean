/-
# `Wshttp.Stream.ErrorPage` — what is behind `&req::errors::HTML`

    inline constexpr std::array<const char*, 2> HTML{...};

    ssize_t errlen = sizeof(req::errors::HTML) - 1;
    auto len = write(_pipes[1], &req::errors::HTML, errlen);

The array holds two pointers.  Its bytes are the addresses of the strings, not the
strings, and fifteen of these sixteen bytes go into the pipe that the response is read
from.  The test behind the `write` compares with the same length.

A `Placement` says where a run of the program has the strings: the two pointers, and
the memory they point into.

**Proved here.**  Two runs queue the same bytes for a path that cannot be opened exactly
if neither gets the page into a pipe, or their pointers agree in the bytes that are
written; and these bytes are never the text (`error_page_same_iff`).
-/
import Wshttp.Encoding
import Wshttp.Stream.Calls

namespace Wshttp

namespace req.errors

/-- The strings of `HTML`. -/
def HTML : Vector Bytes 2 :=
  #v[chars "<html><head><title>404</title></head>",
    chars "<body><h1>404 Not Found</h1></body></html>"]

end req.errors

/-- There is the string, and its NUL, from this address on. -/
def HoldsAt (memory : UInt64 → UInt8) (p : UInt64) (s : Bytes) : Prop :=
  ∀ i < s.length + 1, memory (p + UInt64.ofNat i) = (s ++ [0]).getD i 0

structure Placement where
  memory : UInt64 → UInt8
  pointers : Vector UInt64 2
  holds : ∀ i : Fin 2, HoldsAt memory pointers[i] req.errors.HTML[i]

namespace Placement

/-- The bytes of the array. -/
def object (bigEndian : Bool) (p : Placement) : Vector UInt8 16 :=
  ⟨(enc.store64 bigEndian p.pointers[0] ++ enc.store64 bigEndian p.pointers[1]).toArray, by
    simp [enc.length_store64]⟩

/-- The pointers agree in all bytes but the last one: on a little-endian host, the
highest of the second address. -/
def Agree (bigEndian : Bool) (p q : Placement) : Prop :=
  p.pointers[0] = q.pointers[0] ∧
    if bigEndian then p.pointers[1].toNat / 256 = q.pointers[1].toNat / 256
    else p.pointers[1].toNat % 256 ^ 7 = q.pointers[1].toNat % 256 ^ 7

end Placement

/-- The system and nghttp2 as they are, and the strings somewhere in memory. -/
def FrameOutcome.placed (bigEndian : Bool) (o : FrameOutcome) (p : Placement) : FrameOutcome :=
  { o with htmlObject := p.object bigEndian }

/-- There is a pipe, and `write` takes the page. -/
def FrameOutcome.PageWritten (o : FrameOutcome) : Prop :=
  o.pipe.isSome ∧ o.write (o.htmlObject.toList.take Stream.errlen) = Stream.errlen

def Effect.isResponse : Effect → Bool
  | .submittedResponse _ _ _ _ => true
  | _ => false

def Effect.written : Effect → Bytes
  | .wrote _ data => data
  | _ => []

/-- What has been written for a response to be read from, if one is submitted. -/
def queuedBody (effects : List Effect) : Bytes :=
  if effects.any Effect.isResponse then effects.flatMap Effect.written else []

/-! ## The bytes that are written -/

section
variable {bigEndian : Bool} {o : FrameOutcome} {s : Stream} {p q : Placement}

theorem queuedBody_of_written (s : Stream) (h : o.PageWritten) :
    queuedBody (s.sendError o).2.2 = o.htmlObject.toList.take Stream.errlen := by
  obtain ⟨hsome, hwrite⟩ := h
  obtain ⟨ends, hpipe⟩ := Option.isSome_iff_exists.mp hsome
  have heffects : ∃ rest, (s.sendError o).2.2 =
      .piped ends.1 ends.2 :: .wrote ends.2 (o.htmlObject.toList.take Stream.errlen) ::
        .closed ends.2 :: .submittedResponse s.id (.makeStatus ._404) ends.1
          (o.submitResponse (.makeStatus ._404) ends.1) :: rest ∧
      rest.flatMap Effect.written = [] := by
    unfold Stream.sendError
    rw [hpipe]
    dsimp only
    rw [if_neg (not_not_intro hwrite)]
    refine ⟨_, rfl, ?_⟩
    split
    · rfl
    · rfl
  obtain ⟨rest, heffects, hrest⟩ := heffects
  rw [heffects]
  show o.htmlObject.toList.take Stream.errlen ++ rest.flatMap Effect.written = _
  rw [hrest, List.append_nil]

theorem queuedBody_of_not_written (s : Stream) (h : ¬ o.PageWritten) :
    queuedBody (s.sendError o).2.2 = [] := by
  unfold Stream.sendError
  cases hpipe : o.pipe with
  | none => rfl
  | some ends =>
      have hwrite : o.write (o.htmlObject.toList.take Stream.errlen) ≠ Stream.errlen :=
        fun hall => h ⟨by rw [hpipe]; rfl, hall⟩
      dsimp only
      rw [if_pos hwrite]
      rfl

/-- A request for a path that cannot be opened comes to `send_error`. -/
theorem queuedBody_placed (bigEndian : Bool) (p : Placement)
    (hopen : o.openFile (cString (Stream.stripSlashes s.req.path)) = none) :
    queuedBody (s.recvFrame (o.placed bigEndian p)).2.2 =
      queuedBody (s.sendError (o.placed bigEndian p)).2.2 := by
  have hopen' : (o.placed bigEndian p).openFile (cString (Stream.stripSlashes s.req.path)) = none :=
    hopen
  have hserved : (s.recvFrame (o.placed bigEndian p)).2.2 =
      .openFailed (cString (Stream.stripSlashes s.req.path)) ::
        (s.sendError (o.placed bigEndian p)).2.2 := by
    unfold Stream.recvFrame
    rw [Uri.toBool_eq_true]
    dsimp only
    rw [hopen']
    rfl
  rw [hserved]
  rfl

/-- The fifteen bytes: all of the first address, and seven of the second. -/
theorem object_take (bigEndian : Bool) (p : Placement) :
    (p.object bigEndian).toList.take Stream.errlen =
      enc.store64 bigEndian p.pointers[0] ++ (enc.store64 bigEndian p.pointers[1]).take 7 := by
  have hlist : (p.object bigEndian).toList =
      enc.store64 bigEndian p.pointers[0] ++ enc.store64 bigEndian p.pointers[1] := rfl
  have herrlen : Stream.errlen = (enc.store64 bigEndian p.pointers[0]).length + 7 := by
    rw [enc.length_store64]
    rfl
  rw [hlist, herrlen, List.take_length_add_append]

theorem store64_take_iff (bigEndian : Bool) (v w : UInt64) :
    (enc.store64 bigEndian v).take 7 = (enc.store64 bigEndian w).take 7 ↔
      if bigEndian then v.toNat / 256 = w.toNat / 256
      else v.toNat % 256 ^ 7 = w.toNat % 256 ^ 7 := by
  cases bigEndian with
  | false =>
      show (enc.lowBytes 8 v.toNat).take 7 = (enc.lowBytes 8 w.toNat).take 7 ↔ _
      rw [enc.take_lowBytes 7 1, enc.take_lowBytes 7 1, enc.lowBytes_inj]
      exact Iff.rfl
  | true =>
      -- the lowest byte comes last here, and is the one left out
      have hlast (v : UInt64) :
          (enc.store64 true v).take 7 = (enc.lowBytes 7 (v.toNat / 256)).reverse := by
        show (UInt8.ofNat v.toNat :: enc.lowBytes 7 (v.toNat / 256)).reverse.take 7 = _
        rw [List.reverse_cons, List.take_append_of_le_length, List.take_of_length_le]
        · rw [List.length_reverse, enc.length_lowBytes]
        · rw [List.length_reverse, enc.length_lowBytes]
      have hbound (v : UInt64) : v.toNat / 256 < 256 ^ 7 := by
        have := v.toNat_lt
        omega
      rw [hlast, hlast, List.reverse_inj, enc.lowBytes_inj, Nat.mod_eq_of_lt (hbound v),
        Nat.mod_eq_of_lt (hbound w)]
      exact Iff.rfl

theorem object_take_iff (bigEndian : Bool) (p q : Placement) :
    (p.object bigEndian).toList.take Stream.errlen =
        (q.object bigEndian).toList.take Stream.errlen ↔ p.Agree bigEndian q := by
  rw [object_take, object_take, Placement.Agree, ← store64_take_iff, ← enc.store64_inj bigEndian]
  constructor
  · intro h
    exact List.append_inj h (by rw [enc.length_store64, enc.length_store64])
  · rintro ⟨hone, htwo⟩
    rw [hone, htwo]

theorem length_object_take (bigEndian : Bool) (p : Placement) :
    ((p.object bigEndian).toList.take Stream.errlen).length = 15 := by
  rw [object_take, List.length_append, List.length_take, enc.length_store64, enc.length_store64]
  rfl

/-- The two runs' system takes the same bytes alike. -/
theorem Placement.Agree.pageWritten (h : p.Agree bigEndian q)
    (hp : (o.placed bigEndian p).PageWritten) : (o.placed bigEndian q).PageWritten := by
  obtain ⟨hpipe, hwrite⟩ := hp
  refine ⟨hpipe, ?_⟩
  show o.write ((q.object bigEndian).toList.take Stream.errlen) = Stream.errlen
  rw [← (object_take_iff bigEndian p q).mpr h]
  exact hwrite

theorem Placement.Agree.symm (h : p.Agree bigEndian q) : q.Agree bigEndian p :=
  (object_take_iff bigEndian q p).mp ((object_take_iff bigEndian p q).mpr h).symm

/-- **What is sent for a missing file depends on where the program is in memory, and is
never the page.**  Whatever the system answers, and wherever the strings are. -/
theorem error_page_same_iff (bigEndian : Bool) (o : FrameOutcome) (s : Stream) (p q : Placement)
    (hopen : o.openFile (cString (Stream.stripSlashes s.req.path)) = none) :
    (queuedBody (s.recvFrame (o.placed bigEndian p)).2.2 =
        queuedBody (s.recvFrame (o.placed bigEndian q)).2.2 ↔
      ¬ (o.placed bigEndian p).PageWritten ∧ ¬ (o.placed bigEndian q).PageWritten ∨
        p.Agree bigEndian q) ∧
    ((o.placed bigEndian p).PageWritten →
      queuedBody (s.recvFrame (o.placed bigEndian p)).2.2 ≠ req.errors.HTML.toList.flatten) := by
  have hbody (r : Placement) (h : (o.placed bigEndian r).PageWritten) :
      queuedBody (s.recvFrame (o.placed bigEndian r)).2.2 =
        (r.object bigEndian).toList.take Stream.errlen :=
    (queuedBody_placed bigEndian r hopen).trans (queuedBody_of_written s h)
  have hnone (r : Placement) (h : ¬ (o.placed bigEndian r).PageWritten) :
      queuedBody (s.recvFrame (o.placed bigEndian r)).2.2 = [] :=
    (queuedBody_placed bigEndian r hopen).trans (queuedBody_of_not_written s h)
  have hne (r : Placement) : (r.object bigEndian).toList.take Stream.errlen ≠ [] := fun hnil => by
    have hlen := length_object_take bigEndian r
    rw [hnil] at hlen
    cases hlen
  constructor
  · by_cases hp : (o.placed bigEndian p).PageWritten
    · by_cases hq : (o.placed bigEndian q).PageWritten
      · rw [hbody p hp, hbody q hq, object_take_iff]
        exact (or_iff_right fun hboth => hboth.1 hp).symm
      · rw [hbody p hp, hnone q hq]
        refine iff_of_false (hne p) ?_
        rintro (hboth | hagree)
        · exact hboth.1 hp
        · exact hq (hagree.pageWritten hp)
    · by_cases hq : (o.placed bigEndian q).PageWritten
      · rw [hnone p hp, hbody q hq]
        refine iff_of_false (hne q).symm ?_
        rintro (hboth | hagree)
        · exact hboth.2 hq
        · exact hp (hagree.symm.pageWritten hq)
      · rw [hnone p hp, hnone q hq]
        exact iff_of_true rfl (.inl ⟨hp, hq⟩)
  · intro hp hpage
    have hlen := length_object_take bigEndian p
    rw [← hbody p hp, hpage] at hlen
    revert hlen
    decide

end

/-- A memory with the first string on every odd page and the second on every even one. -/
def pages (a : UInt64) : UInt8 :=
  ((if a / 4096 % 2 = 1 then req.errors.HTML[0] else req.errors.HTML[1]) ++ [0]).getD
    (a % 4096).toNat 0

def Placement.low : Placement where
  memory := pages
  pointers := #v[0x1000, 0x2000]
  holds := by unfold HoldsAt; decide

def Placement.high : Placement where
  memory := pages
  pointers := #v[0x3000, 0x2000]
  holds := by unfold HoldsAt; decide

/-- A stream that has been asked for `/missing`. -/
def missing : Stream :=
  { id := 1, req := ⟨#v[[], [], [], [], chars "/missing", [], [], []]⟩ }

theorem error_page_same_iff_missing :
    FrameOutcome.noFile.openFile (cString (Stream.stripSlashes missing.req.path)) = none ∧
    (queuedBody (missing.recvFrame (FrameOutcome.noFile.placed false .low)).2.2 =
        queuedBody (missing.recvFrame (FrameOutcome.noFile.placed false .high)).2.2 ↔
      ¬ (FrameOutcome.noFile.placed false .low).PageWritten ∧
          ¬ (FrameOutcome.noFile.placed false .high).PageWritten ∨
        Placement.low.Agree false .high) ∧
    ((FrameOutcome.noFile.placed false .low).PageWritten →
      queuedBody (missing.recvFrame (FrameOutcome.noFile.placed false .low)).2.2
        ≠ req.errors.HTML.toList.flatten) :=
  ⟨rfl, error_page_same_iff false .noFile missing .low .high rfl⟩

/-- Two runs that differ in one pointer: each client gets the addresses of its run. -/
theorem error_page_differs :
    queuedBody (missing.recvFrame (FrameOutcome.noFile.placed false .low)).2.2
        ≠ queuedBody (missing.recvFrame (FrameOutcome.noFile.placed false .high)).2.2 ∧
      queuedBody (missing.recvFrame (FrameOutcome.noFile.placed false .low)).2.2
        = [0, 0x10, 0, 0, 0, 0, 0, 0, 0, 0x20, 0, 0, 0, 0, 0] := by
  decide

end Wshttp
