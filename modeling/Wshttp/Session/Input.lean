/-
# `Wshttp.Session.Input` — which bytes reach nghttp2, and how often

`read_session_data` hands the whole input evbuffer to `nghttp2_session_mem_recv2`
and never drains it.  So the evbuffer always holds everything received, and each
call hands over all of it again.

**Proved here.**  Among the runs in which nghttp2 consumes what it is given, the
ones that hand over every byte exactly once and in order are those in which at
most one `read_cb` finds input (`handedOnce_iff`).
-/
import Wshttp.Session.Frame
import Mathlib.Data.List.Infix

namespace Wshttp

open Machine

/-! ## The rest of the code leaves the input side alone -/

/-- The evbuffer's input side, and its history. -/
def SessionBase.inflow (s : SessionBase) : Bytes × Bytes × Bytes × List Nat :=
  (s.bev.input, s.received, s.handed, s.handedAt)

theorem framed_inflow : Framed SessionBase.inflow :=
  ⟨fun _ _ => rfl, fun s bev h => by simp [SessionBase.inflow, h], fun _ _ => rfl⟩

/-- The input side after one event. -/
def SessionBase.inflowAfter (s : SessionBase) : IoEvent → Bytes × Bytes × Bytes × List Nat
  | .arrive bs => (s.bev.input ++ bs, s.received ++ bs, s.handed, s.handedAt)
  | .readCb _ _ => (s.noteHanded s.bev.input).inflow
  | _ => s.inflow

theorem ioStep_inflow {bigEndian : Bool} {s t : SessionBase} {e : IoEvent}
    (h : ioStep bigEndian s e = some t) : t.inflow = s.inflowAfter e := by
  rw [ioStep_framed framed_inflow h, SessionBase.ioCore]
  -- asking to be closed leaves the input side alone
  cases e.asksToClose s <;> cases e <;> rfl

/-! ## Handing over every byte once -/

/-- The bytes handed to nghttp2 are a prefix of the bytes received, and their
offsets in the stream are `0, 1, 2, …`: each byte once, in order. -/
structure HandedOnce (s : SessionBase) : Prop where
  isPrefix : s.handed <+: s.received
  offsets : s.handedAt = List.range s.handed.length

/-- The number of `read_cb` calls that find input, given whether some has arrived before. -/
def readsOfInput : Bool → List IoEvent → Nat
  | _, [] => 0
  | arrived, .arrive bs :: evs => readsOfInput (arrived || !bs.isEmpty) evs
  | arrived, .readCb _ _ :: evs => arrived.toNat + readsOfInput arrived evs
  | arrived, _ :: evs => readsOfInput arrived evs

/-- The evbuffer was never drained, and what was handed over was handed over well. -/
structure Undrained (s : SessionBase) : Prop where
  input : s.bev.input = s.received
  handed : HandedOnce s

theorem undrained_congr {s t : SessionBase} (hs : Undrained s) (h : t.inflow = s.inflow) :
    Undrained t := by
  simp only [SessionBase.inflow, Prod.mk.injEq] at h
  obtain ⟨hin, hrec, hhand, hat⟩ := h
  refine ⟨by rw [hin, hrec, hs.input], ⟨?_, ?_⟩⟩
  · rw [hhand, hrec]; exact hs.handed.isPrefix
  · rw [hat, hhand]; exact hs.handed.offsets

section
variable {bigEndian : Bool} {s t : SessionBase}

theorem arrive_undrained {bs : Bytes} (hs : Undrained s)
    (h : ioStep bigEndian s (.arrive bs) = some t) :
    Undrained t ∧ t.received = s.received ++ bs ∧ t.handed = s.handed := by
  have hflow := ioStep_inflow h
  simp only [SessionBase.inflowAfter, SessionBase.inflow, Prod.mk.injEq] at hflow
  obtain ⟨hin, hrec, hhand, hat⟩ := hflow
  refine ⟨⟨by rw [hin, hrec, hs.input], ⟨?_, ?_⟩⟩, hrec, hhand⟩
  · rw [hhand, hrec]
    exact hs.handed.isPrefix.trans (List.prefix_append _ _)
  · rw [hat, hhand]
    exact hs.handed.offsets

/-- `read_cb` hands over everything received so far, from the offset `0` on. -/
theorem readCb_inflow {r : RecvOutcome} {o : SendOutcome} (hs : Undrained s)
    (h : ioStep bigEndian s (.readCb r o) = some t) :
    t.bev.input = s.received ∧ t.received = s.received ∧ t.handed = s.handed ++ s.received ∧
      t.handedAt = s.handedAt ++ List.range' 0 s.received.length := by
  have hflow := ioStep_inflow h
  simp only [SessionBase.inflowAfter, SessionBase.inflow, SessionBase.noteHanded,
    Prod.mk.injEq] at hflow
  obtain ⟨hin, hrec, hhand, hat⟩ := hflow
  rw [hs.input] at hin hhand hat
  rw [Nat.sub_self] at hat
  exact ⟨hin, hrec, hhand, hat⟩

theorem readCb_before_input {r : RecvOutcome} {o : SendOutcome} (hs : Undrained s)
    (hnone : s.received = []) (h : ioStep bigEndian s (.readCb r o) = some t) :
    Undrained t ∧ t.received = s.received ∧ t.handed = s.handed := by
  obtain ⟨hin, hrec, hhand, hat⟩ := readCb_inflow hs h
  rw [hnone, List.append_nil] at hhand
  rw [hnone, List.length_nil, List.range'_zero, List.append_nil] at hat
  refine ⟨undrained_congr hs ?_, hrec, hhand⟩
  simp only [SessionBase.inflow, hin, hrec, hhand, hat, hs.input]

theorem readCb_first {r : RecvOutcome} {o : SendOutcome} (hs : Undrained s)
    (hfirst : s.handed = []) (h : ioStep bigEndian s (.readCb r o) = some t) :
    Undrained t ∧ t.received = s.received ∧ t.handed = s.received := by
  obtain ⟨hin, hrec, hhand, hat⟩ := readCb_inflow hs h
  have hnoOffset : s.handedAt = [] := by
    rw [hs.handed.offsets, hfirst]
    rfl
  rw [hfirst, List.nil_append] at hhand
  rw [hnoOffset, List.nil_append] at hat
  refine ⟨⟨by rw [hin, hrec], ⟨by rw [hhand, hrec], ?_⟩⟩, hrec, hhand⟩
  rw [hat, hhand]
  exact List.range_eq_range'.symm

/-- A read after one that found input: more bytes have been handed over than received. -/
theorem readCb_again {r : RecvOutcome} {o : SendOutcome} (hs : Undrained s)
    (hagain : s.handed ≠ []) (h : ioStep bigEndian s (.readCb r o) = some t) : ¬ HandedOnce t := by
  obtain ⟨-, hrec, hhand, -⟩ := readCb_inflow hs h
  intro hgood
  have hlen := hgood.isPrefix.length_le
  have hpos := List.length_pos_of_ne_nil hagain
  rw [hhand, hrec, List.length_append] at hlen
  omega

end

/-- From an undrained state, with `0` or `1` good reads behind it, the run stays
good exactly when the total number of reads that find input stays below two.
The induction is on the events; the state's history says which of `0` and `1`
it is. -/
theorem along_handedOnce_iff {bigEndian : Bool} : ∀ (evs : List IoEvent) {s u : SessionBase},
    Undrained s → run (ioStep bigEndian) s evs = some u →
      (Along (ioStep bigEndian) (fun _ _ t => HandedOnce t) s evs ↔
        (!s.handed.isEmpty).toNat + readsOfInput (!s.received.isEmpty) evs ≤ 1) := by
  intro evs
  induction evs with
  | nil =>
      intro s u _ _
      have hle : (!s.handed.isEmpty).toNat ≤ 1 := Bool.toNat_le _
      exact iff_of_true trivial hle
  | cons e evs ih =>
      intro s u hs hrun
      obtain ⟨t, ht, hu⟩ := run_cons_some.mp hrun
      rw [along_cons ht]
      cases e with
      | arrive bs =>
          obtain ⟨htu, hrec, hhand⟩ := arrive_undrained hs ht
          have hne : (!t.received.isEmpty) = (!s.received.isEmpty || !bs.isEmpty) := by
            rw [hrec]
            cases s.received <;> simp
          rw [ih htu hu, hne, hhand]
          exact and_iff_right htu.handed
      | readCb r o =>
          cases hr : s.received with
          | nil =>
              obtain ⟨htu, hrec, hhand⟩ := readCb_before_input hs hr ht
              rw [ih htu hu, hhand, hrec, hr]
              simpa [readsOfInput] using fun _ => htu.handed
          | cons b bs =>
              cases hd : s.handed with
              | nil =>
                  obtain ⟨htu, hrec, hhand⟩ := readCb_first hs hd ht
                  rw [ih htu hu, hhand, hrec, hr]
                  simpa [readsOfInput] using fun _ => htu.handed
              | cons c cs =>
                  have hagain : s.handed ≠ [] := by
                    rw [hd]
                    exact List.cons_ne_nil c cs
                  have hbad := readCb_again hs hagain ht
                  simp only [hbad, false_and, readsOfInput, List.isEmpty_cons, Bool.not_false,
                    Bool.toNat_true, false_iff]
                  omega
      | drain | submit | eventCb | writeCb =>
          have hflow := ioStep_inflow ht
          have htu := undrained_congr hs hflow
          simp only [SessionBase.inflowAfter, SessionBase.inflow, Prod.mk.injEq] at hflow
          obtain ⟨-, hrec, hhand, -⟩ := hflow
          rw [ih htu hu, hhand, hrec]
          exact and_iff_right htu.handed

/-- Before the first byte. -/
structure NothingReceived (s : SessionBase) : Prop where
  input : s.bev.input = []
  received : s.received = []
  handed : s.handed = []
  handedAt : s.handedAt = []

/-- **Every byte once, exactly when at most one `read_cb` finds input.**  Whatever
nghttp2 answers; in particular when it consumes everything it is given. -/
theorem handedOnce_iff {bigEndian : Bool} {s u : SessionBase} {evs : List IoEvent}
    (hs : NothingReceived s) (hrun : run (ioStep bigEndian) s evs = some u) :
    Along (ioStep bigEndian) (fun _ _ t => HandedOnce t) s evs ↔ readsOfInput false evs ≤ 1 := by
  have hu : Undrained s := by
    refine ⟨by rw [hs.input, hs.received], ⟨?_, ?_⟩⟩
    · rw [hs.handed]; exact List.nil_prefix
    · rw [hs.handedAt, hs.handed]; rfl
  simpa [hs.handed, hs.received] using along_handedOnce_iff evs hu hrun

/-- Two arrivals, then one `read_cb`: one read finds input. -/
theorem handedOnce_iff_one_read :
    NothingReceived (.initialized false 7 ⟨.ofPort 443, .ofPort 50000⟩) ∧
    (Along (ioStep false) (fun _ _ t => HandedOnce t)
        (.initialized false 7 ⟨.ofPort 443, .ofPort 50000⟩)
        [.arrive (chars "PRI"), .arrive (chars " * "), .readCb .consumeAll .sendAll] ↔
      readsOfInput false
        [.arrive (chars "PRI"), .arrive (chars " * "), .readCb .consumeAll .sendAll] ≤ 1) := by
  have hs : NothingReceived (.initialized false 7 ⟨.ofPort 443, .ofPort 50000⟩) :=
    ⟨rfl, rfl, rfl, rfl⟩
  obtain ⟨u, hu⟩ : ∃ u, run (ioStep false) (.initialized false 7 ⟨.ofPort 443, .ofPort 50000⟩)
      [.arrive (chars "PRI"), .arrive (chars " * "), .readCb .consumeAll .sendAll] = some u :=
    ⟨_, rfl⟩
  exact ⟨hs, handedOnce_iff hs hu⟩

/-- One byte arrives and `read_cb` runs twice: nghttp2 consumes it both times. -/
theorem byte_handed_twice :
    ∃ t, run (ioStep false) (.initialized false 7 ⟨.ofPort 443, .ofPort 50000⟩)
        [.arrive [80], .readCb .consumeAll .sendAll, .readCb .consumeAll .sendAll] = some t ∧
      t.received = [80] ∧ t.handed = [80, 80] ∧ t.handedAt = [0, 0] ∧ ¬ HandedOnce t := by
  refine ⟨_, rfl, rfl, rfl, rfl, ?_⟩
  intro h
  exact absurd h.isPrefix.length_le (by decide)

end Wshttp
