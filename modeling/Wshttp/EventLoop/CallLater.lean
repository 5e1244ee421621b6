/-
# `Wshttp.EventLoop.CallLater` — one delayed hook, from either thread

From the loop thread `call_later` arms a timer for the delay.  From another thread it
enqueues a job with the point in time, `get_time() + delay`, and the job, whenever it
is run, compares that with the clock and arms a timer for what remains.

| source                                       | here                      |
| :------------------------------------------- | :------------------------ |
| `call_later` on the loop thread              | `onLoop`                  |
| `call_later` elsewhere                       | `offLoop`                 |
| the job is run                               | `process`                 |
| the loop looks for timers that have expired  | `loopStep`                |

Clock readings are 64-bit counts of nanoseconds and delays 64-bit counts of
microseconds; sums and products are taken modulo `2 ^ 64`.  The timer's own lambda
holds the watcher and lets it go when the hook comes back.

**Proved here.**  Both ways are on time, under conditions that differ
(`call_later_on_time_iff`): on the loop thread a negative delay has to be a number of
whole seconds; elsewhere the point in time has to fit in 64 bits, and the part of a
microsecond that the second conversion drops has to pass before the timer is armed.
-/
import Wshttp.EventLoop.Watcher
import Wshttp.Lib.Run
import Mathlib.Algebra.Group.Int.Defs
import Mathlib.Algebra.Group.Nat.Defs

namespace Wshttp.EventLoop

open Machine

/-! ## The conversions -/

/-- Microseconds, to be added to a point in time. -/
def toNanoseconds (delay : Int64) : Int64 := delay * 1000

/-- `duration_cast<microseconds>`: towards zero. -/
def toMicroseconds (d : Int64) : Int64 := d / 1000

section
variable {x : Int} {t : Int64}

/-- The value is one of a 64-bit integer. -/
def Fits (x : Int) : Prop := -2 ^ 63 ≤ x ∧ x < 2 ^ 63

theorem bmod_eq_self_iff : x.bmod (2 ^ 64) = x ↔ Fits x := by
  unfold Fits
  constructor
  · intro h
    have hle : -(((2 ^ 64 : Nat) : Int) / 2) ≤ x.bmod (2 ^ 64) := Int.le_bmod (by decide)
    have hlt : x.bmod (2 ^ 64) < (((2 ^ 64 : Nat) : Int) + 1) / 2 := Int.bmod_lt (by decide)
    omega
  · rintro ⟨hle, hlt⟩
    exact Int.bmod_eq_of_le (by omega) (by omega)

theorem toNanoseconds_eq_iff :
    (toNanoseconds t).toInt = 1000 * t.toInt ↔ Fits (1000 * t.toInt) := by
  rw [toNanoseconds, Int64.toInt_mul, Int.mul_comm t.toInt]
  exact bmod_eq_self_iff

theorem toMicroseconds_toInt : (toMicroseconds t).toInt = t.toInt.tdiv 1000 :=
  Int64.toInt_div_of_ne_right t 1000 (by decide)

theorem tvSec_toInt : (loopTimeToTimeval t).tvSec.toInt = t.toInt.tdiv 1000000 :=
  Int64.toInt_div_of_ne_right t 1000000 (by decide)

theorem tvUsec_toInt : (loopTimeToTimeval t).tvUsec.toInt = t.toInt.tmod 1000000 :=
  Int64.toInt_mod t 1000000

/-- The `timeval` stands for the microseconds it is made from. -/
theorem toNanos_loopTimeToTimeval : (loopTimeToTimeval t).toNanos = 1000 * t.toInt := by
  rw [Timeval.toNanos, tvSec_toInt, tvUsec_toInt, Int.mul_tdiv_add_tmod]

/-- A remainder has the sign of the dividend. -/
theorem tvUsec_valid_iff :
    (0 ≤ (loopTimeToTimeval t).tvUsec.toInt ∧ (loopTimeToTimeval t).tvUsec.toInt < 1000000) ↔
      0 ≤ t.toInt ∨ (1000000 : Int) ∣ t.toInt := by
  rw [tvUsec_toInt]
  rcases Int.le_total 0 t.toInt with hpos | hneg
  · rw [Int.tmod_eq_emod_of_nonneg hpos]
    omega
  · obtain ⟨m, hm⟩ := Int.eq_ofNat_of_zero_le (Int.neg_nonneg_of_nonpos hneg)
    obtain hm : t.toInt = -(m : Int) := by omega
    rw [hm, Int.neg_tmod, Int.tmod_eq_emod_of_nonneg (Int.natCast_nonneg m)]
    omega

end

/-! ## Runs of one call -/

inductive DelayedPhase where
  /-- the job is in the queue, with `target_time` -/
  | queued (target : Int64)
  /-- the delay was worked out at one reading, and the timer armed at another -/
  | armed (w : EvWatcher Unit) (decided added : Int64)
  | finished

/-- `ran` has the clock reading of each call of the hook. -/
structure Delayed where
  clock : Int64
  phase : DelayedPhase
  ran : List Int64

inductive DelayedEvent where
  /-- `now` is what the job reads, and `added` the clock at `event_add` -/
  | process (now added : Int64)
  | loopStep (now : Int64)

namespace Delayed

/-- `add_oneshot_event`. -/
def addOneshotEvent (decided added : Int64) (delay : Int64) (s : Delayed) : Delayed :=
  { s with clock := added, phase := .armed (.oneshot added.toInt delay ()) decided added }

/-- The hook is called, once and for all: its watcher, if any, is let go. -/
def runHook (now : Int64) (s : Delayed) : Delayed :=
  { clock := now, phase := .finished, ran := s.ran ++ [now] }

def onLoop (called added delay : Int64) : Delayed :=
  addOneshotEvent called added delay { clock := called, phase := .finished, ran := [] }

def offLoop (called delay : Int64) : Delayed where
  clock := called
  phase := .queued (called + toNanoseconds delay)
  ran := []

/-- The clock does not go back. -/
def step (s : Delayed) : DelayedEvent → Option Delayed
  | .process now added =>
      match s.phase with
      | .queued target =>
          if s.clock ≤ now ∧ now ≤ added then
            if target ≤ now then some (s.runHook now)
            else some (s.addOneshotEvent now added (toMicroseconds (target - now)))
          else none
      | _ => none
  | .loopStep now =>
      if s.clock ≤ now then
        match s.phase with
        | .armed w _ _ =>
            match w.armed with
            | some deadline =>
                if deadline ≤ now.toInt then some (s.runHook now) else some { s with clock := now }
            | none => some { s with clock := now }
        | _ => some { s with clock := now }
      else none

/-- What `step` does: its guards, and the state it leaves. -/
inductive Stepped (s : Delayed) : DelayedEvent → Delayed → Prop
  | runsNow {now added target : Int64} :
      s.phase = .queued target → s.clock ≤ now → now ≤ added → target ≤ now →
      Stepped s (.process now added) (s.runHook now)
  | arms {now added target : Int64} :
      s.phase = .queued target → s.clock ≤ now → now ≤ added → ¬ target ≤ now →
      Stepped s (.process now added) (s.addOneshotEvent now added (toMicroseconds (target - now)))
  | fires {now decided added : Int64} {w : EvWatcher Unit} {deadline : Int} :
      s.phase = .armed w decided added → s.clock ≤ now → w.armed = some deadline →
      deadline ≤ now.toInt → Stepped s (.loopStep now) (s.runHook now)
  | waits {now : Int64} : s.clock ≤ now → Stepped s (.loopStep now) { s with clock := now }

theorem stepped {s s' : Delayed} {e : DelayedEvent} (h : s.step e = some s') : Stepped s e s' := by
  cases e with
  | process now added =>
      simp only [step] at h
      split at h
      case h_2 => cases h
      next target hphase =>
      split at h
      case isFalse => cases h
      next hclock =>
      split at h
      · next hpast => exact Option.some.inj h ▸ .runsNow hphase hclock.1 hclock.2 hpast
      · next hahead => exact Option.some.inj h ▸ .arms hphase hclock.1 hclock.2 hahead
  | loopStep now =>
      simp only [step] at h
      split at h
      case isFalse => cases h
      next hclock =>
      split at h
      · next w _ _ hphase =>
        split at h
        · next deadline harmed =>
          split at h
          · next hdue => exact Option.some.inj h ▸ .fires hphase hclock harmed hdue
          · exact Option.some.inj h ▸ .waits hclock
        · exact Option.some.inj h ▸ .waits hclock
      · exact Option.some.inj h ▸ .waits hclock

/-! ## On time -/

/-- The reading before which the hook is not to run. -/
def dueAt (called delay : Int64) : Int := called.toInt + 1000 * delay.toInt

/-- What is to hold in every state of a call. -/
structure OnTime (called delay : Int64) (s : Delayed) : Prop where
  once : s.ran.length ≤ 1
  notEarly : ∀ now ∈ s.ran, dueAt called delay ≤ now.toInt
  /-- neither the conversion nor the sum has wrapped -/
  exact : ∀ target, s.phase = .queued target →
    (toNanoseconds delay).toInt = 1000 * delay.toInt ∧ target.toInt = dueAt called delay
  notRounded : ∀ w decided added deadline, s.phase = .armed w decided added →
    w.armed = some deadline → dueAt called delay ≤ deadline
  atOnce : ∀ w decided added deadline, s.phase = .armed w decided added →
    dueAt called delay ≤ decided.toInt → w.armed = some deadline → deadline ≤ added.toInt
  timeval : ∀ w decided added, s.phase = .armed w decided added →
    0 ≤ w.interval.tvUsec.toInt ∧ w.interval.tvUsec.toInt < 1000000

def OnTimeFrom (called delay : Int64) (s : Delayed) (evs : List DelayedEvent) : Prop :=
  OnTime called delay s ∧ Along step (fun _ _ s => OnTime called delay s) s evs

/-- The point in time can be computed. -/
def NoWrap (called delay : Int64) : Prop :=
  Fits (1000 * delay.toInt) ∧ Fits (dueAt called delay)

/-- If the job comes in time, then the nanoseconds that its remainder has over whole
microseconds have passed when the timer is armed. -/
def Covers (called delay : Int64) : DelayedEvent → Prop
  | .process now added =>
      dueAt called delay ≤ now.toInt ∨
        (dueAt called delay - now.toInt) % 1000 ≤ added.toInt - now.toInt
  | .loopStep _ => True

/-- While the hook is ahead it has not run, and the call is in the past. -/
structure Pending (called : Int64) (s : Delayed) : Prop where
  fresh : s.phase ≠ .finished → s.ran = []
  called : called.toInt ≤ s.clock.toInt

section
variable {called delay : Int64} {s s' : Delayed} {e : DelayedEvent}

theorem Pending.step (hs : s.Pending called) (h : s.step e = some s') : s'.Pending called := by
  cases stepped h with
  | runsNow _ hclock _ _ | fires _ hclock _ _ =>
      refine ⟨fun hne => absurd rfl hne, ?_⟩
      exact Int.le_trans hs.called (Int64.le_iff_toInt_le.mp hclock)
  | arms hphase hclock hadded _ =>
      refine ⟨fun _ => hs.fresh (by rw [hphase]; exact DelayedPhase.noConfusion), ?_⟩
      exact Int.le_trans hs.called (Int64.le_iff_toInt_le.mp (Int64.le_trans hclock hadded))
  | waits hclock =>
      exact ⟨hs.fresh, Int.le_trans hs.called (Int64.le_iff_toInt_le.mp hclock)⟩

theorem onTime_runHook {now : Int64} (hfresh : s.ran = []) (hdue : dueAt called delay ≤ now.toInt) :
    OnTime called delay (s.runHook now) where
  once := by simp [runHook, hfresh]
  notEarly := by
    intro x hx
    rw [runHook, hfresh] at hx
    obtain rfl := List.mem_singleton.mp hx
    exact hdue
  exact := by
    intro _ hphase
    cases hphase
  notRounded := by
    intro _ _ _ _ hphase
    cases hphase
  atOnce := by
    intro _ _ _ _ hphase
    cases hphase
  timeval := by
    intro _ _ _ hphase
    cases hphase

/-- A timer that has just been armed for `d` microseconds. -/
theorem onTime_armed_iff {decided added d : Int64} (hfresh : s.ran = []) :
    OnTime called delay (s.addOneshotEvent decided added d) ↔
      dueAt called delay ≤ added.toInt + 1000 * d.toInt ∧
        (dueAt called delay ≤ decided.toInt → d.toInt ≤ 0) ∧
        (0 ≤ d.toInt ∨ (1000000 : Int) ∣ d.toInt) := by
  have harmed :
      (EvWatcher.oneshot added.toInt d ()).armed = some (added.toInt + 1000 * d.toInt) := by
    rw [← toNanos_loopTimeToTimeval]
    rfl
  have hinterval : (EvWatcher.oneshot added.toInt d ()).interval = loopTimeToTimeval d := rfl
  constructor
  · intro hon
    refine ⟨hon.notRounded _ _ _ _ rfl harmed, fun hpast => ?_, ?_⟩
    · have hnow := hon.atOnce _ _ _ _ rfl hpast harmed
      omega
    · have hvalid := hon.timeval _ _ _ rfl
      rw [hinterval] at hvalid
      exact tvUsec_valid_iff.mp hvalid
  · rintro ⟨hdue, hpast, hvalid⟩
    refine ⟨?_, ?_, ?_, ?_, ?_, ?_⟩
    · simp [addOneshotEvent, hfresh]
    · intro x hx
      rw [addOneshotEvent, hfresh] at hx
      cases hx
    · intro _ hphase
      cases hphase
    · intro w _ _ deadline hphase hdeadline
      cases hphase
      obtain rfl := Option.some.inj (harmed.symm.trans hdeadline)
      exact hdue
    · intro w _ _ deadline hphase hdecided hdeadline
      cases hphase
      obtain rfl := Option.some.inj (harmed.symm.trans hdeadline)
      have hneg := hpast hdecided
      omega
    · intro w _ _ hphase
      cases hphase
      rw [hinterval]
      exact tvUsec_valid_iff.mpr hvalid

/-- The remainder of a point in time that is ahead of the clock. -/
theorem remainder_toInt {target now : Int64} (hahead : ¬ target ≤ now)
    (hfits : Fits (target.toInt - now.toInt)) :
    (toMicroseconds (target - now)).toInt = (target.toInt - now.toInt) / 1000 := by
  have hlt : now.toInt < target.toInt := by
    rw [Int64.le_iff_toInt_le] at hahead
    omega
  rw [toMicroseconds_toInt, Int64.toInt_sub, bmod_eq_self_iff.mpr hfits,
    Int.tdiv_eq_ediv_of_nonneg (by omega)]

/-- One step from a state on time: only the job's conversion can spoil it. -/
theorem onTime_step_iff (hs : OnTime called delay s) (hp : s.Pending called)
    (h : s.step e = some s') : OnTime called delay s' ↔ Covers called delay e := by
  cases stepped h with
  | @runsNow now _ target hphase _ _ hpast =>
      obtain ⟨-, hexact⟩ := hs.exact target hphase
      have hdue : dueAt called delay ≤ now.toInt := hexact ▸ Int64.le_iff_toInt_le.mp hpast
      have hfresh := hp.fresh (by rw [hphase]; exact DelayedPhase.noConfusion)
      exact iff_of_true (onTime_runHook hfresh hdue) (.inl hdue)
  | @arms now added target hphase hclock hadded hahead =>
      obtain ⟨hconv, hexact⟩ := hs.exact target hphase
      have hfresh := hp.fresh (by rw [hphase]; exact DelayedPhase.noConfusion)
      have hlt : now.toInt < dueAt called delay := by
        rw [Int64.le_iff_toInt_le, hexact] at hahead
        omega
      -- what remains is no more than the delay, which has been converted before
      have hfits : Fits (target.toInt - now.toInt) := by
        have hdelay := toNanoseconds_eq_iff.mp hconv
        have hafter := Int.le_trans hp.called (Int64.le_iff_toInt_le.mp hclock)
        have hdue : dueAt called delay = called.toInt + 1000 * delay.toInt := rfl
        unfold Fits at hdelay ⊢
        omega
      rw [onTime_armed_iff hfresh, remainder_toInt hahead hfits, hexact]
      show _ ↔ _ ∨ _
      constructor
      · rintro ⟨hdue, -, -⟩
        right
        omega
      · rintro (hpast | hcovered)
        · omega
        · exact ⟨by omega, fun hpast => by omega, .inl (by omega)⟩
  | @fires now decided added w deadline hphase _ harmed hdue =>
      have hfresh := hp.fresh (by rw [hphase]; exact DelayedPhase.noConfusion)
      have hnotEarly := Int.le_trans (hs.notRounded w decided added deadline hphase harmed) hdue
      exact iff_of_true (onTime_runHook hfresh hnotEarly) trivial
  | waits _ =>
      exact iff_of_true
        ⟨hs.once, hs.notEarly, hs.exact, hs.notRounded, hs.atOnce, hs.timeval⟩ trivial

theorem onTime_run_iff (hp : s.Pending called) (evs : List DelayedEvent)
    (hs : OnTime called delay s) :
    Along step (fun _ _ s => OnTime called delay s) s evs ↔
      Along step (fun _ e _ => Covers called delay e) s evs :=
  along_iff (I := fun s => OnTime called delay s ∧ s.Pending called)
    (Q := fun _ _ s => OnTime called delay s) (R := fun _ e _ => Covers called delay e)
    (fun _ _ _ hs h => onTime_step_iff hs.1 hs.2 h) (fun _ _ _ hs hon h => ⟨hon, hs.2.step h⟩)
    ⟨hs, hp⟩ evs

/-! ## The two starts -/

theorem onTime_offLoop_iff : OnTime called delay (offLoop called delay) ↔ NoWrap called delay := by
  constructor
  · intro hon
    obtain ⟨hconv, hsum⟩ := hon.exact _ rfl
    rw [Int64.toInt_add, hconv] at hsum
    exact ⟨toNanoseconds_eq_iff.mp hconv, bmod_eq_self_iff.mp hsum⟩
  · rintro ⟨hdelay, hdue⟩
    have hconv := toNanoseconds_eq_iff.mpr hdelay
    refine ⟨Nat.zero_le 1, fun _ hx => (nomatch hx), ?_, ?_, ?_, ?_⟩
    · intro target hphase
      cases hphase
      refine ⟨hconv, ?_⟩
      rw [Int64.toInt_add, hconv]
      exact bmod_eq_self_iff.mpr hdue
    · intro _ _ _ _ hphase
      cases hphase
    · intro _ _ _ _ hphase
      cases hphase
    · intro _ _ _ hphase
      cases hphase

theorem onTime_onLoop_iff {added : Int64} (hadded : called ≤ added) :
    OnTime called delay (onLoop called added delay) ↔
      0 ≤ delay.toInt ∨ (1000000 : Int) ∣ delay.toInt := by
  have hle := Int64.le_iff_toInt_le.mp hadded
  rw [onLoop, onTime_armed_iff rfl, dueAt]
  constructor
  · rintro ⟨-, -, hvalid⟩
    exact hvalid
  · intro hvalid
    exact ⟨by omega, fun hpast => by omega, hvalid⟩

/-- No job of this call is ever in the queue. -/
def NeverQueued (s : Delayed) : Prop := ∀ target, s.phase ≠ .queued target

theorem NeverQueued.step (hs : s.NeverQueued) (h : s.step e = some s') : s'.NeverQueued := by
  cases stepped h with
  | runsNow hphase _ _ _ | arms hphase _ _ _ => exact absurd hphase (hs _)
  | fires _ _ _ _ => exact fun _ => DelayedPhase.noConfusion
  | waits _ => exact hs

theorem NeverQueued.covers (hs : s.NeverQueued) (h : s.step e = some s') :
    Covers called delay e := by
  cases stepped h with
  | runsNow hphase _ _ _ | arms hphase _ _ _ => exact absurd hphase (hs _)
  | fires _ _ _ _ | waits _ => exact trivial

end

/-- **`call_later` is on time**, for every delay, every reading of the clock and every
run: on the loop thread unless a negative delay has a part of a second, elsewhere if
nothing wraps and what is dropped of the remainder has passed. -/
theorem call_later_on_time_iff (called delay : Int64) :
    (∀ added evs, called ≤ added →
      (OnTimeFrom called delay (onLoop called added delay) evs ↔
        0 ≤ delay.toInt ∨ (1000000 : Int) ∣ delay.toInt)) ∧
    ∀ evs, OnTimeFrom called delay (offLoop called delay) evs ↔
      NoWrap called delay ∧
        Along step (fun _ e _ => Covers called delay e) (offLoop called delay) evs := by
  constructor
  · intro added evs hadded
    rw [← onTime_onLoop_iff hadded]
    have hp : (onLoop called added delay).Pending called :=
      ⟨fun _ => rfl, Int64.le_iff_toInt_le.mp hadded⟩
    have hcovers :
        Along step (fun _ e _ => Covers called delay e) (onLoop called added delay) evs :=
      along_of_inv (I := NeverQueued) (Q := fun _ e _ => Covers called delay e)
        (fun _ _ _ hs h => hs.step h) (fun _ _ _ hs h => hs.covers h)
        (fun _ => DelayedPhase.noConfusion) evs
    exact ⟨fun hfrom => hfrom.1, fun hon => ⟨hon, (onTime_run_iff hp evs hon).mpr hcovers⟩⟩
  · intro evs
    rw [← onTime_offLoop_iff]
    have hp : (offLoop called delay).Pending called := ⟨fun _ => rfl, Int.le_refl _⟩
    exact and_congr_right fun hon => onTime_run_iff hp evs hon

theorem call_later_on_time_iff_millisecond :
    OnTimeFrom 0 1000 (onLoop 0 5 1000) [.loopStep 7, .loopStep 1000005] ↔
      0 ≤ (1000 : Int64).toInt ∨ (1000000 : Int) ∣ (1000 : Int64).toInt :=
  (call_later_on_time_iff 0 1000).1 5 _ (by decide)

/-- A negative delay on the loop thread gives a negative `tv_usec`; elsewhere a delay of
a microsecond runs out after one nanosecond, and 292 years have already passed. -/
theorem call_later_early :
    ¬ OnTimeFrom 0 (-1) (onLoop 0 0 (-1)) [] ∧
    (loopTimeToTimeval (-1)).tvUsec = -1 ∧
    ¬ OnTimeFrom 500 1 (offLoop 500 1) [.process 501 501, .loopStep 501] ∧
    (run step (offLoop 500 1) [.process 501 501, .loopStep 501]).map Delayed.ran = some [501] ∧
    ¬ OnTimeFrom 0 9223372036854776 (offLoop 0 9223372036854776) [] ∧
    (run step (offLoop 0 9223372036854776) [.process 1 1]).map Delayed.ran = some [1] := by
  refine ⟨fun h => ?_, by decide, fun h => ?_, by decide, fun h => ?_, by decide⟩
  · have hvalid := h.1.timeval _ _ _ rfl
    revert hvalid
    decide
  · have hdue := ((h.2 _ rfl).1).notRounded _ _ _ _ rfl rfl
    revert hdue
    decide
  · have hexact := (h.1.exact _ rfl).1
    revert hexact
    decide

end Delayed

end Wshttp.EventLoop
