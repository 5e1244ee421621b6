/-
# `Wshttp.EventLoop.Watcher` — `ev_watcher`, over a timer of libevent

An `ev_watcher` owns an event without a descriptor and the callback it is for.  The
event is made without `EV_PERSIST`: libevent disarms it before it calls back.  What
libevent knows of it is the deadline it is armed for, if it is.

| libevent                             | here                               |
| :----------------------------------- | :--------------------------------- |
| `event_add(ev, &interval)`           | `eventAdd`, at a clock reading     |
| `event_del(ev)`                      | `eventDel`                         |
| the deadline passes                  | `expire`                           |

Both calls are taken to succeed.  Clock readings are in nanoseconds.

`init_event` has three flags behind the task, all with defaults, and its callers
pass them by position.
-/
import Mathlib.Tactic.Common

namespace Wshttp.EventLoop

/-! ## Intervals -/

structure Timeval where
  tvSec : Int64
  tvUsec : Int64
  deriving DecidableEq, Repr

/-- `loop_time_to_timeval`, on a count of microseconds. -/
def loopTimeToTimeval (t : Int64) : Timeval where
  tvSec := t / 1000000
  tvUsec := t % 1000000

/-- The nanoseconds a `timeval` stands for. -/
def Timeval.toNanos (tv : Timeval) : Int := 1000 * (1000000 * tv.tvSec.toInt + tv.tvUsec.toInt)

/-! ## The watcher -/

/-- `std::function<void()> f`: empty, the task as it was given, or the lambda of
`init_event` around it. -/
inductive Callback (Task : Type) where
  | null
  | task (t : Task)
  | rearming (t : Task)
  deriving DecidableEq

structure EvWatcher (Task : Type) where
  isRunning : Bool := false
  /-- the deadline libevent has for `ev` -/
  armed : Option Int := none
  interval : Timeval := ⟨0, 0⟩
  f : Callback Task := .null
  deriving DecidableEq

namespace EvWatcher

variable {Task : Type}

def eventAdd (now : Int) (w : EvWatcher Task) : EvWatcher Task :=
  { w with armed := some (now + w.interval.toNanos) }

def eventDel (w : EvWatcher Task) : EvWatcher Task := { w with armed := none }

def start (now : Int) (w : EvWatcher Task) : Bool × EvWatcher Task :=
  if w.isRunning then (false, w) else (true, { w.eventAdd now with isRunning := true })

def stop (w : EvWatcher Task) : Bool × EvWatcher Task :=
  if w.isRunning then (true, { w.eventDel with isRunning := false }) else (false, w)

/-- `init_event`, on a new watcher. -/
def initEvent (now : Int) (t : Int64) (task : Task) (oneOff : Bool := false)
    (startImmediately : Bool := true) (fixedInterval : Bool := false) : EvWatcher Task :=
  let w : EvWatcher Task :=
    { f := if oneOff || !fixedInterval then .task task else .rearming task
      interval := loopTimeToTimeval t }
  if oneOff || startImmediately then (w.start now).2 else w

/-- The event's callback, after libevent has disarmed it: what it runs, and the
watcher after it.  `done` is the clock when the task comes back, if it does not throw. -/
def expire (done : Option Int) (w : EvWatcher Task) : Option Task × EvWatcher Task :=
  let w := w.eventDel
  match w.f, done with
  | .null, _ => (none, w)
  | .task t, _ => (some t, w)
  | .rearming t, some now => (some t, w.eventDel.eventAdd now)
  | .rearming t, none => (some t, w)

/-- `_call_every`: the watcher it returns. -/
def callEveryAs (now : Int) (interval : Int64) (f : Task) (startImmediately fixedInterval : Bool) :
    EvWatcher Task :=
  initEvent now interval f startImmediately fixedInterval

/-- `call_every`. -/
def callEvery (now : Int) (interval : Int64) (f : Task) (startImmediately : Bool := true)
    (wait : Bool := false) : EvWatcher Task :=
  callEveryAs now interval f startImmediately wait

/-- The watcher of `add_oneshot_event`. -/
def oneshot (now : Int) (delay : Int64) (hook : Task) : EvWatcher Task :=
  initEvent now delay hook true

/-! ## What the operations do -/

section
variable {now : Int} {t : Int64} {f : Task} {w : EvWatcher Task}

/-- The flag never says less than libevent knows. -/
def RunsIfArmed (w : EvWatcher Task) : Prop := w.armed.isSome = true → w.isRunning = true

@[simp] theorem start_f : (w.start now).2.f = w.f := by
  unfold start
  split <;> rfl

@[simp] theorem stop_f : w.stop.2.f = w.f := by
  unfold stop
  split <;> rfl

@[simp] theorem expire_f (done : Option Int) : (w.expire done).2.f = w.f := by
  simp only [expire, eventDel, eventAdd]
  split <;> rfl

theorem start_isRunning : (w.start now).2.isRunning = true := by
  unfold start
  split
  · next h => exact h
  · rfl

theorem stop_isRunning : w.stop.2.isRunning = false := by
  unfold stop
  split
  · rfl
  · next h => exact Bool.eq_false_iff.mpr h

theorem RunsIfArmed.stop (h : w.RunsIfArmed) : w.stop.2.armed = none := by
  unfold EvWatcher.stop
  split
  · rfl
  · next hoff =>
    rcases hw : w.armed with _ | d
    · rfl
    · exact absurd (h (by rw [hw]; rfl)) hoff

theorem RunsIfArmed.expire {deadline : Int} (h : w.RunsIfArmed) (harmed : w.armed = some deadline)
    (done : Option Int) : (w.expire done).2.RunsIfArmed := by
  have hrunning : w.isRunning = true := h (by rw [harmed]; rfl)
  have hsame : (w.expire done).2.isRunning = w.isRunning := by
    simp only [EvWatcher.expire, eventDel, eventAdd]
    split <;> rfl
  exact fun _ => hsame.trans hrunning

/-- By position, the first flag of `_call_every` decides about `one_off`, the second
about `start_immediately`, and `fixed_interval` is always off. -/
theorem callEvery_eq (startImmediately wait : Bool) :
    callEvery now t f startImmediately wait =
      let w : EvWatcher Task := { f := .task f, interval := loopTimeToTimeval t }
      if startImmediately || wait then (w.start now).2 else w := by
  simp only [callEvery, callEveryAs, initEvent, Bool.not_false, Bool.or_true, if_true]

@[simp] theorem callEvery_f (startImmediately wait : Bool) :
    (callEvery now t f startImmediately wait).f = .task f := by
  rw [callEvery_eq]
  dsimp only
  split
  · rw [start_f]
  · rfl

theorem callEvery_runsIfArmed (startImmediately wait : Bool) :
    (callEvery now t f startImmediately wait).RunsIfArmed := by
  rw [callEvery_eq]
  dsimp only
  split
  · exact fun _ => start_isRunning
  · exact fun harmed => (nomatch harmed)

end

end EvWatcher

end Wshttp.EventLoop
