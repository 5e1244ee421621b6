/-
# `Wshttp.EventLoop.CallEvery` — a repeated event, between its callbacks

`call_every(interval, f, start_immediately, wait)` hands its two flags on as they are,
and `_call_every` passes them to `init_event` by position, where they arrive as
`one_off` and `start_immediately`.  The lambda that arms the event again is installed
for `fixed_interval` only, which stays off.  So the event fires once, and
`is_running` goes on saying that it is armed.

**Proved here.**  The watcher does what `call_every` promises exactly if it is to be
armed at once or is not to wait, and its timer does not expire (`call_every_ticks_iff`).
-/
import Wshttp.EventLoop.Watcher
import Wshttp.Lib.Run

namespace Wshttp.EventLoop

open Machine

variable {Task : Type}

/-! ## Runs of one watcher -/

/-- `stopped` is history: the last call was `stop`. -/
structure Repeated (Task : Type) where
  watcher : EvWatcher Task
  stopped : Bool

inductive RepeatedEvent where
  /-- the event is called back at `now`; its task comes back at `done`, or throws -/
  | expire (now : Int) (done : Option Int)
  | start (now : Int)
  | stop

def RepeatedEvent.expires : RepeatedEvent → Bool
  | .expire _ _ => true
  | .start _ | .stop => false

namespace Repeated

/-- The timer may expire from its deadline on. -/
def due (now : Int) (r : Repeated Task) : Bool :=
  match r.watcher.armed with
  | some deadline => deadline ≤ now
  | none => false

def step (r : Repeated Task) : RepeatedEvent → Option (Repeated Task)
  | .expire now done =>
      if r.due now then some { r with watcher := (r.watcher.expire done).2 } else none
  | .start now => some { watcher := (r.watcher.start now).2, stopped := false }
  | .stop => some { watcher := r.watcher.stop.2, stopped := true }

/-! ## What `call_every` promises -/

/-- In every state: `is_running` is right, and after `stop` the task cannot run. -/
structure Sound (r : Repeated Task) : Prop where
  running : r.watcher.isRunning = true ↔ r.watcher.armed.isSome = true
  stopped : r.stopped = true → r.watcher.armed = none

/-- Every step: an expiry has run `f`, and armed the event again for the next interval;
if the event is to wait, the interval begins when `f` has come back. -/
structure Ticks (f : Task) (wait : Bool) (r : Repeated Task) (e : RepeatedEvent)
    (r' : Repeated Task) : Prop where
  runs : ∀ now done, e = .expire now done → (r.watcher.expire done).1 = some f
  again : ∀ now done, e = .expire now done →
    ∃ deadline, r'.watcher.armed = some deadline ∧
      ∀ back, done = some back → wait = true → deadline = back + r.watcher.interval.toNanos
  sound : r'.Sound

/-- What is promised of the watcher that `call_every` returns, and of its run. -/
structure Promised (f : Task) (startImmediately wait : Bool) (w : EvWatcher Task)
    (evs : List RepeatedEvent) : Prop where
  armed : w.armed.isSome = true ↔ startImmediately = true
  sound : Sound ⟨w, false⟩
  ticks : Along step (Ticks f wait) ⟨w, false⟩ evs

section
variable {f : Task} {wait : Bool} {r r' : Repeated Task} {e : RepeatedEvent}

/-! ## One step -/

/-- What holds of the watcher throughout: its task is the one it was given. -/
structure Keeps (f : Task) (r : Repeated Task) : Prop where
  task : r.watcher.f = .task f
  sound : r.Sound

theorem sound_start (now : Int) (hr : r.Sound) :
    Sound ⟨(r.watcher.start now).2, false⟩ := by
  refine ⟨?_, fun h => (nomatch h)⟩
  show (r.watcher.start now).2.isRunning = true ↔ _
  unfold EvWatcher.start
  split
  · exact hr.running
  · exact iff_of_true rfl rfl

theorem sound_stop (hr : r.Sound) : Sound ⟨r.watcher.stop.2, true⟩ := by
  have hdisarmed : r.watcher.stop.2.armed = none :=
    EvWatcher.RunsIfArmed.stop hr.running.mpr
  refine ⟨?_, fun _ => hdisarmed⟩
  refine iff_of_false ?_ ?_
  · rw [EvWatcher.stop_isRunning]
    exact Bool.false_ne_true
  · show ¬ r.watcher.stop.2.armed.isSome = true
    rw [hdisarmed]
    exact Bool.false_ne_true

/-- An expiry leaves the event as libevent has left it, disarmed. -/
theorem expire_disarms (hr : r.Keeps f) (done : Option Int) :
    (r.watcher.expire done).2.armed = none := by
  simp only [EvWatcher.expire, EvWatcher.eventDel, hr.task]

theorem ticks_iff (hr : r.Keeps f) (h : r.step e = some r') :
    Ticks f wait r e r' ↔ e.expires = false := by
  cases e with
  | expire now done =>
      refine iff_of_false (fun hticks => ?_) Bool.noConfusion
      simp only [step] at h
      split at h
      case isFalse => cases h
      obtain rfl := Option.some.inj h
      obtain ⟨deadline, harmed, -⟩ := hticks.again now done rfl
      cases (expire_disarms hr done).symm.trans harmed
  | start now =>
      obtain rfl := Option.some.inj h
      exact iff_of_true ⟨(fun _ _ he => nomatch he), (fun _ _ he => nomatch he),
        sound_start now hr.sound⟩ rfl
  | stop =>
      obtain rfl := Option.some.inj h
      exact iff_of_true ⟨(fun _ _ he => nomatch he), (fun _ _ he => nomatch he),
        sound_stop hr.sound⟩ rfl

theorem step_task (hr : r.Keeps f) (h : r.step e = some r') : r'.watcher.f = .task f := by
  cases e with
  | expire now done =>
      simp only [step] at h
      split at h
      case isFalse => cases h
      obtain rfl := Option.some.inj h
      exact (EvWatcher.expire_f done).trans hr.task
  | start now =>
      obtain rfl := Option.some.inj h
      exact EvWatcher.start_f.trans hr.task
  | stop =>
      obtain rfl := Option.some.inj h
      exact EvWatcher.stop_f.trans hr.task

end

/-! ## The watcher that `call_every` returns -/

section
variable {now : Int} {interval : Int64} {f : Task} {startImmediately wait : Bool}

theorem callEvery_armed :
    (EvWatcher.callEvery now interval f startImmediately wait).armed.isSome = true ↔
      startImmediately = true ∨ wait = true := by
  rw [EvWatcher.callEvery_eq]
  cases startImmediately <;> cases wait <;> simp [EvWatcher.start, EvWatcher.eventAdd]

theorem callEvery_keeps :
    Keeps f ⟨EvWatcher.callEvery now interval f startImmediately wait, false⟩ := by
  refine ⟨EvWatcher.callEvery_f _ _, ?_, fun h => (nomatch h)⟩
  show (EvWatcher.callEvery now interval f startImmediately wait).isRunning = true ↔ _
  rw [EvWatcher.callEvery_eq]
  cases startImmediately <;> cases wait <;> simp [EvWatcher.start, EvWatcher.eventAdd]

/-- **A repeated event is as promised exactly if it never expires**, and is not to wait
without being armed.  For every task, interval and sequence of expiries and calls. -/
theorem call_every_ticks_iff (now : Int) (interval : Int64) (f : Task)
    (startImmediately wait : Bool) (evs : List RepeatedEvent) :
    Promised f startImmediately wait
        (EvWatcher.callEvery now interval f startImmediately wait) evs ↔
      (startImmediately = true ∨ wait = false) ∧
        Along step (fun _ e _ => e.expires = false)
          ⟨EvWatcher.callEvery now interval f startImmediately wait, false⟩ evs := by
  have harmed : ((EvWatcher.callEvery now interval f startImmediately wait).armed.isSome = true ↔
      startImmediately = true) ↔ startImmediately = true ∨ wait = false := by
    rw [callEvery_armed]
    cases startImmediately <;> cases wait <;> simp
  have hticks : Along step (Ticks f wait)
        ⟨EvWatcher.callEvery now interval f startImmediately wait, false⟩ evs ↔
      Along step (fun _ e _ => e.expires = false)
        ⟨EvWatcher.callEvery now interval f startImmediately wait, false⟩ evs :=
    along_iff (I := Keeps f) (Q := Ticks f wait)
      (R := fun _ (e : RepeatedEvent) _ => e.expires = false) (fun _ _ _ hr h => ticks_iff hr h)
      (fun _ _ _ hr hq h => ⟨step_task hr h, hq.sound⟩) callEvery_keeps evs
  constructor
  · intro hprom
    exact ⟨harmed.mp hprom.armed, hticks.mp hprom.ticks⟩
  · rintro ⟨hflags, halong⟩
    exact ⟨harmed.mpr hflags, callEvery_keeps.sound, hticks.mpr halong⟩

/-- The first expiry of an event armed at once: it has run, it is not armed again, and
`is_running` says it is, so that `start` does nothing. -/
theorem fires_once :
    ¬ Promised "f" true false (EvWatcher.callEvery 0 1000 "f") [.expire 1000000 (some 1000001)] ∧
      (run step ⟨EvWatcher.callEvery 0 1000 "f", false⟩
          [.expire 1000000 (some 1000001), .start 2000000]).map
        (fun r => (r.watcher.isRunning, r.watcher.armed)) = some (true, none) := by
  refine ⟨fun hprom => ?_, by decide⟩
  obtain ⟨hticks, -⟩ := hprom.ticks _ rfl
  obtain ⟨deadline, harmed, -⟩ := hticks.again _ _ rfl
  cases harmed

end

end Repeated

end Wshttp.EventLoop
