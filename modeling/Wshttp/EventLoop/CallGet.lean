/-
# `Wshttp.EventLoop.CallGet` — `call_get`, from the loop thread and from others

Off the loop thread `call_get(f)` enqueues a job that runs `f` and puts what comes of
it, value or exception, into a promise on the caller's stack; the caller waits for the
promise.  On the loop thread it calls `f`.

The queue is the machine of `Wshttp.EventLoop.JobQueue`, and its own steps go on as
they did.  Beside it stands what the loop thread has begun to call: the job, and in it
the calls of `call_get` made on the way, innermost first.  What all callables work on
is one state `shared`; a callable takes effect on it at one point, before or after the
calls it makes itself.  What a callback of libevent does to `shared` is such a call too.

| source                                          | action              |
| :---------------------------------------------- | :------------------ |
| `call_soon(f)`, its push                        | `callSoon t f`      |
| `call_get(f)` off the loop, the push            | `callGet t f`       |
| `call_get(f)` on the loop                       | `callInline f`      |
| the innermost callable takes effect             | `exec`              |
| it comes back, or throws                        | `returns`           |
| `fut.get()` comes back, or throws               | `resume t`          |
| the steps of the queue                          | `activate t`, `wake`, `swap`, `pop`, `finish` |

`history` records the calls as in `Wshttp.Lib.History`.
-/
import Wshttp.EventLoop.JobQueue
import Wshttp.Lib.History

namespace Wshttp.EventLoop

open Machine History

/-- A job is known by its ticket; an inline call by the number of those before it. -/
inductive CallId where
  | job (ticket : Nat)
  | inline (n : Nat)
  deriving DecidableEq

/-- A job has ended before a later one takes effect. -/
def CallId.Before : CallId → CallId → Prop
  | .job j, .job k => j < k
  | _, _ => False

/-- What the queue holds: the callable of `call_soon`, or the closure of `call_get`. -/
inductive Closure (Tid F : Type*) where
  | soon (f : F)
  | get (caller : Tid) (f : F)

section
variable {Tid F σ V E : Type*}

def Closure.f : Closure Tid F → F
  | .soon f => f
  | .get _ f => f

/-- A callable on the loop thread's stack, with what came of it once it has taken effect. -/
structure Frame (F V E : Type*) where
  id : CallId
  f : F
  result : Option (Except E V)

structure Calls (Tid F σ V E : Type*) where
  queue : State Tid (Closure Tid F)
  stack : List (Frame F V E)
  shared : σ
  inlines : Nat
  /-- by the ticket of the job that holds them -/
  promises : Nat → Option (Except E V)
  /-- in `fut.get()`, or on the way to it -/
  waiting : Tid → Option Nat
  history : List (Event Tid CallId F (Except E V))

inductive CallAct (Tid F : Type*) where
  | callSoon (t : Tid) (f : F)
  | callGet (t : Tid) (f : F)
  | callInline (f : F)
  | exec
  | returns
  | resume (t : Tid)
  | activate (t : Tid)
  | wake
  | swap
  | pop
  | finish

/-- The call that the action makes: whose, and of what. -/
def CallAct.call (loop : Tid) : CallAct Tid F → Option (Tid × F)
  | .callSoon t f | .callGet t f => some (t, f)
  | .callInline f => some (loop, f)
  | _ => none

/-- What it puts into the queue. -/
def CallAct.closure : CallAct Tid F → Option (Closure Tid F)
  | .callSoon _ f => some (.soon f)
  | .callGet t f => some (.get t f)
  | _ => none

namespace Calls

variable [DecidableEq Tid]

def init (shared : σ) : Calls Tid F σ V E where
  queue := EventLoop.init
  stack := []
  shared := shared
  inlines := 0
  promises := fun _ => none
  waiting := fun _ => none
  history := []

/-- The id of the job that is pushed next. -/
def nextJob (s : Calls Tid F σ V E) : CallId := .job s.queue.pushed.length

/-- A step of the queue alone. -/
def queueStep (loop : Tid) (s : Calls Tid F σ V E) (a : Act Tid (Closure Tid F)) :
    Option (Calls Tid F σ V E) :=
  (EventLoop.step loop s.queue a).map fun q => { s with queue := q }

/-- The loop's job has come back with `r`.  The closure of `call_get` catches what its
callable throws; nothing catches it for `call_soon`. -/
def jobReturns (loop : Tid) (s : Calls Tid F σ V E) (k : Nat) (r : Except E V) :
    Option (Calls Tid F σ V E) :=
  match s.queue.loopPc with
  | .running ⟨_, .get _ _⟩ =>
      (EventLoop.step loop s.queue .jobReturns).map fun q =>
        { s with
          queue := q
          stack := []
          promises := Function.update s.promises k (some r)
          history := s.history ++ [.ended (.job k)] }
  | .running ⟨_, .soon _⟩ =>
      match r with
      | .ok _ =>
          (EventLoop.step loop s.queue .jobReturns).map fun q =>
            { s with queue := q, stack := [], history := s.history ++ [.ended (.job k)] }
      | .error _ =>
          (EventLoop.step loop s.queue .jobThrows).map fun q => { s with queue := q, stack := [] }
  | _ => none

/-- One step of one thread; `sem` is what a callable does to the shared state. -/
def step (sem : F → σ → Except E V × σ) (loop : Tid) (s : Calls Tid F σ V E) :
    CallAct Tid F → Option (Calls Tid F σ V E)
  | .callSoon t f =>
      if s.waiting t = none then
        (EventLoop.step loop s.queue (.push t (.soon f))).map fun q =>
          { s with queue := q, history := s.history ++ [.invoke t s.nextJob f] }
      else none
  | .callGet t f =>
      if t ≠ loop ∧ s.waiting t = none then
        (EventLoop.step loop s.queue (.push t (.get t f))).map fun q =>
          { s with
            queue := q
            waiting := Function.update s.waiting t (some s.queue.pushed.length)
            history := s.history ++ [.invoke t s.nextJob f] }
      else none
  | .callInline f =>
      if s.queue.loopPc.mayCall = true ∧ s.queue.midCall loop = false then
        some { s with
          stack := ⟨.inline s.inlines, f, none⟩ :: s.stack
          inlines := s.inlines + 1
          history := s.history ++ [.invoke loop (.inline s.inlines) f] }
      else none
  | .exec =>
      match s.stack, s.queue.midCall loop with
      | ⟨id, f, none⟩ :: rest, false =>
          some { s with
            stack := ⟨id, f, some (sem f s.shared).1⟩ :: rest
            shared := (sem f s.shared).2
            history := s.history ++ [.exec id f (sem f s.shared).1] }
      | _, _ => none
  | .returns =>
      match s.stack, s.queue.midCall loop with
      | ⟨.inline n, _, some r⟩ :: rest, false =>
          some { s with stack := rest, history := s.history ++ [.respond loop (.inline n) r] }
      | [⟨.job k, _, some r⟩], false => s.jobReturns loop k r
      | _, _ => none
  | .resume t =>
      match s.waiting t, s.queue.midCall t with
      | some k, false =>
          (s.promises k).map fun r =>
            { s with
              waiting := Function.update s.waiting t none
              history := s.history ++ [.respond t (.job k) r] }
      | _, _ => none
  | .activate t => s.queueStep loop (.activate t)
  | .wake => if s.stack = [] then s.queueStep loop .wake else none
  | .swap => s.queueStep loop .swap
  | .pop =>
      match s.queue.swappedQueue with
      | q :: _ =>
          (s.queueStep loop .pop).map fun s =>
            { s with stack := [⟨.job q.ticket, q.job.f, none⟩] }
      | [] => none
  | .finish => s.queueStep loop .finish

/-! ## What a step can do -/

variable {sem : F → σ → Except E V × σ} {loop : Tid} {s s' : Calls Tid F σ V E}
  {a : CallAct Tid F}

/-- Its guards, and the state it leaves, for jobs of `call_soon` that do not throw. -/
inductive Stepped (sem : F → σ → Except E V × σ) (loop : Tid) (s : Calls Tid F σ V E) :
    CallAct Tid F → Calls Tid F σ V E → Prop
  | callSoon {t : Tid} {f : F} {q : State Tid (Closure Tid F)} :
      s.waiting t = none → EventLoop.step loop s.queue (.push t (.soon f)) = some q →
      Stepped sem loop s (.callSoon t f)
        { s with queue := q, history := s.history ++ [.invoke t s.nextJob f] }
  | callGet {t : Tid} {f : F} {q : State Tid (Closure Tid F)} :
      t ≠ loop → s.waiting t = none →
      EventLoop.step loop s.queue (.push t (.get t f)) = some q →
      Stepped sem loop s (.callGet t f)
        { s with
          queue := q
          waiting := Function.update s.waiting t (some s.queue.pushed.length)
          history := s.history ++ [.invoke t s.nextJob f] }
  | callInline {f : F} :
      s.queue.loopPc.mayCall = true → s.queue.midCall loop = false →
      Stepped sem loop s (.callInline f)
        { s with
          stack := ⟨.inline s.inlines, f, none⟩ :: s.stack
          inlines := s.inlines + 1
          history := s.history ++ [.invoke loop (.inline s.inlines) f] }
  | exec {id : CallId} {f : F} {rest : List (Frame F V E)} :
      s.stack = ⟨id, f, none⟩ :: rest → s.queue.midCall loop = false →
      Stepped sem loop s .exec
        { s with
          stack := ⟨id, f, some (sem f s.shared).1⟩ :: rest
          shared := (sem f s.shared).2
          history := s.history ++ [.exec id f (sem f s.shared).1] }
  | inlineReturns {n : Nat} {f : F} {r : Except E V} {rest : List (Frame F V E)} :
      s.stack = ⟨.inline n, f, some r⟩ :: rest → s.queue.midCall loop = false →
      Stepped sem loop s .returns
        { s with stack := rest, history := s.history ++ [.respond loop (.inline n) r] }
  | getReturns {k : Nat} {f g : F} {r : Except E V} {caller : Tid} {ticket : Nat}
      {q : State Tid (Closure Tid F)} :
      s.stack = [⟨.job k, f, some r⟩] → s.queue.loopPc = .running ⟨ticket, .get caller g⟩ →
      EventLoop.step loop s.queue .jobReturns = some q →
      Stepped sem loop s .returns
        { s with
          queue := q
          stack := []
          promises := Function.update s.promises k (some r)
          history := s.history ++ [.ended (.job k)] }
  | soonReturns {k : Nat} {f g : F} {v : V} {ticket : Nat} {q : State Tid (Closure Tid F)} :
      s.stack = [⟨.job k, f, some (.ok v)⟩] → s.queue.loopPc = .running ⟨ticket, .soon g⟩ →
      EventLoop.step loop s.queue .jobReturns = some q →
      Stepped sem loop s .returns
        { s with queue := q, stack := [], history := s.history ++ [.ended (.job k)] }
  | soonThrows {k : Nat} {f g : F} {e : E} {ticket : Nat} {q : State Tid (Closure Tid F)} :
      s.stack = [⟨.job k, f, some (.error e)⟩] → s.queue.loopPc = .running ⟨ticket, .soon g⟩ →
      EventLoop.step loop s.queue .jobThrows = some q →
      Stepped sem loop s .returns { s with queue := q, stack := [] }
  | resume {t : Tid} {k : Nat} {r : Except E V} :
      s.waiting t = some k → s.queue.midCall t = false → s.promises k = some r →
      Stepped sem loop s (.resume t)
        { s with
          waiting := Function.update s.waiting t none
          history := s.history ++ [.respond t (.job k) r] }
  | activate {t : Tid} {q : State Tid (Closure Tid F)} :
      EventLoop.step loop s.queue (.activate t) = some q →
      Stepped sem loop s (.activate t) { s with queue := q }
  | wake {q : State Tid (Closure Tid F)} :
      s.stack = [] → EventLoop.step loop s.queue .wake = some q →
      Stepped sem loop s .wake { s with queue := q }
  | swap {q : State Tid (Closure Tid F)} :
      EventLoop.step loop s.queue .swap = some q → Stepped sem loop s .swap { s with queue := q }
  | pop {j : Queued (Closure Tid F)} {rest : List (Queued (Closure Tid F))}
      {q : State Tid (Closure Tid F)} :
      s.queue.swappedQueue = j :: rest → EventLoop.step loop s.queue .pop = some q →
      Stepped sem loop s .pop
        { s with queue := q, stack := [⟨.job j.ticket, j.job.f, none⟩] }
  | finish {q : State Tid (Closure Tid F)} :
      EventLoop.step loop s.queue .finish = some q →
      Stepped sem loop s .finish { s with queue := q }

theorem stepped (h : step sem loop s a = some s') : Stepped sem loop s a s' := by
  cases a with
  | callSoon t f =>
      simp only [step] at h
      split at h
      case isFalse => cases h
      next hwait =>
      obtain ⟨q, hq, rfl⟩ := Option.map_eq_some_iff.mp h
      exact .callSoon hwait hq
  | callGet t f =>
      simp only [step] at h
      split at h
      case isFalse => cases h
      next hwait =>
      obtain ⟨q, hq, rfl⟩ := Option.map_eq_some_iff.mp h
      exact .callGet hwait.1 hwait.2 hq
  | callInline f =>
      simp only [step] at h
      split at h
      case isFalse => cases h
      next hcan => exact Option.some.inj h ▸ .callInline hcan.1 hcan.2
  | exec =>
      simp only [step] at h
      split at h
      case h_2 => cases h
      next hstack hmid => exact Option.some.inj h ▸ .exec hstack hmid
  | returns =>
      simp only [step] at h
      split at h
      · next hstack hmid => exact Option.some.inj h ▸ .inlineReturns hstack hmid
      · next k f r hstack _ =>
        unfold jobReturns at h
        split at h
        · next hpc =>
          obtain ⟨q, hq, rfl⟩ := Option.map_eq_some_iff.mp h
          exact .getReturns hstack hpc hq
        · next hpc =>
          cases r with
          | ok v =>
              obtain ⟨q, hq, rfl⟩ := Option.map_eq_some_iff.mp h
              exact .soonReturns hstack hpc hq
          | error e =>
              obtain ⟨q, hq, rfl⟩ := Option.map_eq_some_iff.mp h
              exact .soonThrows hstack hpc hq
        · cases h
      · cases h
  | resume t =>
      simp only [step] at h
      split at h
      case h_2 => cases h
      next k hwait hmid =>
      obtain ⟨r, hr, rfl⟩ := Option.map_eq_some_iff.mp h
      exact .resume hwait hmid hr
  | activate t =>
      obtain ⟨q, hq, rfl⟩ := Option.map_eq_some_iff.mp h
      exact .activate hq
  | wake =>
      simp only [step] at h
      split at h
      case isFalse => cases h
      next hstack =>
      obtain ⟨q, hq, rfl⟩ := Option.map_eq_some_iff.mp h
      exact .wake hstack hq
  | swap =>
      obtain ⟨q, hq, rfl⟩ := Option.map_eq_some_iff.mp h
      exact .swap hq
  | pop =>
      simp only [step] at h
      split at h
      case h_2 => cases h
      next j rest hbatch =>
      obtain ⟨u, hu, rfl⟩ := Option.map_eq_some_iff.mp h
      obtain ⟨q, hq, rfl⟩ := Option.map_eq_some_iff.mp hu
      exact .pop hbatch hq
  | finish =>
      obtain ⟨q, hq, rfl⟩ := Option.map_eq_some_iff.mp h
      exact .finish hq

end Calls

end

end Wshttp.EventLoop
