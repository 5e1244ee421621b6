/-
# `Wshttp.EventLoop.Progress` — a caller of `call_get` is always served

As long as a caller waits for a job that has not come back, the loop thread can take a
step, or a thread can finish the `call_soon` that it is in the middle of.  What is to
be done has a weight: eight for each job that has not begun, and less for the frames of
the stack and for where the loop thread stands.  Every step of the loop thread makes it
smaller, and only new calls make it greater.

**Proved here.**  What a caller may rely on in every interleaving (`serves_run`): a
waiting one has its answer when that weight has been used up, an inline call is over in
two steps, and the answers are those of the calls made one after the other.
-/
import Wshttp.EventLoop.Served

namespace Wshttp.EventLoop

open Machine History

variable {Tid F σ V E : Type*}

/-- The action starts a call. -/
def CallAct.isCall : CallAct Tid F → Bool
  | .callSoon _ _ | .callGet _ _ | .callInline _ => true
  | _ => false

/-- The step is one of the loop thread. -/
def CallAct.ofLoop [DecidableEq Tid] (loop : Tid) : CallAct Tid F → Bool
  | .exec | .returns | .wake | .swap | .pop | .finish => true
  | .activate t => t = loop
  | _ => false

/-! ## The weight of what is to be done -/

/-- One step for a frame that has taken effect, and two for one that has not. -/
def stackWeight : List (Frame F V E) → Nat
  | [] => 0
  | fr :: stack => (if fr.result.isSome then 1 else 2) + stackWeight stack

section
variable {Job : Type*}

/-- How far the loop thread is from its next job. -/
def LoopPc.weight (emptyBatch waker : Bool) : LoopPc Job → Nat
  | .running _ => 5
  | .draining => if emptyBatch then 4 else 0
  | .polling => if waker then 2 else 3
  | .entered => 1
  | .unwound => 0

theorem LoopPc.weight_waker_le (pc : LoopPc Job) (emptyBatch waker : Bool) :
    pc.weight emptyBatch true ≤ pc.weight emptyBatch waker := by
  cases pc with
  | polling => cases waker <;> simp [weight]
  | entered | draining | running | unwound => exact Nat.le_refl _

theorem LoopPc.weight_draining_lt (emptyBatch waker : Bool) (j : Queued Job) :
    (draining : LoopPc Job).weight emptyBatch waker < (running j).weight emptyBatch waker := by
  cases emptyBatch <;> simp [weight]

end

namespace Calls

def pending (s : Calls Tid F σ V E) : List (Queued (Closure Tid F)) :=
  s.queue.swappedQueue ++ s.queue.jobQueue

def weight (loop : Tid) (s : Calls Tid F σ V E) : Nat :=
  8 * s.pending.length + stackWeight s.stack +
    s.queue.loopPc.weight s.queue.swappedQueue.isEmpty s.queue.jobWaker +
    (s.queue.midCall loop).toNat

variable {sem : F → σ → Except E V × σ} {loop : Tid} {σ₀ : σ} {s s' : Calls Tid F σ V E}

theorem soonOk_of_not_isCall {a : CallAct Tid F} (ha : a.isCall = false) : SoonOk sem a := by
  cases a with
  | callSoon t f => cases ha
  | callGet | callInline | exec | returns | resume | activate | wake | swap | pop | finish =>
      trivial

/-- While somebody waits for a job that is not running, and there is no batch, the queue
is not empty. -/
theorem Inv.jobQueue_ne_nil (hs : s.Inv sem loop σ₀) {t : Tid} {k : Nat}
    (hwait : s.waiting t = some k)
    (hnone : s.promises k = none) (hpc : ∀ j, s.queue.loopPc ≠ .running j)
    (hbatch : s.queue.swappedQueue = []) : s.queue.jobQueue ≠ [] := by
  obtain ⟨caller, f, hmem | hrun⟩ := (hs.waits t k hwait).served.resolve_left (by simp [hnone])
  · rw [hbatch, List.nil_append] at hmem
    exact List.ne_nil_of_mem hmem
  · exact absurd hrun (hpc _)

variable [DecidableEq Tid]

/-! ## When a step is enabled -/

theorem step_activate (sem : F → σ → Except E V × σ) (loop : Tid) {t : Tid}
    (hmid : s.queue.midCall t = true) :
    step sem loop s (.activate t) = some
      { s with queue := { s.queue with
          jobWaker := true, midCall := Function.update s.queue.midCall t false } } := by
  simp only [step, queueStep, EventLoop.step, if_pos hmid, Option.map_some]

theorem step_wake (hstack : s.stack = []) (hpc : s.queue.loopPc = .polling)
    (hmid : s.queue.midCall loop = false) (hwaker : s.queue.jobWaker = true) :
    step sem loop s .wake = some
      { s with queue := { s.queue with jobWaker := false, loopPc := .entered } } := by
  simp only [step, queueStep, EventLoop.step, if_pos hstack, hpc, hmid, hwaker, Option.map_some]

theorem step_swap (hpc : s.queue.loopPc = .entered) :
    step sem loop s .swap = some
      { s with queue := { s.queue with
          jobQueue := [], swappedQueue := s.queue.jobQueue, loopPc := .draining } } := by
  simp only [step, queueStep, EventLoop.step, hpc, Option.map_some]

theorem step_pop {j : Queued (Closure Tid F)} {rest : List (Queued (Closure Tid F))}
    (hpc : s.queue.loopPc = .draining) (hbatch : s.queue.swappedQueue = j :: rest) :
    step sem loop s .pop = some
      { s with
        queue := { s.queue with
          swappedQueue := rest, loopPc := .running j, ran := s.queue.ran ++ [j] }
        stack := [⟨.job j.ticket, j.job.f, none⟩] } := by
  simp only [step, queueStep, EventLoop.step, hpc, hbatch, Option.map_some]

theorem step_finish (hpc : s.queue.loopPc = .draining) (hbatch : s.queue.swappedQueue = []) :
    step sem loop s .finish = some { s with queue := { s.queue with loopPc := .polling } } := by
  simp only [step, queueStep, EventLoop.step, hpc, hbatch, Option.map_some]

theorem step_exec {id : CallId} {f : F} {rest : List (Frame F V E)}
    (hstack : s.stack = ⟨id, f, none⟩ :: rest) (hmid : s.queue.midCall loop = false) :
    step sem loop s .exec = some
      { s with
        stack := ⟨id, f, some (sem f s.shared).1⟩ :: rest
        shared := (sem f s.shared).2
        history := s.history ++ [.exec id f (sem f s.shared).1] } := by
  simp only [step, hstack, hmid]

theorem step_inlineReturns {n : Nat} {f : F} {r : Except E V} {rest : List (Frame F V E)}
    (hstack : s.stack = ⟨.inline n, f, some r⟩ :: rest) (hmid : s.queue.midCall loop = false) :
    step sem loop s .returns = some
      { s with stack := rest, history := s.history ++ [.respond loop (.inline n) r] } := by
  simp only [step, hstack, hmid]

theorem step_resume {t : Tid} {k : Nat} {r : Except E V} (hwait : s.waiting t = some k)
    (hmid : s.queue.midCall t = false) (hr : s.promises k = some r) :
    step sem loop s (.resume t) = some
      { s with
        waiting := Function.update s.waiting t none
        history := s.history ++ [.respond t (.job k) r] } := by
  simp only [step, hwait, hmid, hr, Option.map_some]

/-- A job comes back, unless it is one of `call_soon` that has thrown. -/
theorem step_jobReturns (sem : F → σ → Except E V × σ) {k : Nat} {f : F} {r : Except E V}
    {j : Queued (Closure Tid F)} (hstack : s.stack = [⟨.job k, f, some r⟩])
    (hmid : s.queue.midCall loop = false) (hpc : s.queue.loopPc = .running j)
    (hr : ∀ g, j.job = .soon g → ∃ v, r = .ok v) :
    ∃ p, step sem loop s .returns = some
      { s with
        queue := { s.queue with loopPc := .draining }, stack := [], promises := p
        history := s.history ++ [.ended (.job k)] } := by
  obtain ⟨ticket, job⟩ := j
  cases job with
  | get caller g =>
      refine ⟨Function.update s.promises k (some r), ?_⟩
      simp only [step, hstack, hmid, jobReturns, hpc, EventLoop.step, Option.map_some]
  | soon g =>
      obtain ⟨v, rfl⟩ := hr g rfl
      refine ⟨s.promises, ?_⟩
      simp only [step, hstack, hmid, jobReturns, hpc, EventLoop.step, Option.map_some]

/-! ## What every step does to the weight -/

section
variable {a : CallAct Tid F} {t : Tid} {k : Nat}

/-- A thread waits until it has its result. -/
theorem waiting_step (hwait : s.waiting t = some k) (hnone : s.promises k = none)
    (ha : a.isCall = false) (h : step sem loop s a = some s') : s'.waiting t = some k := by
  cases stepped h with
  | callSoon | callGet | callInline => cases ha
  | exec | inlineReturns | getReturns | soonReturns | soonThrows => exact hwait
  | activate | wake | swap | pop | finish => exact hwait
  | @resume u i r hu _ hr =>
      rcases eq_or_ne t u with rfl | hne
      · obtain rfl := Option.some.inj (hwait.symm.trans hu)
        rw [hnone] at hr
        cases hr
      · exact (Function.update_of_ne hne ..).trans hwait

/-- A result stays where it has been put. -/
theorem promises_step (h : step sem loop s a = some s') (hset : (s.promises k).isSome = true) :
    (s'.promises k).isSome = true := by
  cases stepped h with
  | callSoon | callGet | callInline | exec | inlineReturns | soonReturns | soonThrows => exact hset
  | resume | activate | wake | swap | pop | finish => exact hset
  | @getReturns i _ _ r _ _ _ _ _ _ =>
      show (Function.update s.promises i (some r) k).isSome = true
      rcases eq_or_ne k i with rfl | hne
      · rw [Function.update_self]
        rfl
      · rw [Function.update_of_ne hne]
        exact hset

theorem weight_jobReturns {q : State Tid (Closure Tid F)} {j : Queued (Closure Tid F)}
    (hpc : s.queue.loopPc = .running j) (hq : EventLoop.step loop s.queue .jobReturns = some q)
    (hqueue : s'.queue = q) (hstack : s'.stack = []) : 1 + s'.weight loop ≤ s.weight loop := by
  have hdraining := LoopPc.weight_draining_lt s.queue.swappedQueue.isEmpty s.queue.jobWaker j
  cases EventLoop.stepped hq with
  | jobReturns _ _ =>
      simp only [weight, pending, hqueue, hstack, hpc, stackWeight]
      omega

theorem weight_activate {q : State Tid (Closure Tid F)}
    (hq : EventLoop.step loop s.queue (.activate t) = some q) :
    (CallAct.ofLoop loop (.activate t : CallAct Tid F)).toNat +
      weight loop { s with queue := q } ≤ s.weight loop := by
  have hwaker := s.queue.loopPc.weight_waker_le s.queue.swappedQueue.isEmpty s.queue.jobWaker
  cases EventLoop.stepped hq with
  | activate hmid =>
      simp only [weight, pending, CallAct.ofLoop]
      rcases eq_or_ne t loop with rfl | hne
      · simp only [Function.update_self, hmid, decide_true, Bool.toNat_true, Bool.toNat_false]
        omega
      · simp only [Function.update_of_ne hne.symm, hne, decide_false, Bool.toNat_false]
        omega

theorem isCall_of_work (h : a.ofLoop loop = true ∨ ∃ u, a = .activate u) : a.isCall = false := by
  cases a with
  | callSoon | callGet | callInline => simp [CallAct.ofLoop] at h
  | exec | returns | resume | activate | wake | swap | pop | finish => rfl

/-- Nothing that is not a call makes the weight greater, and every step of the loop
thread makes it smaller. -/
theorem Inv.weight_step (hs : s.Inv sem loop σ₀) (hwait : s.waiting t = some k)
    (hnone : s.promises k = none) (ha : a.isCall = false)
    (h : Calls.step sem loop s a = some s') :
    (a.ofLoop loop).toNat + s'.weight loop ≤ s.weight loop := by
  cases stepped h with
  | callSoon | callGet | callInline => cases ha
  | resume => exact Nat.le_of_eq (Nat.zero_add _)
  | activate hq => exact weight_activate hq
  | exec hstack _ =>
      simp [weight, pending, hstack, stackWeight, CallAct.ofLoop]
      omega
  | inlineReturns hstack _ =>
      simp [weight, pending, hstack, stackWeight, CallAct.ofLoop]
      omega
  | getReturns _ hpc hq => exact weight_jobReturns hpc hq rfl rfl
  | soonReturns _ hpc hq => exact weight_jobReturns hpc hq rfl rfl
  | soonThrows hstack hpc hq =>
      cases EventLoop.stepped hq with
      | jobThrows _ _ =>
          simp [weight, pending, hstack, hpc, stackWeight, CallAct.ofLoop, LoopPc.weight]
          omega
  | wake _ hq =>
      cases EventLoop.stepped hq with
      | wake hpc _ hwaker =>
          simp [weight, pending, hpc, hwaker, CallAct.ofLoop, LoopPc.weight]
          omega
  | swap hq =>
      cases EventLoop.stepped hq with
      | swap hpc =>
          obtain ⟨l, hl⟩ := hs.queueing.fifo
          have hbatch := hl.noBatch (.inr hpc)
          have hqueue := hs.jobQueue_ne_nil hwait hnone (fun j hj => by simp [hpc] at hj) hbatch
          simp [weight, pending, hbatch, hpc, hqueue, CallAct.ofLoop, LoopPc.weight]
          omega
  | pop hbatch hq =>
      cases EventLoop.stepped hq with
      | pop hpc hbatch' =>
          simp [weight, pending, hbatch', hpc, stackWeight, CallAct.ofLoop, LoopPc.weight]
          omega
  | finish hq =>
      cases EventLoop.stepped hq with
      | finish hpc hbatch =>
          simp only [weight, pending, hbatch, hpc, CallAct.ofLoop, LoopPc.weight, List.isEmpty_nil]
          split <;> simp <;> omega

end

/-! ## There is always a step to take -/

/-- The loop thread can take a step, or a thread can finish its `call_soon`, and the
weight falls. -/
def Advances (sem : F → σ → Except E V × σ) (loop : Tid) (s : Calls Tid F σ V E) : Prop :=
  ∃ a s', step sem loop s a = some s' ∧ (a.ofLoop loop = true ∨ ∃ t, a = .activate t) ∧
    s'.weight loop < s.weight loop

section
variable {t : Tid} {k : Nat}

theorem Inv.advances_ofLoop (hs : s.Inv sem loop σ₀) (hwait : s.waiting t = some k)
    (hnone : s.promises k = none) {a : CallAct Tid F} (ha : a.isCall = false)
    (hloop : a.ofLoop loop = true) (h : Calls.step sem loop s a = some s') :
    s.Advances sem loop := by
  have hweight := hs.weight_step hwait hnone ha h
  rw [hloop, Bool.toNat_true] at hweight
  exact ⟨a, s', h, .inl hloop, by omega⟩

/-- Nothing is on the stack. -/
theorem Inv.advances_idle (hs : s.Inv sem loop σ₀) (hwait : s.waiting t = some k)
    (hnone : s.promises k = none) (hstack : s.stack = [])
    (hmid : s.queue.midCall loop = false) : s.Advances sem loop := by
  have advances {a : CallAct Tid F} {s' : Calls Tid F σ V E} (ha : a.isCall = false)
      (hloop : a.ofLoop loop = true) (h : Calls.step sem loop s a = some s') :
      s.Advances sem loop := hs.advances_ofLoop hwait hnone ha hloop h
  cases hpc : s.queue.loopPc with
  | running j =>
      obtain ⟨above, r, hcons, -⟩ := hs.shaped.running j hpc
      rw [hstack] at hcons
      simp at hcons
  | unwound => exact absurd hpc hs.queueing.alive
  | entered => exact advances rfl rfl (step_swap hpc)
  | draining =>
      cases hbatch : s.queue.swappedQueue with
      | nil => exact advances rfl rfl (step_finish hpc hbatch)
      | cons j rest => exact advances rfl rfl (step_pop hpc hbatch)
  | polling =>
      cases hwaker : s.queue.jobWaker with
      | true => exact advances rfl rfl (step_wake hstack hpc hmid hwaker)
      | false =>
          obtain ⟨l, hl⟩ := hs.queueing.fifo
          have hqueue := hs.jobQueue_ne_nil hwait hnone (fun j hj => by simp [hpc] at hj)
            (hl.noBatch (.inl hpc))
          obtain ⟨u, hu, hne⟩ := hs.queueing.other_midCall hpc hwaker hmid hqueue
          refine ⟨.activate u, _, step_activate sem loop hu, .inr ⟨u, rfl⟩, ?_⟩
          simp [weight, pending, hpc, hwaker, hmid, Function.update_of_ne hne, LoopPc.weight]

/-- A waiting caller has its result, or there is something to do. -/
theorem Inv.advances (hs : s.Inv sem loop σ₀) (hwait : s.waiting t = some k)
    (hnone : s.promises k = none) : s.Advances sem loop := by
  have advances {a : CallAct Tid F} {s' : Calls Tid F σ V E} (ha : a.isCall = false)
      (hloop : a.ofLoop loop = true) (h : Calls.step sem loop s a = some s') :
      s.Advances sem loop := hs.advances_ofLoop hwait hnone ha hloop h
  cases hmid : s.queue.midCall loop with
  | true =>
      have hloop : CallAct.ofLoop loop (.activate loop : CallAct Tid F) = true := decide_eq_true rfl
      exact advances rfl hloop (step_activate sem loop hmid)
  | false =>
  cases hstack : s.stack with
  | nil => exact hs.advances_idle hwait hnone hstack hmid
  | cons top rest =>
  have htop : top ∈ s.stack := by
    rw [hstack]
    exact List.mem_cons_self
  obtain ⟨id, f, result⟩ := top
  cases result with
  | none => exact advances rfl rfl (step_exec hstack hmid)
  | some r =>
  cases id with
  | inline n => exact advances rfl rfl (step_inlineReturns hstack hmid)
  | job i =>
      obtain ⟨j, hpc, -, hf⟩ := hs.job_frame htop rfl
      -- above the frame of a job stand inline calls only, so it is alone
      obtain ⟨above, r', hcons, habove⟩ := hs.shaped.running j hpc
      rw [hstack] at hcons
      cases above with
      | cons x above =>
          obtain ⟨rfl, -⟩ := List.cons.inj hcons
          obtain ⟨n, hn⟩ := habove _ List.mem_cons_self
          cases hn
      | nil =>
      obtain ⟨-, rfl⟩ := List.cons.inj hcons
      have hok (g : F) (hg : j.job = .soon g) : ∃ v, r = .ok v := by
        rw [hg] at hf
        obtain rfl : g = f := hf
        obtain ⟨-, x, hx⟩ := (hs.frames _ htop).done r rfl
        exact (hs.soon j (hs.current j hpc).2 g hg x).imp fun v hv => hx.trans hv
      obtain ⟨p, hstep⟩ := step_jobReturns sem hstack hmid hpc hok
      exact advances rfl rfl hstep

/-- However the threads take turns: as long as the result is not there, the loop thread
has used up no more than the weight. -/
theorem Inv.loopSteps_le {acts : List (CallAct Tid F)} (hs : s.Inv sem loop σ₀)
    (hwait : s.waiting t = some k) (hacts : ∀ a ∈ acts, a.isCall = false)
    (h : run (Calls.step sem loop) s acts = some s') (hnone : s'.promises k = none) :
    acts.countP (CallAct.ofLoop loop) + s'.weight loop ≤ s.weight loop ∧
      s'.Inv sem loop σ₀ ∧ s'.waiting t = some k := by
  induction acts generalizing s with
  | nil =>
      obtain rfl := Option.some.inj h
      exact ⟨Nat.le_of_eq (Nat.zero_add _), hs, hwait⟩
  | cons a acts ih =>
      have hunset : s.promises k = none := by
        by_contra hset
        have hkept := run_inv (I := fun s : Calls Tid F σ V E => (s.promises k).isSome = true)
          (fun _ _ _ hset h => promises_step h hset) (Option.isSome_iff_ne_none.mpr hset) h
        rw [hnone] at hkept
        cases hkept
      obtain ⟨ha, hrest⟩ := List.forall_mem_cons.mp hacts
      obtain ⟨u, hu, hrun⟩ := run_cons_some.mp h
      have hstep := hs.weight_step hwait hunset ha hu
      obtain ⟨hle, hkept⟩ := ih (hs.step (soonOk_of_not_isCall ha) hu)
        (waiting_step hwait hunset ha hu) hrest hrun
      refine ⟨?_, hkept⟩
      rw [List.countP_cons]
      cases hloop : a.ofLoop loop <;> rw [hloop] at hstep <;> simp at hstep ⊢ <;> omega

end

/-! ## What a caller of `call_get` may rely on -/

/-- The answer is in the promise, and the caller goes to fetch it. -/
theorem fetches (sem : F → σ → Except E V × σ) (loop : Tid) {t : Tid} {k : Nat} {r : Except E V}
    (hwait : s.waiting t = some k)
    (hr : s.promises k = some r) :
    ∃ acts s', run (step sem loop) s acts = some s' ∧ (∀ a ∈ acts, a.isCall = false) ∧
      .respond t (.job k) r ∈ s'.history := by
  have resumes {u : Calls Tid F σ V E} (hwait : u.waiting t = some k) (hr : u.promises k = some r)
      (hmid : u.queue.midCall t = false) :
      ∃ u', step sem loop u (.resume t) = some u' ∧ .respond t (.job k) r ∈ u'.history :=
    ⟨_, step_resume hwait hmid hr, List.mem_append_right _ List.mem_cons_self⟩
  cases hmid : s.queue.midCall t with
  | false =>
      obtain ⟨s', hs', hmem⟩ := resumes hwait hr hmid
      refine ⟨[.resume t], s', by rw [run_cons hs', run_nil], ?_, hmem⟩
      simp [CallAct.isCall]
  | true =>
      -- it is still on its way to `fut.get()`
      have hactivate := step_activate sem loop hmid
      obtain ⟨s', hs', hmem⟩ := resumes (u := { s with queue := { s.queue with
        jobWaker := true, midCall := Function.update s.queue.midCall t false } }) hwait hr
        (Function.update_self ..)
      refine ⟨[.activate t, .resume t], s', ?_, ?_, hmem⟩
      · rw [run_cons hactivate, run_cons hs', run_nil]
      · simp [CallAct.isCall]

/-- Without any further call being made, a caller that waits can have its answer. -/
theorem Inv.served (hs : s.Inv sem loop σ₀) {t : Tid} {k : Nat} (hwait : s.waiting t = some k) :
    ∃ acts s' r, run (Calls.step sem loop) s acts = some s' ∧ (∀ a ∈ acts, a.isCall = false) ∧
      .respond t (.job k) r ∈ s'.history := by
  have hnearer (u : Calls Tid F σ V E) (hu : u.Inv sem loop σ₀ ∧ u.waiting t = some k)
      (hnone : ¬(u.promises k).isSome = true) :
      ∃ a u', a.isCall = false ∧ Calls.step sem loop u a = some u' ∧
        (u'.Inv sem loop σ₀ ∧ u'.waiting t = some k) ∧ u'.weight loop < u.weight loop := by
    have hnone := Option.not_isSome_iff_eq_none.mp hnone
    obtain ⟨a, u', hstep, hwork, hlt⟩ := hu.1.advances hu.2 hnone
    have ha := isCall_of_work hwork
    have hkept := hu.1.step (soonOk_of_not_isCall ha) hstep
    exact ⟨a, u', ha, hstep, ⟨hkept, waiting_step hu.2 hnone ha hstep⟩, hlt⟩
  obtain ⟨acts, u, hu, hacts, ⟨-, hwait'⟩, hset⟩ :=
    reaches_of_weight (weight loop) hnearer ⟨hs, hwait⟩
  obtain ⟨r, hr⟩ := Option.isSome_iff_exists.mp hset
  obtain ⟨more, s', hs', hmore, hmem⟩ := fetches sem loop hwait' hr
  refine ⟨acts ++ more, s', r, run_append.mpr ⟨u, hu, hs'⟩, fun a ha => ?_, hmem⟩
  exact (List.mem_append.mp ha).elim (hacts a) (hmore a)

theorem Inv.inTime (hs : s.Inv sem loop σ₀) {t : Tid} {k : Nat} (hwait : s.waiting t = some k) :
    ∃ n, ∀ (acts : List (CallAct Tid F)) (s' : Calls Tid F σ V E),
      run (Calls.step sem loop) s acts = some s' → (∀ a ∈ acts, a.isCall = false) →
        s'.promises k = none →
          acts.countP (CallAct.ofLoop loop) ≤ n ∧ ∃ a s'', Calls.step sem loop s' a = some s'' ∧
            (a.ofLoop loop = true ∨ ∃ u, a = .activate u) := by
  refine ⟨s.weight loop, fun acts s' h hacts hnone => ?_⟩
  obtain ⟨hle, hs', hwait'⟩ := hs.loopSteps_le hwait hacts h hnone
  obtain ⟨a, s'', hstep, hwork, -⟩ := hs'.advances hwait' hnone
  exact ⟨Nat.le_trans (Nat.le_add_right _ _) hle, a, s'', hstep, hwork⟩

/-- On the loop thread the call is over in two steps, which leave the queue alone. -/
theorem inline_served (f : F) (hcan : s.queue.loopPc.mayCall = true)
    (hmid : s.queue.midCall loop = false) :
    ∃ (s' : Calls Tid F σ V E) (r : Except E V),
      run (step sem loop) s [.callInline f, .exec, .returns] = some s' ∧
      s'.queue = s.queue ∧ s'.stack = s.stack ∧ sem f s.shared = (r, s'.shared) ∧
      s'.history = s.history ++ [.invoke loop (.inline s.inlines) f, .exec (.inline s.inlines) f r,
        .respond loop (.inline s.inlines) r] := by
  have hcall : step sem loop s (.callInline f) = some _ := if_pos ⟨hcan, hmid⟩
  have hrun : run (step sem loop) s [.callInline f, .exec, .returns] = some
      { s with
        shared := (sem f s.shared).2
        inlines := s.inlines + 1
        history := s.history ++ [.invoke loop (.inline s.inlines) f] ++
          [.exec (.inline s.inlines) f (sem f s.shared).1] ++
          [.respond loop (.inline s.inlines) (sem f s.shared).1] } :=
    run_cons_some.mpr ⟨_, hcall, run_cons_some.mpr ⟨_, step_exec rfl hmid,
      run_cons_some.mpr ⟨_, step_inlineReturns rfl hmid, rfl⟩⟩⟩
  exact ⟨_, _, hrun, rfl, rfl, rfl, by simp⟩

/-- Off the loop thread the job goes behind all others, and the caller waits for it. -/
theorem callGet_enqueues (sem : F → σ → Except E V × σ) {t : Tid} (f : F) (ht : t ≠ loop)
    (hwait : s.waiting t = none) (hmid : s.queue.midCall t = false) :
    ∃ s' : Calls Tid F σ V E, step sem loop s (.callGet t f) = some s' ∧
      s'.waiting = Function.update s.waiting t (some s.queue.pushed.length) ∧
      s'.queue.jobQueue = s.queue.jobQueue ++ [⟨s.queue.pushed.length, .get t f⟩] ∧
      s'.history = s.history ++ [.invoke t (.job s.queue.pushed.length) f] := by
  have hpush : EventLoop.step loop s.queue (.push t (.get t f)) = some _ :=
    step_push (.get t f) hmid fun heq => absurd heq ht
  have hcall : step sem loop s (.callGet t f) = some _ :=
    (if_pos ⟨ht, hwait⟩).trans (congrArg (Option.map _) hpush)
  exact ⟨_, hcall, rfl, rfl, rfl⟩

/-! ## Every run -/

/-- In every interleaving the calls of the actions `acts` are served in order and one at a
time, with the results of one call after another, and nobody waits in vain. -/
structure Serves (sem : F → σ → Except E V × σ) (loop : Tid) (σ₀ : σ) (acts : List (CallAct Tid F))
    (s : Calls Tid F σ V E) : Prop where
  /-- the calls of the history are those that the threads have made -/
  made : calls s.history = acts.filterMap (CallAct.call loop)
  /-- and the jobs are those of `call_soon` and of `call_get` off the loop thread -/
  closures : s.queue.pushed.map Queued.job = acts.filterMap CallAct.closure
  /-- a thread that calls `call_get` puts its job behind all others, and waits for it -/
  enqueues : ∀ t f, t ≠ loop → s.waiting t = none → s.queue.midCall t = false →
    ∃ s' : Calls Tid F σ V E, step sem loop s (.callGet t f) = some s' ∧
      s'.waiting = Function.update s.waiting t (some s.queue.pushed.length) ∧
      s'.queue.jobQueue = s.queue.jobQueue ++ [⟨s.queue.pushed.length, .get t f⟩] ∧
      s'.history = s.history ++ [.invoke t (.job s.queue.pushed.length) f]
  /-- until it has its answer -/
  awaited : ∀ t k f, ⟨k, .get t f⟩ ∈ s.queue.pushed → .invoke t (.job k) f ∈ s.history ∧
    (s.waiting t = some k ∨ ∃ r, .respond t (.job k) r ∈ s.history)
  orderly : Orderly CallId.Before s.history
  linearizes : Linearizes sem σ₀ s.history (effects s.history)
  /-- a job takes effect when every job enqueued before it has ended -/
  afterEarlier : ∀ (h₁ h₂ h₃ : List (Event Tid CallId F (Except E V))) (t u : Tid) (i j : Nat)
      (f g : F), s.history =
        h₁ ++ .invoke t (.job i) f :: h₂ ++ .invoke u (.job j) g :: h₃ →
    ∀ (before after : List (Event Tid CallId F (Except E V))) (g' : F) (r : Except E V),
      s.history = before ++ .exec (.job j) g' r :: after → .ended (.job i) ∈ before
  /-- and ends before another one does -/
  alone : ∀ (h₁ h₂ h₃ : List (Event Tid CallId F (Except E V))) (i j : Nat) (f g : F)
      (r r' : Except E V), s.history =
        h₁ ++ .exec (.job i) f r :: h₂ ++ .exec (.job j) g r' :: h₃ →
    .ended (.job i) ∈ h₂
  /-- a thread that waits can have its answer without any further call being made -/
  served : ∀ t k, s.waiting t = some k →
    ∃ (acts : List (CallAct Tid F)) (s' : Calls Tid F σ V E) (r : Except E V),
      run (step sem loop) s acts = some s' ∧ (∀ a ∈ acts, a.isCall = false) ∧
      .respond t (.job k) r ∈ s'.history
  /-- and however the threads take turns, until its result is there the loop thread takes
  no more than `n` steps, and it can take one or somebody can finish a `call_soon` -/
  inTime : ∀ t k, s.waiting t = some k → ∃ n, ∀ (acts : List (CallAct Tid F))
      (s' : Calls Tid F σ V E), run (step sem loop) s acts = some s' →
    (∀ a ∈ acts, a.isCall = false) → s'.promises k = none →
      acts.countP (CallAct.ofLoop loop) ≤ n ∧ ∃ a s'', step sem loop s' a = some s'' ∧
        (a.ofLoop loop = true ∨ ∃ u, a = .activate u)
  /-- on the loop thread the queue is not waited for -/
  inline : ∀ f, s.queue.loopPc.mayCall = true → s.queue.midCall loop = false →
    ∃ (s' : Calls Tid F σ V E) (r : Except E V),
      run (step sem loop) s [.callInline f, .exec, .returns] = some s' ∧
      s'.queue = s.queue ∧ s'.stack = s.stack ∧ sem f s.shared = (r, s'.shared) ∧
      s'.history = s.history ++ [.invoke loop (.inline s.inlines) f, .exec (.inline s.inlines) f r,
        .respond loop (.inline s.inlines) r]

theorem serves_run {acts : List (CallAct Tid F)} (hacts : ∀ a ∈ acts, SoonOk sem a)
    (h : run (step sem loop) (init σ₀) acts = some s) : s.Serves sem loop σ₀ acts := by
  have hs := inv_run hacts h
  have htickets := run_tickets hacts h
  have hawaited : s.Awaited :=
    run_inv (fun _ _ _ hs h => hs.step h) (fun _ _ _ hmem => absurd hmem List.not_mem_nil) h
  refine ⟨run_log (fun _ _ _ h => calls_step h) h, run_log (fun _ _ _ h => closures_step h) h,
    fun t f => callGet_enqueues sem f, hawaited, hs.orderly, hs.orderly.linearizes hs.replays,
    ?_, ?_, fun t k => hs.served, fun t k => hs.inTime, fun f => inline_served f⟩
  · intro h₁ h₂ h₃ t u i j f g hsplit before after g' r hexec
    rw [hsplit] at htickets
    exact (hs.orderly before _ after hexec).2.2 (.job i) (ticket_lt_of_pairwise htickets)
  · intro h₁ h₂ h₃ i j f g r r' hsplit
    have horderly := hs.orderly
    rw [hsplit] at horderly
    have hne : i ≠ j := by
      rintro rfl
      obtain ⟨-, hfresh, -⟩ := horderly _ _ h₃ rfl
      exact hfresh f r (List.mem_append_right _ List.mem_cons_self)
    exact horderly.alone (Nat.lt_or_gt_of_ne hne)

end Calls

end Wshttp.EventLoop
