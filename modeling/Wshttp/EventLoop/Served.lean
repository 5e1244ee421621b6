/-
# `Wshttp.EventLoop.Served` — what a caller of `call_get` may rely on

The invariant ties every waiting caller to one job, which is queued, running, or has
left its result in the promise, and every frame of the loop thread's stack to the
events that are in the history for it.  Jobs run in the order of their tickets, one at
a time, so when one takes effect all before it have ended.

**Proved here.**  The invariant is kept by every step (`Inv.step`), so it holds after
every interleaving, if the jobs of `call_soon` do not throw (`inv_run`).  The tickets
are in the order of the calls (`run_tickets`), and whoever has called `call_get` has its
answer or waits (`Awaited.step`).
-/
import Wshttp.EventLoop.CallGet

namespace Wshttp.EventLoop

open Machine History

/-! ## The queue on its own -/

section
variable {Tid Job : Type*}

/-- What is known of every reachable queue none of whose jobs has thrown. -/
structure Queueing (q : State Tid Job) : Prop where
  fifo : ∃ l, RefinesFifo q l
  numbered : Numbered q
  awake : q.jobQueue ≠ [] → WakeupDue q
  alive : q.loopPc ≠ .unwound

theorem queueing_init : Queueing (init : State Tid Job) where
  fifo := ⟨_, refinesFifo_init⟩
  numbered := rfl
  awake := fun hne => absurd rfl hne
  alive := fun hdead => (nomatch hdead)

section
variable {q q' : State Tid Job} {j : Queued Job}

theorem Queueing.step [DecidableEq Tid] {loop : Tid} {a : Act Tid Job} (hq : Queueing q)
    (ha : a ≠ .jobThrows) (h : EventLoop.step loop q a = some q') : Queueing q' := by
  obtain ⟨l, hl⟩ := hq.fifo
  obtain ⟨_, l', -, hl'⟩ := simulates_fifo hl ha h
  refine ⟨⟨l', hl'⟩, numbered_step hq.numbered h, awake_step hq.awake h, ?_⟩
  cases stepped h with
  | push _ _ | activate _ => exact hq.alive
  | wake _ _ _ | swap _ | pop _ _ | jobReturns _ _ | finish _ _ =>
      exact fun hdead => (nomatch hdead)
  | jobThrows _ _ => exact absurd rfl ha

theorem Queueing.located (hq : Queueing q) :
    q.ran ++ (q.swappedQueue ++ q.jobQueue) = q.pushed := by
  obtain ⟨l, hl⟩ := hq.fifo
  rw [← hl.done, ← hl.pending, ← hl.issued]
  exact l.done_append_pending

/-- The ticket is the place in the order of the pushes. -/
theorem Queueing.ticket_eq (hq : Queueing q) {i : Nat} (h : q.pushed[i]? = some j) :
    j.ticket = i := by
  obtain ⟨hlt, -⟩ := List.getElem?_eq_some_iff.mp h
  have hmap := congrArg (fun l => l[i]?) hq.numbered
  simp only [List.getElem?_map, h, Option.map_some, List.getElem?_range hlt] at hmap
  exact Option.some.inj hmap

theorem Queueing.head_ticket (hq : Queueing q) {rest : List (Queued Job)}
    (h : q.swappedQueue = j :: rest) : j.ticket = q.ran.length := by
  refine hq.ticket_eq ?_
  rw [← hq.located, h, List.getElem?_append_right (Nat.le_refl _), Nat.sub_self]
  rfl

theorem Queueing.pending_pushed (hq : Queueing q) (h : j ∈ q.swappedQueue ++ q.jobQueue) :
    j ∈ q.pushed := by
  rw [← hq.located]
  exact List.mem_append_right _ h

/-- While jobs wait and the waker is not active, a thread other than the loop's has yet to make
it so. -/
theorem Queueing.other_midCall (hq : Queueing q) {loop : Tid} (hpc : q.loopPc = .polling)
    (hwaker : q.jobWaker = false) (hmid : q.midCall loop = false) (hqueue : q.jobQueue ≠ []) :
    ∃ t, q.midCall t = true ∧ loop ≠ t := by
  rcases hq.awake hqueue with hw | he | ⟨t, ht⟩
  · rw [hwaker] at hw
    cases hw
  · rw [hpc] at he
    cases he
  · refine ⟨t, ht, ?_⟩
    rintro rfl
    rw [hmid] at ht
    cases ht

end

end

/-! ## What is known of a state -/

section
variable {Tid F σ V E : Type*}

/-- A callable that does not throw, whatever the state. -/
def NoThrow (sem : F → σ → Except E V × σ) (f : F) : Prop := ∀ x, ∃ v, (sem f x).1 = .ok v

/-- What the history has of a frame. -/
structure FrameOk (sem : F → σ → Except E V × σ) (loop : Tid)
    (h : List (Event Tid CallId F (Except E V))) (fr : Frame F V E) : Prop where
  invoked : ∃ t, .invoke t fr.id fr.f ∈ h
  byLoop : ∀ n, fr.id = .inline n → .invoke loop fr.id fr.f ∈ h
  fresh : fr.result = none → ∀ f r, .exec fr.id f r ∉ h
  done : ∀ r, fr.result = some r → .exec fr.id fr.f r ∈ h ∧ ∃ x, r = (sem fr.f x).1
  unanswered : ∀ t r, .respond t fr.id r ∉ h

/-- Under the inline calls stands the running job, if one is. -/
structure Shaped (stack : List (Frame F V E)) (pc : LoopPc (Closure Tid F)) : Prop where
  running : ∀ j, pc = .running j → ∃ above r,
    stack = above ++ [⟨.job j.ticket, j.job.f, r⟩] ∧ ∀ fr ∈ above, ∃ n, fr.id = .inline n
  outside : (∀ j, pc ≠ .running j) → ∀ fr ∈ stack, ∃ n, fr.id = .inline n
  idle : pc.mayCall = false → stack = []

/-- The history against the numbers that have been given out. -/
structure Recorded (h : List (Event Tid CallId F (Except E V))) (q : State Tid (Closure Tid F))
    (inlines : Nat) : Prop where
  inline : ∀ t n f, .invoke t (.inline n) f ∈ h → n < inlines
  ticket : ∀ t k f, .invoke t (.job k) f ∈ h → k < q.pushed.length
  pushed : ∀ j ∈ q.pushed, ∃ t, .invoke t (.job j.ticket) j.job.f ∈ h
  begun : ∀ k f r, .exec (.job k) f r ∈ h → k < q.ran.length
  ended : ∀ k, k < q.ran.length → (∀ j, q.loopPc = .running j → j.ticket ≠ k) →
    .ended (.job k) ∈ h

namespace Calls

/-- What is known of a thread that waits for the job `k`. -/
structure Waits (s : Calls Tid F σ V E) (t : Tid) (k : Nat) : Prop where
  invoked : ∃ f, .invoke t (.job k) f ∈ s.history
  unanswered : ∀ u r, .respond u (.job k) r ∉ s.history
  served : (s.promises k).isSome = true ∨
    ∃ caller f, ⟨k, .get caller f⟩ ∈ s.queue.swappedQueue ++ s.queue.jobQueue ∨
      s.queue.loopPc = .running ⟨k, .get caller f⟩

structure Inv (sem : F → σ → Except E V × σ) (loop : Tid) (σ₀ : σ) (s : Calls Tid F σ V E) :
    Prop where
  orderly : Orderly CallId.Before s.history
  replays : Replays sem σ₀ s.history s.shared
  queueing : Queueing s.queue
  shaped : Shaped s.stack s.queue.loopPc
  current : ∀ j, s.queue.loopPc = .running j →
    j.ticket + 1 = s.queue.ran.length ∧ j ∈ s.queue.pushed
  frames : ∀ fr ∈ s.stack, FrameOk sem loop s.history fr
  nodup : (s.stack.map Frame.id).Nodup
  recorded : Recorded s.history s.queue s.inlines
  kept : ∀ k r, s.promises k = some r → ∃ f, .exec (.job k) f r ∈ s.history
  settled : ∀ k, (s.promises k).isSome = true → k < s.queue.ran.length ∧
    ∀ j, s.queue.loopPc = .running j → j.ticket ≠ k
  waits : ∀ t k, s.waiting t = some k → s.Waits t k
  soon : ∀ j ∈ s.queue.pushed, ∀ f, j.job = .soon f → NoThrow sem f

end Calls

/-! ## A longer history -/

section
variable {sem : F → σ → Except E V × σ} {loop : Tid} {h : List (Event Tid CallId F (Except E V))}
  {e : Event Tid CallId F (Except E V)} {fr : Frame F V E} {q : State Tid (Closure Tid F)}
  {inlines : Nat}

/-- Events of other calls do not matter to a frame. -/
theorem FrameOk.concat (hok : FrameOk sem loop h fr) (hexec : ∀ f r, e ≠ .exec fr.id f r)
    (hrespond : ∀ t r, e ≠ .respond t fr.id r) : FrameOk sem loop (h ++ [e]) fr where
  invoked := hok.invoked.imp fun _ ht => List.mem_append_left _ ht
  byLoop := fun n hn => List.mem_append_left _ (hok.byLoop n hn)
  fresh := by
    intro hnone f r hmem
    rcases List.mem_append.mp hmem with hold | hnew
    · exact hok.fresh hnone f r hold
    · exact hexec f r (List.mem_singleton.mp hnew).symm
  done := by
    intro r hr
    obtain ⟨hmem, hx⟩ := hok.done r hr
    exact ⟨List.mem_append_left _ hmem, hx⟩
  unanswered := by
    intro t r hmem
    rcases List.mem_append.mp hmem with hold | hnew
    · exact hok.unanswered t r hold
    · exact hrespond t r (List.mem_singleton.mp hnew).symm

/-- The numbers in the event have been given out. -/
def Counted (q : State Tid (Closure Tid F)) (inlines : Nat) :
    Event Tid CallId F (Except E V) → Prop
  | .invoke _ (.inline n) _ => n < inlines
  | .invoke _ (.job k) _ => k < q.pushed.length
  | .exec (.job k) _ _ => k < q.ran.length
  | _ => True

theorem Recorded.concat (hr : Recorded h q inlines) (he : Counted q inlines e) :
    Recorded (h ++ [e]) q inlines where
  inline := by
    intro t n f hmem
    rcases List.mem_append.mp hmem with hold | hnew
    · exact hr.inline t n f hold
    · obtain rfl := List.mem_singleton.mp hnew
      exact he
  ticket := by
    intro t k f hmem
    rcases List.mem_append.mp hmem with hold | hnew
    · exact hr.ticket t k f hold
    · obtain rfl := List.mem_singleton.mp hnew
      exact he
  pushed := fun j hj => (hr.pushed j hj).imp fun _ ht => List.mem_append_left _ ht
  begun := by
    intro k f r hmem
    rcases List.mem_append.mp hmem with hold | hnew
    · exact hr.begun k f r hold
    · obtain rfl := List.mem_singleton.mp hnew
      exact he
  ended := fun k hk hne => List.mem_append_left _ (hr.ended k hk hne)

theorem Recorded.mono (hr : Recorded h q inlines) : Recorded h q (inlines + 1) :=
  ⟨fun t n f hmem => Nat.lt_succ_of_lt (hr.inline t n f hmem), hr.ticket, hr.pushed, hr.begun,
    hr.ended⟩

/-- A job is pushed, with the next ticket. -/
theorem Recorded.push {q' : State Tid (Closure Tid F)} {t : Tid} {c : Closure Tid F}
    (hr : Recorded h q inlines) (hpushed : q'.pushed = q.pushed ++ [⟨q.pushed.length, c⟩])
    (hran : q'.ran = q.ran) (hpc : q'.loopPc = q.loopPc) :
    Recorded (h ++ [.invoke t (.job q.pushed.length) c.f]) q' inlines where
  inline := by
    intro u n f hmem
    rcases List.mem_append.mp hmem with hold | hnew
    · exact hr.inline u n f hold
    · cases List.mem_singleton.mp hnew
  ticket := by
    intro u k f hmem
    rw [hpushed, List.length_append]
    rcases List.mem_append.mp hmem with hold | hnew
    · exact Nat.lt_succ_of_lt (hr.ticket u k f hold)
    · cases List.mem_singleton.mp hnew
      exact Nat.lt_succ_self _
  pushed := by
    intro j hj
    rw [hpushed] at hj
    rcases List.mem_append.mp hj with hold | hnew
    · exact (hr.pushed j hold).imp fun _ hu => List.mem_append_left _ hu
    · obtain rfl := List.mem_singleton.mp hnew
      exact ⟨t, List.mem_append_right _ List.mem_cons_self⟩
  begun := by
    intro k f r hmem
    rw [hran]
    rcases List.mem_append.mp hmem with hold | hnew
    · exact hr.begun k f r hold
    · cases List.mem_singleton.mp hnew
  ended := by
    intro k hk hne
    rw [hran] at hk
    rw [hpc] at hne
    exact List.mem_append_left _ (hr.ended k hk hne)

theorem Calls.Waits.concat {s s' : Calls Tid F σ V E} {t : Tid} {k : Nat} (hw : s.Waits t k)
    (hhistory : s'.history = s.history ++ [e]) (hrespond : ∀ u r, e ≠ .respond u (.job k) r)
    (hserved : (s'.promises k).isSome = true ∨ ∃ caller f,
      ⟨k, .get caller f⟩ ∈ s'.queue.swappedQueue ++ s'.queue.jobQueue ∨
        s'.queue.loopPc = .running ⟨k, .get caller f⟩) : s'.Waits t k where
  invoked := by
    rw [hhistory]
    exact hw.invoked.imp fun _ hf => List.mem_append_left _ hf
  unanswered := by
    intro u r hmem
    rw [hhistory] at hmem
    rcases List.mem_append.mp hmem with hold | hnew
    · exact hw.unanswered u r hold
    · exact hrespond u r (List.mem_singleton.mp hnew).symm
  served := hserved

end

namespace Calls

section
variable {sem : F → σ → Except E V × σ} {loop : Tid} {σ₀ : σ} {s s' : Calls Tid F σ V E}
  {fr : Frame F V E} {q : State Tid (Closure Tid F)}

/-! ## What follows from it -/

theorem Inv.nextJob_fresh (hs : s.Inv sem loop σ₀) (t : Tid) (f : F) :
    .invoke t s.nextJob f ∉ s.history :=
  fun hmem => Nat.lt_irrefl _ (hs.recorded.ticket t _ f hmem)

theorem Inv.inline_fresh (hs : s.Inv sem loop σ₀) (t : Tid) (f : F) :
    .invoke t (.inline s.inlines) f ∉ s.history :=
  fun hmem => Nat.lt_irrefl _ (hs.recorded.inline t _ f hmem)

/-- The job on the stack is the one the loop is running. -/
theorem Inv.job_frame (hs : s.Inv sem loop σ₀) {k : Nat} (hfr : fr ∈ s.stack)
    (hid : fr.id = .job k) : ∃ j, s.queue.loopPc = .running j ∧ j.ticket = k ∧ j.job.f = fr.f := by
  by_contra hnone
  have hinline : ∃ n, fr.id = .inline n := by
    cases hpc : s.queue.loopPc with
    | running j =>
        obtain ⟨above, r, hstack, habove⟩ := hs.shaped.running j hpc
        rw [hstack] at hfr
        rcases List.mem_append.mp hfr with hin | hlast
        · exact habove fr hin
        · obtain rfl := List.mem_singleton.mp hlast
          exact absurd ⟨j, hpc, CallId.job.inj hid, rfl⟩ hnone
    | polling | entered | draining | unwound =>
        exact hs.shaped.outside (fun j hj => by rw [hpc] at hj; cases hj) fr hfr
  obtain ⟨n, hn⟩ := hinline
  rw [hid] at hn
  cases hn

/-- Below the top of the stack are other calls. -/
theorem Inv.below_top (hs : s.Inv sem loop σ₀) {top : Frame F V E} {rest : List (Frame F V E)}
    (hstack : s.stack = top :: rest) :
    ∀ fr ∈ rest, FrameOk sem loop s.history fr ∧ fr.id ≠ top.id := by
  have hnodup := hs.nodup
  have hframes := hs.frames
  rw [hstack] at hnodup hframes
  intro fr hfr
  refine ⟨hframes fr (List.mem_cons_of_mem _ hfr), fun hid => ?_⟩
  have hmem : fr.id ∈ rest.map Frame.id := List.mem_map_of_mem hfr
  rw [hid] at hmem
  exact (List.nodup_cons.mp hnodup).1 hmem

theorem inv_init : (init σ₀ : Calls Tid F σ V E).Inv sem loop σ₀ where
  orderly := orderly_nil
  replays := rfl
  queueing := queueing_init
  shaped := ⟨fun _ hj => (nomatch hj), fun _ _ hfr => (nomatch hfr), fun _ => rfl⟩
  current := fun _ hj => (nomatch hj)
  frames := fun _ hfr => (nomatch hfr)
  nodup := List.nodup_nil
  recorded :=
    ⟨fun _ _ _ hmem => (nomatch hmem), fun _ _ _ hmem => (nomatch hmem),
      fun _ hj => (nomatch hj), fun _ _ _ hmem => (nomatch hmem), fun _ hk => (nomatch hk)⟩
  kept := fun _ _ hr => (nomatch hr)
  settled := fun _ hk => (nomatch hk)
  waits := fun _ _ hk => (nomatch hk)
  soon := fun _ hj => (nomatch hj)

/-! ## The loop thread calls `call_get` -/

theorem Inv.callInline (hs : s.Inv sem loop σ₀) {f : F} (hcan : s.queue.loopPc.mayCall = true) :
    Inv sem loop σ₀
      { s with
        stack := ⟨.inline s.inlines, f, none⟩ :: s.stack
        inlines := s.inlines + 1
        history := s.history ++ [.invoke loop (.inline s.inlines) f] } := by
  have hfresh := hs.inline_fresh
  refine ⟨hs.orderly.concat hfresh, hs.replays.concat rfl, hs.queueing, ?_, hs.current, ?_, ?_,
    hs.recorded.mono.concat (Nat.lt_succ_self _), ?_, hs.settled, ?_, hs.soon⟩
  · refine ⟨fun j hj => ?_, fun hne fr hfr => ?_,
      fun hno => absurd (hcan.symm.trans hno) (by decide)⟩
    · obtain ⟨above, r, hstack, habove⟩ := hs.shaped.running j hj
      refine ⟨⟨.inline s.inlines, f, none⟩ :: above, r, by rw [hstack]; rfl, fun fr hfr => ?_⟩
      rcases List.mem_cons.mp hfr with rfl | hin
      · exact ⟨_, rfl⟩
      · exact habove fr hin
    · rcases List.mem_cons.mp hfr with rfl | hin
      · exact ⟨_, rfl⟩
      · exact hs.shaped.outside hne fr hin
  · intro fr hfr
    rcases List.mem_cons.mp hfr with rfl | hin
    · refine ⟨⟨loop, List.mem_append_right _ List.mem_cons_self⟩,
        fun _ _ => List.mem_append_right _ List.mem_cons_self, fun _ g r hmem => ?_,
        fun r hr => (nomatch hr), fun t r hmem => ?_⟩
      · rcases List.mem_append.mp hmem with hold | hnew
        · obtain ⟨u, hu⟩ := hs.orderly.exec_invoked hold
          exact hfresh u g hu
        · cases List.mem_singleton.mp hnew
      · rcases List.mem_append.mp hmem with hold | hnew
        · obtain ⟨g, hg, -⟩ := hs.orderly.respond_exec hold
          exact hfresh t g hg
        · cases List.mem_singleton.mp hnew
    · exact (hs.frames fr hin).concat (fun _ _ he => (nomatch he)) (fun _ _ he => (nomatch he))
  · refine List.nodup_cons.mpr ⟨fun hmem => ?_, hs.nodup⟩
    obtain ⟨fr, hfr, hid⟩ := List.mem_map.mp hmem
    obtain ⟨t, ht⟩ := (hs.frames fr hfr).invoked
    rw [hid] at ht
    exact hfresh t fr.f ht
  · intro k r hr
    exact (hs.kept k r hr).imp fun _ hf => List.mem_append_left _ hf
  · intro t k hk
    exact (hs.waits t k hk).concat rfl (fun _ _ he => (nomatch he)) (hs.waits t k hk).served

theorem Inv.inlineReturns (hs : s.Inv sem loop σ₀) {n : Nat} {f : F} {r : Except E V}
    {rest : List (Frame F V E)} (hstack : s.stack = ⟨.inline n, f, some r⟩ :: rest) :
    Inv sem loop σ₀
      { s with stack := rest, history := s.history ++ [.respond loop (.inline n) r] } := by
  have hframe := hs.frames ⟨.inline n, f, some r⟩ (by rw [hstack]; exact List.mem_cons_self)
  have hrest := hs.below_top hstack
  obtain ⟨hrunning, houtside, hidle⟩ := hs.shaped
  have hnodup := hs.nodup
  rw [hstack] at hrunning houtside hidle hnodup
  refine ⟨?_, hs.replays.concat rfl, hs.queueing, ?_, hs.current, ?_,
    (List.nodup_cons.mp hnodup).2, hs.recorded.concat trivial, ?_, hs.settled, ?_, hs.soon⟩
  · exact hs.orderly.concat ⟨f, hframe.byLoop n rfl, (hframe.done r rfl).1, hframe.unanswered⟩
  · refine ⟨fun j hj => ?_, fun hne fr hfr => houtside hne fr (List.mem_cons_of_mem _ hfr),
      fun hno => (nomatch hidle hno)⟩
    obtain ⟨above, r', hsplit, habove⟩ := hrunning j hj
    cases above with
    | nil => cases (Frame.mk.inj (List.cons.inj hsplit).1).1
    | cons fr above =>
        obtain ⟨-, rfl⟩ := List.cons.inj hsplit
        exact ⟨above, r', rfl, fun fr hfr => habove fr (List.mem_cons_of_mem _ hfr)⟩
  · intro fr hfr
    obtain ⟨hok, hne⟩ := hrest fr hfr
    exact hok.concat (fun _ _ he => (nomatch he)) fun t r he => hne (Event.respond.inj he).2.1.symm
  · intro k r hr
    exact (hs.kept k r hr).imp fun _ hf => List.mem_append_left _ hf
  · intro t k hk
    refine (hs.waits t k hk).concat rfl (fun _ _ he => ?_) (hs.waits t k hk).served
    cases (Event.respond.inj he).2.1

/-! ## A callable takes effect -/

/-- When a job takes effect, all the jobs before it have ended. -/
theorem Inv.justified_exec (hs : s.Inv sem loop σ₀) (hfr : fr ∈ s.stack) (hnone : fr.result = none)
    (r : Except E V) : Justified CallId.Before s.history (.exec fr.id fr.f r) := by
  refine ⟨(hs.frames fr hfr).invoked, (hs.frames fr hfr).fresh hnone, fun i hi => ?_⟩
  obtain ⟨k, m, rfl, hid, hlt⟩ : ∃ k m, i = .job k ∧ fr.id = .job m ∧ k < m := by
    cases i <;> cases hid : fr.id <;> rw [hid] at hi <;>
      first | exact ⟨_, _, rfl, rfl, hi⟩ | cases hi
  obtain ⟨j, hpc, hticket, -⟩ := hs.job_frame hfr hid
  have hcurrent := (hs.current j hpc).1
  refine hs.recorded.ended k (by omega) fun j' hj' => ?_
  obtain rfl := LoopPc.running.inj (hpc.symm.trans hj')
  omega

theorem Inv.exec (hs : s.Inv sem loop σ₀) {id : CallId} {f : F} {rest : List (Frame F V E)}
    (hstack : s.stack = ⟨id, f, none⟩ :: rest) :
    Inv sem loop σ₀
      { s with
        stack := ⟨id, f, some (sem f s.shared).1⟩ :: rest
        shared := (sem f s.shared).2
        history := s.history ++ [.exec id f (sem f s.shared).1] } := by
  have htop : (⟨id, f, none⟩ : Frame F V E) ∈ s.stack := by
    rw [hstack]
    exact List.mem_cons_self
  have hframe := hs.frames _ htop
  have hrest := hs.below_top hstack
  obtain ⟨hrunning, houtside, hidle⟩ := hs.shaped
  have hnodup := hs.nodup
  rw [hstack] at hrunning houtside hidle hnodup
  refine ⟨hs.orderly.concat (hs.justified_exec htop rfl _), hs.replays.concat rfl, hs.queueing, ?_,
    hs.current, ?_, hnodup, hs.recorded.concat ?_, ?_, hs.settled, ?_, hs.soon⟩
  · refine ⟨fun j hj => ?_, fun hne fr hfr => ?_, fun hno => (nomatch hidle hno)⟩
    · obtain ⟨above, r, hsplit, habove⟩ := hrunning j hj
      cases above with
      | nil =>
          obtain ⟨hfr, rfl⟩ := List.cons.inj hsplit
          obtain ⟨rfl, rfl, -⟩ := Frame.mk.inj hfr
          exact ⟨[], _, rfl, habove⟩
      | cons fr above =>
          obtain ⟨rfl, rfl⟩ := List.cons.inj hsplit
          refine ⟨⟨id, f, some (sem f s.shared).1⟩ :: above, r, rfl, fun fr hfr => ?_⟩
          rcases List.mem_cons.mp hfr with rfl | hin
          · exact habove ⟨id, f, none⟩ List.mem_cons_self
          · exact habove fr (List.mem_cons_of_mem _ hin)
    · rcases List.mem_cons.mp hfr with rfl | hin
      · exact houtside hne ⟨id, f, none⟩ List.mem_cons_self
      · exact houtside hne fr (List.mem_cons_of_mem _ hin)
  · intro fr hfr
    rcases List.mem_cons.mp hfr with rfl | hin
    · refine ⟨hframe.invoked.imp fun _ hu => List.mem_append_left _ hu,
        fun n hn => List.mem_append_left _ (hframe.byLoop n hn), fun hnone => (nomatch hnone),
        fun r hr => ?_, fun t r hmem => ?_⟩
      · obtain rfl := Option.some.inj hr
        exact ⟨List.mem_append_right _ List.mem_cons_self, _, rfl⟩
      · rcases List.mem_append.mp hmem with hold | hnew
        · exact hframe.unanswered t r hold
        · cases List.mem_singleton.mp hnew
    · obtain ⟨hok, hne⟩ := hrest fr hin
      exact hok.concat (fun g r he => hne (Event.exec.inj he).1.symm) (fun _ _ he => (nomatch he))
  · cases id with
    | inline n => trivial
    | job k =>
        obtain ⟨j, hpc, rfl, -⟩ := hs.job_frame htop rfl
        have hcurrent := (hs.current j hpc).1
        show j.ticket < s.queue.ran.length
        omega
  · intro k r hr
    exact (hs.kept k r hr).imp fun _ hf => List.mem_append_left _ hf
  · intro t k hk
    exact (hs.waits t k hk).concat rfl (fun _ _ he => (nomatch he)) (hs.waits t k hk).served

/-! ## The steps of the queue alone -/

theorem Inv.quiet (hs : s.Inv sem loop σ₀) (hq : Queueing q)
    (hpushed : q.pushed = s.queue.pushed) (hran : q.ran = s.queue.ran)
    (hpending : q.swappedQueue ++ q.jobQueue = s.queue.swappedQueue ++ s.queue.jobQueue)
    (hpc : ∀ j, q.loopPc = .running j ↔ s.queue.loopPc = .running j)
    (hidle : q.loopPc.mayCall = false → s.stack = []) :
    Inv sem loop σ₀ { s with queue := q } where
  orderly := hs.orderly
  replays := hs.replays
  queueing := hq
  shaped :=
    ⟨fun j hj => hs.shaped.running j ((hpc j).mp hj),
      fun hne => hs.shaped.outside fun j hj => hne j ((hpc j).mpr hj), hidle⟩
  current := by
    intro j hj
    show _ = q.ran.length ∧ j ∈ q.pushed
    rw [hran, hpushed]
    exact hs.current j ((hpc j).mp hj)
  frames := hs.frames
  nodup := hs.nodup
  recorded := by
    obtain ⟨hinline, hticket, hpush, hbegun, hended⟩ := hs.recorded
    refine ⟨hinline, ?_, ?_, ?_, ?_⟩
    · show ∀ t k f, _ → k < q.pushed.length
      rw [hpushed]
      exact hticket
    · show ∀ j ∈ q.pushed, _
      rw [hpushed]
      exact hpush
    · show ∀ k f r, _ → k < q.ran.length
      rw [hran]
      exact hbegun
    · intro k hk hne
      change k < q.ran.length at hk
      rw [hran] at hk
      exact hended k hk fun j hj => hne j ((hpc j).mpr hj)
  kept := hs.kept
  settled := by
    intro k hk
    show k < q.ran.length ∧ _
    rw [hran]
    exact (hs.settled k hk).imp_right fun hne j hj => hne j ((hpc j).mp hj)
  waits := by
    intro t k hk
    obtain ⟨hinvoked, hunanswered, hserved⟩ := hs.waits t k hk
    refine ⟨hinvoked, hunanswered, ?_⟩
    show _ ∨ ∃ caller f, _ ∈ q.swappedQueue ++ q.jobQueue ∨ q.loopPc = _
    rw [hpending]
    refine hserved.imp_right fun ⟨caller, f, hjob⟩ => ⟨caller, f, hjob.imp_right fun hrun => ?_⟩
    exact (hpc _).mpr hrun
  soon := by
    show ∀ j ∈ q.pushed, _
    rw [hpushed]
    exact hs.soon

variable [DecidableEq Tid]

theorem Inv.activate (hs : s.Inv sem loop σ₀) {t : Tid}
    (hq : EventLoop.step loop s.queue (.activate t) = some q) :
    Inv sem loop σ₀ { s with queue := q } := by
  have hqueueing := hs.queueing.step (by simp) hq
  cases EventLoop.stepped hq with
  | activate _ => exact hs.quiet hqueueing rfl rfl rfl (fun _ => Iff.rfl) hs.shaped.idle

theorem Inv.wake (hs : s.Inv sem loop σ₀) (hstack : s.stack = [])
    (hq : EventLoop.step loop s.queue .wake = some q) : Inv sem loop σ₀ { s with queue := q } := by
  have hqueueing := hs.queueing.step (by simp) hq
  cases EventLoop.stepped hq with
  | wake hpc _ _ =>
      refine hs.quiet hqueueing rfl rfl rfl (fun j => ?_) fun _ => hstack
      rw [hpc]
      exact iff_of_false (fun hj => (nomatch hj)) (fun hj => (nomatch hj))

theorem Inv.swap (hs : s.Inv sem loop σ₀) (hq : EventLoop.step loop s.queue .swap = some q) :
    Inv sem loop σ₀ { s with queue := q } := by
  have hqueueing := hs.queueing.step (by simp) hq
  cases EventLoop.stepped hq with
  | swap hpc =>
      obtain ⟨l, hl⟩ := hs.queueing.fifo
      refine hs.quiet hqueueing rfl rfl ?_ (fun j => ?_) fun _ => hs.shaped.idle (by rw [hpc]; rfl)
      · show s.queue.jobQueue ++ [] = s.queue.swappedQueue ++ s.queue.jobQueue
        rw [hl.noBatch (.inr hpc), List.append_nil, List.nil_append]
      · rw [hpc]
        exact iff_of_false (fun hj => (nomatch hj)) (fun hj => (nomatch hj))

theorem Inv.finish (hs : s.Inv sem loop σ₀) (hq : EventLoop.step loop s.queue .finish = some q) :
    Inv sem loop σ₀ { s with queue := q } := by
  have hqueueing := hs.queueing.step (by simp) hq
  cases EventLoop.stepped hq with
  | finish hpc _ =>
      refine hs.quiet hqueueing rfl rfl rfl (fun j => ?_) fun _ => hs.shaped.idle (by rw [hpc]; rfl)
      rw [hpc]
      exact iff_of_false (fun hj => (nomatch hj)) (fun hj => (nomatch hj))

/-! ## A job is pushed -/

theorem Inv.push (hs : s.Inv sem loop σ₀) {t : Tid} {c : Closure Tid F}
    (hq : EventLoop.step loop s.queue (.push t c) = some q)
    (hsoon : ∀ f, c = .soon f → NoThrow sem f) {w : Tid → Option Nat}
    (hw : ∀ u k, w u = some k → s.waiting u = some k ∨
      u = t ∧ k = s.queue.pushed.length ∧ ∃ caller f, c = .get caller f) :
    Inv sem loop σ₀
      { s with queue := q, waiting := w, history := s.history ++ [.invoke t s.nextJob c.f] } := by
  have hqueueing := hs.queueing.step (by simp) hq
  have hfresh := hs.nextJob_fresh
  cases EventLoop.stepped hq with
  | push _ _ =>
  refine ⟨hs.orderly.concat hfresh, hs.replays.concat rfl, hqueueing, hs.shaped, ?_, ?_, hs.nodup,
    ?_, ?_, hs.settled, ?_, ?_⟩
  · intro j hj
    exact (hs.current j hj).imp_right fun hmem => List.mem_append_left _ hmem
  · intro fr hfr
    exact (hs.frames fr hfr).concat (fun _ _ he => (nomatch he)) (fun _ _ he => (nomatch he))
  · exact hs.recorded.push rfl rfl rfl
  · intro k r hr
    exact (hs.kept k r hr).imp fun _ hf => List.mem_append_left _ hf
  · intro u k hk
    rcases hw u k hk with hold | ⟨rfl, rfl, caller, f, rfl⟩
    · obtain hwaits := hs.waits u k hold
      refine hwaits.concat rfl (fun _ _ he => (nomatch he)) (hwaits.served.imp_right ?_)
      rintro ⟨caller, f, hjob⟩
      refine ⟨caller, f, hjob.imp_left fun hmem => ?_⟩
      show _ ∈ s.queue.swappedQueue ++ (s.queue.jobQueue ++ [_])
      rw [← List.append_assoc]
      exact List.mem_append_left _ hmem
    · refine ⟨⟨f, List.mem_append_right _ List.mem_cons_self⟩, fun v r hmem => ?_, .inr ?_⟩
      · rcases List.mem_append.mp hmem with hold | hnew
        · obtain ⟨g, hg, -⟩ := hs.orderly.respond_exec hold
          exact hfresh v g hg
        · cases List.mem_singleton.mp hnew
      · refine ⟨caller, f, .inl ?_⟩
        show _ ∈ s.queue.swappedQueue ++ (s.queue.jobQueue ++ [_])
        exact List.mem_append_right _ (List.mem_append_right _ List.mem_cons_self)
  · intro j hj f hf
    rcases List.mem_append.mp hj with hold | hnew
    · exact hs.soon j hold f hf
    · obtain rfl := List.mem_singleton.mp hnew
      exact hsoon f hf

/-! ## A job begins, and comes back -/

theorem Inv.pop (hs : s.Inv sem loop σ₀) {j : Queued (Closure Tid F)}
    {rest : List (Queued (Closure Tid F))} (hbatch : s.queue.swappedQueue = j :: rest)
    (hq : EventLoop.step loop s.queue .pop = some q) :
    Inv sem loop σ₀ { s with queue := q, stack := [⟨.job j.ticket, j.job.f, none⟩] } := by
  have hqueueing := hs.queueing.step (by simp) hq
  have hticket := hs.queueing.head_ticket hbatch
  have hpushed : j ∈ s.queue.pushed := by
    refine hs.queueing.pending_pushed ?_
    rw [hbatch]
    exact List.mem_cons_self
  cases EventLoop.stepped hq with
  | @pop j' rest' hpc hbatch' =>
  obtain ⟨rfl, rfl⟩ := List.cons.inj (hbatch.symm.trans hbatch')
  have hran : (s.queue.ran ++ [j]).length = s.queue.ran.length + 1 := List.length_append
  refine ⟨hs.orderly, hs.replays, hqueueing, ?_, ?_, ?_,
    List.nodup_cons.mpr ⟨List.not_mem_nil, List.nodup_nil⟩, ?_, hs.kept, ?_, ?_, hs.soon⟩
  · refine ⟨fun j' hj' => ?_, fun hne => absurd rfl (hne j), fun hno => (nomatch hno)⟩
    obtain rfl := LoopPc.running.inj hj'
    exact ⟨[], none, rfl, fun _ hfr => (nomatch hfr)⟩
  · intro j' hj'
    obtain rfl := LoopPc.running.inj hj'
    exact ⟨by rw [hticket, hran], hpushed⟩
  · intro fr hfr
    obtain rfl := List.mem_singleton.mp hfr
    refine ⟨hs.recorded.pushed j hpushed, fun n hn => (nomatch hn), fun _ f r hmem => ?_,
      fun r hr => (nomatch hr), fun t r hmem => ?_⟩
    · exact Nat.lt_irrefl _ (hticket ▸ hs.recorded.begun _ f r hmem)
    · obtain ⟨f, -, hexec⟩ := hs.orderly.respond_exec hmem
      exact Nat.lt_irrefl _ (hticket ▸ hs.recorded.begun _ f r hexec)
  · refine ⟨hs.recorded.inline, hs.recorded.ticket, hs.recorded.pushed, fun k f r hmem => ?_,
      fun k hk hne => ?_⟩
    · show k < (s.queue.ran ++ [j]).length
      rw [hran]
      exact Nat.lt_succ_of_lt (hs.recorded.begun k f r hmem)
    · change k < (s.queue.ran ++ [j]).length at hk
      have hother := hne j rfl
      refine hs.recorded.ended k (by omega) fun j' hj' => ?_
      rw [hpc] at hj'
      cases hj'
  · intro k hk
    obtain ⟨hlt, -⟩ := hs.settled k hk
    refine ⟨by show k < (s.queue.ran ++ [j]).length; omega, fun j' hj' => ?_⟩
    obtain rfl := LoopPc.running.inj hj'
    omega
  · intro t k hk
    obtain ⟨hinvoked, hunanswered, hserved⟩ := hs.waits t k hk
    refine ⟨hinvoked, hunanswered, hserved.imp_right ?_⟩
    rintro ⟨caller, f, hmem | hrun⟩
    · refine ⟨caller, f, ?_⟩
      rw [hbatch] at hmem
      rcases List.mem_cons.mp hmem with heq | hlater
      · exact .inr (by rw [← heq])
      · exact .inl hlater
    · rw [hpc] at hrun
      cases hrun

/-- The running job comes back: its closure may have put its result in the promise. -/
theorem Inv.jobReturns (hs : s.Inv sem loop σ₀) {k : Nat} {f : F} {r : Except E V}
    {j : Queued (Closure Tid F)} (hstack : s.stack = [⟨.job k, f, some r⟩])
    (hpc : s.queue.loopPc = .running j) (hq : EventLoop.step loop s.queue .jobReturns = some q)
    {p : Nat → Option (Except E V)}
    (hp : ∀ i x, p i = some x → s.promises i = some x ∨ i = k ∧ x = r)
    (hkeeps : ∀ i, (s.promises i).isSome = true → (p i).isSome = true)
    (hget : ∀ caller g, j.job = .get caller g → (p k).isSome = true) :
    Inv sem loop σ₀
      { s with
        queue := q, stack := [], promises := p, history := s.history ++ [.ended (.job k)] } := by
  have hqueueing := hs.queueing.step (by simp) hq
  have htop : (⟨.job k, f, some r⟩ : Frame F V E) ∈ s.stack := by
    rw [hstack]
    exact List.mem_cons_self
  obtain ⟨j', hpc', hticket, -⟩ := hs.job_frame htop rfl
  obtain rfl := LoopPc.running.inj (hpc.symm.trans hpc')
  obtain ⟨hexec, -⟩ := (hs.frames _ htop).done r rfl
  have hcurrent := (hs.current j hpc).1
  cases EventLoop.stepped hq with
  | jobReturns _ _ =>
  refine ⟨hs.orderly.concat ⟨f, r, hexec⟩, hs.replays.concat rfl, hqueueing, ?_,
    fun j hj => (nomatch hj), fun fr hfr => (nomatch hfr), List.nodup_nil, ?_, ?_, ?_, ?_, hs.soon⟩
  · exact ⟨fun j hj => (nomatch hj), fun _ fr hfr => (nomatch hfr), fun _ => rfl⟩
  · have hlonger : Recorded (s.history ++ [.ended (.job k)]) s.queue s.inlines :=
      hs.recorded.concat trivial
    refine ⟨hlonger.inline, hlonger.ticket, hlonger.pushed, hlonger.begun, fun i hi _ => ?_⟩
    by_cases hik : j.ticket = i
    · rw [← hik, hticket]
      exact List.mem_append_right _ List.mem_cons_self
    · refine hlonger.ended i hi fun j' hj' => ?_
      rwa [← LoopPc.running.inj (hpc.symm.trans hj')]
  · intro i x hx
    rcases hp i x hx with hold | ⟨rfl, rfl⟩
    · exact (hs.kept i x hold).imp fun _ hf => List.mem_append_left _ hf
    · exact ⟨f, List.mem_append_left _ hexec⟩
  · intro i hi
    refine ⟨?_, fun j hj => (nomatch hj)⟩
    obtain ⟨x, hx⟩ := Option.isSome_iff_exists.mp hi
    rcases hp i x hx with hold | ⟨rfl, rfl⟩
    · exact (hs.settled i (by rw [hold]; rfl)).1
    · show i < s.queue.ran.length
      omega
  · intro t i hi
    refine (hs.waits t i hi).concat rfl (fun _ _ he => (nomatch he)) ?_
    rcases (hs.waits t i hi).served with hset | ⟨caller, g, hmem | hrun⟩
    · exact .inl (hkeeps i hset)
    · exact .inr ⟨caller, g, .inl hmem⟩
    · obtain rfl := LoopPc.running.inj (hpc.symm.trans hrun)
      obtain rfl : i = k := hticket
      exact .inl (hget caller g rfl)

/-! ## A caller has its answer -/

theorem Inv.resume (hs : s.Inv sem loop σ₀) {t : Tid} {k : Nat} {r : Except E V}
    (hwait : s.waiting t = some k) (hr : s.promises k = some r) :
    Inv sem loop σ₀
      { s with
        waiting := Function.update s.waiting t none
        history := s.history ++ [.respond t (.job k) r] } := by
  obtain ⟨⟨g, hinvoked⟩, hunanswered, -⟩ := hs.waits t k hwait
  obtain ⟨f, hexec⟩ := hs.kept k r hr
  have hjustified : Justified CallId.Before s.history (.respond t (.job k) r) := by
    obtain ⟨u, hu⟩ := hs.orderly.exec_invoked hexec
    obtain ⟨rfl, rfl⟩ := hs.orderly.invoke_unique hinvoked hu
    exact ⟨g, hinvoked, hexec, hunanswered⟩
  refine ⟨hs.orderly.concat hjustified, hs.replays.concat rfl, hs.queueing, hs.shaped, hs.current,
    ?_, hs.nodup, hs.recorded.concat trivial, ?_, hs.settled, ?_, hs.soon⟩
  · intro fr hfr
    refine (hs.frames fr hfr).concat (fun _ _ he => (nomatch he)) fun u x he => ?_
    -- the job of this call has ended, so it is not on the stack
    obtain ⟨j, hpc, hticket, -⟩ := hs.job_frame hfr (Event.respond.inj he).2.1.symm
    exact (hs.settled k (by rw [hr]; rfl)).2 j hpc hticket
  · intro i x hx
    exact (hs.kept i x hx).imp fun _ hf => List.mem_append_left _ hf
  · intro u i hi
    change Function.update s.waiting t none u = some i at hi
    rcases eq_or_ne u t with rfl | hne
    · rw [Function.update_self] at hi
      cases hi
    · rw [Function.update_of_ne hne] at hi
      refine (hs.waits u i hi).concat rfl (fun v x he => ?_) (hs.waits u i hi).served
      obtain ⟨-, hjob, -⟩ := Event.respond.inj he
      obtain rfl := CallId.job.inj hjob
      obtain ⟨f', hf'⟩ := (hs.waits u k hi).invoked
      exact hne (hs.orderly.invoke_unique hf' hinvoked).1

/-! ## Every step -/

/-- What the action gives to `call_soon` does not throw. -/
def SoonOk (sem : F → σ → Except E V × σ) : CallAct Tid F → Prop
  | .callSoon _ f => NoThrow sem f
  | _ => True

theorem Inv.step (hs : s.Inv sem loop σ₀) {a : CallAct Tid F} (ha : SoonOk sem a)
    (h : Calls.step sem loop s a = some s') : s'.Inv sem loop σ₀ := by
  cases stepped h with
  | @callSoon t f q _ hq =>
      exact hs.push (c := .soon f) hq (fun g hg => Closure.soon.inj hg ▸ ha) fun _ _ hk => .inl hk
  | @callGet t f q _ _ hq =>
      refine hs.push (c := .get t f) hq (fun g hg => (nomatch hg)) fun u k hk => ?_
      rcases eq_or_ne u t with rfl | hne
      · rw [Function.update_self] at hk
        exact .inr ⟨rfl, (Option.some.inj hk).symm, u, f, rfl⟩
      · rw [Function.update_of_ne hne] at hk
        exact .inl hk
  | callInline hcan _ => exact hs.callInline hcan
  | exec hstack _ => exact hs.exec hstack
  | inlineReturns hstack _ => exact hs.inlineReturns hstack
  | @getReturns k f g r caller ticket q hstack hpc hq =>
      refine hs.jobReturns hstack hpc hq (fun i x hx => ?_) (fun i hi => ?_) fun _ _ _ => ?_
      · rcases eq_or_ne i k with rfl | hne
        · rw [Function.update_self] at hx
          exact .inr ⟨rfl, (Option.some.inj hx).symm⟩
        · rw [Function.update_of_ne hne] at hx
          exact .inl hx
      · rcases eq_or_ne i k with rfl | hne
        · rw [Function.update_self]
          rfl
        · rw [Function.update_of_ne hne]
          exact hi
      · rw [Function.update_self]
        rfl
  | soonReturns hstack hpc hq =>
      exact hs.jobReturns hstack hpc hq (fun _ _ hx => .inl hx) (fun _ hi => hi)
        fun _ _ hget => (nomatch hget)
  | @soonThrows k f g e ticket q hstack hpc _ =>
      have htop : (⟨.job k, f, some (.error e)⟩ : Frame F V E) ∈ s.stack := by
        rw [hstack]
        exact List.mem_cons_self
      obtain ⟨j, hpc', -, hf⟩ := hs.job_frame htop rfl
      obtain rfl := LoopPc.running.inj (hpc.symm.trans hpc')
      obtain rfl : g = f := hf
      obtain ⟨-, x, hx⟩ := (hs.frames _ htop).done _ rfl
      obtain ⟨v, hv⟩ := hs.soon _ (hs.current _ hpc).2 g rfl x
      cases hx.trans hv
  | resume hwait _ hr => exact hs.resume hwait hr
  | activate hq => exact hs.activate hq
  | wake hstack hq => exact hs.wake hstack hq
  | swap hq => exact hs.swap hq
  | pop hbatch hq => exact hs.pop hbatch hq
  | finish hq => exact hs.finish hq

theorem inv_run {acts : List (CallAct Tid F)} (hacts : ∀ a ∈ acts, SoonOk sem a)
    (h : run (Calls.step sem loop) (init σ₀) acts = some s) : s.Inv sem loop σ₀ :=
  run_inv_along (I := Inv sem loop σ₀) (R := fun _ a _ => SoonOk sem a)
    (fun _ _ _ hs ha h => hs.step ha h) inv_init (along_of_forall_mem hacts) h

end

/-! ## In the order of the tickets -/

section
variable {sem : F → σ → Except E V × σ} {loop : Tid} {σ₀ : σ} {s s' : Calls Tid F σ V E}

/-- Later pushes have later tickets. -/
def InTicketOrder : Event Tid CallId F (Except E V) → Event Tid CallId F (Except E V) → Prop
  | .invoke _ (.job i) _, .invoke _ (.job j) _ => i < j
  | _, _ => True

theorem pairwise_concat {h : List (Event Tid CallId F (Except E V))}
    {e : Event Tid CallId F (Except E V)} (hh : h.Pairwise InTicketOrder)
    (he : ∀ x ∈ h, InTicketOrder x e) : (h ++ [e]).Pairwise InTicketOrder := by
  refine List.pairwise_append.mpr ⟨hh, List.pairwise_singleton _ _, fun x hx y hy => ?_⟩
  obtain rfl := List.mem_singleton.mp hy
  exact he x hx

/-- An event that is not the call of a job has no ticket. -/
theorem pairwise_concat_other {h : List (Event Tid CallId F (Except E V))}
    {e : Event Tid CallId F (Except E V)} (hh : h.Pairwise InTicketOrder)
    (he : ∀ t i f, e ≠ .invoke t (.job i) f) : (h ++ [e]).Pairwise InTicketOrder := by
  refine pairwise_concat hh fun x _ => ?_
  unfold InTicketOrder
  split
  · exact absurd rfl (he _ _ _)
  · trivial

theorem Inv.inTicketOrder_push (hs : s.Inv sem loop σ₀) {t : Tid} {f : F} :
    ∀ x ∈ s.history, InTicketOrder x (.invoke t s.nextJob f) := by
  intro x hx
  unfold InTicketOrder nextJob
  split
  · next heq =>
    obtain ⟨-, hjob, -⟩ := Event.invoke.inj heq
    obtain rfl := CallId.job.inj hjob
    exact hs.recorded.ticket _ _ _ hx
  · trivial

theorem ticket_lt_of_pairwise {h₁ h₂ h₃ : List (Event Tid CallId F (Except E V))} {t u : Tid}
    {i j : Nat} {f g : F}
    (hh : (h₁ ++ .invoke t (.job i) f :: h₂ ++ .invoke u (.job j) g :: h₃).Pairwise
      InTicketOrder) : i < j :=
  (List.pairwise_append.mp hh).2.2 _ (List.mem_append_right _ List.mem_cons_self) _
    List.mem_cons_self

variable [DecidableEq Tid]

theorem pairwise_step (hs : s.Inv sem loop σ₀) (hh : s.history.Pairwise InTicketOrder)
    {a : CallAct Tid F} (h : step sem loop s a = some s') :
    s'.history.Pairwise InTicketOrder := by
  cases stepped h with
  | callSoon | callGet => exact pairwise_concat hh hs.inTicketOrder_push
  | callInline | exec | inlineReturns | getReturns | soonReturns | resume =>
      exact pairwise_concat_other hh fun _ _ _ he => (nomatch he)
  | soonThrows | activate | wake | swap | pop | finish => exact hh

theorem run_tickets {acts : List (CallAct Tid F)} (hacts : ∀ a ∈ acts, SoonOk sem a)
    (h : run (step sem loop) (init σ₀) acts = some s) : s.history.Pairwise InTicketOrder := by
  have hboth : s.Inv sem loop σ₀ ∧ s.history.Pairwise InTicketOrder :=
    run_inv_along (I := fun s => s.Inv sem loop σ₀ ∧ s.history.Pairwise InTicketOrder)
      (R := fun _ a _ => SoonOk sem a)
      (fun _ _ _ hs ha h => ⟨hs.1.step ha h, pairwise_step hs.1 hs.2 h⟩)
      ⟨inv_init, List.Pairwise.nil⟩ (along_of_forall_mem hacts) h
  exact hboth.2

end

/-! ## Every call is in the history -/

section
variable {sem : F → σ → Except E V × σ} {loop : Tid} {σ₀ : σ} {s s' : Calls Tid F σ V E}

/-- Every `call_get` made off the loop thread is in the history, and its caller has its answer
or waits for it. -/
def Awaited (s : Calls Tid F σ V E) : Prop :=
  ∀ t k f, ⟨k, .get t f⟩ ∈ s.queue.pushed → .invoke t (.job k) f ∈ s.history ∧
    (s.waiting t = some k ∨ ∃ r, .respond t (.job k) r ∈ s.history)

theorem answered_append {h : List (Event Tid CallId F (Except E V))} {t : Tid} {k : Nat}
    (more : List (Event Tid CallId F (Except E V)))
    (hanswered : ∃ r, .respond t (.job k) r ∈ h) : ∃ r, .respond t (.job k) r ∈ h ++ more :=
  hanswered.imp fun _ hr => List.mem_append_left _ hr

/-- Nobody stops waiting, and the history grows. -/
theorem Awaited.concat (hs : s.Awaited) {e : Event Tid CallId F (Except E V)}
    (hpushed : s'.queue.pushed = s.queue.pushed) (hwaiting : s'.waiting = s.waiting)
    (hhistory : s'.history = s.history ++ [e]) : s'.Awaited := by
  intro t k f hmem
  rw [hpushed] at hmem
  obtain ⟨hinvoked, hanswer⟩ := hs t k f hmem
  rw [hwaiting, hhistory]
  exact ⟨List.mem_append_left _ hinvoked, hanswer.imp_right (answered_append _)⟩

variable [DecidableEq Tid] {a : CallAct Tid F}

theorem calls_step (h : step sem loop s a = some s') :
    calls s'.history = calls s.history ++ (a.call loop).toList := by
  cases stepped h with
  | callSoon | callGet | callInline | exec | inlineReturns | getReturns | soonReturns | resume =>
      exact calls_concat _ _
  | soonThrows | activate | wake | swap | pop | finish => exact (List.append_nil _).symm

theorem closures_step (h : step sem loop s a = some s') :
    s'.queue.pushed.map Queued.job = s.queue.pushed.map Queued.job ++ a.closure.toList := by
  cases stepped h with
  | callSoon _ hq | callGet _ _ hq => exact pushed_step hq
  | getReturns _ _ hq | soonReturns _ _ hq | soonThrows _ _ hq => exact pushed_step hq
  | activate hq | swap hq | finish hq => exact pushed_step hq
  | wake _ hq | pop _ hq => exact pushed_step hq
  | callInline | exec | inlineReturns | resume => exact (List.append_nil _).symm

theorem Awaited.queue (hs : s.Awaited) {b : Act Tid (Closure Tid F)}
    {q : State Tid (Closure Tid F)} (hb : b.job = none)
    (hq : EventLoop.step loop s.queue b = some q) {stack : List (Frame F V E)} :
    Awaited { s with queue := q, stack } := by
  intro t k f hmem
  exact hs t k f (pushed_eq hb hq ▸ hmem)

/-- After a push whoever waited still waits, and so does whoever has now called `call_get`. -/
theorem Awaited.push (hs : s.Awaited) {t : Tid} {f : F} {job : Closure Tid F}
    {q : State Tid (Closure Tid F)} {waiting : Tid → Option Nat}
    (hq : EventLoop.step loop s.queue (.push t job) = some q)
    (hkept : ∀ u k, s.waiting u = some k → waiting u = some k)
    (hnew : ∀ u g, job = .get u g →
      u = t ∧ g = f ∧ waiting u = some s.queue.pushed.length) :
    Awaited { s with queue := q, waiting, history := s.history ++ [.invoke t s.nextJob f] } := by
  intro u k g hmem
  cases EventLoop.stepped hq with
  | push _ _ =>
  rcases List.mem_append.mp hmem with hold | hlast
  · obtain ⟨hinvoked, hanswer⟩ := hs u k g hold
    exact ⟨List.mem_append_left _ hinvoked, hanswer.imp (hkept u k) (answered_append _)⟩
  · obtain ⟨rfl, hjob⟩ := Queued.mk.inj (List.mem_singleton.mp hlast)
    obtain ⟨rfl, rfl, hwaits⟩ := hnew u g hjob.symm
    exact ⟨List.mem_append_right _ List.mem_cons_self, .inl hwaits⟩

theorem Awaited.callSoon (hs : s.Awaited) {t : Tid} {f : F} {q : State Tid (Closure Tid F)}
    (hq : EventLoop.step loop s.queue (.push t (.soon f)) = some q) :
    Awaited { s with queue := q, history := s.history ++ [.invoke t s.nextJob f] } := by
  refine hs.push hq (fun _ _ hstill => hstill) ?_
  intro u g hjob
  cases hjob

/-- A thread that calls `call_get` was not waiting, so it has the answers to its earlier calls. -/
theorem Awaited.callGet (hs : s.Awaited) {t : Tid} {f : F} {q : State Tid (Closure Tid F)}
    (hwait : s.waiting t = none)
    (hq : EventLoop.step loop s.queue (.push t (.get t f)) = some q) :
    Awaited
      { s with
        queue := q
        waiting := Function.update s.waiting t (some s.queue.pushed.length)
        history := s.history ++ [.invoke t s.nextJob f] } := by
  refine hs.push hq ?_ ?_
  · intro u k hstill
    have hne : u ≠ t := by
      rintro rfl
      rw [hwait] at hstill
      cases hstill
    exact (Function.update_of_ne hne ..).trans hstill
  · intro u g hjob
    obtain ⟨rfl, rfl⟩ := Closure.get.inj hjob
    exact ⟨rfl, rfl, Function.update_self ..⟩

theorem Awaited.resume (hs : s.Awaited) {t : Tid} {k : Nat} {r : Except E V}
    (hwait : s.waiting t = some k) :
    Awaited
      { s with
        waiting := Function.update s.waiting t none
        history := s.history ++ [.respond t (.job k) r] } := by
  intro u i g hmem
  obtain ⟨hinvoked, hanswer⟩ := hs u i g hmem
  refine ⟨List.mem_append_left _ hinvoked, ?_⟩
  rcases hanswer with hstill | hanswered
  · rcases eq_or_ne u t with rfl | hne
    · obtain rfl := Option.some.inj (hwait.symm.trans hstill)
      exact .inr ⟨r, List.mem_append_right _ List.mem_cons_self⟩
    · exact .inl ((Function.update_of_ne hne ..).trans hstill)
  · exact .inr (answered_append _ hanswered)

theorem Awaited.step (hs : s.Awaited) (h : Calls.step sem loop s a = some s') : s'.Awaited := by
  cases stepped h with
  | callSoon _ hq => exact hs.callSoon hq
  | callGet _ hwait hq => exact hs.callGet hwait hq
  | resume hwait _ _ => exact hs.resume hwait
  | callInline | exec | inlineReturns => exact hs.concat rfl rfl rfl
  | getReturns _ _ hq | soonReturns _ _ hq => exact hs.concat (pushed_eq rfl hq) rfl rfl
  | soonThrows _ _ hq => exact hs.queue rfl hq
  | activate hq | wake _ hq | swap hq | pop _ hq | finish hq => exact hs.queue rfl hq

end

end Calls

end

end Wshttp.EventLoop
