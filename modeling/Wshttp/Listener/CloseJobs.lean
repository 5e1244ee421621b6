/-
# `Wshttp.Listener.CloseJobs` — a close job and the session that enqueued it

A close job captures the session by reference and reads its address when it runs,
so it is good for exactly one thing: a session that is still there.  What can
remove the session before its job runs is another job of the same session, a
duplicate accept of its address, `close_all`, or the job of `close_listener`.
Nothing in the code stands between these and a pending job.

**Proved here.**  Over every run in which no such step is taken while the job is
pending, the job at the front of the queue always finds its session and listener,
and removes that session and no other; and after any such step there is a job that does
not, once the queue is run (`close_jobs_exact`).  A session that asks twice is an
example (`second_close_job_dangles`).
-/
import Wshttp.Listener.World

namespace Wshttp

open Machine

namespace World

/-- A queued job of `close_listener` will destroy the listener. -/
def Doomed (w : World) : Prop :=
  .closeListener ∈ w.jobs ∧ ∀ l, w.listener = some l → l.localAddr.port = w.registeredAt

/-- No session is asked to close, or removed, while its close job is pending, and
nobody enqueues anything behind the job that destroys the listener. -/
def ClosesOnce (bigEndian : Bool) (w : World) : WorldEvent → Prop
  | .session k e => ∀ l p s, w.listener = some l → l.sessions.find k = some (p, s) →
      e.asksToClose s = true → .closeSession p ∉ w.jobs ∧ ¬ w.Doomed
  | .listenerError => ¬ w.Doomed
  | .accept addr _ _ => ∀ l remote p, w.listener = some l →
      IpAddress.ofSockaddr bigEndian addr = .ok remote →
      l.sessions.ptrs.lookup remote.key = some (some p) → .closeSession p ∉ w.jobs
  | .closeAll => ∀ p, .closeSession p ∉ w.jobs
  | .runJob => True

/-- The listener has lost the session `p`, and nothing else. -/
structure RemovesExactly (p : Nat) (l l' : Listener) : Prop where
  gone : l'.sessions.heap.lookup p = none
  kept : ∀ q, q ≠ p → l'.sessions.heap.lookup q = l.sessions.heap.lookup q
  entries : ∀ k, l.sessions.ptrs.lookup k ≠ some (some p) →
    l'.sessions.ptrs.lookup k = l.sessions.ptrs.lookup k

/-- The job at the front refers to a live session of a live listener and removes
exactly that session; and no session has two jobs. -/
structure JobsExact (w : World) : Prop where
  session : ∀ p rest, w.jobs = .closeSession p :: rest →
    ∃ l l' s, w.listener = some l ∧ l.sessions.heap.lookup p = some s ∧
      { w with jobs := rest }.runJob (.closeSession p)
        = .ok { w with jobs := rest, listener := some l' } ∧
      RemovesExactly p l l'
  listener : ∀ rest, w.jobs = .closeListener :: rest → w.listener ≠ none
  once : ∀ p, w.jobs.count (.closeSession p) ≤ 1

/-! ## The invariant -/

/-- Every queued close job has its session, no session has two, and nothing stands
behind the job that destroys the listener. -/
structure Sound (w : World) : Prop where
  live : ∀ p, .closeSession p ∈ w.jobs →
    ∃ l s, w.listener = some l ∧ l.sessions.heap.lookup p = some s
  served : w.jobs ≠ [] → w.listener ≠ none
  once : ∀ p, w.jobs.count (.closeSession p) ≤ 1
  last : ∀ l pre post, w.listener = some l → l.localAddr.port = w.registeredAt →
    w.jobs = pre ++ .closeListener :: post → post = []

theorem sound_registered (port : UInt16) (localAddr : IpAddress) (fd : Fd) :
    (registered port localAddr fd).Sound where
  live := by
    intro p h
    cases h
  served := fun h => absurd rfl h
  once := fun _ => Nat.zero_le _
  last := by
    intro l pre post _ _ h
    cases pre <;> cases h

/-- Erasing a session's key loses that session only. -/
theorem closeSession_removesExactly {l : Listener} {p : Nat} {s : SessionBase}
    (h : l.sessions.heap.lookup p = some s) :
    RemovesExactly p l (l.closeSession s.path.remote) := by
  have howned : l.sessions.ptrs.lookup (remoteKey s) = some (some p) := l.sessions.held p s h
  have hheap : (l.closeSession s.path.remote).sessions.heap = l.sessions.heap.erase p :=
    OwnerMap.survivors_of_owned howned
  refine ⟨?_, ?_, ?_⟩
  · rw [hheap]
    exact Finmap.lookup_erase _ _
  · intro q hq
    rw [hheap]
    exact Finmap.lookup_erase_ne hq
  · intro k hk
    refine Finmap.lookup_erase_ne ?_
    rintro rfl
    exact hk howned

theorem Sound.jobsExact {w : World} (hw : w.Sound) : w.JobsExact where
  session := by
    intro p rest hjobs
    obtain ⟨l, s, hl, hs⟩ := hw.live p (by rw [hjobs]; exact List.mem_cons_self)
    refine ⟨l, l.closeSession s.path.remote, s, hl, hs, ?_, closeSession_removesExactly hs⟩
    simp only [runJob, hl, hs]
  listener := by
    intro rest hjobs
    exact hw.served (by rw [hjobs]; exact List.cons_ne_nil _ _)
  once := hw.once

/-! ## One step -/

/-- The queue, and what it may rely on, survive a change of the listener that
keeps the sessions of the pending jobs. -/
theorem Sound.withListener {w : World} {l l' : Listener} (hw : w.Sound) (hl : w.listener = some l)
    (hport : l'.localAddr = l.localAddr)
    (hkept : ∀ p s, .closeSession p ∈ w.jobs → l.sessions.heap.lookup p = some s →
      ∃ s', l'.sessions.heap.lookup p = some s') :
    ({ w with listener := some l' } : World).Sound where
  live := by
    intro p hp
    obtain ⟨l₀, s, hl₀, hs⟩ := hw.live p hp
    obtain rfl := Option.some.inj (hl.symm.trans hl₀)
    obtain ⟨s', hs'⟩ := hkept p s hp hs
    exact ⟨l', s', rfl, hs'⟩
  served := fun _ => Option.some_ne_none _
  once := hw.once
  last := by
    intro l₀ pre post hl₀ hreg hjobs
    obtain rfl := Option.some.inj hl₀
    rw [hport] at hreg
    exact hw.last l pre post hl hreg hjobs

theorem Doomed.of_withListener {w : World} {l l' : Listener} (hl : w.listener = some l)
    (hport : l'.localAddr = l.localAddr) (h : ({ w with listener := some l' } : World).Doomed) :
    w.Doomed := by
  refine ⟨h.1, fun l₀ hl₀ => ?_⟩
  obtain rfl := Option.some.inj (hl.symm.trans hl₀)
  rw [← hport]
  exact h.2 l' rfl

/-- A job may be added behind the others unless the listener is doomed. -/
theorem Sound.push {w : World} {l : Listener} {job : CloseJob} (hw : w.Sound)
    (hl : w.listener = some l) (hdoom : ¬ w.Doomed)
    (hjob : ∀ p, job = .closeSession p →
      .closeSession p ∉ w.jobs ∧ ∃ s, l.sessions.heap.lookup p = some s) :
    ({ w with jobs := w.jobs ++ [job] } : World).Sound where
  live := by
    intro p hp
    rcases List.mem_append.mp hp with hold | hnew
    · exact hw.live p hold
    · obtain ⟨-, s, hs⟩ := hjob p (List.mem_singleton.mp hnew).symm
      exact ⟨l, s, hl, hs⟩
  served := by
    intro _ hnone
    rw [hl] at hnone
    cases hnone
  once := by
    intro p
    have hold := hw.once p
    simp only [List.count_append, List.count_singleton]
    split
    · next heq =>
      have hnew := (hjob p (eq_of_beq heq)).1
      rw [List.count_eq_zero_of_not_mem hnew]
    · exact hold
  last := by
    intro l₀ pre post hl₀ hreg hjobs
    obtain rfl := Option.some.inj (hl.symm.trans hl₀)
    have hno : .closeListener ∉ w.jobs := by
      intro hmem
      refine hdoom ⟨hmem, fun l₁ hl₁ => ?_⟩
      obtain rfl := Option.some.inj (hl.symm.trans hl₁)
      exact hreg
    -- so the one that stands in the longer queue is its last
    rcases List.eq_nil_or_concat post with hnil | ⟨init, x, rfl⟩
    · exact hnil
    · exfalso
      rw [List.concat_eq_append, ← List.cons_append, ← List.append_assoc] at hjobs
      have hinit := List.append_inj_left' hjobs rfl
      rw [hinit] at hno
      exact hno (List.mem_append_right _ List.mem_cons_self)

theorem Sound.pop {w : World} {job : CloseJob} {rest : List CloseJob} (hw : w.Sound)
    (hjobs : w.jobs = job :: rest) : ({ w with jobs := rest } : World).Sound where
  live := by
    intro p hp
    exact hw.live p (by rw [hjobs]; exact List.mem_cons_of_mem _ hp)
  served := fun _ => hw.served (by rw [hjobs]; exact List.cons_ne_nil _ _)
  once := by
    intro p
    have hold := hw.once p
    rw [hjobs] at hold
    exact Nat.le_trans List.count_le_count_cons hold
  last := by
    intro l pre post hl hreg hrest
    refine hw.last l (job :: pre) post hl hreg ?_
    rw [hjobs, show rest = pre ++ .closeListener :: post from hrest]
    rfl

/-! ### An accept -/

section
variable {bigEndian : Bool} {o : AcceptOutcome} {fd : Fd} {l : Listener}

theorem createInboundSession_localAddr {remote : IpAddress} :
    (l.createInboundSession bigEndian o remote fd).2.localAddr = l.localAddr := by
  unfold Listener.createInboundSession
  split
  · rfl
  dsimp only
  split <;> rfl

theorem createInboundSession_kept {remote : IpAddress} {p : Nat} {s : SessionBase}
    (hp : l.sessions.ptrs.lookup remote.key ≠ some (some p))
    (hs : l.sessions.heap.lookup p = some s) :
    (l.createInboundSession bigEndian o remote fd).2.sessions.heap.lookup p = some s := by
  unfold Listener.createInboundSession
  split
  · refine OwnerMap.lookup_heap_erase.mpr ⟨hs, fun heq => hp ?_⟩
    rw [← heq]
    exact l.sessions.held p s hs
  dsimp only
  split
  · exact hs
  · next t _ hnew =>
    refine OwnerMap.lookup_heap_assign hs fun heq => hp ?_
    rw [← (inboundSession_returned hnew).2, ← remoteKey, ← heq]
    exact l.sessions.held p s hs

theorem acceptCb_localAddr {addr : Sockaddr} :
    (l.acceptCb bigEndian o addr fd).2.localAddr = l.localAddr := by
  unfold Listener.acceptCb
  split
  · rfl
  · exact createInboundSession_localAddr

theorem acceptCb_kept {addr : Sockaddr} {p : Nat} {s : SessionBase}
    (hp : ∀ remote, IpAddress.ofSockaddr bigEndian addr = .ok remote →
      l.sessions.ptrs.lookup remote.key ≠ some (some p))
    (hs : l.sessions.heap.lookup p = some s) :
    (l.acceptCb bigEndian o addr fd).2.sessions.heap.lookup p = some s := by
  unfold Listener.acceptCb
  split
  · exact hs
  · next remote hr => exact createInboundSession_kept (hp remote hr) hs

end

/-! ### An event of a session -/

theorem sound_session {bigEndian : Bool} {w : World} {l : Listener} {k : IpAddress.Key}
    {e : IoEvent} {p : Nat} {s : SessionBase} (hw : w.Sound) (hl : w.listener = some l)
    (hfind : l.sessions.find k = some (p, s))
    (honce : e.asksToClose s = true → .closeSession p ∉ w.jobs ∧ ¬ w.Doomed) :
    ({ w with
        listener := some { l with
          sessions := l.sessions.modify p (Listener.afterEvent bigEndian e)
            (Listener.remoteKey_afterEvent _ e) }
        jobs := w.jobs ++ List.replicate (e.asksToClose s).toNat (.closeSession p) } :
      World).Sound := by
  have hs := (OwnerMap.find_eq_some.mp hfind).2
  have hmoved : ({ w with listener := some { l with
      sessions := l.sessions.modify p (Listener.afterEvent bigEndian e)
        (Listener.remoteKey_afterEvent _ e) } } : World).Sound := by
    refine hw.withListener hl rfl fun q t _ hq => ?_
    rw [OwnerMap.lookup_heap_modify, hs]
    split
    · exact ⟨_, rfl⟩
    · exact ⟨t, hq⟩
  cases hask : e.asksToClose s with
  | false =>
      rw [show w.jobs ++ List.replicate false.toNat (CloseJob.closeSession p) = w.jobs from
        List.append_nil _]
      exact hmoved
  | true =>
      obtain ⟨hnew, hdoom⟩ := honce hask
      refine hmoved.push rfl (fun hdoomed => hdoom (Doomed.of_withListener hl (by rfl) hdoomed)) ?_
      intro q hq
      obtain rfl := CloseJob.closeSession.inj hq
      refine ⟨hnew, Listener.afterEvent bigEndian e s, ?_⟩
      rw [OwnerMap.lookup_heap_modify, if_pos rfl, hs]
      rfl

theorem sound_step {bigEndian : Bool} {w w' : World} {e : WorldEvent} (hw : w.Sound)
    (honce : ClosesOnce bigEndian w e) (h : w.step bigEndian e = some w') : w'.Sound := by
  cases stepped h with
  | @accept addr fd o l hl =>
      refine hw.withListener hl acceptCb_localAddr fun p s hp hs => ⟨s, ?_⟩
      refine acceptCb_kept (fun remote hr howned => ?_) hs
      exact honce l remote p hl hr howned hp
  | @session _ _ l p s hl hfind => exact sound_session hw hl hfind (honce l p s hl hfind)
  | listenerError hl =>
      refine hw.push hl honce fun p hjob => ?_
      cases hjob
  | closeAll hl =>
      exact hw.withListener hl rfl fun p _ hp _ => absurd hp (honce p)
  | @runCloseSession l p s rest hjobs hl hs =>
      have hfirst : .closeSession p ∉ rest := by
        have hcount := hw.once p
        rw [hjobs, List.count_cons_self] at hcount
        exact List.count_eq_zero.mp (by omega)
      refine (hw.pop hjobs).withListener hl rfl fun q t hq ht => ⟨t, ?_⟩
      have hne : q ≠ p := by
        rintro rfl
        exact hfirst hq
      rw [(closeSession_removesExactly hs).kept q hne]
      exact ht
  | @runCloseListener l rest hjobs hl =>
      unfold closeListener
      split
      · next hreg =>
        -- nothing was enqueued behind this job
        obtain rfl : rest = [] := hw.last l [] rest hl hreg hjobs
        refine ⟨?_, fun hne => absurd rfl hne, fun _ => Nat.zero_le _, ?_⟩
        · intro p hp
          cases hp
        · intro l₀ pre post hl₀
          cases hl₀
      · exact hw.pop hjobs

/-! ## What breaks it

A job that is not exact stands in the queue until it is its turn, and nothing that the jobs
before it do makes it exact.  So the queue tells, when it is run, what was done wrong. -/

section
variable {bigEndian : Bool} {w w' : World} {p : Nat}

/-- If the queue is run next, every job is exact in its turn. -/
def RunsExact (bigEndian : Bool) (w : World) : Prop :=
  ∀ n v, run (step bigEndian) w (List.replicate n .runJob) = some v → v.JobsExact

theorem Sound.runsExact (hw : w.Sound) : w.RunsExact bigEndian := by
  intro n v hrun
  have honce : Along (step bigEndian) (fun w e _ => ClosesOnce bigEndian w e) w
      (List.replicate n .runJob) :=
    along_mono (I := fun _ => True) (R := fun _ e _ => e = .runJob) (fun _ _ _ _ _ => trivial)
      (fun _ _ _ _ _ he => he ▸ trivial) trivial
      (along_of_forall_mem fun _ he => (List.mem_replicate.mp he).2)
  exact (run_inv_along (I := Sound) (R := fun w e _ => ClosesOnce bigEndian w e)
    (fun _ _ _ hw honce h => sound_step hw honce h) hw honce hrun).jobsExact

theorem RunsExact.jobsExact (hw : w.RunsExact bigEndian) : w.JobsExact := hw 0 w rfl

/-- A job that is exact is run. -/
theorem JobsExact.runs (hw : w.JobsExact) {job : CloseJob} {rest : List CloseJob}
    (hjobs : w.jobs = job :: rest) : ∃ v, w.step bigEndian .runJob = some v ∧ v.jobs = rest := by
  cases job with
  | closeSession p =>
      obtain ⟨-, l', -, -, -, hrun, -⟩ := hw.session p rest hjobs
      refine ⟨{ w with jobs := rest, listener := some l' }, ?_, rfl⟩
      simp only [step, hjobs, hrun]
      rfl
  | closeListener =>
      obtain ⟨l, hl⟩ := Option.ne_none_iff_exists'.mp (hw.listener rest hjobs)
      refine ⟨closeListener l.localAddr.port { w with jobs := rest }, ?_, ?_⟩
      · simp only [step, hjobs, runJob, hl]
        rfl
      · unfold closeListener
        split <;> rfl

/-- The queue is run up to some place in it; `P` is what the jobs keep. -/
theorem RunsExact.reaches {P : World → Prop}
    (hkeeps : ∀ w v, P w → w.step bigEndian .runJob = some v → P v) {pre rest : List CloseJob} :
    ∀ {w : World}, w.RunsExact bigEndian → P w → w.jobs = pre ++ rest →
      ∃ v, v.jobs = rest ∧ P v ∧ v.RunsExact bigEndian := by
  induction pre with
  | nil => exact fun hw hP hjobs => ⟨_, hjobs, hP, hw⟩
  | cons job pre ih =>
      intro w hw hP hjobs
      obtain ⟨v, (hv : w.step bigEndian .runJob = some v), hrest⟩ := hw.jobsExact.runs hjobs
      refine ih (fun n u hu => hw (n + 1) u ?_) (hkeeps w v hP hv) hrest
      rw [List.replicate_succ, run_cons hv, hu]

/-- The session `p` is not there. -/
def Gone (p : Nat) (w : World) : Prop :=
  ∀ l, w.listener = some l → l.sessions.heap.lookup p = none

theorem gone_runJob (hw : w.Gone p) (h : w.step bigEndian .runJob = some w') : w'.Gone p := by
  intro l' hl'
  cases stepped h with
  | @runCloseSession l q s rest _ hl _ =>
      obtain rfl := Option.some.inj hl'
      refine Option.eq_none_iff_forall_ne_some.mpr fun t ht => ?_
      have hthere := (OwnerMap.lookup_heap_erase.mp ht).1
      rw [hw l hl] at hthere
      cases hthere
  | runCloseListener _ _ =>
      unfold closeListener at hl'
      split at hl'
      · cases hl'
      · exact hw l' hl'

/-- The listener stands under its own port. -/
def Homed (w : World) : Prop := ∀ l, w.listener = some l → l.localAddr.port = w.registeredAt

theorem homed_runJob (hw : w.Homed) (h : w.step bigEndian .runJob = some w') : w'.Homed := by
  intro l' hl'
  cases stepped h with
  | @runCloseSession l q s rest _ hl _ =>
      obtain rfl := Option.some.inj hl'
      exact hw l hl
  | runCloseListener _ _ =>
      unfold closeListener at hl' ⊢
      split at hl'
      · cases hl'
      · next hreg =>
        rw [if_neg hreg]
        exact hw l' hl'

/-- A job of a session that is not there is not exact in its turn. -/
theorem RunsExact.not_pending (hw : w.RunsExact bigEndian) (hgone : w.Gone p) :
    .closeSession p ∉ w.jobs := by
  intro hmem
  obtain ⟨pre, rest, hjobs⟩ := List.append_of_mem hmem
  obtain ⟨v, hfront, hgone, hv⟩ :=
    hw.reaches (P := Gone p) (fun _ _ hw h => gone_runJob hw h) hgone hjobs
  obtain ⟨l, -, s, hl, hs, -⟩ := hv.jobsExact.session p rest hfront
  rw [hgone l hl] at hs
  cases hs

/-- Nor is a job behind the one that destroys the listener. -/
theorem RunsExact.nothing_behind (hw : w.RunsExact bigEndian) (hhomed : w.Homed)
    {pre post : List CloseJob} (hjobs : w.jobs = pre ++ .closeListener :: post) : post = [] := by
  obtain ⟨v, hfront, hhomed, hv⟩ :=
    hw.reaches (P := Homed) (fun _ _ hw h => homed_runJob hw h) hhomed hjobs
  obtain ⟨l, hl⟩ := Option.ne_none_iff_exists'.mp (hv.jobsExact.listener post hfront)
  have hrun : v.step bigEndian .runJob = some { v with jobs := post, listener := none } := by
    simp only [step, hfront, runJob, hl, closeListener, if_pos (hhomed l hl)]
    rfl
  have hlast : ({ v with jobs := post, listener := none } : World).JobsExact :=
    hv 1 _ (by rw [List.replicate_one, run_cons hrun, run_nil])
  cases post with
  | nil => rfl
  | cons job post =>
      cases job with
      | closeSession p =>
          obtain ⟨l, -, -, hl, -⟩ := hlast.session p post rfl
          cases hl
      | closeListener => exact absurd rfl (hlast.listener post rfl)

/-- So nothing is pushed behind the job of a listener that stands under its own port. -/
theorem RunsExact.not_doomed {l : Listener} {job : CloseJob}
    (hw : ({ w with listener := some l, jobs := w.jobs ++ [job] } : World).RunsExact bigEndian)
    (hport : ∀ l₀, w.listener = some l₀ → l.localAddr = l₀.localAddr)
    (hl : w.listener ≠ none) : ¬ w.Doomed := by
  rintro ⟨hmem, hhomed⟩
  obtain ⟨l₀, hl₀⟩ := Option.ne_none_iff_exists'.mp hl
  obtain ⟨pre, post, hjobs⟩ := List.append_of_mem hmem
  have hbehind : w.jobs ++ [job] = pre ++ .closeListener :: (post ++ [job]) := by
    rw [hjobs, List.append_assoc, List.cons_append]
  have hnothing : post ++ [job] = [] := by
    refine hw.nothing_behind (fun l₁ hl₁ => ?_) hbehind
    obtain rfl := Option.some.inj hl₁
    exact (congrArg IpAddress.port (hport l₀ hl₀)).trans (hhomed l₀ hl₀)
  cases post <;> cases hnothing

/-- A step after which all jobs are exact in their turn meets the condition. -/
theorem RunsExact.closesOnce {e : WorldEvent} (hw' : w'.RunsExact bigEndian)
    (h : w.step bigEndian e = some w') : ClosesOnce bigEndian w e := by
  cases stepped h with
  | @accept addr fd o l hl =>
      intro l₀ remote p hl₀ hr howned
      obtain rfl := Option.some.inj (hl.symm.trans hl₀)
      refine hw'.not_pending fun l' hl' => ?_
      obtain rfl := Option.some.inj hl'
      obtain ⟨s, hs, hkey⟩ := l.sessions.owned remote.key p howned
      have hmem : remote.key ∈ l.sessions.ptrs := Finmap.mem_iff.mpr ⟨_, howned⟩
      simp only [Listener.acceptCb, hr, Listener.createInboundSession, if_pos hmem]
      refine Option.eq_none_iff_forall_ne_some.mpr fun t ht => ?_
      obtain ⟨ht, hother⟩ := OwnerMap.lookup_heap_erase.mp ht
      obtain rfl := Option.some.inj (hs.symm.trans ht)
      exact hother hkey
  | @session k e l p s hl hfind =>
      intro l₀ p₀ s₀ hl₀ hfind₀ hask
      obtain rfl := Option.some.inj (hl.symm.trans hl₀)
      obtain ⟨rfl, rfl⟩ := Prod.mk.inj (Option.some.inj (hfind.symm.trans hfind₀))
      rw [hask] at hw'
      refine ⟨fun hmem => ?_, hw'.not_doomed (fun l₁ hl₁ => ?_) (by rw [hl]; simp)⟩
      · have htwice := hw'.jobsExact.once p
        have hone : 0 < w.jobs.count (.closeSession p) := List.count_pos_iff.mpr hmem
        change (w.jobs ++ [CloseJob.closeSession p]).count (CloseJob.closeSession p) ≤ 1 at htwice
        rw [List.count_append, List.count_singleton_self] at htwice
        omega
      · obtain rfl := Option.some.inj (hl.symm.trans hl₁)
        rfl
  | @listenerError l hl =>
      have hsame : ({ w with listener := some l, jobs := w.jobs ++ [.closeListener] } : World)
          = { w with jobs := w.jobs ++ [.closeListener] } := by rw [← hl]
      rw [← hsame] at hw'
      refine hw'.not_doomed (fun l₁ hl₁ => ?_) (by rw [hl]; simp)
      obtain rfl := Option.some.inj (hl.symm.trans hl₁)
      rfl
  | closeAll _ =>
      intro p
      refine hw'.not_pending fun l' hl' => ?_
      obtain rfl := Option.some.inj hl'
      exact Finmap.lookup_empty _
  | runCloseSession _ _ _ | runCloseListener _ _ => trivial

end

/-- **A close job is exact exactly as long as no session is asked, or removed, while its job
is pending.**  Over every run of a listener from its registration: in every state that it
reaches, and in those that follow when the queue is run from there. -/
theorem close_jobs_exact (bigEndian : Bool) (port : UInt16) (localAddr : IpAddress) (fd : Fd)
    (evs : List WorldEvent) :
    (∀ before after, evs = before ++ after →
      ∀ w, run (step bigEndian) (registered port localAddr fd) before = some w →
        w.RunsExact bigEndian) ↔
    Along (step bigEndian) (fun w e _ => ClosesOnce bigEndian w e)
      (registered port localAddr fd) evs := by
  have hsound := sound_registered port localAddr fd
  rw [forall_reached_iff, and_iff_right hsound.runsExact]
  refine along_iff (I := Sound) (fun w e t hw h => ?_) (fun w e t hw ht h => ?_) hsound evs
  · exact ⟨fun ht => ht.closesOnce h, fun honce => (sound_step hw honce h).runsExact⟩
  · exact sound_step hw (ht.closesOnce h) h

/-- A connection from `127.0.0.1:13330`. -/
def accepts (fd : Fd) : WorldEvent := .accept (.inet 0x0100007f 0x1234) fd .succeeds

/-- libevent reports `bits` to the session of that connection. -/
def reports (bits : UInt16) : WorldEvent :=
  .session (.v4 ⟨0x7f000001⟩, 13330) (.eventCb bits [] .succeeds .sendAll)

/-- The connection ends: one job, which is exact. -/
theorem close_jobs_exact_eof :
    ∃ w, run (step false) (registered 5544 (.ofPort 5544) 3) [accepts 7, reports 0x10] = some w ∧
      w.jobs = [.closeSession 0] ∧ w.JobsExact := by
  obtain ⟨w, hw⟩ : ∃ w, run (step false) (registered 5544 (.ofPort 5544) 3)
      [accepts 7, reports 0x10] = some w := ⟨_, rfl⟩
  have hjobs : (run (step false) (registered 5544 (.ofPort 5544) 3)
      [accepts 7, reports 0x10]).map World.jobs = some [.closeSession 0] := rfl
  rw [hw] at hjobs
  have honce : Along (step false) (fun w e _ => ClosesOnce false w e)
      (registered 5544 (.ofPort 5544) 3) [accepts 7, reports 0x10] := by
    intro t ht
    refine ⟨fun _ _ _ _ _ _ hp => absurd hp List.not_mem_nil, ?_⟩
    obtain rfl := Option.some.inj ht
    intro u _
    refine ⟨?_, trivial⟩
    intro _ _ _ _ _ _
    exact ⟨List.not_mem_nil, fun hdoomed => absurd hdoomed.1 List.not_mem_nil⟩
  have hexact := (close_jobs_exact false 5544 (.ofPort 5544) 3 _).mpr honce
  exact ⟨w, hw, Option.some.inj hjobs, (hexact _ [] (List.append_nil _).symm w hw).jobsExact⟩

/-- The connection ends, and an error follows before the queue is processed: the
second job refers to a session that the first one has destroyed. -/
theorem second_close_job_dangles :
    ∃ w, run (step false) (registered 5544 (.ofPort 5544) 3)
        [accepts 7, reports 0x10, reports 0x20, .runJob] = some w ∧ ¬ w.JobsExact := by
  refine ⟨_, rfl, ?_⟩
  intro h
  obtain ⟨l, -, s, hl, hs, -, -⟩ := h.session 0 [] rfl
  obtain rfl := Option.some.inj hl
  cases hs

end World

end Wshttp
