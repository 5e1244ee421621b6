/-
# `Wshttp.Session.Deferred` — callbacks of a session that is not initialised

A session is constructed without an nghttp2 session; `initialize_session` makes one
when `event_cb` reports the connection and accepts the ALPN.  libevent does not
wait for that: it delivers the other callbacks of the bufferevent until the
bufferevent is freed, and that is when the queued close job runs.

    live s     the session `s`, whose callbacks may be delivered
    freed      the close job has run
    crashed    a callback has handed the null session to nghttp2

A write callback may come at any time here, not only after a drain.  An exception
out of a callback ends the process, and with it the run.

**Proved here.**  A run of a session from its constructor crashes exactly when a
`read_cb` or `write_cb` comes before a good `event_cb` (`uncrashed_iff`).
-/
import Wshttp.Listener.World
import Wshttp.Node

namespace Wshttp

open Machine

/-! ## Callbacks until the bufferevent is freed -/

inductive Life where
  | live (s : SessionBase)
  | freed
  | crashed

inductive DeferredEvent where
  | io (e : IoEvent)
  | closeJob

/-- How an event ends; `none` if it cannot happen. -/
def SessionBase.callback (bigEndian : Bool) (s : SessionBase) (e : IoEvent) :
    Option (Outcome SessionBase) :=
  match e with
  | .eventCb events alpn i o => some (s.eventCb bigEndian events alpn i o)
  | .readCb r o => some (s.readSessionData r o)
  | .writeCb wantRead wantWrite o =>
      some ({ s with bev := { s.bev with writeScheduled := false } }.writeSessionData
        wantRead wantWrite o)
  | .arrive bs => (ioStep bigEndian s (.arrive bs)).map fun t => (.ok (), t)
  | .drain n => (ioStep bigEndian s (.drain n)).map fun t => (.ok (), t)
  | .submit frames => (ioStep bigEndian s (.submit frames)).map fun t => (.ok (), t)

/-- The life of a session after a callback. -/
def Life.after : Outcome SessionBase → Option Life
  | (.ok (), t) => some (.live t)
  | (.error .nullPointer, _) => some .crashed
  | (.error _, _) => none

def Life.step (bigEndian : Bool) : Life → DeferredEvent → Option Life
  | .live s, .io e => (s.callback bigEndian e).bind Life.after
  | .live s, .closeJob => if 0 < s.closeJobs then some .freed else none
  | _, _ => none

/-- A session that one of the two constructors has returned. -/
inductive Constructed : SessionBase → Prop
  | inbound {bigEndian : Bool} {o : AcceptOutcome} {remote : IpAddress} {fd : Fd}
      {s : SessionBase} {unwound : Multiset Fd} :
      inboundSession bigEndian o remote fd = (.ok s, unwound) → Constructed s
  | outbound {o : ConnectOutcome} {n : Node} {t : OutboundSession} :
      outboundSession o n = .ok t → Constructed t.base

/-- `event_cb` with the connected bit and an acceptable ALPN. -/
def IoEvent.connects : IoEvent → Bool
  | .eventCb events alpn _ _ =>
      events &&& BEV_EVENT_CONNECTED ≠ 0 && SessionBase.alpnAccepted alpn
  | _ => false

def IoEvent.usesSession : IoEvent → Bool
  | .readCb .. | .writeCb .. => true
  | _ => false

/-- Every `read_cb` and `write_cb` comes after a good `event_cb`; `connected` tells
whether there has been one before. -/
def callsAfterConnect : Bool → List DeferredEvent → Bool
  | _, [] => true
  | connected, .io e :: evs =>
      (connected || !e.usesSession) && callsAfterConnect (connected || e.connects) evs
  | connected, .closeJob :: evs => callsAfterConnect connected evs

/-! ## Calls with a session -/

/-- The call does not use a null session, and leaves a session when it returns. -/
structure KeepsSession (r : Outcome SessionBase) : Prop where
  used : r.1 ≠ .error .nullPointer
  kept : r.1 = .ok () → r.2.session ≠ none

theorem KeepsSession.throws (e : Exn) (s : SessionBase) : KeepsSession (.error (.throws e), s) :=
  ⟨fun h => (nomatch h), fun h => (nomatch h)⟩

theorem KeepsSession.returns {s : SessionBase} (h : s.session ≠ none) : KeepsSession (.ok (), s) :=
  ⟨fun h => (nomatch h), fun _ => h⟩

theorem KeepsSession.andThen {r : Outcome SessionBase} {k : SessionBase → Outcome SessionBase}
    (hr : KeepsSession r) (hk : ∀ s, s.session ≠ none → KeepsSession (k s)) :
    KeepsSession (r.andThen k) := by
  obtain ⟨out, s⟩ := r
  cases out with
  | ok u => exact hk s (hr.kept rfl)
  | error f => exact hr

namespace SessionBase

variable {s : SessionBase}

theorem sendSessionData_keeps (hs : s.session ≠ none) (o : SendOutcome) :
    KeepsSession (s.sendSessionData o) := by
  unfold sendSessionData
  split
  · next hnone => exact absurd hnone hs
  · dsimp only
    split
    · exact .throws _ _
    · exact .returns (Option.some_ne_none _)

theorem submitSettings_keeps (hs : s.session ≠ none) (i : InitOutcome) (what : String) :
    KeepsSession (submitSettings i s what) := by
  unfold submitSettings
  split
  · next hnone => exact absurd hnone hs
  · split
    · exact .throws _ _
    · exact .returns (Option.some_ne_none _)

/-- A good connection event needs no session: it makes one. -/
theorem configSendInitial_keeps (bigEndian : Bool) (i : InitOutcome) (o : SendOutcome)
    (s : SessionBase) : KeepsSession (s.configSendInitial bigEndian i o) := by
  have hin : KeepsSession (s.inboundInitializeSession i) := by
    unfold inboundInitializeSession
    split
    · exact .throws _ _
    split
    · exact .throws _ _
    · exact .returns (Option.some_ne_none _)
  have hout : KeepsSession (s.outboundInitializeSession bigEndian i) := by
    unfold outboundInitializeSession
    split
    · exact .throws _ _
    split
    · exact .throws _ _
    split
    · exact .throws _ _
    dsimp only
    split
    · exact .throws _ _
    · exact .returns (Option.some_ne_none _)
  unfold configSendInitial
  split
  · exact hout.andThen fun s hs => submitSettings_keeps hs i _
  · refine hin.andThen fun s hs => ?_
    exact (submitSettings_keeps hs i _).andThen fun s hs => sendSessionData_keeps hs o

theorem readSessionData_keeps (hs : s.session ≠ none) (r : RecvOutcome) (o : SendOutcome) :
    KeepsSession (s.readSessionData r o) := by
  unfold readSessionData
  split
  · next hnone => exact absurd hnone hs
  · dsimp only
    split
    · exact .returns (Option.some_ne_none _)
    · exact sendSessionData_keeps (Option.some_ne_none _) o

theorem writeSessionData_keeps (hs : s.session ≠ none) (wantRead wantWrite : Bool)
    (o : SendOutcome) : KeepsSession (s.writeSessionData wantRead wantWrite o) := by
  unfold writeSessionData
  split
  · exact .returns hs
  split
  · next hnone => exact absurd hnone hs
  split
  · exact .returns hs
  · exact sendSessionData_keeps hs o

end SessionBase

theorem KeepsSession.live {r : Outcome SessionBase} (hr : KeepsSession r) {w : Life}
    (h : Life.after r = some w) : ∃ t, w = .live t ∧ t.session ≠ none := by
  obtain ⟨out, t⟩ := r
  cases out with
  | ok u =>
      obtain rfl := Option.some.inj h
      exact ⟨t, rfl, hr.kept rfl⟩
  | error f =>
      cases f with
      | nullPointer => exact absurd rfl hr.used
      | throws | useAfterFree | absentResult => cases h

/-! ## One event -/

/-- Before a good `event_cb` there is no session and no output, and after it there is
a session. -/
structure Stage (connected : Bool) (s : SessionBase) : Prop where
  session : s.session = none ↔ connected = false
  output : connected = false → s.bev.output = []

theorem Constructed.stage {s : SessionBase} (hs : Constructed s) : Stage false s := by
  cases hs with
  | inbound h =>
      unfold inboundSession at h
      split at h
      · cases h
      split at h
      · cases h
      split at h
      · cases h
      split at h
      · cases h
      split at h
      · cases h
      · cases h
        exact ⟨iff_of_true rfl rfl, fun _ => rfl⟩
  | outbound h =>
      unfold outboundSession at h
      split at h
      · cases h
      split at h
      · cases h
      split at h
      · cases h
      · cases h
        exact ⟨iff_of_true rfl rfl, fun _ => rfl⟩

theorem Stage.of_session {s : SessionBase} (hs : s.session ≠ none) : Stage true s :=
  ⟨iff_of_false hs (Bool.noConfusion), fun h => (nomatch h)⟩

theorem Stage.connected {s : SessionBase} (hs : Stage true s) : s.session ≠ none :=
  fun hnone => (nomatch hs.session.mp hnone)

/-- What is not a callback leaves the stage as it is. -/
theorem Stage.moved {bigEndian connected : Bool} {s t : SessionBase} {e : IoEvent}
    (hs : Stage connected s) (he : e.usesSession = false) (hno : ∀ a b c d, e ≠ .eventCb a b c d)
    (h : ioStep bigEndian s e = some t) : Stage connected t := by
  cases e with
  | arrive bs =>
      obtain rfl := Option.some.inj h
      exact ⟨hs.session, hs.output⟩
  | drain n =>
      simp only [ioStep] at h
      split at h
      · obtain rfl := Option.some.inj h
        refine ⟨hs.session, fun hc => ?_⟩
        show s.bev.output.drop n = []
        rw [hs.output hc, List.drop_nil]
      · cases h
  | submit frames =>
      simp only [ioStep] at h
      split at h
      · cases h
      · next n hn =>
        obtain rfl := Option.some.inj h
        refine ⟨?_, hs.output⟩
        rw [← hs.session, hn]
        exact iff_of_false (Option.some_ne_none _) (Option.some_ne_none _)
  | eventCb events alpn i o => exact absurd rfl (hno events alpn i o)
  | readCb | writeCb => cases he

/-- A callback that would use the session crashes before a good `event_cb`; otherwise
the session lives on, at the stage the event has brought it to. -/
theorem step_io {bigEndian connected : Bool} {s : SessionBase} {e : IoEvent} {w : Life}
    (hs : Stage connected s) (h : Life.step bigEndian (.live s) (.io e) = some w) :
    if (connected || !e.usesSession) = true then
      ∃ t, w = .live t ∧ Stage (connected || e.connects) t
    else w = .crashed := by
  simp only [Life.step] at h
  cases e with
  | eventCb events alpn i o =>
      rw [if_pos (by simp [IoEvent.usesSession])]
      simp only [SessionBase.callback, Option.bind_some, SessionBase.eventCb] at h
      split at h
      · next hconn =>
        obtain ⟨t, rfl, ht⟩ := (SessionBase.configSendInitial_keeps bigEndian i o s).live h
        refine ⟨t, rfl, ?_⟩
        rw [IoEvent.connects, hconn, Bool.or_true]
        exact .of_session ht
      · next hconn =>
        obtain rfl := Option.some.inj h
        refine ⟨s.closeSession, rfl, ?_⟩
        rw [IoEvent.connects, Bool.eq_false_iff.mpr hconn, Bool.or_false]
        exact ⟨hs.session, hs.output⟩
  | readCb r o =>
      cases connected with
      | true =>
          obtain ⟨t, rfl, ht⟩ := (SessionBase.readSessionData_keeps hs.connected r o).live h
          exact ⟨t, rfl, .of_session ht⟩
      | false =>
          have hnone := hs.session.mpr rfl
          simp only [SessionBase.callback, SessionBase.readSessionData, hnone] at h
          exact (Option.some.inj h).symm
  | writeCb wantRead wantWrite o =>
      simp only [SessionBase.callback, Option.bind_some] at h
      let noted : SessionBase := { s with bev := { s.bev with writeScheduled := false } }
      cases connected with
      | true =>
          have hnoted : noted.session ≠ none := hs.connected
          obtain ⟨t, rfl, ht⟩ :=
            (SessionBase.writeSessionData_keeps hnoted wantRead wantWrite o).live h
          exact ⟨t, rfl, .of_session ht⟩
      | false =>
          have hnone : noted.session = none := hs.session.mpr rfl
          have hout : noted.bev.output = [] := hs.output rfl
          rw [SessionBase.writeSessionData, if_neg (by rw [hout]; exact Nat.lt_irrefl 0),
            hnone] at h
          exact (Option.some.inj h).symm
  | arrive | drain | submit =>
      rw [if_pos (by simp [IoEvent.usesSession])]
      obtain ⟨r, hr, hafter⟩ := Option.bind_eq_some_iff.mp h
      simp only [SessionBase.callback] at hr
      obtain ⟨t, ht, rfl⟩ := Option.map_eq_some_iff.mp hr
      obtain rfl := Option.some.inj hafter
      refine ⟨t, rfl, ?_⟩
      show Stage (connected || false) t
      rw [Bool.or_false]
      refine hs.moved rfl ?_ ht
      intro _ _ _ _ he
      cases he

/-! ## Runs -/

theorem run_stopped {bigEndian : Bool} {l w : Life} (hl : ∀ s, l ≠ .live s) :
    ∀ {evs : List DeferredEvent}, run (Life.step bigEndian) l evs = some w → evs = [] ∧ w = l := by
  intro evs h
  cases evs with
  | nil => exact ⟨rfl, (Option.some.inj h).symm⟩
  | cons e evs =>
      obtain ⟨m, hm, -⟩ := run_cons_some.mp h
      cases l with
      | live s => exact absurd rfl (hl s)
      | freed | crashed => cases e <;> cases hm

theorem run_uncrashed_iff {bigEndian : Bool} : ∀ (evs : List DeferredEvent) {connected : Bool}
    {s : SessionBase} {w : Life}, Stage connected s →
      run (Life.step bigEndian) (.live s) evs = some w →
        (w ≠ .crashed ↔ callsAfterConnect connected evs = true) := by
  intro evs
  induction evs with
  | nil =>
      intro connected s w _ hrun
      obtain rfl := Option.some.inj hrun
      exact iff_of_true (fun h => (nomatch h)) rfl
  | cons e evs ih =>
      intro connected s w hs hrun
      obtain ⟨l, hl, hrest⟩ := run_cons_some.mp hrun
      cases e with
      | closeJob =>
          simp only [Life.step] at hl
          split at hl
          · obtain rfl := Option.some.inj hl
            obtain ⟨rfl, rfl⟩ := run_stopped (by intro _ h; cases h) hrest
            exact iff_of_true (fun h => (nomatch h)) rfl
          · cases hl
      | io e =>
          have hstep := step_io hs hl
          cases hready : connected || !e.usesSession with
          | true =>
              rw [if_pos hready] at hstep
              obtain ⟨t, rfl, ht⟩ := hstep
              rw [ih ht hrest, callsAfterConnect, hready, Bool.true_and]
          | false =>
              rw [if_neg (by rw [hready]; exact Bool.false_ne_true)] at hstep
              subst hstep
              obtain ⟨rfl, rfl⟩ := run_stopped (by intro _ h; cases h) hrest
              rw [callsAfterConnect, hready]
              exact iff_of_false (fun h => h rfl) Bool.false_ne_true

/-- **The null session is never used, exactly when reads and writes wait for a good
connection event.**  For sessions of both kinds, and every order of callbacks,
arrivals, drains and the close job. -/
theorem uncrashed_iff {bigEndian : Bool} {s : SessionBase} {evs : List DeferredEvent} {w : Life}
    (hs : Constructed s) (hrun : run (Life.step bigEndian) (.live s) evs = some w) :
    w ≠ .crashed ↔ callsAfterConnect false evs = true :=
  run_uncrashed_iff evs hs.stage hrun

/-- What the constructor of an inbound session returns when every call succeeds. -/
def acceptedSession : SessionBase where
  fd := 7
  path := ⟨⟨.v4 ⟨0x7f000001⟩, 0, true⟩, .ofPort 50000⟩
  bev := {}
  session := none
  isOutbound := false

theorem constructed_acceptedSession : Constructed acceptedSession :=
  .inbound (show inboundSession false .succeeds (.ofPort 50000) 7 = (.ok acceptedSession, 0) from
    rfl)

/-- The handshake, and then a request: the session is there. -/
theorem uncrashed_iff_handshake :
    ∃ w, run (Life.step false) (.live acceptedSession)
        [.io (.eventCb BEV_EVENT_CONNECTED [] .succeeds .sendAll), .io (.arrive [80]),
          .io (.readCb .consumeAll .sendAll)] = some w ∧
      (w ≠ .crashed ↔ callsAfterConnect false
        [.io (.eventCb BEV_EVENT_CONNECTED [] .succeeds .sendAll), .io (.arrive [80]),
          .io (.readCb .consumeAll .sendAll)] = true) := by
  obtain ⟨w, hw⟩ : ∃ w, run (Life.step false) (.live acceptedSession)
      [.io (.eventCb BEV_EVENT_CONNECTED [] .succeeds .sendAll), .io (.arrive [80]),
        .io (.readCb .consumeAll .sendAll)] = some w := ⟨_, rfl⟩
  exact ⟨w, hw, uncrashed_iff constructed_acceptedSession hw⟩

/-- The ALPN is rejected, a close job is queued, and the read callback of the same
batch hands the null session to nghttp2. -/
theorem rejected_alpn_crashes :
    Constructed acceptedSession ∧
    run (Life.step false) (.live acceptedSession)
        [.io (.arrive [80]), .io (.eventCb BEV_EVENT_CONNECTED (chars "h3") .succeeds .sendAll),
          .io (.readCb .consumeAll .sendAll)] = some .crashed :=
  ⟨constructed_acceptedSession, rfl⟩

end Wshttp
