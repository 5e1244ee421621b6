/-
# `Wshttp.Listener.World` — a listener, its sessions, and the close jobs

A listener owns its inbound sessions in `_sessions`, a map from remote address to
`shared_ptr`; nothing else owns one.  `create_inbound_session` adds to it from
the accept callback.  Nobody removes a session directly: `close_session` of the
session, and `close_listener`, enqueue a job with `call_soon`, and the job
captures `this` by reference and looks everything up when it runs.  The jobs here
are the pending part of the queue of `Wshttp.EventLoop.JobQueue`: they run one at
a time, oldest first.

| source                                        | event            |
| :-------------------------------------------- | :--------------- |
| `listen_callbacks::accept_cb`                 | `accept`         |
| an event of a session's bufferevent           | `session`        |
| `listen_callbacks::error_cb`                  | `listenerError`  |
| `endpoint::shutdown_endpoint`                 | `closeAll`       |
| `process_job_queue` runs the job at the front | `runJob`         |

The descriptors closed so far are history.  A session owns its descriptor through
its bufferevent (`BEV_OPT_CLOSE_ON_FREE`), so destroying either closes it.
-/
import Wshttp.Lib.PtrMap
import Wshttp.Session.Frame

namespace Wshttp

open Machine

/-! ## Making an inbound session -/

/-- The system's answers behind `inbound_session::_init_internals`. -/
structure AcceptOutcome where
  sslNew : Bool
  bufferevent : Bool
  setsockopt : Fd → Int
  getsockname : Fd → Option Sockaddr

/-- Every call succeeds, and the local end is `127.0.0.1:0`. -/
def AcceptOutcome.succeeds : AcceptOutcome where
  sslNew := true
  bufferevent := true
  setsockopt := fun _ => 0
  getsockname := fun _ => some (.inet 0x0100007f 0)

/-- `listener::new_ssl`. -/
def newSsl (o : AcceptOutcome) : Except Exn Unit :=
  if o.sslNew then .ok () else .error (runtimeError "Failed to create SSL/TLS: {}")

/-- The constructor of `inbound_session`, and the descriptors that unwinding its
members closes when it throws.  The test of `_ssl` against null comes after
`new_ssl`, which has thrown by then. -/
def inboundSession (bigEndian : Bool) (o : AcceptOutcome) (remote : IpAddress) (fd : Fd) :
    Except Exn SessionBase × Multiset Fd :=
  match newSsl o with
  | .error e => (.error e, 0)
  | .ok () =>
      if !o.bufferevent then
        (.error (runtimeError
          "Failed to create bufferevent socket for inbound TLS session: {}"), 0)
      -- from here on `_bev` is a member, and `_fd` is what `bufferevent_getfd` says
      else if o.setsockopt fd < 0 then
        (.error (runtimeError "Failed to set TCP_NODELAY on inbound session TLS socket: {}"), {fd})
      else
        match o.getsockname fd with
        | none =>
            (.error (runtimeError
              "Failed to get local socket address for incoming (remote: {}): {}, {}"), {fd})
        | some sa =>
            match IpAddress.ofSockaddr bigEndian sa with
            | .error e => (.error e, {fd})
            | .ok a =>
                (.ok { fd, path := ⟨a, remote⟩, bev := {}, session := none, isOutbound := false },
                  0)

/-- A session that was made has the descriptor and the address it was given. -/
theorem inboundSession_returned {bigEndian : Bool} {o : AcceptOutcome} {remote : IpAddress}
    {fd : Fd} {s : SessionBase} {unwound : Multiset Fd}
    (h : inboundSession bigEndian o remote fd = (.ok s, unwound)) :
    s.fd = fd ∧ s.path.remote = remote := by
  unfold inboundSession at h
  split at h
  · cases h
  split at h
  · cases h
  split at h
  · cases h
  split at h
  · cases h
  split at h
  · cases h
  · cases h
    exact ⟨rfl, rfl⟩

/-! ## The listener -/

def remoteKey (s : SessionBase) : IpAddress.Key := s.path.remote.key

structure Listener where
  localAddr : IpAddress
  fd : Fd
  sessions : OwnerMap remoteKey
  closed : Multiset Fd

namespace Listener

/-- The descriptors of the sessions under a key: what erasing the key closes. -/
def fdsAt (l : Listener) (k : IpAddress.Key) : Multiset Fd :=
  match l.sessions.find k with
  | some (_, s) => {s.fd}
  | none => 0

/-- `_sessions.erase(it)`. -/
def eraseSession (k : IpAddress.Key) (l : Listener) : Listener :=
  { l with sessions := l.sessions.erase k, closed := l.closed + l.fdsAt k }

/-- `create_inbound_session`.  `make_shared` never gives a null pointer, so the
branch that tests for one is not reached. -/
def createInboundSession (bigEndian : Bool) (o : AcceptOutcome) (remote : IpAddress) (fd : Fd)
    (l : Listener) : Except Fault Unit × Listener :=
  if remote.key ∈ l.sessions.ptrs then (.ok (), l.eraseSession remote.key)
  else
    let placed := l.sessions.emplaceNull remote.key
    match inboundSession bigEndian o remote fd with
    | (.error e, unwound) =>
        (.error (.throws e), { l with sessions := placed, closed := l.closed + unwound })
    | (.ok s, _) => (.ok (), { l with sessions := placed.assign s })

/-- `accept_cb`. -/
def acceptCb (bigEndian : Bool) (o : AcceptOutcome) (addr : Sockaddr) (fd : Fd) (l : Listener) :
    Except Fault Unit × Listener :=
  match IpAddress.ofSockaddr bigEndian addr with
  | .error e => (.error (.throws e), l)
  | .ok remote => l.createInboundSession bigEndian o remote fd

/-- `listener::close_session`. -/
def closeSession (remote : IpAddress) (l : Listener) : Listener := l.eraseSession remote.key

/-- `close_all`. -/
def closeAll (l : Listener) : Listener :=
  { l with
    sessions := l.sessions.clear
    closed := l.closed + l.sessions.heap.entries.map fun e => e.2.fd }

/-- A session object after a callback that returned. -/
def afterEvent (bigEndian : Bool) (e : IoEvent) (s : SessionBase) : SessionBase :=
  (ioStep bigEndian s e).getD s

theorem remoteKey_afterEvent (bigEndian : Bool) (e : IoEvent) (s : SessionBase) :
    remoteKey (afterEvent bigEndian e s) = remoteKey s := by
  unfold afterEvent
  cases h : ioStep bigEndian s e with
  | none => rfl
  | some t =>
      have hid := ioStep_identity h
      simp only [SessionBase.identity, Prod.mk.injEq] at hid
      show t.path.remote.key = s.path.remote.key
      rw [hid.2.1]

/-- A callback runs in the session under `k`: the listener after it, the session's
identity, and the number of close jobs it has enqueued. -/
def sessionEvent (bigEndian : Bool) (k : IpAddress.Key) (e : IoEvent) (l : Listener) :
    Option (Listener × Nat × Nat) :=
  match l.sessions.find k with
  | none => none
  | some (p, s) =>
      (ioStep bigEndian s e).map fun t =>
        ({ l with
            sessions := l.sessions.modify p (afterEvent bigEndian e) (remoteKey_afterEvent _ e) },
          p, t.closeJobs - s.closeJobs)

end Listener

/-! ## The listener among the jobs -/

/-- A job of the queue, with what its closure captured. -/
inductive CloseJob where
  /-- of `inbound_session::close_session`: the session's `this` -/
  | closeSession (p : Nat)
  /-- of `listener::close_listener`: the listener's `this` -/
  | closeListener
  deriving DecidableEq

/-- `registeredAt` is the listener's key in `endpoint::_listeners`. -/
structure World where
  registeredAt : UInt16
  listener : Option Listener
  jobs : List CloseJob

inductive WorldEvent where
  | accept (addr : Sockaddr) (fd : Fd) (o : AcceptOutcome)
  | session (k : IpAddress.Key) (e : IoEvent)
  | listenerError
  | closeAll
  | runJob

namespace World

/-- `endpoint::close_listener`: the listener goes if the port is its key. -/
def closeListener (port : UInt16) (w : World) : World :=
  if port = w.registeredAt then { w with listener := none } else w

/-- A job's closure is called. -/
def runJob (job : CloseJob) (w : World) : Except Fault World :=
  match w.listener, job with
  | none, _ => .error .useAfterFree
  | some l, .closeSession p =>
      match l.sessions.heap.lookup p with
      | none => .error .useAfterFree
      | some s => .ok { w with listener := some (l.closeSession s.path.remote) }
  | some l, .closeListener => .ok (w.closeListener l.localAddr.port)

/-- One event.  An exception out of `accept_cb` leaves the listener as the call
left it; a callback of a session that throws ends the run, and so does a fault. -/
def step (bigEndian : Bool) (w : World) : WorldEvent → Option World
  | .accept addr fd o =>
      w.listener.map fun l => { w with listener := some (l.acceptCb bigEndian o addr fd).2 }
  | .session k e =>
      (w.listener.bind (Listener.sessionEvent bigEndian k e)).map fun r =>
        { w with
          listener := some r.1
          jobs := w.jobs ++ List.replicate r.2.2 (.closeSession r.2.1) }
  | .listenerError =>
      w.listener.map fun _ => { w with jobs := w.jobs ++ [.closeListener] }
  | .closeAll => w.listener.map fun l => { w with listener := some l.closeAll }
  | .runJob =>
      match w.jobs with
      | [] => none
      | job :: rest => ({ w with jobs := rest }.runJob job).toOption

/-- A listener that has just been constructed and registered. -/
def registered (port : UInt16) (localAddr : IpAddress) (fd : Fd) : World where
  registeredAt := port
  listener := some { localAddr, fd, sessions := .empty, closed := 0 }
  jobs := []

/-! ## What a step can do

One constructor for each event, and two for `runJob`: the guards, and the state it
leaves.  The number of jobs a session enqueues is `0` or `1` by `ioStep_identity`. -/

inductive Stepped (bigEndian : Bool) (w : World) : WorldEvent → World → Prop
  | accept {addr : Sockaddr} {fd : Fd} {o : AcceptOutcome} {l : Listener} :
      w.listener = some l →
      Stepped bigEndian w (.accept addr fd o)
        { w with listener := some (l.acceptCb bigEndian o addr fd).2 }
  | session {k : IpAddress.Key} {e : IoEvent} {l : Listener} {p : Nat} {s : SessionBase} :
      w.listener = some l → l.sessions.find k = some (p, s) →
      Stepped bigEndian w (.session k e)
        { w with
          listener := some { l with
            sessions := l.sessions.modify p (Listener.afterEvent bigEndian e)
              (Listener.remoteKey_afterEvent _ e) }
          jobs := w.jobs ++ List.replicate (e.asksToClose s).toNat (.closeSession p) }
  | listenerError {l : Listener} :
      w.listener = some l →
      Stepped bigEndian w .listenerError { w with jobs := w.jobs ++ [.closeListener] }
  | closeAll {l : Listener} :
      w.listener = some l → Stepped bigEndian w .closeAll { w with listener := some l.closeAll }
  | runCloseSession {l : Listener} {p : Nat} {s : SessionBase} {rest : List CloseJob} :
      w.jobs = .closeSession p :: rest → w.listener = some l →
      l.sessions.heap.lookup p = some s →
      Stepped bigEndian w .runJob
        { w with jobs := rest, listener := some (l.closeSession s.path.remote) }
  | runCloseListener {l : Listener} {rest : List CloseJob} :
      w.jobs = .closeListener :: rest → w.listener = some l →
      Stepped bigEndian w .runJob ({ w with jobs := rest }.closeListener l.localAddr.port)

theorem stepped {bigEndian : Bool} {w w' : World} {e : WorldEvent}
    (h : w.step bigEndian e = some w') : Stepped bigEndian w e w' := by
  cases e with
  | accept addr fd o =>
      obtain ⟨l, hl, rfl⟩ := Option.map_eq_some_iff.mp h
      exact .accept hl
  | session k e =>
      obtain ⟨r, hr, rfl⟩ := Option.map_eq_some_iff.mp h
      obtain ⟨l, hl, hev⟩ := Option.bind_eq_some_iff.mp hr
      unfold Listener.sessionEvent at hev
      split at hev
      · cases hev
      next p s hfind =>
      obtain ⟨t, ht, rfl⟩ := Option.map_eq_some_iff.mp hev
      have hid := ioStep_identity ht
      simp only [SessionBase.identity, Prod.mk.injEq] at hid
      have hjobs : t.closeJobs - s.closeJobs = (e.asksToClose s).toNat := by omega
      dsimp only
      rw [hjobs]
      exact .session hl hfind
  | listenerError =>
      obtain ⟨l, hl, rfl⟩ := Option.map_eq_some_iff.mp h
      exact .listenerError hl
  | closeAll =>
      obtain ⟨l, hl, rfl⟩ := Option.map_eq_some_iff.mp h
      exact .closeAll hl
  | runJob =>
      simp only [step] at h
      split at h
      · cases h
      next job rest hjobs =>
      unfold runJob at h
      split at h
      · cases h
      · next l p hl =>
        split at h
        · cases h
        · next s hs =>
          obtain rfl := Option.some.inj h
          exact .runCloseSession hjobs hl hs
      · next l hl =>
        obtain rfl := Option.some.inj h
        exact .runCloseListener hjobs hl

end World

end Wshttp
