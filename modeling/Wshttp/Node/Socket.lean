/-
# `Wshttp.Node.Socket` — the places that hold the descriptor of a session

`_fd` of the node, `_fd` of the session, and the bufferevent's own.  Who sets them, and when:

| holder        | inbound                  | outbound                                      |
| :------------ | :----------------------- | :-------------------------------------------- |
| node          |                          | a bound socket, or `-1` without local address |
| bufferevent   | the accepted socket      | the node's; for `-1`, the socket that         |
|               |                          | `bufferevent_socket_connect_hostname` makes   |
| session       | `bufferevent_getfd`      | the node's                                    |

The host name is resolved asynchronously, so libevent makes its socket while the session
already exists, and no one tells the session.  `initialize_session` of an outbound session
hands `_fd` to `setsockopt` and `getsockname`; the length it passes to the latter is not
initialised, so that the address it gets back may be cut short.

**Proved here.**  When an outbound session is initialised, `_fd` is the connected socket and
the initialisation returns exactly if its node has a local address and what `getsockname`
stored can be read; an inbound session has the right `_fd` always
(`session_descriptor_iff`).
-/
import Wshttp.Node
import Wshttp.Listener.World

namespace Wshttp

open Machine

/-! ## A session and its bufferevent -/

/-- `bevFd` is what `bufferevent_getfd` says of the session's bufferevent. -/
structure Socketed where
  session : SessionBase
  bevFd : Fd

inductive SocketEvent where
  /-- the host name is resolved and libevent connects; `socket` is what `socket` answers,
  if it is called -/
  | connect (socket : Fd)
  | io (e : IoEvent)

/-- `event_cb` with the bit that only a connected socket gives. -/
def IoEvent.isConnected : IoEvent → Bool
  | .eventCb events _ _ _ => events &&& BEV_EVENT_CONNECTED ≠ 0
  | _ => false

namespace Socketed

def step (bigEndian : Bool) (c : Socketed) : SocketEvent → Option Socketed
  | .connect socket =>
      if 0 ≤ c.bevFd then some c
      else if 0 ≤ socket then some { c with bevFd := socket }
      else some c
  | .io e =>
      if e.isConnected && c.bevFd < 0 then none
      else (ioStep bigEndian c.session e).map fun s => { c with session := s }

/-- What `initialize_session` relies on in an outbound session. -/
structure Initializes (bigEndian : Bool) (i : InitOutcome) (c : Socketed) : Prop where
  fd : c.session.fd = c.bevFd
  returns : 0 ≤ i.setsockopt c.bevFd → (i.getsockname c.bevFd).isSome → i.sessionNew = 0 →
    (c.session.outboundInitializeSession bigEndian i).1 = .ok ()

/-- What `initialize_session` relies on in an inbound session. -/
structure InboundInitializes (i : InitOutcome) (c : Socketed) : Prop where
  fd : c.session.fd = c.bevFd
  returns : i.optionNew = 0 → i.sessionNew = 0 → (c.session.inboundInitializeSession i).1 = .ok ()

end Socketed

/-- The family is that of an IP address, as it is unless the address was cut short. -/
def Sockaddr.isIp : Sockaddr → Bool
  | .other _ => false
  | _ => true

/-- Whenever the calls before it succeed, `getsockname` stores an address with its family. -/
def InitOutcome.StoresFamily (i : InitOutcome) (fd : Fd) : Prop :=
  0 ≤ i.setsockopt fd → i.sessionNew = 0 → ∀ sa ∈ i.getsockname fd, sa.isIp = true

/-! ## One step -/

namespace Socketed

section
variable {bigEndian : Bool} {c d : Socketed} {e : SocketEvent}

theorem ioStep_fd {s t : SessionBase} {e : IoEvent} (h : ioStep bigEndian s e = some t) :
    t.fd = s.fd :=
  congrArg Prod.fst (ioStep_identity h)

/-- Every way a step can go. -/
theorem step_cases (h : step bigEndian c e = some d) :
    (∃ socket, e = .connect socket ∧ d.session = c.session ∧
      (0 ≤ c.bevFd → d.bevFd = c.bevFd)) ∨
    (∃ io, e = .io io ∧ ioStep bigEndian c.session io = some d.session ∧ d.bevFd = c.bevFd) := by
  cases e with
  | connect socket =>
      refine .inl ⟨socket, rfl, ?_⟩
      rw [step] at h
      split at h
      · obtain rfl := Option.some.inj h
        exact ⟨rfl, fun _ => rfl⟩
      next hneg =>
      split at h
      · obtain rfl := Option.some.inj h
        exact ⟨rfl, fun hpos => absurd hpos hneg⟩
      · obtain rfl := Option.some.inj h
        exact ⟨rfl, fun _ => rfl⟩
  | io io =>
      refine .inr ⟨io, rfl, ?_⟩
      rw [step] at h
      split at h
      · cases h
      obtain ⟨s, hs, rfl⟩ := Option.map_eq_some_iff.mp h
      exact ⟨hs, rfl⟩

/-- No event changes the session's descriptor. -/
theorem step_fd (h : step bigEndian c e = some d) : d.session.fd = c.session.fd := by
  rcases step_cases h with ⟨socket, -, hsession, -⟩ | ⟨io, -, hio, -⟩
  · rw [hsession]
  · exact ioStep_fd hio

theorem run_fd {es : List SocketEvent} (h : run (step bigEndian) c es = some d) :
    d.session.fd = c.session.fd :=
  run_inv (I := fun x => x.session.fd = c.session.fd)
    (fun _ _ _ hx hstep => (step_fd hstep).trans hx) rfl h

/-- A bufferevent that has a socket keeps it. -/
theorem run_bevFd {es : List SocketEvent} (hpos : 0 ≤ c.bevFd)
    (h : run (step bigEndian) c es = some d) : d.bevFd = c.bevFd := by
  refine run_inv (I := fun x => x.bevFd = c.bevFd) ?_ rfl h
  intro x e y hx hstep
  rcases step_cases hstep with ⟨socket, -, -, hkept⟩ | ⟨io, -, -, hkept⟩
  · exact (hkept (hx ▸ hpos)).trans hx
  · exact hkept.trans hx

theorem run_io_bevFd {ios : List IoEvent} (h : run (step bigEndian) c (ios.map .io) = some d) :
    d.bevFd = c.bevFd := by
  induction ios generalizing c with
  | nil => exact congrArg bevFd (Option.some.inj h).symm
  | cons io ios ih =>
      obtain ⟨x, hx, hrest⟩ := run_cons_some.mp h
      refine (ih hrest).trans ?_
      rcases step_cases hx with ⟨socket, hevent, -⟩ | ⟨-, -, -, hkept⟩
      · cases hevent
      · exact hkept

/-! ## `initialize_session` -/

theorem outboundInitialize_returns_iff {i : InitOutcome} {s : SessionBase}
    (hsock : 0 ≤ i.setsockopt s.fd) {sa : Sockaddr} (hname : i.getsockname s.fd = some sa)
    (hnew : i.sessionNew = 0) :
    (s.outboundInitializeSession bigEndian i).1 = .ok () ↔ sa.isIp = true := by
  rw [SessionBase.outboundInitializeSession, if_neg (Int.not_lt.mpr hsock), hname]
  cases sa with
  | inet addr port =>
      refine iff_of_true ?_ rfl
      simp [IpAddress.ofSockaddr, hnew]
  | inet6 addr port =>
      refine iff_of_true ?_ rfl
      simp [IpAddress.ofSockaddr, hnew]
  | other family =>
      refine iff_of_false ?_ Bool.false_ne_true
      intro h
      cases h

/-- With the right descriptor it is only the stored address that matters. -/
theorem initializes_iff {i : InitOutcome} (hfd : c.session.fd = c.bevFd) :
    Initializes bigEndian i c ↔ i.StoresFamily c.bevFd := by
  constructor
  · rintro ⟨-, hreturns⟩ hsock hnew sa hname
    have hok := hreturns hsock (Option.isSome_of_mem hname) hnew
    rw [← hfd] at hsock hname
    exact (outboundInitialize_returns_iff hsock hname hnew).mp hok
  · intro hstores
    refine ⟨hfd, fun hsock hsome hnew => ?_⟩
    obtain ⟨sa, hname⟩ := Option.isSome_iff_exists.mp hsome
    have hip := hstores hsock hnew sa hname
    rw [← hfd] at hsock hname
    exact (outboundInitialize_returns_iff hsock hname hnew).mpr hip

end

end Socketed

/-! ## The descriptor a session starts with -/

section
variable {bigEndian : Bool} {o : ConnectOutcome} {uri : Uri} {localAddr : Option IpAddress}

/-- Only a node with a local address makes a socket. -/
theorem nodeInitInternals_fd {fd : Fd} (h : nodeInitInternals bigEndian o localAddr = .ok fd) :
    0 ≤ fd ↔ localAddr.isSome := by
  cases localAddr with
  | none =>
      obtain rfl := Except.ok.inj h
      exact iff_of_false (by decide) Bool.false_ne_true
  | some a =>
      refine iff_of_true ?_ rfl
      simp only [nodeInitInternals] at h
      split at h
      · cases h
      split at h
      · cases h
      next hsock =>
      split at h
      · cases h
      split at h
      · cases h
      · obtain rfl := Except.ok.inj h
        exact Int.not_lt.mp hsock

theorem outboundSession_fd {n : Node} {s : OutboundSession} (h : outboundSession o n = .ok s) :
    s.base.fd = n.fd := by
  unfold outboundSession at h
  split at h
  · cases h
  split at h
  · cases h
  split at h
  · cases h
  · obtain rfl := Except.ok.inj h
    rfl

/-- The session of a node has the node's descriptor. -/
theorem node_fd {n : Node} {host : Bytes} {s : OutboundSession}
    (hn : node bigEndian o uri localAddr = .ok n) (hs : n.sessions.lookup host = some (some s)) :
    s.base.fd = n.fd ∧ (0 ≤ n.fd ↔ localAddr.isSome) := by
  unfold node at hn
  split at hn
  · cases hn
  next fd hfd =>
  rw [createOutboundSession, if_neg Finmap.notMem_empty] at hn
  split at hn
  · cases hn
  next t ht =>
  obtain rfl := Except.ok.inj hn
  refine ⟨?_, nodeInitInternals_fd hfd⟩
  by_cases hhost : host = uri.host
  · rw [hhost, Finmap.lookup_insert] at hs
    obtain rfl := Option.some.inj (Option.some.inj hs)
    exact outboundSession_fd ht
  · rw [Finmap.lookup_insert_of_ne _ hhost, Finmap.lookup_empty] at hs
    cases hs

open Socketed in
/-- **`_fd` is the connected socket exactly if the node has a local address.**  For every
outbound session, and every sequence of events after which libevent has a socket to report
as connected; an inbound session has it after all events. -/
theorem session_descriptor_iff {n : Node} {host : Bytes} {s : OutboundSession}
    (hn : node bigEndian o uri localAddr = .ok n)
    (hs : n.sessions.lookup host = some (some s)) :
    (∀ es c, run (step bigEndian) ⟨s.base, n.fd⟩ es = some c → 0 ≤ c.bevFd → ∀ i,
      (Initializes bigEndian i c ↔ localAddr.isSome ∧ i.StoresFamily c.bevFd)) ∧
    ∀ accepted remote fd t unwound,
      inboundSession bigEndian accepted remote fd = (.ok t, unwound) →
        ∀ (ios : List IoEvent) c, run (step bigEndian) ⟨t, fd⟩ (ios.map .io) = some c →
          ∀ i, InboundInitializes i c := by
  constructor
  · intro es c hrun hconnected i
    obtain ⟨hbase, hlocal⟩ := node_fd hn hs
    have hfd : c.session.fd = n.fd := (run_fd hrun).trans hbase
    constructor
    · intro hinit
      have hpos : 0 ≤ n.fd := by
        rw [← hfd, hinit.fd]
        exact hconnected
      exact ⟨hlocal.mp hpos, (initializes_iff hinit.fd).mp hinit⟩
    · rintro ⟨hsome, hstores⟩
      have hbev : c.bevFd = n.fd := run_bevFd (hlocal.mpr hsome) hrun
      exact (initializes_iff (hfd.trans hbev.symm)).mpr hstores
  · intro accepted remote fd t unwound hinbound ios c hrun i
    have hfd : c.session.fd = fd := (run_fd hrun).trans (inboundSession_returned hinbound).1
    have hbev : c.bevFd = fd := run_io_bevFd hrun
    refine ⟨hfd.trans hbev.symm, fun hoption hnew => ?_⟩
    rw [SessionBase.inboundInitializeSession, if_neg (not_not.mpr hoption),
      if_neg (not_not.mpr hnew)]

end

/-! ## With a local address, and without -/

/-- What the node's constructor makes for an empty host. -/
def builtSession (fd : Fd) (localAddr : Option IpAddress) : OutboundSession where
  base := {
    fd
    path := ⟨localAddr.getD (.ofPort 0), .ofPort 0⟩
    bev := {}
    session := none
    isOutbound := true }
  host := []

def builtNode (fd : Fd) (localAddr : Option IpAddress) : Node where
  localAddr
  fd
  uri := .default
  sessions := Finmap.insert [] (some (builtSession fd localAddr)) ∅

open Socketed in
theorem session_descriptor_iff_bound :
    (∀ es c, run (step false) ⟨(builtSession 5 (some (.ofPort 0))).base, 5⟩ es = some c →
      0 ≤ c.bevFd → ∀ i,
      (Initializes false i c ↔ (some (IpAddress.ofPort 0)).isSome ∧ i.StoresFamily c.bevFd)) ∧
    ∀ accepted remote fd t unwound,
      inboundSession false accepted remote fd = (.ok t, unwound) →
        ∀ (ios : List IoEvent) c, run (step false) ⟨t, fd⟩ (ios.map .io) = some c →
          ∀ i, InboundInitializes i c :=
  session_descriptor_iff (o := .succeeds) (n := builtNode 5 (some (.ofPort 0))) rfl
    (Finmap.lookup_insert _)

/-- The calls succeed on a socket, and on no other descriptor. -/
def InitOutcome.onSockets : InitOutcome where
  setsockopt := fun fd => if fd < 0 then -1 else 0
  getsockname := fun fd => if fd < 0 then none else some (.inet 0x0100007f 0)
  optionNew := 0
  sessionNew := 0
  submitSettings := 0

open Socketed in
/-- Without a local address libevent connects its socket 7, and `_fd` stays `-1`. -/
theorem initialize_without_socket :
    node false .succeeds .default none = .ok (builtNode (-1) none) ∧
    (builtNode (-1) none).sessions.lookup [] = some (some (builtSession (-1) none)) ∧
    run (step false) ⟨(builtSession (-1) none).base, -1⟩ [.connect 7]
      = some ⟨(builtSession (-1) none).base, 7⟩ ∧
    InitOutcome.onSockets.StoresFamily 7 ∧
    ¬ Initializes false .onSockets ⟨(builtSession (-1) none).base, 7⟩ ∧
    ((builtSession (-1) none).base.outboundInitializeSession false .onSockets).1
      = .error (.throws (runtimeError
        "Failed to set TCP_NODELAY on outbound session TLS socket: {}")) := by
  refine ⟨rfl, Finmap.lookup_insert _, rfl, ?_, ?_, rfl⟩
  · intro _ _ sa hsa
    obtain rfl := Option.some.inj hsa
    rfl
  · rintro ⟨hfd, -⟩
    cases hfd

end Wshttp
