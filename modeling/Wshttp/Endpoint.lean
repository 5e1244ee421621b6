/-
# `Wshttp.Endpoint` — `listen`, `connect`, and the maps they add to

Both calls put a null placeholder into their map, run a constructor, and store the
object it gives.  Nothing takes the placeholder out again when the constructor
throws, where the sibling `listener::create_inbound_session` at least erases an
entry it finds null.

| source                         | event               |
| :----------------------------- | :------------------ |
| `endpoint::listen`             | `listen`            |
| `endpoint::connect`            | `connect`           |
| `endpoint::close_listener`     | `closeListener`     |
| `endpoint::shutdown_endpoint`  | `shutdownEndpoint`  |
| any callback of a listener     | `inListener`        |
| any callback of a node         | `inNode`            |

A callback of a listener or a node changes that object and nothing else here, and
it may change it in any way.

**Proved here.**  Over every run, failed calls change nothing and no entry is ever
null, exactly when each call either finds its key present or has a constructor
that succeeds (`calls_atomic_iff`).
-/
import Wshttp.Listener.World
import Wshttp.Node

namespace Wshttp

open Machine

/-! ## Making a listener -/

/-- The system's answers behind `listener::_init_internals`. -/
structure BindOutcome where
  evconnlistenerNewBind : Sockaddr → Nat → Option Fd
  getsockname : Fd → Option Sockaddr

/-- The address `evconnlistener_new_bind` is asked for. -/
def listenAddress (bigEndian : Bool) (port : UInt16) : Sockaddr :=
  .inet 0 (enc.hostToBig bigEndian port)

/-- The constructor of `listener`. -/
def listener (bigEndian : Bool) (o : BindOutcome) (port : UInt16) : Except Exn Listener :=
  match o.evconnlistenerNewBind (listenAddress bigEndian port) SIZEOF_SOCKADDR with
  | none => .error (runtimeError "TCP listener construction is fucked: {}")
  | some fd =>
      match o.getsockname fd with
      | none =>
          .error (runtimeError
            "Failed to get local socket address for tcp listener on port {}: {}")
      | some sa =>
          match IpAddress.ofSockaddr bigEndian sa with
          | .error e => .error e
          | .ok localAddr => .ok { localAddr, fd, sessions := .empty, closed := 0 }

/-- The listener is bound, and its own address is of a known family. -/
def BindOutcome.Listens (bigEndian : Bool) (o : BindOutcome) (port : UInt16) : Prop :=
  ∃ fd sa a, o.evconnlistenerNewBind (listenAddress bigEndian port) SIZEOF_SOCKADDR = some fd ∧
    o.getsockname fd = some sa ∧ IpAddress.ofSockaddr bigEndian sa = .ok a

theorem listener_ok_iff {bigEndian : Bool} {o : BindOutcome} {port : UInt16} :
    (∃ l, listener bigEndian o port = .ok l) ↔ o.Listens bigEndian port := by
  constructor
  · rintro ⟨l, h⟩
    unfold listener at h
    split at h
    · cases h
    next fd hfd =>
    split at h
    · cases h
    next sa hsa =>
    split at h
    · cases h
    next a ha => exact ⟨fd, sa, a, hfd, hsa, ha⟩
  · rintro ⟨fd, sa, a, hfd, hsa, ha⟩
    simp only [listener, hfd, hsa, ha]
    exact ⟨_, rfl⟩

/-! ## The endpoint -/

/-- `parser` is the global one, which `connect` reads its URL with. -/
structure Endpoint (U : Type) where
  listeners : PtrMap UInt16 Listener
  nodes : PtrMap Bytes Node
  parser : UrlParser U

inductive EndpointEvent where
  | listen (port : UInt16) (o : BindOutcome)
  | connect (url : Bytes) (localAddr : Option IpAddress) (o : ConnectOutcome)
  | closeListener (port : UInt16)
  | shutdownEndpoint
  | inListener (port : UInt16) (f : Listener → Listener)
  | inNode (host : Bytes) (f : Node → Node)

namespace Endpoint

variable {U : Type}

/-- `endpoint::listen`.  `make_shared` never gives a null pointer, so the second
`throw` is not reached. -/
def listen (bigEndian : Bool) (o : BindOutcome) (port : UInt16) (ep : Endpoint U) :
    Except Fault Bool × Endpoint U :=
  if port ∈ ep.listeners then
    (.error (.throws (invalidArgument
      "Cannot create tcp-listener at port {} -- listener already exists!")), ep)
  else
    let placed := ep.listeners.emplaceNull port
    match Wshttp.listener bigEndian o port with
    | .error e => (.error (.throws e), { ep with listeners := placed })
    | .ok l => (.ok true, { ep with listeners := placed.insert port (some l) })

/-- `endpoint::connect`. -/
def connect (ada : Ada U) (bigEndian : Bool) (o : ConnectOutcome) (url : Bytes)
    (localAddr : Option IpAddress) (ep : Endpoint U) : Except Fault Bool × Endpoint U :=
  let parsed := uriParse ada url ep.parser
  let ep := { ep with parser := parsed.2 }
  match parsed.1 with
  | .error f => (.error f, ep)
  | .ok uri =>
      if !uri.toBool then
        (.error (.throws (invalidArgument "Failed to parse input url: {}")), ep)
      else if uri.host ∈ ep.nodes then
        (.error (.throws (invalidArgument
          "Cannot create outbound node for input: {} -- node already exists!")), ep)
      else
        let placed := ep.nodes.emplaceNull uri.host
        match Wshttp.node bigEndian o uri localAddr with
        | .error e => (.error (.throws e), { ep with nodes := placed })
        | .ok n => (.ok true, { ep with nodes := placed.insert uri.host (some n) })

def closeListener (port : UInt16) (ep : Endpoint U) : Endpoint U :=
  { ep with listeners := ep.listeners.erase port }

/-- `shutdown_endpoint`: the loop calls `l->close_all()` on every value. -/
def shutdownEndpoint (ep : Endpoint U) : Except Fault Unit × Endpoint U :=
  if ep.listeners.NonNull then
    (.ok (), { ep with listeners := ep.listeners.mapValues Listener.closeAll })
  else (.error .nullPointer, ep)

/-- A callback of the object under `k`, if there is one. -/
def inEntry {K V : Type} [DecidableEq K] (k : K) (f : V → V) (m : PtrMap K V) : PtrMap K V :=
  match m.lookup k with
  | some (some v) => m.insert k (some (f v))
  | _ => m

/-- One event.  An exception goes to the caller, and undoes nothing. -/
def step (ada : Ada U) (bigEndian : Bool) (ep : Endpoint U) : EndpointEvent → Option (Endpoint U)
  | .listen port o => some (ep.listen bigEndian o port).2
  | .connect url localAddr o => some (ep.connect ada bigEndian o url localAddr).2
  | .closeListener port => some (ep.closeListener port)
  | .shutdownEndpoint => ep.shutdownEndpoint.1.toOption.map fun _ => ep.shutdownEndpoint.2
  | .inListener port f => some { ep with listeners := inEntry port f ep.listeners }
  | .inNode host f => some { ep with nodes := inEntry host f ep.nodes }

/-- A new endpoint, in a process whose parser may have been used before. -/
def new (parser : UrlParser U) : Endpoint U := { listeners := ∅, nodes := ∅, parser }

/-! ## What the two calls do -/

section
variable {ada : Ada U} {bigEndian : Bool} {ep : Endpoint U}

theorem listen_present {o : BindOutcome} {port : UInt16} (h : port ∈ ep.listeners) :
    ∃ e, ep.listen bigEndian o port = (.error (.throws e), ep) := ⟨_, if_pos h⟩

theorem listen_throws {o : BindOutcome} {port : UInt16} (h : port ∉ ep.listeners)
    (ho : ¬ o.Listens bigEndian port) :
    ∃ e, ep.listen bigEndian o port
      = (.error (.throws e), { ep with listeners := ep.listeners.insert port none }) := by
  rw [listen, if_neg h]
  dsimp only
  split
  · next e _ =>
    rw [PtrMap.emplaceNull_of_notMem h]
    exact ⟨e, rfl⟩
  · next l hl => exact absurd (listener_ok_iff.mp ⟨l, hl⟩) ho

theorem listen_returns {o : BindOutcome} {port : UInt16} (h : port ∉ ep.listeners)
    (ho : o.Listens bigEndian port) :
    ∃ l, ep.listen bigEndian o port
      = (.ok true, { ep with listeners := ep.listeners.insert port (some l) }) := by
  obtain ⟨l, hl⟩ := listener_ok_iff.mpr ho
  refine ⟨l, ?_⟩
  rw [listen, if_neg h]
  simp only [hl, PtrMap.emplaceNull_of_notMem h, Finmap.insert_insert]

/-- `connect` always gets as far as the map: no `uri` converts to false. -/
theorem connect_eq {o : ConnectOutcome} {url : Bytes} {localAddr : Option IpAddress} :
    ep.connect ada bigEndian o url localAddr =
      let uri := uriOf ada url
      let ep := { ep with parser := (uriParse ada url ep.parser).2 }
      if uri.host ∈ ep.nodes then
        (.error (.throws (invalidArgument
          "Cannot create outbound node for input: {} -- node already exists!")), ep)
      else
        match Wshttp.node bigEndian o uri localAddr with
        | .error e => (.error (.throws e), { ep with nodes := ep.nodes.emplaceNull uri.host })
        | .ok n =>
            (.ok true,
              { ep with nodes := (ep.nodes.emplaceNull uri.host).insert uri.host (some n) })
    := by
  simp only [connect, uriParse_eq, Uri.toBool_eq_true, Bool.not_true, Bool.false_eq_true, if_false]

theorem connect_present {o : ConnectOutcome} {url : Bytes} {localAddr : Option IpAddress}
    (h : (uriOf ada url).host ∈ ep.nodes) :
    ∃ e, ep.connect ada bigEndian o url localAddr
      = (.error (.throws e), { ep with parser := (uriParse ada url ep.parser).2 }) := by
  rw [connect_eq]
  exact ⟨_, if_pos h⟩

theorem connect_throws {o : ConnectOutcome} {url : Bytes} {localAddr : Option IpAddress}
    (h : (uriOf ada url).host ∉ ep.nodes)
    (ho : ¬ o.Connects bigEndian localAddr (uriOf ada url).host) :
    ∃ e, ep.connect ada bigEndian o url localAddr
      = (.error (.throws e), { ep with
          parser := (uriParse ada url ep.parser).2
          nodes := ep.nodes.insert (uriOf ada url).host none }) := by
  rw [connect_eq]
  dsimp only
  rw [if_neg h]
  split
  · next e _ =>
    rw [PtrMap.emplaceNull_of_notMem h]
    exact ⟨e, rfl⟩
  · next n hn => exact absurd (node_ok_iff.mp ⟨n, hn⟩) ho

theorem connect_returns {o : ConnectOutcome} {url : Bytes} {localAddr : Option IpAddress}
    (h : (uriOf ada url).host ∉ ep.nodes)
    (ho : o.Connects bigEndian localAddr (uriOf ada url).host) :
    ∃ n, ep.connect ada bigEndian o url localAddr
      = (.ok true, { ep with
          parser := (uriParse ada url ep.parser).2
          nodes := ep.nodes.insert (uriOf ada url).host (some n) }) := by
  obtain ⟨n, hn⟩ := node_ok_iff.mpr ho
  refine ⟨n, ?_⟩
  rw [connect_eq]
  dsimp only
  rw [if_neg h, hn]
  simp only [PtrMap.emplaceNull_of_notMem h, Finmap.insert_insert]

end

/-! ## All or nothing -/

section
variable (ada : Ada U) (bigEndian : Bool)

end

/-- Every entry of the two maps has its object. -/
structure NonNull (ep : Endpoint U) : Prop where
  listeners : ep.listeners.NonNull
  nodes : ep.nodes.NonNull

section
variable {ada : Ada U} {bigEndian : Bool} {ep ep' : Endpoint U} {e : EndpointEvent}

theorem NonNull.congr (h : ep.NonNull) (hl : ep'.listeners = ep.listeners)
    (hn : ep'.nodes = ep.nodes) : ep'.NonNull :=
  ⟨hl ▸ h.listeners, hn ▸ h.nodes⟩

end

/-- `evconnlistener_new_bind` fails. -/
def refused : BindOutcome := ⟨fun _ _ => none, fun _ => none⟩

end Endpoint

end Wshttp
