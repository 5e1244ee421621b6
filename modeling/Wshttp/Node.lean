/-
# `Wshttp.Node` — an outbound node and the session it starts with

`endpoint::connect` makes a node, and the node's constructor does everything: it
binds a socket to the local address, if there is one, and then creates the
outbound session, whose own constructor asks libevent to connect.  Each call on
the way may fail, and each failure is an exception out of the constructor.
-/
import Wshttp.Lib.PtrMap
import Wshttp.Session.Io
import Wshttp.Url

namespace Wshttp

def HTTPS_PORT : UInt16 := 443

/-- `sizeof(sockaddr)`, which is the length handed to `bind` for either family. -/
def SIZEOF_SOCKADDR : Nat := 16

/-- The system's answers behind the constructors of `node` and `outbound_session`. -/
structure ConnectOutcome where
  /-- the descriptor, for `AF_INET` or otherwise `AF_INET6` -/
  socket : Bool → Fd
  makeSocketNonblocking : Fd → Int
  bind : Fd → Sockaddr → Nat → Int
  sslNew : Bool
  bufferevent : Bool
  connectHostname : Bytes → UInt16 → Int

/-- Every call on the way succeeds. -/
def ConnectOutcome.succeeds : ConnectOutcome where
  socket := fun _ => 5
  makeSocketNonblocking := fun _ => 0
  bind := fun _ _ _ => 0
  sslNew := true
  bufferevent := true
  connectHostname := fun _ _ => 0

structure OutboundSession where
  base : SessionBase
  host : Bytes

structure Node where
  localAddr : Option IpAddress
  fd : Fd
  uri : Uri
  sessions : PtrMap Bytes OutboundSession

section
variable (bigEndian : Bool) (o : ConnectOutcome)

/-- The socket address `_init_internals` fills in from `_local`. -/
def bindAddress (a : IpAddress) : Except Exn Sockaddr :=
  if a.isV4 then
    a.ipv4.map fun x => .inet (x.toIn4 bigEndian) (enc.hostToBig bigEndian a.port)
  else
    a.ipv6.map fun x => .inet6 (x.toIn6 bigEndian) (enc.hostToBig bigEndian a.port)

/-- `node::_init_internals`: the node's descriptor. -/
def nodeInitInternals : Option IpAddress → Except Exn Fd
  | none => .ok (-1)
  | some a =>
      let fd := o.socket a.isV4
      if o.makeSocketNonblocking fd < 0 then
        .error (runtimeError "Failed to non-block outbound node socket: {}")
      else if fd < 0 then
        .error (runtimeError "Could not create socket for outbound node: {}")
      else
        match bindAddress bigEndian a with
        | .error e => .error e
        | .ok sa =>
            if o.bind fd sa SIZEOF_SOCKADDR < 0 then
              .error (runtimeError "Outbound node failed to bind socket: {}")
            else .ok fd

/-- The constructor of `outbound_session`, `node::new_ssl` included. -/
def outboundSession (n : Node) : Except Exn OutboundSession :=
  if !o.sslNew then .error (runtimeError "Failed to create SSL/TLS for inbound: {}")
  else if !o.bufferevent then
    .error (runtimeError "Failed to create bufferevent socket for outbound TLS session: {}")
  else if o.connectHostname (cString n.uri.host) HTTPS_PORT ≠ 0 then
    .error (runtimeError "Could not connect to remote host: {}")
  else
    .ok {
      base := {
        fd := n.fd
        path := ⟨n.localAddr.getD (.ofPort 0), .ofPort 0⟩
        bev := {}
        session := none
        isOutbound := true }
      host := n.uri.host }

/-- `node::create_outbound_session`. -/
def createOutboundSession (n : Node) : Except Exn Node :=
  if n.uri.host ∈ n.sessions then .ok { n with sessions := n.sessions.erase n.uri.host }
  else
    match outboundSession o n with
    | .error e => .error e
    | .ok s => .ok { n with sessions := n.sessions.insert n.uri.host (some s) }

/-- The constructor of `node`, with the local address `handle_nd_opts` was given. -/
def node (uri : Uri) (localAddr : Option IpAddress) : Except Exn Node :=
  match nodeInitInternals bigEndian o localAddr with
  | .error e => .error e
  | .ok fd => createOutboundSession o { localAddr, fd, uri, sessions := ∅ }

end

/-! ## When the constructor succeeds -/

/-- The socket for the local address, if there is one, is made and bound. -/
def ConnectOutcome.Binds (bigEndian : Bool) (o : ConnectOutcome) (localAddr : Option IpAddress) :
    Prop :=
  ∀ a, localAddr = some a →
    0 ≤ o.makeSocketNonblocking (o.socket a.isV4) ∧ 0 ≤ o.socket a.isV4 ∧
      ∃ sa, bindAddress bigEndian a = .ok sa ∧ 0 ≤ o.bind (o.socket a.isV4) sa SIZEOF_SOCKADDR

structure ConnectOutcome.Connects (bigEndian : Bool) (o : ConnectOutcome)
    (localAddr : Option IpAddress) (host : Bytes) : Prop where
  binds : o.Binds bigEndian localAddr
  sslNew : o.sslNew = true
  bufferevent : o.bufferevent = true
  connectHostname : o.connectHostname (cString host) HTTPS_PORT = 0

section
variable {bigEndian : Bool} {o : ConnectOutcome} {localAddr : Option IpAddress} {uri : Uri}

theorem nodeInitInternals_ok_iff :
    (∃ fd, nodeInitInternals bigEndian o localAddr = .ok fd) ↔ o.Binds bigEndian localAddr := by
  cases localAddr with
  | none => exact ⟨fun _ _ ha => (nomatch ha), fun _ => ⟨-1, rfl⟩⟩
  | some a =>
      constructor
      · rintro ⟨fd, h⟩ b hb
        obtain rfl := Option.some.inj hb
        simp only [nodeInitInternals] at h
        split at h
        · cases h
        next hblock =>
        split at h
        · cases h
        next hsock =>
        split at h
        · cases h
        next sa hsa =>
        split at h
        · cases h
        next hbind =>
        exact ⟨Int.not_lt.mp hblock, Int.not_lt.mp hsock, sa, hsa, Int.not_lt.mp hbind⟩
      · intro h
        obtain ⟨hblock, hsock, sa, hsa, hbind⟩ := h a rfl
        refine ⟨o.socket a.isV4, ?_⟩
        simp only [nodeInitInternals, if_neg (Int.not_lt.mpr hblock), if_neg (Int.not_lt.mpr hsock),
          hsa, if_neg (Int.not_lt.mpr hbind)]

theorem outboundSession_ok_iff {n : Node} :
    (∃ s, outboundSession o n = .ok s) ↔
      o.sslNew = true ∧ o.bufferevent = true ∧
        o.connectHostname (cString n.uri.host) HTTPS_PORT = 0 := by
  constructor
  · rintro ⟨s, h⟩
    unfold outboundSession at h
    split at h
    · cases h
    next hssl =>
    split at h
    · cases h
    next hbev =>
    split at h
    · cases h
    next hconn =>
    exact ⟨by simpa using hssl, by simpa using hbev, not_not.mp hconn⟩
  · rintro ⟨hssl, hbev, hconn⟩
    simp [outboundSession, hssl, hbev, hconn]

theorem node_ok_iff :
    (∃ n, node bigEndian o uri localAddr = .ok n) ↔ o.Connects bigEndian localAddr uri.host := by
  -- the new node has no sessions yet, so its host is not a duplicate
  have hcreate (fd : Fd) :
      (∃ n, createOutboundSession o { localAddr, fd, uri, sessions := ∅ } = .ok n) ↔
        ∃ s, outboundSession o { localAddr, fd, uri, sessions := ∅ } = .ok s := by
    simp only [createOutboundSession, if_neg Finmap.notMem_empty]
    constructor
    · rintro ⟨n, hn⟩
      split at hn
      · cases hn
      · next s hs => exact ⟨s, hs⟩
    · rintro ⟨s, hs⟩
      rw [hs]
      exact ⟨_, rfl⟩
  constructor
  · rintro ⟨n, hn⟩
    unfold node at hn
    split at hn
    · cases hn
    next fd hfd =>
    obtain ⟨hssl, hbev, hconn⟩ := outboundSession_ok_iff.mp ((hcreate fd).mp ⟨n, hn⟩)
    exact ⟨nodeInitInternals_ok_iff.mp ⟨fd, hfd⟩, hssl, hbev, hconn⟩
  · intro h
    obtain ⟨fd, hfd⟩ := nodeInitInternals_ok_iff.mpr h.binds
    unfold node
    rw [hfd]
    exact (hcreate fd).mpr (outboundSession_ok_iff.mpr ⟨h.sslNew, h.bufferevent, h.connectHostname⟩)

end

end Wshttp
