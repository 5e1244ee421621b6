/-
# `Wshttp.Endpoint.Sockets` — where the sockets of outbound nodes are

A node with a local address makes its socket itself, before anything else is there that
could fail.  The socket is an `int` of the node, which nobody closes; the bufferevent of the
node's session takes it over later in the constructor, and closes it when it is freed.

| the constructor ends                                  | the socket              |
| :---------------------------------------------------- | :---------------------- |
| before the bufferevent is made                        | stays open for good     |
| when libevent refuses to connect                      | is closed by unwinding  |
| with a node                                           | is the session's        |

Without a local address libevent makes the socket, and has it from the start.

**Proved here.**  After every run of calls of `connect` and of the close jobs of outbound
sessions, each socket that has been made is owned by a session, closed or stranded, once;
and none is stranded exactly if every constructor that makes one gets it as far as the
bufferevent (`sockets_accounted`).
-/
import Wshttp.Endpoint
import Wshttp.Lib.Holdings
import Wshttp.Node.Socket

namespace Wshttp

open Machine

/-! ## One node -/

/-- The socket that the session's bufferevent has from the node. -/
def OutboundSession.socket (s : OutboundSession) : Multiset Fd :=
  if 0 ≤ s.base.fd then {s.base.fd} else 0

/-- What the sessions of a node own. -/
def Node.owned (n : Node) : Multiset Fd := n.sessions.total fun s => s.elim 0 OutboundSession.socket

/-- `node::close_session`. -/
def Node.closeSession (host : Bytes) (n : Node) : Node :=
  { n with sessions := n.sessions.erase host }

/-- The socket that the constructor of a node makes. -/
def ConnectOutcome.made (o : ConnectOutcome) : Option IpAddress → Multiset Fd
  | none => 0
  | some a => if 0 ≤ o.socket a.isV4 then {o.socket a.isV4} else 0

/-- The constructor of a node gets as far as the bufferevent. -/
def ConnectOutcome.takesOver (bigEndian : Bool) (o : ConnectOutcome)
    (localAddr : Option IpAddress) : Bool :=
  (nodeInitInternals bigEndian o localAddr).isOk && o.sslNew && o.bufferevent

/-- What unwinding closes when the constructor throws: `_bev` is a member by then, or not. -/
def nodeUnwound (bigEndian : Bool) (o : ConnectOutcome) (uri : Uri)
    (localAddr : Option IpAddress) : Multiset Fd :=
  match node bigEndian o uri localAddr with
  | .ok _ => 0
  | .error _ => if o.takesOver bigEndian localAddr then o.made localAddr else 0

/-! ## The nodes of an endpoint -/

/-- `closed` is history. -/
structure Dialer (U : Type) where
  endpoint : Endpoint U
  closed : Multiset Fd

inductive DialerEvent where
  | connect (url : Bytes) (localAddr : Option IpAddress) (o : ConnectOutcome)
  /-- the job of `outbound_session::close_session`, of the session in the node of this host -/
  | closeJob (host : Bytes)

namespace Dialer

variable {U : Type} (ada : Ada U) (bigEndian : Bool)

def owned (d : Dialer U) : Multiset Fd := d.endpoint.nodes.total fun n => n.elim 0 Node.owned

/-- One event.  A job that does not find its session ends the run. -/
def step (d : Dialer U) : DialerEvent → Option (Dialer U)
  | .connect url localAddr o =>
      some {
        endpoint := (d.endpoint.connect ada bigEndian o url localAddr).2
        closed := d.closed +
          if (uriOf ada url).host ∈ d.endpoint.nodes then 0
          else nodeUnwound bigEndian o (uriOf ada url) localAddr }
  | .closeJob host =>
      match d.endpoint.nodes.lookup host with
      | some (some n) =>
          match n.sessions.lookup n.uri.host with
          | some (some s) =>
              some {
                endpoint := { d.endpoint with
                  nodes := d.endpoint.nodes.insert host (some (n.closeSession s.host)) }
                closed := d.closed +
                  n.sessions.totalAt (fun s => s.elim 0 OutboundSession.socket) s.host }
          | _ => none
      | _ => none

/-- A call for a host that has no node yet makes the socket of its outcome. -/
def made (d : Dialer U) : DialerEvent → Multiset Fd
  | .connect url localAddr o =>
      if (uriOf ada url).host ∈ d.endpoint.nodes then 0 else o.made localAddr
  | .closeJob _ => 0

/-- The event is a call that makes a socket, and does not get it to a bufferevent. -/
def strands (d : Dialer U) : DialerEvent → Bool
  | .connect url localAddr o =>
      (uriOf ada url).host ∉ d.endpoint.nodes && o.made localAddr ≠ 0 &&
        !o.takesOver bigEndian localAddr
  | .closeJob _ => false

def start (parser : UrlParser U) : Dialer U := ⟨.new parser, 0⟩

/-- What has been made is owned, closed or stranded; and when nothing is stranded. -/
structure SocketsBalance (start : Dialer U) (evs : List DialerEvent) (d : Dialer U) : Prop where
  places : totalAlong (step ada bigEndian) (made ada) start evs = d.owned + d.closed +
    totalAlong (step ada bigEndian)
      (fun d e => if d.strands ada bigEndian e then d.made ada e else 0) start evs
  nothingStranded :
    totalAlong (step ada bigEndian)
      (fun d e => if d.strands ada bigEndian e then d.made ada e else 0) start evs = 0 ↔
    Along (step ada bigEndian) (fun d e _ => d.strands ada bigEndian e = false) start evs

end Dialer

/-! ## One constructor -/

section
variable {bigEndian : Bool} {o : ConnectOutcome} {uri : Uri} {localAddr : Option IpAddress}
  {n : Node}

theorem nodeInitInternals_made {fd : Fd} (h : nodeInitInternals bigEndian o localAddr = .ok fd) :
    o.made localAddr = if 0 ≤ fd then {fd} else 0 := by
  cases localAddr with
  | none =>
      obtain rfl := Except.ok.inj h
      rfl
  | some a =>
      simp only [nodeInitInternals] at h
      split at h
      · cases h
      split at h
      · cases h
      split at h
      · cases h
      split at h
      · cases h
      · obtain rfl := Except.ok.inj h
        rfl

/-- A node that was made has given its socket to its session. -/
theorem node_owned (h : node bigEndian o uri localAddr = .ok n) :
    o.takesOver bigEndian localAddr = true ∧ n.owned = o.made localAddr := by
  unfold node at h
  split at h
  · cases h
  next fd hfd =>
  rw [createOutboundSession, if_neg Finmap.notMem_empty] at h
  split at h
  · cases h
  next s hs =>
  obtain rfl := Except.ok.inj h
  obtain ⟨hssl, hbev, -⟩ := outboundSession_ok_iff.mp ⟨s, hs⟩
  refine ⟨?_, ?_⟩
  · rw [ConnectOutcome.takesOver, hfd, hssl, hbev]
    rfl
  · rw [nodeInitInternals_made hfd, Node.owned, Finmap.total_insert_of_notMem Finmap.notMem_empty,
      Finmap.total_empty, add_zero]
    show s.socket = _
    rw [OutboundSession.socket, outboundSession_fd hs]

/-- So every socket that the constructor makes is with the node, closed, or left open. -/
theorem node_sockets (bigEndian : Bool) (o : ConnectOutcome) (uri : Uri)
    (localAddr : Option IpAddress) :
    (match node bigEndian o uri localAddr with
      | .ok n => n.owned
      | .error _ => 0) + nodeUnwound bigEndian o uri localAddr +
      (if o.takesOver bigEndian localAddr then 0 else o.made localAddr) = o.made localAddr := by
  unfold nodeUnwound
  cases h : node bigEndian o uri localAddr with
  | ok n =>
      obtain ⟨htakes, howned⟩ := node_owned h
      simp [htakes, howned]
  | error e => cases o.takesOver bigEndian localAddr <;> simp

/-- What is left of a node's sockets when a session has gone. -/
theorem owned_closeSession (host : Bytes) (n : Node) :
    n.sessions.totalAt (fun s => s.elim 0 OutboundSession.socket) host +
      (n.closeSession host).owned = n.owned :=
  Finmap.totalAt_add_erase n.sessions

end

/-! ## One event -/

namespace Dialer

section
variable {U : Type} {ada : Ada U} {bigEndian : Bool} {d d' : Dialer U} {e : DialerEvent}

theorem owned_insert {ep : Endpoint U} {host : Bytes} {v : Option Node} {closed : Multiset Fd}
    (hep : ep.nodes = d.endpoint.nodes.insert host v) :
    (⟨ep, closed⟩ : Dialer U).owned = v.elim 0 Node.owned +
      (d.endpoint.nodes.erase host).total fun n => n.elim 0 Node.owned := by
  rw [owned, hep]
  exact Finmap.total_insert _

variable {url : Bytes} {localAddr : Option IpAddress} {o : ConnectOutcome}

/-- A call for a new host leaves an entry for it, with the node that was made or without. -/
theorem connect_entry (hmem : (uriOf ada url).host ∉ d.endpoint.nodes) :
    ∃ v, (d.endpoint.connect ada bigEndian o url localAddr).2.nodes =
        d.endpoint.nodes.insert (uriOf ada url).host v ∧
      (match node bigEndian o (uriOf ada url) localAddr with
        | .ok n => n.owned
        | .error _ => 0) = v.elim 0 Node.owned := by
  rw [Endpoint.connect_eq]
  dsimp only
  rw [if_neg hmem, PtrMap.emplaceNull_of_notMem hmem]
  cases node bigEndian o (uriOf ada url) localAddr with
  | error e => exact ⟨none, rfl, rfl⟩
  | ok n => exact ⟨some n, Finmap.insert_insert _, rfl⟩

theorem connect_strands (hmem : (uriOf ada url).host ∉ d.endpoint.nodes) :
    (if d.strands ada bigEndian (.connect url localAddr o) then
      d.made ada (.connect url localAddr o) else 0) =
      if o.takesOver bigEndian localAddr then 0 else o.made localAddr := by
  simp only [strands, made, hmem, not_false_eq_true, decide_true, Bool.true_and, if_false]
  cases o.takesOver bigEndian localAddr with
  | true => simp
  | false =>
      by_cases hnone : o.made localAddr = 0
      · simp [hnone]
      · simp [hnone]

theorem connect_balance (h : step ada bigEndian d (.connect url localAddr o) = some d') :
    d'.owned + d'.closed + (if d.strands ada bigEndian (.connect url localAddr o) then
        d.made ada (.connect url localAddr o) else 0) =
      d.owned + d.closed + d.made ada (.connect url localAddr o) := by
  obtain rfl := Option.some.inj h
  by_cases hmem : (uriOf ada url).host ∈ d.endpoint.nodes
  · -- the host has its node: nothing is made
    obtain ⟨e, hcall⟩ : ∃ e, d.endpoint.connect ada bigEndian o url localAddr
        = (.error (.throws e),
          { d.endpoint with parser := (uriParse ada url d.endpoint.parser).2 }) :=
      Endpoint.connect_present hmem
    have hmade : d.made ada (.connect url localAddr o) = 0 := if_pos hmem
    rw [hcall, if_pos hmem, hmade, ite_self]
    show d.owned + (d.closed + 0) + 0 = d.owned + d.closed + 0
    simp only [add_zero]
  · have hsockets := node_sockets bigEndian o (uriOf ada url) localAddr
    obtain ⟨v, hinsert, hv⟩ := @connect_entry U ada bigEndian d url localAddr o hmem
    have hmade : d.made ada (.connect url localAddr o) = o.made localAddr := if_neg hmem
    rw [hv] at hsockets
    rw [connect_strands hmem, owned_insert hinsert, Finmap.erase_of_notMem hmem, if_neg hmem,
      hmade]
    show _ + d.owned + (d.closed + _) + _ = _
    calc _ = d.owned + d.closed +
          (v.elim 0 Node.owned + nodeUnwound bigEndian o (uriOf ada url) localAddr +
            if o.takesOver bigEndian localAddr then 0 else o.made localAddr) := by abel
      _ = d.owned + d.closed + o.made localAddr := by rw [hsockets]

theorem step_balance (h : step ada bigEndian d e = some d') :
    d'.owned + d'.closed + (if d.strands ada bigEndian e then d.made ada e else 0) =
      d.owned + d.closed + d.made ada e := by
  cases e with
  | connect url localAddr o => exact connect_balance h
  | closeJob host =>
      rw [step] at h
      split at h
      · next n hn =>
        split at h
        · next s hs =>
          obtain rfl := Option.some.inj h
          have hnode : d.endpoint.nodes.totalAt (fun n => n.elim 0 Node.owned) host = n.owned :=
            Finmap.totalAt_of_lookup hn
          have hmap : d.owned = n.owned +
              (d.endpoint.nodes.erase host).total fun n => n.elim 0 Node.owned := by
            rw [← hnode]
            exact (Finmap.totalAt_add_erase d.endpoint.nodes).symm
          rw [owned_insert rfl, hmap, ← owned_closeSession s.host n]
          show _ + _ + (_ + _) + 0 = _ + 0
          simp only [Option.elim_some, add_zero]
          abel
        · cases h
      · cases h

theorem strands_iff : (if d.strands ada bigEndian e then d.made ada e else 0) = 0 ↔
    d.strands ada bigEndian e = false := by
  cases hstrands : d.strands ada bigEndian e with
  | false => exact iff_of_true rfl rfl
  | true =>
      refine iff_of_false (fun hnone => ?_) (by decide)
      cases e with
      | connect url localAddr o =>
          simp only [strands, Bool.and_eq_true, decide_eq_true_eq] at hstrands
          obtain ⟨⟨hmem, hmade⟩, -⟩ := hstrands
          rw [if_pos rfl, made, if_neg hmem] at hnone
          exact hmade hnone
      | closeJob host => cases hstrands

end

/-- **Every socket that a node makes is owned by a session, closed, or stranded.**  After every
run of calls and close jobs. -/
theorem sockets_accounted {U : Type} {ada : Ada U} {bigEndian : Bool} {parser : UrlParser U}
    {evs : List DialerEvent} {d : Dialer U}
    (hrun : run (step ada bigEndian) (start parser) evs = some d) :
    SocketsBalance ada bigEndian (start parser) evs d := by
  constructor
  · have hstep (d : Dialer U) (e : DialerEvent) (t : Dialer U)
        (ht : d.step ada bigEndian e = some t) (_ : True) := step_balance ht
    obtain ⟨-, hbooks⟩ := balance_run (fun _ _ _ _ h => h) hstep hrun trivial
    rw [hbooks]
    exact (zero_add _).symm
  · rw [totalAlong_eq_zero_iff]
    exact along_congr (fun _ _ _ _ => strands_iff) _ evs

/-- A bound socket goes to the session, and is closed with it. -/
theorem sockets_accounted_closed : ∃ d,
    run (step .acceptsNothing false) (start ({} : UrlParser Unit))
      [.connect [] (some (.ofPort 0)) .succeeds, .closeJob []] = some d ∧
    d.closed = {5} ∧
    SocketsBalance .acceptsNothing false (start {})
      [.connect [] (some (.ofPort 0)) .succeeds, .closeJob []] d :=
  ⟨_, rfl, by decide, sockets_accounted rfl⟩

end Dialer

end Wshttp
