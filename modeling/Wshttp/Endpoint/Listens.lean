/-
# `Wshttp.Endpoint.Listens` — the calls of an endpoint, from many threads

Every public call of an endpoint goes through `call_get`, so it is a callable of
`Wshttp.EventLoop.CallGet`; so is every callback of its objects.  What they all work on
is the endpoint.

**Proved here.**  In every interleaving the results are those of the calls made one
after the other, and between two calls of `listen` that return true for one port
`close_listener` was called for it; and whoever calls has its answer in time
(`call_get_serves`).
-/
import Wshttp.Endpoint.Ports
import Wshttp.EventLoop.Progress

namespace Wshttp

open Machine History EventLoop

namespace Endpoint

section
variable {U : Type} {ada : Ada U} {bigEndian : Bool} {ep ep' : Endpoint U} {e : EndpointEvent}
  {port : UInt16}

/-! ## One call -/

/-- What a call returns, or throws, and what it leaves; `none` is what a function
returns that returns nothing.  After `nullPointer` there is no process any more. -/
def call (ada : Ada U) (bigEndian : Bool) (e : EndpointEvent) (ep : Endpoint U) :
    Except Fault (Option Bool) × Endpoint U :=
  match e with
  | .listen port o => (ep.listen bigEndian o port).map (Except.map some) id
  | .connect url localAddr o =>
      (ep.connect ada bigEndian o url localAddr).map (Except.map some) id
  | .closeListener port => (.ok none, ep.closeListener port)
  | .shutdownEndpoint => ep.shutdownEndpoint.map (Except.map fun _ => none) id
  | .inListener port f => (.ok none, { ep with listeners := inEntry port f ep.listeners })
  | .inNode host f => (.ok none, { ep with nodes := inEntry host f ep.nodes })

/-- It is what the event does. -/
theorem call_of_step (h : step ada bigEndian ep e = some ep') :
    (call ada bigEndian e ep).2 = ep' := by
  cases e with
  | listen | connect | closeListener | inListener | inNode => exact Option.some.inj h
  | shutdownEndpoint =>
      obtain ⟨_, -, hep'⟩ := Option.map_eq_some_iff.mp h
      exact hep'

/-- `listen` returns true only if the port was free, and it is not free afterwards. -/
theorem call_listen_true {o : BindOutcome}
    (h : (call ada bigEndian (.listen port o) ep).1 = .ok (some true)) :
    port ∉ ep.listeners ∧ port ∈ (call ada bigEndian (.listen port o) ep).2.listeners := by
  by_cases hmem : port ∈ ep.listeners
  · obtain ⟨e, hcall⟩ : ∃ e, ep.listen bigEndian o port = (.error (.throws e), ep) :=
      listen_present hmem
    simp [call, hcall, Except.map] at h
  refine ⟨hmem, ?_⟩
  by_cases hlisten : o.Listens bigEndian port
  · obtain ⟨l, hcall⟩ := listen_returns hmem hlisten
    simp [call, hcall]
  · obtain ⟨e, hcall⟩ := listen_throws hmem hlisten
    simp [call, hcall]

theorem mem_inEntry {K V : Type} [DecidableEq K] {k k' : K} {f : V → V} {m : PtrMap K V}
    (h : k ∈ m) : k ∈ inEntry k' f m := by
  unfold inEntry
  split
  · exact Finmap.mem_insert.mpr (.inr h)
  · exact h

/-- A port is freed by `close_listener` only. -/
theorem call_keeps (he : e ≠ .closeListener port) (hmem : port ∈ ep.listeners) :
    port ∈ (call ada bigEndian e ep).2.listeners := by
  cases e with
  | listen port' o =>
      show port ∈ (ep.listen bigEndian o port').2.listeners
      by_cases hmem' : port' ∈ ep.listeners
      · obtain ⟨e, hcall⟩ : ∃ e, ep.listen bigEndian o port' = (.error (.throws e), ep) :=
          listen_present hmem'
        rwa [hcall]
      by_cases hlisten : o.Listens bigEndian port'
      · obtain ⟨l, hcall⟩ := listen_returns hmem' hlisten
        rw [hcall]
        exact Finmap.mem_insert.mpr (.inr hmem)
      · obtain ⟨e, hcall⟩ := listen_throws hmem' hlisten
        rw [hcall]
        exact Finmap.mem_insert.mpr (.inr hmem)
  | connect url localAddr o =>
      show port ∈ (ep.connect ada bigEndian o url localAddr).2.listeners
      rw [connect_eq]
      dsimp only
      split
      · exact hmem
      · split <;> exact hmem
  | closeListener port' =>
      refine Finmap.mem_erase.mpr ⟨?_, hmem⟩
      rintro rfl
      exact he rfl
  | shutdownEndpoint =>
      show port ∈ ep.shutdownEndpoint.2.listeners
      unfold shutdownEndpoint
      split
      · refine Finmap.lookup_isSome.mp ?_
        rw [PtrMap.lookup_mapValues, Option.isSome_map]
        exact Finmap.lookup_isSome.mpr hmem
      · exact hmem
  | inListener port' f => exact mem_inEntry hmem
  | inNode host f => exact hmem

end

/-! ## Histories of an endpoint -/

section
variable {Tid : Type*} {U : Type} {ada : Ada U} {bigEndian : Bool} {ep ep' : Endpoint U}

/-- What a history of the calls of an endpoint is made of. -/
abbrev CallEvent (Tid : Type*) := Event Tid CallId EndpointEvent (Except Fault (Option Bool))

/-- There is a sequential order that gives these results and agrees with that of every
thread, and no port gets a second listener while it has one. -/
structure Linearized (ada : Ada U) (bigEndian : Bool) (ep : Endpoint U)
    (h : List (CallEvent Tid)) : Prop where
  linearizes : Linearizes (call ada bigEndian) ep h (effects h)
  /-- calls off the loop thread take effect in the order in which they were made -/
  jobOrder : ∀ (h₁ h₂ h₃ : List (CallEvent Tid)) (t u : Tid) (i j : Nat) (e e' : EndpointEvent),
    h = h₁ ++ .invoke t (.job i) e :: h₂ ++ .invoke u (.job j) e' :: h₃ →
    ∀ l₁ l₂ f r, effects h = l₁ ++ (.job j, f, r) :: l₂ → ∃ f' r', (.job i, f', r') ∈ l₁
  onePerPort : ∀ (h₁ h₂ h₃ : List (CallEvent Tid)) (i j : CallId) (port : UInt16)
      (o o' : BindOutcome),
    h = h₁ ++ .exec i (.listen port o) (.ok (some true)) :: h₂ ++
      .exec j (.listen port o') (.ok (some true)) :: h₃ →
    ∃ k r, .exec k (.closeListener port) r ∈ h₂

/-- Between two calls that make a listener for the port it is closed. -/
theorem closed_between {h₁ h₂ h₃ : List (CallEvent Tid)} {i j : CallId} {port : UInt16}
    {o o' : BindOutcome}
    (hh : Replays (call ada bigEndian) ep
      (h₁ ++ .exec i (.listen port o) (.ok (some true)) :: h₂ ++
        .exec j (.listen port o') (.ok (some true)) :: h₃) ep') :
    ∃ k r, .exec k (.closeListener port) r ∈ h₂ := by
  obtain ⟨v, hbefore, w, hsecond, -⟩ := replays_append.mp hh
  obtain ⟨u, -, u', hfirst, hbetween⟩ := replays_append.mp hbefore
  change call ada bigEndian (.listen port o) u = (.ok (some true), u') at hfirst
  change call ada bigEndian (.listen port o') v = (.ok (some true), w) at hsecond
  by_contra hnone
  -- the entry that the first call made is still there when the second is made
  have hmade : port ∈ u'.listeners := by
    have hafter := (call_listen_true (by rw [hfirst])).2
    rwa [hfirst] at hafter
  have hkept : port ∈ v.listeners :=
    hbetween.inv (I := fun ep => port ∈ ep.listeners) (P := fun e => e ≠ .closeListener port)
      (fun _ _ => call_keeps) hmade fun k e r hmem he => hnone ⟨k, r, he ▸ hmem⟩
  exact (call_listen_true (by rw [hsecond])).1 hkept

theorem linearized_run [DecidableEq Tid] {loop : Tid} {acts : List (CallAct Tid EndpointEvent)}
    {s : Calls Tid EndpointEvent (Endpoint U) (Option Bool) Fault}
    (hacts : ∀ a ∈ acts, Calls.SoonOk (call ada bigEndian) a)
    (h : run (Calls.step (call ada bigEndian) loop) (Calls.init ep) acts = some s) :
    Linearized ada bigEndian ep s.history := by
  have hs := Calls.inv_run hacts h
  have htickets := Calls.run_tickets hacts h
  refine ⟨hs.orderly.linearizes hs.replays, ?_, ?_⟩
  · intro h₁ h₂ h₃ t u i j f g hsplit l₁ l₂ g' r heffects
    rw [hsplit] at htickets
    have hlt : CallId.Before (.job i) (.job j) := Calls.ticket_lt_of_pairwise htickets
    exact hs.orderly.first_effects hlt heffects
  · intro h₁ h₂ h₃ i j port o o' hsplit
    have hreplays := hs.replays
    rw [hsplit] at hreplays
    exact closed_between hreplays

end

/-- **`call_get` serves every caller, and `listen` is linearizable.**  For any threads,
callables and shared state, and every interleaving in which the jobs of `call_soon` do
not throw; then for the calls of an endpoint. -/
theorem call_get_serves.{u} :
    (∀ (Tid F σ V E : Type u) [DecidableEq Tid] (sem : F → σ → Except E V × σ) (loop : Tid) (σ₀ : σ)
      (acts : List (CallAct Tid F)) (s : Calls Tid F σ V E),
      (∀ a ∈ acts, Calls.SoonOk sem a) →
      run (Calls.step sem loop) (Calls.init σ₀) acts = some s → s.Serves sem loop σ₀ acts) ∧
    (∀ (Tid : Type u) (U : Type) [DecidableEq Tid] (ada : Ada U) (bigEndian : Bool) (loop : Tid)
      (ep : Endpoint U) (acts : List (CallAct Tid EndpointEvent))
      (s : Calls Tid EndpointEvent (Endpoint U) (Option Bool) Fault),
      (∀ a ∈ acts, Calls.SoonOk (call ada bigEndian) a) →
      run (Calls.step (call ada bigEndian) loop) (Calls.init ep) acts = some s →
      Linearized ada bigEndian ep s.history) :=
  ⟨fun _ _ _ _ _ _ _ _ _ _ _ hacts h => Calls.serves_run hacts h,
    fun _ _ _ _ _ _ _ _ _ hacts h => linearized_run hacts h⟩

/-- Two threads listen on one port. -/
def twoListens : List (CallAct Nat EndpointEvent) :=
  [.callGet 1 (.listen 5544 .anyPort), .callGet 2 (.listen 5544 .anyPort), .activate 2, .wake,
    .activate 1, .swap, .pop, .exec, .returns, .resume 1, .pop, .exec, .returns, .resume 2]

theorem call_get_serves_twoListens :
    ∃ s : Calls Nat EndpointEvent (Endpoint Unit) (Option Bool) Fault,
      run (Calls.step (call .acceptsNothing false) 0) (Calls.init (new {})) twoListens = some s ∧
      s.Serves (call .acceptsNothing false) 0 (new {}) twoListens ∧
      Linearized .acceptsNothing false (new {}) s.history := by
  obtain ⟨s, hs⟩ : ∃ s : Calls Nat EndpointEvent (Endpoint Unit) (Option Bool) Fault,
      run (Calls.step (call .acceptsNothing false) 0) (Calls.init (new {})) twoListens = some s :=
    ⟨_, rfl⟩
  have hacts : ∀ a ∈ twoListens, Calls.SoonOk (call .acceptsNothing false) a := by
    simp [twoListens, Calls.SoonOk]
  exact ⟨s, hs, call_get_serves.{0}.1 _ _ _ _ _ _ _ _ _ _ hacts hs,
    call_get_serves.{0}.2 _ _ _ _ _ _ _ _ hacts hs⟩

end Endpoint

end Wshttp
