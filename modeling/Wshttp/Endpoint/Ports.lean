/-
# `Wshttp.Endpoint.Ports` — the key of a listener and its own port

`listen(port)` fixes the key before the listener is built.  The listener starts with
the same port in `_local`, binds it, and then overwrites `_local` with what
`getsockname` says.  `close_listener` reads the key to erase from there.

| source                                              | event            |
| :-------------------------------------------------- | :--------------- |
| `endpoint::listen`                                  | `listen`         |
| the job of `listener::close_listener` is run        | `listenerCloses` |

That job reads everything when it runs, so its being queued is not an event here.

**Proved here.**  In every run of these, each listener has the port it stands under
and closes itself and nothing else, exactly as long as no ephemeral port is bound
(`ports_agree_iff`).
-/
import Wshttp.Endpoint

namespace Wshttp

open Machine

/-! ## What is bound, and what `getsockname` says -/

/-- `getsockname` reports what is bound: the port that was asked for, or for port 0
the one that the system has chosen. -/
structure BindOutcome.ReportsBound (o : BindOutcome) : Prop where
  explicit : ∀ addr port len fd sa, port ≠ 0 →
    o.evconnlistenerNewBind (.inet addr port) len = some fd → o.getsockname fd = some sa →
      sa = .inet addr port
  ephemeral : ∀ addr len fd sa,
    o.evconnlistenerNewBind (.inet addr 0) len = some fd → o.getsockname fd = some sa →
      ∃ port, port ≠ 0 ∧ sa = .inet addr port

section
variable {bigEndian : Bool} {o : BindOutcome} {port : UInt16} {l : Listener}

theorem hostToBig_eq_zero : enc.hostToBig bigEndian port = 0 ↔ port = 0 := by
  have hzero : enc.hostToBig bigEndian (0 : UInt16) = 0 := by cases bigEndian <;> rfl
  constructor
  · intro h
    rw [← enc.bigToHost_hostToBig bigEndian port, h, ← hzero, enc.bigToHost_hostToBig, hzero]
  · rintro rfl
    exact hzero

theorem bigToHost_eq_zero : enc.bigToHost bigEndian port = 0 ↔ port = 0 := hostToBig_eq_zero

theorem listener_bound (h : listener bigEndian o port = .ok l) :
    ∃ fd sa, o.evconnlistenerNewBind (listenAddress bigEndian port) SIZEOF_SOCKADDR = some fd ∧
      o.getsockname fd = some sa ∧ IpAddress.ofSockaddr bigEndian sa = .ok l.localAddr := by
  unfold listener at h
  split at h
  · cases h
  next fd hfd =>
  split at h
  · cases h
  next sa hsa =>
  split at h
  · cases h
  next a ha =>
  obtain rfl := Except.ok.inj h
  exact ⟨fd, sa, hfd, hsa, ha⟩

/-- A listener has the port it was made for, unless that is 0. -/
theorem listener_port_iff (ho : o.ReportsBound) (h : listener bigEndian o port = .ok l) :
    l.localAddr.port = port ↔ port ≠ 0 := by
  obtain ⟨fd, sa, hfd, hsa, ha⟩ := listener_bound h
  by_cases hport : port = 0
  · subst hport
    rw [listenAddress, hostToBig_eq_zero.mpr rfl] at hfd
    obtain ⟨p, hp, rfl⟩ := ho.ephemeral _ _ _ _ hfd hsa
    have hlocal : l.localAddr.port = enc.bigToHost bigEndian p := by
      rw [← Except.ok.inj ha]
    refine iff_of_false (fun hzero => hp ?_) (fun hne => hne rfl)
    exact bigToHost_eq_zero.mp (hlocal.symm.trans hzero)
  · obtain rfl := ho.explicit _ _ _ _ _ (mt hostToBig_eq_zero.mp hport) hfd hsa
    have hlocal : l.localAddr.port = enc.bigToHost bigEndian (enc.hostToBig bigEndian port) := by
      rw [← Except.ok.inj ha]
    exact iff_of_true (hlocal.trans (enc.bigToHost_hostToBig _ _)) hport

end

/-! ## Runs -/

inductive PortEvent where
  | listen (port : UInt16) (o : BindOutcome)
  /-- of the listener under `key` -/
  | listenerCloses (key : UInt16)

def PortEvent.ReportsBound : PortEvent → Prop
  | .listen _ o => o.ReportsBound
  | .listenerCloses _ => True

namespace Endpoint

section
variable {U : Type}

/-- The closure that `listener::close_listener` has enqueued. -/
def runCloseListener (l : Listener) (ep : Endpoint U) : Endpoint U :=
  ep.closeListener l.localAddr.port

def portStep (bigEndian : Bool) (ep : Endpoint U) : PortEvent → Option (Endpoint U)
  | .listen port o => some (ep.listen bigEndian o port).2
  | .listenerCloses key =>
      match ep.listeners.lookup key with
      | some (some l) => some (ep.runCloseListener l)
      | _ => none

/-- Every listener has the port it stands under, and its close job takes out just it. -/
structure PortsAgree (ep : Endpoint U) : Prop where
  port : ∀ p l, ep.listeners.lookup p = some (some l) → l.localAddr.port = p
  closes : ∀ p l, ep.listeners.lookup p = some (some l) →
    (ep.runCloseListener l).listeners = ep.listeners.erase p

/-- The event makes a listener for port 0. -/
def BindsEphemeral (bigEndian : Bool) (ep : Endpoint U) : PortEvent → Prop
  | .listen port o => port = 0 ∧ port ∉ ep.listeners ∧ o.Listens bigEndian port
  | .listenerCloses _ => False

theorem portsAgree_of_port {ep : Endpoint U}
    (h : ∀ p l, ep.listeners.lookup p = some (some l) → l.localAddr.port = p) : PortsAgree ep where
  port := h
  closes := by
    intro p l hl
    show ep.listeners.erase l.localAddr.port = _
    rw [h p l hl]

theorem PortsAgree.congr {ep ep' : Endpoint U} (h : PortsAgree ep)
    (hsub : ∀ p l, ep'.listeners.lookup p = some (some l) → ep.listeners.lookup p = some (some l)) :
    PortsAgree ep' :=
  portsAgree_of_port fun p l hl => h.port p l (hsub p l hl)

/-- A new entry keeps the agreement exactly if its listener has its key as port. -/
theorem portsAgree_insert_iff {ep : Endpoint U} (h : PortsAgree ep) (key : UInt16) (l : Listener) :
    PortsAgree { ep with listeners := ep.listeners.insert key (some l) } ↔
      l.localAddr.port = key := by
  constructor
  · intro hagree
    exact hagree.port key l (Finmap.lookup_insert _)
  · intro hkey
    refine portsAgree_of_port fun p l' hl' => ?_
    change (ep.listeners.insert key (some l)).lookup p = _ at hl'
    rcases eq_or_ne p key with rfl | hne
    · rw [Finmap.lookup_insert] at hl'
      obtain rfl := Option.some.inj (Option.some.inj hl')
      exact hkey
    · rw [Finmap.lookup_insert_of_ne _ hne] at hl'
      exact h.port p l' hl'

section
variable {bigEndian : Bool} {ep ep' : Endpoint U} {e : PortEvent}

theorem listen_portsAgree_iff {port : UInt16} {o : BindOutcome} (hep : PortsAgree ep)
    (ho : o.ReportsBound) :
    PortsAgree (ep.listen bigEndian o port).2 ↔ ¬ BindsEphemeral bigEndian ep (.listen port o) := by
  by_cases hmem : port ∈ ep.listeners
  · obtain ⟨e, hcall⟩ : ∃ e, ep.listen bigEndian o port = (.error (.throws e), ep) :=
      listen_present hmem
    rw [hcall]
    exact iff_of_true hep fun heph => heph.2.1 hmem
  by_cases hlisten : o.Listens bigEndian port
  · obtain ⟨l, hl⟩ := listener_ok_iff.mpr hlisten
    have hcall : (ep.listen bigEndian o port).2
        = { ep with listeners := ep.listeners.insert port (some l) } := by
      simp only [listen, if_neg hmem, hl, PtrMap.emplaceNull_of_notMem hmem, Finmap.insert_insert]
    rw [hcall, portsAgree_insert_iff hep, listener_port_iff ho hl]
    exact not_congr ⟨fun hport => ⟨hport, hmem, hlisten⟩, fun heph => heph.1⟩
  · obtain ⟨e, hcall⟩ := listen_throws hmem hlisten
    rw [hcall]
    refine iff_of_true (hep.congr fun p l hl => ?_) fun heph => hlisten heph.2.2
    -- the placeholder is not a listener
    change (ep.listeners.insert port none).lookup p = _ at hl
    rcases eq_or_ne p port with rfl | hne
    · rw [Finmap.lookup_insert] at hl
      cases hl
    · rw [Finmap.lookup_insert_of_ne _ hne] at hl
      exact hl

theorem portStep_agree_iff (hep : PortsAgree ep) (hreports : e.ReportsBound)
    (h : ep.portStep bigEndian e = some ep') :
    PortsAgree ep' ↔ ¬ BindsEphemeral bigEndian ep e := by
  cases e with
  | listen port o =>
      obtain rfl := Option.some.inj h
      exact listen_portsAgree_iff hep hreports
  | listenerCloses key =>
      simp only [portStep] at h
      split at h
      case h_2 => cases h
      next l _ =>
      obtain rfl := Option.some.inj h
      refine iff_of_true (hep.congr fun p l' hl' => ?_) not_false
      change (ep.listeners.erase l.localAddr.port).lookup p = _ at hl'
      rcases eq_or_ne p l.localAddr.port with heq | hne
      · rw [heq, Finmap.lookup_erase] at hl'
        cases hl'
      · rw [Finmap.lookup_erase_ne hne] at hl'
        exact hl'

end

/-- **Listeners have the port they stand under, exactly as long as none is bound to an
ephemeral port.**  In every state of every run of a new endpoint. -/
theorem ports_agree_iff {bigEndian : Bool} (parser : UrlParser U) {evs : List PortEvent}
    (hreports : ∀ e ∈ evs, e.ReportsBound) :
    Along (portStep bigEndian) (fun _ _ ep => PortsAgree ep) (new parser) evs ↔
      Along (portStep bigEndian) (fun ep e _ => ¬ BindsEphemeral bigEndian ep e)
        (new parser) evs := by
  have hnew : PortsAgree (new parser) := by
    refine portsAgree_of_port fun p l hl => ?_
    change (∅ : PtrMap UInt16 Listener).lookup p = _ at hl
    rw [Finmap.lookup_empty] at hl
    cases hl
  exact along_iff_of_forall_mem (I := PortsAgree) (P := PortEvent.ReportsBound)
    (fun _ _ _ hep he h => portStep_agree_iff hep he h) (fun _ _ _ _ _ hagree _ => hagree) hnew
    hreports

end

end Endpoint

/-- A system where every port can be bound, and 40000 is the next free one; the
descriptor is the port, as it is in the socket address. -/
def BindOutcome.anyPort : BindOutcome where
  evconnlistenerNewBind := fun sa _ =>
    match sa with
    | .inet 0 port => some (if port = 0 then 0x409c else port).toNat
    | _ => none
  getsockname := fun fd => some (.inet 0 (.ofNat fd.toNat))

theorem BindOutcome.anyPort_bind {addr : UInt32} {port : UInt16} {len : Nat} {fd : Fd}
    (h : anyPort.evconnlistenerNewBind (.inet addr port) len = some fd) :
    addr = 0 ∧ fd = (if port = 0 then (0x409c : UInt16) else port).toNat := by
  simp only [anyPort] at h
  split at h
  · next heq =>
    obtain ⟨rfl, rfl⟩ := Sockaddr.inet.inj heq
    exact ⟨rfl, (Option.some.inj h).symm⟩
  · cases h

theorem BindOutcome.anyPort_reportsBound : BindOutcome.anyPort.ReportsBound where
  explicit := by
    intro addr port len fd sa hport hfd hsa
    obtain ⟨rfl, rfl⟩ := anyPort_bind hfd
    obtain rfl := Option.some.inj hsa
    rw [if_neg hport, Int.toNat_natCast, UInt16.ofNat_toNat]
  ephemeral := by
    intro addr len fd sa hfd hsa
    obtain ⟨rfl, rfl⟩ := anyPort_bind hfd
    obtain rfl := Option.some.inj hsa
    exact ⟨0x409c, by decide, rfl⟩

namespace Endpoint

theorem ports_agree_iff_explicit :
    Along (portStep false) (fun _ _ ep => PortsAgree ep) (new {} : Endpoint Unit)
        [.listen 5544 .anyPort, .listenerCloses 5544] ↔
      Along (portStep false) (fun ep e _ => ¬ BindsEphemeral false ep e) (new {} : Endpoint Unit)
        [.listen 5544 .anyPort, .listenerCloses 5544] :=
  ports_agree_iff {} (by
    intro e he
    rcases List.mem_cons.mp he with rfl | he
    · exact BindOutcome.anyPort_reportsBound
    · obtain rfl := List.mem_singleton.mp he
      trivial)

/-- `listen(0)` registers a listener on port 40000 under the key 0, and its close job
leaves it there. -/
theorem ephemeral_listener_stays : BindOutcome.anyPort.ReportsBound ∧
    ¬ Along (portStep false) (fun _ _ ep => PortsAgree ep) (new {} : Endpoint Unit)
        [.listen 0 .anyPort] ∧
    (run (portStep false) (new {} : Endpoint Unit) [.listen 0 .anyPort, .listenerCloses 0]).map
        (fun ep => (ep.listeners.lookup 0).map fun l => l.map fun l => l.localAddr.port)
      = some (some (some 40000)) := by
  refine ⟨BindOutcome.anyPort_reportsBound, fun h => ?_, by decide⟩
  obtain ⟨hagree, -⟩ := h _ rfl
  have hport := hagree.port 0 _ rfl
  revert hport
  decide

end Endpoint

end Wshttp
