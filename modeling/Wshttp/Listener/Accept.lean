/-
# `Wshttp.Listener.Accept` — what becomes of an accepted descriptor

A call of `create_inbound_session` ought to end in one of two ways: a new session
owns the descriptor, or nothing has changed and the descriptor is closed.

**Proved here.**  It ends so exactly when the remote address has no entry and the
constructor succeeds (`createInboundSession_twoOutcomes_iff`), and the runs of a
listener in which it always does, and in which no entry is ever null, are those
whose accepts all meet that (`accepts_settle_iff`).  A duplicate removes the
session that is there, and a constructor that throws leaves a null entry.
-/
import Wshttp.Listener.World

namespace Wshttp

open Machine

/-! ## The constructor -/

/-- Every call behind the constructor succeeds, on a socket of a known family. -/
structure AcceptOutcome.Constructs (bigEndian : Bool) (o : AcceptOutcome) (fd : Fd) : Prop where
  sslNew : o.sslNew = true
  bufferevent : o.bufferevent = true
  setsockopt : 0 ≤ o.setsockopt fd
  getsockname : ∃ sa a, o.getsockname fd = some sa ∧ IpAddress.ofSockaddr bigEndian sa = .ok a

theorem inboundSession_of_constructs {bigEndian : Bool} {o : AcceptOutcome} {fd : Fd}
    (h : o.Constructs bigEndian fd) (remote : IpAddress) :
    ∃ s, inboundSession bigEndian o remote fd = (.ok s, 0) ∧
      s.fd = fd ∧ s.path.remote = remote := by
  obtain ⟨sa, a, hsa, ha⟩ := h.getsockname
  have hopt : ¬ o.setsockopt fd < 0 := Int.not_lt.mpr h.setsockopt
  refine ⟨{ fd, path := ⟨a, remote⟩, bev := {}, session := none, isOutbound := false },
    ?_, rfl, rfl⟩
  simp [inboundSession, newSsl, h.sslNew, h.bufferevent, hopt, hsa, ha]

theorem inboundSession_throws {bigEndian : Bool} {o : AcceptOutcome} {fd : Fd}
    (h : ¬ o.Constructs bigEndian fd) (remote : IpAddress) :
    ∃ e unwound, inboundSession bigEndian o remote fd = (.error e, unwound) := by
  unfold inboundSession newSsl
  split
  · exact ⟨_, _, rfl⟩
  next hssl =>
  split
  · exact ⟨_, _, rfl⟩
  next hbev =>
  split
  · exact ⟨_, _, rfl⟩
  next hopt =>
  split
  · exact ⟨_, _, rfl⟩
  next sa hsa =>
  split
  · exact ⟨_, _, rfl⟩
  next a ha =>
  refine absurd ⟨?_, by simpa using hbev, Int.not_lt.mp hopt, sa, a, hsa, ha⟩ h
  by_contra hno
  rw [if_neg hno] at hssl
  cases hssl

/-! ## The two outcomes of a call -/

/-- One live session for `remote` has been added, and it owns `fd`. -/
structure Added (remote : IpAddress) (fd : Fd) (l l' : Listener) : Prop where
  absent : remote.key ∉ l.sessions.ptrs
  session : ∃ p s, l'.sessions.find remote.key = some (p, s) ∧ s.fd = fd ∧
    l.sessions.heap.lookup p = none
  others : ∀ k, k ≠ remote.key → l'.sessions.ptrs.lookup k = l.sessions.ptrs.lookup k
  objects : ∀ q s, l.sessions.heap.lookup q = some s → l'.sessions.heap.lookup q = some s
  closed : l'.closed = l.closed

/-- Nothing has changed, except that `fd` is closed. -/
structure Refused (fd : Fd) (l l' : Listener) : Prop where
  sessions : l'.sessions = l.sessions
  closed : l'.closed = l.closed + {fd}

def TwoOutcomes (remote : IpAddress) (fd : Fd) (l l' : Listener) : Prop :=
  Added remote fd l l' ∨ Refused fd l l'

section
variable {bigEndian : Bool} {o : AcceptOutcome} {remote : IpAddress} {fd : Fd} {l : Listener}

theorem createInboundSession_duplicate (h : remote.key ∈ l.sessions.ptrs) :
    l.createInboundSession bigEndian o remote fd = (.ok (), l.eraseSession remote.key) := if_pos h

theorem createInboundSession_throws (h : remote.key ∉ l.sessions.ptrs)
    (ho : ¬ o.Constructs bigEndian fd) :
    (l.createInboundSession bigEndian o remote fd).2.sessions
      = l.sessions.emplaceNull remote.key := by
  obtain ⟨e, unwound, hthrow⟩ := inboundSession_throws ho remote
  rw [Listener.createInboundSession, if_neg h, hthrow]

theorem createInboundSession_adds (h : remote.key ∉ l.sessions.ptrs)
    (ho : o.Constructs bigEndian fd) :
    ∃ s, s.fd = fd ∧ remoteKey s = remote.key ∧
      l.createInboundSession bigEndian o remote fd
        = (.ok (), { l with sessions := (l.sessions.emplaceNull remote.key).assign s }) := by
  obtain ⟨s, hs, hfd, hremote⟩ := inboundSession_of_constructs ho remote
  refine ⟨s, hfd, by rw [remoteKey, hremote], ?_⟩
  rw [Listener.createInboundSession, if_neg h, hs]

theorem added_assign {s : SessionBase} (h : remote.key ∉ l.sessions.ptrs) (hfd : s.fd = fd)
    (hkey : remoteKey s = remote.key) :
    Added remote fd l { l with sessions := (l.sessions.emplaceNull remote.key).assign s } := by
  have hplaced :
      (l.sessions.emplaceNull remote.key).ptrs = l.sessions.ptrs.insert remote.key none :=
    PtrMap.emplaceNull_of_notMem h
  -- the placeholder owns nothing, so every object survives the assignment
  have hsurvive :
      (l.sessions.emplaceNull remote.key).survivors (remoteKey s) = l.sessions.heap := by
    refine OwnerMap.survivors_of_not_owned fun p hp => ?_
    rw [hkey, hplaced, Finmap.lookup_insert] at hp
    cases hp
  refine ⟨h, ⟨l.sessions.next, s, ?_, hfd, l.sessions.next_notMem⟩, ?_, ?_, rfl⟩
  · refine OwnerMap.find_eq_some.mpr ⟨?_, Finmap.lookup_insert _⟩
    rw [← hkey]
    exact Finmap.lookup_insert _
  · intro k hk
    show (((l.sessions.emplaceNull remote.key).ptrs).insert (remoteKey s) _).lookup k = _
    rw [hkey, Finmap.lookup_insert_of_ne _ hk, hplaced, Finmap.lookup_insert_of_ne _ hk]
  · intro q v hv
    have hq : q ≠ l.sessions.next := Nat.ne_of_lt (l.sessions.fresh q v hv)
    show (Finmap.insert l.sessions.next s
      ((l.sessions.emplaceNull remote.key).survivors (remoteKey s))).lookup q = _
    rw [hsurvive, Finmap.lookup_insert_of_ne _ hq]
    exact hv

/-- A duplicate is neither: the entry was there, and it has been erased. -/
theorem not_twoOutcomes_duplicate (h : remote.key ∈ l.sessions.ptrs) :
    ¬ TwoOutcomes remote fd l (l.eraseSession remote.key) := by
  rintro (hadded | hrefused)
  · exact hadded.absent h
  · have hgone : remote.key ∉ (l.eraseSession remote.key).sessions.ptrs :=
      Finmap.notMem_erase_self
    rw [hrefused.sessions] at hgone
    exact hgone h

/-- Nor is a call that leaves its placeholder. -/
theorem not_twoOutcomes_placeholder {l' : Listener} (h : remote.key ∉ l.sessions.ptrs)
    (hplaced : l'.sessions = l.sessions.emplaceNull remote.key) :
    ¬ TwoOutcomes remote fd l l' := by
  have hnull : (l.sessions.emplaceNull remote.key).ptrs.lookup remote.key = some none := by
    show (PtrMap.emplaceNull remote.key l.sessions.ptrs).lookup remote.key = some none
    rw [PtrMap.emplaceNull_of_notMem h, Finmap.lookup_insert]
  rintro (hadded | hrefused)
  · obtain ⟨p, s, hfind, -, -⟩ := hadded.session
    rw [hplaced] at hfind
    have hp := (OwnerMap.find_eq_some.mp hfind).1
    rw [hnull] at hp
    cases hp
  · rw [hrefused.sessions] at hplaced
    rw [← hplaced] at hnull
    exact h (Finmap.mem_of_lookup_eq_some hnull)

/-- For every listener, whatever its map holds. -/
theorem createInboundSession_twoOutcomes_iff :
    TwoOutcomes remote fd l (l.createInboundSession bigEndian o remote fd).2 ↔
      remote.key ∉ l.sessions.ptrs ∧ o.Constructs bigEndian fd := by
  constructor
  · intro htwo
    by_cases hmem : remote.key ∈ l.sessions.ptrs
    · rw [createInboundSession_duplicate hmem] at htwo
      exact absurd htwo (not_twoOutcomes_duplicate hmem)
    · refine ⟨hmem, ?_⟩
      by_contra hno
      exact not_twoOutcomes_placeholder hmem (createInboundSession_throws hmem hno) htwo
  · rintro ⟨hmem, ho⟩
    obtain ⟨s, hfd, hkey, hcall⟩ := createInboundSession_adds hmem ho
    rw [hcall]
    exact .inl (added_assign hmem hfd hkey)

end

/-! ## Over runs -/

/-- Every accept of a known address family has one of the two outcomes. -/
def AcceptTwoOutcomes (bigEndian : Bool) (w : World) : WorldEvent → World → Prop
  | .accept addr fd _, w' => ∀ remote l l', IpAddress.ofSockaddr bigEndian addr = .ok remote →
      w.listener = some l → w'.listener = some l' → TwoOutcomes remote fd l l'
  | _, _ => True

def World.NonNull (w : World) : Prop := ∀ l, w.listener = some l → l.sessions.ptrs.NonNull

/-- The step has one of the two outcomes if it is an accept, and leaves no entry null. -/
def Settles (bigEndian : Bool) (w : World) (e : WorldEvent) (w' : World) : Prop :=
  AcceptTwoOutcomes bigEndian w e w' ∧ w'.NonNull

/-- An accept finds no entry for the address, and its constructor succeeds. -/
def AcceptsCleanly (bigEndian : Bool) (w : World) : WorldEvent → Prop
  | .accept addr fd o => ∀ remote l, IpAddress.ofSockaddr bigEndian addr = .ok remote →
      w.listener = some l → remote.key ∉ l.sessions.ptrs ∧ o.Constructs bigEndian fd
  | _ => True

theorem acceptTwoOutcomes_iff {bigEndian : Bool} {w w' : World} {e : WorldEvent}
    (h : w.step bigEndian e = some w') :
    AcceptTwoOutcomes bigEndian w e w' ↔ AcceptsCleanly bigEndian w e := by
  cases e with
  | accept addr fd o =>
      obtain ⟨l, hl, rfl⟩ := Option.map_eq_some_iff.mp h
      have hcall (remote : IpAddress) (hr : IpAddress.ofSockaddr bigEndian addr = .ok remote) :
          (l.acceptCb bigEndian o addr fd).2
            = (l.createInboundSession bigEndian o remote fd).2 := by
        simp only [Listener.acceptCb, hr]
      constructor
      · intro htwo remote l₀ hr hl₀
        obtain rfl := Option.some.inj (hl.symm.trans hl₀)
        have hcreated := htwo remote l _ hr hl rfl
        rw [hcall remote hr] at hcreated
        exact createInboundSession_twoOutcomes_iff.mp hcreated
      · intro hclean remote l₀ l' hr hl₀ hl'
        obtain rfl := Option.some.inj (hl.symm.trans hl₀)
        obtain rfl := Option.some.inj hl'
        rw [hcall remote hr]
        exact createInboundSession_twoOutcomes_iff.mpr (hclean remote l hr hl)
  | session | listenerError | closeAll | runJob => exact Iff.rfl

theorem acceptCb_nonNull {bigEndian : Bool} {o : AcceptOutcome} {addr : Sockaddr} {fd : Fd}
    {l : Listener} (hl : l.sessions.ptrs.NonNull)
    (hclean : ∀ remote, IpAddress.ofSockaddr bigEndian addr = .ok remote →
      remote.key ∉ l.sessions.ptrs ∧ o.Constructs bigEndian fd) :
    (l.acceptCb bigEndian o addr fd).2.sessions.ptrs.NonNull := by
  unfold Listener.acceptCb
  split
  · exact hl
  · next remote hr =>
    obtain ⟨hmem, ho⟩ := hclean remote hr
    obtain ⟨s, -, hkey, hcall⟩ := createInboundSession_adds hmem ho
    rw [hcall]
    -- the placeholder's entry is the one that is assigned
    show PtrMap.NonNull (Finmap.insert (remoteKey s) (some l.sessions.next)
      (PtrMap.emplaceNull remote.key l.sessions.ptrs))
    rw [PtrMap.emplaceNull_of_notMem hmem, hkey, Finmap.insert_insert]
    exact PtrMap.nonNull_insert hl _ _

theorem step_nonNull {bigEndian : Bool} {w w' : World} {e : WorldEvent} (hw : w.NonNull)
    (hclean : AcceptsCleanly bigEndian w e) (h : w.step bigEndian e = some w') : w'.NonNull := by
  intro l' hl'
  cases World.stepped h with
  | @accept _ _ _ l hl =>
      obtain rfl := Option.some.inj hl'
      exact acceptCb_nonNull (hw l hl) fun remote hr => hclean remote l hr hl
  | @session _ _ l _ _ hl _ =>
      obtain rfl := Option.some.inj hl'
      have hl₀ : l.sessions.ptrs.NonNull := hw l hl
      exact hl₀
  | listenerError _ => exact hw l' hl'
  | closeAll _ =>
      obtain rfl := Option.some.inj hl'
      exact PtrMap.nonNull_empty
  | runCloseSession _ hl _ =>
      obtain rfl := Option.some.inj hl'
      exact PtrMap.nonNull_erase (hw _ hl) _
  | runCloseListener _ hl =>
      unfold World.closeListener at hl'
      split at hl'
      · cases hl'
      · exact hw l' hl'

theorem settles_iff {bigEndian : Bool} {w w' : World} {e : WorldEvent} (hw : w.NonNull)
    (h : w.step bigEndian e = some w') :
    Settles bigEndian w e w' ↔ AcceptsCleanly bigEndian w e := by
  constructor
  · intro hsettles
    exact (acceptTwoOutcomes_iff h).mp hsettles.1
  · intro hclean
    exact ⟨(acceptTwoOutcomes_iff h).mpr hclean, step_nonNull hw hclean h⟩

/-- **An accepted descriptor is owned or closed, and the map stays clean, exactly
when no accept meets a duplicate or a failing constructor.**  Over every run of a
listener from its registration. -/
theorem accepts_settle_iff (bigEndian : Bool) (port : UInt16) (localAddr : IpAddress) (fd : Fd)
    (evs : List WorldEvent) :
    Along (World.step bigEndian) (Settles bigEndian) (.registered port localAddr fd) evs ↔
      Along (World.step bigEndian) (fun w e _ => AcceptsCleanly bigEndian w e)
        (.registered port localAddr fd) evs := by
  have hregistered : (World.registered port localAddr fd).NonNull := by
    intro l hl
    obtain rfl := Option.some.inj hl
    exact PtrMap.nonNull_empty
  exact along_iff (I := World.NonNull) (Q := Settles bigEndian)
    (R := fun w e _ => AcceptsCleanly bigEndian w e) (fun _ _ _ hw h => settles_iff hw h)
    (fun _ _ _ _ hsettles _ => hsettles.2) hregistered evs

/-- The same remote address twice: the second accept removes the first one's
session, and its own descriptor stays open. -/
theorem duplicate_accept_removes_session :
    ¬ Along (World.step false) (Settles false) (.registered 5544 (.ofPort 5544) 3)
        [.accept (.inet 0x0100007f 0x1234) 7 .succeeds,
         .accept (.inet 0x0100007f 0x1234) 8 .succeeds] := by
  intro h
  obtain ⟨-, hrest⟩ := h _ rfl
  obtain ⟨⟨htwo, -⟩, -⟩ := hrest _ rfl
  rcases htwo _ _ _ rfl rfl rfl with hadded | hrefused
  · exact hadded.absent (by decide)
  · have hclosed := hrefused.closed
    exact absurd hclosed (by decide)

end Wshttp
