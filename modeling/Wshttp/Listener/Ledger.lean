/-
# `Wshttp.Listener.Ledger` — where the accepted descriptors of a listener are

libevent hands every accepted descriptor to `accept_cb` and does not look at it again.
From then on a descriptor has three places to be:

| place    | how it gets there                                                          |
| :------- | :------------------------------------------------------------------------- |
| owned    | a session has been constructed with it                                     |
| closed   | its session is gone, or its construction failed behind the bufferevent     |
| stranded | no bufferevent ever had it: nothing will close it before the process ends  |

**Proved here.**  After every run of a listener, each accepted descriptor is in exactly one
of the three, as often as it was accepted; and a listener that is gone was destroyed by the
last job of its run, which closes what its sessions own.  Nothing is stranded exactly if
every accept has an address that can be read and has no entry, and is given a bufferevent
(`descriptors_accounted`).
-/
import Wshttp.Lib.Holdings
import Wshttp.Listener.World

namespace Wshttp

open Machine

/-! ## The three places -/

namespace Listener

/-- The descriptors that the sessions own. -/
def owned (l : Listener) : Multiset Fd := l.sessions.total fun s => {s.fd}

/-- The descriptors that have found an owner, whether it is still there or not. -/
def settled (l : Listener) : Multiset Fd := l.owned + l.closed

/-- `accept_cb` does not get as far as a bufferevent. -/
def strands (bigEndian : Bool) (o : AcceptOutcome) (addr : Sockaddr) (l : Listener) : Bool :=
  match IpAddress.ofSockaddr bigEndian addr with
  | .error _ => true
  | .ok remote => remote.key ∈ l.sessions.ptrs || !(o.sslNew && o.bufferevent)

end Listener

def WorldEvent.accepted : WorldEvent → Multiset Fd
  | .accept _ fd _ => {fd}
  | _ => 0

namespace World

/-- The event is an accept whose descriptor nobody takes over. -/
def strands (bigEndian : Bool) (w : World) : WorldEvent → Bool
  | .accept addr _ o => w.listener.any (Listener.strands bigEndian o addr)
  | _ => false

def accepted (evs : List WorldEvent) : Multiset Fd := (evs.map WorldEvent.accepted).sum

/-- The descriptors that the accepts of a run have stranded. -/
def stranded (bigEndian : Bool) (start : World) (evs : List WorldEvent) : Multiset Fd :=
  totalAlong (step bigEndian) (fun w e => if w.strands bigEndian e then e.accepted else 0) start evs

/-- What has been accepted is owned, closed or stranded; and when nothing is stranded. -/
structure BooksBalance (bigEndian : Bool) (start : World) (evs : List WorldEvent) (w : World) :
    Prop where
  places : ∀ l, w.listener = some l →
    accepted evs = l.owned + l.closed + stranded bigEndian start evs
  /-- the last job has destroyed the listener, and closed what its sessions owned -/
  gone : w.listener = none → ∃ before t l, evs = before ++ [.runJob] ∧
    run (step bigEndian) start before = some t ∧ t.listener = some l ∧
    accepted evs = l.owned + l.closed + stranded bigEndian start evs
  nothingStranded : stranded bigEndian start evs = 0 ↔
    Along (step bigEndian) (fun w e _ => w.strands bigEndian e = false) start evs

end World

/-! ## One call of a listener -/

namespace Listener

section
variable {bigEndian : Bool} {o : AcceptOutcome} {remote : IpAddress} {addr : Sockaddr} {fd : Fd}
  {l : Listener} {k : IpAddress.Key}

theorem fdsAt_eq : l.fdsAt k = l.sessions.totalAt (fun s => {s.fd}) k := by
  cases hfind : l.sessions.find k with
  | none => rw [fdsAt, OwnerMap.totalAt, hfind]
  | some found =>
      obtain ⟨p, s⟩ := found
      rw [fdsAt, hfind, OwnerMap.totalAt_of_find hfind]

theorem settled_eraseSession : (l.eraseSession k).settled = l.settled := by
  have hmoved : l.fdsAt k + (l.eraseSession k).owned = l.owned := by
    rw [fdsAt_eq]
    exact OwnerMap.total_erase l.sessions
  rw [settled, settled, ← hmoved]
  show (l.eraseSession k).owned + (l.closed + l.fdsAt k) = _
  abel

theorem settled_closeAll : l.closeAll.settled = l.settled := by
  have howned : l.owned = l.sessions.heap.entries.map fun e => e.2.fd := by
    show (l.sessions.heap.entries.map fun e => ({e.2.fd} : Multiset Fd)).sum = _
    rw [← Multiset.sum_map_singleton (l.sessions.heap.entries.map fun e => e.2.fd),
      Multiset.map_map]
    rfl
  rw [settled, settled, howned]
  show 0 + (l.closed + l.sessions.heap.entries.map fun e => e.2.fd) = _
  abel

theorem settled_modify {p : Nat} {e : IoEvent} :
    settled { l with
      sessions := l.sessions.modify p (afterEvent bigEndian e) (remoteKey_afterEvent _ e) } =
      l.settled := by
  have hfd (s : SessionBase) : (afterEvent bigEndian e s).fd = s.fd := by
    unfold afterEvent
    cases h : ioStep bigEndian s e with
    | none => rfl
    | some t => exact congrArg Prod.fst (ioStep_identity h)
  have howned : (l.sessions.modify p (afterEvent bigEndian e) (remoteKey_afterEvent _ e)).total
      (fun s => ({s.fd} : Multiset Fd)) = l.owned :=
    OwnerMap.total_modify fun s => by rw [hfd]
  show _ + l.closed = l.owned + l.closed
  rw [← howned]
  rfl

/-! ### An accept -/

/-- A constructor that throws closes the descriptor if the bufferevent has it. -/
theorem inboundSession_unwound {e : Exn} {unwound : Multiset Fd}
    (h : inboundSession bigEndian o remote fd = (.error e, unwound)) :
    unwound = if o.sslNew && o.bufferevent then {fd} else 0 := by
  unfold inboundSession newSsl at h
  cases hssl : o.sslNew with
  | false =>
      simp only [hssl, Bool.false_eq_true, if_false] at h
      cases h
      rfl
  | true =>
      simp only [hssl, if_true] at h
      cases hbev : o.bufferevent with
      | false =>
          simp only [hbev, Bool.not_false, if_true] at h
          cases h
          rfl
      | true =>
          simp only [hbev, Bool.not_true, Bool.false_eq_true, if_false] at h
          split at h
          · cases h
            rfl
          split at h
          · cases h
            rfl
          split at h
          · cases h
            rfl
          · cases h

theorem inboundSession_bufferevent {s : SessionBase} {unwound : Multiset Fd}
    (h : inboundSession bigEndian o remote fd = (.ok s, unwound)) :
    (o.sslNew && o.bufferevent) = true := by
  unfold inboundSession newSsl at h
  cases hssl : o.sslNew with
  | false =>
      simp only [hssl, Bool.false_eq_true, if_false] at h
      cases h
  | true =>
      cases hbev : o.bufferevent with
      | false =>
          simp only [hssl, hbev, Bool.not_false, if_true] at h
          cases h
      | true => rfl

theorem settled_createInboundSession (hmem : remote.key ∉ l.sessions.ptrs) :
    (l.createInboundSession bigEndian o remote fd).2.settled =
      l.settled + if o.sslNew && o.bufferevent then {fd} else 0 := by
  rw [createInboundSession, if_neg hmem]
  dsimp only
  split
  · next e unwound h =>
    -- the placeholder owns nothing
    rw [← inboundSession_unwound h]
    show (l.sessions.emplaceNull remote.key).total _ + (l.closed + unwound) = _
    rw [OwnerMap.total_emplaceNull, ← add_assoc]
    rfl
  · next s unwound h =>
    obtain ⟨hfd, hremote⟩ := inboundSession_returned h
    rw [if_pos (inboundSession_bufferevent h)]
    have hnone : (l.sessions.emplaceNull remote.key).totalAt (fun s => ({s.fd} : Multiset Fd))
        (remoteKey s) = 0 := by
      rw [OwnerMap.totalAt_emplaceNull, remoteKey, hremote]
      exact OwnerMap.totalAt_of_notMem hmem
    show ((l.sessions.emplaceNull remote.key).assign s).total _ + l.closed = _
    rw [OwnerMap.total_assign hnone, OwnerMap.total_emplaceNull, hfd, settled, owned]
    abel

/-- The books of a listener, after `accept_cb`. -/
theorem settled_acceptCb :
    (l.acceptCb bigEndian o addr fd).2.settled + (if l.strands bigEndian o addr then {fd} else 0) =
      l.settled + {fd} := by
  cases hremote : IpAddress.ofSockaddr bigEndian addr with
  | error e => simp [acceptCb, strands, hremote]
  | ok remote =>
      by_cases hmem : remote.key ∈ l.sessions.ptrs
      · simp [acceptCb, strands, hremote, createInboundSession, hmem, settled_eraseSession]
      · have hcreated : (l.createInboundSession bigEndian o remote fd).2.settled =
            l.settled + if o.sslNew && o.bufferevent then {fd} else 0 :=
          settled_createInboundSession hmem
        simp only [acceptCb, strands, hremote, hmem, decide_false, Bool.false_or]
        rw [hcreated]
        cases o.sslNew && o.bufferevent <;> simp

end

end Listener

/-! ## One event -/

namespace World

section
variable {bigEndian : Bool} {w w' : World} {e : WorldEvent} {l l' : Listener}

/-- Without a listener nothing happens any more. -/
theorem step_gone (hgone : w.listener = none) : w.step bigEndian e = none := by
  rcases hstep : w.step bigEndian e with _ | w'
  · rfl
  exfalso
  cases stepped hstep with
  | accept hl | session hl | listenerError hl | closeAll hl | runCloseSession _ hl
  | runCloseListener _ hl => cases hgone.symm.trans hl

/-- A step moves descriptors between the places, and brings the accepted one. -/
theorem step_settled (hl : w.listener = some l) (h : w.step bigEndian e = some w')
    (hl' : w'.listener = some l') :
    l'.settled + (if w.strands bigEndian e then e.accepted else 0) = l.settled + e.accepted := by
  have hquiet {l₁ : Listener} (hl₁ : w.listener = some l₁) (hsettled : l'.settled = l₁.settled)
      (hno : e.accepted = 0) :
      l'.settled + (if w.strands bigEndian e then e.accepted else 0) =
        l.settled + e.accepted := by
    obtain rfl := Option.some.inj (hl.symm.trans hl₁)
    rw [hno, ite_self, hsettled]
  cases stepped h with
  | @accept addr fd o l₁ hl₁ =>
      obtain rfl := Option.some.inj (hl.symm.trans hl₁)
      obtain rfl := Option.some.inj hl'
      rw [strands, hl]
      exact Listener.settled_acceptCb
  | session hl₁ hfind =>
      obtain rfl := Option.some.inj hl'
      exact hquiet hl₁ Listener.settled_modify rfl
  | listenerError hl₁ =>
      obtain rfl := Option.some.inj (hl.symm.trans hl')
      exact hquiet hl rfl rfl
  | closeAll hl₁ =>
      obtain rfl := Option.some.inj hl'
      exact hquiet hl₁ Listener.settled_closeAll rfl
  | runCloseSession hjobs hl₁ hs =>
      obtain rfl := Option.some.inj hl'
      exact hquiet hl₁ Listener.settled_eraseSession rfl
  | runCloseListener hjobs hl₁ =>
      unfold closeListener at hl'
      split at hl'
      · cases hl'
      · obtain rfl := Option.some.inj (hl.symm.trans hl')
        exact hquiet hl rfl rfl

/-- It is a job that destroys the listener. -/
theorem step_destroys (hl : w.listener = some l) (h : w.step bigEndian e = some w')
    (hgone : w'.listener = none) : e = .runJob := by
  cases stepped h with
  | accept | session | closeAll | runCloseSession => cases hgone
  | listenerError => cases hl.symm.trans hgone
  | runCloseListener => rfl

/-! ## Runs -/

/-- An accept brings a descriptor; nothing else strands one. -/
theorem strands_iff : (if w.strands bigEndian e then e.accepted else 0) = 0 ↔
    w.strands bigEndian e = false := by
  cases e with
  | accept addr fd o =>
      cases w.strands bigEndian (.accept addr fd o) with
      | false => exact iff_of_true rfl rfl
      | true => exact iff_of_false (Multiset.singleton_ne_zero fd) (by decide)
  | session | listenerError | closeAll | runJob => exact iff_of_true rfl rfl

theorem places_run {evs : List WorldEvent} (hl : w.listener = some l)
    (h : run (step bigEndian) w evs = some w') (hl' : w'.listener = some l') :
    l.settled + accepted evs = l'.settled + stranded bigEndian w evs := by
  have hback (w : World) (e : WorldEvent) (t : World) (ht : w.step bigEndian e = some t)
      (_ : t.listener.isSome) : w.listener.isSome := by
    rcases hw : w.listener with _ | l
    · cases (step_gone hw).symm.trans ht
    · rfl
  have hstep (w : World) (e : WorldEvent) (t : World) (ht : w.step bigEndian e = some t)
      (hsome : t.listener.isSome) :
      t.listener.elim 0 Listener.settled + (if w.strands bigEndian e then e.accepted else 0) =
        w.listener.elim 0 Listener.settled + e.accepted := by
    obtain ⟨lt, hlt⟩ := Option.isSome_iff_exists.mp hsome
    obtain ⟨lw, hlw⟩ := Option.isSome_iff_exists.mp (hback w e t ht hsome)
    rw [hlt, hlw]
    exact step_settled hlw ht hlt
  obtain ⟨-, hbooks⟩ := balance_run hback hstep h (by rw [hl']; rfl)
  rw [hl, hl', totalAlong_of_run h] at hbooks
  exact hbooks.symm

theorem stranded_eq_zero_iff (evs : List WorldEvent) :
    stranded bigEndian w evs = 0 ↔
      Along (step bigEndian) (fun w e _ => w.strands bigEndian e = false) w evs := by
  rw [stranded, totalAlong_eq_zero_iff]
  exact along_congr (fun _ _ _ _ => strands_iff) w evs

/-- A run without a listener has ended with the job that destroyed it. -/
theorem gone_run {evs : List WorldEvent} (hl : w.listener = some l)
    (h : run (step bigEndian) w evs = some w') (hgone : w'.listener = none) :
    ∃ before t l', evs = before ++ [.runJob] ∧ run (step bigEndian) w before = some t ∧
      t.listener = some l' ∧
      l.settled + accepted evs = l'.settled + stranded bigEndian w evs := by
  rcases List.eq_nil_or_concat evs with rfl | ⟨before, e, rfl⟩
  · obtain rfl := Option.some.inj h
    cases hl.symm.trans hgone
  rw [List.concat_eq_append] at h ⊢
  obtain ⟨t, ht, hlast⟩ := run_append.mp h
  obtain ⟨last, hstep, hend⟩ := run_cons_some.mp hlast
  obtain rfl := Option.some.inj hend
  rcases hlt : t.listener with _ | l'
  · cases (step_gone hlt).symm.trans hstep
  obtain rfl := step_destroys hlt hstep hgone
  refine ⟨before, t, l', rfl, ht, hlt, ?_⟩
  -- the job itself brings no descriptor and strands none
  have haccepted : accepted (before ++ [.runJob]) = accepted before := by
    rw [accepted, List.map_append, List.sum_append]
    exact add_zero _
  have hstranded : stranded bigEndian w (before ++ [.runJob]) = stranded bigEndian w before := by
    rw [stranded, totalAlong_append ht, totalAlong_cons hstep]
    exact add_zero _
  rw [haccepted, hstranded]
  exact places_run hl ht hlt

end

/-- **Every accepted descriptor is owned by a session, closed, or stranded.**  After every run
of a listener from its registration. -/
theorem descriptors_accounted {bigEndian : Bool} {port : UInt16} {localAddr : IpAddress} {fd : Fd}
    {evs : List WorldEvent} {w : World}
    (hrun : run (step bigEndian) (registered port localAddr fd) evs = some w) :
    BooksBalance bigEndian (registered port localAddr fd) evs w := by
  have hempty : (⟨localAddr, fd, .empty, 0⟩ : Listener).settled = 0 := rfl
  refine ⟨fun l hl => ?_, fun hgone => ?_, stranded_eq_zero_iff evs⟩
  · have hbooks := places_run rfl hrun hl
    rw [hempty, zero_add] at hbooks
    exact hbooks
  · obtain ⟨before, t, l, hevs, ht, hl, hbooks⟩ := gone_run rfl hrun hgone
    rw [hempty, zero_add] at hbooks
    exact ⟨before, t, l, hevs, ht, hl, hbooks⟩

/-- Two connections from one address, a third from another, and the end of the listener: 7 is
closed by the second accept, whose own 8 is stranded, and 9 goes with the listener. -/
def threeAccepts : List WorldEvent :=
  [.accept (.inet 0x0100007f 0x1234) 7 .succeeds, .accept (.inet 0x0100007f 0x1234) 8 .succeeds,
    .accept (.inet 0x0200007f 0x1234) 9 .succeeds, .listenerError, .runJob]

theorem descriptors_accounted_threeAccepts : ∃ w,
    run (step false) (registered 5544 (.ofPort 5544) 3) threeAccepts = some w ∧
      w.listener = none ∧ stranded false (registered 5544 (.ofPort 5544) 3) threeAccepts = {8} ∧
      BooksBalance false (registered 5544 (.ofPort 5544) 3) threeAccepts w :=
  ⟨_, rfl, rfl, by decide, descriptors_accounted rfl⟩

end World

end Wshttp
