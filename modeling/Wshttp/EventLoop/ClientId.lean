/-
# `Wshttp.EventLoop.ClientId` — the ids under which tickers are registered

An endpoint takes its `client_id` from a static counter of 16 bits, `++next_client_id`,
and registers its tickers on its loop under that id; what belongs to the loop itself is
registered under `loop_id`, which is zero.  `~endpoint` calls `stop_tickers(client_id)`.

This machine puts two earlier ones together: who owns loops and endpoints
(`Wshttp.EventLoop.StopThread`), and the registry of each loop
(`Wshttp.EventLoop.Tickers`).

| source                                              | event          |
| :-------------------------------------------------- | :------------- |
| endpoints and loops are made, shared and dropped    | `owners`       |
| a constructor throws after it has taken its id      | `makeFails`    |
| `endpoint::call_every`                              | `callEvery`    |
| what else happens to the tickers of a loop          | `onLoop`       |

A constructor takes its id before its body reads the certificate, which may throw.

**Proved here.**  The ids of the endpoints alive differ from each other and from
`loop_id`, and no destructor touches a watcher of the loop or of another of them, exactly
as long as the counter does not come round to zero, or to the id of an endpoint alive, when
an endpoint is made (`client_ids_distinct_iff`).  After 65535 endpoints have come and gone
it does (`loop_id_given_out`).
-/
import Wshttp.EventLoop.StopThread
import Wshttp.EventLoop.Tickers

namespace Wshttp.EventLoop

open Machine

/-! ## Which events of a registry are whose -/

namespace TickersEvent

variable {Task : Type}

/-- The id of the watcher an event makes, if it makes one. -/
def makesFor : TickersEvent Task → Option CallerId
  | .callEvery id _ _ _ _ _ => some id
  | .callLater _ _ _ => some loopId
  | _ => none

/-- Code of the loop, or of somebody who has a `shared_ptr` to a watcher, does this. -/
def isLoops : TickersEvent Task → Bool
  | .callEvery id _ _ _ _ _ => id == loopId
  | .stopTickers _ => false
  | _ => true

end TickersEvent

namespace Tickers

variable {Task : Type} {s s' : Tickers Task} {e : TickersEvent Task} {p : Nat}

theorem next_of_makesFor_none (hquiet : e.makesFor = none) (h : s.step e = some s') :
    s'.next = s.next := by
  cases e with
  | callEvery | callLater => cases hquiet
  | stopTickers id =>
      obtain rfl := Option.some.inj h
      exact next_silenceAll _
  | sweep =>
      obtain rfl := Option.some.inj h
      rfl
  | share | release | start | stop =>
      obtain ⟨t, -, -, rfl⟩ := of_owned h
      rfl
  | delete =>
      simp only [step] at h
      split at h
      case h_2 => cases h
      obtain rfl := Option.some.inj h
      rfl
  | expire p now done =>
      simp only [step] at h
      split at h
      case h_2 => cases h
      split at h
      case isFalse => cases h
      obtain rfl := Option.some.inj h
      rfl

/-- The loop of `stop_tickers` gives no watcher another id. -/
theorem silenceAll_id (l : List Nat) {t' : Ticker Task}
    (ht' : (l.foldl (fun s p => s.modify p Ticker.silence) s).heap p = some t') :
    ∃ t, s.heap p = some t ∧ t'.id = t.id := by
  induction l generalizing s with
  | nil => exact ⟨t', ht', rfl⟩
  | cons q rest ih =>
      obtain ⟨t, ht, hid⟩ := ih ht'
      rcases eq_or_ne p q with rfl | hne
      · rw [heap_modify_self] at ht
        obtain ⟨u, hu, hsilence⟩ := Option.bind_eq_some_iff.mp ht
        exact ⟨u, hu, hid.trans (Ticker.tame_silence hsilence).id⟩
      · rw [heap_modify_ne hne] at ht
        exact ⟨t, ht, hid⟩

theorem id_of_quiet (hquiet : e.makesFor = none) (h : s.step e = some s') {t' : Ticker Task}
    (ht' : s'.heap p = some t') : ∃ t, s.heap p = some t ∧ t'.id = t.id := by
  cases stepped h with
  | makes _ _ => exact absurd (next_of_makesFor_none hquiet h) (Nat.succ_ne_self _)
  | @modifies _ q g deletions hg =>
      change (s.modify q g).heap p = some t' at ht'
      rcases eq_or_ne p q with rfl | hne
      · rw [heap_modify_self] at ht'
        obtain ⟨t, ht, hgt⟩ := Option.bind_eq_some_iff.mp ht'
        exact ⟨t, ht, (hg t t' ht hgt).id⟩
      · rw [heap_modify_ne hne] at ht'
        exact ⟨t', ht', rfl⟩
  | sweeps => exact ⟨t', ht', rfl⟩
  | stops => exact silenceAll_id _ ht'

theorem id_of_added {t t' : Ticker Task} (ht' : (s.clearOldTickers.add t).heap p = some t') :
    (p = s.next ∧ t'.id = t.id) ∨ ∃ u, s.heap p = some u ∧ t'.id = u.id := by
  change Function.update s.heap s.next (some t) p = some t' at ht'
  rcases eq_or_ne p s.next with rfl | hne
  · rw [Function.update_self] at ht'
    exact .inl ⟨rfl, congrArg Ticker.id (Option.some.inj ht').symm⟩
  · rw [Function.update_of_ne hne] at ht'
    exact .inr ⟨t', ht', rfl⟩

/-- A watcher after a step has just been made, or had the same id before. -/
theorem id_step (h : s.step e = some s') {t' : Ticker Task} (ht' : s'.heap p = some t') :
    (p = s.next ∧ e.makesFor = some t'.id) ∨ ∃ t, s.heap p = some t ∧ t'.id = t.id := by
  cases e with
  | callEvery id now interval f startImmediately wait =>
      obtain rfl := Option.some.inj h
      rw [modify_add { id } rfl] at ht'
      exact (id_of_added ht').imp_left fun hnew => ⟨hnew.1, congrArg some hnew.2.symm⟩
  | callLater now delay hook =>
      obtain rfl := Option.some.inj h
      rw [modify_add { id := loopId } rfl] at ht'
      exact (id_of_added ht').imp_left fun hnew => ⟨hnew.1, congrArg some hnew.2.symm⟩
  | share | release | delete | sweep | stopTickers | start | stop | expire =>
      exact .inr (id_of_quiet rfl h ht')

end Tickers

/-! ## Endpoints, their ids, and the registries of their loops -/

namespace OwnersEvent

/-- An endpoint is constructed. -/
def makesEndpoint : OwnersEvent → Bool
  | .makeEndpoint _ | .makeEndpointOn _ _ => true
  | _ => false

end OwnersEvent

namespace Owners

/-- The endpoint is constructed, and its destructor has not begun. -/
def Alive (s : Owners) (e : Nat) : Prop := ∃ ep, s.endpoints e = some ep ∧ ep.destroying = none

/-- The endpoint whose destructor an event runs. -/
def destroys (s : Owners) : OwnersEvent → Option Nat
  | .dropEndpoint t e =>
      (s.endpoints e).bind fun ep => if ep.refs = 1 ∧ t = .loop ep.loop then some e else none
  | .runDeletion l => (s.deletions l).head?
  | _ => none

section
variable {s s' u : Owners} {event : OwnersEvent} {t : Thread} {l e : Nat} {o : Owner}
  {ep : EndpointRefs}

/-- The endpoints, and what waits to be destroyed, are the same. -/
structure SameEndpoints (s s' : Owners) : Prop where
  endpoints : s'.endpoints = s.endpoints
  deletions : s'.deletions = s.deletions
  next : s'.nextEndpoint = s.nextEndpoint

theorem sameEndpoints_stopThread : SameEndpoints s (s.stopThread t l) := by
  unfold stopThread
  split
  · exact ⟨rfl, rfl, rfl⟩
  split
  · exact ⟨rfl, rfl, rfl⟩
  · exact ⟨rfl, rfl, rfl⟩

theorem sameEndpoints_dropLoopRef : SameEndpoints s (s.dropLoopRef t o l) := by
  unfold dropLoopRef
  dsimp only
  split
  · obtain ⟨hendpoints, hdeletions, hnext⟩ := sameEndpoints_stopThread (t := t) (l := l)
      (s := { s with owners := Function.update s.owners l ((s.owners l).erase o) })
    exact ⟨hendpoints, hdeletions, hnext⟩
  · exact ⟨rfl, rfl, rfl⟩

/-- A destructor writes the one record. -/
theorem sameEndpoints_destroyEndpoint :
    SameEndpoints
      { s with
        endpoints :=
          Function.update s.endpoints e (some { ep with refs := 0, destroying := some t }) }
      (s.destroyEndpoint t e ep) := by
  unfold destroyEndpoint
  dsimp only
  split
  · exact sameEndpoints_stopThread
  · exact ⟨rfl, rfl, rfl⟩

/-- There is a reference to copy, or to drop. -/
theorem refs_pos (h : s.step event = some s') (he : s.endpoints e = some ep)
    (hevent : event = .copyEndpoint t e ∨ event = .dropEndpoint t e) : 0 < ep.refs := by
  unfold step at h
  split at h
  · cases h
  rcases hevent with rfl | rfl
  · simp only [he] at h
    split at h
    · next hok => exact hok.2
    · cases h
  · simp only [he] at h
    split at h
    · next hok => exact hok.2
    · cases h

/-! ## An endpoint is destroyed once -/

/-- Nobody has an endpoint any more that waits for its destructor or is in it, and it waits
once. -/
structure Once (s : Owners) : Prop where
  dying : ∀ e ep t, s.endpoints e = some ep → ep.destroying = some t → ep.refs = 0
  waiting : ∀ l e ep, e ∈ s.deletions l → s.endpoints e = some ep →
    ep.refs = 0 ∧ ep.destroying = none
  nodup : ∀ l, (s.deletions l).Nodup

theorem Once.congr (hs : s.Once) (hsame : SameEndpoints s s') : s'.Once := by
  refine ⟨?_, ?_, ?_⟩
  · rw [hsame.endpoints]
    exact hs.dying
  · rw [hsame.endpoints, hsame.deletions]
    exact hs.waiting
  · rw [hsame.deletions]
    exact hs.nodup

theorem Once.destroying_eq_none (hs : s.Once) (he : s.endpoints e = some ep)
    (hrefs : ep.refs ≠ 0) : ep.destroying = none :=
  Option.eq_none_iff_forall_ne_some.mpr fun t ht => hrefs (hs.dying e ep t he ht)

theorem Once.notQueued (hs : s.Once) (he : s.endpoints e = some ep) (hrefs : ep.refs ≠ 0)
    (l : Nat) : e ∉ s.deletions l := fun hmem => hrefs (hs.waiting l e ep hmem he).1

/-- The record of an endpoint that does not wait is written. -/
theorem Once.setEndpoint (hs : s.Once) (hq : ∀ l, e ∉ s.deletions l) (ep' : EndpointRefs)
    (hdying : ∀ t, ep'.destroying = some t → ep'.refs = 0) :
    Once { s with endpoints := Function.update s.endpoints e (some ep') } := by
  refine ⟨fun k epk t hk ht => ?_, fun l k epk hmem hk => ?_, hs.nodup⟩
  · rcases endpoints_update hk with ⟨-, rfl⟩ | hold
    · exact hdying t ht
    · exact hs.dying k epk t hold ht
  · rcases endpoints_update hk with ⟨rfl, -⟩ | hold
    · exact absurd hmem (hq l)
    · exact hs.waiting l k epk hmem hold

theorem Once.destroyEndpoint (hs : s.Once) (hq : ∀ l, e ∉ s.deletions l) :
    (s.destroyEndpoint t e ep).Once :=
  (hs.setEndpoint hq { ep with refs := 0, destroying := some t } fun _ _ => rfl).congr
    sameEndpoints_destroyEndpoint

theorem Once.setDeletions (hs : s.Once) {q : List Nat} (hnodup : q.Nodup)
    (hq : ∀ e ∈ q, ∀ ep, s.endpoints e = some ep → ep.refs = 0 ∧ ep.destroying = none) :
    Once { s with deletions := Function.update s.deletions l q } := by
  refine ⟨hs.dying, fun m k epk hmem hk => ?_, fun m => ?_⟩
  · change k ∈ Function.update s.deletions l q m at hmem
    rcases eq_or_ne m l with rfl | hne
    · rw [Function.update_self] at hmem
      exact hq k hmem epk hk
    · rw [Function.update_of_ne hne] at hmem
      exact hs.waiting m k epk hmem hk
  · show (Function.update s.deletions l q m).Nodup
    rcases eq_or_ne m l with rfl | hne
    · rw [Function.update_self]
      exact hnodup
    · rw [Function.update_of_ne hne]
      exact hs.nodup m

theorem Once.deleteEndpoint (hs : s.Once) (he : s.endpoints e = some ep) (hrefs : ep.refs ≠ 0) :
    (s.deleteEndpoint t e ep).Once := by
  have hq := hs.notQueued he hrefs
  unfold Owners.deleteEndpoint
  split
  · exact hs.destroyEndpoint hq
  have hnone := hs.destroying_eq_none he hrefs
  have hset : Once { s with
      endpoints := Function.update s.endpoints e (some { ep with refs := 0 }) } :=
    hs.setEndpoint hq _ fun _ _ => rfl
  refine hset.setDeletions ?_ fun k hk epk hepk => ?_
  · have hsingle : [e].Nodup := List.nodup_cons.mpr ⟨List.not_mem_nil, List.nodup_nil⟩
    refine List.nodup_append.mpr ⟨hs.nodup ep.loop, hsingle, ?_⟩
    rintro k hold m hnew rfl
    exact hq ep.loop (List.mem_singleton.mp hnew ▸ hold)
  · rcases List.mem_append.mp hk with hold | hnew
    · exact hset.waiting ep.loop k epk hold hepk
    · obtain rfl := List.mem_singleton.mp hnew
      change Function.update s.endpoints k (some { ep with refs := 0 }) k = some epk at hepk
      rw [Function.update_self] at hepk
      rw [← Option.some.inj hepk]
      exact ⟨rfl, hnone⟩

/-- The job of `loop_deleter` at the front of the queue is no longer in any. -/
theorem Once.runDeletion (hs : s.Once) (hinv : s.Inv) {rest : List Nat}
    (hqueue : s.deletions l = e :: rest) (he : s.endpoints e = some ep) :
    Once ({ s with deletions := Function.update s.deletions l rest }.destroyEndpoint t e ep) := by
  have hmem := mem_of_front hqueue
  have hnodup := hs.nodup l
  rw [hqueue] at hnodup
  have hrest : Once { s with deletions := Function.update s.deletions l rest } := by
    refine hs.setDeletions (List.nodup_cons.mp hnodup).2 fun k hk epk hepk => ?_
    exact hs.waiting l k epk (by rw [hqueue]; exact List.mem_cons_of_mem _ hk) hepk
  refine hrest.destroyEndpoint fun m hm => ?_
  change e ∈ Function.update s.deletions l rest m at hm
  rcases eq_or_ne m l with rfl | hne
  · rw [Function.update_self] at hm
    exact (List.nodup_cons.mp hnodup).1 hm
  · -- an endpoint is queued on its own loop
    rw [Function.update_of_ne hne] at hm
    exact hne (((hinv.queued m e hm).2 ep he).symm.trans ((hinv.queued l e hmem).2 ep he))

theorem Once.addEndpoint (hs : s.Once) (hinv : s.Inv) (l : Nat) : (s.addEndpoint l).Once := by
  have hset : Once { s with
      endpoints := Function.update s.endpoints s.nextEndpoint (some { loop := l }) } := by
    refine hs.setEndpoint (fun m hm => ?_) _ fun t ht => (nomatch ht)
    exact Nat.lt_irrefl _ (hinv.queued m _ hm).1
  exact ⟨hset.dying, hset.waiting, hset.nodup⟩

theorem Once.removeEndpoint (hs : s.Once) (e : Nat) :
    Once { s with endpoints := Function.update s.endpoints e none } :=
  ⟨fun k epk t hk => hs.dying k epk t (endpoints_remove hk),
    fun l k epk hmem hk => hs.waiting l k epk hmem (endpoints_remove hk), hs.nodup⟩

theorem Once.step (hs : s.Once) (hinv : s.Inv) (h : s.step event = some s') : s'.Once := by
  cases stepped h with
  | makeLoop | copyLoop _ => exact hs.congr ⟨rfl, rfl, rfl⟩
  | makeEndpoint =>
      have hadd : Once (s.addLoop (.endpoint s.nextEndpoint)) := hs.congr ⟨rfl, rfl, rfl⟩
      exact hadd.addEndpoint (hinv.addLoop _) _
  | @makeEndpointOn _ l ho =>
      have hadd : Once (s.addOwner (.endpoint s.nextEndpoint) l) := hs.congr ⟨rfl, rfl, rfl⟩
      exact hadd.addEndpoint (hinv.addOwner ho _) _
  | dropLoop _ => exact hs.congr sameEndpoints_dropLoopRef
  | copyEndpoint he =>
      have hrefs := Nat.ne_of_gt (refs_pos h he (.inl rfl))
      refine hs.setEndpoint (hs.notQueued he hrefs) _ fun t ht => ?_
      exact absurd (hs.dying _ _ t he ht) hrefs
  | dropEndpoint he _ =>
      have hrefs := Nat.ne_of_gt (refs_pos h he (.inr rfl))
      refine hs.setEndpoint (hs.notQueued he hrefs) _ fun t ht => ?_
      exact absurd (hs.dying _ _ t he ht) hrefs
  | deleteEndpoint he hlast =>
      exact hs.deleteEndpoint he (by rw [hlast]; exact Nat.one_ne_zero)
  | runDeletion hqueue he => exact hs.runDeletion hinv hqueue he
  | @releaseLoop _ e ep _ _ =>
      exact (hs.removeEndpoint e).congr sameEndpoints_dropLoopRef

theorem once_new : new.Once where
  dying := fun _ _ _ he => (nomatch he)
  waiting := fun _ _ _ hmem => (nomatch hmem)
  nodup := fun _ => List.nodup_nil

/-- An endpoint is alive until its destructor is run. -/
theorem alive_of_destroys (hs : s.Once) (h : s.step event = some s')
    (hdestroys : s.destroys event = some e) : s.Alive e := by
  cases event with
  | dropEndpoint t k =>
      obtain ⟨ep, he, hif⟩ := Option.bind_eq_some_iff.mp hdestroys
      split at hif
      case isFalse => cases hif
      next hlast =>
      obtain rfl := Option.some.inj hif
      exact ⟨ep, he, hs.destroying_eq_none he (by rw [hlast.1]; exact Nat.one_ne_zero)⟩
  | runDeletion l =>
      cases stepped h with
      | @runDeletion _ k rest ep hqueue he =>
          have hmem := mem_of_front hqueue
          rw [destroys, hqueue] at hdestroys
          obtain rfl := Option.some.inj hdestroys
          exact ⟨ep, he, (hs.waiting l k ep hmem he).2⟩
  | makeLoop | makeEndpoint | makeEndpointOn | copyLoop | dropLoop | copyEndpoint | releaseLoop =>
      cases hdestroys

/-! ## Who is alive after a step -/

/-- Nobody is alive who was not. -/
structure Keeps (s s' : Owners) : Prop where
  alive : ∀ e, s'.Alive e → s.Alive e
  next : s'.nextEndpoint = s.nextEndpoint

theorem Keeps.congr (hkeeps : Keeps s u) (hsame : SameEndpoints u s') : Keeps s s' := by
  refine ⟨fun e halive => hkeeps.alive e ?_, hsame.next.trans hkeeps.next⟩
  rw [Alive, hsame.endpoints] at halive
  exact halive

theorem SameEndpoints.keeps (hsame : SameEndpoints s s') : Keeps s s' :=
  Keeps.congr ⟨fun _ halive => halive, rfl⟩ hsame

/-- A record is written, but nobody's destructor undone. -/
theorem keeps_setEndpoint (he : s.endpoints e = some ep) (ep' : EndpointRefs)
    (hdying : ep'.destroying = none → ep.destroying = none) :
    Keeps s { s with endpoints := Function.update s.endpoints e (some ep') } := by
  refine ⟨fun k halive => ?_, rfl⟩
  obtain ⟨epk, hk, hnone⟩ := halive
  rcases endpoints_update hk with ⟨rfl, rfl⟩ | hold
  · exact ⟨ep, he, hdying hnone⟩
  · exact ⟨epk, hold, hnone⟩

theorem keeps_removeEndpoint (e : Nat) :
    Keeps s { s with endpoints := Function.update s.endpoints e none } := by
  refine ⟨fun k halive => ?_, rfl⟩
  obtain ⟨epk, hk, hnone⟩ := halive
  exact ⟨epk, endpoints_remove hk, hnone⟩

theorem keeps_destroyEndpoint (he : s.endpoints e = some ep) :
    Keeps s (s.destroyEndpoint t e ep) :=
  (keeps_setEndpoint he { ep with refs := 0, destroying := some t } nofun).congr
    sameEndpoints_destroyEndpoint

theorem keeps_deleteEndpoint (he : s.endpoints e = some ep) :
    Keeps s (s.deleteEndpoint t e ep) := by
  unfold deleteEndpoint
  split
  · exact keeps_destroyEndpoint he
  · obtain ⟨halive, hnext⟩ := keeps_setEndpoint he { ep with refs := 0 } fun hnone => hnone
    exact ⟨halive, hnext⟩

theorem keeps_step (hmakes : event.makesEndpoint = false) (h : s.step event = some s') :
    Keeps s s' := by
  cases stepped h with
  | makeEndpoint | makeEndpointOn _ => cases hmakes
  | makeLoop | copyLoop _ => exact SameEndpoints.keeps ⟨rfl, rfl, rfl⟩
  | dropLoop _ => exact sameEndpoints_dropLoopRef.keeps
  | copyEndpoint he | dropEndpoint he _ => exact keeps_setEndpoint he _ fun hnone => hnone
  | deleteEndpoint he _ => exact keeps_deleteEndpoint he
  | @runDeletion l e rest ep _ he =>
      obtain ⟨halive, hnext⟩ := keeps_destroyEndpoint (t := .loop l)
        (s := { s with deletions := Function.update s.deletions l rest }) he
      exact ⟨halive, hnext⟩
  | releaseLoop _ _ => exact (keeps_removeEndpoint _).congr sameEndpoints_dropLoopRef

/-- The endpoint that is made has the next number, and is alive. -/
structure Makes (s s' : Owners) : Prop where
  alive : ∀ e, s'.Alive e ↔ e = s.nextEndpoint ∨ s.Alive e
  next : s'.nextEndpoint = s.nextEndpoint + 1

theorem Inv.lt_of_alive (hs : s.Inv) (he : s.Alive e) : e < s.nextEndpoint := by
  obtain ⟨ep, hep, -⟩ := he
  exact hs.madeEndpoint e ep hep

theorem makes_of_update
    (hendpoints : s'.endpoints = Function.update s.endpoints s.nextEndpoint (some { loop := l }))
    (hnext : s'.nextEndpoint = s.nextEndpoint + 1) : Makes s s' := by
  refine ⟨fun e => ?_, hnext⟩
  rw [Alive, hendpoints]
  rcases eq_or_ne e s.nextEndpoint with rfl | hne
  · rw [Function.update_self]
    exact iff_of_true ⟨_, rfl, rfl⟩ (.inl rfl)
  · rw [Function.update_of_ne hne]
    exact ⟨.inr, fun hor => hor.resolve_left hne⟩

theorem makes_step (hmakes : event.makesEndpoint = true) (h : s.step event = some s') :
    Makes s s' := by
  cases stepped h with
  | makeEndpoint => exact makes_of_update rfl rfl
  | makeEndpointOn _ => exact makes_of_update rfl rfl
  | makeLoop | copyLoop _ | dropLoop _ | copyEndpoint _ | dropEndpoint _ _ | deleteEndpoint _ _
  | runDeletion _ _ | releaseLoop _ _ => cases hmakes

end

end Owners

/-- `clientId e` is the `client_id` of the endpoint `e`, `loops l` the registry of the
loop `l`.  The rest is history: how many ids have been taken, how many that were with the
one of the endpoint `e`, and the endpoint that a watcher of a loop was made for, or `none`
for the loop itself. -/
structure Clients (Task : Type) where
  owners : Owners
  nextClientId : CallerId
  clientId : Nat → CallerId
  loops : Nat → Tickers Task
  taken : Nat
  number : Nat → Nat
  madeFor : Nat → Nat → Option Nat

inductive ClientsEvent (Task : Type) where
  | owners (event : OwnersEvent)
  | makeFails
  | callEvery (e : Nat) (now : Int) (interval : Int64) (f : Task) (startImmediately wait : Bool)
  | onLoop (l : Nat) (event : TickersEvent Task)

namespace Clients

variable {Task : Type}

def new : Clients Task where
  owners := .new
  nextClientId := 0
  clientId := fun _ => 0
  loops := fun _ => .new
  taken := 0
  number := fun _ => 0
  madeFor := fun _ _ => none

/-- `++next_client_id`. -/
def takeId (s : Clients Task) : Clients Task :=
  { s with nextClientId := s.nextClientId + 1, taken := s.taken + 1 }

/-- An endpoint's constructor. -/
def construct (s : Clients Task) : Clients Task :=
  { s.takeId with
    clientId := Function.update s.clientId s.owners.nextEndpoint s.takeId.nextClientId
    number := Function.update s.number s.owners.nextEndpoint s.takeId.taken }

/-- What `~endpoint` does to the registry of its loop. -/
def stopTickersOf (e : Nat) (s : Clients Task) : Clients Task :=
  match s.owners.endpoints e with
  | some ep =>
      { s with
        loops := Function.update s.loops ep.loop
          ((s.loops ep.loop).stopTickers (s.clientId e)) }
  | none => s

/-- One event of a registry, by or for `who`. -/
def stepLoop (who : Option Nat) (l : Nat) (event : TickersEvent Task) (s : Clients Task) :
    Option (Clients Task) :=
  ((s.loops l).step event).map fun loop =>
    { s with
      loops := Function.update s.loops l loop
      madeFor :=
        if event.makesFor.isSome then
          Function.update s.madeFor l (Function.update (s.madeFor l) (s.loops l).next who)
        else s.madeFor }

/-- One event.  A thread that joins itself does not come as far as `stop_tickers`, and a
loop without owners has been destroyed. -/
def step (s : Clients Task) : ClientsEvent Task → Option (Clients Task)
  | .owners event =>
      (s.owners.step event).map fun owners =>
        let s := if event.makesEndpoint then s.construct else s
        let s :=
          match s.owners.destroys event with
          | some e => if owners.terminated then s else s.stopTickersOf e
          | none => s
        { s with owners }
  | .makeFails => if s.owners.terminated then none else some s.takeId
  | .callEvery e now interval f startImmediately wait =>
      if s.owners.terminated then none
      else
        match s.owners.endpoints e with
        | some ep =>
            if ep.destroying = none then
              s.stepLoop (some e) ep.loop
                (.callEvery (s.clientId e) now interval f startImmediately wait)
            else none
        | none => none
  | .onLoop l event =>
      if s.owners.terminated = false ∧ s.owners.owners l ≠ [] ∧ event.isLoops = true then
        s.stepLoop none l event
      else none

/-! ## What is to hold, and when -/

/-- The ids of the endpoints alive differ, and none is the loop's. -/
structure Distinct (s : Clients Task) : Prop where
  ids : ∀ e e', s.owners.Alive e → s.owners.Alive e' → s.clientId e = s.clientId e' → e = e'
  loopId : ∀ e, s.owners.Alive e → s.clientId e ≠ loopId

/-- The watcher belongs to the loop, or to an endpoint alive other than this one. -/
def OfAnother (s : Clients Task) (e l p : Nat) : Prop :=
  s.madeFor l p = none ∨ ∃ e', s.madeFor l p = some e' ∧ e' ≠ e ∧ s.owners.Alive e'

/-- A destructor leaves the watchers of the loop, and of the other endpoints, as they
are. -/
def Spares (s : Clients Task) (event : ClientsEvent Task) (s' : Clients Task) : Prop :=
  ∀ ev e, event = .owners ev → s.owners.destroys ev = some e →
    ∀ l p t, (s.loops l).heap p = some t → s.OfAnother e l p → (s'.loops l).heap p = some t

/-- The constructor of an endpoint is not the 65536th or a multiple, and none that is a
multiple of 65536 earlier has made an endpoint that is still alive. -/
def Fresh (s : Clients Task) : ClientsEvent Task → Prop
  | .owners event => event.makesEndpoint = true →
      (s.taken + 1) % UInt16.size ≠ 0 ∧
        ∀ e, s.owners.Alive e → s.number e % UInt16.size ≠ (s.taken + 1) % UInt16.size
  | _ => True

/-! ## One step -/

/-- The id of the endpoint a watcher is made for, or of the loop. -/
def idOf (s : Clients Task) : Option Nat → CallerId
  | some e => s.clientId e
  | none => loopId

/-- Every watcher has the id of what it was made for, and the ids are the numbers modulo
`UInt16.size`. -/
structure Inv (s : Clients Task) : Prop where
  owners : s.owners.Inv
  once : s.owners.Once
  counter : s.nextClientId = .ofNat s.taken
  numbers : ∀ e, s.clientId e = .ofNat (s.number e)
  good : ∀ l, (s.loops l).Good
  ids : ∀ l p t, (s.loops l).heap p = some t → t.id = s.idOf (s.madeFor l p)
  made : ∀ l p t e, (s.loops l).heap p = some t → s.madeFor l p = some e →
    e < s.owners.nextEndpoint

section
variable {s s' : Clients Task} {event : ClientsEvent Task} {owners : Owners} {e l : Nat}

/-- What `step` does, with the guards that matter here. -/
inductive Stepped (s : Clients Task) : ClientsEvent Task → Clients Task → Prop
  | makes {event : OwnersEvent} {owners : Owners} :
      event.makesEndpoint = true → s.owners.step event = some owners →
      Stepped s (.owners event) { s.construct with owners }
  | destroys {event : OwnersEvent} {owners : Owners} {e : Nat} :
      event.makesEndpoint = false → s.owners.step event = some owners →
      s.owners.destroys event = some e →
      Stepped s (.owners event) { s.stopTickersOf e with owners }
  | keeps {event : OwnersEvent} {owners : Owners} :
      event.makesEndpoint = false → s.owners.step event = some owners →
      Stepped s (.owners event) { s with owners }
  | makeFails : Stepped s .makeFails s.takeId
  | callEvery {s' : Clients Task} {e l : Nat} {now : Int} {interval : Int64} {f : Task}
      {startImmediately wait : Bool} :
      s.owners.Alive e →
      s.stepLoop (some e) l (.callEvery (s.clientId e) now interval f startImmediately wait)
        = some s' →
      Stepped s (.callEvery e now interval f startImmediately wait) s'
  | onLoop {s' : Clients Task} {l : Nat} {event : TickersEvent Task} :
      event.isLoops = true → s.stepLoop none l event = some s' → Stepped s (.onLoop l event) s'

theorem destroys_of_makesEndpoint {s : Owners} {event : OwnersEvent}
    (hmakes : event.makesEndpoint = true) : s.destroys event = none := by
  cases event with
  | makeEndpoint | makeEndpointOn => rfl
  | makeLoop | copyLoop | dropLoop | copyEndpoint | dropEndpoint | runDeletion | releaseLoop =>
      cases hmakes

theorem stepped (h : s.step event = some s') : Stepped s event s' := by
  cases event with
  | owners event =>
      obtain ⟨owners, howners, rfl⟩ := Option.map_eq_some_iff.mp h
      cases hmakes : event.makesEndpoint with
      | true =>
          simp only [if_true, destroys_of_makesEndpoint hmakes]
          exact .makes hmakes howners
      | false =>
          simp only [Bool.false_eq_true, if_false]
          cases hdestroys : s.owners.destroys event with
          | none => exact .keeps hmakes howners
          | some e =>
              cases owners.terminated with
              | true => exact .keeps hmakes howners
              | false => exact .destroys hmakes howners hdestroys
  | makeFails =>
      simp only [step] at h
      split at h
      · cases h
      · exact Option.some.inj h ▸ .makeFails
  | callEvery e now interval f startImmediately wait =>
      simp only [step] at h
      split at h
      · cases h
      split at h
      case h_2 => cases h
      next ep he =>
      split at h
      · next hnone => exact .callEvery ⟨ep, he, hnone⟩ h
      · cases h
  | onLoop l event =>
      simp only [step] at h
      split at h
      · next hok => exact .onLoop hok.2.2 h
      · cases h

/-! ## The invariant, operation by operation -/

theorem Inv.setOwners (hs : s.Inv) (howners : owners.Inv) (honce : owners.Once)
    (hnext : s.owners.nextEndpoint ≤ owners.nextEndpoint) : Inv { s with owners } :=
  ⟨howners, honce, hs.counter, hs.numbers, hs.good, hs.ids, fun l p t e ht he =>
    Nat.lt_of_lt_of_le (hs.made l p t e ht he) hnext⟩

theorem Inv.takeId (hs : s.Inv) : s.takeId.Inv := by
  refine ⟨hs.owners, hs.once, ?_, hs.numbers, hs.good, hs.ids, hs.made⟩
  show s.nextClientId + 1 = .ofNat (s.taken + 1)
  rw [hs.counter, UInt16.ofNat_add]
  rfl

theorem Inv.construct (hs : s.Inv) : s.construct.Inv := by
  refine ⟨hs.owners, hs.once, hs.takeId.counter, fun e => ?_, hs.good, fun l p t ht => ?_, hs.made⟩
  · show Function.update s.clientId s.owners.nextEndpoint s.takeId.nextClientId e
      = .ofNat (Function.update s.number s.owners.nextEndpoint s.takeId.taken e)
    rcases eq_or_ne e s.owners.nextEndpoint with rfl | hne
    · rw [Function.update_self, Function.update_self]
      exact hs.takeId.counter
    · rw [Function.update_of_ne hne, Function.update_of_ne hne]
      exact hs.numbers e
  rw [hs.ids l p t ht]
  show _ = s.construct.idOf (s.madeFor l p)
  cases hfor : s.madeFor l p with
  | none => rfl
  | some e =>
      -- no watcher has been made for the endpoint that is made
      have hne := Nat.ne_of_lt (hs.made l p t e ht hfor)
      exact (Function.update_of_ne hne ..).symm

theorem Inv.stopTickersOf (hs : s.Inv) (e : Nat) : (s.stopTickersOf e).Inv := by
  unfold Clients.stopTickersOf
  split
  case h_2 => exact hs
  next ep he =>
  have hback (l p : Nat) (t' : Ticker Task)
      (ht' : (Function.update s.loops ep.loop
        ((s.loops ep.loop).stopTickers (s.clientId e)) l).heap p = some t') :
      ∃ t, (s.loops l).heap p = some t ∧ t'.id = t.id := by
    rcases eq_or_ne l ep.loop with rfl | hne
    · rw [Function.update_self] at ht'
      exact Tickers.silenceAll_id _ ht'
    · rw [Function.update_of_ne hne] at ht'
      exact ⟨t', ht', rfl⟩
  refine ⟨hs.owners, hs.once, hs.counter, hs.numbers, fun l => ?_, fun l p t' ht' => ?_,
    fun l p t' k ht' hk => ?_⟩
  · show (Function.update s.loops ep.loop
      ((s.loops ep.loop).stopTickers (s.clientId e)) l).Good
    rcases eq_or_ne l ep.loop with rfl | hne
    · rw [Function.update_self]
      exact (hs.good ep.loop).step (e := .stopTickers (s.clientId e)) rfl
    · rw [Function.update_of_ne hne]
      exact hs.good l
  · obtain ⟨t, ht, hid⟩ := hback l p t' ht'
    exact hid.trans (hs.ids l p t ht)
  · obtain ⟨t, ht, -⟩ := hback l p t' ht'
    exact hs.made l p t k ht hk

theorem loops_stepLoop {who : Option Nat} {event : TickersEvent Task}
    (h : s.stepLoop who l event = some s') :
    s'.owners = s.owners ∧ s'.clientId = s.clientId := by
  obtain ⟨loop, -, rfl⟩ := Option.map_eq_some_iff.mp h
  exact ⟨rfl, rfl⟩

/-- A watcher after an event of its loop was made in it, for who made it, or was there
before, for the same. -/
theorem Inv.watcher_stepLoop (hs : s.Inv) {who : Option Nat} {event : TickersEvent Task}
    (h : s.stepLoop who l event = some s') {k p : Nat} {t' : Ticker Task}
    (ht' : (s'.loops k).heap p = some t') :
    (event.makesFor = some t'.id ∧ s'.madeFor k p = who) ∨
      ∃ t, (s.loops k).heap p = some t ∧ t'.id = t.id ∧ s'.madeFor k p = s.madeFor k p := by
  obtain ⟨loop, hloop, rfl⟩ := Option.map_eq_some_iff.mp h
  rcases eq_or_ne k l with rfl | hne
  · change (Function.update s.loops k loop k).heap p = some t' at ht'
    rw [Function.update_self] at ht'
    dsimp only
    rcases Tickers.id_step hloop ht' with ⟨rfl, hmakes⟩ | ⟨t, ht, hid⟩
    · left
      refine ⟨hmakes, ?_⟩
      rw [hmakes, Option.isSome_some, if_pos rfl, Function.update_self, Function.update_self]
    · right
      refine ⟨t, ht, hid, ?_⟩
      split
      · rw [Function.update_self,
          Function.update_of_ne (Nat.ne_of_lt ((hs.good k).made p t ht))]
      · rfl
  · right
    change (Function.update s.loops l loop k).heap p = some t' at ht'
    rw [Function.update_of_ne hne] at ht'
    refine ⟨t', ht', rfl, ?_⟩
    dsimp only
    split
    · rw [Function.update_of_ne hne]
    · rfl

theorem Inv.stepLoop (hs : s.Inv) {who : Option Nat} {event : TickersEvent Task}
    (hid : ∀ id, event.makesFor = some id → id = s.idOf who)
    (hwho : ∀ e, who = some e → e < s.owners.nextEndpoint)
    (h : s.stepLoop who l event = some s') : s'.Inv := by
  obtain ⟨howners, hclientId⟩ := loops_stepLoop h
  have hidOf : s'.idOf = s.idOf := by
    funext who
    cases who with
    | none => rfl
    | some e => exact congrFun hclientId e
  have hcounter : s'.nextClientId = .ofNat s'.taken ∧
      ∀ e, s'.clientId e = .ofNat (s'.number e) := by
    obtain ⟨loop, -, rfl⟩ := Option.map_eq_some_iff.mp h
    exact ⟨hs.counter, hs.numbers⟩
  refine ⟨howners ▸ hs.owners, howners ▸ hs.once, hcounter.1, hcounter.2, fun k => ?_,
    fun k p t' ht' => ?_, fun k p t' e ht' he => ?_⟩
  · obtain ⟨loop, hloop, rfl⟩ := Option.map_eq_some_iff.mp h
    show (Function.update s.loops l loop k).Good
    rcases eq_or_ne k l with rfl | hne
    · rw [Function.update_self]
      exact (hs.good k).step hloop
    · rw [Function.update_of_ne hne]
      exact hs.good k
  · rw [hidOf]
    rcases hs.watcher_stepLoop h ht' with ⟨hmakes, hfor⟩ | ⟨t, ht, hsame, hfor⟩
    · rw [hfor]
      exact hid _ hmakes
    · rw [hfor, hsame]
      exact hs.ids k p t ht
  · rw [howners]
    rcases hs.watcher_stepLoop h ht' with ⟨-, hfor⟩ | ⟨t, ht, -, hfor⟩
    · exact hwho e (hfor.symm.trans he)
    · exact hs.made k p t e ht (hfor.symm.trans he)

/-- A loop makes watchers of its own only. -/
theorem makesFor_of_isLoops {event : TickersEvent Task} (hevent : event.isLoops = true)
    {id : CallerId} (hid : event.makesFor = some id) : id = loopId := by
  cases event with
  | callEvery id' =>
      obtain rfl := Option.some.inj hid
      exact beq_iff_eq.mp hevent
  | callLater => exact (Option.some.inj hid).symm
  | share | release | delete | sweep | stopTickers | start | stop | expire => cases hid

theorem owners_stopTickersOf : (s.stopTickersOf e).owners = s.owners := by
  unfold stopTickersOf
  split <;> rfl

theorem clientId_stopTickersOf : (s.stopTickersOf e).clientId = s.clientId := by
  unfold stopTickersOf
  split <;> rfl

theorem Inv.step (hs : s.Inv) (h : s.step event = some s') : s'.Inv := by
  cases stepped h with
  | makes hmakes howners =>
      refine hs.construct.setOwners (hs.owners.step howners) (hs.once.step hs.owners howners) ?_
      exact Nat.le_of_lt ((Owners.makes_step hmakes howners).next ▸ Nat.lt_succ_self _)
  | @destroys _ _ e hmakes howners _ =>
      refine (hs.stopTickersOf e).setOwners (hs.owners.step howners)
        (hs.once.step hs.owners howners) ?_
      rw [owners_stopTickersOf]
      exact Nat.le_of_eq (Owners.keeps_step hmakes howners).next.symm
  | keeps hmakes howners =>
      refine hs.setOwners (hs.owners.step howners) (hs.once.step hs.owners howners) ?_
      exact Nat.le_of_eq (Owners.keeps_step hmakes howners).next.symm
  | makeFails => exact hs.takeId
  | @callEvery _ e _ _ _ _ _ _ halive hloop =>
      refine hs.stepLoop (fun id hid => ?_) (fun k hk => ?_) hloop
      · exact (Option.some.inj hid).symm
      · obtain rfl := Option.some.inj hk
        exact hs.owners.lt_of_alive halive
  | onLoop hevent hloop =>
      refine hs.stepLoop (fun id hid => ?_) (fun k hk => ?_) hloop
      · exact makesFor_of_isLoops hevent hid
      · cases hk

theorem inv_new : (new : Clients Task).Inv where
  owners := Owners.inv_new
  once := Owners.once_new
  counter := rfl
  numbers := fun _ => rfl
  good := fun _ => Tickers.good_new
  ids := fun _ _ _ ht => (nomatch ht)
  made := fun _ _ _ _ ht => (nomatch ht)

/-! ## What distinct ids are good for -/

theorem Distinct.congr (hs : s.Distinct) (hclientId : s'.clientId = s.clientId)
    (halive : ∀ e, s'.owners.Alive e → s.owners.Alive e) : s'.Distinct := by
  refine ⟨fun e e' he he' hsame => ?_, fun e he => ?_⟩
  · rw [hclientId] at hsame
    exact hs.ids e e' (halive e he) (halive e' he') hsame
  · rw [hclientId]
    exact hs.loopId e (halive e he)

theorem ofNat_eq_iff {m n : Nat} :
    UInt16.ofNat m = UInt16.ofNat n ↔ m % UInt16.size = n % UInt16.size := by
  rw [UInt16.ofNat_eq_iff_mod_eq_toNat, UInt16.toNat_ofNat']

/-- The id that the counter gives out next is free. -/
theorem free_iff (hs : s.Inv) :
    (s.nextClientId + 1 ≠ loopId ∧ ∀ e, s.owners.Alive e → s.clientId e ≠ s.nextClientId + 1) ↔
      (s.taken + 1) % UInt16.size ≠ 0 ∧
        ∀ e, s.owners.Alive e → s.number e % UInt16.size ≠ (s.taken + 1) % UInt16.size := by
  have hnext : s.nextClientId + 1 = .ofNat (s.taken + 1) := hs.takeId.counter
  have hloop : loopId = .ofNat 0 := rfl
  rw [hnext, hloop]
  refine and_congr (not_congr (ofNat_eq_iff.trans (by rw [Nat.zero_mod]))) ?_
  refine forall_congr' fun e => imp_congr_right fun _ => not_congr ?_
  rw [hs.numbers e]
  exact ofNat_eq_iff

/-- The endpoint that is made has an id of its own. -/
theorem distinct_construct_iff (hs : s.Inv) (hdistinct : s.Distinct)
    (hmakes : Owners.Makes s.owners owners) :
    Distinct { s.construct with owners } ↔
      s.nextClientId + 1 ≠ loopId ∧ ∀ e, s.owners.Alive e → s.clientId e ≠ s.nextClientId + 1 := by
  have hnew : s.construct.clientId s.owners.nextEndpoint = s.nextClientId + 1 :=
    Function.update_self ..
  have hold {e : Nat} (he : s.owners.Alive e) : s.construct.clientId e = s.clientId e :=
    Function.update_of_ne (Nat.ne_of_lt (hs.owners.lt_of_alive he)) ..
  constructor
  · rintro ⟨hids, hloop⟩
    have hmade := (hmakes.alive s.owners.nextEndpoint).mpr (.inl rfl)
    refine ⟨hnew ▸ hloop s.owners.nextEndpoint hmade, fun e he hsame => ?_⟩
    refine Nat.ne_of_lt (hs.owners.lt_of_alive he) ?_
    exact hids e _ ((hmakes.alive e).mpr (.inr he)) hmade ((hold he).trans (hsame.trans hnew.symm))
  · rintro ⟨hloop, hfree⟩
    refine ⟨fun e e' he he' hsame => ?_, fun e he => ?_⟩
    · change s.construct.clientId e = s.construct.clientId e' at hsame
      rcases (hmakes.alive e).mp he with rfl | he <;> rcases (hmakes.alive e').mp he' with rfl | he'
      · rfl
      · rw [hnew, hold he'] at hsame
        exact absurd hsame.symm (hfree e' he')
      · rw [hnew, hold he] at hsame
        exact absurd hsame (hfree e he)
      · rw [hold he, hold he'] at hsame
        exact hdistinct.ids e e' he he' hsame
    · show s.construct.clientId e ≠ loopId
      rcases (hmakes.alive e).mp he with rfl | he
      · rw [hnew]
        exact hloop
      · rw [hold he]
        exact hdistinct.loopId e he

/-- `stop_tickers(client_id)` stops nobody else's. -/
theorem heap_stopTickersOf (hs : s.Inv) (hdistinct : s.Distinct) (he : s.owners.Alive e)
    {p : Nat} {t : Ticker Task} (ht : (s.loops l).heap p = some t) (hother : s.OfAnother e l p) :
    ((s.stopTickersOf e).loops l).heap p = some t := by
  have hid : t.id ≠ s.clientId e := by
    rw [hs.ids l p t ht]
    rcases hother with hnone | ⟨e', hsome, hne, he'⟩
    · rw [hnone]
      exact (hdistinct.loopId e he).symm
    · rw [hsome]
      exact fun hsame => hne (hdistinct.ids e' e he' he hsame)
  unfold stopTickersOf
  split
  case h_2 => exact ht
  next ep _ =>
  show (Function.update s.loops ep.loop
    ((s.loops ep.loop).stopTickers (s.clientId e)) l).heap p = some t
  rcases eq_or_ne l ep.loop with rfl | hne
  · rw [Function.update_self]
    exact ((hs.good ep.loop).stops (s.clientId e)).others p t ht hid
  · rw [Function.update_of_ne hne]
    exact ht

/-- The step keeps the ids apart and spares the others exactly if the id it gives out, if
it does, is free. -/
theorem distinct_step_iff (hs : s.Inv) (hdistinct : s.Distinct) (h : s.step event = some s') :
    (s'.Distinct ∧ s.Spares event s') ↔ s.Fresh event := by
  cases stepped h with
  | @makes event owners hmakes howners =>
      have hspares : s.Spares (.owners event) { s.construct with owners } := by
        intro ev e hev hdestroys
        obtain rfl := ClientsEvent.owners.inj hev
        rw [destroys_of_makesEndpoint hmakes] at hdestroys
        cases hdestroys
      rw [and_iff_left hspares,
        distinct_construct_iff hs hdistinct (Owners.makes_step hmakes howners), free_iff hs]
      exact ⟨fun hfresh _ => hfresh, fun hfresh => hfresh hmakes⟩
  | @destroys event owners e hmakes howners hdestroys =>
      have halive := Owners.alive_of_destroys hs.once howners hdestroys
      refine iff_of_true ⟨?_, ?_⟩ fun hmakes' => absurd (hmakes.symm.trans hmakes') nofun
      · exact hdistinct.congr clientId_stopTickersOf (Owners.keeps_step hmakes howners).alive
      · intro ev k hev hk l p t ht hother
        obtain rfl := ClientsEvent.owners.inj hev
        obtain rfl := Option.some.inj (hdestroys.symm.trans hk)
        exact heap_stopTickersOf hs hdistinct halive ht hother
  | keeps hmakes howners =>
      refine iff_of_true ⟨?_, ?_⟩ fun hmakes' => absurd (hmakes.symm.trans hmakes') nofun
      · exact hdistinct.congr rfl (Owners.keeps_step hmakes howners).alive
      · exact fun _ _ _ _ _ _ _ ht _ => ht
  | makeFails =>
      refine iff_of_true ⟨?_, nofun⟩ trivial
      exact hdistinct.congr rfl fun _ he => he
  | callEvery _ hloop | onLoop _ hloop =>
      obtain ⟨howners, hclientId⟩ := loops_stepLoop hloop
      refine iff_of_true ⟨?_, nofun⟩ trivial
      exact hdistinct.congr hclientId fun _ he => howners ▸ he

end

theorem distinct_new : (new : Clients Task).Distinct where
  ids := fun _ _ he => (nomatch he)
  loopId := fun _ he => (nomatch he)

/-- **The ids of the endpoints alive differ, and their destructors stop nobody else's
watchers, exactly as long as no id comes round.**  For every run of any number of
endpoints on any loops. -/
theorem client_ids_distinct_iff (evs : List (ClientsEvent Task)) :
    Along step (fun s event s' => s'.Distinct ∧ s.Spares event s') new evs ↔
      Along step (fun s event _ => s.Fresh event) new evs :=
  along_iff (I := fun s => s.Inv ∧ s.Distinct)
    (Q := fun s event (s' : Clients Task) => s'.Distinct ∧ s.Spares event s')
    (R := fun s event _ => s.Fresh event)
    (fun _ _ _ hs h => distinct_step_iff hs.1 hs.2 h)
    (fun _ _ _ hs hq h => ⟨hs.1.step h, hq.1⟩) ⟨inv_new, distinct_new⟩ evs

/-! ## The counter comes round -/

/-- An endpoint on the loop `0` is made, dropped and destroyed. -/
def endpointComesAndGoes (n : Nat) : List (ClientsEvent Task) :=
  [.owners (.makeEndpointOn (.user 0) 0), .owners (.dropEndpoint (.user 0) n),
    .owners (.runDeletion 0), .owners (.releaseLoop n)]

/-- One user has the loop `0`, whose registry is empty, and `n` endpoints have come and
gone. -/
structure Idle (n : Nat) (s : Clients Task) : Prop where
  goesOn : s.owners.terminated = false
  owners : s.owners.owners 0 = [.user]
  joined : s.owners.joined 0 = false
  nextLoop : 0 < s.owners.nextLoop
  deletions : s.owners.deletions 0 = []
  nextEndpoint : s.owners.nextEndpoint = n
  taken : s.taken = n
  loops : s.loops 0 = .new

theorem Idle.comesAndGoes {n : Nat} {s : Clients Task} (hs : s.Idle n) :
    ∃ s', run step s (endpointComesAndGoes n) = some s' ∧ s'.Idle (n + 1) := by
  obtain ⟨hgoesOn, howners, hjoined, hnextLoop, hdeletions, rfl, htaken, hloops⟩ := hs
  refine ⟨{ s.construct with
    owners := { s.owners with
      owners := Function.update s.owners.owners 0 [.user]
      endpoints := Function.update s.owners.endpoints s.owners.nextEndpoint none
      nextEndpoint := s.owners.nextEndpoint + 1
      deletions := Function.update s.owners.deletions 0 [] }
    loops := Function.update s.loops 0 (Tickers.stopTickers (s.nextClientId + 1) .new) }, ?_, ?_⟩
  · simp [endpointComesAndGoes, run, step, Owners.step, hgoesOn, howners, hjoined, hnextLoop,
      hdeletions, hloops, Owners.active, Owners.addOwner, Owners.addEndpoint,
      Owners.deleteEndpoint, Owners.destroyEndpoint, Owners.dropLoopRef,
      OwnersEvent.makesEndpoint, Owners.destroys, construct, takeId, stopTickersOf]
  · -- nothing is listed under the id in an empty registry
    have hempty : Tickers.stopTickers (s.nextClientId + 1) (.new : Tickers Task) = .new := rfl
    refine ⟨hgoesOn, ?_, hjoined, hnextLoop, ?_, rfl, congrArg (· + 1) htaken, ?_⟩
    · exact Function.update_self 0 _ s.owners.owners
    · exact Function.update_self 0 _ s.owners.deletions
    · exact (Function.update_self 0 _ s.loops).trans hempty

def endpointsComeAndGo (n : Nat) : List (ClientsEvent Task) :=
  .owners (.makeLoop (.user 0)) :: (List.range n).flatMap endpointComesAndGoes

theorem idle_endpointsComeAndGo (n : Nat) :
    ∃ s : Clients Task, run step new (endpointsComeAndGo n) = some s ∧ s.Idle n := by
  induction n with
  | zero => exact ⟨_, rfl, rfl, rfl, rfl, Nat.one_pos, rfl, rfl, rfl, rfl⟩
  | succ n ih =>
      obtain ⟨s, hrun, hs⟩ := ih
      obtain ⟨s', hrun', hs'⟩ := hs.comesAndGoes
      refine ⟨s', ?_, hs'⟩
      rw [endpointsComeAndGo, List.range_succ, List.flatMap_append, ← List.cons_append,
        List.flatMap_singleton]
      exact run_append.mpr ⟨s, hrun, hrun'⟩

/-- An endpoint that is given the loop's id takes the loop's hooks along. -/
theorem Idle.stopsHook {n : Nat} {s : Clients Task} (hs : s.Idle n)
    (hnext : s.nextClientId + 1 = loopId) (hook : Task) :
    ∃ s₁ s₂, run step s [.owners (.makeEndpointOn (.user 0) 0), .onLoop 0 (.callLater 0 1000 hook),
        .owners (.dropEndpoint (.user 0) n)] = some s₁ ∧
      s₁.step (.owners (.runDeletion 0)) = some s₂ ∧
      s₁.madeFor 0 0 = none ∧
      (((s₁.loops 0).heap 0).bind fun t => t.watcher.armed).isSome = true ∧
      (s₂.loops 0).heap 0 = none := by
  obtain ⟨hgoesOn, howners, hjoined, hnextLoop, hdeletions, rfl, htaken, hloops⟩ := hs
  obtain ⟨loop, hloop, harmed, hgone⟩ : ∃ loop : Tickers Task,
      Tickers.new.step (.callLater 0 1000 hook) = some loop ∧
      ((loop.heap 0).bind fun t => t.watcher.armed).isSome = true ∧
      (loop.stopTickers loopId).heap 0 = none := ⟨_, rfl, rfl, rfl⟩
  have hnew : (Tickers.new : Tickers Task).next = 0 := rfl
  simp [run, step, Owners.step, hgoesOn, howners, hjoined, hnextLoop, hdeletions, hloops, hnext,
    hloop, harmed, hgone, hnew, Owners.active, Owners.addOwner, Owners.addEndpoint,
    Owners.deleteEndpoint, Owners.destroyEndpoint, OwnersEvent.makesEndpoint, Owners.destroys,
    construct, takeId, stopTickersOf, stepLoop, TickersEvent.isLoops, TickersEvent.makesFor]

/-- After 65535 endpoints have come and gone, the next one is given the id of the loop; and
its destructor stops a hook that the loop still has pending. -/
theorem loop_id_given_out :
    ¬ Along step (fun s event s' => s'.Distinct ∧ s.Spares event s') (new : Clients String)
        (endpointsComeAndGo 65535 ++ [.owners (.makeEndpointOn (.user 0) 0)]) ∧
    ∃ s s' : Clients String,
      run step new (endpointsComeAndGo 65535 ++ [.owners (.makeEndpointOn (.user 0) 0),
        .onLoop 0 (.callLater 0 1000 "hook"), .owners (.dropEndpoint (.user 0) 65535)]) = some s ∧
      s.step (.owners (.runDeletion 0)) = some s' ∧
      s.madeFor 0 0 = none ∧ (((s.loops 0).heap 0).bind fun t => t.watcher.armed).isSome = true ∧
      (s'.loops 0).heap 0 = none := by
  obtain ⟨s, hrun, hs⟩ : ∃ s : Clients String, run step new (endpointsComeAndGo 65535) = some s ∧
      s.Idle 65535 := idle_endpointsComeAndGo 65535
  have hinv : s.Inv := run_inv (I := Inv) (fun _ _ _ hs h => hs.step h) inv_new hrun
  have hnext : s.nextClientId + 1 = loopId := by
    rw [hinv.counter, hs.taken]
    rfl
  obtain ⟨s₁, s₂, hrun', hlast, hrest⟩ := hs.stopsHook hnext "hook"
  obtain ⟨t, hmake, -⟩ := run_cons_some.mp hrun'
  refine ⟨fun h => ?_, s₁, s₂, run_append.mpr ⟨s, hrun, hrun'⟩, hlast, hrest⟩
  obtain ⟨⟨hdistinct, -⟩, -⟩ := along_append_right h hrun t hmake
  cases stepped hmake with
  | makes hmakes howners =>
      have halive := ((Owners.makes_step hmakes howners).alive s.owners.nextEndpoint).mpr (.inl rfl)
      exact hdistinct.loopId _ halive ((Function.update_self ..).trans hnext)
  | destroys hmakes _ _ | keeps hmakes _ => cases hmakes

end Clients

end Wshttp.EventLoop
