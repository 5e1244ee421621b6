/-
# `Wshttp.EventLoop.StopThread` — who owns a loop, and who joins its thread

An `event_loop` lives as long as there is a `shared_ptr` to it.  User code has some,
and every endpoint has one in `_loop`.  The last one to go runs `~event_loop`, which
joins the loop's thread, on whatever thread that happens.

An endpoint is destroyed by `loop_deleter`, so on the loop's own thread.  Its
destructor asks `_loop.use_count() == 1`, and if so stops the thread, which is the one
it runs on; and when it is over, `_loop` itself goes.

| source                                                | event              |
| :---------------------------------------------------- | :----------------- |
| `event_loop::make()`                                  | `makeLoop`         |
| `endpoint::make(opts)`                                | `makeEndpoint`     |
| `endpoint::make(loop, opts)`                          | `makeEndpointOn`   |
| a `shared_ptr<event_loop>` of user code               | `copyLoop`, `dropLoop` |
| a `shared_ptr<endpoint>`                              | `copyEndpoint`, `dropEndpoint` |
| the job of `loop_deleter` is run                      | `runDeletion`      |
| `~endpoint` has run, and its members are destroyed    | `releaseLoop`      |

Other threads go on between the last two, and so may the loop's own: what
`stop_tickers` destroys there may own further references.

**Proved here.**  No thread is told to join itself, exactly as long as somebody else
owns the loop whenever its own thread gives a reference up (`never_joins_itself_iff`).
-/
import Wshttp.Lib.Run
import Mathlib.Logic.Function.Basic

namespace Wshttp.EventLoop

open Machine

inductive Thread where
  | user (n : Nat)
  | loop (l : Nat)
  deriving DecidableEq

/-- The holder of one `shared_ptr` to an event loop. -/
inductive Owner where
  | user
  | endpoint (e : Nat)
  deriving DecidableEq

/-- `destroying` is the thread that `~endpoint` runs on, once it does. -/
structure EndpointRefs where
  loop : Nat
  refs : Nat := 1
  destroying : Option Thread := none

/-- `use_count` of the loop `l` is the length of `owners l`; a loop without owners has
been destroyed.  `joins` is history. -/
structure Owners where
  owners : Nat → List Owner
  joined : Nat → Bool
  nextLoop : Nat
  endpoints : Nat → Option EndpointRefs
  nextEndpoint : Nat
  /-- the queued jobs of `loop_deleter`, by loop, oldest first -/
  deletions : Nat → List Nat
  joins : List (Thread × Nat)
  /-- `join` throws in the thread itself, out of a destructor -/
  terminated : Bool

inductive OwnersEvent where
  | makeLoop (t : Thread)
  | makeEndpoint (t : Thread)
  | makeEndpointOn (t : Thread) (l : Nat)
  | copyLoop (t : Thread) (l : Nat)
  | dropLoop (t : Thread) (l : Nat)
  | copyEndpoint (t : Thread) (e : Nat)
  | dropEndpoint (t : Thread) (e : Nat)
  | runDeletion (l : Nat)
  | releaseLoop (e : Nat)

namespace Owners

def new : Owners where
  owners := fun _ => []
  joined := fun _ => false
  nextLoop := 0
  endpoints := fun _ => none
  nextEndpoint := 0
  deletions := fun _ => []
  joins := []
  terminated := false

/-- The thread of a loop has started, and has not been joined. -/
def active (s : Owners) : Thread → Bool
  | .user _ => true
  | .loop l => l < s.nextLoop && !s.joined l

/-! ## What the code does -/

/-- `stop_thread`, called on `t`. -/
def stopThread (t : Thread) (l : Nat) (s : Owners) : Owners :=
  if s.joined l then s
  else if t = .loop l then { s with joins := s.joins ++ [(t, l)], terminated := true }
  else { s with joins := s.joins ++ [(t, l)], joined := Function.update s.joined l true }

/-- A `shared_ptr` to the loop goes, and `~event_loop` runs if it was the last one. -/
def dropLoopRef (t : Thread) (o : Owner) (l : Nat) (s : Owners) : Owners :=
  let s := { s with owners := Function.update s.owners l ((s.owners l).erase o) }
  if s.owners l = [] then s.stopThread t l else s

/-- `~endpoint`, up to where its members are destroyed. -/
def destroyEndpoint (t : Thread) (e : Nat) (ep : EndpointRefs) (s : Owners) : Owners :=
  let s := { s with
    endpoints := Function.update s.endpoints e (some { ep with refs := 0, destroying := some t }) }
  if (s.owners ep.loop).length = 1 then s.stopThread t ep.loop else s

def addLoop (o : Owner) (s : Owners) : Owners :=
  { s with owners := Function.update s.owners s.nextLoop [o], nextLoop := s.nextLoop + 1 }

def addOwner (o : Owner) (l : Nat) (s : Owners) : Owners :=
  { s with owners := Function.update s.owners l (o :: s.owners l) }

def addEndpoint (l : Nat) (s : Owners) : Owners :=
  { s with
    endpoints := Function.update s.endpoints s.nextEndpoint (some { loop := l })
    nextEndpoint := s.nextEndpoint + 1 }

/-- The last `shared_ptr` to an endpoint goes: `loop_deleter`. -/
def deleteEndpoint (t : Thread) (e : Nat) (ep : EndpointRefs) (s : Owners) : Owners :=
  if t = .loop ep.loop then s.destroyEndpoint t e ep
  else
    { s with
      endpoints := Function.update s.endpoints e (some { ep with refs := 0 })
      deletions := Function.update s.deletions ep.loop (s.deletions ep.loop ++ [e]) }

def step (s : Owners) (event : OwnersEvent) : Option Owners :=
  if s.terminated then none
  else
    match event with
    | .makeLoop t => if s.active t then some (s.addLoop .user) else none
    | .makeEndpoint t =>
        if s.active t then
          some ((s.addLoop (.endpoint s.nextEndpoint)).addEndpoint s.nextLoop)
        else none
    | .makeEndpointOn t l =>
        if s.active t ∧ .user ∈ s.owners l then
          some ((s.addOwner (.endpoint s.nextEndpoint) l).addEndpoint l)
        else none
    | .copyLoop t l =>
        if s.active t ∧ .user ∈ s.owners l then some (s.addOwner .user l) else none
    | .dropLoop t l =>
        if s.active t ∧ .user ∈ s.owners l then some (s.dropLoopRef t .user l) else none
    | .copyEndpoint t e =>
        match s.endpoints e with
        | some ep =>
            if s.active t ∧ 0 < ep.refs then
              some { s with
                endpoints := Function.update s.endpoints e (some { ep with refs := ep.refs + 1 }) }
            else none
        | none => none
    | .dropEndpoint t e =>
        match s.endpoints e with
        | some ep =>
            if s.active t ∧ 0 < ep.refs then
              if ep.refs = 1 then some (s.deleteEndpoint t e ep)
              else
                some { s with
                  endpoints :=
                    Function.update s.endpoints e (some { ep with refs := ep.refs - 1 }) }
            else none
        | none => none
    | .runDeletion l =>
        match s.deletions l with
        | e :: rest =>
            match s.endpoints e with
            | some ep =>
                if s.active (.loop l) then
                  some ({ s with deletions := Function.update s.deletions l rest }.destroyEndpoint
                    (.loop l) e ep)
                else none
            | none => none
        | [] => none
    | .releaseLoop e =>
        match s.endpoints e with
        | some ep =>
            match ep.destroying with
            | some t =>
                some ({ s with endpoints := Function.update s.endpoints e none }.dropLoopRef t
                  (.endpoint e) ep.loop)
            | none => none
        | none => none

/-! ## What is to hold, and when -/

/-- Nobody has joined the thread it was on. -/
def NeverItself (s : Owners) : Prop := ∀ t l, (t, l) ∈ s.joins → t ≠ .loop l

/-- The owner is not the only one. -/
def Another (s : Owners) (o : Owner) (l : Nat) : Prop := ∃ other, other ∈ (s.owners l).erase o

/-- Where the loop's own thread drops a reference to the loop, or is in the destructor
of an endpoint that has one, somebody else has one too. -/
def OthersOwn (s : Owners) : OwnersEvent → Prop
  | .dropLoop t l => t = .loop l → s.Another .user l
  | .dropEndpoint t e => ∀ ep, s.endpoints e = some ep → ep.refs = 1 → t = .loop ep.loop →
      s.Another (.endpoint e) ep.loop
  | .runDeletion l => ∀ e, (s.deletions l).head? = some e → s.Another (.endpoint e) l
  | .releaseLoop e => ∀ ep, s.endpoints e = some ep → s.Another (.endpoint e) ep.loop
  | _ => True

/-- An endpoint owns its loop and is destroyed on its thread; a loop that is owned has
not been joined. -/
structure Inv (s : Owners) : Prop where
  owns : ∀ e ep, s.endpoints e = some ep → .endpoint e ∈ s.owners ep.loop
  onLoop : ∀ e ep t, s.endpoints e = some ep → ep.destroying = some t → t = .loop ep.loop
  queued : ∀ l e, e ∈ s.deletions l →
    e < s.nextEndpoint ∧ ∀ ep, s.endpoints e = some ep → ep.loop = l
  madeEndpoint : ∀ e ep, s.endpoints e = some ep → e < s.nextEndpoint
  madeLoop : ∀ l o, o ∈ s.owners l → l < s.nextLoop
  running : ∀ l, s.joined l = true → s.owners l = [] ∧ l < s.nextLoop

section
variable {s s' : Owners} {t : Thread} {l : Nat} {o : Owner} {e : Nat} {ep : EndpointRefs}

theorem Inv.notJoined (hs : s.Inv) (ho : o ∈ s.owners l) : s.joined l = false := by
  refine Bool.eq_false_iff.mpr fun hjoined => ?_
  rw [(hs.running l hjoined).1] at ho
  cases ho

theorem another_iff : s.Another o l ↔ (s.owners l).erase o ≠ [] :=
  ⟨fun ⟨_, hmem⟩ => List.ne_nil_of_mem hmem, List.exists_mem_of_ne_nil _⟩

/-! ## Joins -/

theorem neverItself_stopThread_iff (hs : s.NeverItself) (hl : s.joined l = false) :
    (s.stopThread t l).NeverItself ↔ t ≠ .loop l := by
  have hjoins : (s.stopThread t l).joins = s.joins ++ [(t, l)] := by
    rw [stopThread, if_neg (by rw [hl]; exact Bool.false_ne_true)]
    split <;> rfl
  unfold NeverItself
  rw [hjoins]
  constructor
  · intro hnever
    exact hnever t l (List.mem_append_right _ List.mem_cons_self)
  · intro hne t' l' hmem
    rcases List.mem_append.mp hmem with hold | hnew
    · exact hs t' l' hold
    · obtain ⟨rfl, rfl⟩ := Prod.mk.inj (List.mem_singleton.mp hnew)
      exact hne

theorem neverItself_dropLoopRef_iff (hs : s.NeverItself) (hl : s.joined l = false) :
    (s.dropLoopRef t o l).NeverItself ↔ (t = .loop l → s.Another o l) := by
  rw [another_iff, dropLoopRef]
  simp only [Function.update_self]
  split
  · next hlast =>
    refine (neverItself_stopThread_iff ?_ ?_).trans ?_
    · exact hs
    · exact hl
    · exact ⟨fun hne ht => absurd ht hne, fun hother ht => hother ht hlast⟩
  · next hlast => exact iff_of_true hs fun _ => hlast

theorem neverItself_destroyEndpoint_iff (hs : s.NeverItself) (hl : s.joined ep.loop = false)
    (ho : .endpoint e ∈ s.owners ep.loop) :
    (s.destroyEndpoint t e ep).NeverItself ↔
      (t = .loop ep.loop → s.Another (.endpoint e) ep.loop) := by
  have hcount : (s.owners ep.loop).length = 1 ↔ (s.owners ep.loop).erase (.endpoint e) = [] := by
    rw [← List.length_eq_zero_iff, List.length_erase_of_mem ho]
    have hpos := List.length_pos_of_mem ho
    omega
  rw [another_iff, destroyEndpoint]
  dsimp only
  split
  · next hone =>
    refine (neverItself_stopThread_iff ?_ ?_).trans ?_
    · exact hs
    · exact hl
    · exact ⟨fun hne ht => absurd ht hne, fun hother ht => hother ht (hcount.mp hone)⟩
  · next hmore => exact iff_of_true hs fun _ => mt hcount.mpr hmore

/-! ## The invariant, operation by operation -/

theorem Inv.stopThread (hs : s.Inv) (hl : l < s.nextLoop)
    (hlast : t ≠ .loop l → s.owners l = []) : (s.stopThread t l).Inv := by
  unfold Owners.stopThread
  split
  · exact hs
  split
  · exact ⟨hs.owns, hs.onLoop, hs.queued, hs.madeEndpoint, hs.madeLoop, hs.running⟩
  next hne =>
  refine ⟨hs.owns, hs.onLoop, hs.queued, hs.madeEndpoint, hs.madeLoop, fun k hk => ?_⟩
  rcases eq_or_ne k l with rfl | hk'
  · exact ⟨hlast hne, hl⟩
  · exact hs.running k ((Function.update_of_ne hk' ..).symm.trans hk)

theorem Inv.eraseOwner (hs : s.Inv) (ho : ∀ e, o = .endpoint e → s.endpoints e = none) :
    Inv { s with owners := Function.update s.owners l ((s.owners l).erase o) } := by
  have hsub (k : Nat) (o' : Owner)
      (hmem : o' ∈ Function.update s.owners l ((s.owners l).erase o) k) : o' ∈ s.owners k := by
    rcases eq_or_ne k l with rfl | hne
    · rw [Function.update_self] at hmem
      exact List.mem_of_mem_erase hmem
    · rwa [Function.update_of_ne hne] at hmem
  refine ⟨fun e ep he => ?_, hs.onLoop, hs.queued, hs.madeEndpoint,
    fun k o' hmem => hs.madeLoop k o' (hsub k o' hmem), fun k hk => ⟨?_, (hs.running k hk).2⟩⟩
  · have hmem := hs.owns e ep he
    -- an endpoint that is there is not the owner that goes
    have hne : Owner.endpoint e ≠ o := fun heq => by
      rw [ho e heq.symm] at he
      cases he
    show _ ∈ Function.update s.owners l ((s.owners l).erase o) ep.loop
    rcases eq_or_ne ep.loop l with heq | hloop
    · rw [← heq, Function.update_self]
      exact (List.mem_erase_of_ne hne).mpr hmem
    · rw [Function.update_of_ne hloop]
      exact hmem
  · refine List.eq_nil_iff_forall_not_mem.mpr fun o' hmem => ?_
    have hold := hsub k o' hmem
    rw [(hs.running k hk).1] at hold
    cases hold

theorem Inv.dropLoopRef (hs : s.Inv) (hl : l < s.nextLoop)
    (ho : ∀ e, o = .endpoint e → s.endpoints e = none) : (s.dropLoopRef t o l).Inv := by
  have hrest : Inv { s with owners := Function.update s.owners l ((s.owners l).erase o) } :=
    hs.eraseOwner ho
  unfold Owners.dropLoopRef
  dsimp only
  split
  · next hlast => exact hrest.stopThread hl fun _ => hlast
  · exact hrest

/-- An entry after one was written is that one, or was there before. -/
theorem endpoints_update {endpoints : Nat → Option EndpointRefs} {e k : Nat}
    {ep' epk : EndpointRefs} (hk : Function.update endpoints e (some ep') k = some epk) :
    (k = e ∧ epk = ep') ∨ endpoints k = some epk := by
  rcases eq_or_ne k e with rfl | hne
  · rw [Function.update_self] at hk
    exact .inl ⟨rfl, (Option.some.inj hk).symm⟩
  · rw [Function.update_of_ne hne] at hk
    exact .inr hk

/-- An entry after one was removed was there before. -/
theorem endpoints_remove {endpoints : Nat → Option EndpointRefs} {e k : Nat} {epk : EndpointRefs}
    (hk : Function.update endpoints e none k = some epk) : endpoints k = some epk := by
  rcases eq_or_ne k e with rfl | hne
  · rw [Function.update_self] at hk
    cases hk
  · rwa [Function.update_of_ne hne] at hk

theorem mem_of_front {rest : List Nat} (hqueue : s.deletions l = e :: rest) :
    e ∈ s.deletions l := by
  rw [hqueue]
  exact List.mem_cons_self

/-- An endpoint's record changes, but not its loop. -/
theorem Inv.setEndpoint (hs : s.Inv) (he : s.endpoints e = some ep) {ep' : EndpointRefs}
    (hloop : ep'.loop = ep.loop) (hthread : ∀ t, ep'.destroying = some t → t = .loop ep.loop) :
    Inv { s with endpoints := Function.update s.endpoints e (some ep') } := by
  refine ⟨?_, ?_, ?_, ?_, hs.madeLoop, hs.running⟩
  · intro k epk hk
    rcases endpoints_update hk with ⟨rfl, rfl⟩ | hold
    · rw [hloop]
      exact hs.owns k ep he
    · exact hs.owns k epk hold
  · intro k epk u hk hu
    rcases endpoints_update hk with ⟨rfl, rfl⟩ | hold
    · rw [hloop]
      exact hthread u hu
    · exact hs.onLoop k epk u hold hu
  · intro m k hmem
    refine ⟨(hs.queued m k hmem).1, fun epk hk => ?_⟩
    rcases endpoints_update hk with ⟨rfl, rfl⟩ | hold
    · rw [hloop]
      exact (hs.queued m k hmem).2 ep he
    · exact (hs.queued m k hmem).2 epk hold
  · intro k epk hk
    rcases endpoints_update hk with ⟨rfl, -⟩ | hold
    · exact hs.madeEndpoint k ep he
    · exact hs.madeEndpoint k epk hold

theorem Inv.removeEndpoint (hs : s.Inv) (e : Nat) :
    Inv { s with endpoints := Function.update s.endpoints e none } :=
  ⟨fun k epk hk => hs.owns k epk (endpoints_remove hk),
    fun k epk u hk => hs.onLoop k epk u (endpoints_remove hk),
    fun m k hmem => ⟨(hs.queued m k hmem).1, fun epk hk =>
      (hs.queued m k hmem).2 epk (endpoints_remove hk)⟩,
    fun k epk hk => hs.madeEndpoint k epk (endpoints_remove hk), hs.madeLoop, hs.running⟩

theorem Inv.setDeletions (hs : s.Inv) {q : List Nat}
    (hq : ∀ e ∈ q, e < s.nextEndpoint ∧ ∀ ep, s.endpoints e = some ep → ep.loop = l) :
    Inv { s with deletions := Function.update s.deletions l q } := by
  refine ⟨hs.owns, hs.onLoop, fun m k hmem => ?_, hs.madeEndpoint, hs.madeLoop, hs.running⟩
  change k ∈ Function.update s.deletions l q m at hmem
  rcases eq_or_ne m l with rfl | hne
  · rw [Function.update_self] at hmem
    exact hq k hmem
  · rw [Function.update_of_ne hne] at hmem
    exact hs.queued m k hmem

theorem Inv.addOwner (hs : s.Inv) (ho : o ∈ s.owners l) (o' : Owner) : (s.addOwner o' l).Inv := by
  have hmem (k : Nat) (u : Owner) (hu : u ∈ s.owners k) : u ∈ (s.addOwner o' l).owners k := by
    show u ∈ Function.update s.owners l (o' :: s.owners l) k
    rcases eq_or_ne k l with rfl | hne
    · rw [Function.update_self]
      exact List.mem_cons_of_mem _ hu
    · rwa [Function.update_of_ne hne]
  refine ⟨fun e ep he => hmem _ _ (hs.owns e ep he), hs.onLoop, hs.queued, hs.madeEndpoint, ?_, ?_⟩
  · intro k u hu
    change u ∈ Function.update s.owners l (o' :: s.owners l) k at hu
    rcases eq_or_ne k l with rfl | hne
    · exact hs.madeLoop k o ho
    · rw [Function.update_of_ne hne] at hu
      exact hs.madeLoop k u hu
  · intro k hk
    have hne : k ≠ l := by
      rintro rfl
      exact Bool.false_ne_true ((hs.notJoined ho).symm.trans hk)
    exact ⟨(Function.update_of_ne hne ..).trans (hs.running k hk).1, (hs.running k hk).2⟩

theorem Inv.addLoop (hs : s.Inv) (o : Owner) : (s.addLoop o).Inv := by
  have hold {k : Nat} (hk : k < s.nextLoop) : (s.addLoop o).owners k = s.owners k :=
    Function.update_of_ne (Nat.ne_of_lt hk) ..
  refine ⟨fun e ep he => ?_, hs.onLoop, hs.queued, hs.madeEndpoint, fun k u hu => ?_,
    fun k hk => ?_⟩
  · rw [hold (hs.madeLoop _ _ (hs.owns e ep he))]
    exact hs.owns e ep he
  · change u ∈ Function.update s.owners s.nextLoop [o] k at hu
    rcases eq_or_ne k s.nextLoop with rfl | hne
    · exact Nat.lt_succ_self _
    · rw [Function.update_of_ne hne] at hu
      exact Nat.lt_succ_of_lt (hs.madeLoop k u hu)
  · obtain ⟨hnone, hlt⟩ := hs.running k hk
    exact ⟨(hold hlt).trans hnone, Nat.lt_succ_of_lt hlt⟩

theorem Inv.addEndpoint (hs : s.Inv) (ho : .endpoint s.nextEndpoint ∈ s.owners l) :
    (s.addEndpoint l).Inv := by
  refine ⟨?_, ?_, ?_, ?_, hs.madeLoop, hs.running⟩
  · intro k epk hk
    rcases endpoints_update hk with ⟨rfl, rfl⟩ | hold
    · exact ho
    · exact hs.owns k epk hold
  · intro k epk u hk hu
    rcases endpoints_update hk with ⟨rfl, rfl⟩ | hold
    · cases hu
    · exact hs.onLoop k epk u hold hu
  · intro m k hmem
    obtain ⟨hlt, hloop⟩ := hs.queued m k hmem
    refine ⟨Nat.lt_succ_of_lt hlt, fun epk hk => ?_⟩
    rcases endpoints_update hk with ⟨rfl, -⟩ | hold
    · exact absurd hlt (Nat.lt_irrefl _)
    · exact hloop epk hold
  · intro k epk hk
    rcases endpoints_update hk with ⟨rfl, -⟩ | hold
    · exact Nat.lt_succ_self _
    · exact Nat.lt_succ_of_lt (hs.madeEndpoint k epk hold)

/-- The destructor of an endpoint, on its loop's thread. -/
theorem Inv.destroyEndpoint (hs : s.Inv) (he : s.endpoints e = some ep) :
    (s.destroyEndpoint (.loop ep.loop) e ep).Inv := by
  have hset : Inv { s with
      endpoints := Function.update s.endpoints e
        (some { ep with refs := 0, destroying := some (.loop ep.loop) }) } := by
    refine hs.setEndpoint he rfl fun t ht => ?_
    exact (Option.some.inj ht).symm
  unfold Owners.destroyEndpoint
  dsimp only
  split
  · exact hset.stopThread (hs.madeLoop _ _ (hs.owns e ep he)) fun hne => absurd rfl hne
  · exact hset

theorem Inv.deleteEndpoint (hs : s.Inv) (he : s.endpoints e = some ep) :
    (s.deleteEndpoint t e ep).Inv := by
  unfold Owners.deleteEndpoint
  split
  · next ht =>
    rw [ht]
    exact hs.destroyEndpoint he
  · have hset : Inv { s with
        endpoints := Function.update s.endpoints e (some { ep with refs := 0 }) } :=
      hs.setEndpoint he rfl fun t ht => hs.onLoop e ep t he ht
    refine hset.setDeletions fun k hk => ?_
    rcases List.mem_append.mp hk with hold | hnew
    · exact hset.queued ep.loop k hold
    · obtain rfl := List.mem_singleton.mp hnew
      refine ⟨hs.madeEndpoint k ep he, fun epk hepk => ?_⟩
      change Function.update s.endpoints k (some { ep with refs := 0 }) k = some epk at hepk
      rw [Function.update_self] at hepk
      rw [← Option.some.inj hepk]

/-! ## One step -/

/-- What `step` does, with the guards that matter here. -/
inductive Stepped (s : Owners) : OwnersEvent → Owners → Prop
  | makeLoop {t : Thread} : Stepped s (.makeLoop t) (s.addLoop .user)
  | makeEndpoint {t : Thread} :
      Stepped s (.makeEndpoint t)
        ((s.addLoop (.endpoint s.nextEndpoint)).addEndpoint s.nextLoop)
  | makeEndpointOn {t : Thread} {l : Nat} :
      .user ∈ s.owners l →
      Stepped s (.makeEndpointOn t l) ((s.addOwner (.endpoint s.nextEndpoint) l).addEndpoint l)
  | copyLoop {t : Thread} {l : Nat} :
      .user ∈ s.owners l → Stepped s (.copyLoop t l) (s.addOwner .user l)
  | dropLoop {t : Thread} {l : Nat} :
      .user ∈ s.owners l → Stepped s (.dropLoop t l) (s.dropLoopRef t .user l)
  | copyEndpoint {t : Thread} {e : Nat} {ep : EndpointRefs} :
      s.endpoints e = some ep →
      Stepped s (.copyEndpoint t e)
        { s with endpoints := Function.update s.endpoints e (some { ep with refs := ep.refs + 1 }) }
  | dropEndpoint {t : Thread} {e : Nat} {ep : EndpointRefs} :
      s.endpoints e = some ep → ep.refs ≠ 1 →
      Stepped s (.dropEndpoint t e)
        { s with endpoints := Function.update s.endpoints e (some { ep with refs := ep.refs - 1 }) }
  | deleteEndpoint {t : Thread} {e : Nat} {ep : EndpointRefs} :
      s.endpoints e = some ep → ep.refs = 1 →
      Stepped s (.dropEndpoint t e) (s.deleteEndpoint t e ep)
  | runDeletion {l : Nat} {e : Nat} {rest : List Nat} {ep : EndpointRefs} :
      s.deletions l = e :: rest → s.endpoints e = some ep →
      Stepped s (.runDeletion l)
        ({ s with deletions := Function.update s.deletions l rest }.destroyEndpoint (.loop l) e ep)
  | releaseLoop {t : Thread} {e : Nat} {ep : EndpointRefs} :
      s.endpoints e = some ep → ep.destroying = some t →
      Stepped s (.releaseLoop e)
        ({ s with endpoints := Function.update s.endpoints e none }.dropLoopRef t (.endpoint e)
          ep.loop)

variable {event : OwnersEvent}

theorem stepped (h : s.step event = some s') : Stepped s event s' := by
  unfold step at h
  split at h
  · cases h
  cases event with
  | makeLoop t =>
      dsimp only at h
      split at h
      · exact Option.some.inj h ▸ .makeLoop
      · cases h
  | makeEndpoint t =>
      dsimp only at h
      split at h
      · exact Option.some.inj h ▸ .makeEndpoint
      · cases h
  | makeEndpointOn t l =>
      dsimp only at h
      split at h
      · next hok => exact Option.some.inj h ▸ .makeEndpointOn hok.2
      · cases h
  | copyLoop t l =>
      dsimp only at h
      split at h
      · next hok => exact Option.some.inj h ▸ .copyLoop hok.2
      · cases h
  | dropLoop t l =>
      dsimp only at h
      split at h
      · next hok => exact Option.some.inj h ▸ .dropLoop hok.2
      · cases h
  | copyEndpoint t e =>
      dsimp only at h
      split at h
      case h_2 => cases h
      next ep he =>
      split at h
      · exact Option.some.inj h ▸ .copyEndpoint he
      · cases h
  | dropEndpoint t e =>
      dsimp only at h
      split at h
      case h_2 => cases h
      next ep he =>
      split at h
      case isFalse => cases h
      split at h
      · next hlast => exact Option.some.inj h ▸ .deleteEndpoint he hlast
      · next hmore => exact Option.some.inj h ▸ .dropEndpoint he hmore
  | runDeletion l =>
      dsimp only at h
      split at h
      case h_2 => cases h
      next e rest hqueue =>
      split at h
      case h_2 => cases h
      next ep he =>
      split at h
      · exact Option.some.inj h ▸ .runDeletion hqueue he
      · cases h
  | releaseLoop e =>
      dsimp only at h
      split at h
      case h_2 => cases h
      next ep he =>
      split at h
      case h_2 => cases h
      next t ht => exact Option.some.inj h ▸ .releaseLoop he ht

theorem Inv.step (hs : s.Inv) (h : s.step event = some s') : s'.Inv := by
  cases stepped h with
  | makeLoop => exact hs.addLoop _
  | makeEndpoint =>
      refine (hs.addLoop _).addEndpoint ?_
      show _ ∈ Function.update s.owners s.nextLoop [.endpoint s.nextEndpoint] s.nextLoop
      rw [Function.update_self]
      exact List.mem_cons_self
  | @makeEndpointOn _ l ho =>
      refine (hs.addOwner ho _).addEndpoint ?_
      show _ ∈ Function.update s.owners l (.endpoint s.nextEndpoint :: s.owners l) l
      rw [Function.update_self]
      exact List.mem_cons_self
  | copyLoop ho => exact hs.addOwner ho _
  | dropLoop ho => exact hs.dropLoopRef (hs.madeLoop _ _ ho) fun _ heq => (nomatch heq)
  | copyEndpoint he => exact hs.setEndpoint he rfl fun t ht => hs.onLoop _ _ t he ht
  | dropEndpoint he _ => exact hs.setEndpoint he rfl fun t ht => hs.onLoop _ _ t he ht
  | deleteEndpoint he _ => exact hs.deleteEndpoint he
  | @runDeletion l e rest ep hqueue he =>
      have hmem := mem_of_front hqueue
      have hrest : Inv { s with deletions := Function.update s.deletions l rest } :=
        hs.setDeletions fun k hk => hs.queued l k (by rw [hqueue]; exact List.mem_cons_of_mem _ hk)
      obtain rfl := (hs.queued l e hmem).2 ep he
      exact hrest.destroyEndpoint he
  | @releaseLoop _ e ep he _ =>
      refine (hs.removeEndpoint e).dropLoopRef (hs.madeLoop _ _ (hs.owns e ep he)) fun k heq => ?_
      obtain rfl := Owner.endpoint.inj heq
      exact Function.update_self ..

/-- The step has a thread join itself exactly if it gives up the last reference there. -/
theorem neverItself_step_iff (hs : s.Inv) (hn : s.NeverItself) (h : s.step event = some s') :
    s'.NeverItself ↔ s.OthersOwn event := by
  cases stepped h with
  | makeLoop | makeEndpoint | makeEndpointOn _ | copyLoop _ | copyEndpoint _ =>
      exact iff_of_true hn trivial
  | dropLoop ho => exact neverItself_dropLoopRef_iff hn (hs.notJoined ho)
  | @dropEndpoint t e ep he hmore =>
      refine iff_of_true hn fun ep' he' hlast => ?_
      rw [Option.some.inj (he'.symm.trans he)] at hlast
      exact absurd hlast hmore
  | @deleteEndpoint t e ep he hlast =>
      have ho := hs.owns e ep he
      have hothers : s.OthersOwn (.dropEndpoint t e) ↔
          (t = .loop ep.loop → s.Another (.endpoint e) ep.loop) := by
        constructor
        · exact fun h => h ep he hlast
        · intro h ep' he' _
          rw [Option.some.inj (he'.symm.trans he)]
          exact h
      rw [hothers, Owners.deleteEndpoint]
      split
      · exact neverItself_destroyEndpoint_iff hn (hs.notJoined ho) ho
      · next hne => exact iff_of_true hn fun ht => absurd ht hne
  | @runDeletion l e rest ep hqueue he =>
      have hmem := mem_of_front hqueue
      obtain rfl := (hs.queued l e hmem).2 ep he
      have ho := hs.owns e ep he
      refine (neverItself_destroyEndpoint_iff ?_ ?_ ?_).trans ?_
      · exact hn
      · exact hs.notJoined ho
      · exact ho
      constructor
      · intro h k hk
        rw [hqueue] at hk
        obtain rfl := Option.some.inj hk
        exact h rfl
      · intro h _
        exact h e (by rw [hqueue]; rfl)
  | @releaseLoop t e ep he ht =>
      have ho := hs.owns e ep he
      refine (neverItself_dropLoopRef_iff ?_ ?_).trans ?_
      · exact hn
      · exact hs.notJoined ho
      constructor
      · intro h ep' he'
        rw [Option.some.inj (he'.symm.trans he)]
        exact h (hs.onLoop e ep t he ht)
      · exact fun h _ => h ep he

end

theorem inv_new : new.Inv where
  owns := fun _ _ he => (nomatch he)
  onLoop := fun _ _ _ he => (nomatch he)
  queued := fun _ _ he => (nomatch he)
  madeEndpoint := fun _ _ he => (nomatch he)
  madeLoop := fun _ _ ho => (nomatch ho)
  running := fun _ hl => (nomatch hl)

/-- **No thread joins itself, exactly as long as somebody else owns the loop whenever its
own thread gives a reference up.**  For every run of any number of threads. -/
theorem never_joins_itself_iff (evs : List OwnersEvent) :
    Along step (fun _ _ s => s.NeverItself) new evs ↔
      Along step (fun s event _ => s.OthersOwn event) new evs :=
  along_iff (I := fun s => s.Inv ∧ s.NeverItself) (Q := fun _ _ (s : Owners) => s.NeverItself)
    (R := fun (s : Owners) event _ => s.OthersOwn event)
    (fun _ _ _ hs h => neverItself_step_iff hs.1 hs.2 h)
    (fun _ _ _ hs hn h => ⟨hs.1.step h, hn⟩) ⟨inv_new, fun _ _ hmem => (nomatch hmem)⟩ evs

/-- An endpoint on its own loop: when its only reference is dropped, the loop's thread
is told to join itself. -/
theorem own_loop_joins_itself :
    ¬ Along step (fun _ _ s => s.NeverItself) new
        [.makeEndpoint (.user 0), .dropEndpoint (.user 0) 0, .runDeletion 0] ∧
      (run step new [.makeEndpoint (.user 0), .dropEndpoint (.user 0) 0, .runDeletion 0]).map joins
        = some [(.loop 0, 0)] := by
  refine ⟨fun h => ?_, rfl⟩
  obtain ⟨-, h⟩ := h _ rfl
  obtain ⟨-, h⟩ := h _ rfl
  obtain ⟨hnever, -⟩ := h _ rfl
  exact hnever (.loop 0) 0 List.mem_cons_self rfl

end Owners

end Wshttp.EventLoop
