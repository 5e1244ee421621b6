/-
# `Wshttp.Stream.Descriptors` — what a stream opens, and what is closed for it

`recv_frame` and `send_error` open descriptors and close those they cannot use; the
one behind an accepted response is left to the deleter of the `shared_ptr`.  That
deleter, `stream_d`, calls `close` when the descriptor is `-1` and at no other
time, and unlike the `delete` of `loop_deleter` it does not delete the stream.

A stream is released when `stream_close_hook` erases it from `_streams`, and when the
session is destroyed with the stream still there, say because the client has gone.

**Proved here.**  While a stream is in `_streams` its books are in order: what was
closed for it was opened for it, and nothing closed was `-1`.  No stream's books
survive its release, so all of them are in order exactly in the runs that release
no stream (`accounted_iff`).
-/
import Wshttp.Stream.OneStream
import Mathlib.Algebra.Order.BigOperators.Group.List
import Mathlib.Algebra.Order.Ring.Nat
import Mathlib.Data.List.Perm.Subperm

namespace Wshttp

/-! ## The books of a stream -/

/-- The descriptors an effect brings into the process. -/
def Effect.opens : Effect → List Fd
  | .opened _ fd => [fd]
  | .piped readEnd writeEnd => [readEnd, writeEnd]
  | _ => []

def Effect.closes : Effect → List Fd
  | .closed fd => [fd]
  | _ => []

def opens (effects : List Effect) : List Fd := effects.flatMap Effect.opens

def closes (effects : List Effect) : List Fd := effects.flatMap Effect.closes

def Effect.isCreated : Effect → Bool
  | .created _ => true
  | _ => false

def Effect.isDestroyed : Effect → Bool
  | .destroyed _ => true
  | _ => false

/-- The number of stream objects made, and the number deleted. -/
def created (effects : List Effect) : Nat := effects.countP Effect.isCreated

def destroyed (effects : List Effect) : Nat := effects.countP Effect.isDestroyed

/-- The books of a stream for which `effects` have been done, and whose entry is `entry`
now.  Descriptors are counted with multiplicity: the system may give out a number
again once it is closed. -/
structure Accounted (effects : List Effect) (entry : Option (Option Stream)) : Prop where
  notMinusOne : -1 ∉ closes effects
  closedOnce : (closes effects).Subperm (opens effects)
  released : entry = none → (closes effects).Perm (opens effects)
  objects : created effects = destroyed effects + entry.isSome.toNat

/-! ## The run of a session -/

/-- What happens to the streams of a session: its hooks, and then its destruction, if it has
been destroyed, with the order in which `_streams` then went through its elements. -/
structure StreamsRun where
  hooks : List Hook
  destroyed : Option (Keyed.Traversal UInt32)

namespace StreamsRun

section
variable {U : Type} (ada : Ada U) (parser : UrlParser U) (r : StreamsRun) (id : StreamId)

/-- `_streams` after the hooks, of a session that started without streams. -/
def streams : InboundStreams U := ((InboundStreams.empty parser).runHooks ada r.hooks).2

/-- What is done for the stream when the session is destroyed. -/
def releases : List Effect :=
  match r.destroyed with
  | none => []
  | some order =>
      (Keyed.answersOf (streamKey id) ((r.streams ada parser).destroyStreams order).1).flatten

/-- All that is done for the stream. -/
def effects : List Effect :=
  (answersOf ada id r.hooks (.empty parser)).flatMap Answer.effects ++ r.releases ada parser id

/-- Its entry at the end. -/
def entry : Option (Option Stream) :=
  match r.destroyed with
  | none => (r.streams ada parser).streams.lookup (streamKey id)
  | some order => ((r.streams ada parser).destroyStreams order).2.lookup (streamKey id)

/-- The books of every stream. -/
def AllAccounted : Prop := ∀ id, Accounted (r.effects ada parser id) (r.entry ada parser id)

end

end StreamsRun

/-- The hook makes the stream, if there is none. -/
def Hook.begins : Hook → Bool
  | .beginHeaders frame => frame.isRequest
  | _ => false

/-- The hook releases the stream, if there is one. -/
def Hook.releases : Hook → Bool
  | .streamClose _ _ => true
  | _ => false

/-- No stream whose request has begun is released: not by `stream_close_hook`, and not with the
session. -/
structure StreamsRun.NeverReleased (r : StreamsRun) : Prop where
  byHook : r.hooks.Pairwise fun a b => a.id = b.id → a.begins = true → b.releases = false
  withSession : r.destroyed.isSome = true → ∀ h ∈ r.hooks, h.begins = false

/-! ## One call -/

theorem ne_minusOne (n : Nat) : (-1 : Fd) ≠ n := by
  intro h
  cases h

section
variable {s s' : Stream} {rv : Int} {effects : List Effect}

theorem Served.closes_subperm (h : Served s rv s' effects) :
    (closes effects).Subperm (opens effects) := by
  cases h with
  | sent => exact List.nil_subperm
  | refused _ => exact List.Subperm.refl _
  | reset => exact List.nil_subperm
  | unwritten => exact (List.Perm.swap _ _ []).subperm
  | @errorSent _ _ r w => exact (List.sublist_cons_self (r : Fd) [(w : Fd)]).subperm
  | errorRefused _ => exact (List.Perm.swap _ _ []).subperm

theorem Served.notMinusOne (h : Served s rv s' effects) : -1 ∉ closes effects := by
  cases h <;> simp [closes, Effect.closes, ne_minusOne]

theorem Served.no_objects (h : Served s rv s' effects) :
    created effects = 0 ∧ destroyed effects = 0 := by
  cases h <;> exact ⟨rfl, rfl⟩

end

theorem streamD_no_objects (s : Stream) :
    created s.streamD = 0 ∧ destroyed s.streamD = 0 := by
  unfold Stream.streamD
  split <;> exact ⟨rfl, rfl⟩

/-! ## Where a stream is released

Whether a hook finds a stream follows from the hooks before it. -/

/-- The hook takes a stream out of the map, given whether there is one. -/
def Hook.takes (h : Hook) (present : Bool) : Bool := present && h.releases

/-- Whether there is a stream after the hook. -/
def Hook.leaves (h : Hook) (present : Bool) : Bool := (present || h.begins) && !h.releases

/-- How many streams the hooks of one id take out of the map. -/
def taken : Bool → List Hook → Nat
  | _, [] => 0
  | present, h :: hs => (h.takes present).toNat + taken (h.leaves present) hs

theorem Hook.releases_of_begins {h : Hook} (hb : h.begins = true) : h.releases = false := by
  cases h with
  | beginHeaders frame => rfl
  | recvHeader | frameRecv | streamClose => cases hb

theorem taken_present : ∀ hs : List Hook, taken true hs = 0 ↔ ∀ h ∈ hs, h.releases = false := by
  intro hs
  induction hs with
  | nil => exact ⟨fun _ _ hh => absurd hh List.not_mem_nil, fun _ => rfl⟩
  | cons h hs ih =>
      rw [taken, List.forall_mem_cons]
      cases hr : h.releases with
      | true => simp [Hook.takes, hr]
      | false => simp [Hook.takes, Hook.leaves, hr, ih]

theorem taken_absent : ∀ hs : List Hook, taken false hs = 0 ↔
    hs.Pairwise fun a b => a.begins = true → b.releases = false := by
  intro hs
  induction hs with
  | nil => exact ⟨fun _ => .nil, fun _ => rfl⟩
  | cons h hs ih =>
      rw [taken, List.pairwise_cons, ← ih]
      cases hb : h.begins with
      | false => simp [Hook.takes, Hook.leaves, hb]
      | true =>
          have hr := Hook.releases_of_begins hb
          simp only [Hook.takes, Hook.leaves, hb, hr, Bool.false_and, Bool.or_true, Bool.not_false,
            Bool.and_true, Bool.toNat_false, Nat.zero_add, taken_present, true_implies]
          refine ⟨fun hall => ⟨hall, ih.mpr ?_⟩, And.left⟩
          exact List.pairwise_of_forall_mem_list fun _ _ b hmem _ => hall b hmem

theorem never_byHook_iff (hs : List Hook) :
    hs.Pairwise (fun a b => a.id = b.id → a.begins = true → b.releases = false) ↔
      ∀ id, taken false (hooksOf id hs) = 0 := by
  simp only [taken_absent, hooksOf, List.pairwise_filter, decide_eq_true_eq]
  constructor
  · intro h id
    exact h.imp fun hab ha hb => hab (ha.trans hb.symm)
  · intro h
    refine List.pairwise_iff_forall_sublist.mpr fun {a b} hsub hid => ?_
    exact List.pairwise_iff_forall_sublist.mp (h b.id) hsub hid rfl

/-! ## One hook -/

section
variable {U : Type} {ada : Ada U} {h : Hook} {x y : Option Stream} {a : Answer}

theorem Hook.not_releases_of_quiet (hquiet : h.quiet = true) :
    h.begins = false ∧ h.releases = false := by
  cases h with
  | beginHeaders frame => exact ⟨by simpa [Hook.quiet, Hook.begins] using hquiet, rfl⟩
  | recvHeader | frameRecv => exact ⟨rfl, rfl⟩
  | streamClose => cases hquiet

theorem Hook.Does.leaves (hdoes : h.Does ada x a y) : y.isSome = h.leaves x.isSome := by
  cases hdoes with
  | quiet hquiet => simp [Hook.leaves, Hook.not_releases_of_quiet hquiet]
  | made hreq => simp [Hook.leaves, Hook.begins, Hook.releases, hreq]
  | present | otherHeader | pathHeader | served | released | noStreamToClose | noStreamForHeader
  | noStreamForFrame => simp [Hook.leaves, Hook.begins, Hook.releases]

/-- A hook makes an object for each entry it adds, and deletes none. -/
theorem Hook.Does.objects (hdoes : h.Does ada x a y) :
    destroyed a.effects = 0 ∧
      created a.effects + x.isSome.toNat = (h.takes x.isSome).toNat + y.isSome.toNat := by
  cases hdoes with
  | quiet hquiet => simp [created, destroyed, Hook.takes, Hook.not_releases_of_quiet hquiet]
  | served _ hserved => simp [hserved.no_objects, Hook.takes, Hook.releases]
  | @released id _ st => simp [streamD_no_objects st, Hook.takes, Hook.releases]
  | made | present | otherHeader | pathHeader | noStreamToClose | noStreamForHeader
  | noStreamForFrame =>
      simp [created, destroyed, Hook.takes, Hook.releases, Effect.isCreated, Effect.isDestroyed]

/-- What a hook closes it has opened itself, unless it calls the deleter. -/
theorem Hook.Does.closes_subperm (hdoes : h.Does ada x a y) (hkeeps : h.takes x.isSome = false) :
    (closes a.effects).Subperm (opens a.effects) ∧ -1 ∉ closes a.effects := by
  cases hdoes with
  | served _ hserved => exact ⟨hserved.closes_subperm, hserved.notMinusOne⟩
  | released => cases hkeeps
  | quiet | made | present | otherHeader | pathHeader | noStreamToClose | noStreamForHeader
  | noStreamForFrame => exact ⟨List.nil_subperm, List.not_mem_nil⟩

theorem Hook.Does.nothing (hdoes : h.Does ada none a y) :
    closes a.effects = [] ∧ opens a.effects = [] := by
  cases hdoes with
  | quiet | made | otherHeader | noStreamToClose | noStreamForHeader | noStreamForFrame =>
      exact ⟨rfl, rfl⟩

end

/-! ## All the hooks of one stream -/

section
variable {U : Type} {ada : Ada U} {hs : List Hook} {x y : Option Stream} {as : List Answer}

theorem runs_objects (hruns : Runs ada hs x as y) :
    destroyed (as.flatMap Answer.effects) = 0 ∧
      created (as.flatMap Answer.effects) + x.isSome.toNat
        = taken x.isSome hs + y.isSome.toNat := by
  induction hruns with
  | nil => exact ⟨rfl, rfl⟩
  | @cons h hs x y z a as hdoes _ ih =>
      obtain ⟨hnone, hmade⟩ := hdoes.objects
      obtain ⟨hnones, hmades⟩ := ih
      rw [hdoes.leaves] at hmade hmades
      simp only [destroyed, created, List.flatMap_cons, List.countP_append, taken]
        at hnone hmade hnones hmades ⊢
      exact ⟨by omega, by omega⟩

/-- While the stream is there, everything closed for it was opened for it. -/
theorem runs_closes (hruns : Runs ada hs x as y) (hkept : taken x.isSome hs = 0) :
    (closes (as.flatMap Answer.effects)).Subperm (opens (as.flatMap Answer.effects)) ∧
      -1 ∉ closes (as.flatMap Answer.effects) := by
  induction hruns with
  | nil => exact ⟨List.nil_subperm, List.not_mem_nil⟩
  | @cons h hs x y z a as hdoes _ ih =>
      rw [taken, ← hdoes.leaves] at hkept
      have hkeeps : h.takes x.isSome = false := by
        cases htakes : h.takes x.isSome with
        | false => rfl
        | true => simp [htakes] at hkept
      obtain ⟨hsub, hone⟩ := hdoes.closes_subperm hkeeps
      obtain ⟨hsubs, hones⟩ := ih (Nat.eq_zero_of_add_eq_zero_left hkept)
      simp only [closes, opens, List.flatMap_cons, List.flatMap_append] at hsub hone hsubs hones ⊢
      exact ⟨hsub.append hsubs, fun hmem => (List.mem_append.mp hmem).elim hone hones⟩

/-- A stream that is not there at the end and was never released was never there. -/
theorem runs_nothing (hruns : Runs ada hs x as y) (hkept : taken x.isSome hs = 0) (hy : y = none) :
    closes (as.flatMap Answer.effects) = [] ∧ opens (as.flatMap Answer.effects) = [] := by
  induction hruns with
  | nil => exact ⟨rfl, rfl⟩
  | @cons h hs x y z a as hdoes hrest ih =>
      have hx : x = none := by
        have hbook := (runs_objects (.cons hdoes hrest)).2
        rw [hkept, hy] at hbook
        cases x with
        | none => rfl
        | some st => simp at hbook
      subst hx
      rw [taken, ← hdoes.leaves] at hkept
      obtain ⟨hcloses, hopens⟩ := ih (Nat.eq_zero_of_add_eq_zero_left hkept) hy
      obtain ⟨hclose, hopen⟩ := hdoes.nothing
      simp only [closes, opens, List.flatMap_cons, List.flatMap_append]
        at hclose hopen hcloses hopens ⊢
      rw [hcloses, hopens, hclose, hopen]
      exact ⟨rfl, rfl⟩

/-- A stream that is never taken out is there once its request has begun. -/
theorem runs_present (hruns : Runs ada hs x as y) (hkept : taken x.isSome hs = 0) :
    y.isSome = (x.isSome || hs.any Hook.begins) := by
  induction hruns with
  | nil => exact (Bool.or_false _).symm
  | @cons h hs x y z a as hdoes _ ih =>
      have hlater := ih (by
        rw [taken, ← hdoes.leaves] at hkept
        exact Nat.eq_zero_of_add_eq_zero_left hkept)
      rw [hlater, hdoes.leaves, List.any_cons, ← Bool.or_assoc]
      cases hr : h.releases with
      | false => rw [Hook.leaves, hr, Bool.not_false, Bool.and_true]
      | true =>
          have hx : x.isSome = false := by
            cases hx : x.isSome with
            | false => rfl
            | true => simp [taken, Hook.takes, hx, hr] at hkept
          have hb : h.begins = false := by
            cases hb : h.begins with
            | false => rfl
            | true => cases hr.symm.trans (Hook.releases_of_begins hb)
          rw [Hook.leaves, hx, hb, hr]
          rfl

theorem accounted_iff_kept (hruns : Runs ada hs none as y) :
    Accounted (as.flatMap Answer.effects) (y.map some) ↔ taken false hs = 0 := by
  have hbook := runs_objects hruns
  simp only [Option.isSome_none, Bool.toNat_false, Nat.add_zero] at hbook
  constructor
  · intro hacc
    have hobjects := hacc.objects
    rw [Option.isSome_map] at hobjects
    omega
  · intro hkept
    obtain ⟨hsub, hone⟩ := runs_closes hruns hkept
    refine ⟨hone, hsub, fun hentry => ?_, ?_⟩
    · obtain ⟨hcloses, hopens⟩ := runs_nothing hruns hkept (Option.map_eq_none_iff.mp hentry)
      rw [hcloses, hopens]
    · rw [Option.isSome_map]
      omega

/-- A stream whose session is destroyed has its books in order only if it never began. -/
theorem accounted_iff_absent (hruns : Runs ada hs none as y) :
    Accounted (as.flatMap Answer.effects ++ y.elim [] Stream.streamD) none ↔
      taken false hs = 0 ∧ hs.any Hook.begins = false := by
  have hbook := runs_objects hruns
  simp only [Option.isSome_none, Bool.toNat_false, Nat.add_zero] at hbook
  have habsent (hkept : taken false hs = 0) : y = none ↔ hs.any Hook.begins = false := by
    have hpresent := runs_present hruns hkept
    rw [Option.isSome_none, Bool.false_or] at hpresent
    rw [← hpresent, Option.isSome_eq_false_iff, Option.isNone_iff_eq_none]
  constructor
  · intro hacc
    have hobjects := hacc.objects
    have hlast : created (y.elim [] Stream.streamD) = 0 ∧
        destroyed (y.elim [] Stream.streamD) = 0 := by
      cases y with
      | none => exact ⟨rfl, rfl⟩
      | some st => exact streamD_no_objects st
    simp only [created, destroyed, List.countP_append] at hobjects hbook hlast
    simp only [Option.isSome_none, Bool.toNat_false] at hobjects
    have hy : y.isSome.toNat = 0 := by omega
    have hkept : taken false hs = 0 := by omega
    refine ⟨hkept, (habsent hkept).mp ?_⟩
    cases y with
    | none => rfl
    | some st => cases hy
  · rintro ⟨hkept, hnone⟩
    obtain rfl := (habsent hkept).mpr hnone
    rw [Option.elim_none, List.append_nil]
    exact (accounted_iff_kept hruns).mpr hkept

end

/-! ## All the streams -/

section
variable {U : Type} {ada : Ada U} {parser : UrlParser U} {id : StreamId} {y : Option Stream}

theorem StreamsRun.releases_of_destroyed {hs : List Hook} (order : Keyed.Traversal UInt32)
    (hlookup : (StreamsRun.streams ada parser ⟨hs, some order⟩).streams.lookup (streamKey id)
      = y.map some) :
    StreamsRun.releases ada parser ⟨hs, some order⟩ id = y.elim [] Stream.streamD ∧
      StreamsRun.entry ada parser ⟨hs, some order⟩ id = none := by
  obtain ⟨hanswers, hentry⟩ := Keyed.sweep_projects order InboundStreams.releaseEntry
    (StreamsRun.streams ada parser ⟨hs, some order⟩).streams (streamKey id)
  rw [hlookup] at hanswers hentry
  refine ⟨(congrArg List.flatten hanswers).trans ?_, hentry.trans ?_⟩
  · cases y with
    | none => rfl
    | some st => exact List.append_nil _
  · cases y <;> rfl

/-- **The books of the streams.**  They are in order at the end of a run exactly if
no stream has been released in it. -/
theorem accounted_iff (ada : Ada U) (parser : UrlParser U) (r : StreamsRun) :
    r.AllAccounted ada parser ↔ r.NeverReleased := by
  obtain ⟨hs, gone⟩ := r
  cases gone with
  | none =>
      have hbooks (id : StreamId) : Accounted (StreamsRun.effects ada parser ⟨hs, none⟩ id)
          (StreamsRun.entry ada parser ⟨hs, none⟩ id) ↔ taken false (hooksOf id hs) = 0 := by
        obtain ⟨y, hruns, hlookup⟩ := runs_from_empty ada id hs parser
        rw [StreamsRun.effects, StreamsRun.releases, List.append_nil]
        rw [show StreamsRun.entry ada parser ⟨hs, none⟩ id = y.map some from hlookup]
        exact accounted_iff_kept hruns
      refine (forall_congr' hbooks).trans ((never_byHook_iff hs).symm.trans ?_)
      exact ⟨fun h => ⟨h, fun hgone => (nomatch hgone)⟩, fun h => h.byHook⟩
  | some order =>
      have hbooks (id : StreamId) : Accounted (StreamsRun.effects ada parser ⟨hs, some order⟩ id)
          (StreamsRun.entry ada parser ⟨hs, some order⟩ id) ↔
            taken false (hooksOf id hs) = 0 ∧ (hooksOf id hs).any Hook.begins = false := by
        obtain ⟨y, hruns, hlookup⟩ := runs_from_empty ada id hs parser
        obtain ⟨hreleases, hentry⟩ := StreamsRun.releases_of_destroyed order hlookup
        rw [StreamsRun.effects, hreleases, hentry]
        exact accounted_iff_absent hruns
      have hbegins : (∀ id, (hooksOf id hs).any Hook.begins = false) ↔
          ∀ h ∈ hs, h.begins = false := by
        simp only [List.any_eq_false, hooksOf, List.mem_filter, decide_eq_true_eq,
          Bool.not_eq_true]
        exact ⟨fun h a ha => h a.id a ⟨ha, rfl⟩, fun h _ a ha => h a ha.1⟩
      refine (forall_congr' hbooks).trans ?_
      rw [forall_and, ← never_byHook_iff, hbegins]
      exact ⟨fun h => ⟨h.1, fun _ => h.2⟩, fun h => ⟨h.byHook, h.withSession rfl⟩⟩

end

/-- The file is there, as descriptor 5, and everything else succeeds. -/
def FrameOutcome.fileFive : FrameOutcome := { FrameOutcome.noFile with openFile := fun _ => some 5 }

/-- A request is answered and its stream closed; descriptor 5 stays open, and the
stream object stays. -/
theorem answered_request_leaks : ¬ StreamsRun.AllAccounted .acceptsNothing {}
    ⟨[.beginHeaders (requestFrame 1), .frameRecv (requestFrame 1) .fileFive, .streamClose 1 0],
      none⟩ := by
  intro h
  have hobjects : 1 = 0 + 0 := (h 1).objects
  cases hobjects

/-- It is the same if the client goes before the stream is closed. -/
example (order : Keyed.Traversal UInt32) : ¬ StreamsRun.AllAccounted .acceptsNothing {}
    ⟨[.beginHeaders (requestFrame 1), .frameRecv (requestFrame 1) .fileFive], some order⟩ := by
  intro h
  have hstream : (StreamsRun.streams .acceptsNothing {}
      ⟨[.beginHeaders (requestFrame 1), .frameRecv (requestFrame 1) .fileFive], some order⟩
      ).streams.lookup (streamKey 1) = Option.map some (some { id := 1, fd := 5 }) := rfl
  obtain ⟨hreleases, hentry⟩ := StreamsRun.releases_of_destroyed order hstream
  have hobjects := (h 1).objects
  rw [StreamsRun.effects, hreleases, hentry] at hobjects
  cases hobjects

end Wshttp
