/-
# `Wshttp.Session.Arrival` — one arrival, and all the requests in it

`read_cb` hands the input to `nghttp2_session_mem_recv2`, which calls the hooks for what it
finds there.  A hook that answers anything but `0` ends the call with
`NGHTTP2_ERR_CALLBACK_FAILURE`, and then `read_session_data` asks to close the session.  So
the streams of a session are not as independent as its hooks are:

| a hook answers `0`     | nghttp2 goes on with the next thing in the input             |
| a hook answers another | the rest of the input is dropped, and the session is closed  |

What nghttp2 finds in the input is a parameter, as in `Wshttp.Session.Io`.  It calls
`on_stream_close_callback` in `nghttp2_session_send` too, when the last frame of a stream has
gone out: such a hook returns `0` and has no event of its own here, so a run tells what
arrivals do as long as no stream closes between them.

**Proved here.**  Over every run of an inbound session, an arrival closes it exactly if
nghttp2 fails by itself or a request that ends in this arrival gets no reply; the calls made
are those up to that request's last frame (`arrival_closes_iff`).
-/
import Wshttp.Lib.Callbacks
import Wshttp.Session.Frame
import Wshttp.Stream.Lifecycle

namespace Wshttp

open Machine Callbacks

/-! ## A session and its hooks -/

/-- What nghttp2 makes of a buffer: the callbacks it has for it, its own result if every
callback returns `0`, and the frames it queues. -/
structure Parse (C : Type) where
  calls : Bytes → List C
  result : Bytes → Int
  frames : Bytes → List Bytes

/-- nghttp2 goes on only after a `0`. -/
def stopsParse : Except Fault Int → Bool
  | .ok rv => rv != 0
  | .error _ => true

/-- A call that did not come back. -/
def faultOf {C : Type} (made : List (C × Except Fault Int)) : Option Fault :=
  made.findSome? fun r =>
    match r.2 with
    | .error f => some f
    | .ok _ => none

/-- A session with what its hooks read and write.  The calls made so far are history. -/
structure Hooked (σ C : Type) where
  base : SessionBase
  hooks : σ
  called : List C := []

namespace Hooked

/-- None of the hooks has been called. -/
def opened {σ C : Type} (base : SessionBase) (hooks : σ) : Hooked σ C := { base, hooks }

section
variable {σ C : Type} (call : C → σ → Except Fault Int × σ)

/-- `read_cb`, with the callbacks behind `nghttp2_session_mem_recv2`. -/
def readCb (p : Parse C) (o : SendOutcome) (s : Hooked σ C) : Outcome (Hooked σ C) :=
  match s.base.session with
  | none => (.error .nullPointer, s)
  | some _ =>
      let data := s.base.bev.input
      let made := callUntil call stopsParse (p.calls data) s.hooks
      let s := { s with hooks := made.2, called := s.called ++ made.1.map Prod.fst }
      match faultOf made.1 with
      | some f => (.error f, s)
      | none =>
          let ret :=
            if made.1.any fun r => stopsParse r.2 then NGHTTP2_ERR_CALLBACK_FAILURE
            else p.result data
          let read := s.base.readSessionData ⟨fun _ => ret, p.frames⟩ o
          (read.1, { s with base := read.2 })

/-- An event of the session: a read, or any other one of `ioStep`. -/
inductive Event (C : Type) where
  | readCb (p : Parse C) (o : SendOutcome)
  | io (e : IoEvent)

/-- A read that is not one of `Event.readCb`. -/
def isRead : IoEvent → Bool
  | .readCb _ _ => true
  | _ => false

def step (bigEndian : Bool) (s : Hooked σ C) : Event C → Option (Hooked σ C)
  | .readCb p o => (s.readCb call p o).returned
  | .io e =>
      if isRead e then none else (ioStep bigEndian s.base e).map fun b => { s with base := b }

/-- What the hooks have been called for, the state follows. -/
theorem run_follows {bigEndian : Bool} {Follows : List C → σ → Prop}
    (hcall : ∀ as s c, Follows as s → Follows (as ++ [c]) (call c s).2)
    {s t : Hooked σ C} {es : List (Event C)} (hs : Follows s.called s.hooks)
    (h : run (step call bigEndian) s es = some t) : Follows t.called t.hooks := by
  have hmany : ∀ (cs as : List C) (x : σ), Follows as x →
      Follows (as ++ (callUntil call stopsParse cs x).1.map Prod.fst)
        (callUntil call stopsParse cs x).2 := by
    intro cs
    induction cs with
    | nil =>
        intro as x hx
        rw [callUntil, List.map_nil, List.append_nil]
        exact hx
    | cons c cs ih =>
        intro as x hx
        have hone := hcall as x c hx
        cases hstop : stopsParse (call c x).1 with
        | true =>
            rw [callUntil_stop hstop]
            exact hone
        | false =>
            rw [callUntil_go hstop, List.map_cons, List.append_cons]
            exact ih _ _ hone
  refine run_inv (I := fun s : Hooked σ C => Follows s.called s.hooks) ?_ hs h
  intro s e t hs hstep
  cases e with
  | readCb p o =>
      obtain rfl := Outcome.returned_eq_some hstep
      have hmade := hmany (p.calls s.base.bev.input) s.called s.hooks hs
      unfold readCb
      split
      · exact hs
      dsimp only
      split
      · exact hmade
      · exact hmade
  | io e =>
      simp only [step] at hstep
      split at hstep
      · cases hstep
      · obtain ⟨b, -, rfl⟩ := Option.map_eq_some_iff.mp hstep
        exact hs

end

end Hooked

/-! ## What a request is replied to with -/

/-- The calls that a reply takes succeed: with the file, or with the error page, or at
least with a reset. -/
def FrameOutcome.replies (o : FrameOutcome) (path : Bytes) : Bool :=
  match o.openFile path with
  | some fd => o.submitResponse (.makeStatus ._200) fd == 0
  | none =>
      match o.pipe with
      | none => o.submitRstStream NGHTTP2_INTERNAL_ERROR == 0
      | some (readEnd, _) =>
          o.write (o.htmlObject.toList.take Stream.errlen) == Stream.errlen &&
            o.submitResponse (.makeStatus ._404) readEnd == 0

theorem recvFrame_rv (o : FrameOutcome) (s : Stream) :
    (s.recvFrame o).1 =
      if o.replies (cString (Stream.stripSlashes s.req.path)) then 0 else NGHTTP2_ERR_FATAL := by
  rw [Stream.recvFrame, if_neg (by simp), FrameOutcome.replies]
  dsimp only
  cases hopen : o.openFile (cString (Stream.stripSlashes s.req.path)) with
  | some fd =>
      simp only [Stream.sendResponse, beq_iff_eq]
      split <;> simp_all
  | none =>
      simp only [Stream.sendError]
      cases hpipe : o.pipe with
      | none =>
          simp only [beq_iff_eq]
          split <;> simp_all
      | some ends =>
          simp only [Stream.sendResponse, Bool.and_eq_true, beq_iff_eq]
          split <;> simp_all

/-- The request of a stream after a hook has been called for it. -/
def requestAfter {U : Type} (ada : Ada U) (u : Uri) : Hook → Uri
  | .recvHeader f name value =>
      if f.isRequest && spanEq req.fields.path name then uriOf ada value else u
  | _ => u

/-- The request of a stream after all that has been called: its last `:path`. -/
def requestOf {U : Type} (ada : Ada U) (id : StreamId) (called : List Hook) : Uri :=
  (hooksOf id called).foldl (requestAfter ada) .default

/-- The hook is given the frame that ends the request `u`, and fails to reply. -/
def unrepliedAt (u : Uri) : Hook → Bool
  | .frameRecv f o => f.endsStream && !o.replies (cString (Stream.stripSlashes u.path))
  | _ => false

def unreplied {U : Type} (ada : Ada U) (called : List Hook) (h : Hook) : Bool :=
  unrepliedAt (requestOf ada h.id called) h

/-! ## One stream -/

/-- The entry of a stream in this phase, whose request is `u`. -/
def Phase.Tracks (u : Uri) : Phase → Option (Option Stream) → Prop
  | .live _, some (some s) => s.req = u
  | .idle, none => u = .default
  | .closed, none => True
  | _, _ => False

section
variable {U : Type} (ada : Ada U)

/-- A hook that nghttp2 may call finds what it needs, and fails only to reply. -/
theorem tracks_act {u : Uri} {p q : Phase} {h : Hook} {v : Option (Option Stream)}
    (hv : p.Tracks u v) (hmoves : p.Moves h q) :
    q.Tracks (requestAfter ada u h) (h.act ada v).2 ∧
      (h.act ada v).1.rv = .ok (if unrepliedAt u h then NGHTTP2_ERR_FATAL else 0) := by
  cases hmoves with
  | quiet hquiet =>
      cases h with
      | beginHeaders f =>
          have hno : f.isRequest = false := by simpa [Hook.quiet] using hquiet
          simpa [Hook.act, hno, requestAfter, unrepliedAt] using hv
      | recvHeader f name value =>
          have hno : f.isRequest = false := by simpa [Hook.quiet] using hquiet
          simpa [Hook.act, hno, requestAfter, unrepliedAt] using hv
      | frameRecv f o =>
          have hno : f.endsStream = false := by simpa [Hook.quiet] using hquiet
          simpa [Hook.act, hno, requestAfter, unrepliedAt] using hv
      | streamClose id errorCode => cases hquiet
  | @begins f hreq =>
      rcases v with _ | _ | st
      · obtain rfl : u = .default := hv
        simp [Hook.act, hreq, requestAfter, unrepliedAt, Phase.Tracks]
      · exact hv.elim
      · exact hv.elim
  | @header ended f name value hreq =>
      rcases v with _ | _ | st
      · exact hv.elim
      · exact hv.elim
      · cases hname : spanEq req.fields.path name with
        | false => simpa [Hook.act, hreq, hname, requestAfter, unrepliedAt] using hv
        | true => simp [Hook.act, hreq, hname, requestAfter, unrepliedAt, Phase.Tracks]
  | @ends f o hends =>
      rcases v with _ | _ | st
      · exact hv.elim
      · exact hv.elim
      · obtain rfl : st.req = u := hv
        refine ⟨?_, ?_⟩
        · simp only [Hook.act, hends, if_true]
          exact (recvFrame_served o st).req_eq
        · simp only [Hook.act, hends, if_true, recvFrame_rv, unrepliedAt, Bool.true_and]
          cases o.replies (cString (Stream.stripSlashes st.req.path)) <;> rfl
  | closes =>
      rcases v with _ | _ | st
      · exact hv.elim
      · exact hv.elim
      · exact ⟨trivial, rfl⟩

theorem tracks_run : ∀ {hs : List Hook} {u : Uri} {p q : Phase} {v : Option (Option Stream)},
    p.Tracks u v → run Phase.next p hs = some q →
      q.Tracks (hs.foldl (requestAfter ada) u) (Keyed.runAt (hs.map (Hook.act ada)) v).2 := by
  intro hs
  induction hs with
  | nil =>
      intro u p q v hv hrun
      obtain rfl := Option.some.inj hrun
      exact hv
  | cons h hs ih =>
      intro u p q v hv hrun
      obtain ⟨r, hnext, hrest⟩ := run_cons_some.mp hrun
      exact ih (tracks_act ada hv (next_moves hnext)).1 hrest

end

/-! ## The hooks of an inbound session -/

section
variable {U : Type} (ada : Ada U)

/-- nghttp2 calls a hook, and looks at what it returns. -/
def inboundCall (h : Hook) (s : InboundStreams U) : Except Fault Int × InboundStreams U :=
  ((s.runHook ada h).1.rv, (s.runHook ada h).2)

theorem runHooks_append : ∀ (as bs : List Hook) (s : InboundStreams U),
    (s.runHooks ada (as ++ bs)).2 = ((s.runHooks ada as).2.runHooks ada bs).2 := by
  intro as
  induction as with
  | nil => intro bs s; rfl
  | cons a as ih =>
      intro bs s
      exact ih bs (s.runHook ada a).2

theorem Delivered.earlier {as bs : List Hook} (h : Delivered (as ++ bs)) : Delivered as := by
  intro id
  obtain ⟨q, hq⟩ := h id
  rw [hooksOf, List.filter_append] at hq
  obtain ⟨p, hp, -⟩ := run_append.mp hq
  exact ⟨p, hp⟩

/-- The state after the hooks of a session that began without streams. -/
def FollowsHooks (parser : UrlParser U) (called : List Hook) (s : InboundStreams U) : Prop :=
  s = ((InboundStreams.empty parser).runHooks ada called).2

theorem followsHooks_snoc {parser : UrlParser U} (called : List Hook) (s : InboundStreams U)
    (h : Hook) (hs : FollowsHooks ada parser called s) :
    FollowsHooks ada parser (called ++ [h]) (inboundCall ada h s).2 := by
  rw [FollowsHooks, runHooks_append, ← hs]
  rfl

theorem inboundCall_rv {parser : UrlParser U} {called : List Hook} {s : InboundStreams U} {h : Hook}
    (hs : FollowsHooks ada parser called s) (hdel : Delivered (called ++ [h])) :
    (inboundCall ada h s).1 = .ok (if unreplied ada called h then NGHTTP2_ERR_FATAL else 0) := by
  obtain ⟨q, hq⟩ := hdel h.id
  rw [hooksOf, List.filter_append] at hq
  obtain ⟨p, hp, hlast⟩ := run_append.mp hq
  simp only [decide_true, List.filter_cons_of_pos, List.filter_nil] at hlast
  obtain ⟨r, hnext, -⟩ := run_cons_some.mp hlast
  have hidle : Phase.idle.Tracks .default none := rfl
  have htracks := tracks_run ada hidle hp
  have hentry := lookup_runHooks ada h.id called (.empty parser)
  rw [← hs, show (InboundStreams.empty parser).streams.lookup (streamKey h.id) = none from
    Finmap.lookup_empty _] at hentry
  rw [inboundCall, runHook_answer]
  show (h.act ada (s.streams.lookup (streamKey h.id))).1.rv = _
  rw [hentry]
  exact (tracks_act ada htracks (next_moves hnext)).2

/-- Whether nghttp2 stops is decided by the calls alone. -/
theorem inbound_predicts (parser : UrlParser U) :
    Predicts (inboundCall ada) stopsParse (unreplied ada) Delivered (FollowsHooks ada parser)
      fun r => ∃ rv, r = .ok rv where
  earlier := Delivered.earlier
  refused := by
    intro called s h hs hdel
    rw [inboundCall_rv ada hs hdel]
    cases unreplied ada called h <;> rfl
  fine := fun hs hdel => ⟨_, inboundCall_rv ada hs hdel⟩
  follows := followsHooks_snoc ada _ _ _

end

/-! ## One arrival -/

abbrev InboundSession (U : Type) := Hooked (InboundStreams U) Hook

theorem faultOf_eq_none {C : Type} {made : List (C × Except Fault Int)}
    (h : ∀ r ∈ made, ∃ rv, r.2 = .ok rv) : faultOf made = none := by
  refine List.findSome?_eq_none_iff.mpr fun r hr => ?_
  obtain ⟨rv, hrv⟩ := h r hr
  rw [hrv]

/-- `read_session_data` looks at what nghttp2 makes of the input, and of nothing else. -/
theorem readSessionData_congr {r r' : RecvOutcome} {o : SendOutcome} {s : SessionBase}
    (hret : r.ret s.bev.input = r'.ret s.bev.input)
    (hframes : r.frames s.bev.input = r'.frames s.bev.input) :
    s.readSessionData r o = s.readSessionData r' o := by
  unfold SessionBase.readSessionData
  split
  · rfl
  dsimp only [SessionBase.nghttp2SessionMemRecv2]
  rw [hret, hframes]

/-- What `readSessionData` does about an error of `mem_recv2`. -/
theorem readSessionData_failed {r : RecvOutcome} {o : SendOutcome} {s : SessionBase}
    (hsession : s.session ≠ none) (hneg : r.ret s.bev.input < 0) :
    ∃ n, s.readSessionData r o =
      (.ok (), { s.noteHanded s.bev.input with session := some n }.closeSession) := by
  unfold SessionBase.readSessionData
  split
  · next hnone => exact absurd hnone hsession
  dsimp only
  split
  · exact ⟨_, rfl⟩
  · next hpos => exact absurd hneg hpos

theorem readSessionData_closeJobs {r : RecvOutcome} {o : SendOutcome} {s : SessionBase}
    (hsession : s.session ≠ none) :
    (s.readSessionData r o).2.closeJobs
      = s.closeJobs + (decide (r.ret s.bev.input < 0)).toNat := by
  by_cases hneg : r.ret s.bev.input < 0
  · obtain ⟨n, hn⟩ := readSessionData_failed (o := o) hsession hneg
    rw [hn, decide_eq_true hneg]
    rfl
  · have hsent (t : SessionBase) : (t.sendSessionData o).2.closeJobs = t.closeJobs :=
      congrArg (fun i => i.2.2.2) (SessionBase.sendSessionData_framed framed_identity o t)
    rw [decide_eq_false hneg]
    unfold SessionBase.readSessionData
    split
    · next hnone => exact absurd hnone hsession
    dsimp only
    split
    · next h => exact absurd h hneg
    · exact hsent _

/-- What an arrival has done to a session, if its hooks are given `calls`. -/
structure ArrivalExact {U : Type} (ada : Ada U) (p : Parse Hook) (o : SendOutcome)
    (s t : InboundSession U) (out : Except Fault Unit) : Prop where
  /-- the hooks are called up to the first request that gets no reply -/
  made : t.called = s.called ++ prefixUntil (unreplied ada) s.called (p.calls s.base.bev.input)
  /-- one close job, exactly if there is such a request or nghttp2 fails by itself -/
  closes : t.base.closeJobs = s.base.closeJobs +
    (anyRefused (unreplied ada) s.called (p.calls s.base.bev.input)
      || decide (p.result s.base.bev.input < 0)).toNat
  /-- after such a request nothing is sent, not even what was replied to others -/
  unsent : anyRefused (unreplied ada) s.called (p.calls s.base.bev.input) = true →
    out = .ok () ∧ t.base.bev = s.base.bev
  /-- otherwise all of the input counts, and the session goes on as `read_session_data` does -/
  served : anyRefused (unreplied ada) s.called (p.calls s.base.bev.input) = false →
    t.called = s.called ++ p.calls s.base.bev.input ∧
      (out, t.base) = s.base.readSessionData ⟨p.result, p.frames⟩ o

section
variable {U : Type}

/-- **An arrival closes the session exactly if a request in it gets no reply, or nghttp2
fails by itself.**  In every state that a run of an inbound session reaches, for whatever
nghttp2 may find in the input. -/
theorem arrival_closes_iff (ada : Ada U) {bigEndian : Bool} {base : SessionBase}
    {parser : UrlParser U} {es : List (Hooked.Event Hook)} {s : InboundSession U}
    (hrun : run (Hooked.step (inboundCall ada) bigEndian) (.opened base (.empty parser)) es
      = some s)
    (hsession : s.base.session ≠ none) (p : Parse Hook) (o : SendOutcome)
    (hdel : Delivered (s.called ++ p.calls s.base.bev.input)) :
    ArrivalExact ada p o s (s.readCb (inboundCall ada) p o).2
      (s.readCb (inboundCall ada) p o).1 := by
  have hfollows : FollowsHooks ada parser s.called s.hooks :=
    Hooked.run_follows (inboundCall ada) (followsHooks_snoc ada)
      (s := .opened base (.empty parser)) rfl hrun
  obtain ⟨hmade, hany, hfine, -⟩ := callUntil_predicted (inbound_predicts ada parser) hfollows hdel
  obtain ⟨n, hn⟩ := Option.ne_none_iff_exists'.mp hsession
  have hnofault := faultOf_eq_none hfine
  -- the call as a whole: the hooks, and then `read_session_data` with the result they leave
  have hread : s.readCb (inboundCall ada) p o =
      let ret := if anyRefused (unreplied ada) s.called (p.calls s.base.bev.input)
        then NGHTTP2_ERR_CALLBACK_FAILURE else p.result s.base.bev.input
      let read := s.base.readSessionData ⟨fun _ => ret, p.frames⟩ o
      (read.1, {
        base := read.2
        hooks := (callUntil (inboundCall ada) stopsParse (p.calls s.base.bev.input) s.hooks).2
        called :=
          s.called ++ prefixUntil (unreplied ada) s.called (p.calls s.base.bev.input) }) := by
    simp only [Hooked.readCb, hn, hnofault, hmade, hany]
  rw [hread]
  refine ⟨rfl, ?_, ?_, ?_⟩
  · dsimp only
    rw [readSessionData_closeJobs hsession]
    cases anyRefused (unreplied ada) s.called (p.calls s.base.bev.input) with
    | true => rfl
    | false => rfl
  · intro href
    rw [href]
    have hneg : NGHTTP2_ERR_CALLBACK_FAILURE < 0 := by decide
    obtain ⟨m, hm⟩ := readSessionData_failed (o := o) (s := s.base)
      (r := ⟨fun _ => NGHTTP2_ERR_CALLBACK_FAILURE, p.frames⟩) hsession hneg
    simp only [if_true, hm]
    exact ⟨trivial, rfl⟩
  · intro href
    rw [href]
    refine ⟨congrArg _ (prefixUntil_of_not_anyRefused href), ?_⟩
    exact readSessionData_congr rfl rfl

end

/-- nghttp2 finds these callbacks in whatever it is handed. -/
def Parse.finds {C : Type} (calls : List C) : Parse C :=
  ⟨fun _ => calls, fun data => data.length, fun _ => []⟩

/-- There is neither a file, nor a pipe, nor a way to reset the stream. -/
def FrameOutcome.noReply : FrameOutcome :=
  { FrameOutcome.noFile with pipe := none, submitRstStream := fun _ => -1 }

/-- Two requests begin in the first arrival. -/
def twoBegin : List (Hooked.Event Hook) :=
  [.readCb (.finds [.beginHeaders (requestFrame 1), .beginHeaders (requestFrame 3)]) .sendAll]

/-- Both end in the second, and there is no reply to one of them. -/
def bothEnd : List Hook :=
  [.frameRecv (requestFrame 1) .noReply, .frameRecv (requestFrame 3) .noFile]

def newConnection : InboundSession Unit :=
  .opened (.initialized false 7 ⟨.ofPort 443, .ofPort 50000⟩) (.empty {})

/-- Stream 1 gets no reply, so nobody looks at stream 3, and both lose the connection. -/
theorem arrival_closes_iff_two_streams :
    ∃ s, run (Hooked.step (inboundCall Ada.acceptsNothing) false) newConnection twoBegin = some s ∧
      anyRefused (unreplied Ada.acceptsNothing) s.called bothEnd = true ∧
      ArrivalExact Ada.acceptsNothing (.finds bothEnd) .sendAll s
        (s.readCb (inboundCall Ada.acceptsNothing) (.finds bothEnd) .sendAll).2
        (s.readCb (inboundCall Ada.acceptsNothing) (.finds bothEnd) .sendAll).1 := by
  obtain ⟨s, hs⟩ : ∃ s, run (Hooked.step (inboundCall Ada.acceptsNothing) false) newConnection
      twoBegin = some s := ⟨_, rfl⟩
  have hsession : (run (Hooked.step (inboundCall Ada.acceptsNothing) false) newConnection
      twoBegin).map (fun s => s.base.session) = some (some {}) := rfl
  have hcalled : (run (Hooked.step (inboundCall Ada.acceptsNothing) false) newConnection
      twoBegin).map Hooked.called
        = some [.beginHeaders (requestFrame 1), .beginHeaders (requestFrame 3)] := rfl
  rw [hs] at hsession hcalled
  have hsession : s.base.session = some {} := Option.some.inj hsession
  have hcalled := Option.some.inj hcalled
  refine ⟨s, hs, by rw [hcalled]; rfl, arrival_closes_iff _ hs (by rw [hsession]; simp) _ _ ?_⟩
  rw [hcalled]
  intro id
  by_cases h1 : id = 1
  · subst h1
    exact ⟨.live true, rfl⟩
  by_cases h3 : id = 3
  · subst h3
    exact ⟨.live true, rfl⟩
  · refine ⟨.idle, ?_⟩
    simp [Parse.finds, bothEnd, hooksOf, Hook.id, requestFrame, Ne.symm h1, Ne.symm h3]

end Wshttp
