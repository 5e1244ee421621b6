/-
# `Wshttp.Stream.OneStream` — the run of a single stream

`Wshttp.Stream.Hooks` takes a run of the hooks apart into one run for each entry
of `_streams`.  Here is what such a run can look like when it starts without an
entry, or with a stream.

    Served   every way `recv_frame` can end, with its effects
    Does     every way a hook can treat its entry
    Runs     a sequence of hooks for one stream, with its answers

Everything below `Wshttp.Stream.Lifecycle` and `Wshttp.Stream.Descriptors` is an
induction over `Runs`.
-/
import Wshttp.Stream.Hooks

namespace Wshttp

/-! ## One call of `recv_frame` -/

/-- How `recv_frame` ends, case by case: what it returns, the stream it leaves, and
the calls it has made. -/
inductive Served (s : Stream) : Int → Stream → List Effect → Prop
  | sent {path : Bytes} {fd : Nat} {hdrs : req.Headers} :
      Served s 0 { s with fd := fd }
        [.opened path fd, .submittedResponse s.id hdrs fd 0]
  | refused {path : Bytes} {fd : Nat} {hdrs : req.Headers} {rv : Int} :
      rv ≠ 0 →
      Served s NGHTTP2_ERR_FATAL { s with fd := fd }
        [.opened path fd, .submittedResponse s.id hdrs fd rv, .closed fd]
  | reset {path : Bytes} {rv : Int} :
      Served s (if rv ≠ 0 then NGHTTP2_ERR_FATAL else 0) s
        [.openFailed path, .submittedRst s.id NGHTTP2_INTERNAL_ERROR rv]
  | unwritten {path data : Bytes} {r w : Nat} :
      Served s NGHTTP2_ERR_FATAL { s with pipes := (r, w) }
        [.openFailed path, .piped r w, .wrote w data, .closed w, .closed r]
  | errorSent {path data : Bytes} {r w : Nat} {hdrs : req.Headers} :
      Served s 0 { s with pipes := (r, w), fd := r }
        [.openFailed path, .piped r w, .wrote w data, .closed w,
          .submittedResponse s.id hdrs r 0]
  | errorRefused {path data : Bytes} {r w : Nat} {hdrs : req.Headers} {rv : Int} :
      rv ≠ 0 →
      Served s NGHTTP2_ERR_FATAL { s with pipes := (r, w), fd := r }
        [.openFailed path, .piped r w, .wrote w data, .closed w,
          .submittedResponse s.id hdrs r rv, .closed r]

theorem sendResponse_accepted {o : FrameOutcome} {hdrs : req.Headers} {s : Stream}
    (h : o.submitResponse hdrs s.fd = 0) :
    s.sendResponse o hdrs = (0, [.submittedResponse s.id hdrs s.fd 0]) := by
  simp [Stream.sendResponse, h]

theorem sendResponse_refused {o : FrameOutcome} {hdrs : req.Headers} {s : Stream}
    (h : o.submitResponse hdrs s.fd ≠ 0) :
    s.sendResponse o hdrs
      = (NGHTTP2_ERR_FATAL, [.submittedResponse s.id hdrs s.fd (o.submitResponse hdrs s.fd)]) := by
  simp [Stream.sendResponse, h]

theorem sendError_served (o : FrameOutcome) (s : Stream) (path : Bytes) :
    Served s (s.sendError o).1 (s.sendError o).2.1 (.openFailed path :: (s.sendError o).2.2) := by
  unfold Stream.sendError
  split
  · exact .reset
  next r w _ =>
  dsimp only
  split
  · exact .unwritten
  let t : Stream := { s with pipes := (r, w), fd := r }
  by_cases hrv : o.submitResponse (.makeStatus ._404) t.fd = 0
  · rw [sendResponse_accepted (s := t) hrv]
    exact .errorSent
  · rw [sendResponse_refused (s := t) hrv]
    exact .errorRefused hrv

theorem recvFrame_served (o : FrameOutcome) (s : Stream) :
    Served s (s.recvFrame o).1 (s.recvFrame o).2.1 (s.recvFrame o).2.2 := by
  unfold Stream.recvFrame
  rw [if_neg (by simp)]
  dsimp only
  split
  · exact sendError_served o s _
  next fd _ =>
  let t : Stream := { s with fd := fd }
  by_cases hrv : o.submitResponse (.makeStatus ._200) t.fd = 0
  · rw [sendResponse_accepted (s := t) hrv]
    exact .sent
  · rw [sendResponse_refused (s := t) hrv]
    exact .refused hrv

/-- Whatever happens, the request stays. -/
theorem Served.req_eq {s s' : Stream} {rv : Int} {effects : List Effect}
    (h : Served s rv s' effects) : s'.req = s.req := by
  cases h <;> rfl

/-! ## One hook -/

/-- The hook has nothing to do with the stream's life: it is for another kind of
frame. -/
def Hook.quiet : Hook → Bool
  | .beginHeaders frame => !frame.isRequest
  | .recvHeader frame _ _ => !frame.isRequest
  | .frameRecv frame _ => !frame.endsStream
  | .streamClose _ _ => false

/-- How a hook treats the entry of its stream. -/
inductive Hook.Does {U : Type} (ada : Ada U) :
    Hook → Option Stream → Answer → Option Stream → Prop
  | quiet {h : Hook} {x : Option Stream} : h.quiet = true → Does ada h x ⟨.ok 0, []⟩ x
  | made {f : Frame} : f.isRequest = true →
      Does ada (.beginHeaders f) none ⟨.ok 0, [.created f.streamId]⟩ (some { id := f.streamId })
  | present {f : Frame} {st : Stream} : f.isRequest = true →
      Does ada (.beginHeaders f) (some st) ⟨.ok 0, []⟩ (some st)
  | otherHeader {f : Frame} {name value : Bytes} {x : Option Stream} :
      f.isRequest = true → spanEq req.fields.path name = false →
      Does ada (.recvHeader f name value) x ⟨.ok 0, []⟩ x
  | pathHeader {f : Frame} {name value : Bytes} {st : Stream} :
      f.isRequest = true →
      Does ada (.recvHeader f name value) (some st) ⟨.ok 0, []⟩
        (some { st with req := uriOf ada value })
  | served {f : Frame} {o : FrameOutcome} {st st' : Stream} {rv : Int} {effects : List Effect} :
      f.endsStream = true → Served st rv st' effects →
      Does ada (.frameRecv f o) (some st) ⟨.ok rv, effects⟩ (some st')
  | released {id : StreamId} {errorCode : UInt32} {st : Stream} :
      Does ada (.streamClose id errorCode) (some st) ⟨.ok 0, st.streamD⟩ none
  | noStreamToClose {id : StreamId} {errorCode : UInt32} :
      Does ada (.streamClose id errorCode) none ⟨.ok 0, [.couldNotFind id]⟩ none
  | noStreamForHeader {f : Frame} {name value : Bytes} : f.isRequest = true →
      Does ada (.recvHeader f name value) none
        ⟨.ok NGHTTP2_ERR_CALLBACK_FAILURE, [.couldNotFind f.streamId]⟩ none
  | noStreamForFrame {f : Frame} {o : FrameOutcome} : f.endsStream = true →
      Does ada (.frameRecv f o) none
        ⟨.ok NGHTTP2_ERR_CALLBACK_FAILURE, [.couldNotFind f.streamId]⟩ none

theorem Hook.Does.of_quiet {U : Type} {ada : Ada U} {h : Hook} {x y : Option Stream} {a : Answer}
    (hdoes : h.Does ada x a y) (hquiet : h.quiet = true) : a = ⟨.ok 0, []⟩ ∧ y = x := by
  cases hdoes with
  | quiet _ | present _ | otherHeader _ _ => exact ⟨rfl, rfl⟩
  | made hreq | pathHeader hreq | noStreamForHeader hreq => simp [Hook.quiet, hreq] at hquiet
  | served hends _ | noStreamForFrame hends => simp [Hook.quiet, hends] at hquiet
  | released | noStreamToClose => cases hquiet

section
variable {U : Type} (ada : Ada U)

theorem Hook.does (h : Hook) (x : Option Stream) :
    ∃ a y, h.act ada (x.map some) = (a, y.map some) ∧ h.Does ada x a y := by
  cases h with
  | beginHeaders f =>
      cases hreq : f.isRequest with
      | false => exact ⟨_, x, by simp [Hook.act, hreq], .quiet (by simp [Hook.quiet, hreq])⟩
      | true =>
          cases x with
          | none => exact ⟨_, _, by simp [Hook.act, hreq], .made hreq⟩
          | some st => exact ⟨_, some st, by simp [Hook.act, hreq], .present hreq⟩
  | recvHeader f name value =>
      cases hreq : f.isRequest with
      | false => exact ⟨_, x, by simp [Hook.act, hreq], .quiet (by simp [Hook.quiet, hreq])⟩
      | true =>
          cases hname : spanEq req.fields.path name with
          | false => exact ⟨_, x, by simp [Hook.act, hreq, hname], .otherHeader hreq hname⟩
          | true =>
              cases x with
              | none =>
                  exact ⟨_, none, by simp [Hook.act, hreq, hname], .noStreamForHeader hreq⟩
              | some st =>
                  exact ⟨_, some { st with req := uriOf ada value },
                    by simp [Hook.act, hreq, hname], .pathHeader hreq⟩
  | frameRecv f o =>
      cases hends : f.endsStream with
      | false => exact ⟨_, x, by simp [Hook.act, hends], .quiet (by simp [Hook.quiet, hends])⟩
      | true =>
          cases x with
          | none => exact ⟨_, none, by simp [Hook.act, hends], .noStreamForFrame hends⟩
          | some st =>
              exact ⟨_, some (st.recvFrame o).2.1, by simp [Hook.act, hends],
                .served hends (recvFrame_served o st)⟩
  | streamClose id errorCode =>
      cases x with
      | none => exact ⟨_, none, rfl, .noStreamToClose⟩
      | some st => exact ⟨_, none, rfl, .released⟩

/-! ## All the hooks of one stream -/

/-- The hooks of one stream, from entry to entry, with their answers. -/
inductive Runs : List Hook → Option Stream → List Answer → Option Stream → Prop
  | nil {x : Option Stream} : Runs [] x [] x
  | cons {h : Hook} {hs : List Hook} {x y z : Option Stream} {a : Answer} {as : List Answer} :
      h.Does ada x a y → Runs hs y as z → Runs (h :: hs) x (a :: as) z

theorem runs_acts : ∀ (hs : List Hook) (x : Option Stream),
    ∃ as y, Keyed.runAt (hs.map (Hook.act ada)) (x.map some) = (as, y.map some) ∧
      Runs ada hs x as y := by
  intro hs
  induction hs with
  | nil => intro x; exact ⟨[], x, rfl, .nil⟩
  | cons h hs ih =>
      intro x
      obtain ⟨a, y, hact, hdoes⟩ := h.does ada x
      obtain ⟨as, z, hrest, hruns⟩ := ih y
      refine ⟨a :: as, z, ?_, .cons hdoes hruns⟩
      simp only [List.map_cons, Keyed.runAt, hact, hrest]

/-- The hooks that were called for the stream `id`. -/
def hooksOf (id : StreamId) (hs : List Hook) : List Hook := hs.filter (·.id = id)

theorem id_of_mem_hooksOf {id : StreamId} {hs : List Hook} {h : Hook} (hh : h ∈ hooksOf id hs) :
    h.id = id := by
  simpa using (List.mem_filter.mp hh).2

/-- What they answered, in a run of all of them from a state. -/
def answersOf (id : StreamId) (hs : List Hook) (s : InboundStreams U) : List Answer :=
  Keyed.answersOf (streamKey id) (s.runHooks ada hs).1

theorem actsOf_calls (id : StreamId) (hs : List Hook) :
    Keyed.actsOf (streamKey id) (hs.map (Hook.call ada)) = (hooksOf id hs).map (Hook.act ada) := by
  have hkey (h : Hook) : streamKey h.id = streamKey id ↔ h.id = id :=
    ⟨streamKey_inj, congrArg streamKey⟩
  simp only [Keyed.actsOf, hooksOf, List.filter_map, List.map_map]
  congr 1
  refine List.filter_congr fun h _ => ?_
  simp [Hook.call, hkey]

/-- In a run of the hooks of all streams, those of one stream run as if alone. -/
theorem answersOf_eq (id : StreamId) (hs : List Hook) (s : InboundStreams U) :
    answersOf ada id hs s = (Keyed.runAt ((hooksOf id hs).map (Hook.act ada))
      (s.streams.lookup (streamKey id))).1 := by
  have hall := congrArg Prod.fst (runHooks_eq ada hs s)
  rw [answersOf, show (s.runHooks ada hs).1 = _ from hall, Keyed.runAll_answers, actsOf_calls]

theorem lookup_runHooks (id : StreamId) (hs : List Hook) (s : InboundStreams U) :
    (s.runHooks ada hs).2.streams.lookup (streamKey id)
      = (Keyed.runAt ((hooksOf id hs).map (Hook.act ada))
          (s.streams.lookup (streamKey id))).2 := by
  have hall := congrArg Prod.snd (runHooks_eq ada hs s)
  rw [show (s.runHooks ada hs).2.streams = _ from hall, Keyed.runAll_lookup, actsOf_calls]

/-- A session that has no streams yet. -/
def InboundStreams.empty (parser : UrlParser U) : InboundStreams U := ⟨∅, parser⟩

/-- From a session without streams, the hooks of each stream make a run. -/
theorem runs_from_empty (id : StreamId) (hs : List Hook) (parser : UrlParser U) :
    ∃ y, Runs ada (hooksOf id hs) none (answersOf ada id hs (.empty parser)) y ∧
      ((InboundStreams.empty parser).runHooks ada hs).2.streams.lookup (streamKey id)
        = y.map some := by
  obtain ⟨as, y, hat, hruns⟩ := runs_acts ada (hooksOf id hs) none
  have hnone : (InboundStreams.empty parser).streams.lookup (streamKey id)
      = (none : Option Stream).map some := Finmap.lookup_empty _
  refine ⟨y, ?_, ?_⟩
  · rw [answersOf_eq, hnone, hat]
    exact hruns
  · rw [lookup_runHooks, hnone, hat]

end

end Wshttp
