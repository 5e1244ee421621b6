/-
# `Wshttp.Session.Outbound` — an outbound session never has a stream

The hooks of an outbound session look streams up in `_streams` and in the user data that
nghttp2 keeps for a stream.  Both are filled by `begin_headers_hook` of an *inbound* session;
its outbound sibling writes a log line.

| callback of nghttp2            | hook                 | case of `OutboundHook` |
| :----------------------------- | :------------------- | :--------------------- |
| `on_begin_headers_callback`    | `begin_headers_hook` | `beginHeaders`         |
| `on_header_callback`           | `recv_header_hook`   | `recvHeader`           |
| `on_data_chunk_recv_callback`  | `recv_data` of `_get_stream` | `dataChunk`    |
| `on_frame_recv_callback`       | `frame_recv_hook`    | `frameRecv`            |
| `on_stream_close_callback`     | `stream_close_hook`  | `streamClose`          |

**Proved here.**  In every run there is never a stream, and so nothing of a response gets
through: a header of it closes the session, a piece of its body dereferences a null pointer,
and the close of a stream neither terminates nor closes anything (`outbound_never_receives`).
-/
import Wshttp.Session.Arrival

namespace Wshttp

open Machine Callbacks

def NGHTTP2_HCAT_RESPONSE : UInt8 := 1

/-- A HEADERS frame that opens a response. -/
def Frame.isResponse (f : Frame) : Bool :=
  f.type == NGHTTP2_HEADERS && f.cat == NGHTTP2_HCAT_RESPONSE

inductive OutboundHook where
  | beginHeaders (frame : Frame)
  | recvHeader (frame : Frame) (name value : Bytes)
  | dataChunk (id : StreamId) (data : Bytes)
  | frameRecv (frame : Frame)
  /-- with what `nghttp2_session_terminate_session` would return -/
  | streamClose (id : StreamId) (errorCode : UInt32) (terminateRv : Int)

/-- `userData` is what `nghttp2_session_set_stream_user_data` has been given. -/
structure OutboundStreams where
  streams : PtrMap UInt32 Stream
  userData : Finmap fun _ : StreamId => Stream
  terminated : Nat
  closeJobs : Nat

/-! ## The calls of a stream -/

namespace Stream

/-- `recv_header`, which prints the header. -/
def recvHeader (_name _value : Bytes) (_s : Stream) : Except Fault Int := .ok 0

/-- `recv_data`, which prints the data. -/
def recvData (_data : Bytes) (_s : Stream) : Except Fault Int := .ok 0

end Stream

/-! ## The hooks -/

namespace OutboundStreams

def empty : OutboundStreams := ⟨∅, ∅, 0, 0⟩

/-- `begin_headers_hook`, either branch of which logs. -/
def beginHeadersHook (_frame : Frame) (s : OutboundStreams) : Except Fault Int × OutboundStreams :=
  (.ok 0, s)

/-- `recv_header_hook`. -/
def recvHeaderHook (frame : Frame) (name value : Bytes) (s : OutboundStreams) :
    Except Fault Int × OutboundStreams :=
  if !frame.isResponse then (.ok 0, s)
  else
    match s.streams.lookup (streamKey frame.streamId) with
    | none => (.ok NGHTTP2_ERR_CALLBACK_FAILURE, s)
    | some none => (.error .nullPointer, s)
    | some (some st) => (st.recvHeader name value, s)

/-- `on_data_chunk_recv_callback`: `_get_stream` gives a null pointer for a stream without
user data. -/
def onDataChunkRecvCallback (id : StreamId) (data : Bytes) (s : OutboundStreams) :
    Except Fault Int × OutboundStreams :=
  match s.userData.lookup id with
  | none => (.error .nullPointer, s)
  | some st => (st.recvData data, s)

/-- `frame_recv_hook`, which logs. -/
def frameRecvHook (_frame : Frame) (s : OutboundStreams) : Except Fault Int × OutboundStreams :=
  (.ok 0, s)

/-- `stream_close_hook`. -/
def streamCloseHook (id : StreamId) (_errorCode : UInt32) (terminateRv : Int)
    (s : OutboundStreams) : Except Fault Int × OutboundStreams :=
  if streamKey id ∈ s.streams then
    let s := { s with
      streams := s.streams.erase (streamKey id)
      terminated := s.terminated + 1 }
    if terminateRv ≠ 0 then (.ok NGHTTP2_ERR_CALLBACK_FAILURE, s)
    else (.ok 0, { s with closeJobs := s.closeJobs + 1 })
  else (.ok 0, s)

end OutboundStreams

/-- nghttp2 calls a hook, and looks at what it returns. -/
def outboundCall (h : OutboundHook) (s : OutboundStreams) : Except Fault Int × OutboundStreams :=
  match h with
  | .beginHeaders frame => s.beginHeadersHook frame
  | .recvHeader frame name value => s.recvHeaderHook frame name value
  | .dataChunk id data => s.onDataChunkRecvCallback id data
  | .frameRecv frame => s.frameRecvHook frame
  | .streamClose id errorCode terminateRv => s.streamCloseHook id errorCode terminateRv

/-! ## What they come to -/

namespace OutboundHook

/-- Part of a response: one of its headers, or a piece of its body. -/
def ofResponse : OutboundHook → Bool
  | .recvHeader frame _ _ => frame.isResponse
  | .dataChunk _ _ => true
  | _ => false

/-- What a hook answers when there is no stream. -/
def unheard : OutboundHook → Except Fault Int
  | .recvHeader frame _ _ => .ok (if frame.isResponse then NGHTTP2_ERR_CALLBACK_FAILURE else 0)
  | .dataChunk _ _ => .error .nullPointer
  | _ => .ok 0

end OutboundHook

theorem outboundCall_empty (h : OutboundHook) :
    outboundCall h .empty = (h.unheard, .empty) := by
  cases h with
  | beginHeaders frame => rfl
  | recvHeader frame name value =>
      simp only [outboundCall, OutboundStreams.recvHeaderHook, OutboundHook.unheard]
      cases frame.isResponse with
      | false => rfl
      | true => rfl
  | dataChunk id data => rfl
  | frameRecv frame => rfl
  | streamClose id errorCode terminateRv =>
      have hnone : streamKey id ∉ OutboundStreams.empty.streams := Finmap.notMem_empty
      rw [outboundCall, OutboundStreams.streamCloseHook, if_neg hnone]
      rfl

theorem stopsParse_unheard (h : OutboundHook) : stopsParse h.unheard = h.ofResponse := by
  cases h with
  | recvHeader frame name value =>
      simp only [OutboundHook.unheard, OutboundHook.ofResponse]
      cases frame.isResponse <;> rfl
  | beginHeaders | dataChunk | frameRecv | streamClose => rfl

/-- The answer that stops nghttp2, if there is one, is the one to a part of a response. -/
theorem callUntil_empty : ∀ calls : List OutboundHook,
    (callUntil outboundCall stopsParse calls .empty).2 = .empty ∧
      ((callUntil outboundCall stopsParse calls .empty).1.any fun r => stopsParse r.2)
        = (calls.find? OutboundHook.ofResponse).isSome ∧
      faultOf (callUntil outboundCall stopsParse calls .empty).1
        = (calls.find? OutboundHook.ofResponse).bind fun h =>
            match h.unheard with
            | .error f => some f
            | .ok _ => none := by
  intro calls
  induction calls with
  | nil => exact ⟨rfl, rfl, rfl⟩
  | cons h calls ih =>
      have hcall := outboundCall_empty h
      have hstop : stopsParse (outboundCall h .empty).1 = h.ofResponse := by
        rw [hcall]
        exact stopsParse_unheard h
      cases hresp : h.ofResponse with
      | true =>
          rw [callUntil_stop (hstop.trans hresp), List.find?_cons_of_pos hresp, hcall]
          refine ⟨rfl, ?_, ?_⟩
          · rw [List.any_cons, stopsParse_unheard, hresp]
            rfl
          · simp only [faultOf, List.findSome?_cons, List.findSome?_nil, Option.bind_some]
            cases h.unheard <;> rfl
      | false =>
          rw [callUntil_go (hstop.trans hresp), List.find?_cons_of_neg (by simp [hresp]), hcall]
          obtain ⟨hstate, hany, hfault⟩ := ih
          refine ⟨hstate, ?_, ?_⟩
          · rw [List.any_cons, stopsParse_unheard, hresp, hany]
            rfl
          · have hok : ∃ rv, h.unheard = .ok rv := by
              cases h with
              | dataChunk id data => cases hresp
              | beginHeaders | recvHeader | frameRecv | streamClose => exact ⟨_, rfl⟩
            obtain ⟨rv, hrv⟩ := hok
            rw [faultOf, List.findSome?_cons, hrv]
            exact hfault

/-! ## Runs -/

/-- An outbound session with what its hooks read and write. -/
abbrev OutboundConnection := Hooked OutboundStreams OutboundHook

/-- What an arrival with this content does to an outbound session. -/
structure ResponseUnheard (p : Parse OutboundHook) (o : SendOutcome) (s t : OutboundConnection)
    (out : Except Fault Unit) : Prop where
  /-- no stream has been made, none has been looked up, and no hook has asked for anything -/
  streamless : t.hooks = .empty
  /-- the first part of a response is a header: the session is closed, and nothing is sent -/
  header : ∀ frame name value,
    (p.calls s.base.bev.input).find? OutboundHook.ofResponse = some (.recvHeader frame name value) →
      out = .ok () ∧ t.base.closeJobs = s.base.closeJobs + 1 ∧ t.base.bev = s.base.bev
  /-- it is a piece of a body: `recv_data` is called on a null pointer -/
  body : ∀ id data,
    (p.calls s.base.bev.input).find? OutboundHook.ofResponse = some (.dataChunk id data) →
      out = .error .nullPointer
  /-- there is no response in it: the hooks do nothing -/
  other : (p.calls s.base.bev.input).find? OutboundHook.ofResponse = none →
    (out, t.base) = s.base.readSessionData ⟨p.result, p.frames⟩ o

/-- **An outbound session receives nothing.**  In every state that a run of the session
reaches, for whatever nghttp2 may find in the input. -/
theorem outbound_never_receives {bigEndian : Bool} {base : SessionBase}
    {es : List (Hooked.Event OutboundHook)} {s : OutboundConnection}
    (hrun : run (Hooked.step outboundCall bigEndian) (.opened base .empty) es = some s)
    (hsession : s.base.session ≠ none) (p : Parse OutboundHook) (o : SendOutcome) :
    ResponseUnheard p o s (s.readCb outboundCall p o).2 (s.readCb outboundCall p o).1 := by
  have hempty : s.hooks = .empty := by
    have hcall : ∀ (_ : List OutboundHook) (hooks : OutboundStreams) (h : OutboundHook),
        hooks = .empty → (outboundCall h hooks).2 = .empty := by
      intro _ hooks h hhooks
      rw [hhooks, outboundCall_empty]
    exact Hooked.run_follows outboundCall hcall rfl hrun
  obtain ⟨hstate, hany, hfault⟩ := callUntil_empty (p.calls s.base.bev.input)
  rw [← hempty] at hstate hany hfault
  obtain ⟨n, hn⟩ := Option.ne_none_iff_exists'.mp hsession
  refine ⟨?_, ?_, ?_, ?_⟩
  · simp only [Hooked.readCb, hn]
    split <;> exact hstate.trans hempty
  · intro frame name value hfirst
    rw [hfirst] at hany hfault
    have hneg : NGHTTP2_ERR_CALLBACK_FAILURE < 0 := by decide
    obtain ⟨m, hm⟩ := readSessionData_failed (o := o) (s := s.base)
      (r := ⟨fun _ => NGHTTP2_ERR_CALLBACK_FAILURE, p.frames⟩) hsession hneg
    have hnofault : faultOf (callUntil outboundCall stopsParse (p.calls s.base.bev.input)
        s.hooks).1 = none := hfault
    simp only [Hooked.readCb, hn, hnofault, hany, Option.isSome_some, if_true, hm]
    exact ⟨trivial, rfl, rfl⟩
  · intro id data hfirst
    rw [hfirst] at hfault
    have hnull : faultOf (callUntil outboundCall stopsParse (p.calls s.base.bev.input)
        s.hooks).1 = some .nullPointer := hfault
    simp only [Hooked.readCb, hn, hnull]
  · intro hfirst
    rw [hfirst] at hany hfault
    have hnofault : faultOf (callUntil outboundCall stopsParse (p.calls s.base.bev.input)
        s.hooks).1 = none := hfault
    simp only [Hooked.readCb, hn, hnofault, hany, Option.isSome_none, Bool.false_eq_true, if_false]
    exact readSessionData_congr rfl rfl

/-- The headers of a response to stream 1 arrive, and the session asks to be closed. -/
theorem outbound_never_receives_response :
    ResponseUnheard (.finds [.recvHeader ⟨NGHTTP2_HEADERS, 0, 1, NGHTTP2_HCAT_RESPONSE⟩
        req.fields.status (chars "200")]) .sendAll
      (.opened (.initialized true 7 ⟨.ofPort 50000, .ofPort 0⟩) .empty)
      (Hooked.readCb outboundCall (.finds [.recvHeader ⟨NGHTTP2_HEADERS, 0, 1,
        NGHTTP2_HCAT_RESPONSE⟩ req.fields.status (chars "200")]) .sendAll
        (.opened (.initialized true 7 ⟨.ofPort 50000, .ofPort 0⟩) .empty)).2
      (.ok ()) :=
  @outbound_never_receives false (.initialized true 7 ⟨.ofPort 50000, .ofPort 0⟩) [] _ rfl
    (by simp [Hooked.opened, SessionBase.initialized]) _ _

end Wshttp
