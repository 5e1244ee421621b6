/-
# `Wshttp.Stream.Hooks` — the hooks of an inbound session, and its `_streams`

nghttp2 reports what it reads through four hooks.  They look a stream up by its id
in `_streams`, make it when its request begins, and erase it when it closes; the
erased `shared_ptr` calls its deleter.  All requests go through the one global
`url_parser`, which is part of the state here.

| callback of nghttp2          | hook                | case of `Hook`   |
| :--------------------------- | :------------------ | :--------------- |
| `on_begin_headers_callback`  | `begin_headers_hook`| `beginHeaders`   |
| `on_header_callback`         | `recv_header_hook`  | `recvHeader`     |
| `on_frame_recv_callback`     | `frame_recv_hook`   | `frameRecv`      |
| `on_stream_close_callback`   | `stream_close_hook` | `streamClose`    |

The session may be destroyed at any time between two hooks: its close job, a second accept of
its address, `close_all` and the end of the listener do so.  No hook is called after that, and
`_streams`, a member, releases the streams that are left (`destroyStreams`).

**Proved here.**  Each hook is a call on one entry of `_streams` in the sense of
`Wshttp.Lib.Keyed` (`runHook_eq`), and so a run of the hooks is a run of such
calls (`runHooks_eq`): the parser never shows.
-/
import Wshttp.Lib.Keyed
import Wshttp.Lib.PtrMap
import Wshttp.Stream.Calls

namespace Wshttp

def NGHTTP2_DATA : UInt8 := 0
def NGHTTP2_HEADERS : UInt8 := 1
def NGHTTP2_FLAG_END_STREAM : UInt8 := 1
def NGHTTP2_HCAT_REQUEST : UInt8 := 0

/-- `nghttp2_frame`: the header fields the hooks read, and `headers.cat`. -/
structure Frame where
  type : UInt8
  flags : UInt8
  streamId : StreamId
  cat : UInt8
  deriving DecidableEq

/-- A HEADERS frame that opens a request. -/
def Frame.isRequest (f : Frame) : Bool := f.type == NGHTTP2_HEADERS && f.cat == NGHTTP2_HCAT_REQUEST

/-- The HEADERS frame of a request without a body. -/
def requestFrame (id : StreamId) : Frame :=
  ⟨NGHTTP2_HEADERS, NGHTTP2_FLAG_END_STREAM, id, NGHTTP2_HCAT_REQUEST⟩

/-- A DATA or HEADERS frame with `END_STREAM`. -/
def Frame.endsStream (f : Frame) : Bool :=
  (f.type == NGHTTP2_DATA || f.type == NGHTTP2_HEADERS) && f.flags &&& NGHTTP2_FLAG_END_STREAM != 0

/-- The key of `_streams`: an `int32_t` converted to `uint32_t`. -/
def streamKey (id : StreamId) : UInt32 := id.toUInt32

theorem streamKey_inj {i j : StreamId} (h : streamKey i = streamKey j) : i = j := by
  cases i
  cases j
  exact congrArg Int32.ofUInt32 h

structure InboundStreams (U : Type) where
  streams : PtrMap UInt32 Stream
  parser : UrlParser U

inductive Hook where
  | beginHeaders (frame : Frame)
  | recvHeader (frame : Frame) (name value : Bytes)
  | frameRecv (frame : Frame) (o : FrameOutcome)
  | streamClose (id : StreamId) (errorCode : UInt32)

/-- The stream a hook is called for. -/
def Hook.id : Hook → StreamId
  | .beginHeaders frame => frame.streamId
  | .recvHeader frame _ _ => frame.streamId
  | .frameRecv frame _ => frame.streamId
  | .streamClose id _ => id

/-- What a hook returns to nghttp2, and what it does on the way. -/
structure Answer where
  rv : Except Fault Int
  effects : List Effect

namespace InboundStreams

variable {U : Type}

/-- `begin_headers_hook`.  `make_stream` never gives a null pointer. -/
def beginHeadersHook (frame : Frame) (s : InboundStreams U) : Answer × InboundStreams U :=
  if !frame.isRequest then (⟨.ok 0, []⟩, s)
  else if streamKey frame.streamId ∈ s.streams then (⟨.ok 0, []⟩, s)
  else
    let placed := s.streams.emplaceNull (streamKey frame.streamId)
    (⟨.ok 0, [.created frame.streamId]⟩,
      { s with
        streams := placed.insert (streamKey frame.streamId) (some { id := frame.streamId }) })

/-- `recv_header_hook`. -/
def recvHeaderHook (ada : Ada U) (frame : Frame) (name value : Bytes) (s : InboundStreams U) :
    Answer × InboundStreams U :=
  if !frame.isRequest then (⟨.ok 0, []⟩, s)
  else if spanEq req.fields.path name then
    match s.streams.lookup (streamKey frame.streamId) with
    | none => (⟨.ok NGHTTP2_ERR_CALLBACK_FAILURE, [.couldNotFind frame.streamId]⟩, s)
    | some none => (⟨.error .nullPointer, []⟩, s)
    | some (some st) =>
        let (rv, st, parser) := st.recvPathHeader ada value s.parser
        (⟨rv, []⟩,
          { streams := s.streams.insert (streamKey frame.streamId) (some st), parser })
  else (⟨.ok 0, []⟩, s)

/-- `frame_recv_hook`. -/
def frameRecvHook (frame : Frame) (o : FrameOutcome) (s : InboundStreams U) :
    Answer × InboundStreams U :=
  if frame.endsStream then
    match s.streams.lookup (streamKey frame.streamId) with
    | none => (⟨.ok NGHTTP2_ERR_CALLBACK_FAILURE, [.couldNotFind frame.streamId]⟩, s)
    | some none => (⟨.error .nullPointer, []⟩, s)
    | some (some st) =>
        let (rv, st, effects) := st.recvFrame o
        (⟨.ok rv, effects⟩,
          { s with streams := s.streams.insert (streamKey frame.streamId) (some st) })
  else (⟨.ok 0, []⟩, s)

/-- `stream_close_hook`.  A null `shared_ptr` has no deleter to call. -/
def streamCloseHook (id : StreamId) (_errorCode : UInt32) (s : InboundStreams U) :
    Answer × InboundStreams U :=
  match s.streams.lookup (streamKey id) with
  | none => (⟨.ok 0, [.couldNotFind id]⟩, s)
  | some none => (⟨.ok 0, []⟩, { s with streams := s.streams.erase (streamKey id) })
  | some (some st) =>
      (⟨.ok 0, st.streamD⟩, { s with streams := s.streams.erase (streamKey id) })

/-- nghttp2 calls a hook. -/
def runHook (ada : Ada U) (h : Hook) (s : InboundStreams U) : Answer × InboundStreams U :=
  match h with
  | .beginHeaders frame => s.beginHeadersHook frame
  | .recvHeader frame name value => s.recvHeaderHook ada frame name value
  | .frameRecv frame o => s.frameRecvHook frame o
  | .streamClose id errorCode => s.streamCloseHook id errorCode

/-- nghttp2 calls the hooks one after the other: the answers, each with the stream
it was given for, and the state. -/
def runHooks (ada : Ada U) : List Hook → InboundStreams U →
    List (UInt32 × Answer) × InboundStreams U
  | [], s => ([], s)
  | h :: hs, s =>
      ((streamKey h.id, (s.runHook ada h).1) :: (runHooks ada hs (s.runHook ada h).2).1,
        (runHooks ada hs (s.runHook ada h).2).2)

/-- The end of an element of `_streams`.  A null `shared_ptr` has no deleter to call. -/
def releaseEntry : Keyed.Act (Option Stream) (List Effect)
  | some (some st) => (st.streamD, none)
  | some none | none => ([], none)

/-- The end of `_streams`, with the session.  The map is unordered. -/
def destroyStreams (order : Keyed.Traversal UInt32) (s : InboundStreams U) :
    List (UInt32 × List Effect) × PtrMap UInt32 Stream :=
  Keyed.sweep order releaseEntry s.streams

end InboundStreams

/-! ## A hook acts on one entry -/

section
variable {U : Type} (ada : Ada U)

/-- What a hook makes of the entry of its stream. -/
def Hook.act : Hook → Keyed.Act (Option Stream) Answer
  | .beginHeaders frame, entry =>
      if frame.isRequest && entry.isNone then
        (⟨.ok 0, [.created frame.streamId]⟩, some (some { id := frame.streamId }))
      else (⟨.ok 0, []⟩, entry)
  | .recvHeader frame name value, entry =>
      if frame.isRequest && spanEq req.fields.path name then
        match entry with
        | none => (⟨.ok NGHTTP2_ERR_CALLBACK_FAILURE, [.couldNotFind frame.streamId]⟩, none)
        | some none => (⟨.error .nullPointer, []⟩, some none)
        | some (some st) => (⟨.ok 0, []⟩, some (some { st with req := uriOf ada value }))
      else (⟨.ok 0, []⟩, entry)
  | .frameRecv frame o, entry =>
      if frame.endsStream then
        match entry with
        | none => (⟨.ok NGHTTP2_ERR_CALLBACK_FAILURE, [.couldNotFind frame.streamId]⟩, none)
        | some none => (⟨.error .nullPointer, []⟩, some none)
        | some (some st) =>
            (⟨.ok (st.recvFrame o).1, (st.recvFrame o).2.2⟩, some (some (st.recvFrame o).2.1))
      else (⟨.ok 0, []⟩, entry)
  | .streamClose id _, entry =>
      match entry with
      | none => (⟨.ok 0, [.couldNotFind id]⟩, none)
      | some none => (⟨.ok 0, []⟩, none)
      | some (some st) => (⟨.ok 0, st.streamD⟩, none)

def Hook.call (h : Hook) : Keyed.Call UInt32 (Option Stream) Answer := ⟨streamKey h.id, h.act ada⟩

theorem Stream.recvPathHeader_eq (path : Bytes) (parser : UrlParser U) (s : Stream) :
    s.recvPathHeader ada path parser
      = (.ok 0, { s with req := uriOf ada path }, (uriParse ada path parser).2) := by
  simp [Stream.recvPathHeader, uriParse_eq]

theorem beginHeaders_eq (frame : Frame) (s : InboundStreams U) :
    ((s.beginHeadersHook frame).1, (s.beginHeadersHook frame).2.streams)
      = ((Hook.beginHeaders frame).call ada).apply s.streams := by
  unfold InboundStreams.beginHeadersHook Keyed.Call.apply
  simp only [Hook.call, Hook.id, Hook.act]
  cases hreq : frame.isRequest with
  | false => simp [Keyed.write_lookup]
  | true =>
      by_cases hmem : streamKey frame.streamId ∈ s.streams
      · obtain ⟨entry, hentry⟩ := Finmap.mem_iff.mp hmem
        have hsame := Keyed.write_lookup (streamKey frame.streamId) s.streams
        rw [hentry] at hsame
        simp [hmem, hentry, hsame]
      · have hnone := Finmap.lookup_eq_none.mpr hmem
        simp [hmem, hnone, Keyed.write, PtrMap.emplaceNull_of_notMem]

theorem recvHeader_eq (frame : Frame) (name value : Bytes) (s : InboundStreams U) :
    ((s.recvHeaderHook ada frame name value).1, (s.recvHeaderHook ada frame name value).2.streams)
      = ((Hook.recvHeader frame name value).call ada).apply s.streams := by
  have hsame := Keyed.write_lookup (streamKey frame.streamId) s.streams
  unfold InboundStreams.recvHeaderHook Keyed.Call.apply
  simp only [Hook.call, Hook.id, Hook.act]
  cases hreq : frame.isRequest with
  | false => simp [hsame]
  | true =>
      cases hname : spanEq req.fields.path name with
      | false => simp [hsame]
      | true =>
          rcases hentry : s.streams.lookup (streamKey frame.streamId) with _ | _ | st
          · rw [hentry] at hsame
            simp [hsame]
          · rw [hentry] at hsame
            simp [hsame]
          · simp [Stream.recvPathHeader_eq, Keyed.write]

theorem frameRecv_eq (frame : Frame) (o : FrameOutcome) (s : InboundStreams U) :
    ((s.frameRecvHook frame o).1, (s.frameRecvHook frame o).2.streams)
      = ((Hook.frameRecv frame o).call ada).apply s.streams := by
  have hsame := Keyed.write_lookup (streamKey frame.streamId) s.streams
  unfold InboundStreams.frameRecvHook Keyed.Call.apply
  simp only [Hook.call, Hook.id, Hook.act]
  cases hends : frame.endsStream with
  | false => simp [hsame]
  | true =>
      rcases hentry : s.streams.lookup (streamKey frame.streamId) with _ | _ | st
      · rw [hentry] at hsame
        simp [hsame]
      · rw [hentry] at hsame
        simp [hsame]
      · simp [Keyed.write]

theorem streamClose_eq (id : StreamId) (errorCode : UInt32) (s : InboundStreams U) :
    ((s.streamCloseHook id errorCode).1, (s.streamCloseHook id errorCode).2.streams)
      = ((Hook.streamClose id errorCode).call ada).apply s.streams := by
  have hsame := Keyed.write_lookup (streamKey id) s.streams
  unfold InboundStreams.streamCloseHook Keyed.Call.apply
  simp only [Hook.call, Hook.id, Hook.act]
  rcases hentry : s.streams.lookup (streamKey id) with _ | _ | st
  · rw [hentry] at hsame
    simp [hsame]
  · simp [Keyed.write]
  · simp [Keyed.write]

/-- A hook is the call on its stream's entry, whatever the parser holds. -/
theorem runHook_eq (h : Hook) (s : InboundStreams U) :
    ((s.runHook ada h).1, (s.runHook ada h).2.streams) = (h.call ada).apply s.streams := by
  cases h with
  | beginHeaders frame => exact beginHeaders_eq ada frame s
  | recvHeader frame name value => exact recvHeader_eq ada frame name value s
  | frameRecv frame o => exact frameRecv_eq ada frame o s
  | streamClose id errorCode => exact streamClose_eq ada id errorCode s

theorem runHook_answer (h : Hook) (s : InboundStreams U) :
    (s.runHook ada h).1 = ((h.call ada).apply s.streams).1 :=
  congrArg Prod.fst (runHook_eq ada h s)

theorem runHook_streams (h : Hook) (s : InboundStreams U) :
    (s.runHook ada h).2.streams = ((h.call ada).apply s.streams).2 :=
  congrArg Prod.snd (runHook_eq ada h s)

theorem runHooks_eq : ∀ (hs : List Hook) (s : InboundStreams U),
    ((s.runHooks ada hs).1, (s.runHooks ada hs).2.streams)
      = Keyed.runAll (hs.map (Hook.call ada)) s.streams := by
  intro hs
  induction hs with
  | nil => intro s; rfl
  | cons h hs ih =>
      intro s
      have hrest := ih (s.runHook ada h).2
      rw [runHook_streams] at hrest
      simp only [InboundStreams.runHooks, List.map_cons, Keyed.runAll]
      rw [runHook_answer, ← hrest]
      rfl

end

end Wshttp
