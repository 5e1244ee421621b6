/-
# `Wshttp.Stream.Calls` — what a stream does with a request

A stream remembers its request line, and when the frame that ends the request
arrives it opens the file the path names and submits a response that reads from
it.  If there is no such file it writes the error page into a pipe and submits a
response that reads from that; if there is no pipe, it resets the stream.

What the system and nghttp2 answer stands in `FrameOutcome`; what the stream asks
of them is its list of `Effect`s, in order.  A descriptor that `open` or `pipe`
returns is not negative, so it is a natural number here.
-/
import Wshttp.Request
import Wshttp.Session.Io
import Wshttp.Url

namespace Wshttp

/-- Stream ids, as nghttp2 has them. -/
abbrev StreamId := Int32

def NGHTTP2_INTERNAL_ERROR : UInt32 := 2

/-- `stream`: the members its calls read. -/
structure Stream where
  id : StreamId
  fd : Fd := -1
  pipes : Fd × Fd := (0, 0)
  req : Uri := .default
  deriving DecidableEq

structure FrameOutcome where
  /-- `none` is the result `-1` -/
  openFile : Bytes → Option Nat
  /-- the read and the write end; `none` is a result other than `0` -/
  pipe : Option (Nat × Nat)
  write : Bytes → Int
  submitResponse : req.Headers → Fd → Int
  submitRstStream : UInt32 → Int
  /-- the object representation of `req::errors::HTML`: two addresses -/
  htmlObject : Vector UInt8 16

/-- There is no file, and everything else succeeds. -/
def FrameOutcome.noFile : FrameOutcome where
  openFile := fun _ => none
  pipe := some (5, 6)
  write := fun data => data.length
  submitResponse := fun _ _ => 0
  submitRstStream := fun _ => 0
  htmlObject := .replicate 16 0

inductive Effect where
  | opened (path : Bytes) (fd : Fd)
  | openFailed (path : Bytes)
  | piped (readEnd writeEnd : Fd)
  | wrote (fd : Fd) (data : Bytes)
  | closed (fd : Fd)
  | submittedResponse (id : StreamId) (hdrs : req.Headers) (fd : Fd) (rv : Int)
  | submittedRst (id : StreamId) (errorCode : UInt32) (rv : Int)
  /-- `make_stream` has constructed a stream -/
  | created (id : StreamId)
  /-- a stream object has been deleted -/
  | destroyed (id : StreamId)
  /-- a hook logs that it could not find the stream -/
  | couldNotFind (id : StreamId)
  deriving DecidableEq

namespace Stream

variable {U : Type}

/-- `recv_path_header`. -/
def recvPathHeader (ada : Ada U) (path : Bytes) (parser : UrlParser U) (s : Stream) :
    Except Fault Int × Stream × UrlParser U :=
  let parsed := uriParse ada path parser
  match parsed.1 with
  | .error f => (.error f, s, parsed.2)
  | .ok uri =>
      (.ok (if uri.toBool then 0 else NGHTTP2_ERR_CALLBACK_FAILURE), { s with req := uri },
        parsed.2)

/-- `send_response`. -/
def sendResponse (o : FrameOutcome) (hdrs : req.Headers) (s : Stream) : Int × List Effect :=
  let rv := o.submitResponse hdrs s.fd
  (if rv ≠ 0 then NGHTTP2_ERR_FATAL else 0, [.submittedResponse s.id hdrs s.fd rv])

/-- `sizeof(req::errors::HTML) - 1`. -/
def errlen : Nat := 16 - 1

/-- `send_error`. -/
def sendError (o : FrameOutcome) (s : Stream) : Int × Stream × List Effect :=
  match o.pipe with
  | none =>
      let rv := o.submitRstStream NGHTTP2_INTERNAL_ERROR
      (if rv ≠ 0 then NGHTTP2_ERR_FATAL else 0, s, [.submittedRst s.id NGHTTP2_INTERNAL_ERROR rv])
  | some (readEnd, writeEnd) =>
      let s := { s with pipes := (readEnd, writeEnd) }
      let data := o.htmlObject.toList.take errlen
      let len := o.write data
      let written := [.piped s.pipes.1 s.pipes.2, .wrote s.pipes.2 data, .closed s.pipes.2]
      if len ≠ errlen then (NGHTTP2_ERR_FATAL, s, written ++ [.closed s.pipes.1])
      else
        let s := { s with fd := s.pipes.1 }
        let sent := s.sendResponse o (.makeStatus ._404)
        (sent.1, s, written ++ sent.2 ++ if sent.1 ≠ 0 then [.closed s.pipes.1] else [])

/-- The loop of `recv_frame` that removes leading slashes. -/
def stripSlashes : Bytes → Bytes
  | c :: cs => if c = 0x2f then stripSlashes cs else c :: cs
  | [] => []

/-- `recv_frame`.  `open` sees the path up to its first NUL. -/
def recvFrame (o : FrameOutcome) (s : Stream) : Int × Stream × List Effect :=
  if !s.req.toBool then (NGHTTP2_ERR_CALLBACK_FAILURE, s, [])
  else
    let path := cString (stripSlashes s.req.path)
    match o.openFile path with
    | none =>
        let failed := s.sendError o
        (failed.1, failed.2.1, .openFailed path :: failed.2.2)
    | some rv =>
        let s := { s with fd := rv }
        let sent := s.sendResponse o (.makeStatus ._200)
        (sent.1, s, .opened path rv :: sent.2 ++ if sent.1 ≠ 0 then [.closed s.fd] else [])

/-- `deleters::stream_d`, which `shared_ptr` calls where a plain one would `delete`. -/
def streamD (s : Stream) : List Effect := if s.fd = -1 then [.closed s.fd] else []

end Stream

end Wshttp
