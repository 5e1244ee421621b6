/-
# `Wshttp.Session.Io` — a session between its bufferevent and nghttp2

`session_base` moves bytes both ways: `read_session_data` hands the input
evbuffer to `nghttp2_session_mem_recv2`, and `send_session_data` lets
`nghttp2_session_send` push its queued frames through `send_hook` into the
output evbuffer.  libevent calls in through `event_cb`, `read_cb` and
`write_cb`.

The libraries are parameters of the step: what they answer stands in the event.

| outcome        | decides                                                          |
| :------------- | :--------------------------------------------------------------- |
| `RecvOutcome`  | the result of `mem_recv2`, and the frames queued meanwhile       |
| `SendOutcome`  | when the library fails, and whether `bufferevent_write` appends  |
| `InitOutcome`  | the return values behind `initialize_session` and `send_initial` |

`nghttp2_session_send` is modelled by its documented loop: it calls
`send_callback` until no frame is left or the callback answers `WOULDBLOCK`.
libevent appends arrivals to the input evbuffer and keeps them until the program
drains them; when a non-empty output evbuffer drains to empty it schedules the
write callback (`writeScheduled`), and only then does it deliver it.

The last three fields of a session are history and nothing reads them: all bytes
that have arrived, all bytes handed to `mem_recv2`, and the stream offsets of the
latter.
-/
import Wshttp.Lib.Run
import Wshttp.Address

namespace Wshttp

open Machine

def OUTPUT_BLOCK_THRESHOLD : Nat := 1 <<< 16

def NGHTTP2_ERR_WOULDBLOCK : Int := -504
def NGHTTP2_ERR_FATAL : Int := -900
def NGHTTP2_ERR_CALLBACK_FAILURE : Int := -902

def BEV_EVENT_CONNECTED : UInt16 := 0x80

structure Bufferevent where
  input : Bytes := []
  output : Bytes := []
  writeScheduled : Bool := false
  deriving DecidableEq

/-- The part of an `nghttp2_session` the I/O code depends on: the frames still to be sent. -/
structure Nghttp2Session where
  outq : List Bytes := []
  deriving DecidableEq

structure SessionBase where
  fd : Fd
  path : Path
  bev : Bufferevent
  session : Option Nghttp2Session
  isOutbound : Bool
  closeJobs : Nat := 0
  received : Bytes := []
  handed : Bytes := []
  handedAt : List Nat := []
  deriving DecidableEq

/-- A session once `initialize_session` has run, before any byte has moved. -/
def SessionBase.initialized (isOutbound : Bool) (fd : Fd) (path : Path) : SessionBase :=
  { fd, path, isOutbound, bev := {}, session := some {} }

structure RecvOutcome where
  ret : Bytes → Int
  frames : Bytes → List Bytes

structure SendOutcome where
  libraryError : Nat → Int
  writeOk : Nat → Bool

/-- nghttp2 consumes the whole buffer, and queues nothing meanwhile. -/
def RecvOutcome.consumeAll : RecvOutcome := ⟨fun data => data.length, fun _ => []⟩

/-- The library reports no error and every `bufferevent_write` appends. -/
def SendOutcome.sendAll : SendOutcome := ⟨fun _ => 0, fun _ => true⟩

structure InitOutcome where
  setsockopt : Fd → Int
  getsockname : Fd → Option Sockaddr
  optionNew : Int
  sessionNew : Int
  submitSettings : Int

/-- Every call behind the connection event succeeds. -/
def InitOutcome.succeeds : InitOutcome where
  setsockopt := fun _ => 0
  getsockname := fun _ => some (.inet 0x0100007f 0)
  optionNew := 0
  sessionNew := 0
  submitSettings := 0

/-- How a call ends, and the state it leaves: an exception undoes nothing. -/
abbrev Outcome (σ : Type) := Except Fault Unit × σ

def Outcome.andThen {σ : Type} (r : Outcome σ) (k : σ → Outcome σ) : Outcome σ :=
  match r with
  | (.ok (), s) => k s
  | (.error f, s) => (.error f, s)

/-- The state after a call that returned. -/
def Outcome.returned {σ : Type} : Outcome σ → Option σ
  | (.ok (), s) => some s
  | (.error _, _) => none

/-! ## Sending -/

/-- `session_base::send_hook`.  The result of `bufferevent_write` is not looked at. -/
def sendHook (writeOk : Bool) (data : Bytes) (bev : Bufferevent) : Int × Bufferevent :=
  if bev.output.length ≥ OUTPUT_BLOCK_THRESHOLD then (NGHTTP2_ERR_WOULDBLOCK, bev)
  else (data.length, if writeOk then { bev with output := bev.output ++ data } else bev)

/-- `nghttp2_session_send`, from the `n`-th chunk on: its result, the frames it
keeps, and the bufferevent. -/
def nghttp2SessionSend (o : SendOutcome) : Nat → List Bytes → Bufferevent →
    Int × List Bytes × Bufferevent
  | n, [], bev => (o.libraryError n, [], bev)
  | n, data :: rest, bev =>
      if o.libraryError n ≠ 0 then (o.libraryError n, data :: rest, bev)
      else
        let sent := sendHook (o.writeOk n) data bev
        if sent.1 = NGHTTP2_ERR_WOULDBLOCK then (0, data :: rest, sent.2)
        else if sent.1 < 0 then (NGHTTP2_ERR_CALLBACK_FAILURE, data :: rest, sent.2)
        else nghttp2SessionSend o (n + 1) rest sent.2

namespace SessionBase

/-- `close_session`: both kinds of session enqueue a job and return. -/
def closeSession (s : SessionBase) : SessionBase := { s with closeJobs := s.closeJobs + 1 }

def sendSessionData (o : SendOutcome) (s : SessionBase) : Outcome SessionBase :=
  match s.session with
  | none => (.error .nullPointer, s)
  | some n =>
      let sent := nghttp2SessionSend o 0 n.outq s.bev
      let s := { s with session := some { outq := sent.2.1 }, bev := sent.2.2 }
      if sent.1 ≠ 0 then
        (.error (.throws (runtimeError "Failed to dispatch session data to remote: {}")), s)
      else (.ok (), s)

/-! ## Receiving -/

/-- `nghttp2_session_mem_recv2` on `data`: the hooks it calls may queue frames. -/
def nghttp2SessionMemRecv2 (r : RecvOutcome) (n : Nghttp2Session) (data : Bytes) :
    Int × Nghttp2Session :=
  (r.ret data, { n with outq := n.outq ++ r.frames data })

/-- History of a buffer handed over: the evbuffer holds the last bytes received. -/
def noteHanded (s : SessionBase) (data : Bytes) : SessionBase :=
  { s with
    handed := s.handed ++ data
    handedAt := s.handedAt ++ List.range' (s.received.length - data.length) data.length }

def readSessionData (r : RecvOutcome) (o : SendOutcome) (s : SessionBase) : Outcome SessionBase :=
  match s.session with
  | none => (.error .nullPointer, s)
  | some n =>
      let data := s.bev.input
      let recv := nghttp2SessionMemRecv2 r n data
      let s := { s.noteHanded data with session := some recv.2 }
      if recv.1 < 0 then (.ok (), s.closeSession)
      else s.sendSessionData o

def writeSessionData (wantRead wantWrite : Bool) (o : SendOutcome) (s : SessionBase) :
    Outcome SessionBase :=
  if s.bev.output.length > 0 then (.ok (), s)
  else
    match s.session with
    | none => (.error .nullPointer, s)
    | some _ =>
        if !wantRead && !wantWrite then (.ok (), s.closeSession)
        else s.sendSessionData o

/-! ## The connection event -/

def inboundInitializeSession (i : InitOutcome) (s : SessionBase) : Outcome SessionBase :=
  if i.optionNew ≠ 0 then
    (.error (.throws (runtimeError "Failed to create nghttp2 session option struct: {}")), s)
  else if i.sessionNew ≠ 0 then
    (.error (.throws (runtimeError "Failed to initialize inbound session: {}")), s)
  else (.ok (), { s with session := some {} })

def outboundInitializeSession (bigEndian : Bool) (i : InitOutcome) (s : SessionBase) :
    Outcome SessionBase :=
  if i.setsockopt s.fd < 0 then
    (.error (.throws
      (runtimeError "Failed to set TCP_NODELAY on outbound session TLS socket: {}")), s)
  else
    match i.getsockname s.fd with
    | none =>
        (.error (.throws (runtimeError
          "Failed to get local socket address for outbound (host: {}): {}, {}")), s)
    | some sa =>
        match IpAddress.ofSockaddr bigEndian sa with
        | .error e => (.error (.throws e), s)
        | .ok a =>
            let s := { s with path := { s.path with localEnd := a } }
            if i.sessionNew ≠ 0 then
              (.error (.throws (runtimeError "Failed to initialize outbound session: {}")), s)
            else (.ok (), { s with session := some {} })

def NGHTTP2_SETTINGS_MAX_CONCURRENT_STREAMS : UInt8 := 3

/-- The SETTINGS frame with the one entry `{MAX_CONCURRENT_STREAMS, 100}`. -/
def settingsFrame : Bytes :=
  [0, 0, 6, 4, 0, 0, 0, 0, 0, 0, NGHTTP2_SETTINGS_MAX_CONCURRENT_STREAMS, 0, 0, 0, 100]

/-- `nghttp2_submit_settings`, which queues the frame when it returns 0. -/
def submitSettings (i : InitOutcome) (s : SessionBase) (what : String) : Outcome SessionBase :=
  match s.session with
  | none => (.error .nullPointer, s)
  | some n =>
      if i.submitSettings ≠ 0 then (.error (.throws (runtimeError what)), s)
      else (.ok (), { s with session := some { n with outq := n.outq ++ [settingsFrame] } })

def inboundSendInitial (i : InitOutcome) (o : SendOutcome) (s : SessionBase) :
    Outcome SessionBase :=
  (submitSettings i s "Failed to submit inbound session settings: {}").andThen
    fun s => s.sendSessionData o

def outboundSendInitial (i : InitOutcome) (s : SessionBase) : Outcome SessionBase :=
  submitSettings i s "Failed to submit outbound session settings: {}"

def configSendInitial (bigEndian : Bool) (i : InitOutcome) (o : SendOutcome) (s : SessionBase) :
    Outcome SessionBase :=
  if s.isOutbound then
    (s.outboundInitializeSession bigEndian i).andThen fun s => s.outboundSendInitial i
  else
    (s.inboundInitializeSession i).andThen fun s => s.inboundSendInitial i o

/-- `not _alpn_len or defaults::ALPN == uspan{_alpn, _alpn_len}`. -/
def alpnAccepted (alpn : Bytes) : Bool := alpn.length == 0 || spanEq defaults.ALPN alpn

/-- `event_cb`.  The other event bits choose a log line only. -/
def eventCb (bigEndian : Bool) (events : UInt16) (alpn : Bytes) (i : InitOutcome) (o : SendOutcome)
    (s : SessionBase) : Outcome SessionBase :=
  if events &&& BEV_EVENT_CONNECTED ≠ 0 && alpnAccepted alpn then
    s.configSendInitial bigEndian i o
  else (.ok (), s.closeSession)

end SessionBase

/-! ## Runs of a session -/

inductive IoEvent where
  | arrive (bs : Bytes)
  | drain (n : Nat)
  | submit (frames : List Bytes)
  | eventCb (events : UInt16) (alpn : Bytes) (i : InitOutcome) (o : SendOutcome)
  | readCb (r : RecvOutcome) (o : SendOutcome)
  | writeCb (wantRead wantWrite : Bool) (o : SendOutcome)

/-- libevent moves `n` bytes of the output to the network. -/
def Bufferevent.drain (bev : Bufferevent) (n : Nat) : Bufferevent :=
  { bev with
    output := bev.output.drop n
    writeScheduled := bev.writeScheduled || (bev.output.length > 0 && bev.output.length ≤ n) }

/-- One event of a session.  A callback that throws ends the run. -/
def ioStep (bigEndian : Bool) (s : SessionBase) : IoEvent → Option SessionBase
  | .arrive bs =>
      some { s with
        bev := { s.bev with input := s.bev.input ++ bs }
        received := s.received ++ bs }
  | .drain n => if n ≤ s.bev.output.length then some { s with bev := s.bev.drain n } else none
  | .submit frames =>
      match s.session with
      | none => none
      | some n => some { s with session := some { n with outq := n.outq ++ frames } }
  | .eventCb events alpn i o => (s.eventCb bigEndian events alpn i o).returned
  | .readCb r o => (s.readSessionData r o).returned
  | .writeCb wantRead wantWrite o =>
      if s.bev.writeScheduled then
        ({ s with bev := { s.bev with writeScheduled := false } }.writeSessionData
          wantRead wantWrite o).returned
      else none

end Wshttp
