/-
# `Wshttp.Session.Frame` — what an event changes besides the library's own state

Sending moves frames from nghttp2 to the output evbuffer, and starting a session
sets the nghttp2 pointer and the local address.  Everything else an event does is
little: bytes arrive, a buffer is handed over, the session is asked to close.
`ioCore` is that little.

**Proved here.**  An observation of a session that looks at neither the nghttp2
session, nor the output, nor the local address sees exactly `ioCore`
(`ioStep_framed`).  Two such observations are used: the input side (in
`Wshttp.Session.Input`) and who the session is (`identity`, below).
-/
import Wshttp.Session.Io

namespace Wshttp

open Machine

/-- An observation that sending and starting cannot change. -/
structure Framed {X : Type} (f : SessionBase → X) : Prop where
  session : ∀ s n, f { s with session := n } = f s
  output : ∀ s bev, bev.input = s.bev.input → f { s with bev := bev } = f s
  localEnd : ∀ s a, f { s with path := { s.path with localEnd := a } } = f s

theorem sendHook_input (ok : Bool) (data : Bytes) (bev : Bufferevent) :
    (sendHook ok data bev).2.input = bev.input := by
  unfold sendHook
  split
  · rfl
  · cases ok <;> rfl

theorem nghttp2SessionSend_input (o : SendOutcome) :
    ∀ (q : List Bytes) (n : Nat) (bev : Bufferevent),
      (nghttp2SessionSend o n q bev).2.2.input = bev.input := by
  intro q
  induction q with
  | nil => intro n bev; rfl
  | cons data rest ih =>
      intro n bev
      have hhook := sendHook_input (o.writeOk n) data bev
      simp only [nghttp2SessionSend]
      split
      · rfl
      split
      · exact hhook
      split
      · exact hhook
      · rw [ih, hhook]

theorem Outcome.returned_eq_some {σ : Type} {r : Outcome σ} {t : σ} (h : r.returned = some t) :
    r.2 = t := by
  obtain ⟨out, s⟩ := r
  cases out with
  | ok => exact Option.some.inj h
  | error f => cases h

section
variable {X : Type} {f : SessionBase → X}

theorem Outcome.andThen_framed {r : Outcome SessionBase} {k : SessionBase → Outcome SessionBase}
    {x : X} (hr : f r.2 = x) (hk : ∀ s, f (k s).2 = f s) : f (r.andThen k).2 = x := by
  obtain ⟨out, s⟩ := r
  cases out with
  | ok => exact (hk s).trans hr
  | error _ => exact hr

namespace SessionBase

theorem sendSessionData_framed (hf : Framed f) (o : SendOutcome) (s : SessionBase) :
    f (s.sendSessionData o).2 = f s := by
  unfold sendSessionData
  split
  · rfl
  · next n _ =>
    let sent := nghttp2SessionSend o 0 n.outq s.bev
    have hin : sent.2.2.input = s.bev.input := nghttp2SessionSend_input o n.outq 0 s.bev
    have hsent : f { s with session := some { outq := sent.2.1 }, bev := sent.2.2 } = f s :=
      (hf.output { s with session := some { outq := sent.2.1 } } sent.2.2 hin).trans
        (hf.session s _)
    dsimp only
    split
    · exact hsent
    · exact hsent

theorem submitSettings_framed (hf : Framed f) (i : InitOutcome) (s : SessionBase) (what : String) :
    f (submitSettings i s what).2 = f s := by
  unfold submitSettings
  split
  · rfl
  split
  · rfl
  · exact hf.session s _

theorem inboundInitializeSession_framed (hf : Framed f) (i : InitOutcome) (s : SessionBase) :
    f (s.inboundInitializeSession i).2 = f s := by
  unfold inboundInitializeSession
  split
  · rfl
  split
  · rfl
  · exact hf.session s _

theorem outboundInitializeSession_framed (hf : Framed f) (bigEndian : Bool) (i : InitOutcome)
    (s : SessionBase) : f (s.outboundInitializeSession bigEndian i).2 = f s := by
  unfold outboundInitializeSession
  split
  · rfl
  split
  · rfl
  split
  · rfl
  · next a _ =>
    dsimp only
    split
    · exact hf.localEnd s a
    · exact (hf.session _ _).trans (hf.localEnd s a)

theorem configSendInitial_framed (hf : Framed f) (bigEndian : Bool) (i : InitOutcome)
    (o : SendOutcome) (s : SessionBase) : f (s.configSendInitial bigEndian i o).2 = f s := by
  unfold configSendInitial
  split
  · exact Outcome.andThen_framed (outboundInitializeSession_framed hf bigEndian i s)
      fun s => submitSettings_framed hf i s _
  · refine Outcome.andThen_framed (inboundInitializeSession_framed hf i s) fun s => ?_
    exact Outcome.andThen_framed (submitSettings_framed hf i s _)
      fun s => sendSessionData_framed hf o s

end SessionBase

end

/-! ## The rest of an event -/

/-- The callback's session enqueues a close job: the events of `event_cb` other
than a good connection, a failed `mem_recv2`, and a session with no more I/O. -/
def IoEvent.asksToClose (s : SessionBase) : IoEvent → Bool
  | .eventCb events alpn _ _ =>
      !(events &&& BEV_EVENT_CONNECTED ≠ 0 && SessionBase.alpnAccepted alpn)
  | .readCb r _ => decide (r.ret s.bev.input < 0)
  | .writeCb wantRead wantWrite _ => s.bev.output.isEmpty && !wantRead && !wantWrite
  | .arrive _ | .drain _ | .submit _ => false

/-- The bytes an event moves. -/
def SessionBase.ioBytes (s : SessionBase) : IoEvent → SessionBase
  | .arrive bs =>
      { s with
        bev := { s.bev with input := s.bev.input ++ bs }
        received := s.received ++ bs }
  | .readCb _ _ => s.noteHanded s.bev.input
  | _ => s

def SessionBase.ioCore (s : SessionBase) (e : IoEvent) : SessionBase :=
  if e.asksToClose s then (s.ioBytes e).closeSession else s.ioBytes e

theorem ioCore_asked {s : SessionBase} {e : IoEvent} (h : e.asksToClose s = true) :
    s.ioCore e = (s.ioBytes e).closeSession := if_pos h

theorem ioCore_quiet {s : SessionBase} {e : IoEvent} (h : e.asksToClose s = false) :
    s.ioCore e = s.ioBytes e := if_neg (by rw [h]; exact Bool.false_ne_true)

section
variable {X : Type} {f : SessionBase → X} {bigEndian : Bool} {s t : SessionBase}

theorem eventCb_framed (hf : Framed f) {events : UInt16} {alpn : Bytes} {i : InitOutcome}
    {o : SendOutcome} (h : (s.eventCb bigEndian events alpn i o).returned = some t) :
    f t = f (s.ioCore (.eventCb events alpn i o)) := by
  rw [← Outcome.returned_eq_some h, SessionBase.eventCb]
  split
  · next hconn =>
    have hquiet : (IoEvent.eventCb events alpn i o).asksToClose s = false := by
      simp only [IoEvent.asksToClose, hconn, Bool.not_true]
    rw [ioCore_quiet hquiet]
    exact SessionBase.configSendInitial_framed hf bigEndian i o s
  · next hconn =>
    have hasked : (IoEvent.eventCb events alpn i o).asksToClose s = true := by
      simp only [IoEvent.asksToClose, Bool.eq_false_iff.mpr hconn, Bool.not_false]
    rw [ioCore_asked hasked]
    rfl

theorem readSessionData_framed (hf : Framed f) {r : RecvOutcome} {o : SendOutcome}
    (h : (s.readSessionData r o).returned = some t) : f t = f (s.ioCore (.readCb r o)) := by
  rw [← Outcome.returned_eq_some h]
  unfold SessionBase.readSessionData at h ⊢
  split at h
  · cases h
  · next n _ =>
    dsimp only
    split
    · next hneg =>
      have hasked : (IoEvent.readCb r o).asksToClose s = true := decide_eq_true hneg
      rw [ioCore_asked hasked]
      exact hf.session (s.noteHanded s.bev.input).closeSession _
    · next hpos =>
      have hquiet : (IoEvent.readCb r o).asksToClose s = false := decide_eq_false hpos
      rw [ioCore_quiet hquiet]
      exact (SessionBase.sendSessionData_framed hf o _).trans (hf.session _ _)

theorem writeSessionData_framed (hf : Framed f) {wantRead wantWrite : Bool} {o : SendOutcome}
    (h : (s.writeSessionData wantRead wantWrite o).returned = some t) :
    f t = f (s.ioCore (.writeCb wantRead wantWrite o)) := by
  rw [← Outcome.returned_eq_some h]
  unfold SessionBase.writeSessionData at h ⊢
  split at h
  · next hout =>
    have hquiet : (IoEvent.writeCb wantRead wantWrite o).asksToClose s = false := by
      simp [IoEvent.asksToClose, List.ne_nil_of_length_pos hout]
    rw [ioCore_quiet hquiet, if_pos hout]
    rfl
  next hempty =>
  rw [if_neg hempty]
  split at h
  · cases h
  have hnil : s.bev.output.isEmpty = true := by
    simpa [List.length_pos_iff] using hempty
  split
  · next hdone =>
    have hasked : (IoEvent.writeCb wantRead wantWrite o).asksToClose s = true := by
      simpa [IoEvent.asksToClose, hnil] using hdone
    rw [ioCore_asked hasked]
    rfl
  · next hmore =>
    have hquiet : (IoEvent.writeCb wantRead wantWrite o).asksToClose s = false := by
      simpa [IoEvent.asksToClose, hnil] using hmore
    rw [ioCore_quiet hquiet]
    exact SessionBase.sendSessionData_framed hf o s

theorem ioStep_framed (hf : Framed f) {e : IoEvent} (h : ioStep bigEndian s e = some t) :
    f t = f (s.ioCore e) := by
  cases e with
  | arrive bs => exact Option.some.inj h ▸ rfl
  | drain n =>
      simp only [ioStep] at h
      split at h
      · obtain rfl := Option.some.inj h
        exact hf.output s _ rfl
      · cases h
  | submit frames =>
      simp only [ioStep] at h
      split at h
      · cases h
      · obtain rfl := Option.some.inj h
        exact hf.session s _
  | eventCb events alpn i o => exact eventCb_framed hf h
  | readCb r o => exact readSessionData_framed hf h
  | writeCb wantRead wantWrite o =>
      simp only [ioStep] at h
      split at h
      case isFalse => cases h
      -- the callback starts by taking note that it was delivered
      let noted : SessionBase := { s with bev := { s.bev with writeScheduled := false } }
      have hcore : f t = f (noted.ioCore _) := writeSessionData_framed hf h
      rw [hcore, SessionBase.ioCore, SessionBase.ioCore]
      show f (if _ then noted.closeSession else noted) = _
      split
      · next hask =>
        have hask' : (IoEvent.writeCb wantRead wantWrite o).asksToClose s = true := hask
        rw [if_pos hask']
        exact hf.output s.closeSession noted.bev rfl
      · next hask =>
        have hask' : ¬ (IoEvent.writeCb wantRead wantWrite o).asksToClose s = true := hask
        rw [if_neg hask']
        exact hf.output s noted.bev rfl

end

/-- Who a session is, and how often it has been asked to close. -/
def SessionBase.identity (s : SessionBase) : Fd × IpAddress × Bool × Nat :=
  (s.fd, s.path.remote, s.isOutbound, s.closeJobs)

theorem framed_identity : Framed SessionBase.identity :=
  ⟨fun _ _ => rfl, fun _ _ _ => rfl, fun _ _ => rfl⟩

theorem ioStep_identity {bigEndian : Bool} {s t : SessionBase} {e : IoEvent}
    (h : ioStep bigEndian s e = some t) :
    t.identity = (s.fd, s.path.remote, s.isOutbound, s.closeJobs + (e.asksToClose s).toNat) := by
  rw [ioStep_framed framed_identity h, SessionBase.ioCore]
  cases e.asksToClose s <;> cases e <;> rfl

end Wshttp
