/-
# `Wshttp.Session.Failures` — what becomes of an error on the way to libevent

`read_cb` and `write_cb` are called by libevent, a C library: an exception that leaves
them ends the process.  Both call into nghttp2, and `read_cb` may do so twice.

| reports an error           | what the code does with it                         |
| :------------------------- | :------------------------------------------------- |
| `nghttp2_session_mem_recv2` | `read_session_data` enqueues a close job, returns |
| `nghttp2_session_send`     | `send_session_data` throws                         |
| no nghttp2 session         | is not asked for                                   |

Nothing between `send_session_data` and the callback catches.

**Proved here.**  A callback returns, and has enqueued a close job if a call reported an
error, exactly when it calls nothing on a null session and no `nghttp2_session_send` it
makes reports an error (`io_failure_closes_iff`).
-/
import Wshttp.Session.Io

namespace Wshttp

/-- The two callbacks, with what nghttp2 answers to their calls. -/
inductive IoCallback where
  | readCb (r : RecvOutcome) (o : SendOutcome)
  | writeCb (wantRead wantWrite : Bool) (o : SendOutcome)

namespace SessionBase

/-- `session_callbacks::read_cb`, `write_cb`. -/
def ioCallback (s : SessionBase) : IoCallback → Outcome SessionBase
  | .readCb r o => s.readSessionData r o
  | .writeCb wantRead wantWrite o => s.writeSessionData wantRead wantWrite o

/-- The callback gets as far as the nghttp2 session. -/
def Asks (s : SessionBase) : IoCallback → Prop
  | .readCb _ _ => True
  | .writeCb _ _ _ => s.bev.output = []

/-- `nghttp2_session_mem_recv2` reports an error. -/
def RecvFails (s : SessionBase) : IoCallback → Prop
  | .readCb r _ => s.session.isSome ∧ r.ret s.bev.input < 0
  | .writeCb _ _ _ => False

/-- `nghttp2_session_send` is called, and what it then returns is not zero. -/
def SendFails (s : SessionBase) : IoCallback → Prop
  | .readCb r o => ∃ n, s.session = some n ∧ 0 ≤ r.ret s.bev.input ∧
      (nghttp2SessionSend o 0 (n.outq ++ r.frames s.bev.input) s.bev).1 ≠ 0
  | .writeCb wantRead wantWrite o => ∃ n, s.session = some n ∧ s.bev.output = [] ∧
      (wantRead = true ∨ wantWrite = true) ∧ (nghttp2SessionSend o 0 n.outq s.bev).1 ≠ 0

/-- What libevent and the user of the session may expect of a callback. -/
structure ClosesOnFailure (s : SessionBase) (cb : IoCallback) : Prop where
  returns : (s.ioCallback cb).1 = .ok ()
  closes : s.RecvFails cb ∨ s.SendFails cb → s.closeJobs < (s.ioCallback cb).2.closeJobs

section
variable {s : SessionBase} {cb : IoCallback}

/-- It sends without an exception exactly if nghttp2 has a session and reports no error. -/
theorem sendSessionData_returns_iff (o : SendOutcome) (s : SessionBase) :
    (s.sendSessionData o).1 = .ok () ↔
      ∃ n, s.session = some n ∧ (nghttp2SessionSend o 0 n.outq s.bev).1 = 0 := by
  unfold sendSessionData
  cases hsess : s.session with
  | none => exact iff_of_false (fun h => (nomatch h)) fun ⟨_, h, _⟩ => (nomatch h)
  | some n =>
      dsimp only
      split
      · next herr =>
        refine iff_of_false (fun h => (nomatch h)) fun ⟨m, hm, hzero⟩ => herr ?_
        exact Option.some.inj hm ▸ hzero
      · next hok => exact iff_of_true rfl ⟨n, rfl, not_not.mp hok⟩

theorem readSessionData_returns_iff (r : RecvOutcome) (o : SendOutcome) (s : SessionBase) :
    (s.readSessionData r o).1 = .ok () ↔
      s.session.isSome ∧ ¬ s.SendFails (.readCb r o) := by
  unfold readSessionData
  cases hsess : s.session with
  | none => exact iff_of_false (fun h => (nomatch h)) fun ⟨h, _⟩ => (nomatch h)
  | some n =>
      dsimp only
      split
      · next hneg =>
        refine iff_of_true rfl ⟨rfl, fun ⟨_, _, hpos, _⟩ => ?_⟩
        exact absurd hneg (Int.not_lt_of_ge hpos)
      · next hpos =>
        rw [sendSessionData_returns_iff]
        constructor
        · rintro ⟨m, hm, hzero⟩
          obtain rfl := Option.some.inj hm
          refine ⟨rfl, fun ⟨k, hk, _, herr⟩ => herr ?_⟩
          exact Option.some.inj (hsess.symm.trans hk) ▸ hzero
        · rintro ⟨-, hnone⟩
          refine ⟨_, rfl, ?_⟩
          by_contra herr
          exact hnone ⟨n, hsess, Int.not_lt.mp hpos, herr⟩

theorem writeSessionData_returns_iff (wantRead wantWrite : Bool) (o : SendOutcome)
    (s : SessionBase) :
    (s.writeSessionData wantRead wantWrite o).1 = .ok () ↔
      (s.bev.output = [] → s.session.isSome) ∧ ¬ s.SendFails (.writeCb wantRead wantWrite o) := by
  unfold writeSessionData
  split
  · next hout =>
    have hne : s.bev.output ≠ [] := List.length_pos_iff.mp hout
    exact iff_of_true rfl ⟨fun hnil => absurd hnil hne, fun ⟨_, _, hnil, _⟩ => hne hnil⟩
  next hout =>
  have hnil : s.bev.output = [] := List.eq_nil_of_length_eq_zero (Nat.eq_zero_of_not_pos hout)
  cases hsess : s.session with
  | none =>
      exact iff_of_false (fun h => (nomatch h)) fun ⟨h, _⟩ => (nomatch (h hnil))
  | some n =>
      dsimp only
      split
      · next hdone =>
        simp only [Bool.and_eq_true, Bool.not_eq_true'] at hdone
        refine iff_of_true rfl ⟨fun _ => rfl, fun ⟨_, _, _, hwant, _⟩ => ?_⟩
        rcases hwant with hread | hwrite
        · exact Bool.false_ne_true (hdone.1.symm.trans hread)
        · exact Bool.false_ne_true (hdone.2.symm.trans hwrite)
      · next hmore =>
        have hwant : wantRead = true ∨ wantWrite = true := by
          cases wantRead with
          | true => exact .inl rfl
          | false =>
              cases wantWrite with
              | true => exact .inr rfl
              | false => exact absurd rfl hmore
        rw [sendSessionData_returns_iff]
        constructor
        · rintro ⟨m, hm, hzero⟩
          refine ⟨fun _ => rfl, fun ⟨k, hk, _, _, herr⟩ => herr ?_⟩
          exact Option.some.inj (hm.symm.trans hk) ▸ hzero
        · rintro ⟨-, hnone⟩
          refine ⟨n, hsess, ?_⟩
          by_contra herr
          exact hnone ⟨n, hsess, hnil, hwant, herr⟩

/-- A failed receive is followed by a close job, and by nothing else. -/
theorem recvFails_closes (h : s.RecvFails cb) :
    (s.ioCallback cb).2.closeJobs = s.closeJobs + 1 := by
  cases cb with
  | writeCb wantRead wantWrite o => cases h
  | readCb r o =>
      obtain ⟨hsome, hneg⟩ := h
      obtain ⟨n, hn⟩ := Option.isSome_iff_exists.mp hsome
      have hread : s.readSessionData r o =
          (.ok (), closeSession { s.noteHanded s.bev.input with
            session := some (nghttp2SessionMemRecv2 r n s.bev.input).2 }) := by
        unfold readSessionData
        rw [hn]
        exact if_pos hneg
      show (s.readSessionData r o).2.closeJobs = _
      rw [hread]
      rfl

/-- **An error closes the session, exactly as long as it is not `nghttp2_session_send`
that reports it.**  For every session, and every answer of nghttp2. -/
theorem io_failure_closes_iff (s : SessionBase) (cb : IoCallback) :
    s.ClosesOnFailure cb ↔ (s.Asks cb → s.session.isSome) ∧ ¬ s.SendFails cb := by
  have hreturns : (s.ioCallback cb).1 = .ok () ↔
      (s.Asks cb → s.session.isSome) ∧ ¬ s.SendFails cb := by
    cases cb with
    | readCb r o =>
        refine (readSessionData_returns_iff r o s).trans (and_congr_left' ?_)
        exact (true_imp_iff).symm
    | writeCb wantRead wantWrite o => exact writeSessionData_returns_iff wantRead wantWrite o s
  constructor
  · exact fun h => hreturns.mp h.returns
  · intro h
    refine ⟨hreturns.mpr h, fun hfails => ?_⟩
    rcases hfails with hrecv | hsend
    · rw [recvFails_closes hrecv]
      exact Nat.lt_succ_self _
    · exact absurd hsend h.2

end

/-- The peer's input is taken, and nghttp2 then fails to send: the exception leaves
`read_cb`, and no close job is enqueued. -/
theorem send_failure_escapes :
    ¬ (SessionBase.initialized false 7 ⟨.ofPort 443, .ofPort 50000⟩).ClosesOnFailure
        (.readCb .consumeAll ⟨fun _ => NGHTTP2_ERR_CALLBACK_FAILURE, fun _ => true⟩) ∧
      ((SessionBase.initialized false 7 ⟨.ofPort 443, .ofPort 50000⟩).ioCallback
        (.readCb .consumeAll ⟨fun _ => NGHTTP2_ERR_CALLBACK_FAILURE, fun _ => true⟩)).1
          = .error (.throws (runtimeError "Failed to dispatch session data to remote: {}")) := by
  refine ⟨fun h => ?_, rfl⟩
  have hreturns := h.returns
  cases hreturns

end SessionBase

end Wshttp
