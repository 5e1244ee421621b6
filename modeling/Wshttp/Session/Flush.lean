/-
# `Wshttp.Session.Flush` — queued frames and what makes them move

A frame queued in nghttp2 leaves only inside `nghttp2_session_send`, and after a
callback has returned, the next call of that is made by `write_cb`.  libevent
delivers `write_cb` when a non-empty output evbuffer has drained.  So frames that
stay behind need a non-empty output, or a `write_cb` already scheduled.

`send_session_data` leaves it so: `nghttp2_session_send` stops early only on
`WOULDBLOCK`, and `send_hook` answers that only when the output is full.
`write_session_data` returns early only on a non-empty output.  And
`outbound_session::send_initial` submits the settings and does not send.

**Proved here.**  Over any run, every callback that leaves its session open ends
well exactly when each `event_cb` that starts an outbound session finds an output
or a scheduled `write_cb` already there (`callbacks_leave_trigger_iff`).
-/
import Wshttp.Session.Io

namespace Wshttp

open Machine

/-! ## What the library's loop leaves behind -/

/-- `WOULDBLOCK` is the answer of a full output only. -/
theorem sendHook_wouldBlock {ok : Bool} {data : Bytes} {bev : Bufferevent}
    (h : (sendHook ok data bev).1 = NGHTTP2_ERR_WOULDBLOCK) :
    (sendHook ok data bev).2.output ≠ [] := by
  have hfull : bev.output.length ≥ OUTPUT_BLOCK_THRESHOLD := by
    by_contra hlt
    rw [sendHook, if_neg hlt] at h
    simp only [NGHTTP2_ERR_WOULDBLOCK] at h
    omega
  rw [sendHook, if_pos hfull]
  intro hnil
  have hlen : bev.output.length = 0 := congrArg List.length hnil
  rw [hlen] at hfull
  cases hfull

/-- If `nghttp2_session_send` reports success, it kept no frame, or the output is full. -/
theorem nghttp2SessionSend_settles (o : SendOutcome) :
    ∀ (q : List Bytes) (n : Nat) (bev : Bufferevent),
      (nghttp2SessionSend o n q bev).1 = 0 →
        (nghttp2SessionSend o n q bev).2.1 = [] ∨
          (nghttp2SessionSend o n q bev).2.2.output ≠ [] := by
  intro q
  induction q with
  | nil => intro n bev _; exact .inl rfl
  | cons data rest ih =>
      intro n bev h
      simp only [nghttp2SessionSend] at h ⊢
      split at h
      · next herr => exact absurd h herr
      rename_i hok
      rw [if_neg hok]
      split at h
      · next hblock =>
        rw [if_pos hblock]
        exact .inr (sendHook_wouldBlock hblock)
      rename_i hblock
      rw [if_neg hblock]
      split at h
      · cases h
      · next hneg =>
        rw [if_neg hneg]
        exact ih _ _ h

/-- Something will make the session send the frames nghttp2 still holds. -/
def WillSend (s : SessionBase) : Prop :=
  ∀ n, s.session = some n → n.outq ≠ [] → s.bev.output ≠ [] ∨ s.bev.writeScheduled = true

theorem Outcome.andThen_returned {σ : Type} {r : Outcome σ} {k : σ → Outcome σ} {u : σ}
    (h : (r.andThen k).returned = some u) : ∃ t, r.returned = some t ∧ (k t).returned = some u := by
  obtain ⟨out, s⟩ := r
  cases out with
  | ok => exact ⟨s, rfl, h⟩
  | error f => cases h

namespace SessionBase

theorem sendSessionData_willSend {o : SendOutcome} {s t : SessionBase}
    (h : (s.sendSessionData o).returned = some t) : WillSend t := by
  intro n hn hq
  unfold sendSessionData at h
  split at h
  · cases h
  · next m _ =>
    dsimp only at h
    split at h
    · cases h
    · next hzero =>
      obtain rfl := Option.some.inj h
      obtain rfl := Option.some.inj hn
      have hsettled := nghttp2SessionSend_settles o m.outq 0 s.bev (not_not.mp hzero)
      exact .inl (hsettled.resolve_left hq)

theorem readSessionData_willSend {r : RecvOutcome} {o : SendOutcome} {s t : SessionBase}
    (h : (s.readSessionData r o).returned = some t) (hopen : t.closeJobs = s.closeJobs) :
    WillSend t := by
  unfold readSessionData at h
  split at h
  · cases h
  · dsimp only at h
    split at h
    · obtain rfl := Option.some.inj h
      exact absurd hopen (Nat.succ_ne_self _)
    · exact sendSessionData_willSend h

theorem writeSessionData_willSend {wantRead wantWrite : Bool} {o : SendOutcome}
    {s t : SessionBase} (h : (s.writeSessionData wantRead wantWrite o).returned = some t)
    (hopen : t.closeJobs = s.closeJobs) : WillSend t := by
  unfold writeSessionData at h
  split at h
  · next hout =>
    obtain rfl := Option.some.inj h
    intro n _ _
    exact .inl (List.ne_nil_of_length_pos hout)
  split at h
  · cases h
  split at h
  · obtain rfl := Option.some.inj h
    exact absurd hopen (Nat.succ_ne_self _)
  · exact sendSessionData_willSend h

theorem inboundSendInitial_willSend {i : InitOutcome} {o : SendOutcome} {s t : SessionBase}
    (h : (s.inboundSendInitial i o).returned = some t) : WillSend t := by
  obtain ⟨u, _, hu⟩ := Outcome.andThen_returned h
  exact sendSessionData_willSend hu

theorem submitSettings_returned {i : InitOutcome} {s t : SessionBase} {what : String}
    (h : (submitSettings i s what).returned = some t) :
    ∃ n, s.session = some n ∧
      t = { s with session := some { n with outq := n.outq ++ [settingsFrame] } } := by
  unfold submitSettings at h
  split at h
  · cases h
  · next n hn =>
    split at h
    · cases h
    · exact ⟨n, hn, (Option.some.inj h).symm⟩

theorem outboundInitializeSession_returned {bigEndian : Bool} {i : InitOutcome}
    {s t : SessionBase} (h : (s.outboundInitializeSession bigEndian i).returned = some t) :
    t.session = some {} ∧ t.bev = s.bev ∧ t.closeJobs = s.closeJobs := by
  unfold outboundInitializeSession at h
  split at h
  · cases h
  split at h
  · cases h
  split at h
  · cases h
  dsimp only at h
  split at h
  · cases h
  · obtain rfl := Option.some.inj h
    exact ⟨rfl, rfl, rfl⟩

/-- An outbound session that has just started holds its settings, and nothing of
its bufferevent has changed. -/
theorem outboundConfig_returned {bigEndian : Bool} {i : InitOutcome} {o : SendOutcome}
    {s t : SessionBase} (hout : s.isOutbound = true)
    (h : (s.configSendInitial bigEndian i o).returned = some t) :
    t.session = some { outq := [settingsFrame] } ∧ t.bev = s.bev ∧ t.closeJobs = s.closeJobs := by
  rw [configSendInitial, if_pos hout] at h
  obtain ⟨u, hu, ht⟩ := Outcome.andThen_returned h
  obtain ⟨hsess, hbev, hjobs⟩ := outboundInitializeSession_returned hu
  obtain ⟨n, hn, rfl⟩ := submitSettings_returned ht
  obtain rfl := Option.some.inj (hsess.symm.trans hn)
  exact ⟨rfl, hbev, hjobs⟩

end SessionBase

/-! ## Callback by callback -/

def IoEvent.IsCallback : IoEvent → Prop
  | .eventCb .. | .readCb .. | .writeCb .. => True
  | .arrive _ | .drain _ | .submit _ => False

/-- `event_cb` with the connected bit and an acceptable ALPN. -/
def IoEvent.Connects : IoEvent → Prop
  | .eventCb events alpn _ _ =>
      events &&& BEV_EVENT_CONNECTED ≠ 0 ∧ SessionBase.alpnAccepted alpn = true
  | _ => False

/-- The callback returns without asking for its session to be closed, and frames
nghttp2 still holds have something to move them. -/
def LeavesTrigger (s : SessionBase) (e : IoEvent) (t : SessionBase) : Prop :=
  e.IsCallback → t.closeJobs = s.closeJobs → WillSend t

/-- Whoever starts an outbound session finds an output, or a scheduled `write_cb`. -/
def StartsWithTrigger (s : SessionBase) (e : IoEvent) : Prop :=
  e.Connects → s.isOutbound = true → s.bev.output ≠ [] ∨ s.bev.writeScheduled = true

theorem eventCb_leavesTrigger_iff {bigEndian : Bool} {s t : SessionBase} {events : UInt16}
    {alpn : Bytes} {i : InitOutcome} {o : SendOutcome}
    (h : (s.eventCb bigEndian events alpn i o).returned = some t) :
    LeavesTrigger s (.eventCb events alpn i o) t ↔
      StartsWithTrigger s (.eventCb events alpn i o) := by
  unfold SessionBase.eventCb at h
  split at h
  · next hconn =>
    simp only [ne_eq, Bool.and_eq_true, decide_eq_true_eq] at hconn
    cases hout : s.isOutbound with
    | false =>
        rw [SessionBase.configSendInitial, hout] at h
        obtain ⟨u, _, hu⟩ := Outcome.andThen_returned h
        constructor
        · intro _ _ hcontra
          rw [hout] at hcontra
          cases hcontra
        · intro _ _ _
          exact SessionBase.inboundSendInitial_willSend hu
    | true =>
        obtain ⟨hsess, hbev, hjobs⟩ := SessionBase.outboundConfig_returned hout h
        constructor
        · intro hleaves _ _
          rw [← hbev]
          exact hleaves trivial hjobs _ hsess (List.cons_ne_nil _ _)
        · intro hstarts _ _ _ _ _
          rw [hbev]
          exact hstarts hconn hout
  · next hconn =>
    obtain rfl := Option.some.inj h
    simp only [ne_eq, Bool.and_eq_true, decide_eq_true_eq] at hconn
    constructor
    · intro _ hc
      exact absurd hc hconn
    · intro _ _ hopen
      exact absurd hopen (Nat.succ_ne_self _)

theorem leavesTrigger_iff {bigEndian : Bool} {s t : SessionBase} {e : IoEvent}
    (h : ioStep bigEndian s e = some t) : LeavesTrigger s e t ↔ StartsWithTrigger s e := by
  cases e with
  | arrive bs => exact ⟨fun _ hc => hc.elim, fun _ hc => hc.elim⟩
  | drain n => exact ⟨fun _ hc => hc.elim, fun _ hc => hc.elim⟩
  | submit frames => exact ⟨fun _ hc => hc.elim, fun _ hc => hc.elim⟩
  | eventCb events alpn i o => exact eventCb_leavesTrigger_iff h
  | readCb r o =>
      constructor
      · intro _ hc; exact hc.elim
      · intro _ _ hopen; exact SessionBase.readSessionData_willSend h hopen
  | writeCb wantRead wantWrite o =>
      simp only [ioStep] at h
      split at h
      · constructor
        · intro _ hc; exact hc.elim
        · intro _ _ hopen; exact SessionBase.writeSessionData_willSend h hopen
      · cases h

/-- **Queued frames are never stranded, exactly when no outbound session starts
with an idle output.**  For every session, inbound or outbound, and every run. -/
theorem callbacks_leave_trigger_iff (bigEndian : Bool) (s : SessionBase) (evs : List IoEvent) :
    Along (ioStep bigEndian) LeavesTrigger s evs ↔
      Along (ioStep bigEndian) (fun s e _ => StartsWithTrigger s e) s evs :=
  along_congr (Q := LeavesTrigger) (R := fun s e _ => StartsWithTrigger s e)
    (fun _ _ _ h => leavesTrigger_iff h) s evs

/-- The connected event of an outbound session whose output is empty: nghttp2 is
left with the SETTINGS frame, and nothing is scheduled. -/
theorem outbound_settings_stranded :
    ¬ Along (ioStep false) LeavesTrigger (.initialized true 7 ⟨.ofPort 0, .ofPort 443⟩)
        [.eventCb BEV_EVENT_CONNECTED [] .succeeds .sendAll] := by
  intro h
  obtain ⟨hleaves, -⟩ := h _ rfl
  rcases hleaves trivial rfl _ rfl (List.cons_ne_nil _ _) with hout | hwrite
  · exact hout rfl
  · cases hwrite

end Wshttp
