/-
# `Wshttp.Session.SendHook` — what nghttp2 is told was sent, and what was queued

nghttp2 hands its frames to `send_callback`, chunk by chunk, and believes the return
value: the size of the chunk is "sent", `WOULDBLOCK` is "later".  `send_hook` looks at
the length of the output first, then calls `bufferevent_write`, and returns the size
whatever that has answered.

| history in the state | what it records                                      |
| :------------------- | :--------------------------------------------------- |
| `drained`            | the bytes libevent has moved to the network          |
| `sent`               | the data of the calls that returned its size         |
| `largest`            | the size of the largest chunk of any call            |

**Proved here.**  The bytes drained and buffered are the bytes reported as sent, and
every call answers by what it did, exactly as long as every `bufferevent_write` that is
made appends (`send_hook_accounts_iff`).  The bound on the output needs no condition.
And one `nghttp2_session_send` is a run of this machine (`nghttp2SessionSend_run`).
-/
import Wshttp.Session.Io

namespace Wshttp

open Machine

structure Sending where
  bev : Bufferevent := {}
  drained : Bytes := []
  sent : Bytes := []
  largest : Nat := 0

inductive SendingEvent where
  | send (writeOk : Bool) (data : Bytes)
  | drain (n : Nat)

namespace Sending

def step (s : Sending) : SendingEvent → Option Sending
  | .send writeOk data =>
      let hooked := sendHook writeOk data s.bev
      some { s with
        bev := hooked.2
        sent := if hooked.1 = data.length then s.sent ++ data else s.sent
        largest := max s.largest data.length }
  | .drain n =>
      if n ≤ s.bev.output.length then
        some { s with bev := s.bev.drain n, drained := s.drained ++ s.bev.output.take n }
      else none

/-! ## What is to hold, and when -/

/-- A call of `send_hook` returns the size if it has appended the data, and an error if
it has left the output as it was. -/
structure Answers (data : Bytes) (output : Bytes) (ret : Int) (output' : Bytes) : Prop where
  sent : ret = data.length → output' = output ++ data
  /-- of no data at all, nobody can tell whether it was appended -/
  onlyIf : data ≠ [] → output' = output ++ data → ret = data.length
  refused : ret ≠ data.length → ret < 0 ∧ output' = output
  full : OUTPUT_BLOCK_THRESHOLD ≤ output.length → ret = NGHTTP2_ERR_WOULDBLOCK

def Answered (s : Sending) (e : SendingEvent) (t : Sending) : Prop :=
  match e with
  | .send writeOk data =>
      Answers data s.bev.output (sendHook writeOk data s.bev).1 t.bev.output
  | .drain _ => True

/-- What has left and what waits to leave is what nghttp2 believes was sent. -/
def Accounted (s : Sending) : Prop := s.drained ++ s.bev.output = s.sent

def Bounded (s : Sending) : Prop :=
  s.bev.output.length ≤ OUTPUT_BLOCK_THRESHOLD - 1 + s.largest

/-- If the call gets as far as `bufferevent_write`, that appends the data. -/
def WriteAppends (s : Sending) : SendingEvent → Prop
  | .send writeOk data =>
      s.bev.output.length < OUTPUT_BLOCK_THRESHOLD → writeOk = true ∨ data = []
  | .drain _ => True

/-! ## One call -/

section
variable {s t : Sending} {e : SendingEvent} {writeOk : Bool} {data : Bytes} {bev : Bufferevent}

theorem sendHook_full (h : OUTPUT_BLOCK_THRESHOLD ≤ bev.output.length) :
    sendHook writeOk data bev = (NGHTTP2_ERR_WOULDBLOCK, bev) := if_pos h

theorem sendHook_room (h : bev.output.length < OUTPUT_BLOCK_THRESHOLD) :
    sendHook writeOk data bev =
      ((data.length : Int), if writeOk then { bev with output := bev.output ++ data } else bev) :=
  if_neg (Nat.not_le_of_lt h)

theorem wouldBlock_neg : NGHTTP2_ERR_WOULDBLOCK < 0 := by decide

theorem wouldBlock_ne_size (data : Bytes) : NGHTTP2_ERR_WOULDBLOCK ≠ data.length := by
  intro heq
  have hneg := wouldBlock_neg
  omega

/-- The output after a call that has room, if its `bufferevent_write` appends. -/
theorem output_room (h : bev.output.length < OUTPUT_BLOCK_THRESHOLD)
    (hwrite : writeOk = true ∨ data = []) :
    (sendHook writeOk data bev).2.output = bev.output ++ data := by
  rw [sendHook_room h]
  rcases hwrite with rfl | rfl
  · rfl
  · cases writeOk with
    | true => rfl
    | false => exact (List.append_nil _).symm

theorem answers_full (h : OUTPUT_BLOCK_THRESHOLD ≤ bev.output.length) :
    Answers data bev.output (sendHook writeOk data bev).1 (sendHook writeOk data bev).2.output := by
  rw [sendHook_full h]
  refine ⟨fun hsize => absurd hsize (wouldBlock_ne_size data), fun hne happ => ?_,
    fun _ => ⟨wouldBlock_neg, rfl⟩, fun _ => rfl⟩
  exact absurd (List.self_eq_append_right.mp happ) hne

/-- With room in the output the size is returned, so the data must have been appended. -/
theorem answers_room_iff (h : bev.output.length < OUTPUT_BLOCK_THRESHOLD) :
    Answers data bev.output (sendHook writeOk data bev).1
        (sendHook writeOk data bev).2.output ↔ writeOk = true ∨ data = [] := by
  constructor
  · intro hall
    cases writeOk with
    | true => exact .inl rfl
    | false =>
        rw [sendHook_room h] at hall
        exact .inr (List.self_eq_append_right.mp (hall.sent rfl))
  · intro hwrite
    have happ := output_room h hwrite
    rw [happ, sendHook_room h]
    exact ⟨fun _ => rfl, fun _ _ => rfl, fun hne => absurd rfl hne,
      fun hfull => absurd hfull (Nat.not_le_of_lt h)⟩

theorem answered_iff (h : step s e = some t) : Answered s e t ↔ WriteAppends s e := by
  cases e with
  | drain n => exact Iff.rfl
  | send writeOk data =>
      obtain rfl := Option.some.inj h
      show Answers _ _ _ _ ↔ _
      rcases Nat.lt_or_ge s.bev.output.length OUTPUT_BLOCK_THRESHOLD with hroom | hfull
      · rw [answers_room_iff hroom]
        exact ⟨fun hwrite _ => hwrite, fun hwrite => hwrite hroom⟩
      · exact iff_of_true (answers_full hfull) fun hroom => absurd hfull (Nat.not_le_of_lt hroom)

/-! ## The account, and the bound -/

theorem Accounted.step (hs : s.Accounted) (hans : Answered s e t)
    (h : s.step e = some t) : t.Accounted := by
  cases e with
  | drain n =>
      simp only [Sending.step] at h
      split at h
      case isFalse => cases h
      obtain rfl := Option.some.inj h
      show (s.drained ++ s.bev.output.take n) ++ s.bev.output.drop n = s.sent
      rw [List.append_assoc, List.take_append_drop]
      exact hs
  | send writeOk data =>
      obtain rfl := Option.some.inj h
      change Answers _ _ _ (sendHook writeOk data s.bev).2.output at hans
      show s.drained ++ (sendHook writeOk data s.bev).2.output = ite _ _ _
      split
      · next hsize => rw [hans.sent hsize, ← List.append_assoc, hs]
      · next hsize => rw [(hans.refused hsize).2, hs]

/-- The length is looked at before the append, so one chunk at most goes over it. -/
theorem Bounded.step (hs : s.Bounded) (h : s.step e = some t) : t.Bounded := by
  have hpos : 0 < OUTPUT_BLOCK_THRESHOLD := by decide
  cases e with
  | drain n =>
      simp only [Sending.step] at h
      split at h
      case isFalse => cases h
      obtain rfl := Option.some.inj h
      show (s.bev.output.drop n).length ≤ OUTPUT_BLOCK_THRESHOLD - 1 + s.largest
      rw [List.length_drop]
      exact Nat.le_trans (Nat.sub_le ..) hs
  | send writeOk data =>
      obtain rfl := Option.some.inj h
      show (sendHook writeOk data s.bev).2.output.length ≤
        OUTPUT_BLOCK_THRESHOLD - 1 + max s.largest data.length
      unfold Bounded at hs
      rcases Nat.lt_or_ge s.bev.output.length OUTPUT_BLOCK_THRESHOLD with hroom | hfull
      · rw [sendHook_room hroom]
        cases writeOk with
        | true =>
            show (s.bev.output ++ data).length ≤ _
            rw [List.length_append]
            omega
        | false =>
            show s.bev.output.length ≤ _
            omega
      · rw [sendHook_full hfull]
        show s.bev.output.length ≤ _
        omega

/-- **What is reported is what is queued, exactly as long as `bufferevent_write`
appends.**  For every run of calls and drains. -/
theorem send_hook_accounts_iff (evs : List SendingEvent) :
    Along step (fun s e t => Answered s e t ∧ t.Accounted ∧ t.Bounded) {} evs ↔
      Along step (fun s e _ => WriteAppends s e) {} evs := by
  refine along_iff (I := fun s => s.Accounted ∧ s.Bounded)
    (Q := fun s e t => Answered s e t ∧ t.Accounted ∧ t.Bounded)
    (R := fun s e _ => WriteAppends s e) ?_ ?_ ?_ evs
  · intro s e t hs h
    constructor
    · exact fun hq => (answered_iff h).mp hq.1
    · intro hwrite
      have hans := (answered_iff h).mpr hwrite
      exact ⟨hans, hs.1.step hans h, hs.2.step h⟩
  · exact fun _ _ _ _ hq _ => hq.2
  · exact ⟨(rfl : ([] : Bytes) ++ [] = []), Nat.zero_le _⟩

/-- One byte is reported as sent, and is nowhere. -/
theorem failed_write_reported :
    ¬ Along step (fun s e t => Answered s e t ∧ t.Accounted ∧ t.Bounded) {} [.send false [65]] ∧
      (run step {} [.send false [65]]).map (fun s => (s.sent, s.drained ++ s.bev.output))
        = some ([65], []) := by
  refine ⟨fun h => ?_, rfl⟩
  obtain ⟨⟨-, hacc, -⟩, -⟩ := h _ rfl
  cases hacc

end

/-! ## `nghttp2_session_send` -/

/-- The library takes a chunk off its queue when it has been reported as sent. -/
theorem nghttp2SessionSend_run (o : SendOutcome) (q : List Bytes) (n : Nat) (s : Sending) :
    ∃ evs t, run step s evs = some t ∧
      t.bev = (nghttp2SessionSend o n q s.bev).2.2 ∧
      t.sent ++ (nghttp2SessionSend o n q s.bev).2.1.flatten = s.sent ++ q.flatten := by
  induction q generalizing n s with
  | nil => exact ⟨[], s, rfl, rfl, rfl⟩
  | cons data rest ih =>
      simp only [nghttp2SessionSend]
      split
      · exact ⟨[], s, rfl, rfl, rfl⟩
      rcases Nat.lt_or_ge s.bev.output.length OUTPUT_BLOCK_THRESHOLD with hroom | hfull
      · have hsize : (sendHook (o.writeOk n) data s.bev).1 = data.length := by
          rw [sendHook_room hroom]
        have hne := (wouldBlock_ne_size data).symm
        have hpos : ¬ (data.length : Int) < 0 := by omega
        rw [hsize, if_neg hne, if_neg hpos]
        obtain ⟨evs, t, hrun, hbev, hsent⟩ := ih (n + 1)
          { s with
            bev := (sendHook (o.writeOk n) data s.bev).2
            sent := s.sent ++ data
            largest := max s.largest data.length }
        refine ⟨.send (o.writeOk n) data :: evs, t, ?_, hbev, ?_⟩
        · rw [← hrun]
          refine run_cons ?_ evs
          rw [step, hsize, if_pos rfl]
        · rw [hsent, List.append_assoc, List.flatten_cons]
      · rw [sendHook_full hfull, if_pos rfl]
        refine ⟨[.send (o.writeOk n) data], _, run_cons rfl [], ?_, ?_⟩
        · exact congrArg Prod.snd (sendHook_full hfull)
        · show ite _ _ _ ++ _ = _
          rw [sendHook_full hfull, if_neg (wouldBlock_ne_size data)]

end Sending

end Wshttp
