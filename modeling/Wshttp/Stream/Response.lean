/-
# `Wshttp.Stream.Response` — what a client gets for a request

A stream submits its response with the headers that `make_status` gives it and with a
descriptor.  From then on nghttp2 calls `file_read_callback` again and again, sends as
many bytes of its buffer as the callback reports, and stops when the callback says so:

| the callback                                | nghttp2               | `Body`       |
| :------------------------------------------ | :-------------------- | :----------- |
| returns a number of bytes                   | asks for more         | `unfinished` |
| sets `NGHTTP2_DATA_FLAG_EOF`                | ends the stream       | `complete`   |
| returns `NGHTTP2_ERR_TEMPORAL_CALLBACK_FAILURE` | resets the stream | `reset`      |

**Proved here.**  Whatever the requests of a session, no response has a header, so none
has a status; and no response that is complete has the body it should have: behind the
content there is one byte more, which was in the buffer before (`responses_malformed`).
-/
import Wshttp.Stream.FileRead
import Wshttp.Stream.OneStream

namespace Wshttp

/-! ## The body -/

/-- The bytes sent so far, and whether there may be more. -/
inductive Body where
  | unfinished (sent : Bytes)
  | complete (sent : Bytes)
  | reset (sent : Bytes)

/-- What nghttp2 sends for a sequence of calls, with `left` still behind the descriptor. -/
def bodyFrom (left sent : Bytes) : List ReadCall → Body
  | [] => .unfinished sent
  | c :: cs =>
      let result := fileReadCallback left c
      if result.ret < 0 then .reset sent
      else
        let sent := sent ++ result.reading.buf.take result.ret.toNat
        if result.dataFlags &&& NGHTTP2_DATA_FLAG_EOF ≠ 0 then .complete sent
        else bodyFrom result.reading.left sent cs

def bodyOf (content : Bytes) (calls : List ReadCall) : Body := bodyFrom content [] calls

/-- The call gets as far as a `read` that gives what there is. -/
def ReadCall.Reads (c : ReadCall) : Prop := c.errno = EINTR ∧ c.reads.outcome.isSome

/-- What a body has to do with the content and the calls. -/
def Body.Of (content : Bytes) (calls : List ReadCall) : Body → Prop
  | .unfinished sent => sent <+: content ∧ ∀ c ∈ calls, c.Reads
  | .complete sent =>
      ∃ before last after, calls = before ++ last :: after ∧ (∀ c ∈ before, c.Reads) ∧
        last.Reads ∧ sent = content ++ last.buf.take 1
  | .reset sent =>
      sent <+: content ∧ ∃ before last after, calls = before ++ last :: after ∧
        (∀ c ∈ before, c.Reads) ∧ ¬ last.Reads

section
variable {c : ReadCall} {left sent content : Bytes} {calls : List ReadCall}

/-! ### One call -/

theorem bodyFrom_reset (h : ¬ c.Reads) (cs : List ReadCall) :
    bodyFrom left sent (c :: cs) = .reset sent := by
  have hret : (fileReadCallback left c).ret = NGHTTP2_ERR_TEMPORAL_CALLBACK_FAILURE := by
    by_cases herr : c.errno = EINTR
    · rcases file_read_entered left herr with ⟨-, e, heq⟩ | ⟨n, hn, -⟩
      · rw [heq]
      · exact absurd ⟨herr, by rw [hn]; rfl⟩ h
    · rw [file_read_refused herr]
  have hneg : (fileReadCallback left c).ret < 0 := by
    rw [hret]
    decide
  rw [bodyFrom, if_pos hneg]

theorem file_read_reads (left : Bytes) (h : c.Reads) : ∃ n, fileReadCallback left c =
    if left = [] then ⟨1, NGHTTP2_DATA_FLAG_EOF, (c.start left).take n⟩
    else ⟨moved n c.buf.length left, 0, (c.start left).take n⟩ := by
  rcases file_read_entered left h.1 with ⟨hnone, -⟩ | ⟨n, -, heq⟩
  · have hsome := h.2
    rw [hnone] at hsome
    cases hsome
  · exact ⟨n, heq⟩

/-- At the end of the file one byte is reported, and nothing has been read into it. -/
theorem bodyFrom_eof (h : c.Reads) (cs : List ReadCall) :
    bodyFrom [] sent (c :: cs) = .complete (sent ++ c.buf.take 1) := by
  obtain ⟨n, heq⟩ := file_read_reads [] h
  have hbuf : ((c.start []).take n).buf = c.buf := by
    show ([] : Bytes).take _ ++ c.buf.drop (moved n c.buf.length []) = c.buf
    rw [moved_nil, List.take_nil, List.drop_zero, List.nil_append]
  rw [bodyFrom, heq, if_pos rfl]
  simp [hbuf, NGHTTP2_DATA_FLAG_EOF]

/-- Before it, the next bytes are reported, at least one. -/
theorem bodyFrom_more (h : c.Reads) (hleft : left ≠ []) (cs : List ReadCall) :
    ∃ k, 0 < k ∧ bodyFrom left sent (c :: cs) =
      bodyFrom (left.drop k) (sent ++ left.take k) cs := by
  obtain ⟨n, heq⟩ := file_read_reads left h
  have hpos := moved_pos (n := n) (List.length_pos_iff.mpr c.room) hleft
  have htaken : ((c.start left).take n).buf.take (moved n c.buf.length left) =
      left.take (moved n c.buf.length left) := by
    have hnext := (List.take_append_drop (moved n c.buf.length left) left).trans
      (@take_next c left n)
    exact (List.append_cancel_right hnext).symm
  have hnotneg : ¬ (moved n c.buf.length left : Int) < 0 := by omega
  have hnoflag : ¬ (0 : UInt32) &&& NGHTTP2_DATA_FLAG_EOF ≠ 0 := by decide
  refine ⟨moved n c.buf.length left, hpos, ?_⟩
  rw [bodyFrom, heq, if_neg hleft]
  simp only [if_neg hnotneg, if_neg hnoflag, Int.toNat_natCast, htaken]
  rfl

/-! ### All calls -/

/-- One more call before the others that did not end the body. -/
theorem Body.Of.cons {rest : Body} (hc : c.Reads) (h : rest.Of content calls) :
    rest.Of content (c :: calls) := by
  cases rest with
  | unfinished sent => exact ⟨h.1, List.forall_mem_cons.mpr ⟨hc, h.2⟩⟩
  | complete sent =>
      obtain ⟨before, last, after, rfl, hbefore, hlast, hsent⟩ := h
      exact ⟨c :: before, last, after, rfl, List.forall_mem_cons.mpr ⟨hc, hbefore⟩, hlast, hsent⟩
  | reset sent =>
      obtain ⟨hfront, before, last, after, rfl, hbefore, hlast⟩ := h
      exact ⟨hfront, c :: before, last, after, rfl, List.forall_mem_cons.mpr ⟨hc, hbefore⟩, hlast⟩

theorem bodyFrom_of (hsent : sent ++ left = content) (calls : List ReadCall) :
    (bodyFrom left sent calls).Of content calls := by
  have hfront {left sent : Bytes} (h : sent ++ left = content) : sent <+: content := ⟨left, h⟩
  induction calls generalizing left sent with
  | nil => exact ⟨hfront hsent, fun c hc => absurd hc List.not_mem_nil⟩
  | cons c calls ih =>
      have hnone : ∀ d ∈ ([] : List ReadCall), d.Reads := fun d hd => absurd hd List.not_mem_nil
      by_cases hc : c.Reads
      · by_cases hleft : left = []
        · subst hleft
          rw [List.append_nil] at hsent
          subst hsent
          rw [bodyFrom_eof hc]
          exact ⟨[], c, calls, rfl, hnone, hc, rfl⟩
        · obtain ⟨k, -, heq⟩ := @bodyFrom_more c left sent hc hleft calls
          rw [heq]
          refine (ih ?_).cons hc
          rw [List.append_assoc, List.take_append_drop, hsent]
      · rw [bodyFrom_reset hc]
        exact ⟨hfront hsent, [], c, calls, rfl, hnone, hc⟩

/-- As long as `read` is got to, a body is complete after one call for every byte and one
for the end of the file, if not before. -/
theorem bodyFrom_complete (hcalls : ∀ c ∈ calls, c.Reads) (hmany : left.length < calls.length) :
    ∃ body, bodyFrom left sent calls = .complete body := by
  induction calls generalizing left sent with
  | nil => exact absurd hmany (Nat.not_lt_zero _)
  | cons c calls ih =>
      obtain ⟨hc, hrest⟩ := List.forall_mem_cons.mp hcalls
      by_cases hleft : left = []
      · subst hleft
        exact ⟨_, bodyFrom_eof hc calls⟩
      · obtain ⟨k, hk, heq⟩ := @bodyFrom_more c left sent hc hleft calls
        rw [heq]
        refine ih hrest ?_
        have hlength := List.length_pos_iff.mpr hleft
        rw [List.length_drop]
        rw [List.length_cons] at hmany
        omega

/-- No complete body is the content. -/
theorem bodyOf_ne_content : bodyOf content calls ≠ .complete content := by
  intro h
  have hof := bodyFrom_of (List.nil_append content) calls
  rw [bodyOf] at h
  rw [h] at hof
  obtain ⟨-, last, -, -, -, -, hsent⟩ := hof
  have hone : (last.buf.take 1).length = 1 :=
    List.length_take_of_le (List.length_pos_iff.mpr last.room)
  have hlength := congrArg List.length hsent
  rw [List.length_append, hone] at hlength
  omega

end

/-- One byte of content, two calls: what was in the second buffer is sent as well. -/
example : bodyOf [65] [⟨EINTR, [0, 7], List.cons_ne_nil _ _, .gives 0⟩,
    ⟨EINTR, [9], List.cons_ne_nil _ _, .gives 0⟩] = .complete [65, 9] := rfl

/-! ## The response -/

/-- Where the descriptor of a response comes from: the file, or the pipe with the error
page. -/
def Behind (fd : Fd) (effects : List Effect) : Prop :=
  (∃ path, .opened path fd ∈ effects) ∨ ∃ w data, .piped fd w ∈ effects ∧ .wrote w data ∈ effects

theorem submitted_behind {s s' : Stream} {rv rv' : Int} {effects : List Effect} {id : StreamId}
    {hdrs : req.Headers} {fd : Fd} (h : Served s rv s' effects)
    (hmem : .submittedResponse id hdrs fd rv' ∈ effects) : id = s.id ∧ Behind fd effects := by
  cases h with
  | @sent path _ _ =>
      obtain ⟨rfl, rfl, rfl, rfl⟩ : id = s.id ∧ hdrs = _ ∧ fd = _ ∧ rv' = 0 := by simpa using hmem
      exact ⟨rfl, .inl ⟨path, by simp⟩⟩
  | @refused path _ _ _ _ =>
      obtain ⟨rfl, rfl, rfl, rfl⟩ : id = s.id ∧ hdrs = _ ∧ fd = _ ∧ rv' = _ := by simpa using hmem
      exact ⟨rfl, .inl ⟨path, by simp⟩⟩
  | reset => simp at hmem
  | unwritten => simp at hmem
  | @errorSent _ data _ w _ =>
      obtain ⟨rfl, rfl, rfl, rfl⟩ : id = s.id ∧ hdrs = _ ∧ fd = _ ∧ rv' = 0 := by simpa using hmem
      exact ⟨rfl, .inr ⟨w, data, by simp⟩⟩
  | @errorRefused _ data _ w _ _ _ =>
      obtain ⟨rfl, rfl, rfl, rfl⟩ : id = s.id ∧ hdrs = _ ∧ fd = _ ∧ rv' = _ := by simpa using hmem
      exact ⟨rfl, .inr ⟨w, data, by simp⟩⟩

theorem sendResponse_headers {o : FrameOutcome} {s : Stream} {rv : Int} {id : StreamId}
    {hdrs hdrs' : req.Headers} {fd : Fd}
    (hmem : .submittedResponse id hdrs fd rv ∈ (s.sendResponse o hdrs').2) : hdrs = hdrs' := by
  rw [Stream.sendResponse, List.mem_singleton] at hmem
  cases hmem
  rfl

/-- The headers come from `make_status`, and there are none. -/
theorem submitted_headers {o : FrameOutcome} {s : Stream} {rv : Int} {id : StreamId}
    {hdrs : req.Headers} {fd : Fd}
    (hmem : .submittedResponse id hdrs fd rv ∈ (s.recvFrame o).2.2) : hdrs.hdrs = [] := by
  have hclose {p : Prop} [Decidable p] {fd' : Fd} :
      Effect.submittedResponse id hdrs fd rv ∉ (if p then [Effect.closed fd'] else []) := by
    split <;> simp
  have herror {t : Stream} (h : .submittedResponse id hdrs fd rv ∈ (t.sendError o).2.2) :
      hdrs.hdrs = [] := by
    unfold Stream.sendError at h
    split at h
    · simp at h
    dsimp only at h
    split at h
    · simp at h
    rcases List.mem_append.mp h with hbefore | hafter
    · rcases List.mem_append.mp hbefore with hwritten | hsent
      · simp at hwritten
      · rw [sendResponse_headers hsent]
        rfl
    · exact absurd hafter hclose
  unfold Stream.recvFrame at hmem
  rw [if_neg (by simp)] at hmem
  dsimp only at hmem
  split at hmem
  · rcases List.mem_cons.mp hmem with hopen | hrest
    · cases hopen
    · exact herror hrest
  · rcases List.mem_append.mp hmem with hbefore | hafter
    · rcases List.mem_cons.mp hbefore with hopen | hsent
      · cases hopen
      · rw [sendResponse_headers hsent]
        rfl
    · exact absurd hafter hclose

/-- The responses among the effects: they carry no header, and read from a descriptor that
was opened for them. -/
def Answer.Responds (a : Answer) : Prop :=
  ∀ id hdrs fd rv, .submittedResponse id hdrs fd rv ∈ a.effects →
    hdrs.hdrs = [] ∧ Behind fd a.effects

theorem act_responds {U : Type} (ada : Ada U) (h : Hook) :
    Keyed.Keeps (fun _ => True) Answer.Responds (h.act ada) := by
  intro entry _
  refine ⟨?_, fun _ _ => trivial⟩
  intro id hdrs fd rv hmem
  cases h with
  | beginHeaders frame =>
      simp only [Hook.act] at hmem
      split at hmem <;> simp at hmem
  | recvHeader frame name value =>
      simp only [Hook.act] at hmem
      split at hmem
      · split at hmem <;> simp at hmem
      · simp at hmem
  | frameRecv frame o =>
      simp only [Hook.act] at hmem ⊢
      cases hends : frame.endsStream with
      | false => simp [hends] at hmem
      | true =>
          rcases entry with _ | _ | st
          · simp [hends] at hmem
          · simp [hends] at hmem
          · simp only [hends, if_true] at hmem ⊢
            exact ⟨submitted_headers hmem, (submitted_behind (recvFrame_served o st) hmem).2⟩
  | streamClose id' errorCode =>
      rcases entry with _ | _ | st
      · simp [Hook.act] at hmem
      · simp [Hook.act] at hmem
      · simp only [Hook.act, Stream.streamD] at hmem
        split at hmem <;> simp at hmem

/-- **No response is what it should be.**  For every sequence of hooks of a session, every
content and every sequence of calls: there is no status, and the body is not the content. -/
theorem responses_malformed {U : Type} (ada : Ada U) (parser : UrlParser U) (hs : List Hook)
    (content : Bytes) (calls : List ReadCall) :
    (∀ a ∈ ((InboundStreams.empty parser).runHooks ada hs).1, a.2.Responds) ∧
      (bodyOf content calls).Of content calls ∧ bodyOf content calls ≠ .complete content ∧
      ((∀ c ∈ calls, c.Reads) → content.length < calls.length →
        ∃ body, bodyOf content calls = .complete body) := by
  refine ⟨?_, bodyFrom_of (List.nil_append content) calls, bodyOf_ne_content,
    fun hcalls hmany => bodyFrom_complete hcalls hmany⟩
  intro a ha
  have hall := congrArg Prod.fst (runHooks_eq ada hs (.empty parser))
  dsimp only at hall
  rw [hall] at ha
  refine Keyed.runAll_forall (P := fun _ => True) _ _ ?_ (fun _ _ _ => trivial) a ha
  intro c hc
  obtain ⟨h, -, rfl⟩ := List.mem_map.mp hc
  exact act_responds ada h

end Wshttp
