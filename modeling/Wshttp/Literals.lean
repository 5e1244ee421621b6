/-
# `Wshttp.Literals` — what a `_usp` literal is equal to

A literal's span covers the whole array, so its last byte is the terminating NUL,
and `operator==` compares all of it.  Three places rely on such a comparison or on
the span itself.

| place                       | with what               |
| :-------------------------- | :---------------------- |
| `event_cb`                  | the negotiated ALPN     |
| `recv_header_hook`          | the name of a header    |
| `add_field`                 | puts the name on a wire |

**Proved here.**  A literal equals its characters followed by a NUL and nothing else
(`spanEq_usp`), so a comparison is right about every string except its characters,
with and without the NUL, and no name on the wire is right (`literals_denote_iff`).
-/
import Wshttp.Session.Frame
import Wshttp.Stream.Hooks

namespace Wshttp

/-! ## One comparison -/

theorem spanEq_usp (s : String) (x : Bytes) : spanEq (usp s) x = true ↔ x = chars s ++ [0] := by
  rw [spanEq, beq_iff_eq]
  exact eq_comm

theorem chars_ne_usp (s : String) : chars s ≠ chars s ++ [0] := by
  intro h
  have hlen := congrArg List.length h
  rw [List.length_append] at hlen
  exact absurd hlen (by simp)

/-- A test that a string passes when it is `chars s` with a NUL, taken for the test
that it is `chars s`. -/
theorem denotes_iff {s : String} {x : Bytes} {p : Prop} (hp : p ↔ x = chars s ++ [0]) :
    (p ↔ x = chars s) ↔ x ≠ chars s ∧ x ≠ chars s ++ [0] := by
  rw [hp]
  constructor
  · intro h
    have hno : x ≠ chars s := by
      intro hx
      exact chars_ne_usp s (hx.symm.trans (h.mpr hx))
    exact ⟨hno, fun hx => hno (h.mp hx)⟩
  · rintro ⟨hno, hnul⟩
    exact iff_of_false hnul hno

/-! ## The ALPN -/

section
variable {bigEndian : Bool} {events : UInt16} {alpn : Bytes} {i : InitOutcome} {o : SendOutcome}
  {s : SessionBase}

theorem alpnAccepted_iff :
    SessionBase.alpnAccepted alpn = true ↔ alpn = [] ∨ alpn = chars "h2" ++ [0] := by
  rw [SessionBase.alpnAccepted, Bool.or_eq_true, defaults.ALPN, spanEq_usp, beq_iff_eq,
    List.length_eq_zero_iff]

/-- `config_send_initial` asks for no close job, so its result is not that of the
other branch. -/
theorem eventCb_eq_config_iff (hconn : events &&& BEV_EVENT_CONNECTED ≠ 0) :
    s.eventCb bigEndian events alpn i o = s.configSendInitial bigEndian i o ↔
      SessionBase.alpnAccepted alpn = true := by
  rw [SessionBase.eventCb]
  cases hacc : SessionBase.alpnAccepted alpn with
  | true => simp [hconn]
  | false =>
      refine iff_of_false ?_ Bool.false_ne_true
      rw [if_neg (by simp)]
      intro heq
      have hkept := SessionBase.configSendInitial_framed framed_identity bigEndian i o s
      rw [← heq] at hkept
      have hjobs : s.closeJobs + 1 = s.closeJobs := congrArg (fun t => t.2.2.2) hkept
      omega

end

/-! ## The name of a header -/

section
variable {U : Type} (ada : Ada U)

/-- For every request, `recv_header_hook` hands a header of this name to the stream. -/
def CallsRecvPathHeader (name : Bytes) : Prop :=
  ∀ (frame : Frame) (value : Bytes) (s : InboundStreams U) (st : Stream),
    frame.isRequest = true → s.streams.lookup (streamKey frame.streamId) = some (some st) →
      s.recvHeaderHook ada frame name value =
        (⟨(st.recvPathHeader ada value s.parser).1, []⟩,
          { streams := s.streams.insert (streamKey frame.streamId)
              (some (st.recvPathHeader ada value s.parser).2.1)
            parser := (st.recvPathHeader ada value s.parser).2.2 })

/-- After a call of `uri::parse` the parser is either reset or holds a result. -/
theorem uriParse_keeps (url : Bytes) (parser : UrlParser U) :
    (uriParse ada url parser).2 ≠ { data := some [], res := none } := by
  cases h : accepted ada url with
  | none => simp [uriParse, read_rejected h]
  | some u => simp [uriParse, read_accepted h]

theorem callsRecvPathHeader_iff (name : Bytes) :
    CallsRecvPathHeader ada name ↔ name = chars ":path" ++ [0] := by
  rw [← spanEq_usp]
  constructor
  · intro hcalls
    by_contra hname
    -- a parser that a call would not leave as it is
    let s : InboundStreams U :=
      { streams := Finmap.insert (streamKey 1) (some { id := 1 }) ∅
        parser := { data := some [], res := none } }
    have hcall := hcalls (requestFrame 1) [] s { id := 1 } rfl (Finmap.lookup_insert _)
    have hskip : s.recvHeaderHook ada (requestFrame 1) name [] = (⟨.ok 0, []⟩, s) := by
      rw [InboundStreams.recvHeaderHook, if_neg (by decide), req.fields.path, if_neg hname]
    rw [hskip] at hcall
    have hparser := congrArg (fun r => r.2.parser) hcall
    rw [Stream.recvPathHeader_eq] at hparser
    exact uriParse_keeps ada [] s.parser hparser.symm
  · intro hname frame value s st hreq hst
    rw [InboundStreams.recvHeaderHook, if_neg (by simp [hreq]), req.fields.path, if_pos hname, hst]

end

/-! ## The name on the wire -/

theorem nul_mem_fieldName (f : req.FIELD) : 0 ∈ req.fieldName f := by
  cases f <;> exact List.mem_append_right _ List.mem_cons_self

/-- **A literal is its characters, except where it matters.**  The comparison, the
ALPN and the header's name are judged right exactly when they are neither the
literal's characters nor these with a NUL; every field name on the wire has one. -/
theorem literals_denote_iff {U : Type} (ada : Ada U) (text : String) (x alpn name : Bytes)
    (bigEndian : Bool) (events : UInt16) (i : InitOutcome) (o : SendOutcome) (s : SessionBase)
    (f : req.FIELD) (value : Bytes) (flags : UInt8) (h : req.Headers) :
    ((spanEq (usp text) x = true ↔ x = chars text) ↔ x ≠ chars text ∧ x ≠ chars text ++ [0]) ∧
    (events &&& BEV_EVENT_CONNECTED ≠ 0 →
      ((s.eventCb bigEndian events alpn i o = s.configSendInitial bigEndian i o ↔
          alpn = [] ∨ alpn = chars "h2") ↔
        alpn ≠ chars "h2" ∧ alpn ≠ chars "h2" ++ [0])) ∧
    ((CallsRecvPathHeader ada name ↔ name = chars ":path") ↔
      name ≠ chars ":path" ∧ name ≠ chars ":path" ++ [0]) ∧
    ¬ ∀ nv ∈ (h.addField f value flags).hdrs.drop h.size, 0 ∉ nv.name := by
  refine ⟨denotes_iff (spanEq_usp text x), ?_, denotes_iff (callsRecvPathHeader_iff ada name), ?_⟩
  · intro hconn
    rw [eventCb_eq_config_iff hconn, alpnAccepted_iff]
    by_cases hempty : alpn = []
    · subst hempty
      exact iff_of_true (iff_of_true (.inl rfl) (.inl rfl)) ⟨by decide, by decide⟩
    · simp only [hempty, false_or]
      exact denotes_iff Iff.rfl
  · intro hall
    have hmem : req.makeHeader f value flags ∈ (h.addField f value flags).hdrs.drop h.size := by
      rw [req.Headers.addField, req.Headers.size, List.drop_left]
      exact List.mem_cons_self
    exact hall _ hmem (nul_mem_fieldName f)

/-- A string the comparison is right about: a peer that negotiates `h3` is rejected. -/
theorem literals_denote_iff_h3 :
    ((SessionBase.initialized false 7 ⟨.ofPort 443, .ofPort 50000⟩).eventCb false
        BEV_EVENT_CONNECTED (chars "h3") .succeeds .sendAll
      = (SessionBase.initialized false 7 ⟨.ofPort 443, .ofPort 50000⟩).configSendInitial false
          .succeeds .sendAll ↔
      chars "h3" = [] ∨ chars "h3" = chars "h2") ↔
        chars "h3" ≠ chars "h2" ∧ chars "h3" ≠ chars "h2" ++ [0] :=
  (literals_denote_iff .acceptsNothing "h3" [] (chars "h3") [] false BEV_EVENT_CONNECTED .succeeds
    .sendAll _ .status [] 0 ⟨[]⟩).2.1 (by decide)

/-- The peer negotiates `h2`, and the session is closed. -/
theorem h2_is_rejected :
    spanEq (usp "h2") (chars "h2") = false ∧
    (SessionBase.initialized false 7 ⟨.ofPort 443, .ofPort 50000⟩).eventCb false
        BEV_EVENT_CONNECTED (chars "h2") .succeeds .sendAll
      = (.ok (), (SessionBase.initialized false 7 ⟨.ofPort 443, .ofPort 50000⟩).closeSession) ∧
    ¬ ∀ (s : String) (x : Bytes), spanEq (usp s) x = true ↔ x = chars s := by
  refine ⟨by decide, by rfl, fun h => ?_⟩
  have hno : spanEq (usp "h2") (chars "h2") = false := by decide
  rw [(h "h2" (chars "h2")).mpr rfl] at hno
  cases hno

end Wshttp
