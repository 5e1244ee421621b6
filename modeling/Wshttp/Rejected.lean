/-
# `Wshttp.Rejected` — what becomes of a string the URL parser rejects

`uri::parse` gives a default `uri` for it, and its three callers ask `if (uri)`.  The
conversion to `bool` asks the array of the eight strings whether it is empty, which an
array of eight never is.

| caller                       | asks          | is to answer a rejected string by            |
| :--------------------------- | :------------ | :------------------------------------------- |
| `endpoint::connect`          | `not _uri`    | `invalid_argument`, before `_nodes` is touched |
| `stream::recv_path_header`   | `_req ? ...`  | `NGHTTP2_ERR_CALLBACK_FAILURE`               |
| `stream::recv_frame`         | `not _req`    | `NGHTTP2_ERR_CALLBACK_FAILURE`               |

**Proved here.**  None of the three notices, exactly: each does what it is to do only
where there is no rejected string, apart from a `connect` that finds a node for the
empty host name (`rejected_noticed_iff`).
-/
import Wshttp.Endpoint
import Wshttp.Stream.OneStream

namespace Wshttp

variable {U : Type}

/-- The `uri` converts to true exactly if the string was accepted. -/
def Tells (ada : Ada U) (parser : UrlParser U) (s : Bytes) : Prop :=
  ∃ u, (uriParse ada s parser).1 = .ok u ∧ (u.toBool = true ↔ (parser.read ada s).1 = true)

/-- `connect` throws `invalid_argument`, and `_nodes` is as it was. -/
def Endpoint.Refuses (ada : Ada U) (bigEndian : Bool) (o : ConnectOutcome) (url : Bytes)
    (localAddr : Option IpAddress) (ep : Endpoint U) : Prop :=
  (∃ what, (ep.connect ada bigEndian o url localAddr).1
      = .error (.throws (invalidArgument what))) ∧
    (ep.connect ada bigEndian o url localAddr).2.nodes = ep.nodes

namespace Stream

/-- A stream after some path headers, each with what the parser held before it. -/
def recvPaths (ada : Ada U) (paths : List (Bytes × UrlParser U)) (s : Stream) : Stream :=
  paths.foldl (fun s path => (s.recvPathHeader ada path.1 path.2).2.1) s

/-- `recv_frame` fails, and calls nobody. -/
def Refuses (o : FrameOutcome) (s : Stream) : Prop :=
  (s.recvFrame o).1 = NGHTTP2_ERR_CALLBACK_FAILURE ∧ (s.recvFrame o).2.2 = []

end Stream

section
variable {ada : Ada U} {s : Bytes} {parser : UrlParser U} {ep : Endpoint U}

/-- `recv_frame` always tries to open something. -/
theorem Served.effects_ne_nil {st st' : Stream} {rv : Int} {effects : List Effect}
    (h : Served st rv st' effects) : effects ≠ [] := by
  cases h with
  | sent | refused _ | reset | unwritten | errorSent | errorRefused _ => exact List.cons_ne_nil _ _

theorem Stream.not_refuses (o : FrameOutcome) (st : Stream) : ¬ st.Refuses o :=
  fun h => (recvFrame_served o st).effects_ne_nil h.2

theorem read_fst (ada : Ada U) (s : Bytes) (parser : UrlParser U) :
    (parser.read ada s).1 = (accepted ada s).isSome := by
  cases h : accepted ada s with
  | none => rw [read_rejected h]; rfl
  | some u => rw [read_accepted h]; rfl

theorem uriOf_rejected (h : accepted ada s = none) : uriOf ada s = .default := by
  rw [uriOf, h]
  rfl

theorem tells_iff (ada : Ada U) (parser : UrlParser U) (s : Bytes) :
    Tells ada parser s ↔ (parser.read ada s).1 = true := by
  constructor
  · rintro ⟨u, -, htrue⟩
    exact htrue.mp u.toBool_eq_true
  · intro haccepted
    refine ⟨uriOf ada s, uriParse_eq ada s parser, ?_⟩
    exact iff_of_true (uriOf ada s).toBool_eq_true haccepted

/-- For a rejected string `connect` goes on to `_nodes`, under the empty host name. -/
theorem connect_refuses_iff {bigEndian : Bool} {o : ConnectOutcome}
    {localAddr : Option IpAddress} (h : (parser.read ada s).1 = false) :
    ep.Refuses ada bigEndian o s localAddr ↔ [] ∈ ep.nodes := by
  have hnone : accepted ada s = none := by
    rw [read_fst] at h
    exact Option.not_isSome_iff_eq_none.mp (Bool.eq_false_iff.mp h)
  have hhost : (uriOf ada s).host = [] := by
    rw [uriOf_rejected hnone]
    rfl
  unfold Endpoint.Refuses
  rw [Endpoint.connect_eq]
  dsimp only
  rw [hhost]
  by_cases hmem : [] ∈ ep.nodes
  · rw [if_pos hmem]
    exact iff_of_true ⟨⟨_, rfl⟩, rfl⟩ hmem
  · rw [if_neg hmem]
    refine iff_of_false (fun hrefuses => hmem ?_) hmem
    obtain ⟨-, hnodes⟩ := hrefuses
    rw [← hnodes]
    split
    · show [] ∈ ep.nodes.emplaceNull []
      rw [PtrMap.emplaceNull_of_notMem hmem]
      exact Finmap.mem_insert.mpr (.inl rfl)
    · exact Finmap.mem_insert.mpr (.inl rfl)

theorem recvPathHeader_not_refused (ada : Ada U) (path : Bytes) (parser : UrlParser U)
    (st : Stream) : (st.recvPathHeader ada path parser).1 ≠ .ok NGHTTP2_ERR_CALLBACK_FAILURE := by
  rw [Stream.recvPathHeader_eq]
  exact fun h => (nomatch Except.ok.inj h)

/-- **A rejected string is noticed nowhere.**  For every URL library, every string, every
endpoint, and every stream with the path headers it has had. -/
theorem rejected_noticed_iff (ada : Ada U) (parser : UrlParser U) (s : Bytes) (bigEndian : Bool)
    (o : ConnectOutcome) (localAddr : Option IpAddress) (ep : Endpoint U) (st : Stream)
    (id : StreamId) (paths : List (Bytes × UrlParser U)) (fo : FrameOutcome) :
    (Tells ada parser s ↔ (parser.read ada s).1 = true) ∧
    (((ep.parser.read ada s).1 = false → ep.Refuses ada bigEndian o s localAddr) ↔
      (ep.parser.read ada s).1 = true ∨ [] ∈ ep.nodes) ∧
    (((parser.read ada s).1 = false →
        (st.recvPathHeader ada s parser).1 = .ok NGHTTP2_ERR_CALLBACK_FAILURE) ↔
      (parser.read ada s).1 = true) ∧
    (((∀ path ∈ paths, (path.2.read ada path.1).1 = false) →
        (Stream.recvPaths ada paths { id }).Refuses fo) ↔
      ∃ path ∈ paths, (path.2.read ada path.1).1 = true) := by
  refine ⟨tells_iff ada parser s, ?_, ?_, ?_⟩
  · cases hread : (ep.parser.read ada s).1 with
    | true => exact iff_of_true (fun h => (nomatch h)) (.inl rfl)
    | false =>
        rw [forall_prop_of_true rfl, connect_refuses_iff hread]
        exact ⟨.inr, fun h => h.resolve_left Bool.false_ne_true⟩
  · cases hread : (parser.read ada s).1 with
    | true => exact iff_of_true (fun h => (nomatch h)) rfl
    | false =>
        refine iff_of_false (fun h => ?_) Bool.false_ne_true
        exact recvPathHeader_not_refused ada s parser st (h rfl)
  · constructor
    · intro h
      by_contra hnone
      refine Stream.not_refuses fo _ (h fun path hmem => ?_)
      exact Bool.eq_false_iff.mpr fun haccepted => hnone ⟨path, hmem, haccepted⟩
    · rintro ⟨path, hmem, haccepted⟩ hnone
      rw [hnone path hmem] at haccepted
      cases haccepted

end

/-- A library that rejects everything, and the string `:`.  The `uri` converts to true,
the empty host name gets an entry, the path header is taken, and the request answered. -/
theorem rejected_unnoticed :
    ¬ Tells .acceptsNothing {} (chars ":") ∧
      [] ∈ ((Endpoint.new {} : Endpoint Unit).connect .acceptsNothing false
        ⟨fun _ => 7, fun _ => 0, fun _ _ _ => 0, true, true, fun _ _ => 0⟩
        (chars ":") none).2.nodes ∧
      (({ id := 1 } : Stream).recvPathHeader .acceptsNothing (chars ":") {}).1 = .ok 0 ∧
      (({ id := 1 } : Stream).recvFrame .noFile).1 = 0 := by
  refine ⟨fun h => ?_, ?_, rfl, rfl⟩
  · cases (tells_iff _ _ _).mp h
  · decide

end Wshttp
