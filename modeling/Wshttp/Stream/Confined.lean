/-
# `Wshttp.Stream.Confined` — the names `recv_frame` can open

The name that `recv_frame` hands to `open` is the path of the stored `uri` without
its leading slashes.  That `uri` is a default one, with an empty path, or was copied
out of a URL that the parser had accepted: one whose scheme `set_protocol` had made
`https`, and whose path the library had normalised.

`open` begins at the working directory and goes from segment to segment, up at each
`..`; without one, and without a slash in front, it stays below.

**Proved here.**  Whatever hooks nghttp2 calls, in any order and with any header
values, every name that is opened is relative, has no `..` in it, and leads nowhere
but below the working directory (`opened_confined`).
-/
import Wshttp.Stream.OneStream
import Wshttp.Stream.OriginForm

namespace Wshttp

/-! ## Segments -/

def segments (path : Bytes) : List Bytes := path.splitOn slash

def dotDot : Bytes := chars ".."

def toLower (c : UInt8) : UInt8 := if 0x41 ≤ c ∧ c ≤ 0x5a then c + 0x20 else c

/-- A segment that the URL standard takes for `.` or `..`, plain or percent-encoded. -/
def isDotSegment (segment : Bytes) : Bool :=
  segment.map toLower ∈ [".", "%2e", "..", ".%2e", "%2e.", "%2e%2e"].map chars

/-- What the URL library is relied on for: `set_protocol` does what it says it does, and the
path of an `https` URL is normalised and percent-encoded. -/
structure Ada.Normalises {U : Type} (ada : Ada U) : Prop where
  protocolSet : ∀ u, (ada.setProtocol https_proto u).1 = true →
    ada.getProtocol (ada.setProtocol https_proto u).2 = chars "https:"
  noDotSegment : ∀ u, ada.getProtocol u = chars "https:" →
    ∀ segment ∈ segments (ada.getPathname u), isDotSegment segment = false
  noNul : ∀ u, ada.getProtocol u = chars "https:" → 0 ∉ ada.getPathname u

/-! ## Where a name leads -/

/-- One segment of a name, from the directory `dir`; a directory is the list of the segments
that lead to it from the root. -/
def enter (dir : List Bytes) (segment : Bytes) : List Bytes :=
  if segment = [] ∨ segment = chars "." then dir
  else if segment = dotDot then dir.dropLast
  else dir ++ [segment]

/-- The file a name leads to where no symbolic link is on the way. -/
def resolve (cwd : List Bytes) (name : Bytes) : List Bytes :=
  (segments name).foldl enter (if name.head? = some slash then [] else cwd)

structure Confined (name : Bytes) : Prop where
  relative : name.head? ≠ some slash
  noDotDot : dotDot ∉ segments name

theorem foldl_enter_prefix (names : List Bytes) (hnames : dotDot ∉ names) :
    ∀ dir, dir <+: names.foldl enter dir := by
  induction names with
  | nil => exact fun dir => List.prefix_rfl
  | cons segment names ih =>
      intro dir
      obtain ⟨hne, hrest⟩ := List.ne_and_not_mem_of_not_mem_cons hnames
      have henter : dir <+: enter dir segment := by
        rw [enter, if_neg hne.symm]
        split
        · exact List.prefix_rfl
        · exact List.prefix_append dir [segment]
      exact henter.trans (ih hrest _)

/-- A confined name leads to the working directory, or to something below it. -/
theorem Confined.stays {name : Bytes} (h : Confined name) (cwd : List Bytes) :
    cwd <+: resolve cwd name := by
  rw [resolve, if_neg h.relative]
  exact foldl_enter_prefix _ h.noDotDot cwd

/-! ## The stripping loop -/

theorem stripSlashes_relative (path : Bytes) : (Stream.stripSlashes path).head? ≠ some slash := by
  induction path with
  | nil => exact nofun
  | cons c cs ih =>
      rw [Stream.stripSlashes]
      split
      · exact ih
      · next hne => exact fun hhead => hne (Option.some.inj hhead)

theorem segments_slash (path : Bytes) : segments (slash :: path) = [] :: segments path := by
  rw [segments, List.splitOn_cons_eq_if_modifyHead, if_pos (beq_self_eq_true slash)]
  rfl

/-- The loop takes empty segments away, and nothing else. -/
theorem segments_stripSlashes (path : Bytes) :
    ∀ segment ∈ segments (Stream.stripSlashes path), segment ∈ segments path := by
  induction path with
  | nil => exact fun segment hsegment => hsegment
  | cons c cs ih =>
      intro segment hsegment
      rw [Stream.stripSlashes] at hsegment
      split at hsegment
      case isFalse => exact hsegment
      next hslash =>
      rw [hslash, show (0x2f : UInt8) = slash from rfl, segments_slash]
      exact List.mem_cons_of_mem [] (ih segment hsegment)

theorem mem_of_mem_stripSlashes {b : UInt8} (path : Bytes) (h : b ∈ Stream.stripSlashes path) :
    b ∈ path := by
  induction path with
  | nil => exact h
  | cons c cs ih =>
      rw [Stream.stripSlashes] at h
      split at h
      · exact List.mem_cons_of_mem c (ih h)
      · exact h

/-- What a stored path has: it is empty, or normalised. -/
structure Normalised (path : Bytes) : Prop where
  noDotDot : dotDot ∉ segments path
  noNul : 0 ∉ path

theorem normalised_nil : Normalised [] where
  noDotDot := by decide
  noNul := List.not_mem_nil

/-- The name that `open` sees of a normalised path. -/
theorem Normalised.confined {path : Bytes} (h : Normalised path) :
    Confined (cString (Stream.stripSlashes path)) := by
  rw [cString_of_noNul fun hnul => h.noNul (mem_of_mem_stripSlashes path hnul)]
  exact ⟨stripSlashes_relative path,
    fun hdots => h.noDotDot (segments_stripSlashes path dotDot hdots)⟩

/-! ## The stored path -/

section
variable {U : Type} {ada : Ada U}

theorem accepted_protocol (hada : ada.Normalises) {value : Bytes} {u : U}
    (h : accepted ada value = some u) : ada.getProtocol u = chars "https:" := by
  obtain ⟨v, -, hset, -⟩ := accepted_eq_some h
  have hproto := hada.protocolSet v (congrArg Prod.fst hset)
  rwa [hset] at hproto

/-- Whatever the value: a rejected one leaves an empty path. -/
theorem uriOf_normalised (hada : ada.Normalises) (value : Bytes) :
    Normalised (uriOf ada value).path := by
  cases haccepted : accepted ada value with
  | none =>
      rw [uriOf, haccepted]
      exact normalised_nil
  | some u =>
      have hproto := accepted_protocol hada haccepted
      have hpath : (uriOf ada value).path = ada.getPathname u := by
        rw [uriOf, haccepted]
        rfl
      rw [hpath]
      refine ⟨fun hdots => ?_, hada.noNul u hproto⟩
      have hno := hada.noDotSegment u hproto dotDot hdots
      revert hno
      decide

/-! ## The hooks -/

/-- The names that `open` is called with. -/
def Answer.opensNames (a : Answer) : List Bytes := a.effects.filterMap Effect.opensName

theorem sendError_opensNames (o : FrameOutcome) (s : Stream) :
    (s.sendError o).2.2.filterMap Effect.opensName = [] := by
  unfold Stream.sendError
  split
  · rfl
  dsimp only
  split
  · rfl
  · rw [List.filterMap_append]
    split <;> rfl

theorem recvFrame_opensNames (o : FrameOutcome) (s : Stream) :
    (s.recvFrame o).2.2.filterMap Effect.opensName
      = [cString (Stream.stripSlashes s.req.path)] := by
  unfold Stream.recvFrame
  rw [if_neg (by simp)]
  dsimp only
  split
  · exact congrArg _ (sendError_opensNames o s)
  · split <;> rfl

theorem Served.req {s s' : Stream} {rv : Int} {effects : List Effect}
    (h : Served s rv s' effects) : s'.req = s.req := by
  cases h with
  | sent | refused | reset | unwritten | errorSent | errorRefused => rfl

theorem streamD_opensNames (s : Stream) : s.streamD.filterMap Effect.opensName = [] := by
  unfold Stream.streamD
  split <;> rfl

/-- An entry of `_streams` with a normalised path. -/
def Entry.Normalised (entry : Option Stream) : Prop :=
  ∀ s, entry = some s → Wshttp.Normalised s.req.path

def Answer.OpensConfined (a : Answer) : Prop := ∀ name ∈ a.opensNames, Confined name

theorem Answer.opensConfined_of_none {a : Answer} (ha : a.opensNames = []) : a.OpensConfined := by
  intro name hname
  rw [ha] at hname
  cases hname

/-- Every hook keeps the stored paths normalised, and opens confined names only. -/
theorem act_keeps (hada : ada.Normalises) (h : Hook) :
    Keyed.Keeps Entry.Normalised Answer.OpensConfined (h.act ada) := by
  intro entry hentry
  cases h with
  | beginHeaders frame =>
      dsimp only [Hook.act]
      split
      · refine ⟨Answer.opensConfined_of_none rfl, ?_⟩
        rintro _ ⟨⟩ s ⟨⟩
        exact normalised_nil
      · exact ⟨Answer.opensConfined_of_none rfl, hentry⟩
  | recvHeader frame name value =>
      dsimp only [Hook.act]
      split
      case isFalse => exact ⟨Answer.opensConfined_of_none rfl, hentry⟩
      rcases entry with _ | _ | st
      · exact ⟨Answer.opensConfined_of_none rfl, hentry⟩
      · exact ⟨Answer.opensConfined_of_none rfl, hentry⟩
      · refine ⟨Answer.opensConfined_of_none rfl, ?_⟩
        rintro _ ⟨⟩ s ⟨⟩
        exact uriOf_normalised hada value
  | frameRecv frame o =>
      dsimp only [Hook.act]
      split
      case isFalse => exact ⟨Answer.opensConfined_of_none rfl, hentry⟩
      rcases entry with _ | _ | st
      · exact ⟨Answer.opensConfined_of_none rfl, hentry⟩
      · exact ⟨Answer.opensConfined_of_none rfl, hentry⟩
      have hpath : Normalised st.req.path := hentry _ rfl st rfl
      constructor
      · intro name hname
        rw [Answer.opensNames, recvFrame_opensNames, List.mem_singleton] at hname
        rw [hname]
        exact hpath.confined
      · rintro _ ⟨⟩ s ⟨⟩
        rw [(recvFrame_served o st).req]
        exact hpath
  | streamClose id errorCode =>
      dsimp only [Hook.act]
      rcases entry with _ | _ | st
      · exact ⟨Answer.opensConfined_of_none rfl, nofun⟩
      · exact ⟨Answer.opensConfined_of_none rfl, nofun⟩
      · exact ⟨Answer.opensConfined_of_none (streamD_opensNames st), nofun⟩

/-- The names opened in a run of the hooks, from a session without streams. -/
def openedNames (ada : Ada U) (parser : UrlParser U) (hs : List Hook) : List Bytes :=
  ((InboundStreams.empty parser).runHooks ada hs).1.flatMap fun a => a.2.opensNames

/-- **No request opens a file outside the working directory.**  For every sequence of hooks
and every parser to begin with. -/
theorem opened_confined (hada : ada.Normalises) (parser : UrlParser U) (hs : List Hook) :
    ∀ name ∈ openedNames ada parser hs,
      Confined name ∧ ∀ cwd, cwd <+: resolve cwd name := by
  intro name hname
  obtain ⟨a, ha, hopens⟩ := List.mem_flatMap.mp hname
  have hall := congrArg Prod.fst (runHooks_eq ada hs (.empty parser))
  dsimp only at hall
  rw [hall] at ha
  have hanswer : a.2.OpensConfined := by
    refine Keyed.runAll_forall (P := Entry.Normalised) _ _ ?_ ?_ a ha
    · intro c hc
      obtain ⟨h, -, rfl⟩ := List.mem_map.mp hc
      exact act_keeps hada h
    · intro k v hv
      cases hv.symm.trans (Finmap.lookup_empty k)
  exact ⟨hanswer name hopens, (hanswer name hopens).stays⟩

end

/-! ## A library for URLs that are normalised already -/

/-- A URL that `Ada.plain` knows, and that needs no normalising. -/
structure NormalUrl where
  url : Bytes
  noDotSegment : ∀ segment ∈ segments (Ada.plain.getPathname url), isDotSegment segment = false
  noNul : 0 ∉ Ada.plain.getPathname url

def Ada.normal : Ada NormalUrl where
  parse := fun s => (Ada.plain.parse s).bind fun url =>
    if h : (∀ segment ∈ segments (Ada.plain.getPathname url), isDotSegment segment = false) ∧
        0 ∉ Ada.plain.getPathname url then some ⟨url, h.1, h.2⟩ else none
  setProtocol := fun _ u => (true, u)
  validate := fun _ => true
  getProtocol := fun u => Ada.plain.getProtocol u.url
  getUsername := fun u => Ada.plain.getUsername u.url
  getHost := fun u => Ada.plain.getHost u.url
  getPort := fun u => Ada.plain.getPort u.url
  getPathname := fun u => Ada.plain.getPathname u.url
  getSearch := fun u => Ada.plain.getSearch u.url
  getHash := fun u => Ada.plain.getHash u.url
  getHref := fun u => Ada.plain.getHref u.url

theorem Ada.normal_normalises : Ada.normal.Normalises where
  protocolSet := fun _ _ => rfl
  noDotSegment := fun u _ => u.noDotSegment
  noNul := fun u _ => u.noNul

/-- A request for a URL. -/
def requestHooks (url : Bytes) : List Hook :=
  [.beginHeaders (requestFrame 1), .recvHeader (requestFrame 1) req.fields.path url,
    .frameRecv (requestFrame 1) .noFile]

theorem opened_confined_index :
    openedNames .normal {} (requestHooks (chars "https://localhost//a/index.html"))
      = [chars "a/index.html"] ∧
    ∀ name ∈ openedNames .normal {} (requestHooks (chars "https://localhost//a/index.html")),
      Confined name ∧ ∀ cwd, cwd <+: resolve cwd name :=
  ⟨by decide, opened_confined Ada.normal_normalises {} _⟩

end Wshttp
