/-
# `Wshttp.Stream.OriginForm` — what becomes of `:path: /index.html`

The value of `:path` is the path of a URL without the origin.  `recv_path_header`
hands it to `uri::parse` as it is, and without a base the URL standard gives such a
string no meaning: the parser rejects it and the stream stores a default `uri`.

`operator bool` of a `uri` asks whether the array of its strings has elements.  It
has eight, so the default is taken for a good request, here and in `recv_frame`.

**Proved here.**  Whatever the value in origin form, `recv_path_header` returns 0
and the stored path is empty (`originForm_stored`); `recv_frame` then opens the
empty name (`originForm_opens`), so no request of this kind is served as it should
be (`originForm_misread`).
-/
import Wshttp.Stream.Hooks

namespace Wshttp

/-! ## Origin form, and what it names -/

def slash : UInt8 := 0x2f

/-- `'/'`, a path, and perhaps a query. -/
def OriginForm (value : Bytes) : Prop := value.head? = some slash

/-- What the URL library is relied on for: a string that starts with a slash is not an
absolute URL, and the path of an `https` URL starts with one. -/
structure Ada.Standard {U : Type} (ada : Ada U) : Prop where
  notAbsolute : ∀ s, s.head? = some slash → ada.parse s = none
  rootedPath : ∀ s u, ada.parse (chars "https://" ++ s) = some u →
    (ada.getPathname u).head? = some slash

section
variable {U : Type} (ada : Ada U)

/-- The path that `value` has as part of an `https` URL, normalised by the library. -/
def normalisedPath (value : Bytes) : Option Bytes :=
  (ada.parse (chars "https://" ++ chars "localhost" ++ value)).map ada.getPathname

/-- The name `open` is called with. -/
def Effect.opensName : Effect → Option Bytes
  | .opened path _ => some path
  | .openFailed path => some path
  | _ => none

/-- What a request for `value` should lead to: `stored` is the stream that
`recv_path_header` leaves, and `recv_frame` is called on it. -/
structure ServesFile (value : Bytes) (rv : Except Fault Int) (stored : Stream) : Prop where
  accepted : rv = .ok 0
  path : some stored.req.path = normalisedPath ada value
  opens : ∀ o : FrameOutcome, (stored.recvFrame o).2.2.head?.bind Effect.opensName
    = (normalisedPath ada value).map Stream.stripSlashes
  served : ∀ (o : FrameOutcome) (fd : Nat),
    (normalisedPath ada value).bind (o.openFile ∘ Stream.stripSlashes) = some fd →
      o.submitResponse (.makeStatus ._200) fd = 0 →
        .submittedResponse stored.id (.makeStatus ._200) fd 0 ∈ (stored.recvFrame o).2.2

end

/-! ## What becomes of it -/

section
variable {U : Type} {ada : Ada U} {value : Bytes}

theorem uriOf_originForm (hada : ada.Standard) (hvalue : OriginForm value) :
    uriOf ada value = .default := by
  have hnone : accepted ada value = none := by
    rw [accepted, hada.notAbsolute value hvalue]
  rw [uriOf, hnone]
  rfl

/-- `recv_path_header` returns 0 and keeps nothing of the value. -/
theorem originForm_stored (hada : ada.Standard) (hvalue : OriginForm value)
    (parser : UrlParser U) (s : Stream) :
    (s.recvPathHeader ada value parser).1 = .ok 0 ∧
      (s.recvPathHeader ada value parser).2.1 = { s with req := .default } := by
  rw [Stream.recvPathHeader_eq, uriOf_originForm hada hvalue]
  exact ⟨rfl, rfl⟩

/-- For a stream with the default request `recv_frame` opens the empty name. -/
theorem originForm_opens (o : FrameOutcome) (s : Stream) (hreq : s.req = .default) :
    (s.recvFrame o).2.2.head?.bind Effect.opensName = some [] := by
  have hpath : cString (Stream.stripSlashes s.req.path) = [] := by
    rw [hreq]
    rfl
  unfold Stream.recvFrame
  rw [if_neg (by simp), hpath]
  dsimp only
  split <;> rfl

theorem normalisedPath_rooted (hada : ada.Standard) {path : Bytes}
    (h : normalisedPath ada value = some path) : path.head? = some slash := by
  obtain ⟨u, hparse, hpath⟩ := Option.map_eq_some_iff.mp h
  rw [List.append_assoc] at hparse
  rw [← hpath]
  exact hada.rootedPath _ u hparse

/-- **No request in origin form is served.**  For every value, stream and parser: the
path that is stored is not the path of the value. -/
theorem originForm_misread (hada : ada.Standard) (hvalue : OriginForm value)
    (parser : UrlParser U) (s : Stream) :
    ¬ ServesFile ada value (s.recvPathHeader ada value parser).1
      (s.recvPathHeader ada value parser).2.1 := by
  intro hserves
  have hpath := hserves.path
  rw [(originForm_stored hada hvalue parser s).2] at hpath
  have hrooted := normalisedPath_rooted hada hpath.symm
  cases hrooted

end

/-! ## A library for plain URLs -/

/-- It knows `https://host/path?query#fragment`, without anything that needs
normalising; such a URL is its own string after the `//`. -/
def Ada.plain : Ada Bytes where
  parse := fun s => if (chars "https://").isPrefixOf s then some (s.drop 8) else none
  setProtocol := fun _ u => (true, u)
  validate := fun _ => true
  getProtocol := fun _ => chars "https:"
  getUsername := fun _ => []
  getHost := fun u => u.takeWhile (· ∉ chars "/?#")
  getPort := fun _ => []
  getPathname := fun u =>
    let path := (u.dropWhile (· ∉ chars "/?#")).takeWhile (· ∉ chars "?#")
    if path.head? = some slash then path else [slash]
  getSearch := fun u => (u.takeWhile (· ∉ chars "#")).dropWhile (· ∉ chars "?")
  getHash := fun u => u.dropWhile (· ∉ chars "#")
  getHref := fun u => chars "https://" ++ u

theorem Ada.plain_standard : Ada.plain.Standard where
  notAbsolute := by
    intro s hs
    rcases s with _ | ⟨c, cs⟩
    · cases hs
    obtain rfl := Option.some.inj hs
    rfl
  rootedPath := by
    intro s u _
    show (ite _ _ _ : Bytes).head? = _
    split
    · next hrooted => exact hrooted
    · rfl

theorem originForm_misread_index : ¬ ServesFile .plain (chars "/index.html")
    (({ id := 1 } : Stream).recvPathHeader .plain (chars "/index.html") {}).1
    (({ id := 1 } : Stream).recvPathHeader .plain (chars "/index.html") {}).2.1 :=
  originForm_misread Ada.plain_standard (show (chars "/index.html").head? = some slash from rfl) {}
    { id := 1 }

/-- `/index.html` is its own normalised path, but nothing is stored, and 0 returned. -/
theorem index_html_misread : Ada.plain.Standard ∧
    normalisedPath .plain (chars "/index.html") = some (chars "/index.html") ∧
    (({ id := 1 } : Stream).recvPathHeader .plain (chars "/index.html") {}).1 = .ok 0 ∧
    ¬ ∀ value, OriginForm value → ServesFile .plain value
      (({ id := 1 } : Stream).recvPathHeader .plain value {}).1
      (({ id := 1 } : Stream).recvPathHeader .plain value {}).2.1 := by
  refine ⟨Ada.plain_standard, by decide, rfl, fun h => ?_⟩
  have hpath := (h (chars "/index.html") rfl).path
  revert hpath
  decide

end Wshttp
