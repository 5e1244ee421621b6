/-
# `Wshttp.Url` — `uri`, and the one `url_parser` of the process

`uri::parse` reads a string into the global parser and copies the components out
again, or gives a default `uri`.  The URL library is a parameter: what it makes of
a string, what `set_protocol` does to a URL, and the getters.

| `UrlParser.res`     | `_res`                                        |
| :------------------ | :-------------------------------------------- |
| `none`              | the null `unique_ptr`                         |
| `some none`         | an `ada::result` without a value              |
| `some (some u)`     | the URL `u`                                   |

**Proved here.**  The value of `uri::parse` depends on its argument only, whatever
the parser held before, and no absent result is ever read (`uriParse_eq`).
-/
import Wshttp.Types
import Mathlib.Data.Vector.Basic

namespace Wshttp

/-- `ada::url_aggregator`, as far as the program calls it. -/
structure Ada (U : Type) where
  parse : Bytes → Option U
  setProtocol : Bytes → U → Bool × U
  validate : U → Bool
  getProtocol : U → Bytes
  getUsername : U → Bytes
  getHost : U → Bytes
  getPort : U → Bytes
  getPathname : U → Bytes
  getSearch : U → Bytes
  getHash : U → Bytes
  getHref : U → Bytes

/-- A library that accepts no string as a URL. -/
def Ada.acceptsNothing : Ada Unit where
  parse := fun _ => none
  setProtocol := fun _ u => (false, u)
  validate := fun _ => false
  getProtocol := fun _ => []
  getUsername := fun _ => []
  getHost := fun _ => []
  getPort := fun _ => []
  getPathname := fun _ => []
  getSearch := fun _ => []
  getHash := fun _ => []
  getHref := fun _ => []

def URI_FIELDS : Nat := 8

/-- `uri`: the eight strings of `_fields`. -/
structure Uri where
  fields : Vector Bytes URI_FIELDS
  deriving DecidableEq

namespace Uri

/-- `uri()`. -/
def default : Uri := ⟨.replicate URI_FIELDS []⟩

/-- The positions named by the enumeration `UF`. -/
def scheme (u : Uri) : Bytes := u.fields[0]
def userinfo (u : Uri) : Bytes := u.fields[1]
def host (u : Uri) : Bytes := u.fields[2]
def port (u : Uri) : Bytes := u.fields[3]
def path (u : Uri) : Bytes := u.fields[4]
def query (u : Uri) : Bytes := u.fields[5]
def fragment (u : Uri) : Bytes := u.fields[6]
def href (u : Uri) : Bytes := u.fields[7]

/-- `empty`: the array is asked whether it has no elements, not its strings. -/
def empty (u : Uri) : Bool := u.fields.size == 0

/-- `operator bool`. -/
def toBool (u : Uri) : Bool := !u.empty

@[simp] theorem toBool_eq_true (u : Uri) : u.toBool = true := rfl

end Uri

def https_proto : Bytes := chars "https"

structure UrlParser (U : Type) where
  data : Option Bytes := none
  res : Option (Option U) := none

namespace UrlParser

variable {U : Type}

/-- `_parse`, on the string `read` has just stored. -/
def parse (ada : Ada U) (data : Bytes) (p : UrlParser U) : Bool × UrlParser U :=
  match ada.parse data with
  | none => (false, { p with res := some none })
  | some u =>
      let set := ada.setProtocol https_proto u
      let p := { p with res := some (some set.2) }
      if !set.1 then (false, p)
      else if ada.validate set.2 then (true, p)
      else (false, p)

/-- `_reset`. -/
def reset (_p : UrlParser U) : UrlParser U := {}

def read (ada : Ada U) (input : Bytes) (p : UrlParser U) : Bool × UrlParser U :=
  let parsed := { p with data := some input }.parse ada input
  if parsed.1 then parsed else (false, parsed.2.reset)

/-- The `uri` that `extract` builds from the getters. -/
def componentsOf (ada : Ada U) (u : U) : Uri :=
  ⟨#v[ada.getProtocol u, ada.getUsername u, ada.getHost u, ada.getPort u, ada.getPathname u,
    ada.getSearch u, ada.getHash u, ada.getHref u]⟩

/-- `extract`, which dereferences `_res` and the result in it. -/
def extract (ada : Ada U) (p : UrlParser U) : Except Fault Uri :=
  match p.res with
  | some (some u) => .ok (componentsOf ada u)
  | _ => .error .absentResult

end UrlParser

section
variable {U : Type}

/-- `uri::parse`, on the global parser. -/
def uriParse (ada : Ada U) (url : Bytes) (parser : UrlParser U) : Except Fault Uri × UrlParser U :=
  let got := parser.read ada url
  if got.1 then (got.2.extract ada, got.2) else (.ok .default, got.2)

/-! ## The value of `uri::parse` -/

/-- The URL the parser accepts `url` as, if it does. -/
def accepted (ada : Ada U) (url : Bytes) : Option U :=
  match ada.parse url with
  | none => none
  | some u =>
      let set := ada.setProtocol https_proto u
      if set.1 && ada.validate set.2 then some set.2 else none

/-- The components of an accepted URL, and of anything else eight empty strings. -/
def uriOf (ada : Ada U) (url : Bytes) : Uri :=
  ((accepted ada url).map (UrlParser.componentsOf ada)).getD .default

/-- Acceptance is that of the string, of the new scheme, and of the result. -/
theorem accepted_eq_some {ada : Ada U} {url : Bytes} {u : U} (h : accepted ada url = some u) :
    ∃ v, ada.parse url = some v ∧ ada.setProtocol https_proto v = (true, u) ∧
      ada.validate u = true := by
  unfold accepted at h
  split at h
  · cases h
  next v hv =>
  dsimp only at h
  split at h
  case isFalse => cases h
  next hgood =>
  obtain rfl := Option.some.inj h
  obtain ⟨hset, hval⟩ := Bool.and_eq_true_iff.mp hgood
  exact ⟨v, hv, Prod.ext hset rfl, hval⟩

theorem read_accepted {ada : Ada U} {url : Bytes} {u : U} (h : accepted ada url = some u)
    (parser : UrlParser U) :
    parser.read ada url = (true, { data := some url, res := some (some u) }) := by
  obtain ⟨v, hparse, hset, hval⟩ := accepted_eq_some h
  simp [UrlParser.read, UrlParser.parse, hparse, hset, hval]

theorem read_rejected {ada : Ada U} {url : Bytes} (h : accepted ada url = none)
    (parser : UrlParser U) : parser.read ada url = (false, {}) := by
  unfold accepted at h
  split at h
  · next hnone => simp [UrlParser.read, UrlParser.parse, hnone, UrlParser.reset]
  next v hv =>
  dsimp only at h
  split at h
  · cases h
  next hbad =>
  cases hset : (ada.setProtocol https_proto v).1 with
  | false => simp [UrlParser.read, UrlParser.parse, hv, hset, UrlParser.reset]
  | true =>
      have hval : ada.validate (ada.setProtocol https_proto v).2 = false := by
        simpa [hset] using hbad
      simp [UrlParser.read, UrlParser.parse, hv, hset, hval, UrlParser.reset]

theorem uriParse_eq (ada : Ada U) (url : Bytes) (parser : UrlParser U) :
    (uriParse ada url parser).1 = .ok (uriOf ada url) := by
  cases h : accepted ada url with
  | none => simp [uriParse, uriOf, read_rejected h, h]
  | some u => simp [uriParse, uriOf, read_accepted h, h, UrlParser.extract]

end

end Wshttp
