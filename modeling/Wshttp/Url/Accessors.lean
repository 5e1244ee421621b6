/-
# `Wshttp.Url.Accessors` — what a `url_parser` shows after its last `read`

Six public functions look at `_res`, and there are three ways in which they guard
against a null pointer:

| function               | guard                                                      |
| :--------------------- | :--------------------------------------------------------- |
| `href_str`, `href_sv`  | `_res ? ... : ""`                                          |
| `print_aggregates`     | `if (not _res)`                                            |
| `url`                  | `try { return _url(); } catch (...) { throw ...; }`        |
| `extract`              | none                                                       |

`_url` is `return *_res;` and "does no safety checking", so there is nothing for `url`
to catch: dereferencing a null pointer throws nothing.

**Proved here.**  After any sequence of `read`s the parser is what the last one alone
makes of it.  `href_str`, `href_sv` and `print_aggregates` are always right, and the
accessors as a whole exactly if the last input was accepted (`accessors_show_iff`).
-/
import Wshttp.Url
import Mathlib.Data.List.Induction

namespace Wshttp

namespace UrlParser

variable {U : Type}

/-! ## What the code does -/

/-- `_url`: the `url_result` that `_res` points to. -/
def uncheckedUrl (p : UrlParser U) : Except Fault (Option U) :=
  match p.res with
  | some result => .ok result
  | none => .error .absentResult

/-- `operator->` of a `url_result`. -/
def valueOf : Option U → Except Fault U
  | some u => .ok u
  | none => .error .absentResult

/-- `url`.  Only an exception is caught. -/
def url (p : UrlParser U) : Except Fault (Option U) :=
  match p.uncheckedUrl with
  | .error (.throws _) => .error (.throws (runtimeError "Bad access to url parser result: {}"))
  | result => result

/-- `_res ? _url()->get_href() : ""`. -/
def href (ada : Ada U) (p : UrlParser U) : Except Fault Bytes :=
  if p.res.isSome then (p.uncheckedUrl.bind valueOf).map ada.getHref else .ok []

def hrefStr (ada : Ada U) (p : UrlParser U) : Except Fault Bytes := p.href ada

def hrefSv (ada : Ada U) (p : UrlParser U) : Except Fault Bytes := p.href ada

/-- A line that `print_aggregates` logs. -/
inductive LogLine where
  | noResult
  | field (name : String) (value : Bytes)
  | specialPort (port : UInt16)
  deriving DecidableEq

/-- `print_aggregates`, which changes nothing: the lines it logs. -/
def printAggregates (ada : Ada U) (getSpecialPort : U → UInt16) (p : UrlParser U) :
    Except Fault (List LogLine) :=
  if p.res.isNone then .ok [.noResult]
  else do
    let u ← p.extract ada
    let port ← (p.uncheckedUrl.bind valueOf).map getSpecialPort
    return [.field "scheme" u.scheme, .field "userinfo" u.userinfo, .field "host" u.host,
      .field "port" u.port, .specialPort port, .field "path" u.path, .field "query" u.query,
      .field "fragment" u.fragment, .field "href" u.href]

/-- The parser after a sequence of `read`s. -/
def reads (ada : Ada U) (inputs : List Bytes) (p : UrlParser U) : UrlParser U :=
  inputs.foldl (fun p input => (p.read ada input).2) p

/-! ## What the accessors are to show -/

/-- The URL that the last input was accepted as, if it was. -/
def lastAccepted (ada : Ada U) (inputs : List Bytes) : Option U :=
  inputs.getLast?.bind (accepted ada)

/-- After an accepted input: that input's result. -/
structure ShowsResult (ada : Ada U) (getSpecialPort : U → UInt16) (u : U) (p : UrlParser U) :
    Prop where
  url : p.url = .ok (some u)
  extract : p.extract ada = .ok (componentsOf ada u)
  hrefStr : p.hrefStr ada = .ok (ada.getHref u)
  hrefSv : p.hrefSv ada = .ok (ada.getHref u)
  printAggregates : ∃ lines, p.printAggregates ada getSpecialPort = .ok lines

/-- The accessors that ask for the pointer, where there is none. -/
structure ShowsEmpty (ada : Ada U) (getSpecialPort : U → UInt16) (p : UrlParser U) : Prop where
  hrefStr : p.hrefStr ada = .ok []
  hrefSv : p.hrefSv ada = .ok []
  printAggregates : p.printAggregates ada getSpecialPort = .ok [.noResult]

/-- After a rejected input, or none: no result, and none read. -/
structure ShowsNothing (ada : Ada U) (getSpecialPort : U → UInt16) (p : UrlParser U) : Prop
    extends ShowsEmpty ada getSpecialPort p where
  url : ∃ what, p.url = .error (.throws (runtimeError what))
  extract : p.extract ada ≠ .error .absentResult

def Shows (ada : Ada U) (getSpecialPort : U → UInt16) (p : UrlParser U) : Option U → Prop
  | some u => ShowsResult ada getSpecialPort u p
  | none => ShowsNothing ada getSpecialPort p

/-! ## The parser after its last input -/

section
variable {ada : Ada U} {getSpecialPort : U → UInt16} {inputs : List Bytes}

/-- The parser that a `read` of this input alone leaves. -/
def ofInput (ada : Ada U) (input : Bytes) : UrlParser U :=
  match accepted ada input with
  | some u => { data := some input, res := some (some u) }
  | none => {}

theorem read_eq_ofInput (input : Bytes) (p : UrlParser U) :
    (p.read ada input).2 = ofInput ada input := by
  unfold ofInput
  cases haccepted : accepted ada input with
  | none => rw [read_rejected haccepted]
  | some u => rw [read_accepted haccepted]

/-- Whatever was read before, and whatever the parser held. -/
theorem reads_eq (inputs : List Bytes) (p : UrlParser U) :
    p.reads ada inputs = (inputs.getLast?.map (ofInput ada)).getD p := by
  induction inputs using List.reverseRecOn with
  | nil => rfl
  | append_singleton earlier input _ =>
      rw [reads, List.foldl_append, List.getLast?_concat]
      exact read_eq_ofInput input _

theorem reads_of_accepted {u : U} (h : lastAccepted ada inputs = some u) :
    (({} : UrlParser U).reads ada inputs).res = some (some u) := by
  obtain ⟨input, hlast, haccepted⟩ := Option.bind_eq_some_iff.mp h
  rw [reads_eq, hlast, Option.map_some, Option.getD_some, ofInput, haccepted]

theorem reads_of_not_accepted (h : lastAccepted ada inputs = none) :
    ({} : UrlParser U).reads ada inputs = {} := by
  rw [reads_eq]
  cases hlast : inputs.getLast? with
  | none => rfl
  | some input =>
      rw [lastAccepted, hlast, Option.bind_some] at h
      rw [Option.map_some, Option.getD_some, ofInput, h]

theorem showsResult_of_res {p : UrlParser U} {u : U} (h : p.res = some (some u)) :
    ShowsResult ada getSpecialPort u p := by
  have hurl : p.uncheckedUrl = .ok (some u) := by rw [uncheckedUrl, h]
  have hhref : p.href ada = .ok (ada.getHref u) := by
    rw [href, h, hurl]
    rfl
  have hextract : p.extract ada = .ok (componentsOf ada u) := by rw [extract, h]
  refine ⟨?_, hextract, hhref, hhref, ?_⟩
  · rw [url, hurl]
  · rw [printAggregates, h, hextract, hurl]
    exact ⟨_, rfl⟩

theorem showsEmpty_default : ShowsEmpty ada getSpecialPort ({} : UrlParser U) := ⟨rfl, rfl, rfl⟩

/-- Nothing is thrown. -/
theorem url_default : ({} : UrlParser U).url = .error .absentResult := rfl

/-- **The accessors are right exactly if the last input was accepted.**  For every sequence
of inputs; only the last one matters, and the accessors that ask first are always right. -/
theorem accessors_show_iff (ada : Ada U) (getSpecialPort : U → UInt16) (inputs : List Bytes) :
    (∀ inputs', inputs'.getLast? = inputs.getLast? →
      ({} : UrlParser U).reads ada inputs' = ({} : UrlParser U).reads ada inputs) ∧
    (lastAccepted ada inputs = none →
      ShowsEmpty ada getSpecialPort (({} : UrlParser U).reads ada inputs)) ∧
    (Shows ada getSpecialPort (({} : UrlParser U).reads ada inputs) (lastAccepted ada inputs) ↔
      ∃ input, inputs.getLast? = some input ∧ (accepted ada input).isSome) := by
  refine ⟨fun inputs' hlast => ?_, fun hnone => ?_, ?_⟩
  · rw [reads_eq, reads_eq, hlast]
  · rw [reads_of_not_accepted hnone]
    exact showsEmpty_default
  cases hlast : lastAccepted ada inputs with
  | some u =>
      obtain ⟨input, hinput, haccepted⟩ := Option.bind_eq_some_iff.mp hlast
      refine iff_of_true ?_ ⟨input, hinput, by rw [haccepted]; rfl⟩
      exact showsResult_of_res (reads_of_accepted hlast)
  | none =>
      refine iff_of_false ?_ ?_
      · intro hshows
        obtain ⟨what, hurl⟩ := ShowsNothing.url hshows
        rw [reads_of_not_accepted hlast, url_default] at hurl
        cases hurl
      · rintro ⟨input, hinput, haccepted⟩
        rw [lastAccepted, hinput, Option.bind_some] at hlast
        rw [hlast] at haccepted
        cases haccepted

end

/-- A rejected input: `url` hands out a reference through the null pointer, and `extract`
reads through it. -/
theorem url_reads_absent :
    ¬ Shows .acceptsNothing (fun _ => 443) (({} : UrlParser Unit).reads .acceptsNothing [chars ":"])
        (lastAccepted .acceptsNothing [chars ":"]) ∧
      (({} : UrlParser Unit).reads .acceptsNothing [chars ":"]).url = .error .absentResult ∧
      (({} : UrlParser Unit).reads .acceptsNothing [chars ":"]).extract .acceptsNothing
        = .error .absentResult := by
  refine ⟨fun hshows => ?_, rfl, rfl⟩
  obtain ⟨what, hurl⟩ := ShowsNothing.url hshows
  cases hurl

end UrlParser

end Wshttp
