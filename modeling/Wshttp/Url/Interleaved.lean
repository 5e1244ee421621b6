/-
# `Wshttp.Url.Interleaved` — `uri::parse` on several threads, and one parser

    uri uri::parse(std::string url)
    {
        return parser->read(std::move(url)) ? parser->extract() : uri{};
    }

Every event loop has a thread of its own, and `parser` is global.  `read` and `extract`
are taken as atomic here, and nothing keeps another thread's `read` out of the place
between them.  An accepted string is then replaced by another one, or reset to nothing.

| source                                    | event        |
| :---------------------------------------- | :----------- |
| `parser->read(url)` of a call on thread `t` | `read t url` |
| `parser->extract()` of that call          | `extract t`  |

A call whose string is rejected returns at its `read`.

**Proved here.**  Every call returns the components of its own string, exactly as long
as each `extract` finds that the last string read, by whatever thread, was an accepted
one with the same components (`parse_own_iff`).  So it does where no other thread's
`read` comes between (`own_of_undisturbed`).
-/
import Wshttp.Lib.Run
import Wshttp.Url
import Mathlib.Logic.Function.Basic

namespace Wshttp

open Machine

/-- The global parser, and the calls between their two steps, each with its string.
`last` is history: the last `read`, by its thread and string. -/
structure Parsing (Tid U : Type) where
  parser : UrlParser U
  pending : Tid → Option Bytes
  last : Option (Tid × Bytes)

inductive ParsingEvent (Tid : Type) where
  | read (t : Tid) (url : Bytes)
  | extract (t : Tid)

namespace Parsing

variable {Tid U : Type}

/-- No call has begun; the parser may have been used before. -/
def start (parser : UrlParser U) : Parsing Tid U :=
  { parser, pending := fun _ => none, last := none }

/-- What the call that ends with this event returns, and its string. -/
def returned (ada : Ada U) (s : Parsing Tid U) :
    ParsingEvent Tid → Option (Bytes × Except Fault Uri)
  | .read _ url => if (s.parser.read ada url).1 then none else some (url, .ok .default)
  | .extract t => (s.pending t).map fun url => (url, s.parser.extract ada)

/-- The call returns the components of its own string, or the empty `uri` if that is
rejected. -/
def Own (ada : Ada U) (s : Parsing Tid U) (e : ParsingEvent Tid) : Prop :=
  ∀ url r, s.returned ada e = some (url, r) → r = .ok (uriOf ada url)

/-- The last string read was accepted, and has the components of the call's own. -/
def LastIsOwn (ada : Ada U) (s : Parsing Tid U) : ParsingEvent Tid → Prop
  | .read _ _ => True
  | .extract t => ∀ url, s.pending t = some url → ∃ u v last, s.last = some (u, last) ∧
      accepted ada last = some v ∧ UrlParser.componentsOf ada v = uriOf ada url

/-- No other thread has read since the call did. -/
def Undisturbed (s : Parsing Tid U) : ParsingEvent Tid → Prop
  | .read _ _ => True
  | .extract t => ∃ url, s.last = some (t, url)

/-! ## The parser is what the last `read` has made of it -/

structure Inv (ada : Ada U) (s : Parsing Tid U) : Prop where
  parser : ∀ t url, s.last = some (t, url) → ∀ p : UrlParser U, s.parser = (p.read ada url).2
  accepted : ∀ t url, s.pending t = some url → (accepted ada url).isSome
  begun : ∀ t url, s.pending t = some url → s.last.isSome
  /-- a call whose thread has read last is waiting for that string -/
  own : ∀ t url, s.last = some (t, url) → ∀ url', s.pending t = some url' → url' = url

section
variable {ada : Ada U} {s : Parsing Tid U} {e : ParsingEvent Tid}

theorem read_congr (ada : Ada U) (url : Bytes) (p q : UrlParser U) :
    p.read ada url = q.read ada url := by
  cases h : Wshttp.accepted ada url with
  | none => rw [read_rejected h, read_rejected h]
  | some u => rw [read_accepted h, read_accepted h]

theorem inv_start (ada : Ada U) (parser : UrlParser U) :
    (start parser : Parsing Tid U).Inv ada where
  parser := fun _ _ h => (nomatch h)
  accepted := fun _ _ h => (nomatch h)
  begun := fun _ _ h => (nomatch h)
  own := fun _ _ h => (nomatch h)

/-- `extract` gives the components of the last string read, if that was accepted. -/
theorem Inv.extract_eq (hs : s.Inv ada) {u : Tid} {last : Bytes} (h : s.last = some (u, last)) :
    s.parser.extract ada =
      match Wshttp.accepted ada last with
      | some v => .ok (UrlParser.componentsOf ada v)
      | none => .error .absentResult := by
  rw [hs.parser u last h {}]
  cases hread : Wshttp.accepted ada last with
  | none => rw [read_rejected hread]; rfl
  | some v => rw [read_accepted hread]; rfl

/-- Where no other thread reads in between, the last string read is the call's own. -/
theorem lastIsOwn_of_undisturbed (hs : s.Inv ada) (h : s.Undisturbed e) : s.LastIsOwn ada e := by
  cases e with
  | read t url => trivial
  | extract t =>
      obtain ⟨last, hlast⟩ := h
      intro url hurl
      obtain rfl := hs.own t last hlast url hurl
      obtain ⟨v, hv⟩ := Option.isSome_iff_exists.mp (hs.accepted t url hurl)
      refine ⟨t, v, url, hlast, hv, ?_⟩
      rw [uriOf, hv]
      rfl

end

/-! ## The two steps -/

variable [DecidableEq Tid]

/-- A thread is in one call at a time. -/
def step (ada : Ada U) (s : Parsing Tid U) : ParsingEvent Tid → Option (Parsing Tid U)
  | .read t url =>
      if s.pending t = none then
        let got := s.parser.read ada url
        some {
          parser := got.2
          pending := if got.1 then Function.update s.pending t (some url) else s.pending
          last := some (t, url) }
      else none
  | .extract t =>
      if (s.pending t).isSome then
        some { s with pending := Function.update s.pending t none }
      else none

section
variable {ada : Ada U} {s s' : Parsing Tid U} {e : ParsingEvent Tid} {url : Bytes}

/-- A `read` sets the parser, whatever it held, and its call waits if it is accepted. -/
theorem read_step {t : Tid} (h : s.step ada (.read t url) = some s') :
    s.pending t = none ∧ (∀ p : UrlParser U, s'.parser = (p.read ada url).2) ∧
      s'.last = some (t, url) ∧
      s'.pending = if (Wshttp.accepted ada url).isSome then Function.update s.pending t (some url)
        else s.pending := by
  simp only [Parsing.step] at h
  split at h
  case isFalse => cases h
  next hfree =>
  obtain rfl := Option.some.inj h
  refine ⟨hfree, fun p => congrArg Prod.snd (read_congr ada url s.parser p), rfl, ?_⟩
  cases hread : Wshttp.accepted ada url with
  | none => rw [read_rejected hread]; rfl
  | some u => rw [read_accepted hread]; rfl

theorem Inv.step (hs : s.Inv ada) (h : s.step ada e = some s') : s'.Inv ada := by
  cases e with
  | read t url =>
      obtain ⟨hfree, hparser, hlast, hpending⟩ := read_step h
      have hwaits {t' : Tid} {url' : Bytes} (h' : s'.pending t' = some url') :
          t' = t ∧ url' = url ∧ (Wshttp.accepted ada url).isSome ∨
            t' ≠ t ∧ s.pending t' = some url' := by
        rw [hpending] at h'
        split at h'
        · next haccepted =>
          rcases eq_or_ne t' t with rfl | hne
          · rw [Function.update_self] at h'
            exact .inl ⟨rfl, (Option.some.inj h').symm, haccepted⟩
          · rw [Function.update_of_ne hne] at h'
            exact .inr ⟨hne, h'⟩
        · refine .inr ⟨fun heq => ?_, h'⟩
          rw [heq, hfree] at h'
          cases h'
      refine ⟨fun t' url' h' p => ?_, fun t' url' h' => ?_, fun _ _ _ => ?_,
        fun t' url' h' url'' hw => ?_⟩
      · rw [hlast] at h'
        obtain ⟨-, rfl⟩ := Prod.mk.inj (Option.some.inj h')
        exact hparser p
      · rcases hwaits h' with ⟨-, rfl, haccepted⟩ | ⟨-, hold⟩
        · exact haccepted
        · exact hs.accepted t' url' hold
      · rw [hlast]
        rfl
      · rw [hlast] at h'
        obtain ⟨rfl, rfl⟩ := Prod.mk.inj (Option.some.inj h')
        rcases hwaits hw with ⟨-, heq, -⟩ | ⟨hne, -⟩
        · exact heq
        · exact absurd rfl hne
  | extract t =>
      simp only [Parsing.step] at h
      split at h
      case isFalse => cases h
      obtain rfl := Option.some.inj h
      -- the other calls wait as before
      have hold {t' : Tid} {url' : Bytes}
          (h' : Function.update s.pending t none t' = some url') : s.pending t' = some url' := by
        rcases eq_or_ne t' t with rfl | hne
        · rw [Function.update_self] at h'
          cases h'
        · rwa [Function.update_of_ne hne] at h'
      exact ⟨hs.parser, fun t' url' h' => hs.accepted t' url' (hold h'),
        fun t' url' h' => hs.begun t' url' (hold h'),
        fun t' url' hlast url'' h' => hs.own t' url' hlast url'' (hold h')⟩

/-! ## What a call gets -/

theorem own_iff (hs : s.Inv ada) (h : s.step ada e = some s') :
    s.Own ada e ↔ s.LastIsOwn ada e := by
  cases e with
  | read t url =>
      refine iff_of_true (fun url' r hr => ?_) trivial
      simp only [returned] at hr
      split at hr
      · cases hr
      · next hread =>
        obtain ⟨rfl, rfl⟩ := Prod.mk.inj (Option.some.inj hr)
        cases hnone : Wshttp.accepted ada url with
        | none => rw [uriOf, hnone]; rfl
        | some u =>
            rw [read_accepted hnone] at hread
            exact absurd rfl hread
  | extract t =>
      simp only [Parsing.step] at h
      split at h
      case isFalse => cases h
      next hsome =>
      obtain ⟨url, hurl⟩ := Option.isSome_iff_exists.mp hsome
      obtain ⟨⟨u, last⟩, hlast⟩ := Option.isSome_iff_exists.mp (hs.begun t url hurl)
      have hown : s.Own ada (.extract t) ↔ s.parser.extract ada = .ok (uriOf ada url) := by
        unfold Own
        simp only [returned, hurl, Option.map_some]
        constructor
        · exact fun hall => hall url _ rfl
        · intro heq url' r hr
          obtain ⟨rfl, rfl⟩ := Prod.mk.inj (Option.some.inj hr)
          exact heq
      have hcond : s.LastIsOwn ada (.extract t) ↔ ∃ v, Wshttp.accepted ada last = some v ∧
          UrlParser.componentsOf ada v = uriOf ada url := by
        constructor
        · intro hall
          obtain ⟨u', v, last', hlast', hv⟩ := hall url hurl
          obtain ⟨-, rfl⟩ := Prod.mk.inj (Option.some.inj (hlast.symm.trans hlast'))
          exact ⟨v, hv⟩
        · rintro ⟨v, hv⟩ url' hurl'
          obtain rfl := Option.some.inj (hurl.symm.trans hurl')
          exact ⟨u, v, last, hlast, hv⟩
      rw [hown, hcond, hs.extract_eq hlast]
      cases hread : Wshttp.accepted ada last with
      | none =>
          refine iff_of_false (fun heq => ?_) ?_
          · cases heq
          · rintro ⟨v, hv, -⟩
            cases hv
      | some v =>
          constructor
          · exact fun heq => ⟨v, rfl, Except.ok.inj heq⟩
          · rintro ⟨v', hv, heq⟩
            obtain rfl := Option.some.inj hv
            exact congrArg _ heq

/-- A call whose two steps follow each other is `uri::parse`. -/
theorem uriParse_steps {t : Tid} (hfree : s.pending t = none) :
    (s.returned ada (.read t url) = some (url, (uriParse ada url s.parser).1)) ∨
      ∃ s', s.step ada (.read t url) = some s' ∧
        s'.returned ada (.extract t) = some (url, (uriParse ada url s.parser).1) := by
  cases hread : Wshttp.accepted ada url with
  | none =>
      refine .inl ?_
      simp only [returned, uriParse, read_rejected hread]
      rfl
  | some u =>
      refine .inr ⟨_, if_pos hfree, ?_⟩
      simp only [returned, uriParse, read_accepted hread, if_true, Function.update_self]
      rfl

end

/-- **Each call gets the components of its own string, exactly as long as that is what
has been read last.**  For any number of threads, any strings, and any interleaving. -/
theorem parse_own_iff (ada : Ada U) (parser : UrlParser U) (evs : List (ParsingEvent Tid)) :
    Along (step ada) (fun s e _ => s.Own ada e) (start parser) evs ↔
      Along (step ada) (fun s e _ => s.LastIsOwn ada e) (start parser) evs :=
  along_iff (I := Inv ada) (Q := fun s e _ => s.Own ada e) (R := fun s e _ => s.LastIsOwn ada e)
    (fun _ _ _ hs h => own_iff hs h) (fun _ _ _ hs _ h => hs.step h) (inv_start ada parser) evs

/-- In particular if the calls do not overlap. -/
theorem own_of_undisturbed (ada : Ada U) (parser : UrlParser U) (evs : List (ParsingEvent Tid))
    (h : Along (step ada) (fun s e _ => s.Undisturbed e) (start parser) evs) :
    Along (step ada) (fun s e _ => s.Own ada e) (start parser) evs :=
  along_mono (I := Inv ada) (R := fun s e _ => s.Undisturbed e) (Q := fun s e _ => s.Own ada e)
    (fun _ _ _ hs h => hs.step h)
    (fun _ _ _ hs h hdisturb => (own_iff hs h).mpr (lastIsOwn_of_undisturbed hs hdisturb))
    (inv_start ada parser) h

/-- A library for which a URL is `https://` and a host name. -/
def hostOnly : Ada Bytes where
  parse := fun s => if (chars "https://").isPrefixOf s then some (s.drop 8) else none
  setProtocol := fun _ u => (true, u)
  validate := fun _ => true
  getProtocol := fun _ => chars "https:"
  getUsername := fun _ => []
  getHost := fun u => u
  getPort := fun _ => []
  getPathname := fun _ => chars "/"
  getSearch := fun _ => []
  getHash := fun _ => []
  getHref := fun u => chars "https://" ++ u

/-- Two calls overlap: the first gets the other's host name.  Where the other's string is
rejected, it reads a result that is not there. -/
theorem overlapping_parses :
    ¬ Along (step hostOnly) (fun s e _ => s.Own hostOnly e) (start {} : Parsing Nat Bytes)
        [.read 0 (chars "https://a"), .read 1 (chars "https://b"), .extract 0] ∧
      (∃ s : Parsing Nat Bytes, run (step hostOnly) (start {})
          [.read 0 (chars "https://a"), .read 1 (chars "https://b")] = some s ∧
        s.returned hostOnly (.extract 0)
          = some (chars "https://a", .ok (uriOf hostOnly (chars "https://b")))) ∧
      ∃ s : Parsing Nat Bytes, run (step hostOnly) (start {})
          [.read 0 (chars "https://a"), .read 1 (chars "b")] = some s ∧
        s.returned hostOnly (.extract 0) = some (chars "https://a", .error .absentResult) := by
  refine ⟨fun h => ?_, ⟨_, rfl, rfl⟩, ⟨_, rfl, rfl⟩⟩
  obtain ⟨-, h⟩ := h _ rfl
  obtain ⟨-, h⟩ := h _ rfl
  obtain ⟨hown, -⟩ := h _ rfl
  have hhost := congrArg Uri.host (Except.ok.inj (hown _ _ rfl))
  revert hhost
  decide

end Parsing

end Wshttp
