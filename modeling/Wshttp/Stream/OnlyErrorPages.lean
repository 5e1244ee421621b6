/-
# `Wshttp.Stream.OnlyErrorPages` — all that a client can get

A stream learns the path of its request from `recv_header_hook`, which compares the name of
every header with a literal that has its NUL at the end.  nghttp2 does not let a header name
with a NUL through, so no name is ever equal to it, no path is stored, and `recv_frame` goes
by the path of a default `uri`: it opens the empty name, which is no file.

| at the end of a request      | without a pipe | without room in it | otherwise          |
| :--------------------------- | :------------- | :----------------- | :----------------- |
| what nghttp2 is asked for    | a reset        | nothing            | the error page     |

The error page is read from the pipe, and what is written to it are the bytes of a table of
addresses (`Wshttp.Stream.ErrorPage`).

**Proved here.**  Whatever the clients of a session send, in any interleaving, no file is
opened, every response reads from a pipe that has the addresses in it, and a body that is
complete is these fifteen bytes and one more (`only_error_pages`).
-/
import Wshttp.Literals
import Wshttp.Stream.Response

namespace Wshttp

/-! ## What may be relied on, and what follows -/

/-- The names that nghttp2 passes on have no NUL; there is no file with the empty name; and
`page` is where it is for the whole run. -/
def Hook.Usual (page : Vector UInt8 16) : Hook → Prop
  | .recvHeader _ name _ => 0 ∉ name
  | .frameRecv _ o => o.openFile [] = none ∧ o.htmlObject = page
  | _ => True

/-- The bytes of the table that `send_error` writes. -/
def pageBytes (page : Vector UInt8 16) : Bytes := page.toList.take Stream.errlen

/-- No file has been opened, and what is sent is what was written into a pipe. -/
structure Answer.OnlyErrorPage (page : Vector UInt8 16) (a : Answer) : Prop where
  noFile : ∀ path fd, .opened path fd ∉ a.effects
  emptyName : ∀ path, .openFailed path ∈ a.effects → path = []
  response : ∀ id hdrs fd rv, .submittedResponse id hdrs fd rv ∈ a.effects →
    hdrs.hdrs = [] ∧ ∃ w, .piped fd w ∈ a.effects ∧ .wrote w (pageBytes page) ∈ a.effects

section
variable {U : Type} {ada : Ada U} {page : Vector UInt8 16} {s : Stream} {o : FrameOutcome}

/-! ## One call -/

/-- No name without a NUL is taken for that of the path. -/
theorem not_path_header {name : Bytes} (h : 0 ∉ name) : spanEq req.fields.path name = false := by
  rw [Bool.eq_false_iff]
  intro heq
  rw [req.fields.path, spanEq_usp] at heq
  rw [heq] at h
  exact h (List.mem_append_right _ List.mem_cons_self)

/-- The effects of `send_error`, by where it stops. -/
theorem sendError_effects (o : FrameOutcome) (s : Stream) :
    (∃ rv, (s.sendError o).2.2 = [.submittedRst s.id NGHTTP2_INTERNAL_ERROR rv]) ∨
    (∃ r w : Nat, (s.sendError o).2.2 =
      [.piped r w, .wrote w (pageBytes o.htmlObject), .closed w, .closed r]) ∨
    ∃ (r w : Nat) (rv : Int) (rest : List Effect), (s.sendError o).2.2 =
      [.piped r w, .wrote w (pageBytes o.htmlObject), .closed w,
        .submittedResponse s.id (.makeStatus ._404) r rv] ++ rest ∧
      (rest = [] ∨ rest = [.closed r]) := by
  unfold Stream.sendError
  split
  · exact .inl ⟨_, rfl⟩
  next r w _ =>
  dsimp only
  split
  · exact .inr (.inl ⟨r, w, rfl⟩)
  · refine .inr (.inr ⟨r, w, _, _, rfl, ?_⟩)
    split
    · exact .inr rfl
    · exact .inl rfl

theorem onlyErrorPage_sendError (hpage : o.htmlObject = page) :
    Answer.OnlyErrorPage page ⟨.ok (s.sendError o).1, .openFailed [] :: (s.sendError o).2.2⟩ := by
  subst hpage
  rcases sendError_effects o s with ⟨rv, heq⟩ | ⟨r, w, heq⟩ | ⟨r, w, rv, rest, heq, hrest⟩
  · rw [heq]
    exact ⟨by simp, by simp, by simp⟩
  · rw [heq]
    exact ⟨by simp, by simp, by simp⟩
  · rw [heq]
    rcases hrest with rfl | rfl
    all_goals
      refine ⟨by simp, by simp, fun id hdrs fd rv' hmem => ?_⟩
      obtain ⟨-, rfl, rfl, -⟩ : id = s.id ∧ hdrs = .makeStatus ._404 ∧ fd = r ∧ rv' = rv := by
        simpa using hmem
      exact ⟨rfl, w, by simp, by simp⟩

/-- A stream that has been given no path serves the error page, and is given none. -/
theorem recvFrame_default (hs : s.req = .default) (hempty : o.openFile [] = none)
    (hpage : o.htmlObject = page) :
    Answer.OnlyErrorPage page ⟨.ok (s.recvFrame o).1, (s.recvFrame o).2.2⟩ := by
  have hname : cString (Stream.stripSlashes s.req.path) = [] := by
    rw [hs]
    rfl
  have heq : s.recvFrame o =
      ((s.sendError o).1, (s.sendError o).2.1, .openFailed [] :: (s.sendError o).2.2) := by
    rw [Stream.recvFrame, if_neg (by simp), hname]
    dsimp only
    rw [hempty]
  rw [heq]
  exact onlyErrorPage_sendError hpage

/-! ## One hook -/

theorem onlyErrorPage_nil {rv : Except Fault Int} : Answer.OnlyErrorPage page ⟨rv, []⟩ :=
  ⟨by simp, by simp, by simp⟩

/-- No stream of the map has been given a path. -/
def NoPath (entry : Option Stream) : Prop := ∀ s ∈ entry, s.req = .default

theorem noPath_some (hs : s.req = .default) : NoPath (some s) := by
  intro t ht
  obtain rfl := Option.some.inj ht
  exact hs

/-- No hook gives a stream a path, and none gets more than the page out of one without. -/
theorem act_onlyErrorPage {h : Hook} (hh : h.Usual page) :
    Keyed.Keeps NoPath (Answer.OnlyErrorPage page) (h.act ada) := by
  intro entry hentry
  have hquiet {rv : Except Fault Int} {e : Option (Option Stream)} (he : ∀ v ∈ e, NoPath v) :
      Answer.OnlyErrorPage page ⟨rv, []⟩ ∧ ∀ v ∈ e, NoPath v := ⟨onlyErrorPage_nil, he⟩
  have hgone {rv : Except Fault Int} {effects : List Effect}
      (hnone : Answer.OnlyErrorPage page ⟨rv, effects⟩) :
      Answer.OnlyErrorPage page ⟨rv, effects⟩ ∧ ∀ v ∈ (none : Option (Option Stream)), NoPath v :=
    ⟨hnone, fun v hv => by cases hv⟩
  cases h with
  | beginHeaders f =>
      simp only [Hook.act]
      split
      · refine ⟨⟨by simp, by simp, by simp⟩, fun v hv => ?_⟩
        obtain rfl := Option.some.inj hv
        exact noPath_some rfl
      · exact hquiet hentry
  | recvHeader f name value =>
      have hother : spanEq req.fields.path name = false :=
        not_path_header hh
      simp only [Hook.act, hother, Bool.and_false, Bool.false_eq_true, if_false]
      exact hquiet hentry
  | frameRecv f o =>
      simp only [Hook.act]
      split
      · rcases entry with _ | _ | st
        · exact hgone ⟨by simp, by simp, by simp⟩
        · exact hquiet hentry
        · have hst : st.req = .default := hentry (some st) rfl st rfl
          refine ⟨recvFrame_default hst hh.1 hh.2, fun v hv => ?_⟩
          obtain rfl := Option.some.inj hv
          exact noPath_some ((recvFrame_served o st).req_eq.trans hst)
      · exact hquiet hentry
  | streamClose id errorCode =>
      rcases entry with _ | _ | st
      · exact hgone ⟨by simp, by simp, by simp⟩
      · exact hgone onlyErrorPage_nil
      · refine hgone ?_
        rw [Stream.streamD]
        split <;> exact ⟨by simp, by simp, by simp⟩

end

/-- **No client ever gets a file.**  For every sequence of hooks of a session, and every
sequence of calls that nghttp2 reads a body with. -/
theorem only_error_pages {U : Type} (ada : Ada U) (parser : UrlParser U) {page : Vector UInt8 16}
    {hs : List Hook} (hhs : ∀ h ∈ hs, h.Usual page) :
    (∀ a ∈ ((InboundStreams.empty parser).runHooks ada hs).1, a.2.OnlyErrorPage page) ∧
      ∀ calls body, bodyOf (pageBytes page) calls = .complete body →
        ∃ stale, body = pageBytes page ++ [stale] := by
  refine ⟨fun a ha => ?_, fun calls body hbody => ?_⟩
  · have hall := congrArg Prod.fst (runHooks_eq ada hs (.empty parser))
    dsimp only at hall
    rw [hall] at ha
    refine Keyed.runAll_forall (P := NoPath) _ _ ?_ ?_ a ha
    · intro c hc
      obtain ⟨h, hmem, rfl⟩ := List.mem_map.mp hc
      exact act_onlyErrorPage (hhs h hmem)
    · intro k v hv
      cases hv
  · have hof := bodyFrom_of (List.nil_append (pageBytes page)) calls
    rw [bodyOf] at hbody
    rw [hbody] at hof
    obtain ⟨-, last, -, -, -, -, hsent⟩ := hof
    obtain ⟨stale, rest, hbuf⟩ := List.exists_cons_of_ne_nil last.room
    refine ⟨stale, ?_⟩
    rw [hsent, hbuf]
    rfl

/-- A request for `/index.html`, as a client sends it. -/
def indexRequest : List Hook :=
  [.beginHeaders (requestFrame 1),
    .recvHeader (requestFrame 1) (chars ":path") (chars "/index.html"),
    .frameRecv (requestFrame 1) .noFile]

theorem only_error_pages_index :
    (∀ a ∈ ((InboundStreams.empty {}).runHooks .acceptsNothing indexRequest).1,
        a.2.OnlyErrorPage (.replicate 16 0)) ∧
      ∀ calls body, bodyOf (pageBytes (.replicate 16 0)) calls = .complete body →
        ∃ stale, body = pageBytes (.replicate 16 0) ++ [stale] := by
  refine only_error_pages .acceptsNothing {} fun h hh => ?_
  rcases List.mem_cons.mp hh with rfl | hh
  · trivial
  rcases List.mem_cons.mp hh with rfl | hh
  · show 0 ∉ chars ":path"
    decide
  obtain rfl := List.mem_singleton.mp hh
  exact ⟨rfl, rfl⟩

end Wshttp
