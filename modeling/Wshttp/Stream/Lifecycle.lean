/-
# `Wshttp.Stream.Lifecycle` — every request gets one reply

nghttp2 promises an order for each stream: a request begins, headers and frames
follow, at most one of them ends the stream, and then the stream closes.  The
streams may be interleaved in any way, a run may stop anywhere, and frames of
other kinds (trailers, control frames) may come at any time.

**Proved here.**  In every such run, no hook fails to find its stream, and a stream
gets at most one response or reset, under its own id; it gets exactly one if its
last frame was accepted, and none before that frame (`one_reply`).
-/
import Wshttp.Lib.Run
import Wshttp.Stream.OneStream
import Mathlib.Algebra.Order.BigOperators.Group.List
import Mathlib.Algebra.Order.Ring.Nat

namespace Wshttp

open Machine

/-! ## What nghttp2 delivers for one stream -/

inductive Phase where
  | idle
  /-- the request has begun; its end has been seen or not -/
  | live (ended : Bool)
  | closed
  deriving DecidableEq

/-- The next phase; `none` is what nghttp2 does not deliver. -/
def Phase.next (p : Phase) (h : Hook) : Option Phase :=
  if h.quiet then some p
  else
    match p, h with
    | .idle, .beginHeaders _ => some (.live false)
    | .live ended, .recvHeader .. => some (.live ended)
    | .live false, .frameRecv .. => some (.live true)
    | .live _, .streamClose .. => some .closed
    | _, _ => none

/-- The hooks of every stream come in an order nghttp2 delivers. -/
def Delivered (hs : List Hook) : Prop := ∀ id, ∃ p, run Phase.next .idle (hooksOf id hs) = some p

/-! ## What a stream is to get -/

/-- The stream that a call of `nghttp2_submit_response2` or `nghttp2_submit_rst_stream`
is for. -/
def Effect.replyTo : Effect → Option StreamId
  | .submittedResponse id _ _ _ => some id
  | .submittedRst id _ _ => some id
  | _ => none

def Answer.replies (a : Answer) : Nat := a.effects.countP (·.replyTo.isSome)

/-- How often nghttp2 is asked to respond or reset. -/
def replies (answers : List Answer) : Nat := (answers.map Answer.replies).sum

/-- The frame that ends the stream. -/
def Hook.endsStream : Hook → Bool
  | .frameRecv frame _ => frame.endsStream
  | _ => false

theorem endsStream_of_quiet {h : Hook} (hquiet : h.quiet = true) : h.endsStream = false := by
  cases h with
  | frameRecv f o => simpa [Hook.quiet, Hook.endsStream] using hquiet
  | beginHeaders | recvHeader | streamClose => rfl

/-- The replies to the stream `id`, whose hooks were `hs` and answered `answers`. -/
structure OneReply (id : StreamId) (hs : List Hook) (answers : List Answer) : Prop where
  found : ∀ a ∈ answers, ∀ j, .couldNotFind j ∉ a.effects
  ownId : ∀ a ∈ answers, ∀ e ∈ a.effects, ∀ j, e.replyTo = some j → j = id
  atMostOne : replies answers ≤ 1
  answered : ∀ p ∈ hs.zip answers, p.1.endsStream = true → p.2.rv = .ok 0 → replies answers = 1
  silent : (∀ h ∈ hs, h.endsStream = false) → replies answers = 0

/-! ## One call -/

section
variable {s s' : Stream} {rv : Int} {effects : List Effect}

theorem Served.id_eq (h : Served s rv s' effects) : s'.id = s.id := by
  cases h <;> rfl

theorem Served.found (h : Served s rv s' effects) (j : StreamId) : .couldNotFind j ∉ effects := by
  cases h <;> simp

theorem Served.ownId (h : Served s rv s' effects) {e : Effect} (he : e ∈ effects) {j : StreamId}
    (hj : e.replyTo = some j) : j = s.id := by
  cases h <;> simp only [List.mem_cons, List.not_mem_nil, or_false] at he <;>
    rcases he with rfl | rfl | rfl | rfl | rfl | rfl <;> simp_all [Effect.replyTo]

theorem Served.replies_le (h : Served s rv s' effects) :
    (Answer.mk (.ok rv) effects).replies ≤ 1 := by
  cases h <;> simp [Answer.replies, Effect.replyTo]

theorem Served.replied (h : Served s rv s' effects) (hrv : rv = 0) :
    (Answer.mk (.ok rv) effects).replies = 1 := by
  cases h with
  | sent => rfl
  | errorSent => rfl
  | reset => rfl
  | refused | unwritten | errorRefused => cases hrv

end

section
variable {U : Type} {ada : Ada U} {h : Hook} {x y : Option Stream} {a : Answer}

theorem streamD_replyTo (s : Stream) : ∀ e ∈ s.streamD, e.replyTo = none := by
  intro e he
  unfold Stream.streamD at he
  split at he
  · rw [List.mem_singleton.mp he]
    rfl
  · cases he

theorem streamD_found (s : Stream) (j : StreamId) : .couldNotFind j ∉ s.streamD := by
  unfold Stream.streamD
  split
  · simp
  · exact List.not_mem_nil

theorem replies_eq_zero (ha : ∀ e ∈ a.effects, e.replyTo = none) : a.replies = 0 := by
  refine List.countP_eq_zero.mpr fun e he => ?_
  rw [ha e he]
  exact Bool.false_ne_true

/-- Only the frame that ends the stream is replied to, and once. -/
theorem Hook.Does.replies_le (hdoes : h.Does ada x a y) : a.replies ≤ h.endsStream.toNat := by
  cases hdoes with
  | served hends hserved =>
      simp only [Hook.endsStream, hends, Bool.toNat_true]
      exact hserved.replies_le
  | released =>
      rw [replies_eq_zero (streamD_replyTo _)]
      exact Nat.zero_le _
  | quiet | made | present | otherHeader | pathHeader | noStreamToClose | noStreamForHeader
  | noStreamForFrame => exact Nat.zero_le _

theorem Hook.Does.replied (hdoes : h.Does ada x a y) (hends : h.endsStream = true)
    (hrv : a.rv = .ok 0) : a.replies = 1 := by
  cases hdoes with
  | served _ hserved => exact hserved.replied (Except.ok.inj hrv)
  | quiet hquiet =>
      rw [endsStream_of_quiet hquiet] at hends
      cases hends
  | noStreamForFrame => cases hrv
  | made | present | otherHeader | pathHeader | released | noStreamToClose | noStreamForHeader =>
      cases hends

end

/-! ## The order of the hooks -/

/-- How many more replies a phase allows. -/
def Phase.budget : Phase → Nat
  | .idle | .live false => 1
  | .live true | .closed => 0

/-- The steps nghttp2 takes for one stream. -/
inductive Phase.Moves : Phase → Hook → Phase → Prop
  | quiet {p : Phase} {h : Hook} : h.quiet = true → Moves p h p
  | begins {f : Frame} : f.isRequest = true → Moves .idle (.beginHeaders f) (.live false)
  | header {ended : Bool} {f : Frame} {name value : Bytes} : f.isRequest = true →
      Moves (.live ended) (.recvHeader f name value) (.live ended)
  | ends {f : Frame} {o : FrameOutcome} : f.endsStream = true →
      Moves (.live false) (.frameRecv f o) (.live true)
  | closes {ended : Bool} {id : StreamId} {errorCode : UInt32} :
      Moves (.live ended) (.streamClose id errorCode) .closed

theorem next_moves {p q : Phase} {h : Hook} (hnext : p.next h = some q) : p.Moves h q := by
  unfold Phase.next at hnext
  split at hnext
  · next hquiet =>
    obtain rfl := Option.some.inj hnext
    exact .quiet hquiet
  next hloud =>
  split at hnext
  · obtain rfl := Option.some.inj hnext
    exact .begins (by simpa [Hook.quiet] using hloud)
  · obtain rfl := Option.some.inj hnext
    exact .header (by simpa [Hook.quiet] using hloud)
  · obtain rfl := Option.some.inj hnext
    exact .ends (by simpa [Hook.quiet] using hloud)
  · obtain rfl := Option.some.inj hnext
    exact .closes
  · cases hnext

theorem next_budget {p q : Phase} {h : Hook} (hnext : p.next h = some q) :
    h.endsStream.toNat + q.budget ≤ p.budget := by
  cases next_moves hnext with
  | quiet hquiet =>
      rw [endsStream_of_quiet hquiet]
      exact Nat.le_of_eq (Nat.zero_add _)
  | begins _ => exact Nat.le_refl 1
  | header _ => exact Nat.le_of_eq (Nat.zero_add _)
  | ends _ => exact Bool.toNat_le _
  | closes => exact Nat.zero_le _

/-- A stream is ended at most once. -/
theorem run_budget : ∀ {hs : List Hook} {p q : Phase}, run Phase.next p hs = some q →
    hs.countP Hook.endsStream + q.budget ≤ p.budget := by
  intro hs
  induction hs with
  | nil =>
      intro p q hrun
      obtain rfl := Option.some.inj hrun
      exact Nat.le_of_eq (Nat.zero_add _)
  | cons h hs ih =>
      intro p q hrun
      obtain ⟨r, hnext, hrest⟩ := run_cons_some.mp hrun
      have hstep := next_budget hnext
      have htail := ih hrest
      rw [List.countP_cons]
      cases hends : h.endsStream with
      | false => simp [hends] at hstep ⊢; omega
      | true => simp [hends] at hstep ⊢; omega

/-- What `_streams` holds for a stream in this phase. -/
def Phase.Holds (id : StreamId) : Phase → Option Stream → Prop
  | .live _, some s => s.id = id
  | .idle, none | .closed, none => True
  | _, _ => False

/-- The answer of a hook nghttp2 may call: its stream is found, and replies carry its id. -/
structure Answer.Own (id : StreamId) (a : Answer) : Prop where
  found : ∀ j, .couldNotFind j ∉ a.effects
  ownId : ∀ e ∈ a.effects, ∀ j, e.replyTo = some j → j = id

theorem Answer.Own.nil (id : StreamId) (rv : Except Fault Int) : Answer.Own id ⟨rv, []⟩ :=
  ⟨fun _ => List.not_mem_nil, fun _ he => absurd he List.not_mem_nil⟩

section
variable {U : Type} {ada : Ada U}

theorem holds_next {id : StreamId} {p q : Phase} {h : Hook} {x y : Option Stream} {a : Answer}
    (hid : h.id = id) (hx : p.Holds id x) (hnext : p.next h = some q) (hdoes : h.Does ada x a y) :
    q.Holds id y ∧ a.Own id := by
  cases next_moves hnext with
  | quiet hquiet =>
      obtain ⟨rfl, rfl⟩ := hdoes.of_quiet hquiet
      exact ⟨hx, .nil _ _⟩
  | begins hreq =>
      rcases x with _ | st
      · cases hdoes with
        | made _ => exact ⟨hid, by simp, by simp [Effect.replyTo]⟩
        | quiet hquiet => simp [Hook.quiet, hreq] at hquiet
      · exact hx.elim
  | header hreq =>
      rcases x with _ | st
      · exact hx.elim
      · cases hdoes with
        | otherHeader _ _ => exact ⟨hx, .nil _ _⟩
        | pathHeader _ => exact ⟨hx, .nil _ _⟩
        | quiet hquiet => simp [Hook.quiet, hreq] at hquiet
  | ends hends =>
      rcases x with _ | st
      · exact hx.elim
      · have hst : st.id = id := hx
        cases hdoes with
        | served _ hserved =>
            exact ⟨hserved.id_eq.trans hst, hserved.found, fun _ he _ hj =>
              (hserved.ownId he hj).trans hst⟩
        | quiet hquiet => simp [Hook.quiet, hends] at hquiet
  | closes =>
      rcases x with _ | st
      · exact hx.elim
      · cases hdoes with
        | released =>
            refine ⟨trivial, streamD_found _, fun e he j hj => ?_⟩
            rw [streamD_replyTo _ e he] at hj
            cases hj
        | quiet hquiet => cases hquiet

theorem runs_own {id : StreamId} : ∀ {hs : List Hook} {x y : Option Stream} {as : List Answer}
    {p q : Phase}, (∀ h ∈ hs, h.id = id) → p.Holds id x → run Phase.next p hs = some q →
      Runs ada hs x as y → ∀ a ∈ as, a.Own id := by
  intro hs
  induction hs with
  | nil =>
      intro x y as p q _ _ _ hruns a ha
      cases hruns
      cases ha
  | cons h hs ih =>
      intro x y as p q hids hx hrun hruns a ha
      obtain ⟨r, hnext, hrest⟩ := run_cons_some.mp hrun
      cases hruns with
      | cons hdoes hruns =>
          obtain ⟨hy, hown⟩ := holds_next (hids h List.mem_cons_self) hx hnext hdoes
          rcases List.mem_cons.mp ha with rfl | ha
          · exact hown
          · exact ih (fun g hg => hids g (List.mem_cons_of_mem h hg)) hy hrest hruns a ha

theorem runs_replies_le {hs : List Hook} {x y : Option Stream} {as : List Answer}
    (hruns : Runs ada hs x as y) : replies as ≤ hs.countP Hook.endsStream := by
  induction hruns with
  | nil => exact Nat.le_refl 0
  | @cons h hs _ _ _ a as hdoes _ ih =>
      have hle := hdoes.replies_le
      rw [List.countP_cons, replies, List.map_cons, List.sum_cons]
      simp only [replies] at ih
      cases hends : h.endsStream with
      | false => simp [hends] at hle ⊢; omega
      | true => simp [hends] at hle ⊢; omega

theorem runs_replied {hs : List Hook} {x y : Option Stream} {as : List Answer}
    (hruns : Runs ada hs x as y) : ∀ p ∈ hs.zip as, p.1.endsStream = true → p.2.rv = .ok 0 →
      p.2.replies = 1 := by
  induction hruns with
  | nil =>
      intro p hp
      cases hp
  | cons hdoes _ ih =>
      intro p hp hends hrv
      rcases List.mem_cons.mp hp with rfl | hp
      · exact hdoes.replied hends hrv
      · exact ih p hp hends hrv

/-- **Every request gets one reply.**  For every interleaving of the streams, and
every outcome of `open`, `pipe`, `write` and the calls of nghttp2. -/
theorem one_reply (ada : Ada U) (parser : UrlParser U) {hs : List Hook}
    (hs_delivered : Delivered hs) (id : StreamId) :
    OneReply id (hooksOf id hs) (answersOf ada id hs (.empty parser)) := by
  obtain ⟨q, hphase⟩ := hs_delivered id
  obtain ⟨y, hruns, -⟩ := runs_from_empty ada id hs parser
  have hidle : Phase.idle.Holds id none := trivial
  have hown := runs_own (fun _ => id_of_mem_hooksOf) hidle hphase hruns
  have hcount : (hooksOf id hs).countP Hook.endsStream ≤ 1 := by
    have hbudget := run_budget hphase
    exact Nat.le_trans (Nat.le_add_right _ _) hbudget
  have hle := runs_replies_le hruns
  refine ⟨fun a ha => (hown a ha).found, fun a ha => (hown a ha).ownId, by omega, ?_, ?_⟩
  · intro p hp hends hrv
    have hone := runs_replied hruns p hp hends hrv
    have hmem : p.2.replies ∈ (answersOf ada id hs (.empty parser)).map Answer.replies :=
      List.mem_map_of_mem (List.of_mem_zip hp).2
    have hsum : p.2.replies ≤ replies (answersOf ada id hs (.empty parser)) :=
      List.single_le_sum (fun _ _ => Nat.zero_le _) _ hmem
    omega
  · intro hsilent
    have hzero : (hooksOf id hs).countP Hook.endsStream = 0 :=
      List.countP_eq_zero.mpr fun h hh => by rw [hsilent h hh]; exact Bool.false_ne_true
    omega

end

/-- Two requests, interleaved: stream 1 is answered and closed while stream 3 waits. -/
theorem one_reply_interleaved :
    OneReply 1
      (hooksOf 1 [.beginHeaders (requestFrame 1), .beginHeaders (requestFrame 3),
        .frameRecv (requestFrame 1) .noFile, .streamClose 1 0])
      (answersOf .acceptsNothing 1 [.beginHeaders (requestFrame 1), .beginHeaders (requestFrame 3),
        .frameRecv (requestFrame 1) .noFile, .streamClose 1 0] (.empty {})) := by
  refine one_reply .acceptsNothing {} (fun id => ?_) 1
  by_cases h1 : id = 1
  · subst h1
    exact ⟨.closed, by decide⟩
  by_cases h3 : id = 3
  · subst h3
    exact ⟨.live false, by decide⟩
  · refine ⟨.idle, ?_⟩
    simp [hooksOf, Hook.id, requestFrame, Ne.symm h1, Ne.symm h3]

end Wshttp
