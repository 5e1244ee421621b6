/-
# `Wshttp.Stream.Isolation` — the streams of a session do not meet

All requests of a session are parsed through one global `url_parser`, and all its
streams live in one map.  A hook reads and writes the entry of its own stream, and
of the parser it takes only what it has just put in.  The answers of the system
belong to the call they are given to, so they move with it.

**Proved here.**  Two hooks for different streams commute from any state, and in
any interleaving each stream is answered, and left, as if its own hooks had run
alone (`streams_isolated`).
-/
import Wshttp.Stream.OneStream
import Wshttp.Url.Interleaved

namespace Wshttp

section
variable {U : Type} (ada : Ada U)

/-- The two orders of `a` and `b` give each hook the same answer, its return value
and its effects, and end with the same `_streams`. -/
structure Commutes (s : InboundStreams U) (a b : Hook) : Prop where
  first : ((s.runHook ada b).2.runHook ada a).1 = (s.runHook ada a).1
  second : ((s.runHook ada a).2.runHook ada b).1 = (s.runHook ada b).1
  streams : ((s.runHook ada a).2.runHook ada b).2.streams
    = ((s.runHook ada b).2.runHook ada a).2.streams

/-- Among all the hooks, those of the stream `id` are answered as they are alone, and
leave the same entry. -/
structure AsIfAlone (s : InboundStreams U) (hs : List Hook) (id : StreamId) : Prop where
  answers : answersOf ada id hs s = (s.runHooks ada (hooksOf id hs)).1.map Prod.snd
  stream : (s.runHooks ada hs).2.streams.lookup (streamKey id)
    = (s.runHooks ada (hooksOf id hs)).2.streams.lookup (streamKey id)

variable {ada}

theorem commutes_of_ne {a b : Hook} (h : a.id ≠ b.id) (s : InboundStreams U) :
    Commutes ada s a b := by
  have hkey : (a.call ada).key ≠ (b.call ada).key := fun heq => h (streamKey_inj heq)
  refine ⟨?_, ?_, ?_⟩
  · rw [runHook_answer, runHook_answer, runHook_streams]
    exact Keyed.answer_comm hkey s.streams
  · rw [runHook_answer, runHook_answer, runHook_streams]
    exact Keyed.answer_comm hkey.symm s.streams
  · rw [runHook_streams, runHook_streams, runHook_streams, runHook_streams]
    exact (Keyed.map_comm hkey s.streams).symm

theorem hooksOf_hooksOf (id : StreamId) (hs : List Hook) :
    hooksOf id (hooksOf id hs) = hooksOf id hs := by
  simp [hooksOf]

/-- When all the hooks are for one stream, every answer is for it. -/
theorem answersOf_alone (id : StreamId) : ∀ {hs : List Hook}, (∀ h ∈ hs, h.id = id) →
    ∀ s : InboundStreams U, answersOf ada id hs s = (s.runHooks ada hs).1.map Prod.snd := by
  intro hs
  induction hs with
  | nil => intro _ s; rfl
  | cons h hs ih =>
      intro hids s
      have hid := hids h List.mem_cons_self
      have hrest := ih (fun g hg => hids g (List.mem_cons_of_mem h hg)) (s.runHook ada h).2
      simp only [answersOf, Keyed.answersOf] at hrest
      simp only [answersOf, Keyed.answersOf, InboundStreams.runHooks, hid, List.filter_cons,
        decide_true, if_true, List.map_cons]
      exact congrArg _ hrest

theorem asIfAlone (s : InboundStreams U) (hs : List Hook) (id : StreamId) :
    AsIfAlone ada s hs id := by
  refine ⟨?_, ?_⟩
  · rw [← answersOf_alone id (fun _ => id_of_mem_hooksOf), answersOf_eq, answersOf_eq,
      hooksOf_hooksOf]
  · rw [lookup_runHooks, lookup_runHooks, hooksOf_hooksOf]

end

/-- **The streams of a session are isolated.**  For every state, whatever the parser
and the map hold, and every interleaving. -/
theorem streams_isolated {U : Type} (ada : Ada U) (s : InboundStreams U) :
    (∀ a b : Hook, a.id ≠ b.id → Commutes ada s a b) ∧
      ∀ (hs : List Hook) (id : StreamId), AsIfAlone ada s hs id :=
  ⟨fun _ _ h => commutes_of_ne h s, asIfAlone s⟩

/-- A session with two streams whose paths have not come yet. -/
def twoStreams : InboundStreams Bytes :=
  ((InboundStreams.empty {}).runHooks Parsing.hostOnly
    [.beginHeaders (requestFrame 1), .beginHeaders (requestFrame 3)]).2

/-- Both paths go through the one parser, and each stream has its own. -/
theorem streams_isolated_paths :
    Commutes Parsing.hostOnly twoStreams
      (.recvHeader (requestFrame 1) req.fields.path (chars "https://a"))
      (.recvHeader (requestFrame 3) req.fields.path (chars "https://b")) ∧
    (twoStreams.runHooks Parsing.hostOnly
        [.recvHeader (requestFrame 1) req.fields.path (chars "https://a"),
          .recvHeader (requestFrame 3) req.fields.path (chars "https://b")]).2.streams.lookup
      (streamKey 1) = some (some { id := 1, req := uriOf Parsing.hostOnly (chars "https://a") }) :=
  ⟨(streams_isolated Parsing.hostOnly twoStreams).1 _ _ (by decide), rfl⟩

end Wshttp
