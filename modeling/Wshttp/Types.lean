/-
# `Wshttp.Types` — bytes, literals, and the ways a call can end badly

`std::string`, `ustring` and the spans of `types.hpp` are byte lists here.

The user-defined literals deserve a word.  `detail::literal` is built from a
`const char (&s)[N]`, and its `span()` covers all `N` elements of the array, the
terminating NUL among them.  `usp` says exactly that.
-/
import Mathlib.Data.List.TakeWhile
import Mathlib.Tactic.Common

namespace Wshttp

abbrev Bytes := List UInt8

/-- The characters of a source literal, without its terminating NUL. -/
def chars (s : String) : Bytes := s.toList.map fun c => UInt8.ofNat c.toNat

/-- `operator""_usp`: the span of the literal's whole array. -/
def usp (s : String) : Bytes := chars s ++ [0]

/-- `operator==(const_span, R)`, that is `std::ranges::equal`. -/
def spanEq (lhs rhs : Bytes) : Bool := lhs == rhs

/-- What a C function sees of a string: the bytes before the first NUL. -/
def cString (s : Bytes) : Bytes := s.takeWhile (· ≠ 0)

theorem cString_of_noNul {s : Bytes} (hs : 0 ∉ s) : cString s = s := by
  refine List.takeWhile_eq_self_iff.mpr fun b hb => decide_eq_true ?_
  rintro rfl
  exact hs hb

namespace defaults

def ALPN : Bytes := usp "h2"

end defaults

/-- `evutil_socket_t`, and `int` descriptors: `-1` is "none". -/
abbrev Fd := Int

/-! ## Exceptions, and what is not an exception -/

inductive ExnKind where
  | invalidArgument
  | runtimeError
  | badVariantAccess
  deriving DecidableEq, Repr

structure Exn where
  kind : ExnKind
  what : String
  deriving DecidableEq, Repr

def invalidArgument (what : String) : Exn := ⟨.invalidArgument, what⟩

def runtimeError (what : String) : Exn := ⟨.runtimeError, what⟩

/-- `std::get` of the wrong alternative. -/
def badVariantAccess : Exn := ⟨.badVariantAccess, "std::get: wrong index for variant"⟩

/-- The ways a call ends without returning: it throws, or it does something the
language gives no meaning to. -/
inductive Fault where
  | throws (e : Exn)
  /-- a null pointer is dereferenced, or handed to a C function that dereferences it -/
  | nullPointer
  /-- an object is used after its destruction -/
  | useAfterFree
  /-- an empty `unique_ptr` or an `expected` without value is dereferenced -/
  | absentResult
  deriving DecidableEq, Repr

end Wshttp
