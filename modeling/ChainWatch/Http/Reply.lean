import ChainWatch.Bytes

/-!
# Replies over HTTP

What comes back from a request: a reply with a status and a body, or nothing.
-/

namespace ChainWatch.Http

structure Reply where
  status : Nat
  body : Bytes
  deriving DecidableEq, Repr

def Reply.isSuccess (r : Reply) : Bool :=
  200 ≤ r.status && r.status < 300

inductive Outcome where
  | replied (reply : Reply)
  /-- The other side could not be reached, or it closed the connection without a reply. -/
  | unreachable
  deriving DecidableEq, Repr

end ChainWatch.Http
