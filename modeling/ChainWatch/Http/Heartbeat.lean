import ChainWatch.Http.Status
import ChainWatch.System

/-!
# Signals over HTTP

A signal with a route is one request; without a route there is nothing to send. The service accepts a
signal with a status of success.
-/

namespace ChainWatch

namespace SignalFault

def message? : SignalFault → Option String
  | refused status => some s!"signal endpoint returned status {Http.statusText status}"
  | exchange => none

end SignalFault

namespace Signal

/-- Whether an exchange has delivered a signal. -/
def delivery : Http.Outcome → Except SignalFault Unit
  | .unreachable => .error .exchange
  | .replied reply => if reply.isSuccess then .ok () else .error (.refused reply.status)

/-- What becomes of a signal, given what comes back from an address. -/
def deliver (base : String) (signal : Signal) (exchange : Route → Http.Outcome) :
    Except SignalFault Unit :=
  match signal.route base with
  | none => .ok ()
  | some route => delivery (exchange route)

end Signal

end ChainWatch
