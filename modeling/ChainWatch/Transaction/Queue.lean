import ChainWatch.System
import ChainWatch.Transaction.Line

/-!
# Queue files

Transactions are appended to a file, one line each. A path at which no file can be opened takes none.
-/

namespace ChainWatch

inductive QueueFile where
  /-- No file yet; the first transaction creates it. -/
  | absent
  | holding (content : List Char)
  /-- No file can be opened or created there. -/
  | blocked
  deriving DecidableEq, Repr

namespace QueueFile

def content? : QueueFile → Option (List Char)
  | absent => none
  | holding content => some content
  | blocked => none

def accept (file : QueueFile) (tx : OutboundTransaction) : Except QueueFault Unit × QueueFile :=
  match file with
  | blocked => (.error .notWritable, blocked)
  | absent => (.ok (), holding (tx.line ++ ['\n']))
  | holding content => (.ok (), holding (content ++ tx.line ++ ['\n']))

end QueueFile

end ChainWatch
