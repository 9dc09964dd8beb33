import ChainWatch.Concurrency.Lock
import ChainWatch.Transaction.Line

/-!
# Sinks

A sink appends the line of a transaction to its queue file, and holds a lock while it does so. It opens
the file, which creates one if there is none, writes until nothing is left to write, and flushes. Each of
these steps may fail, and what the device has taken may come to the file only in part.
-/

namespace ChainWatch

open Concurrency

inductive DeviceRequest where
  /-- Open the file for appending, and create it if there is none. -/
  | openFile
  | write (bytes : Bytes)
  | flush
  deriving DecidableEq, Repr

/-- Whether the file is open; how many of the bytes the device has taken; whether all it has taken is in
the file. When a write or a flush fails, some of what was to be written since the file was opened may
have come to the file: the answer says how much. -/
abbrev DeviceRequest.Answer : DeviceRequest → Type
  | .openFile => Bool
  | .write _ => Except Nat { count : Nat // 0 < count }
  | .flush => Except Nat Unit

abbrev device : Interface where
  Memory := Option Bytes
  Request := DeviceRequest
  Answer := DeviceRequest.Answer

inductive SinkFault where
  | opening
  | writing
  | flushing
  deriving DecidableEq, Repr

namespace OutboundTransaction

def lineBytes (tx : OutboundTransaction) : Bytes :=
  Bytes.ofString (String.ofList tx.line)

def record (tx : OutboundTransaction) : Bytes :=
  Bytes.ofString (String.ofList (tx.line ++ ['\n']))

end OutboundTransaction

namespace Sink

def appended (bytes : Bytes) (file : Option Bytes) : Option Bytes :=
  some (file.getD [] ++ bytes)

/-- What the device has taken for a file since it was opened and not yet put into it, and what the file
holds. -/
structure Handle where
  taken : Bytes
  content : Option Bytes

/-- What an answer of the device makes of the file. After a failure nothing is left to be put into it. -/
def Handle.after (file : Handle) : (request : DeviceRequest) → request.Answer → Handle
  | .openFile, true => ⟨[], appended [] file.content⟩
  | .openFile, false => file
  | .write bytes, .ok count => { file with taken := file.taken ++ bytes.take count }
  | .write bytes, .error landed =>
    ⟨[], appended ((file.taken ++ bytes).take landed) file.content⟩
  | .flush, .ok () => ⟨[], appended file.taken file.content⟩
  | .flush, .error landed => ⟨[], appended (file.taken.take landed) file.content⟩

/-- Ask the device, which has taken some bytes, and let the file follow its answer. -/
def ask (taken : Bytes) (request : DeviceRequest) : Activity device.locked request.Answer := do
  let answer ← Activity.request (I := device.locked) request
  Activity.modify (I := device.locked) <| Locked.change fun content =>
    (Handle.after ⟨taken, content⟩ request answer).content
  return answer

/-- Hand bytes to the device until nothing is left, and say what it has taken then. -/
def writeAll (taken bytes : Bytes) : Activity device.locked (Except SinkFault Bytes) :=
  if bytes = [] then return .ok taken
  else do
    match ← ask taken (.write bytes) with
    | .error _ => return .error .writing
    | .ok count => writeAll (taken ++ bytes.take count) (bytes.drop count)
termination_by bytes.length
decreasing_by
  rw [List.length_drop]
  have := List.length_pos_iff.mpr ‹_›
  have := count.2
  omega

def append (bytes : Bytes) : Activity device.locked (Except SinkFault Unit) := do
  if ← ask [] .openFile then
    match ← writeAll [] bytes with
    | .error fault => return .error fault
    | .ok taken =>
      match ← ask taken .flush with
      | .error _ => return .error .flushing
      | .ok () => return .ok ()
  else return .error .opening

def accept (tx : OutboundTransaction) : Activity device.locked (Except SinkFault Unit) :=
  Activity.exclusively (append tx.record)

end Sink

end ChainWatch
