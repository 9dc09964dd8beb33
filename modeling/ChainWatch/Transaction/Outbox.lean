import ChainWatch.Transaction

/-!
# Outboxes

The transactions that one rule has queued, oldest first. They leave all at once: collected when the
rule succeeds, dropped when it fails.
-/

namespace ChainWatch

structure RuleMeta where
  label : String
  urgency : Urgency
  executor : String
  ttlSeconds : UInt64
  deriving DecidableEq, Repr

structure Outbox where
  owner : RuleMeta
  queue : List OutboundTransaction
  deriving DecidableEq, Repr

namespace Outbox

def empty (owner : RuleMeta) : Outbox := ⟨owner, []⟩

def stamp (owner : RuleMeta) (context dedupKey : String) (request : CallRequest) :
    OutboundTransaction :=
  { urgency := owner.urgency
    executor := owner.executor
    context
    dedupKey
    ttlSeconds := owner.ttlSeconds
    request }

def push (box : Outbox) (context dedupKey : String) (request : CallRequest) : Outbox :=
  { box with queue := box.queue ++ [stamp box.owner context dedupKey request] }

def size (box : Outbox) : Nat := box.queue.length

def isEmpty (box : Outbox) : Bool := box.queue.isEmpty

/-- Move everything behind what was collected before. Also says how many were moved. -/
def drainInto (box : Outbox) (collected : List OutboundTransaction) :
    Nat × Outbox × List OutboundTransaction :=
  (box.size, { box with queue := [] }, collected ++ box.queue)

/-- Drop everything. Also says how many were dropped. -/
def discard (box : Outbox) : Nat × Outbox :=
  (box.size, { box with queue := [] })

@[simp] theorem queue_empty (owner : RuleMeta) : (empty owner).queue = [] := rfl

@[simp] theorem owner_push (box : Outbox) (context dedupKey : String) (request : CallRequest) :
    (box.push context dedupKey request).owner = box.owner := rfl

@[simp] theorem queue_push (box : Outbox) (context dedupKey : String) (request : CallRequest) :
    (box.push context dedupKey request).queue =
      box.queue ++ [stamp box.owner context dedupKey request] := rfl

end Outbox

end ChainWatch
