import ChainWatch.Transaction.Outbox
import Mathlib.Data.List.DropRight

/-!
# Outboxes in use

A transaction that was pushed stays in its outbox until the first operation that empties it, which
collects or drops it (`emptier?`). So over any operations nothing is lost, doubled or moved: what comes to
be collected is what was pushed and met a drain first, in the order of the pushes, and what is queued is
what was pushed since the outbox was last emptied (`run_keeps_order`).
-/

namespace ChainWatch.Outbox

/-! ## Operations -/

inductive Operation where
  | push (context dedupKey : String) (request : CallRequest)
  /-- Move everything behind what was collected before. -/
  | drain
  /-- Drop everything. -/
  | discard
  deriving DecidableEq, Repr

namespace Operation

/-- Whether the operation empties the outbox. -/
def empties : Operation → Bool
  | push .. => false
  | drain => true
  | discard => true

/-- The transaction that the operation pushes into an outbox of the owner. -/
def transaction? (owner : RuleMeta) : Operation → Option OutboundTransaction
  | push context dedupKey request => some
      { urgency := owner.urgency
        executor := owner.executor
        context
        dedupKey
        ttlSeconds := owner.ttlSeconds
        request }
  | drain => none
  | discard => none

end Operation

/-- An outbox in use: what was collected from it and from others before, and what each operation answered.
Only those that empty the outbox answer, with how many transactions they took out. -/
structure Usage where
  box : Outbox
  collected : List OutboundTransaction
  answers : List (Option Nat)

namespace Usage

def start (owner : RuleMeta) (collected : List OutboundTransaction) : Usage :=
  ⟨.empty owner, collected, []⟩

def step (usage : Usage) : Operation → Usage
  | .push context dedupKey request =>
    ⟨usage.box.push context dedupKey request, usage.collected, usage.answers ++ [none]⟩
  | .drain =>
    let (moved, box, collected) := usage.box.drainInto usage.collected
    ⟨box, collected, usage.answers ++ [some moved]⟩
  | .discard =>
    let (dropped, box) := usage.box.discard
    ⟨box, usage.collected, usage.answers ++ [some dropped]⟩

def run (usage : Usage) (operations : List Operation) : Usage :=
  operations.foldl step usage

end Usage

/-! ## What becomes of a transaction -/

/-- The operation that takes out what is in the outbox before these operations, if one does. -/
def emptier? (operations : List Operation) : Option Operation :=
  operations.find? Operation.empties

/-- The transactions that are pushed, each with the operation that takes it out. -/
def fates (owner : RuleMeta) : List Operation → List (OutboundTransaction × Option Operation)
  | [] => []
  | operation :: later =>
    ((operation.transaction? owner).map fun tx => (tx, emptier? later)).toList ++ fates owner later

/-- The transactions of some fate. -/
def meeting (fate : Option Operation) (fated : List (OutboundTransaction × Option Operation)) :
    List OutboundTransaction :=
  (fated.filter (·.2 = fate)).map (·.1)

/-- The transactions that were pushed since the outbox was last emptied. -/
def recent (owner : RuleMeta) (operations : List Operation) : List OutboundTransaction :=
  (operations.rtakeWhile (!·.empties)).filterMap (·.transaction? owner)

section Fates

variable {owner : RuleMeta} {fate : Option Operation} {later operations : List Operation}

@[simp] theorem emptier?_push (context dedupKey : String) (request : CallRequest)
    (later : List Operation) : emptier? (.push context dedupKey request :: later) = emptier? later :=
  rfl

@[simp] theorem emptier?_drain (later : List Operation) : emptier? (.drain :: later) = some .drain := rfl

@[simp] theorem emptier?_discard (later : List Operation) :
    emptier? (.discard :: later) = some .discard := rfl

@[simp] theorem fates_push (owner : RuleMeta) (context dedupKey : String) (request : CallRequest)
    (later : List Operation) : fates owner (.push context dedupKey request :: later) =
      (stamp owner context dedupKey request, emptier? later) :: fates owner later := rfl

@[simp] theorem fates_drain (owner : RuleMeta) (later : List Operation) :
    fates owner (.drain :: later) = fates owner later := rfl

@[simp] theorem fates_discard (owner : RuleMeta) (later : List Operation) :
    fates owner (.discard :: later) = fates owner later := rfl

@[simp] theorem meeting_cons (tx : OutboundTransaction) (fate' : Option Operation)
    (fated : List (OutboundTransaction × Option Operation)) :
    meeting fate ((tx, fate') :: fated) =
      (if fate' = fate then [tx] else []) ++ meeting fate fated := by
  by_cases h : fate' = fate <;> simp [meeting, h]

/-- Every push has one fate, and the pushes stay in their order. -/
theorem map_fates (owner : RuleMeta) (operations : List Operation) :
    (fates owner operations).map (·.1) = operations.filterMap (·.transaction? owner) := by
  induction operations with
  | nil => rfl
  | cons operation later ih =>
      cases operation with
      | push => exact congrArg (_ :: ·) ih
      | drain | discard => exact ih

theorem recent_concat (owner : RuleMeta) (operations : List Operation) (operation : Operation) :
    recent owner (operations ++ [operation]) = if operation.empties then [] else
      recent owner operations ++ (operation.transaction? owner).toList := by
  rw [recent, List.rtakeWhile_concat]
  cases operation with
  | push => simp [Operation.empties, Operation.transaction?, recent]
  | drain | discard => rfl

theorem eq_stamp_of_mem_fates {tx : OutboundTransaction} (h : (tx, fate) ∈ fates owner operations) :
    ∃ context dedupKey request, tx = stamp owner context dedupKey request := by
  have hpushed : tx ∈ operations.filterMap (·.transaction? owner) := by
    rw [← map_fates]
    exact List.mem_map_of_mem h
  obtain ⟨operation, -, htx⟩ := List.mem_filterMap.mp hpushed
  cases operation with
  | push context dedupKey request => exact ⟨context, dedupKey, request, (Option.some.inj htx).symm⟩
  | drain | discard => cases htx

end Fates

section Run

variable {owner : RuleMeta} {usage : Usage} {operations before after : List Operation}
  {operation : Operation}

namespace Usage

@[simp] theorem owner_start (owner : RuleMeta) (collected : List OutboundTransaction) :
    (start owner collected).box.owner = owner := rfl

@[simp] theorem queue_start (owner : RuleMeta) (collected : List OutboundTransaction) :
    (start owner collected).box.queue = [] := rfl

@[simp] theorem collected_start (owner : RuleMeta) (collected : List OutboundTransaction) :
    (start owner collected).collected = collected := rfl

@[simp] theorem answers_start (owner : RuleMeta) (collected : List OutboundTransaction) :
    (start owner collected).answers = [] := rfl

theorem owner_step (usage : Usage) (operation : Operation) :
    (usage.step operation).box.owner = usage.box.owner := by
  cases operation <;> rfl

theorem run_cons (usage : Usage) (operation : Operation) (later : List Operation) :
    usage.run (operation :: later) = (usage.step operation).run later := rfl

theorem owner_run (usage : Usage) (operations : List Operation) :
    (usage.run operations).box.owner = usage.box.owner := by
  induction operations generalizing usage with
  | nil => rfl
  | cons operation later ih => rw [run_cons, ih, owner_step]

theorem run_append (usage : Usage) (before after : List Operation) :
    usage.run (before ++ after) = (usage.run before).run after :=
  List.foldl_append

/-- What is collected is what was collected before, what was queued before if a drain meets it, and what
was pushed and met by a drain. -/
theorem collected_run (usage : Usage) (operations : List Operation) :
    (usage.run operations).collected = usage.collected ++
      ((if emptier? operations = some .drain then usage.box.queue else []) ++
        meeting (some .drain) (fates usage.box.owner operations)) := by
  induction operations generalizing usage with
  | nil => simp [run, emptier?, fates, meeting]
  | cons operation later ih =>
      rw [run_cons, ih, owner_step]
      cases operation with
      | push context dedupKey request =>
          by_cases h : emptier? later = some .drain <;> simp [step, h]
      | drain => simp [step, drainInto]
      | discard => simp [step, discard]

theorem queue_run (usage : Usage) (operations : List Operation) :
    (usage.run operations).box.queue =
      (if emptier? operations = none then usage.box.queue else []) ++
        meeting none (fates usage.box.owner operations) := by
  induction operations generalizing usage with
  | nil => simp [run, emptier?, fates, meeting]
  | cons operation later ih =>
      rw [run_cons, ih, owner_step]
      cases operation with
      | push context dedupKey request =>
          by_cases h : emptier? later = none <;> simp [step, h]
      | drain => simp [step, drainInto]
      | discard => simp [step, discard]

/-- An operation answers if it empties the outbox: how many transactions it took out. -/
theorem answers_step (usage : Usage) (operation : Operation) : (usage.step operation).answers =
    usage.answers ++ [if operation.empties then some usage.box.size else none] := by
  cases operation <;> rfl

theorem queue_step_of_empties (usage : Usage) (h : operation.empties = true) :
    (usage.step operation).box.queue = [] := by
  cases operation with
  | push => cases h
  | drain | discard => rfl

theorem exists_answers_run (usage : Usage) (operations : List Operation) :
    ∃ given, (usage.run operations).answers = usage.answers ++ given ∧
      given.length = operations.length := by
  induction operations generalizing usage with
  | nil => exact ⟨[], by simp [run], rfl⟩
  | cons operation later ih =>
      obtain ⟨given, hgiven, hlength⟩ := ih (usage.step operation)
      rw [answers_step, List.append_assoc] at hgiven
      exact ⟨_ :: given, hgiven, congrArg (· + 1) hlength⟩

/-- The answer of an operation is given at its place among the operations. -/
theorem getElem?_answers_run (owner : RuleMeta) (collected : List OutboundTransaction)
    (before after : List Operation) (operation : Operation) :
    ((start owner collected).run (before ++ operation :: after)).answers[before.length]? =
      some (if operation.empties then some ((start owner collected).run before).box.size else none) := by
  obtain ⟨given, hgiven, hlength⟩ := exists_answers_run (start owner collected) before
  obtain ⟨more, hmore, -⟩ :=
    exists_answers_run (((start owner collected).run before).step operation) after
  rw [run_append, run_cons, hmore, answers_step, hgiven, answers_start, List.nil_append,
    List.append_assoc, ← hlength, List.getElem?_append_right le_rfl, Nat.sub_self]
  rfl

theorem queue_run_start (owner : RuleMeta) (collected : List OutboundTransaction)
    (operations : List Operation) :
    ((start owner collected).run operations).box.queue = recent owner operations := by
  induction operations using List.reverseRecOn with
  | nil => rfl
  | append_singleton operations operation ih =>
      rw [run_append, recent_concat, ← ih]
      cases operation with
      | push context dedupKey request =>
          have howner := owner_run (start owner collected) operations
          exact congrArg (fun owner => _ ++ [stamp owner context dedupKey request]) howner
      | drain | discard => rfl

end Usage

/-- Over any operations on a new outbox, the collected transactions are those collected before and then,
in the order of the pushes and each once, those that were pushed and met by a drain first. Queued are
those that no operation has met, which are the ones pushed since the outbox was last emptied. Whatever
empties the outbox says how many were queued then, and each transaction carries what its rule stamps on
it. -/
theorem run_keeps_order (owner : RuleMeta) (collected : List OutboundTransaction)
    (operations : List Operation) :
    (fates owner operations).map (·.1) = operations.filterMap (·.transaction? owner) ∧
    ((Usage.start owner collected).run operations).collected =
      collected ++ meeting (some .drain) (fates owner operations) ∧
    ((Usage.start owner collected).run operations).box.queue = meeting none (fates owner operations) ∧
    ((Usage.start owner collected).run operations).box.queue = recent owner operations ∧
    ((Usage.start owner collected).run operations).box.size = (recent owner operations).length ∧
    (∀ before operation after, operations = before ++ operation :: after →
      ((Usage.start owner collected).run operations).answers[before.length]? = some
        (if operation.empties then some ((Usage.start owner collected).run before).box.size else none) ∧
      (operation.empties → ((Usage.start owner collected).run (before ++ [operation])).box.queue = [])) ∧
    ∀ tx fate, (tx, fate) ∈ fates owner operations → tx.urgency = owner.urgency ∧
      tx.executor = owner.executor ∧ tx.ttlSeconds = owner.ttlSeconds := by
  have hqueue := Usage.queue_run_start owner collected operations
  refine ⟨map_fates owner operations, ?_, ?_, hqueue, congrArg List.length hqueue, ?_, ?_⟩
  · simp [Usage.collected_run]
  · simp [Usage.queue_run]
  · rintro before operation after rfl
    refine ⟨Usage.getElem?_answers_run owner collected before after operation, fun h => ?_⟩
    rw [Usage.run_append]
    exact Usage.queue_step_of_empties _ h
  · intro tx fate h
    obtain ⟨context, dedupKey, request, rfl⟩ := eq_stamp_of_mem_fates h
    exact ⟨rfl, rfl, rfl⟩

end Run

end ChainWatch.Outbox
