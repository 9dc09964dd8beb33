import ChainWatch.Concurrency.Activity

/-!
# Polling on a virtual clock

`poll` lets an activity advance as far as it can at one instant: members of a crew in their order,
each until it finishes or waits. `wake` is the next instant at which polling again can achieve
something. Time passes only between polls.
-/

namespace ChainWatch.Concurrency

/-- How a request that is due is answered: at once, or after a further wait. -/
inductive Settlement (A : Type) where
  | now (answer : A)
  | later (span : Nat) (answer : A)

/-- The other side of the requests. A request is first submitted, which says how long it travels, and
then settled. -/
structure Handler (I : Interface) (σ : Type) where
  submit : (request : I.Request) → σ → Nat × σ
  settle : (request : I.Request) → σ → Settlement (I.Answer request) × σ

structure World (I : Interface) (σ : Type) where
  memory : I.Memory
  outside : σ

variable {I : Interface} {σ α β : Type}

/-- Settle a request that is due and resume with its answer, or hold the answer back. -/
def Handler.conclude (h : Handler I σ) (now : Nat) (request : I.Request)
    (next : I.Answer request → Activity I α)
    (resume : I.Answer request → World I σ → Activity I α × World I σ) (w : World I σ) :
    Activity I α × World I σ :=
  match h.settle request w.outside with
  | (.now answer, outside) => resume answer { w with outside }
  | (.later span answer, outside) =>
    if span = 0 then resume answer { w with outside }
    else (.resumeAt (now + span) (next answer), { w with outside })

mutual

/-- Advance an activity as far as it gets at the instant `now`. -/
def Activity.poll {α : Type} (h : Handler I σ) (now : Nat) :
    Activity I α → World I σ → Activity I α × World I σ
  | .done value, w => (.done value, w)
  | .touch change next, w => (next now w.memory).poll h now { w with memory := change w.memory }
  | .perform request next, w =>
    let (span, outside) := h.submit request w.outside
    if span = 0 then
      h.conclude now request next (fun answer w => (next answer).poll h now w) { w with outside }
    else (.settleAt (now + span) request next, { w with outside })
  | .settleAt due request next, w =>
    if due ≤ now then h.conclude now request next (fun answer w => (next answer).poll h now w) w
    else (.settleAt due request next, w)
  | .pause span next, w =>
    if span = 0 then next.poll h now w else (.resumeAt (now + span) next, w)
  | .resumeAt due next, w => if due ≤ now then next.poll h now w else (.resumeAt due next, w)
  | .waitUntil ready next, w =>
    if ready w.memory then next.poll h now w else (.waitUntil ready next, w)
  | .join limit crew next, w =>
    let (crew, w) := crew.poll h now (limit - crew.busy) w
    match crew.results? with
    | some results => (next results).poll h now w
    | none => (.join limit crew next, w)
  | .tryPair left right next, w =>
    match left.poll h now w with
    | (.done (.error e), w) => (next (.error e)).poll h now w
    | (left, w) =>
      match left, right.poll h now w with
      | _, (.done (.error e), w) => (next (.error e)).poll h now w
      | .done (.ok b), (.done (.ok c), w) => (next (.ok (b, c))).poll h now w
      | left, (right, w) => (.tryPair left right next, w)
termination_by structural p => p

/-- Advance the members of a crew in their order. The number says how many permits a first-come
first-served semaphore has left: a queued member takes one when it starts, and with its end gives it back
to the next one in the queue within the same instant. -/
def Crew.poll {β : Type} (h : Handler I σ) (now : Nat) :
    Crew I β → Nat → World I σ → Crew I β × World I σ
  | .nil, _, w => (.nil, w)
  | .finished value rest, free, w =>
    let (rest, w) := rest.poll h now free w
    (.finished value rest, w)
  | .running member rest, free, w =>
    match member.poll h now w with
    | (.done value, w) =>
      let (rest, w) := rest.poll h now (free + 1) w
      (.finished value rest, w)
    | (member, w) =>
      let (rest, w) := rest.poll h now free w
      (.running member rest, w)
  | .queued member rest, free, w =>
    if free = 0 then
      let (rest, w) := rest.poll h now 0 w
      (.queued member rest, w)
    else
      match member.poll h now w with
      | (.done value, w) =>
        let (rest, w) := rest.poll h now free w
        (.finished value rest, w)
      | (member, w) =>
        let (rest, w) := rest.poll h now (free - 1) w
        (.running member rest, w)
termination_by structural crew => crew

end

def earlier : Option Nat → Option Nat → Option Nat
  | none, b => b
  | a, none => a
  | some a, some b => some (min a b)

mutual

/-- The next instant, from `now` on, at which polling makes the activity advance. -/
def Activity.wake {α : Type} (now : Nat) (memory : I.Memory) : Activity I α → Option Nat
  | .done _ => none
  | .touch _ _ => some now
  | .perform _ _ => some now
  | .settleAt due _ _ => some (max now due)
  | .pause _ _ => some now
  | .resumeAt due _ => some (max now due)
  | .waitUntil ready _ => if ready memory then some now else none
  | .join limit crew _ =>
    match crew.results? with
    | some _ => some now
    | none => crew.wake now memory (limit - crew.busy)
  | .tryPair left right _ =>
    match left, right with
    | .done (.error _), _ => some now
    | _, .done (.error _) => some now
    | .done (.ok _), .done (.ok _) => some now
    | left, right => earlier (left.wake now memory) (right.wake now memory)
termination_by structural p => p

def Crew.wake {β : Type} (now : Nat) (memory : I.Memory) : Crew I β → Nat → Option Nat
  | .nil, _ => none
  | .finished _ rest, free => rest.wake now memory free
  | .running member rest, free =>
    match member with
    | .done _ => some now
    | _ => earlier (member.wake now memory) (rest.wake now memory free)
  | .queued _ rest, free => if free = 0 then rest.wake now memory 0 else some now
termination_by structural crew => crew

end

end ChainWatch.Concurrency
