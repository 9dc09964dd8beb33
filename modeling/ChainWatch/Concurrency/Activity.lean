/-!
# Activities

An activity is a computation that reads and changes a shared memory, sends requests to the outside
world, sleeps, and runs other activities side by side. It is plain data: what a request is answered,
and after how long, is decided by whoever runs the activity (`ChainWatch.Concurrency.Poll`).
-/

namespace ChainWatch.Concurrency

/-- What activities share and whom they can ask. -/
structure Interface where
  Memory : Type
  Request : Type
  Answer : Request → Type

mutual

/-- A computation that may wait. `settleAt` and `resumeAt` are the forms that a started request and
a started pause take while their time has not come. -/
inductive Activity (I : Interface) : Type → Type 1 where
  | done {α : Type} (value : α) : Activity I α
  /-- Change the memory at once and go on with the current time and the memory as it was before. -/
  | touch {α : Type} (change : I.Memory → I.Memory) (next : Nat → I.Memory → Activity I α) :
      Activity I α
  | perform {α : Type} (request : I.Request) (next : I.Answer request → Activity I α) :
      Activity I α
  /-- A request under way, to be answered no earlier than `due`. -/
  | settleAt {α : Type} (due : Nat) (request : I.Request)
      (next : I.Answer request → Activity I α) : Activity I α
  | pause {α : Type} (span : Nat) (next : Activity I α) : Activity I α
  | resumeAt {α : Type} (due : Nat) (next : Activity I α) : Activity I α
  | waitUntil {α : Type} (ready : I.Memory → Bool) (next : Activity I α) : Activity I α
  /-- Run a crew side by side, at most `limit` members at a time, and go on with all results. -/
  | join {α β : Type} (limit : Nat) (crew : Crew I β) (next : List β → Activity I α) :
      Activity I α
  /-- Run two activities side by side; the first failure abandons the other one. -/
  | tryPair {α β γ ε : Type} (left : Activity I (Except ε β)) (right : Activity I (Except ε γ))
      (next : Except ε (β × γ) → Activity I α) : Activity I α

/-- The members of a `join` in their order, each finished, running or still queued. -/
inductive Crew (I : Interface) : Type → Type 1 where
  | nil {β : Type} : Crew I β
  | finished {β : Type} (value : β) (rest : Crew I β) : Crew I β
  | running {β : Type} (member : Activity I β) (rest : Crew I β) : Crew I β
  | queued {β : Type} (member : Activity I β) (rest : Crew I β) : Crew I β

end

variable {I : Interface} {α β γ ε : Type}

namespace Crew

def ofList : List (Activity I β) → Crew I β
  | [] => .nil
  | member :: rest => .queued member (ofList rest)

def busy : Crew I β → Nat
  | .nil => 0
  | .finished _ rest => rest.busy
  | .running _ rest => rest.busy + 1
  | .queued _ rest => rest.busy

/-- The results in the members' order, once every member has finished. -/
def results? : Crew I β → Option (List β)
  | .nil => some []
  | .finished value rest => rest.results?.map (value :: ·)
  | .running _ _ => none
  | .queued _ _ => none

end Crew

namespace Activity

def bind (p : Activity I α) (f : α → Activity I β) : Activity I β :=
  match p with
  | .done value => f value
  | .touch change next => .touch change fun now memory => (next now memory).bind f
  | .perform request next => .perform request fun answer => (next answer).bind f
  | .settleAt due request next => .settleAt due request fun answer => (next answer).bind f
  | .pause span next => .pause span (next.bind f)
  | .resumeAt due next => .resumeAt due (next.bind f)
  | .waitUntil ready next => .waitUntil ready (next.bind f)
  | .join limit crew next => .join limit crew fun results => (next results).bind f
  | .tryPair left right next => .tryPair left right fun result => (next result).bind f

instance : Monad (Activity I) where
  pure := .done
  bind := bind

theorem bind_done (p : Activity I α) : p.bind .done = p := by
  match p with
  | .done _ => rfl
  | .touch change next =>
    exact congrArg (touch change) (funext fun now => funext fun m => (next now m).bind_done)
  | .perform request next => exact congrArg (perform request) (funext fun a => (next a).bind_done)
  | .settleAt due request next =>
    exact congrArg (settleAt due request) (funext fun a => (next a).bind_done)
  | .pause span next => exact congrArg (pause span) next.bind_done
  | .resumeAt due next => exact congrArg (resumeAt due) next.bind_done
  | .waitUntil ready next => exact congrArg (waitUntil ready) next.bind_done
  | .join limit crew next => exact congrArg (join limit crew) (funext fun r => (next r).bind_done)
  | .tryPair left right next =>
    exact congrArg (tryPair left right) (funext fun r => (next r).bind_done)

theorem bind_bind (p : Activity I α) (f : α → Activity I β) (g : β → Activity I γ) :
    (p.bind f).bind g = p.bind fun value => (f value).bind g := by
  match p with
  | .done _ => rfl
  | .touch change next =>
    exact congrArg (touch change) (funext fun now => funext fun m => (next now m).bind_bind f g)
  | .perform request next =>
    exact congrArg (perform request) (funext fun a => (next a).bind_bind f g)
  | .settleAt due request next =>
    exact congrArg (settleAt due request) (funext fun a => (next a).bind_bind f g)
  | .pause span next => exact congrArg (pause span) (next.bind_bind f g)
  | .resumeAt due next => exact congrArg (resumeAt due) (next.bind_bind f g)
  | .waitUntil ready next => exact congrArg (waitUntil ready) (next.bind_bind f g)
  | .join limit crew next =>
    exact congrArg (join limit crew) (funext fun r => (next r).bind_bind f g)
  | .tryPair left right next =>
    exact congrArg (tryPair left right) (funext fun r => (next r).bind_bind f g)

instance : LawfulMonad (Activity I) :=
  LawfulMonad.mk' (Activity I) bind_done (fun _ _ => rfl) bind_bind

def request (r : I.Request) : Activity I (I.Answer r) :=
  .perform r .done

def memory : Activity I I.Memory :=
  .touch id fun _ m => .done m

def clock : Activity I Nat :=
  .touch id fun now _ => .done now

def modify (change : I.Memory → I.Memory) : Activity I Unit :=
  .touch change fun _ _ => .done ()

def sleep (span : Nat) : Activity I Unit :=
  .pause span (.done ())

def await (ready : I.Memory → Bool) : Activity I Unit :=
  .waitUntil ready (.done ())

/-- Run activities side by side, at most `limit` at a time and started in order: a join of all of them,
each behind a permit of a semaphore that has `limit` permits. -/
def joinBounded (limit : Nat) (members : List (Activity I β)) : Activity I (List β) :=
  .join limit (.ofList members) .done

/-- Run activities side by side, all started at once. -/
def joinAll (members : List (Activity I β)) : Activity I (List β) :=
  joinBounded members.length members

def tryBoth (left : Activity I (Except ε β)) (right : Activity I (Except ε γ)) :
    Activity I (Except ε (β × γ)) :=
  .tryPair left right .done

def both (left : Activity I β) (right : Activity I γ) : Activity I (β × γ) :=
  .tryPair (left.bind fun b => .done (.ok b : Except Empty β)) (right.bind fun c => .done (.ok c))
    fun
    | .ok values => .done values

end Activity

end ChainWatch.Concurrency
