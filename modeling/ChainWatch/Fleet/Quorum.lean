import ChainWatch.Fleet.Endpoint
import ChainWatch.Fleet.Reading

/-!
# Reading through a fleet

A read asks all endpoints at once and fails only when none of them gives a complete answer. Of several
answers the freshest counts; this is not a vote. The fleet starts with the first read: every other read
waits until each endpoint has been started and pointed at the chain source known by then.
-/

namespace ChainWatch

open Concurrency

/-- The endpoints in fleet order. There is at least one. -/
structure Fleet where
  endpoints : List Endpoint
  nonempty : endpoints ≠ []
  ordered : endpoints.Pairwise fun a b => a.position < b.position

abbrev FleetJob (α : Type) : Type 1 := ExceptT FleetFault Job α

namespace Fleet

/-- Endpoints with consecutive places, counted from `first`. -/
def numbered (settings : EndpointSettings) : Nat → List (String × NodeRole) → List Endpoint
  | _, [] => []
  | first, (name, role) :: rest => ⟨first, name, role, settings⟩ :: numbered settings (first + 1) rest

theorem le_position_of_mem_numbered {settings : EndpointSettings} {first : Nat}
    {nodes : List (String × NodeRole)} {e : Endpoint} (h : e ∈ numbered settings first nodes) :
    first ≤ e.position := by
  induction nodes generalizing first with
  | nil => simp [numbered] at h
  | cons node rest ih =>
    rcases List.mem_cons.1 h with h | h
    · subst h
      exact Nat.le_refl _
    · exact Nat.le_of_succ_le (ih h)

theorem pairwise_numbered (settings : EndpointSettings) (first : Nat)
    (nodes : List (String × NodeRole)) :
    (numbered settings first nodes).Pairwise fun a b => a.position < b.position := by
  induction nodes generalizing first with
  | nil => exact List.Pairwise.nil
  | cons node rest ih =>
    exact List.Pairwise.cons (fun e h => le_position_of_mem_numbered h) (ih (first + 1))

def ofNodes (settings : EndpointSettings) (nodes : List (String × NodeRole)) :
    Except FleetFault Fleet :=
  if h : numbered settings 0 nodes = [] then .error .empty
  else .ok ⟨numbered settings 0 nodes, h, pairwise_numbered settings 0 nodes⟩

def size (fleet : Fleet) : Nat := fleet.endpoints.length

def healthyCount (fleet : Fleet) (state : State) : Nat :=
  fleet.endpoints.countP fun e => state.isHealthy e.position

/-- Start an endpoint and point it at the chain source, if there is one. What fails here is left to the
health pass. -/
def startEndpoint (forkUrl : String) (e : Endpoint) : Job Unit := do
  match ← e.start with
  | .error _ => return
  | .ok _ =>
    if e.role.isManaged && forkUrl != "" then
      let _ ← (e.reset forkUrl).run

def start (fleet : Fleet) : Job Unit := do
  let state ← Activity.memory (I := system)
  let _ ← Activity.joinAll (fleet.endpoints.map (startEndpoint state.forkUrl))

/-- Start the fleet if nobody has, and wait until it has started. -/
def ensureStarted (fleet : Fleet) : Job Unit :=
  .touch
    (fun state => if state.start = .idle then { state with start := .running } else state)
    fun _ before =>
      match before.start with
      | .idle => do
        fleet.start
        Activity.modify (I := system) fun state => { state with start := .complete }
      | .running => Activity.await (I := system) fun state => state.start = .complete
      | .complete => return

def blockNumber (fleet : Fleet) : FleetJob Nat :=
  ExceptT.mk do
    fleet.ensureStarted
    let answers ← Activity.joinAll (fleet.endpoints.map fun e => e.blockNumber.run)
    match (answers.filterMap Except.toOption).max? with
    | some height => return .ok height
    | none => return .error .blockNumber

/-- What an endpoint contributes to the read of a view: its answer, and its height read beside it. -/
def readView (address : Address) (contract : Abi.Contract) (method : String)
    (inputs : List Abi.Value) (e : Endpoint) : Job (Reading (List Abi.Value)) := do
  let (value, height) ←
    Activity.both (e.callView address contract method inputs).run e.blockNumber.run
  return ⟨e.position, value.toOption, height.toOption⟩

def callView (fleet : Fleet) (address : Address) (contract : Abi.Contract) (method : String)
    (inputs : List Abi.Value) : FleetJob (List Abi.Value) :=
  ExceptT.mk do
    fleet.ensureStarted
    let readings ←
      Activity.joinAll (fleet.endpoints.map (readView address contract method inputs))
    match Reading.freshest readings with
    | some best => return .ok best.value
    | none => return .error (.viewCall address method)

/-- The proxy information of the first endpoint that can tell. -/
def proxyInfo (fleet : Fleet) (address : Address) : FleetJob ProxyInfo :=
  ExceptT.mk do
    fleet.ensureStarted
    let answers ← Activity.joinAll (fleet.endpoints.map fun e => (e.proxyInfo address).run)
    match answers.findSome? Except.toOption with
    | some info => return .ok info
    | none => return .error (.proxyInfo address)

/-- Point the managed endpoints at another chain source: at once if the fleet has started, with its
start otherwise. -/
def repoint (fleet : Fleet) (forkUrl : String) : Job Unit :=
  .touch (fun state => { state with forkUrl }) fun _ before =>
    if before.start = .complete then do
      let managed := fleet.endpoints.filter (·.role.isManaged)
      let _ ← Activity.joinAll (managed.map fun e => (e.reset forkUrl).run)
    else return

end Fleet

end ChainWatch
