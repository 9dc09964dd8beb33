import ChainWatch.Proofs.Fleet.Recovery
import ChainWatch.Proofs.Fleet.Replies

/-!
# What work on a fleet asks for

Reads and health passes ask nodes and their containers, and nobody else; and what they do does not
depend on when they begin.
-/

namespace ChainWatch

open Concurrency

/-- A request for some service: of a node, of the engine that runs containers, or of an explorer. -/
def Request.IsService : Request → Prop
  | .chain _ _ => True
  | .container _ _ => True
  | .explore _ => True
  | .deliver _ => False
  | .enqueue _ => False

namespace Endpoint

variable {e : Endpoint}

theorem uses_startEndpoint (source : String) :
    e.Uses Request.IsService (Fleet.startEndpoint source e) := by
  refine .bind (uses_start (fun _ => trivial) trivial) fun started => ?_
  cases started with
  | error fault => exact .pure ()
  | ok _ =>
      dsimp only
      split
      · exact .bind (uses_reset trivial trivial) fun _ => .pure ()
      · exact .pure ()

theorem uses_readView (address : Address) (contract : Abi.Contract) (method : String)
    (inputs : List Abi.Value) :
    e.Uses Request.IsService (Fleet.readView address contract method inputs e) :=
  .bind (.both (uses_callView fun _ => trivial) (uses_ask trivial)) fun _ => .pure _

theorem uses_attemptRecovery : e.Uses Request.IsService (Fleet.attemptRecovery e) :=
  .bind (uses_recover (fun _ => trivial) trivial) fun _ => .pure _

end Endpoint

namespace Fleet

variable {fleet : Fleet}

theorem timeless_joinAll {β : Type} {endpoints : List Endpoint} {job : Endpoint → Job β}
    (hj : ∀ e : Endpoint, e.Uses Request.IsService (job e)) :
    (Activity.joinAll (endpoints.map job)).Timeless Request.IsService := by
  refine Activity.timeless_joinAll fun member hm => ?_
  obtain ⟨e, -, rfl⟩ := List.mem_map.mp hm
  exact (hj e).timeless

theorem timeless_start (fleet : Fleet) : fleet.start.Timeless Request.IsService :=
  Activity.timeless_memory.bind fun _ =>
    (timeless_joinAll fun _ => Endpoint.uses_startEndpoint _).bind fun _ => Activity.timeless_pure ()

theorem timeless_ensureStarted (fleet : Fleet) : fleet.ensureStarted.Timeless Request.IsService := by
  refine ⟨fun _ _ _ => rfl, fun now m => ?_⟩
  dsimp only
  split
  · exact fleet.timeless_start.bind fun _ => Activity.timeless_modify _
  · exact Activity.timeless_await _
  · exact Activity.timeless_pure ()

theorem timeless_querying (fleet : Fleet) (r : Read) :
    (fleet.querying r).Timeless Request.IsService := by
  cases r with
  | blockNumber =>
      exact (timeless_joinAll fun _ => Endpoint.uses_ask trivial).bind fun _ =>
        Activity.timeless_pure _
  | view address contract method inputs =>
      exact (timeless_joinAll fun _ => Endpoint.uses_readView ..).bind fun _ =>
        Activity.timeless_pure _
  | proxy address =>
      exact (timeless_joinAll fun _ => Endpoint.uses_proxyInfo fun _ => trivial).bind fun _ =>
        Activity.timeless_pure _

theorem timeless_query (fleet : Fleet) (r : Read) :
    (fleet.query r).run.Timeless Request.IsService := by
  rw [query_eq]
  exact fleet.timeless_ensureStarted.bind fun _ => fleet.timeless_querying r

theorem timeless_recoverAll (fleet : Fleet) : fleet.recoverAll.Timeless Request.IsService :=
  Activity.timeless_memory.bind fun _ =>
    (timeless_joinAll fun _ => Endpoint.uses_attemptRecovery).bind fun _ => Activity.timeless_pure _

end Fleet

end ChainWatch
