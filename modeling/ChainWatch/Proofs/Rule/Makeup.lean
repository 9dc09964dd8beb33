import ChainWatch.Proofs.Fleet.Service
import ChainWatch.Proofs.Rule.Collection

/-!
# What rules are made of

The rules that there are consist of reads through the fleet and lookups of interfaces, one after the
other or side by side. From this follows what they can do at most, and that their evaluation always
comes to an end: whichever read is the first one starts the fleet, and all others wait for nothing
else.
-/

namespace ChainWatch

open Concurrency

/-! ## Queries and lookups -/

theorem Fleet.awaits_query (fleet : Fleet) (r : Read) : (fleet.query r).run.Awaits Started := by
  rw [query_eq]
  exact fleet.awaits_ensureStarted.bind fun _ =>
    Activity.awaits_of_waitFree (waitFree_of_acts (fleet.confined_querying r))

theorem Explorer.waitFree_lookup (explorer : Explorer) (a : Address) :
    (explorer.lookup a).run.WaitFree := by
  refine confined_exceptT_bind
    (confined_lift (Activity.confined_memory fun _ => nofun)) fun m => ?_
  dsimp only
  split
  · exact confined_exceptT_pure _
  · split
    · exact confined_throw _
    · refine confined_exceptT_bind (confined_lift
        (Activity.confined_request nofun fun _ => nofun)) fun outcome => ?_
      split
      · exact confined_throw _
      · exact confined_exceptT_bind (confined_lift (Activity.confined_modify fun _ => nofun))
          fun _ => confined_exceptT_pure _

namespace RuleContext

/-- The job consists of reads through the fleet and of lookups. -/
inductive Uses (context : RuleContext) : {α : Type} → Job α → Prop where
  | pure {α : Type} (value : α) : Uses context (Pure.pure value)
  | query (r : Read) : Uses context (context.fleet.query r).run
  | lookup (a : Address) : Uses context (context.explorer.lookup a).run
  | bind {α β : Type} {p : Job α} {f : α → Job β} (hp : Uses context p)
    (hf : ∀ value, Uses context (f value)) : Uses context (p >>= f)
  | join {β : Type} {limit : Nat} {members : List (Job β)} (hl : members ≠ [] → 0 < limit)
    (hm : ∀ member ∈ members, Uses context member) :
    Uses context (Activity.joinBounded limit members)

/-- What jobs of rules do: what reads do, and what lookups do besides. -/
inductive Works (context : RuleContext) : Event system → Prop where
  | served {event : Event system} (h : context.fleet.Serves event) : Works context event
  | sent (url : String) : Works context (.sent (.explore url))
  | answered (url : String) (answer : Http.Outcome) :
    Works context (.answered (.explore url) answer)
  | learned (m : State) (a : Address) (text : String) :
    Works context (.touched m { m with abis := m.abis.insert a text })

variable {context : RuleContext} {α β ε : Type}

/-! ### What lookups do -/

theorem works_found (context : RuleContext) (m : State) : context.Works (.touched m m) :=
  .served (.acted (context.fleet.acts_found m))

theorem confined_lookup (a : Address) : (context.explorer.lookup a).run.Confined context.Works := by
  refine confined_exceptT_bind
    (confined_lift (Activity.confined_memory context.works_found)) fun m => ?_
  dsimp only
  split
  · exact confined_exceptT_pure _
  · split
    · exact confined_throw _
    · refine confined_exceptT_bind (confined_lift
        (Activity.confined_request (.sent _) fun answer => .answered _ answer)) fun outcome => ?_
      split
      · exact confined_throw _
      · exact confined_exceptT_bind
          (confined_lift (Activity.confined_modify fun m => .learned m a _))
          fun _ => confined_exceptT_pure _

theorem timeless_lookup (a : Address) :
    (context.explorer.lookup a).run.Timeless Request.IsService := by
  refine timeless_exceptT_bind (timeless_lift Activity.timeless_memory) fun m => ?_
  dsimp only
  split
  · exact timeless_exceptT_pure _
  · split
    · exact timeless_throw _
    · refine timeless_exceptT_bind (timeless_lift (Activity.timeless_request trivial))
        fun outcome => ?_
      split
      · exact timeless_throw _
      · exact timeless_exceptT_bind (timeless_lift (Activity.timeless_modify _))
          fun _ => timeless_exceptT_pure _

/-! ### What follows from the makeup -/

theorem Works.spares {event : Event system} (h : context.Works event) : event.Spares Fleet.Started := by
  cases h with
  | served h => exact h.spares
  | learned m a text => exact id
  | _ => trivial

namespace Uses

variable {p : Job α}

theorem confined (h : context.Uses p) : p.Confined context.Works := by
  induction h with
  | pure value => exact Activity.confined_pure value
  | query r => exact (context.fleet.confined_query r).mono fun _ h => .served h
  | lookup a => exact confined_lookup a
  | bind _ _ hp hf => exact hp.bind hf
  | @join β limit members hl _ hm =>
      cases members with
      | nil => exact ⟨nofun, trivial, fun _ => trivial⟩
      | cons member members => exact Activity.confined_joinBounded (hl (by simp)) hm

theorem awaits (h : context.Uses p) : p.Awaits Fleet.Started := by
  induction h with
  | pure value => exact Activity.awaits_pure value
  | query r => exact context.fleet.awaits_query r
  | lookup a => exact Activity.awaits_of_waitFree (context.explorer.waitFree_lookup a)
  | bind _ _ hp hf => exact hp.bind hf
  | @join β limit members hl _ hm =>
      cases members with
      | nil => exact ⟨nofun, trivial, fun _ => trivial⟩
      | cons member members => exact Activity.awaits_joinBounded (hl (by simp)) hm

theorem timeless (h : context.Uses p) : p.Timeless Request.IsService := by
  induction h with
  | pure value => exact Activity.timeless_pure value
  | query r => exact context.fleet.timeless_query r
  | lookup a => exact timeless_lookup a
  | bind _ _ hp hf => exact hp.bind hf
  | join hl _ hm => exact Activity.timeless_joinBounded hl hm

theorem spares (h : context.Uses p) : p.Confined (Event.Spares Fleet.Started) :=
  h.confined.mono fun _ h => h.spares

end Uses

/-! ### Jobs that may fail -/

variable {x : ExceptT ε Job α} {f : α → ExceptT ε Job β}

theorem uses_exceptT_pure (value : α) :
    context.Uses (pure value : ExceptT ε Job α).run :=
  .pure _

theorem uses_throw (e : ε) : context.Uses (throw e : ExceptT ε Job α).run :=
  .pure _

theorem uses_exceptT_bind (hx : context.Uses x.run) (hf : ∀ value, context.Uses (f value).run) :
    context.Uses (x >>= f).run := by
  rw [ExceptT.run_bind]
  refine hx.bind fun outcome => ?_
  cases outcome with
  | error e => exact .pure _
  | ok value => exact hf value

theorem uses_lift {p : Job α} (hp : context.Uses p) :
    context.Uses (liftM p : ExceptT ε Job α).run :=
  hp.bind fun _ => .pure _

theorem uses_adapt {ε' : Type} (g : ε → ε') (hx : context.Uses x.run) :
    context.Uses (x.adapt g).run :=
  hx.bind fun _ => .pure _

/-! ### Jobs that begin with a read -/

/-- The job begins with a read through the fleet, and goes on with reads and lookups. -/
def StartsWithRead (context : RuleContext) (p : Job α) : Prop :=
  ∃ (r : Read) (next : Except FleetFault r.Value → Job α),
    (∀ answer, context.Uses (next answer)) ∧ p = (context.fleet.query r).run >>= next

theorem StartsWithRead.uses {p : Job α} (h : context.StartsWithRead p) : context.Uses p := by
  obtain ⟨r, next, hn, rfl⟩ := h
  exact .bind (.query r) hn

/-- Unless somebody else is busy with the start of the fleet, such a job ends. -/
theorem StartsWithRead.exists_value {σ : Type} {p : Job α} (hp : context.StartsWithRead p)
    (h : Handler system σ) (now : Nat) (w : World system σ) (hs : w.memory.start ≠ .running) :
    ∃ value, (p.run h now w).value? = some value := by
  have uses := hp.uses
  obtain ⟨r, next, hn, heq⟩ := hp
  rw [Fleet.query_eq, bind_assoc] at heq
  have spares : (context.fleet.querying r >>= next).Confined (Event.Spares Fleet.Started) :=
    ((context.fleet.confined_querying r).mono fun _ h => h.serves.spares).bind
      fun answer => (hn answer).spares
  refine Activity.exists_value_of_promises h now w uses.awaits uses.spares ?_
  rw [heq]
  exact Fleet.promises_ensureStarted (fun _ => spares) h now w hs

theorem StartsWithRead.bind {p : Job α} {g : α → Job β} (h : context.StartsWithRead p)
    (hg : ∀ value, context.Uses (g value)) : context.StartsWithRead (p >>= g) := by
  obtain ⟨r, next, hn, rfl⟩ := h
  exact ⟨r, fun answer => next answer >>= g, fun answer => (hn answer).bind hg, bind_assoc ..⟩

theorem startsWithRead_exceptT_bind (hx : context.StartsWithRead x.run)
    (hf : ∀ value, context.Uses (f value).run) : context.StartsWithRead (x >>= f).run := by
  rw [ExceptT.run_bind]
  refine hx.bind fun outcome => ?_
  cases outcome with
  | error e => exact .pure _
  | ok value => exact hf value

/-! ### The rules that there are -/

theorem uses_callView (address : Address) (contract : Abi.Contract) (method : String)
    (inputs : List Abi.Value) : context.Uses (context.callView address contract method inputs).run :=
  uses_adapt _ (.query (.view address contract method inputs))

theorem startsWithRead_loadContract (context : RuleContext) (a : Address) :
    context.StartsWithRead (context.loadContract a).run := by
  have first : context.StartsWithRead ((context.fleet.proxyInfo a).adapt RuleFault.fleet).run :=
    ⟨.proxy a, fun answer => pure (answer.mapError .fleet), fun _ => .pure _, rfl⟩
  refine startsWithRead_exceptT_bind first fun info => ?_
  refine uses_exceptT_bind (uses_adapt _ (.lookup _)) fun text => ?_
  split
  · exact uses_exceptT_pure _
  · exact uses_throw _

theorem uses_loadContract (a : Address) : context.Uses (context.loadContract a).run :=
  (context.startsWithRead_loadContract a).uses

end RuleContext

open RuleContext

variable {context : RuleContext}

theorem ThresholdSpec.startsWithRead_observe (spec : ThresholdSpec) (context : RuleContext) :
    context.StartsWithRead (spec.observe context).run := by
  refine startsWithRead_exceptT_bind (context.startsWithRead_loadContract _) fun contract => ?_
  refine uses_exceptT_bind (uses_callView ..) fun outputs => ?_
  refine uses_exceptT_bind (.pure _) fun value => ?_
  dsimp only
  split
  · exact uses_exceptT_pure _
  · have acting (target : Abi.Contract) : context.Uses (do
        let data ← ExceptT.mk (pure (target.encodeAction spec.action value))
        return some (value, data) : RuleJob (Option (Word × Bytes))).run :=
      uses_exceptT_bind (.pure _) fun data => uses_exceptT_pure _
    split
    · exact uses_exceptT_bind (uses_exceptT_pure _) acting
    · exact uses_exceptT_bind (uses_loadContract _) acting

theorem ThresholdSpec.startsWithRead_evaluate (spec : ThresholdSpec) (owner : RuleMeta)
    (context : RuleContext) (box : Outbox) :
    context.StartsWithRead ((spec.rule owner context).evaluate box) := by
  refine (spec.startsWithRead_observe context).bind fun observed => ?_
  split <;> exact .pure _

theorem SweepSpec.uses_check (spec : SweepSpec) (contract : Abi.Contract) (id : Word) :
    context.Uses (spec.check context contract id).run := by
  refine uses_exceptT_bind (uses_callView ..) fun outputs => ?_
  split
  · exact uses_exceptT_pure _
  · exact uses_throw _

theorem uses_runBatch {ε α : Type} {limit : Nat} {tasks : List (Job (Except ε α))} (hl : 0 < limit)
    (ht : ∀ task ∈ tasks, context.Uses task) : context.Uses (Batch.run? limit tasks) := by
  unfold Batch.run?
  split
  · exact .pure _
  · exact .bind (.join (fun _ => hl) ht) fun results => .pure _

theorem SweepSpec.startsWithRead_observe (spec : SweepSpec) {limit : Nat} (hl : 0 < limit)
    (context : RuleContext) : context.StartsWithRead (spec.observe limit context).run := by
  refine startsWithRead_exceptT_bind (context.startsWithRead_loadContract _) fun contract => ?_
  refine uses_exceptT_bind (uses_callView ..) fun outputs => ?_
  refine uses_exceptT_bind (.pure _) fun ids => ?_
  dsimp only
  split
  · exact uses_exceptT_pure _
  · refine uses_exceptT_bind (uses_lift (uses_runBatch hl fun task ht => ?_)) fun outcome => ?_
    · obtain ⟨id, -, rfl⟩ := List.mem_map.mp ht
      exact spec.uses_check contract id
    · split
      · exact uses_throw _
      · rename_i outcome
        have acting : context.Uses (if spec.actor = spec.contract then do
              let target ← pure contract
              return some (passing outcome, target)
            else do
              let target ← context.loadContract spec.actor
              return some (passing outcome, target) :
            RuleJob (Option (List Word × Abi.Contract))).run := by
          split
          · exact uses_exceptT_pure _
          · exact uses_exceptT_bind (uses_loadContract _) fun target => uses_exceptT_pure _
        split
        · exact uses_exceptT_bind (uses_throw _) fun _ => acting
        · exact acting

theorem SweepSpec.startsWithRead_evaluate (spec : SweepSpec) (owner : RuleMeta) {limit : Nat}
    (hl : 0 < limit) (context : RuleContext) (box : Outbox) :
    context.StartsWithRead ((spec.rule owner limit context).evaluate box) := by
  refine (spec.startsWithRead_observe hl context).bind fun observed => ?_
  split <;> exact .pure _

theorem Batch.limit_pos (requested : Nat) : 0 < Batch.limit requested :=
  Nat.le_max_left 1 requested

/-- Every rule of the standard factory begins with a read. -/
theorem RuleFactory.startsWithRead_of_standard {defaultLimit : Nat} {entry : RuleEntry} {rule : Rule}
    (h : RuleFactory.standard context defaultLimit entry = .ok rule) (box : Outbox) :
    context.StartsWithRead (rule.evaluate box) := by
  unfold RuleFactory.standard at h
  split at h
  · cases h
  · split at h
    · cases h
    · cases h
      exact ThresholdSpec.startsWithRead_evaluate _ _ _ _
  · split at h
    · cases h
    · cases h
      exact SweepSpec.startsWithRead_evaluate _ _ (Batch.limit_pos _) _ _

/-! ## Evaluations -/

/-- All rules begin with a read. -/
def RuleContext.Suits (context : RuleContext) (rules : List Rule) : Prop :=
  ∀ rule ∈ rules, ∀ box, context.StartsWithRead (rule.evaluate box)

theorem RuleFactory.suits_load (context : RuleContext) (defaultLimit : Nat)
    (entries : List RuleEntry) :
    context.Suits ((RuleFactory.standard context defaultLimit).load entries) := by
  intro rule hr box
  obtain ⟨entry, -, hb⟩ := RuleFactory.exists_entry_of_mem_load hr
  exact startsWithRead_of_standard hb box

namespace Rule

variable {rules : List Rule}

theorem uses_evaluateAll (hr : context.Suits rules) : context.Uses (evaluateAll rules) := by
  refine .bind (.join (fun hn => ?_) fun member hm => ?_) fun outcomes => .pure _
  · exact List.length_pos_of_ne_nil hn
  · obtain ⟨rule, hrule, rfl⟩ := List.mem_map.mp hm
    exact (hr rule hrule _).uses

/-- Unless somebody else is busy with the start, an evaluation ends, and nobody is busy with it then. -/
theorem exists_report_of_suits {σ : Type} (hr : context.Suits rules) (h : Handler system σ)
    (now : Nat) (w : World system σ) (hs : w.memory.start ≠ .running) :
    (∃ report, ((evaluateAll rules).run h now w).value? = some report) ∧
      ((evaluateAll rules).run h now w).world.memory.start ≠ .running := by
  cases rules with
  | nil =>
      have ended : (evaluateAll []).run h now w = ⟨some .empty, now, w⟩ := by
        rw [← Activity.run_poll]
        exact Activity.run_done h now _ w
      rw [ended]
      exact ⟨⟨_, rfl⟩, hs⟩
  | cons first others =>
      have members : ∀ p ∈ (first :: others).map fun rule => rule.evaluate (.empty rule.owner),
          p.Awaits Fleet.Started ∧ p.Confined (Event.Spares Fleet.Started) := by
        intro p hp
        obtain ⟨rule, hrule, rfl⟩ := List.mem_map.mp hp
        exact ⟨(hr rule hrule _).uses.awaits, (hr rule hrule _).uses.spares⟩
      obtain ⟨r, next, hn, heq⟩ := hr first (by simp) (.empty first.owner)
      rw [Fleet.query_eq, bind_assoc] at heq
      have spares : (context.fleet.querying r >>= next).Confined (Event.Spares Fleet.Started) :=
        ((context.fleet.confined_querying r).mono fun _ h => h.serves.spares).bind
          fun answer => (hn answer).spares
      obtain ⟨⟨outcomes, hv⟩, hstarted⟩ :=
        Fleet.exists_values_of_starting heq (fun _ => spares) members h now w hs
      have ended : (evaluateAll (first :: others)).run h now w = _ := Activity.run_bind_of_value hv
      rw [ended, show (pure _ : Job CycleReport) = .done _ from rfl, Activity.run_done]
      exact ⟨⟨_, rfl⟩, hstarted.ne_running⟩

end Rule

end ChainWatch
