import ChainWatch.Proofs.Fleet.Endpoint

/-!
# The start of a fleet

The first read starts the fleet: side by side, each endpoint is started and then pointed at the chain
source that was known when the start began. Every other read waits until that is over.
-/

namespace ChainWatch

open Concurrency

variable {fleet : Fleet} {trace : Trace system} {asks : Request → Prop}

theorem Endpoint.waitFree_of_acts {α : Type} {e : Endpoint} {p : Job α}
    (hp : p.Confined (e.Acts asks)) : p.WaitFree :=
  hp.mono fun event he m heq => by
    rw [heq] at he
    cases he

namespace Fleet

/-- What the endpoints of a fleet do by themselves, when they send such requests only. -/
def Acts (fleet : Fleet) (asks : Request → Prop) (event : Event system) : Prop :=
  ∃ e ∈ fleet.endpoints, e.Acts asks event

theorem acts_found (fleet : Fleet) (m : State) : fleet.Acts asks (.touched m m) := by
  obtain ⟨e, he⟩ := List.exists_mem_of_ne_nil _ fleet.nonempty
  exact ⟨e, he, .found m⟩

theorem waitFree_of_acts {α : Type} {p : Job α} (hp : p.Confined (fleet.Acts asks)) :
    p.WaitFree :=
  hp.mono fun event he m heq => by
    obtain ⟨e, -, ha⟩ := he
    rw [heq] at ha
    cases ha

theorem nodup_positions (fleet : Fleet) : (fleet.endpoints.map (·.position)).Nodup :=
  List.pairwise_map.mpr (fleet.ordered.imp fun h => Nat.ne_of_lt h)

theorem nodup_endpoints (fleet : Fleet) : fleet.endpoints.Nodup :=
  fleet.nodup_positions.of_map

theorem eq_of_position_eq (fleet : Fleet) {e e' : Endpoint} (he : e ∈ fleet.endpoints)
    (he' : e' ∈ fleet.endpoints) (hp : e.position = e'.position) : e = e' :=
  List.inj_on_of_nodup_map fleet.nodup_positions he he' hp

/-- An endpoint with a container, alone in its fleet. -/
def soloist : Endpoint := ⟨0, "solo", .managed ⟨"solo", "image", [], []⟩, ⟨1, 0, 0⟩⟩

def solo : Fleet where
  endpoints := [soloist]
  nonempty := by simp
  ordered := by simp

/-! ## Endpoints side by side -/

/-- Among endpoints that work side by side each one finds its own flag as it has left it. -/
theorem exists_runs_of_endpoints {β : Type} [Nonempty β] {endpoints : List Endpoint}
    (hs : endpoints.Sublist fleet.endpoints) {job : Endpoint → Job β}
    {asks : Endpoint → Request → Prop}
    (hj : ∀ e ∈ endpoints, (job e).Confined (e.Acts (asks e))) {values : List β}
    (hr : (Activity.joinAll (endpoints.map job)).Runs trace (some values)) :
    ∃ (own : Endpoint → Trace system) (value : Endpoint → β),
      (∀ e ∈ endpoints, (job e).Runs (own e) (some (value e))) ∧
      Shuffles (endpoints.map own) trace ∧ values = endpoints.map value ∧
      ∀ e ∈ endpoints, ∀ x y, trace.Follows e.flag x y → (own e).Follows e.flag x y := by
  have hd : endpoints.Nodup := fleet.nodup_endpoints.sublist hs
  obtain ⟨own, value, hown, hw, hv⟩ := Activity.exists_runs_of_joinAll hd hr
  refine ⟨own, value, hown, hw, hv, fun e he x y hf => hw.follows hd he (fun e' he' hne => ?_) hf⟩
  refine Endpoint.keeps_of_acts ((hj e' he').runs (hown e' he')) fun m healthy => ?_
  refine Endpoint.flag_mark_of_ne (fun hp => hne ?_) m healthy
  exact fleet.eq_of_position_eq (hs.subset he') (hs.subset he) hp.symm

/-- Endpoints that are not among those at work keep their flags. -/
theorem flag_of_others {endpoints : List Endpoint} (hs : endpoints.Sublist fleet.endpoints)
    {own : Endpoint → Trace system} {asks : Endpoint → Request → Prop}
    (hw : Shuffles (endpoints.map own) trace)
    (ha : ∀ e ∈ endpoints, ∀ event ∈ own e, e.Acts (asks e) event) {e : Endpoint}
    (he : e ∈ fleet.endpoints) (hn : e ∈ endpoints → own e = []) {x y : Bool}
    (hf : trace.Follows e.flag x y) : y = x := by
  refine hf.eq_of_keeps (hw.keeps fun part hp => ?_)
  obtain ⟨e', he', rfl⟩ := List.mem_map.mp hp
  by_cases heq : e' = e
  · subst heq
    rw [hn he']
    intro before after hm
    cases hm
  · refine Endpoint.keeps_of_acts (ha e' he') fun m healthy =>
      Endpoint.flag_mark_of_ne (fun hp => heq ?_) m healthy
    exact fleet.eq_of_position_eq (hs.subset he') he hp.symm

/-! ## The start -/

theorem confined_startEndpoint {source : String} {e : Endpoint}
    (hc : ∀ r, asks (.container e.position r)) (hb : asks (.chain e.position .blockNumber))
    (hr : asks (.chain e.position (.reset source))) :
    (startEndpoint source e).Confined (e.Acts asks) := by
  refine (Endpoint.confined_start hc hb).bind fun started => ?_
  cases started with
  | error fault => exact Activity.confined_pure ()
  | ok _ =>
      dsimp only
      split
      · exact (Endpoint.confined_reset hr hb).bind fun _ => Activity.confined_pure ()
      · exact Activity.confined_pure ()

theorem confined_joinAll {β : Type} {endpoints : List Endpoint} {job : Endpoint → Job β}
    (hs : ∀ e ∈ endpoints, e ∈ fleet.endpoints)
    (hj : ∀ e ∈ endpoints, (job e).Confined (e.Acts asks)) :
    (Activity.joinAll (endpoints.map job)).Confined (fleet.Acts asks) := by
  refine Activity.confined_joinAll fun member hm => ?_
  obtain ⟨e, he, rfl⟩ := List.mem_map.mp hm
  exact (hj e he).mono fun event ha => ⟨e, hs e he, ha⟩

theorem confined_start (fleet : Fleet) : fleet.start.Confined (fleet.Acts fun _ => True) := by
  refine (Activity.confined_memory fleet.acts_found).bind fun state => ?_
  exact (confined_joinAll (fun _ he => he) fun e _ =>
    confined_startEndpoint (fun _ => trivial) trivial trivial).bind fun _ =>
      Activity.confined_pure ()

/-- An endpoint whose start failed is left alone; a managed one that started is reset, unless there is
no source to follow. -/
theorem runs_startEndpoint_some {source : String} {e : Endpoint}
    (hr : (startEndpoint source e).Runs trace (some ())) :
    ∃ early late outcome, e.start.run.Runs early (some outcome) ∧ trace = early ++ late ∧
      if outcome.isOk ∧ e.role.isManaged ∧ source ≠ "" then
        ∃ reset, (e.reset source).run.Runs late (some reset)
      else late = [] := by
  obtain ⟨outcome, early, late, hs, hl, rfl⟩ := Activity.runs_bind_some.mp hr
  refine ⟨early, late, outcome, hs, rfl, ?_⟩
  cases outcome with
  | error fault =>
      rw [if_neg (by simp [Except.isOk, Except.toBool])]
      exact (Activity.runs_pure_some.mp hl).1
  | ok u =>
      dsimp only at hl
      split at hl
      · rename_i hreset
        rw [if_pos (by simpa [Except.isOk, Except.toBool] using hreset)]
        obtain ⟨reset, late, last, hrun, hp, rfl⟩ := Activity.runs_bind_some.mp hl
        obtain ⟨rfl, -⟩ := Activity.runs_pure_some.mp hp
        exact ⟨reset, by simpa using hrun⟩
      · rename_i hreset
        rw [if_neg (by simpa [Except.isOk, Except.toBool] using hreset)]
        exact (Activity.runs_pure_some.mp hl).1

theorem runs_start_some (hr : fleet.start.Runs trace (some ())) :
    ∃ m rest results, trace = .touched m m :: rest ∧
      (Activity.joinAll (fleet.endpoints.map (startEndpoint m.forkUrl))).Runs rest
        (some results) := by
  obtain ⟨m, found, rest, hm, hl, rfl⟩ := Activity.runs_bind_some.mp hr
  obtain ⟨results, rest, last, hj, hp, rfl⟩ := Activity.runs_bind_some.mp hl
  obtain ⟨rfl, -⟩ := Activity.runs_pure_some.mp hp
  rw [Activity.runs_memory_some.mp hm]
  exact ⟨m, rest, results, by simp, hj⟩

theorem runs_ensureStarted_of_idle {m m' : State}
    (hr : fleet.ensureStarted.Runs trace (some ())) (hf : trace.Follows id m m')
    (hs : m.start = .idle) :
    ∃ rest results last, trace = .touched m { m with start := .running } ::
        .touched { m with start := .running } { m with start := .running } ::
          (rest ++ [.touched last { last with start := .complete }]) ∧
      (Activity.joinAll (fleet.endpoints.map (startEndpoint m.forkUrl))).Runs rest
        (some results) ∧
      Trace.Follows id rest { m with start := .running } last ∧
      m' = { last with start := .complete } := by
  obtain ⟨⟨now, found⟩, later, rfl, hl⟩ := begins_some.mp hr
  obtain rfl : found = m := hf.1
  dsimp only at hl hf
  rw [if_pos hs] at hf
  rw [hs] at hl
  obtain ⟨⟨⟩, starting, ending, hstart, hend, rfl⟩ := Activity.runs_bind_some.mp hl
  obtain ⟨found', rest, results, rfl, hj⟩ := runs_start_some hstart
  obtain ⟨last, rfl⟩ := Activity.runs_modify_some.mp hend
  obtain ⟨hfound, hf⟩ := hf.2
  obtain rfl : found' = { found with start := .running } := hfound
  obtain ⟨middle, hrest, hlast⟩ := Trace.follows_append.mp hf
  obtain rfl : last = middle := hlast.1
  exact ⟨rest, results, last, by simp [hs], hj, hrest, hlast.2⟩

/-- What follows the start of the fleet is reached unless somebody else is busy with the start. -/
theorem exists_value_of_ensureStarted {α σ : Type} {rest : Unit → Job α}
    (hr : ∀ u, (rest u).WaitFree) (h : Handler system σ) (now : Nat) (w : World system σ)
    (hs : w.memory.start ≠ .running) :
    ∃ value, ((fleet.ensureStarted >>= rest).run h now w).value? = some value := by
  apply Activity.exists_value_of_touch
  refine Activity.Confined.bind ?_ hr
  dsimp only
  cases hm : w.memory.start with
  | idle =>
      exact (waitFree_of_acts fleet.confined_start).bind fun _ =>
        Activity.confined_modify fun _ => nofun
  | running => exact (hs hm).elim
  | complete => exact Activity.confined_pure ()

end Fleet

end ChainWatch
