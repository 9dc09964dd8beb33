import ChainWatch.Fleet.Health
import ChainWatch.Proofs.Fleet.Pointing
import ChainWatch.Proofs.Fleet.Reset

/-!
# Health passes

A health pass tries once to bring back each endpoint that is flagged as down, and it leaves the others
alone. However the attempts interleave and wherever they fail, those that are flagged as down afterwards
are those whose attempt has failed. The report counts them, and it is an escalation when nobody came
back.
-/

namespace ChainWatch

open Concurrency

/-! ## One attempt -/

namespace Endpoint

variable {e : Endpoint} {trace : Trace system} {outcome : Except NodeFault Unit} {x y : Bool}

theorem flag_of_mark {healthy : Bool}
    (hr : (liftM (e.mark healthy) : NodeJob Unit).run.Runs trace (some outcome))
    (hf : trace.Follows e.flag x y) : outcome = .ok () ∧ y = healthy := by
  obtain ⟨u, hmark, rfl⟩ := runs_lift_some.mp hr
  obtain ⟨m, rfl⟩ := Activity.runs_modify_some.mp hmark
  have hy : y = e.flag (State.mark e.position healthy m) := hf.2
  exact ⟨rfl, hy.trans (e.flag_mark m healthy)⟩

/-- A stop that went well takes the flag down; one that failed leaves it. -/
theorem flag_of_stop {c : Container} (hm : e.role = .managed c)
    (hr : e.stop.run.Runs trace (some outcome)) (hf : trace.Follows e.flag x y) :
    y = if outcome.isOk then false else x := by
  unfold stop at hr
  rw [hm] at hr
  rcases runs_exceptT_bind_some.mp hr with ⟨fault, hs, rfl⟩ | ⟨⟨⟩, early, late, -, hl, rfl⟩
  · obtain ⟨answer, sent, last, hsent, hp, rfl⟩ := Activity.runs_bind_some.mp hs
    obtain ⟨rfl, -⟩ := Activity.runs_pure_some.mp hp
    rw [Activity.runs_request_some.mp hsent] at hf
    exact hf
  · obtain ⟨z, -, hf⟩ := Trace.follows_append.mp hf
    obtain ⟨rfl, hy⟩ := flag_of_mark hl hf
    exact hy

/-- What is done to bring back an endpoint that is down. -/
def revive (e : Endpoint) : NodeJob Unit :=
  match e.role with
  | .managed _ => do
    e.stop
    e.start
    e.mark true
  | .unmanaged => do
    Activity.sleep (I := system) e.settings.recoveryBackoff
    let _ ← e.blockNumber
    e.mark true

theorem recover_eq (e : Endpoint) : e.recover = (do
    let state ← Activity.memory (I := system)
    if state.isHealthy e.position then return
    e.revive) := by
  unfold recover revive
  congr

/-- A recovery looks at the flag first, and it does nothing more when that is up. -/
theorem runs_recover_some : e.recover.run.Runs trace (some outcome) ↔
    ∃ found rest, trace = .touched found found :: rest ∧
      if found.isHealthy e.position then rest = [] ∧ outcome = .ok ()
      else e.revive.run.Runs rest (some outcome) := by
  have decided {found : State} {rest : Trace system} :
      (if found.isHealthy e.position then pure () else e.revive : NodeJob Unit).run.Runs rest
        (some outcome) ↔ if found.isHealthy e.position then rest = [] ∧ outcome = .ok ()
          else e.revive.run.Runs rest (some outcome) := by
    cases found.isHealthy e.position <;> simp
  rw [recover_eq, runs_exceptT_bind_some]
  constructor
  · rintro (⟨fault, hfound, -⟩ | ⟨found, early, rest, hfound, hl, rfl⟩)
    · obtain ⟨v, -, ⟨⟩⟩ := runs_lift_some.mp hfound
    · obtain ⟨v, hmem, heq⟩ := runs_lift_some.mp hfound
      cases heq
      rw [Activity.runs_memory_some.mp hmem]
      exact ⟨found, rest, rfl, decided.mp hl⟩
  · rintro ⟨found, rest, rfl, hl⟩
    exact .inr ⟨found, [_], rest,
      runs_lift_some.mpr ⟨found, Activity.runs_memory_some.mpr rfl, rfl⟩, decided.mpr hl, rfl⟩

/-- However the revival of an endpoint ends that was down, the flag tells it. -/
theorem flag_of_revive (hr : e.revive.run.Runs trace (some outcome))
    (hf : trace.Follows e.flag false y) : y = outcome.isOk := by
  unfold revive at hr
  cases hrole : e.role with
  | managed c =>
      rw [hrole] at hr
      rcases runs_exceptT_bind_some.mp hr with ⟨fault, hs, rfl⟩ | ⟨⟨⟩, early, late, -, hl, rfl⟩
      · exact flag_of_stop hrole hs hf
      · obtain ⟨z, -, hf⟩ := Trace.follows_append.mp hf
        rcases runs_exceptT_bind_some.mp hl with ⟨fault, hs, rfl⟩ | ⟨⟨⟩, _, last, -, hmark, rfl⟩
        · exact flag_of_start hrole hs hf
        · obtain ⟨z, -, hf⟩ := Trace.follows_append.mp hf
          obtain ⟨rfl, hy⟩ := flag_of_mark hmark hf
          exact hy
  | unmanaged =>
      rw [hrole] at hr
      rcases runs_exceptT_bind_some.mp hr with ⟨fault, hs, -⟩ | ⟨⟨⟩, early, late, -, hl, rfl⟩
      · obtain ⟨v, -, ⟨⟩⟩ := runs_lift_some.mp hs
      · obtain ⟨z, -, hf⟩ := Trace.follows_append.mp hf
        rcases runs_exceptT_bind_some.mp hl with ⟨fault, hs, rfl⟩ | ⟨height, _, last, -, hmark, rfl⟩
        · exact flag_of_ask hs hf
        · obtain ⟨z, -, hf⟩ := Trace.follows_append.mp hf
          obtain ⟨rfl, hy⟩ := flag_of_mark hmark hf
          exact hy

/-- A recovery that found the endpoint down, and how it ended. -/
def Retries (e : Endpoint) (own : Trace system) (outcome : Except NodeFault Unit) : Prop :=
  e.recover.run.Runs own (some outcome) ∧
    ∃ found rest, own = .touched found found :: rest ∧ found.isHealthy e.position = false

theorem retries_of_runs (hr : e.recover.run.Runs trace (some outcome))
    (hf : trace.Follows e.flag false y) : e.Retries trace outcome ∧ y = outcome.isOk := by
  obtain ⟨found, rest, rfl, hrest⟩ := runs_recover_some.mp hr
  obtain ⟨hdown, hf⟩ := hf
  have hfound : found.isHealthy e.position = false := hdown
  rw [if_neg (by simp [hfound])] at hrest
  rw [show e.flag found = false from hdown] at hf
  exact ⟨⟨hr, found, rest, rfl, hfound⟩, flag_of_revive hrest hf⟩

end Endpoint

/-! ## Reports -/

namespace HealthReport

/-- A pass escalates when it has tried somebody and all attempts have failed; else it counts. -/
theorem ofAttempts_map (tried : List Endpoint) (ok : Endpoint → Bool) :
    ofAttempts (tried.map fun e => (e.name, ok e)) =
      if tried ≠ [] ∧ ∀ e ∈ tried, ok e = false then .error ⟨tried.map (·.name)⟩
      else .ok ⟨tried.length, tried.countP ok, tried.countP fun e => !ok e⟩ := by
  have hfailed : (((tried.map fun e => (e.name, ok e)).filter fun a => !a.2).map (·.1)) =
      (tried.filter fun e => !ok e).map (·.name) := by
    rw [List.filter_map, List.map_map]
    rfl
  have hcount : (tried.filter fun e => !ok e).length = tried.countP fun e => !ok e :=
    List.countP_eq_length_filter.symm
  have hsum : tried.length = tried.countP ok + tried.countP fun e => !ok e :=
    by simpa using List.length_eq_countP_add_countP ok
  have hall : (tried.countP fun e => !ok e) = tried.length ↔ ∀ e ∈ tried, ok e = false := by
    rw [List.countP_eq_length]
    simp
  unfold ofAttempts
  simp only [hfailed, List.length_map, hcount, ne_eq, List.map_eq_nil_iff, hall]
  split
  · rename_i h
    rw [List.filter_eq_self.mpr fun e he => by simp [h.2 e he]]
  · rw [show tried.length - (tried.countP fun e => !ok e) = tried.countP ok by omega]

end HealthReport

/-! ## All attempts -/

namespace Fleet

variable {fleet : Fleet} {trace : Trace system} {outcome : Except NoneRecovered HealthReport}
  {m m' : State}

/-- The endpoints that are flagged as down, in fleet order. -/
def down (fleet : Fleet) (m : State) : List Endpoint :=
  fleet.endpoints.filter fun e => !m.isHealthy e.position

theorem mem_down {e : Endpoint} :
    e ∈ fleet.down m ↔ e ∈ fleet.endpoints ∧ m.isHealthy e.position = false := by
  simp [down]

theorem runs_recoverAll_some (hr : fleet.recoverAll.Runs trace (some outcome)) :
    ∃ m rest attempts, trace = .touched m m :: rest ∧
      (Activity.joinAll ((fleet.down m).map attemptRecovery)).Runs rest (some attempts) ∧
      outcome = HealthReport.ofAttempts attempts := by
  obtain ⟨m, found, rest, hfound, hl, rfl⟩ := Activity.runs_bind_some.mp hr
  obtain ⟨attempts, rest, last, hj, hp, rfl⟩ := Activity.runs_bind_some.mp hl
  obtain ⟨rfl, rfl⟩ := Activity.runs_pure_some.mp hp
  rw [Activity.runs_memory_some.mp hfound]
  exact ⟨m, rest, attempts, by simp, hj, rfl⟩

theorem runs_attemptRecovery_some {e : Endpoint} {own : Trace system} {attempt : String × Bool}
    (hr : (attemptRecovery e).Runs own (some attempt)) :
    ∃ came : Except NodeFault Unit, e.recover.run.Runs own (some came) ∧
      attempt = (e.name, came.isOk) := by
  obtain ⟨came, early, late, hrun, hp, rfl⟩ := Activity.runs_bind_some.mp hr
  obtain ⟨rfl, rfl⟩ := Activity.runs_pure_some.mp hp
  exact ⟨came, by simpa using hrun, rfl⟩

/-- The endpoints of the list are tried, each of them once and all side by side, and so it comes out. -/
def Tries (tried : List Endpoint) (own : Endpoint → Trace system)
    (came : Endpoint → Except NodeFault Unit) (trace : Trace system) : Prop :=
  ∃ m rest, trace = .touched m m :: rest ∧ Shuffles (tried.map own) rest ∧
    ∀ e ∈ tried, e.Retries (own e) (came e)

/-- What a pass does: one attempt at each endpoint that is down, and nothing else. -/
theorem exists_tries_of_recoverAll (hr : fleet.recoverAll.Runs trace (some outcome))
    (hf : trace.Follows id m m') :
    ∃ (own : Endpoint → Trace system) (came : Endpoint → Except NodeFault Unit),
      Tries (fleet.down m) own came trace ∧
      (∀ e ∈ fleet.down m, m'.isHealthy e.position = (came e).isOk) ∧
      (∀ e ∈ fleet.endpoints, e ∉ fleet.down m →
        (∀ r : Request, .sent r ∈ trace → ¬ r.About e.position) ∧
          m'.isHealthy e.position = m.isHealthy e.position) ∧
      outcome = HealthReport.ofAttempts ((fleet.down m).map fun e => (e.name, (came e).isOk)) := by
  obtain ⟨found, rest, attempts, rfl, hj, rfl⟩ := runs_recoverAll_some hr
  obtain ⟨rfl, hfollows⟩ := hf
  have hsub : (fleet.down found).Sublist fleet.endpoints := List.filter_sublist
  have confined : ∀ e ∈ fleet.down found,
      (attemptRecovery e).Confined (e.Acts (Request.About e.position)) := fun e _ => by
    have hrecover : e.recover.run.Confined (e.Acts (Request.About e.position)) :=
      Endpoint.confined_recover (fun _ => rfl) rfl
    exact hrecover.bind fun _ => Activity.confined_pure _
  obtain ⟨own, attempt, hown, hw, rfl, hflags⟩ := exists_runs_of_endpoints hsub confined hj
  have acts : ∀ e ∈ fleet.down found, ∀ event ∈ own e, e.Acts (Request.About e.position) event :=
    fun e he => (confined e he).runs (hown e he)
  have tried : ∀ e ∈ fleet.down found, ∃ came : Except NodeFault Unit,
      (e.Retries (own e) came ∧ m'.isHealthy e.position = came.isOk) ∧
        attempt e = (e.name, came.isOk) := by
    intro e he
    obtain ⟨came, hrun, hattempt⟩ := runs_attemptRecovery_some (hown e he)
    have hfollows' := hflags e he _ _ (hfollows.through e.flag)
    rw [show e.flag (id found) = false from (mem_down.mp he).2] at hfollows'
    exact ⟨came, Endpoint.retries_of_runs hrun hfollows', hattempt⟩
  have : Nonempty (Except NodeFault Unit) := ⟨.ok ()⟩
  choose! came htried hattempt using tried
  refine ⟨own, came, ⟨found, rest, rfl, hw, fun e he => (htried e he).1⟩,
    fun e he => (htried e he).2, fun e he hout => ⟨fun r hsent => ?_, ?_⟩, ?_⟩
  · exact not_about_of_others hsub hw acts he (fun h => (hout h).elim)
      (List.mem_of_ne_of_mem (by simp) hsent)
  · exact flag_of_others hsub hw acts he (fun h => (hout h).elim) (hfollows.through e.flag)
  · exact congrArg HealthReport.ofAttempts (List.map_congr_left hattempt)

theorem waitFree_recoverAll (fleet : Fleet) : fleet.recoverAll.WaitFree :=
  waitFree_of_acts fleet.confined_recoverAll

/-- Those that are down after a pass are those whose attempt has failed. -/
theorem down_after {came : Endpoint → Except NodeFault Unit}
    (htried : ∀ e ∈ fleet.down m, m'.isHealthy e.position = (came e).isOk)
    (hothers : ∀ e ∈ fleet.endpoints, e ∉ fleet.down m →
      m'.isHealthy e.position = m.isHealthy e.position) :
    fleet.down m' = (fleet.down m).filter fun e => !(came e).isOk := by
  unfold down
  rw [List.filter_filter]
  refine List.filter_congr fun e he => ?_
  by_cases hdown : e ∈ fleet.down m
  · rw [htried e hdown, (mem_down.mp hdown).2]
    simp
  · have hup : m.isHealthy e.position = true := by
      simpa using fun h => hdown (mem_down.mpr ⟨he, h⟩)
    rw [hothers e he hdown, hup]
    simp

theorem message_of_down (fleet : Fleet) (m : State) :
    (⟨(fleet.down m).map (·.name)⟩ : NoneRecovered).message =
      "nodes are down, none recovered (" ++ toString (fleet.down m).length ++ " attempted: " ++
        ", ".intercalate ((fleet.down m).map (·.name)) ++ ")" := by
  rw [← List.length_map (f := (·.name))]
  exact rfl

/-- A health pass ends, whatever happens in it. It tries each endpoint once that is down, and asks
nothing of the others; it reports what has come of the attempts, and the next pass tries those again
that have failed. -/
theorem recoverAll_tries_down (fleet : Fleet) :
    (∀ {σ : Type} (h : Handler system σ) (now : Nat) (w : World system σ), ∃ outcome trace,
      (fleet.recoverAll.run h now w).value? = some outcome ∧
        fleet.recoverAll.Runs trace (some outcome) ∧
        trace.Leads h w (fleet.recoverAll.run h now w).world) ∧
    ∀ (trace : Trace system) (outcome : Except NoneRecovered HealthReport) (m m' : State),
      fleet.recoverAll.Runs trace (some outcome) → trace.Follows id m m' →
      ∃ (own : Endpoint → Trace system) (came : Endpoint → Except NodeFault Unit),
        Tries (fleet.down m) own came trace ∧
        (∀ e ∈ fleet.endpoints, m.isHealthy e.position →
          ∀ r : Request, .sent r ∈ trace → ¬ r.About e.position) ∧
        (fleet.down m = [] → outcome = .ok ⟨0, 0, 0⟩) ∧
        (∀ fault, outcome = .error fault ↔
          (fleet.down m ≠ [] ∧ ∀ e ∈ fleet.down m, (came e).isOk = false) ∧
            fault = ⟨(fleet.down m).map (·.name)⟩ ∧
            fault.message = "nodes are down, none recovered (" ++ toString (fleet.down m).length ++
              " attempted: " ++ ", ".intercalate ((fleet.down m).map (·.name)) ++ ")") ∧
        (∀ report, outcome = .ok report → report.unhealthy = (fleet.down m).length ∧
          report.unhealthy = report.recovered + report.failed ∧
          report.failed = ((fleet.down m).filter fun e => !(came e).isOk).length ∧
          (fleet.down m ≠ [] → 1 ≤ report.recovered)) ∧
        fleet.down m' = ((fleet.down m).filter fun e => !(came e).isOk) ∧
        ∀ (next : Trace system) (again : Except NoneRecovered HealthReport) (last : State),
          fleet.recoverAll.Runs next (some again) → next.Follows id m' last →
          ∃ own' came', Tries ((fleet.down m).filter fun e => !(came e).isOk) own' came' next := by
  constructor
  · intro σ h now w
    obtain ⟨outcome, hv⟩ :=
      Activity.exists_value_of_waitFree h now fleet.recoverAll w fleet.waitFree_recoverAll
    obtain ⟨trace, hr, hl⟩ := Activity.exists_trace_of_run h now fleet.recoverAll w
    exact ⟨outcome, trace, hv, hv ▸ hr, hl⟩
  · intro trace outcome m m' hr hf
    obtain ⟨own, came, htries, htried, hothers, rfl⟩ := exists_tries_of_recoverAll hr hf
    have hdown := down_after htried fun e he hout => (hothers e he hout).2
    rw [HealthReport.ofAttempts_map]
    refine ⟨own, came, htries, ?_, ?_, ?_, ?_, hdown, ?_⟩
    · intro e he hup
      exact (hothers e he fun hmem => by simp [(mem_down.mp hmem).2] at hup).1
    · intro hnone
      simp [hnone]
    · intro fault
      split
      · rename_i hnone
        constructor
        · rintro ⟨⟩
          exact ⟨hnone, rfl, message_of_down fleet m⟩
        · rintro ⟨-, rfl, -⟩
          rfl
      · rename_i hsome
        exact ⟨nofun, fun h => (hsome h.1).elim⟩
    · intro report hreport
      split at hreport
      · cases hreport
      · rename_i hsome
        cases hreport
        refine ⟨rfl, ?_, List.countP_eq_length_filter, ?_⟩
        · simpa using List.length_eq_countP_add_countP fun e => (came e).isOk
        · intro hany
          have hback : ∃ e ∈ fleet.down m, (came e).isOk = true := by
            simpa using fun h => hsome ⟨hany, h⟩
          exact List.countP_pos_iff.mpr hback
    · intro next again last hnext hlast
      obtain ⟨own', came', htries', -⟩ := exists_tries_of_recoverAll hnext hlast
      rw [hdown] at htries'
      exact ⟨own', came', htries'⟩

open Rehearsal

/-- A managed endpoint, and two without containers. -/
def trio : Fleet where
  endpoints := [⟨0, "first", .managed ⟨"first", "image", [], []⟩, ⟨1, 0, 0⟩⟩,
    ⟨1, "second", .unmanaged, ⟨1, 0, 0⟩⟩, ⟨2, "third", .unmanaged, ⟨1, 0, 0⟩⟩]
  nonempty := by simp
  ordered := by simp

/-- The first two endpoints are flagged as down, and the second one is not to be reached. -/
def faltering : World system Stage :=
  ⟨⟨[0, 1], "", .complete, .empty⟩,
    ⟨[Node.fresh, { Node.fresh with down := true }, Node.fresh], [], false, .absent⟩⟩

set_option maxRecDepth 4000 in
theorem recoverAll_tries_two_of_trio : ∃ (trace : Trace system) (m' : State),
    trio.recoverAll.Runs trace (some (.ok ⟨2, 1, 1⟩)) ∧
      trace.Follows id faltering.memory m' ∧
      (trio.down faltering.memory).map (·.name) = ["first", "second"] ∧
      (∀ r : Request, .sent r ∈ trace → ¬ r.About 2) ∧
      (trio.down m').map (·.name) = ["second"] := by
  obtain ⟨ends, described⟩ := recoverAll_tries_down trio
  obtain ⟨outcome, trace, hv, hr, hl⟩ := ends Stage.handler 0 faltering
  have polled : trio.recoverAll.poll Stage.handler 0 faltering =
      (.done (.ok ⟨2, 1, 1⟩), (trio.recoverAll.poll Stage.handler 0 faltering).2) := by rfl
  rw [Activity.run_of_wake (by rfl), polled, Activity.run_done] at hv hl
  obtain rfl : .ok ⟨2, 1, 1⟩ = outcome := Option.some.inj hv
  obtain ⟨own, came, -, hquiet, -⟩ := described trace _ _ _ hr hl.1
  exact ⟨trace, _, hr, hl.1, rfl, hquiet ⟨2, "third", .unmanaged, ⟨1, 0, 0⟩⟩
    (by simp [trio]) rfl, rfl⟩

end Fleet

end ChainWatch
