import ChainWatch.Proofs.Concurrency.Schedule
import ChainWatch.Proofs.Fleet.Start
import ChainWatch.Rehearsal.Stage

/-!
# Flags after resets

A reset that was taken leaves an endpoint flagged as it then answered, or failed to answer, in time. A
reset that the node refused leaves the flag as it was: an endpoint that counted as healthy still does,
though it does not follow the source it was told to follow.
-/

namespace ChainWatch

open Concurrency

namespace Endpoint

/-- How a reset that showed as `own` has ended, and what it has made of the flag. -/
def AfterReset (e : Endpoint) (source : String) (own : Trace system)
    (outcome : Except NodeFault Unit) (before after : Bool) : Prop :=
  (e.reset source).run.Runs own (some outcome) ∧
    (e.Refuses source own → outcome.isOk = false ∧ after = before) ∧
    (¬ e.Refuses source own → after = outcome.isOk)

theorem afterReset_of_runs {e : Endpoint} (hm : e.role.isManaged) {source : String}
    {own : Trace system} {outcome : Except NodeFault Unit} {x y : Bool}
    (hr : (e.reset source).run.Runs own (some outcome)) (hf : own.Follows e.flag x y) :
    e.AfterReset source own outcome x y := by
  cases hrole : e.role with
  | unmanaged => simp [hrole, NodeRole.isManaged] at hm
  | managed c => exact ⟨hr, flag_of_reset hrole hr hf⟩

/-- A reset that failed takes the flag of a healthy endpoint down just when it was not refused. -/
theorem AfterReset.down_iff {e : Endpoint} {source : String} {own : Trace system}
    {outcome : Except NodeFault Unit} {before after : Bool}
    (h : e.AfterReset source own outcome before after) :
    (outcome.isOk = false → after = false) ↔ (before = true → ¬ e.Refuses source own) := by
  obtain ⟨-, hrefused, htaken⟩ := h
  by_cases hr : e.Refuses source own
  · obtain ⟨hfail, rfl⟩ := hrefused hr
    cases after <;> simp [hr, hfail]
  · simp [hr, htaken hr]

end Endpoint

namespace Fleet

variable {fleet : Fleet} {trace : Trace system}

theorem refuses_iff_of_shuffles {endpoints : List Endpoint} (hs : endpoints.Sublist fleet.endpoints)
    {own : Endpoint → Trace system} (hw : Shuffles (endpoints.map own) trace)
    (ha : ∀ e ∈ endpoints, ∀ event ∈ own e, e.Acts (Request.About e.position) event)
    {e : Endpoint} (he : e ∈ endpoints) {source : String} :
    e.Refuses source trace ↔ e.Refuses source (own e) := by
  constructor
  · rintro ⟨fault, hm⟩
    obtain ⟨part, hp, hm⟩ := hw.mem_iff.mp hm
    obtain ⟨e', he', rfl⟩ := List.mem_map.mp hp
    cases ha e' he' _ hm with
    | answered h =>
        obtain rfl := fleet.eq_of_position_eq (hs.subset he) (hs.subset he') h
        exact ⟨fault, hm⟩
  · rintro ⟨fault, hm⟩
    exact ⟨fault, hw.mem_iff.mpr ⟨own e, List.mem_map_of_mem he, hm⟩⟩

theorem not_about_of_others {endpoints : List Endpoint} (hs : endpoints.Sublist fleet.endpoints)
    {own : Endpoint → Trace system} (hw : Shuffles (endpoints.map own) trace)
    (ha : ∀ e ∈ endpoints, ∀ event ∈ own e, e.Acts (Request.About e.position) event)
    {e : Endpoint} (he : e ∈ fleet.endpoints) (hn : e ∈ endpoints → own e = []) {r : Request}
    (hsent : .sent r ∈ trace) : ¬ r.About e.position := by
  intro habout
  obtain ⟨part, hp, hsent⟩ := hw.mem_iff.mp hsent
  obtain ⟨e', he', rfl⟩ := List.mem_map.mp hp
  cases ha e' he' _ hsent with
  | sent h =>
      obtain rfl := fleet.eq_of_position_eq (hs.subset he') he (h.unique habout)
      rw [hn he'] at hsent
      cases hsent

theorem runs_repoint_some {url : String} {m m' : State}
    (hr : (fleet.repoint url).Runs trace (some ())) (hf : trace.Follows id m m')
    (hs : m.start = .complete) :
    ∃ rest results, trace = .touched m { m with forkUrl := url } :: rest ∧
      Trace.Follows id rest { m with forkUrl := url } m' ∧
      (Activity.joinAll ((fleet.endpoints.filter (·.role.isManaged)).map fun e =>
        (e.reset url).run)).Runs rest (some results) := by
  obtain ⟨⟨now, found⟩, rest, rfl, hl⟩ := begins_some.mp hr
  obtain rfl : found = m := hf.1
  dsimp only at hl
  rw [if_pos hs] at hl
  obtain ⟨results, rest, last, hj, hp, rfl⟩ := Activity.runs_bind_some.mp hl
  obtain ⟨rfl, -⟩ := Activity.runs_pure_some.mp hp
  rw [List.append_nil] at hf ⊢
  exact ⟨rest, results, rfl, hf.2, hj⟩

/-- What a repoint does to a fleet that has started: nothing but resets of the managed endpoints. -/
theorem afterReset_of_repoint {url : String} {m m' : State}
    (hr : (fleet.repoint url).Runs trace (some ())) (hf : trace.Follows id m m')
    (hs : m.start = .complete) :
    ∃ (own : Endpoint → Trace system) (outcome : Endpoint → Except NodeFault Unit)
      (rest : Trace system), trace = .touched m { m with forkUrl := url } :: rest ∧
      Shuffles ((fleet.endpoints.filter (·.role.isManaged)).map own) rest ∧
      (∀ e ∈ fleet.endpoints, e.role.isManaged →
        (e.Refuses url trace ↔ e.Refuses url (own e)) ∧
          e.AfterReset url (own e) (outcome e) (m.isHealthy e.position) (m'.isHealthy e.position)) ∧
      ∀ e ∈ fleet.endpoints, e.role.isManaged = false →
        (∀ r : Request, .sent r ∈ trace → ¬ r.About e.position) ∧
          m'.isHealthy e.position = m.isHealthy e.position := by
  obtain ⟨rest, results, rfl, hfollows, hj⟩ := runs_repoint_some hr hf hs
  have hsub : (fleet.endpoints.filter (·.role.isManaged)).Sublist fleet.endpoints :=
    List.filter_sublist
  have confined : ∀ e ∈ fleet.endpoints.filter (·.role.isManaged),
      (e.reset url).run.Confined (e.Acts (Request.About e.position)) :=
    fun e _ => Endpoint.confined_reset rfl rfl
  have : Nonempty (Except NodeFault Unit) := ⟨.ok ()⟩
  obtain ⟨own, outcome, hown, hw, -, hflags⟩ := exists_runs_of_endpoints hsub confined hj
  have acts : ∀ e ∈ fleet.endpoints.filter (·.role.isManaged), ∀ event ∈ own e,
      e.Acts (Request.About e.position) event :=
    fun e he => (confined e he).runs (hown e he)
  refine ⟨own, outcome, rest, rfl, hw, fun e he hm => ?_, fun e he hm => ?_⟩
  · have hmem : e ∈ fleet.endpoints.filter (·.role.isManaged) := by simp [he, hm]
    refine ⟨?_, ?_⟩
    · rw [← refuses_iff_of_shuffles hsub hw acts hmem]
      simp [Endpoint.Refuses]
    · exact Endpoint.afterReset_of_runs hm (hown e hmem)
        (hflags e hmem _ _ (hfollows.through e.flag))
  · have hout : e ∉ fleet.endpoints.filter (·.role.isManaged) := by simp [hm]
    refine ⟨fun r hsent => ?_, ?_⟩
    · exact not_about_of_others hsub hw acts he (fun h => (hout h).elim)
        (List.mem_of_ne_of_mem (by simp) hsent)
    · exact flag_of_others hsub hw acts he (fun h => (hout h).elim) (hfollows.through e.flag)

/-- What the start of a fleet leaves behind at an endpoint: a start that failed takes its flag down, and
one that went well is followed by a reset from a flag that is up. -/
theorem afterReset_of_startEndpoint {e : Endpoint} (hm : e.role.isManaged) {source : String}
    (hn : source ≠ "") {own : Trace system} {x y : Bool}
    (hr : (startEndpoint source e).Runs own (some ())) (hf : own.Follows e.flag x y) :
    ∃ early late started outcome, own = early ++ late ∧ e.start.run.Runs early (some started) ∧
      (e.Refuses source own ↔ e.Refuses source late) ∧
      if started.isOk then e.AfterReset source late outcome true y else late = [] ∧ y = false := by
  obtain ⟨early, late, started, hs, rfl, hl⟩ := runs_startEndpoint_some hr
  obtain ⟨z, he, hf⟩ := Trace.follows_append.mp hf
  cases hrole : e.role with
  | unmanaged => simp [hrole, NodeRole.isManaged] at hm
  | managed c =>
      have hz : z = started.isOk := Endpoint.flag_of_start hrole hs he
      have hstart : e.start.run.Confined (e.Acts fun r => r ≠ .chain e.position (.reset source)) :=
        Endpoint.confined_start (fun _ => nofun) nofun
      have hrefuses : e.Refuses source (early ++ late) ↔ e.Refuses source late := by
        constructor
        · rintro ⟨fault, h⟩
          rcases List.mem_append.mp h with h | h
          · cases hstart.runs hs _ h with
            | answered hne => exact (hne rfl).elim
          · exact ⟨fault, h⟩
        · rintro ⟨fault, h⟩
          exact ⟨fault, List.mem_append_right _ h⟩
      cases started with
      | error fault =>
          rw [if_neg (by simp [Except.isOk, Except.toBool])] at hl
          subst hl
          exact ⟨early, [], .error fault, .ok (), rfl, hs, hrefuses, rfl, hf.trans hz⟩
      | ok u =>
          rw [if_pos ⟨rfl, hm, hn⟩] at hl
          obtain ⟨outcome, hreset⟩ := hl
          obtain rfl : z = true := hz
          exact ⟨early, late, .ok u, outcome, rfl, hs, hrefuses,
            Endpoint.afterReset_of_runs hm hreset hf⟩

/-- An endpoint without a container is started by doing nothing. -/
theorem eq_nil_of_startEndpoint {e : Endpoint} (hm : e.role.isManaged = false) {source : String}
    {own : Trace system} (hr : (startEndpoint source e).Runs own (some ())) : own = [] := by
  obtain ⟨early, late, started, hs, rfl, hl⟩ := runs_startEndpoint_some hr
  rw [if_neg (by simp [hm])] at hl
  cases hrole : e.role with
  | managed c => simp [hrole, NodeRole.isManaged] at hm
  | unmanaged =>
      unfold Endpoint.start at hs
      rw [hrole] at hs
      rw [(runs_exceptT_pure_some.mp hs).1, hl, List.append_nil]

/-- What the start of a fleet does: each managed endpoint is started, and then reset if that went
well. -/
theorem afterReset_of_ensureStarted {m m' : State}
    (hr : fleet.ensureStarted.Runs trace (some ())) (hf : trace.Follows id m m')
    (hs : m.start = .idle) (hn : m.forkUrl ≠ "") :
    ∃ (own : Endpoint → Trace system) (rest : Trace system) (last : State),
      trace = .touched m { m with start := .running } ::
        .touched { m with start := .running } { m with start := .running } ::
          (rest ++ [.touched last m']) ∧
      Shuffles (fleet.endpoints.map own) rest ∧
      (∀ e ∈ fleet.endpoints, e.role.isManaged → ∃ early late started outcome,
        own e = early ++ late ∧ e.start.run.Runs early (some started) ∧
          (e.Refuses m.forkUrl trace ↔ e.Refuses m.forkUrl late) ∧
          if started.isOk then
            e.AfterReset m.forkUrl late outcome true (m'.isHealthy e.position)
          else late = [] ∧ m'.isHealthy e.position = false) ∧
      ∀ e ∈ fleet.endpoints, e.role.isManaged = false →
        (∀ r : Request, .sent r ∈ trace → ¬ r.About e.position) ∧
          m'.isHealthy e.position = m.isHealthy e.position := by
  obtain ⟨rest, results, last, rfl, hj, hfollows, rfl⟩ := runs_ensureStarted_of_idle hr hf hs
  have hsub : fleet.endpoints.Sublist fleet.endpoints := List.Sublist.refl _
  have confined : ∀ e ∈ fleet.endpoints,
      (startEndpoint m.forkUrl e).Confined (e.Acts (Request.About e.position)) :=
    fun e _ => confined_startEndpoint (fun _ => rfl) rfl rfl
  obtain ⟨own, outcome, hown, hw, -, hflags⟩ := exists_runs_of_endpoints hsub confined hj
  have acts : ∀ e ∈ fleet.endpoints, ∀ event ∈ own e, e.Acts (Request.About e.position) event :=
    fun e he => (confined e he).runs (hown e he)
  refine ⟨own, rest, last, rfl, hw, fun e he hm => ?_, fun e he hm => ?_⟩
  · obtain ⟨early, late, started, outcome, hsplit, hstart, hrefuses, hafter⟩ :=
      afterReset_of_startEndpoint hm hn (hown e he) (hflags e he _ _ (hfollows.through e.flag))
    refine ⟨early, late, started, outcome, hsplit, hstart, ?_, hafter⟩
    rw [← hrefuses, ← refuses_iff_of_shuffles hsub hw acts he]
    simp [Endpoint.Refuses]
  · have hnil : e ∈ fleet.endpoints → own e = [] := fun _ => eq_nil_of_startEndpoint hm (hown e he)
    refine ⟨fun r hsent => ?_, ?_⟩
    · exact not_about_of_others hsub hw acts he hnil (by simpa using hsent)
    · exact flag_of_others hsub hw acts he hnil (hfollows.through e.flag)

theorem exists_value_of_repoint {σ : Type} (fleet : Fleet) (url : String)
    (h : Handler system σ) (now : Nat) (w : World system σ) :
    ∃ value, ((fleet.repoint url).run h now w).value? = some value := by
  apply Activity.exists_value_of_touch
  dsimp only
  split
  · refine Activity.Confined.bind (Activity.confined_joinAll fun member hm => ?_) fun _ =>
      Activity.confined_pure ()
    obtain ⟨e, -, rfl⟩ := List.mem_map.mp hm
    exact Endpoint.waitFree_of_acts (Endpoint.confined_reset trivial trivial : Activity.Confined
      (e.Acts fun _ => True) _)
  · exact Activity.confined_pure ()

/-- Repointing a fleet that has started, and the resets at its start, come to an end. An endpoint is
flagged as down after a failed reset unless it counted as healthy and its node refused the source. -/
theorem flags_after_resets (fleet : Fleet) :
    (∀ {σ : Type} (h : Handler system σ) (now : Nat) (w : World system σ),
      (∀ url, ∃ value, ((fleet.repoint url).run h now w).value? = some value) ∧
        (w.memory.start ≠ .running →
          ∃ value, (fleet.ensureStarted.run h now w).value? = some value)) ∧
    (∀ (url : String) (trace : Trace system) (m m' : State),
      (fleet.repoint url).Runs trace (some ()) → trace.Follows id m m' → m.start = .complete →
      ∃ (own : Endpoint → Trace system) (outcome : Endpoint → Except NodeFault Unit)
        (rest : Trace system), trace = .touched m { m with forkUrl := url } :: rest ∧
        Shuffles ((fleet.endpoints.filter (·.role.isManaged)).map own) rest ∧
        (∀ e ∈ fleet.endpoints, e.role.isManaged →
          e.AfterReset url (own e) (outcome e) (m.isHealthy e.position) (m'.isHealthy e.position) ∧
            (((outcome e).isOk = false → m'.isHealthy e.position = false) ↔
              (m.isHealthy e.position = true → ¬ e.Refuses url trace))) ∧
        ∀ e ∈ fleet.endpoints, e.role.isManaged = false →
          (∀ r : Request, .sent r ∈ trace → ¬ r.About e.position) ∧
            m'.isHealthy e.position = m.isHealthy e.position) ∧
    ∀ (trace : Trace system) (m m' : State),
      fleet.ensureStarted.Runs trace (some ()) → trace.Follows id m m' → m.start = .idle →
      m.forkUrl ≠ "" →
      ∃ (own : Endpoint → Trace system) (rest : Trace system) (last : State),
        trace = .touched m { m with start := .running } ::
          .touched { m with start := .running } { m with start := .running } ::
            (rest ++ [.touched last m']) ∧
        Shuffles (fleet.endpoints.map own) rest ∧
        (∀ e ∈ fleet.endpoints, e.role.isManaged → ∃ early late started outcome,
          own e = early ++ late ∧ e.start.run.Runs early (some started) ∧
            if started.isOk then
              e.AfterReset m.forkUrl late outcome true (m'.isHealthy e.position) ∧
                ((outcome.isOk = false → m'.isHealthy e.position = false) ↔
                  ¬ e.Refuses m.forkUrl trace)
            else late = [] ∧ m'.isHealthy e.position = false) ∧
        ∀ e ∈ fleet.endpoints, e.role.isManaged = false →
          (∀ r : Request, .sent r ∈ trace → ¬ r.About e.position) ∧
            m'.isHealthy e.position = m.isHealthy e.position := by
  refine ⟨fun h now w => ⟨fun url => fleet.exists_value_of_repoint url h now w, fun hs => ?_⟩,
    ?_, ?_⟩
  · have ends : ∃ value, ((fleet.ensureStarted >>= pure).run h now w).value? = some value :=
      exists_value_of_ensureStarted (fun _ => Activity.confined_pure _) h now w hs
    rwa [bind_pure] at ends
  · intro url trace m m' hr hf hs
    obtain ⟨own, outcome, rest, ht, hw, hmanaged, hunmanaged⟩ := afterReset_of_repoint hr hf hs
    refine ⟨own, outcome, rest, ht, hw, fun e he hm => ?_, hunmanaged⟩
    obtain ⟨hrefuses, hafter⟩ := hmanaged e he hm
    rw [hrefuses]
    exact ⟨hafter, hafter.down_iff⟩
  · intro trace m m' hr hf hs hn
    obtain ⟨own, rest, last, ht, hw, hmanaged, hunmanaged⟩ :=
      afterReset_of_ensureStarted hr hf hs hn
    refine ⟨own, rest, last, ht, hw, fun e he hm => ?_, hunmanaged⟩
    obtain ⟨early, late, started, outcome, hsplit, hstart, hrefuses, hafter⟩ := hmanaged e he hm
    refine ⟨early, late, started, outcome, hsplit, hstart, ?_⟩
    rw [hrefuses]
    split at hafter
    · rename_i hok
      rw [if_pos hok]
      exact ⟨hafter, by simpa using hafter.down_iff⟩
    · rename_i hfail
      rw [if_neg hfail]
      exact hafter

open Rehearsal

/-- The node of the endpoint answers, but it refuses to follow another source. -/
def refusing (start : StartStage) : World system Stage :=
  ⟨⟨[], "source", start, .empty⟩,
    ⟨[{ Node.fresh with resetFault := some (.transport "refused") }], [], false, .absent⟩⟩

set_option maxRecDepth 2000 in
theorem flags_after_resets_of_solo :
    (refusing .complete).memory.start = .complete ∧ (refusing .idle).memory.start = .idle ∧
    (refusing .idle).memory.forkUrl ≠ "" ∧
    (∃ (trace : Trace system) (m' : State) (own : Trace system) (outcome : Except NodeFault Unit),
      (solo.repoint "fork").Runs trace (some ()) ∧
      trace.Follows id (refusing .complete).memory m' ∧ m'.isHealthy 0 = true ∧
      soloist.AfterReset "fork" own outcome true true) ∧
    ∃ (trace : Trace system) (m' : State) (own : Trace system) (outcome : Except NodeFault Unit),
      solo.ensureStarted.Runs trace (some ()) ∧
      trace.Follows id (refusing .idle).memory m' ∧ m'.isHealthy 0 = true ∧
      soloist.AfterReset "source" own outcome true true := by
  obtain ⟨-, repointed, started⟩ := flags_after_resets solo
  have complete : (refusing .complete).memory.start = .complete := rfl
  have idle : (refusing .idle).memory.start = .idle := rfl
  have source : (refusing .idle).memory.forkUrl ≠ "" := by decide
  have member : soloist ∈ solo.endpoints := List.mem_singleton.mpr rfl
  refine ⟨complete, idle, source, ?_, ?_⟩
  · obtain ⟨trace, hr, hf, -⟩ :=
      Activity.exists_trace_of_run Stage.handler 0 (solo.repoint "fork") (refusing .complete)
    have hpoll : (solo.repoint "fork").poll Stage.handler 0 (refusing .complete) =
        (.done (), ((solo.repoint "fork").poll Stage.handler 0 (refusing .complete)).2) := rfl
    rw [Activity.run_of_wake (by rfl), hpoll, Activity.run_done] at hr hf
    obtain ⟨own, outcome, rest, -, -, hmanaged, -⟩ := repointed "fork" trace _ _ hr hf complete
    exact ⟨trace, _, own soloist, outcome soloist, hr, hf, rfl, (hmanaged soloist member rfl).1⟩
  · obtain ⟨trace, hr, hf, -⟩ :=
      Activity.exists_trace_of_run Stage.handler 0 solo.ensureStarted (refusing .idle)
    have hpoll : solo.ensureStarted.poll Stage.handler 0 (refusing .idle) =
        (.done (), (solo.ensureStarted.poll Stage.handler 0 (refusing .idle)).2) := rfl
    rw [Activity.run_of_wake (by rfl), hpoll, Activity.run_done] at hr hf
    obtain ⟨own, rest, last, -, -, hmanaged, -⟩ := started trace _ _ hr hf idle source
    obtain ⟨early, late, start, outcome, -, -, hafter⟩ := hmanaged soloist member rfl
    split at hafter
    · exact ⟨trace, _, late, outcome, hr, hf, rfl, hafter.1⟩
    · cases hafter.2

/-- A node may refuse the source, and its endpoint still counts as healthy after the repoint. -/
theorem healthy_after_refused_repoint :
    ¬ ∀ (fleet : Fleet) (url : String) (trace : Trace system) (m m' : State),
      (fleet.repoint url).Runs trace (some ()) → trace.Follows id m m' → m.start = .complete →
      ∀ e ∈ fleet.endpoints, e.role.isManaged → e.Refuses url trace →
        m'.isHealthy e.position = false := by
  intro unflagged
  let before : State := ⟨[], "source", .complete, .empty⟩
  let refused : Trace system := [.sent (.chain 0 (.reset "fork")),
    .answered (.chain 0 (.reset "fork")) (.error (.transport "refused"))]
  have resets : (soloist.reset "fork").run.Runs refused
      (some (.error (.transport "refused"))) :=
    (Endpoint.runs_reset_some rfl).mpr (.inl ⟨_, rfl, rfl⟩)
  have joined : (Activity.joinAll [(soloist.reset "fork").run]).Runs refused
      (some [.error (.transport "refused")]) :=
    Activity.runs_joinAll_singleton resets
  have runs : (solo.repoint "fork").Runs
      (.touched before { before with forkUrl := "fork" } :: refused) (some ()) := by
    refine begins_some.mpr ⟨(0, before), refused, rfl, ?_⟩
    dsimp only
    rw [if_pos rfl]
    exact Activity.runs_bind_some.mpr ⟨_, refused, [], joined, ⟨rfl, .inr rfl⟩, rfl⟩
  have flagged := unflagged solo "fork" _ before { before with forkUrl := "fork" } runs
    ⟨rfl, rfl⟩ rfl soloist (List.mem_singleton.mpr rfl) rfl
    ⟨.transport "refused", by simp [refused, soloist]⟩
  cases flagged

end Fleet

end ChainWatch
