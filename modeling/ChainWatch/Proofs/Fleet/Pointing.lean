import ChainWatch.Proofs.Fleet.Reads
import ChainWatch.Fleet.Health

/-!
# Following the chain source

A managed node follows the last source it was reset to, until its container is started anew. Which
source that is, is read off the trace of all that was asked of it (`pointings`).

The source is set when the fleet starts and by every repoint after that. A health pass starts containers
without setting it again.
-/

namespace ChainWatch

open Concurrency

/-! ## What a node was told -/

/-- What decides which source a node follows. -/
inductive Pointing where
  | reset (source : String)
  /-- The container was started; it follows the source it came with. -/
  | restart
  deriving DecidableEq, Repr

def pointing? (position : Nat) : Event system → Option Pointing
  | .sent (.chain p (.reset source)) => if p = position then some (.reset source) else none
  | .sent (.container p (.start _)) => if p = position then some .restart else none
  | _ => none

/-- The resets and starts of the node at a place, in the order in which they were sent. -/
def pointings (position : Nat) (trace : Trace system) : List Pointing :=
  trace.filterMap (pointing? position)

variable {p : Nat} {trace early late : Trace system} {event : Event system} {asks : Request → Prop}
  {source : String} {e : Endpoint} {fleet : Fleet} {result : Option Unit} {m m' : State}

@[simp] theorem pointings_append :
    pointings p (early ++ late) = pointings p early ++ pointings p late :=
  List.filterMap_append

@[simp] theorem pointings_touched {before after : State} :
    pointings p (.touched before after :: trace) = pointings p trace := rfl

theorem pointing?_eq_reset :
    pointing? p event = some (.reset source) ↔ event = .sent (.chain p (.reset source)) := by
  constructor
  · intro h
    unfold pointing? at h
    split at h
    · split at h
      · rename_i hp
        cases h
        rw [hp]
      · cases h
    · split at h <;> cases h
    · cases h
  · intro h
    rw [h]
    simp [pointing?]

theorem pointing?_eq_restart :
    pointing? p event = some .restart ↔ ∃ c, event = .sent (.container p (.start c)) := by
  constructor
  · intro h
    unfold pointing? at h
    split at h
    · split at h <;> cases h
    · split at h
      · rename_i c hp
        exact ⟨c, hp ▸ rfl⟩
      · cases h
    · cases h
  · intro ⟨c, h⟩
    rw [h]
    simp [pointing?]

theorem reset_mem_pointings :
    .reset source ∈ pointings p trace ↔ .sent (.chain p (.reset source)) ∈ trace := by
  simp [pointings, List.mem_filterMap, pointing?_eq_reset]

theorem restart_mem_pointings :
    .restart ∈ pointings p trace ↔ ∃ c, .sent (.container p (.start c)) ∈ trace := by
  simp only [pointings, List.mem_filterMap, pointing?_eq_restart]
  constructor
  · intro ⟨event, hm, c, heq⟩
    exact ⟨c, heq ▸ hm⟩
  · intro ⟨c, hm⟩
    exact ⟨_, hm, c, rfl⟩

/-- A node that was reset at all was last reset to the source, and not started since. -/
def EndsAt (position : Nat) (source : String) (trace : Trace system) : Prop :=
  ∀ any, .reset any ∈ pointings position trace →
    (pointings position trace).getLast? = some (.reset source)

theorem endsAt_of_append (he : ∀ any, .reset any ∉ pointings p early)
    (hl : ∀ x ∈ pointings p late, x = .reset source) : EndsAt p source (early ++ late) := by
  intro any hm
  rw [pointings_append] at hm ⊢
  have hlate : .reset any ∈ pointings p late := (List.mem_append.mp hm).resolve_left (he any)
  have hne : pointings p late ≠ [] := List.ne_nil_of_mem hlate
  rw [List.getLast?_append_of_ne_nil _ hne, List.getLast?_eq_some_getLast hne]
  exact congrArg some (hl _ (List.getLast_mem hne))

theorem endsAt_of_forall (h : ∀ x ∈ pointings p trace, x = .reset source) :
    EndsAt p source trace := by
  have hends : EndsAt p source ([] ++ trace) := endsAt_of_append (by simp [pointings]) h
  exact hends

/-! ## Footprints and pointings -/

namespace Endpoint

theorem reset_not_mem_of_acts (ha : ∀ event ∈ trace, e.Acts asks event)
    (hn : ∀ source, ¬ asks (.chain p (.reset source))) (source : String) :
    .reset source ∉ pointings p trace := by
  intro hm
  cases ha _ (reset_mem_pointings.mp hm) with
  | sent h => exact hn source h

theorem restart_not_mem_of_acts (ha : ∀ event ∈ trace, e.Acts asks event)
    (hn : ∀ c, ¬ asks (.container p (.start c))) : .restart ∉ pointings p trace := by
  intro hm
  obtain ⟨c, hm⟩ := restart_mem_pointings.mp hm
  cases ha _ hm with
  | sent h => exact hn c h

theorem pointings_of_acts_elsewhere (ha : ∀ event ∈ trace, e.Acts (Request.About e.position) event)
    (hp : e.position ≠ p) : pointings p trace = [] := by
  refine List.eq_nil_iff_forall_not_mem.mpr fun x hm => ?_
  cases x with
  | reset source => exact reset_not_mem_of_acts ha (fun _ h => hp h.symm) source hm
  | restart => exact restart_not_mem_of_acts ha (fun _ h => hp h.symm) hm

/-- A reset tells the node its source, and nothing else. -/
theorem eq_reset_of_mem_pointings {own : Trace system} {outcome : Option (Except NodeFault Unit)}
    (hr : (e.reset source).run.Runs own outcome) :
    ∀ x ∈ pointings e.position own, x = .reset source := by
  have hconfined : (e.reset source).run.Confined (e.Acts fun r =>
      r = .chain e.position (.reset source) ∨ r = .chain e.position .blockNumber) :=
    confined_reset (.inl rfl) (.inr rfl)
  have ha := hconfined.runs hr
  intro x hm
  cases x with
  | restart => exact (restart_not_mem_of_acts ha (by simp) hm).elim
  | reset any =>
      cases ha _ (reset_mem_pointings.mp hm) with
      | sent h => simpa using h

theorem sent_of_reset (hm : e.role.isManaged) {own : Trace system}
    {outcome : Except NodeFault Unit} (hr : (e.reset source).run.Runs own (some outcome)) :
    .sent (.chain e.position (.reset source)) ∈ own := by
  cases hrole : e.role with
  | unmanaged => simp [hrole, NodeRole.isManaged] at hm
  | managed c =>
      rcases (runs_reset_some hrole).mp hr with ⟨fault, rfl, -⟩ | ⟨waiting, -, rfl⟩
      · simp
      · simp

end Endpoint

namespace Fleet

theorem blind_pointing? (fleet : Fleet) (p : Nat) : fleet.Blind (pointing? p) where
  quiet event h := by
    rcases h with ⟨e, -, ha⟩ | ⟨m, rfl⟩
    · cases ha with
      | answered | found | marked => rfl
      | sent h =>
          unfold Request.IsRead at h
          split at h
          · exact h.elim
          · unfold pointing?
            split <;> simp_all
          · exact h.elim
    · rfl
  touched _ _ := rfl

/-- Among endpoints side by side a node is told something by its own endpoint only. -/
theorem exists_part_of_endpoints {β : Type} {endpoints : List Endpoint}
    (hs : endpoints.Sublist fleet.endpoints) {job : Endpoint → Job β}
    (hj : ∀ e ∈ endpoints, (job e).Confined (e.Acts (Request.About e.position)))
    {values : Option (List β)} (hr : (Activity.joinAll (endpoints.map job)).Runs trace values)
    (he : e ∈ endpoints) :
    ∃ (own : Trace system) (outcome : Option β), (job e).Runs own outcome ∧
      (∀ event ∈ own, event ∈ trace) ∧ (values ≠ none → outcome ≠ none) ∧
      pointings e.position trace = pointings e.position own := by
  obtain ⟨shares, hmembers, hruns, hw, hdone⟩ := Activity.exists_shares_of_joinAll hr
  obtain ⟨share, hshare, rfl⟩ := List.mem_map.mp (hmembers ▸ he)
  have hd : (shares.map (·.member)).Nodup := hmembers ▸ fleet.nodup_endpoints.sublist hs
  refine ⟨share.trace, share.result, hruns share hshare, fun event hm => ?_,
    fun hv => Share.result_ne_none hdone hv share hshare, ?_⟩
  · exact hw.mem_iff.mpr ⟨share.trace, List.mem_map_of_mem hshare, hm⟩
  · have hpointings := hw.filterMap (pointing? share.member.position)
    rw [List.map_map] at hpointings
    refine hpointings.eq_of_others_nil hd.of_map hshare fun other hother hne => ?_
    have hmem : ∀ s ∈ shares, s.member ∈ endpoints := fun s h =>
      hmembers ▸ List.mem_map_of_mem h
    have hconfined := hj other.member (hmem other hother)
    refine Endpoint.pointings_of_acts_elsewhere (hconfined.runs (hruns other hother)) fun hp => ?_
    have heq := fleet.eq_of_position_eq (hs.subset (hmem other hother))
      (hs.subset (hmem share hshare)) hp
    exact hne (List.inj_on_of_nodup_map hd hother hshare heq)

/-! ## What the operations tell a node -/

/-- A node is started first, and then pointed at the source. -/
theorem endsAt_of_startEndpoint (hr : (startEndpoint source e).Runs trace result) :
    EndsAt e.position source trace := by
  obtain ⟨early, late, started, hs, rfl, hlate⟩ := Activity.exists_runs_of_bind hr
  have hconfined : e.start.run.Confined (e.Acts fun r =>
      ∀ source, r ≠ .chain e.position (.reset source)) :=
    Endpoint.confined_start (fun _ _ => nofun) (fun _ => nofun)
  refine endsAt_of_append
    (Endpoint.reset_not_mem_of_acts (hconfined.runs hs) fun any h => h any rfl) ?_
  rcases hlate with ⟨rfl, -⟩ | ⟨v, -, hl⟩
  · simp [pointings]
  · cases v with
    | error fault => simp [hl.1, pointings]
    | ok u =>
        dsimp only at hl
        split at hl
        · obtain ⟨outcome, hreset, -⟩ := Activity.exists_runs_of_dropped hl
          exact Endpoint.eq_reset_of_mem_pointings hreset
        · simp [hl.1, pointings]

theorem endsAt_of_start (hr : fleet.start.Runs trace result) (he : e ∈ fleet.endpoints) :
    trace = [] ∨ ∃ found, .touched found found ∈ trace ∧ EndsAt e.position found.forkUrl trace := by
  rcases hr with ⟨rfl, -⟩ | ⟨⟨now, found⟩, rest, rfl, hrest⟩
  · exact .inl rfl
  · have hrest : (Activity.joinAll (fleet.endpoints.map (startEndpoint found.forkUrl)) >>=
        fun _ => pure ()).Runs rest result := hrest
    obtain ⟨values, hj, -⟩ := Activity.exists_runs_of_dropped hrest
    obtain ⟨own, outcome, hown, -, -, heq⟩ := exists_part_of_endpoints (List.Sublist.refl _)
      (fun e _ => confined_startEndpoint (fun _ => rfl) rfl rfl) hj he
    refine .inr ⟨found, by simp, ?_⟩
    have hends := endsAt_of_startEndpoint hown
    unfold EndsAt at hends ⊢
    simpa only [pointings_touched, heq] using hends

/-- Reads tell a node nothing, or they start it and point it at the source. -/
theorem endsAt_of_readAll {reads : List Read} (hr : (fleet.readAll reads).Runs trace result)
    (hf : trace.Follows id m m') (he : e ∈ fleet.endpoints) :
    pointings e.position trace = [] ∨
      m.start = .idle ∧ m'.start ≠ .idle ∧ EndsAt e.position m.forkUrl trace := by
  have hblind := fleet.blind_pointing? e.position
  by_cases hidle : m.start = .idle
  · by_cases hne : trace = []
    · exact .inl (by simp [hne, pointings])
    · obtain ⟨hstarted, starting, outcome, hs, -, hsub, heq⟩ :=
        hblind.exists_starting_of_readAll hr hf hidle hne
      rcases endsAt_of_start hs he with rfl | ⟨found, hfound, hends⟩
      · exact .inl heq
      · refine .inr ⟨hidle, hstarted, ?_⟩
        rw [forkUrl_found_of_readAll hr hf (hsub _ hfound)] at hends
        unfold EndsAt pointings at hends ⊢
        rw [heq]
        exact hends
  · exact .inl (hblind.nil_of_readAll hr hf hidle)

/-- Reads that start the fleet reset an endpoint when its own start has gone well and there is a
source. -/
theorem exists_start_of_readAll {reads : List Read}
    (hr : (fleet.readAll reads).Runs trace (some ())) (hf : trace.Follows id m m')
    (hidle : m.start = .idle) (hne : trace ≠ []) (he : e ∈ fleet.endpoints)
    (hm : e.role.isManaged) :
    ∃ (early : Trace system) (started : Except NodeFault Unit),
      e.start.run.Runs early (some started) ∧ (∀ event ∈ early, event ∈ trace) ∧
        ((∃ source, .reset source ∈ pointings e.position trace) ↔
          started.isOk ∧ m.forkUrl ≠ "") := by
  obtain ⟨-, starting, outcome, hs, hdone, hsub, heq⟩ :=
    (fleet.blind_pointing? e.position).exists_starting_of_readAll hr hf hidle hne
  obtain ⟨⟨⟩, rfl⟩ := Option.ne_none_iff_exists'.mp (hdone (by simp))
  obtain ⟨found, rest, results, rfl, hj⟩ := runs_start_some hs
  obtain ⟨own, outcome, hown, hinside, hended, hpart⟩ := exists_part_of_endpoints
    (List.Sublist.refl _) (fun e _ => confined_startEndpoint (fun _ => rfl) rfl rfl) hj he
  obtain ⟨⟨⟩, rfl⟩ := Option.ne_none_iff_exists'.mp (hended (by simp))
  have hfound : found.forkUrl = m.forkUrl :=
    forkUrl_found_of_readAll hr hf (hsub (.touched found found) (List.mem_cons_self ..))
  have hpointings : pointings e.position trace = pointings e.position own := by
    rw [← hpart]
    exact heq
  obtain ⟨early, late, started, hstart, rfl, hlate⟩ := runs_startEndpoint_some hown
  have hconfined : e.start.run.Confined (e.Acts fun r =>
      ∀ source, r ≠ .chain e.position (.reset source)) :=
    Endpoint.confined_start (fun _ _ => nofun) (fun _ => nofun)
  have hearly : ∀ source, .reset source ∉ pointings e.position early :=
    Endpoint.reset_not_mem_of_acts (hconfined.runs hstart) fun any h => h any rfl
  refine ⟨early, started, hstart, fun event hm => ?_, ?_⟩
  · exact hsub _ (List.mem_cons_of_mem _ (hinside _ (List.mem_append_left _ hm)))
  · rw [hpointings, pointings_append, ← hfound]
    constructor
    · intro ⟨source, hmem⟩
      by_contra hn
      rw [if_neg (fun h => hn ⟨h.1, h.2.2⟩)] at hlate
      rw [hlate] at hmem
      exact hearly source (by simpa [pointings] using hmem)
    · intro ⟨hok, hsource⟩
      rw [if_pos ⟨hok, hm, hsource⟩] at hlate
      obtain ⟨reset, hreset⟩ := hlate
      have hsent := reset_mem_pointings.mpr (Endpoint.sent_of_reset hm hreset)
      exact ⟨found.forkUrl, List.mem_append_right _ hsent⟩

/-- The source and the stage of the start, as a view of the memory. -/
def setting (m : State) : String × StartStage := (m.forkUrl, m.start)

theorem keeps_setting_of_acts (ha : ∀ event ∈ trace, fleet.Acts asks event) :
    trace.Keeps setting := by
  intro before after hm
  obtain ⟨e, -, h⟩ := ha _ hm
  cases h <;> rfl

/-- A repoint of a fleet that has started resets its managed nodes. Before that it only notes down
the source. -/
theorem runs_repoint {url : String} (hr : (fleet.repoint url).Runs trace result)
    (hf : trace.Follows id m m') (he : e ∈ fleet.endpoints) (hm : e.role.isManaged) :
    trace = [] ∧ result = none ∨
      ∃ rest : Trace system, trace = .touched m { m with forkUrl := url } :: rest ∧ rest.Keeps setting ∧
        if m.start = .complete then
          (∀ x ∈ pointings e.position trace, x = .reset url) ∧
            (result ≠ none → .sent (.chain e.position (.reset url)) ∈ trace)
        else pointings e.position trace = [] := by
  rcases hr with hnone | ⟨⟨now, found⟩, rest, rfl, hrest⟩
  · exact .inl hnone
  · obtain rfl : found = m := hf.1
    refine .inr ⟨rest, rfl, ?_⟩
    dsimp only at hrest
    rw [pointings_touched]
    split at hrest
    · rename_i hs
      rw [if_pos hs]
      obtain ⟨values, hj, hvalues⟩ := Activity.exists_runs_of_dropped hrest
      have hsub : (fleet.endpoints.filter (·.role.isManaged)).Sublist fleet.endpoints :=
        List.filter_sublist
      have hconfined : (Activity.joinAll ((fleet.endpoints.filter (·.role.isManaged)).map
          fun e => (e.reset url).run)).Confined (fleet.Acts fun _ => True) :=
        confined_joinAll (fun _ h => hsub.subset h) fun e _ =>
          Endpoint.confined_reset trivial trivial
      obtain ⟨own, outcome, hown, hinside, hdone, heq⟩ := exists_part_of_endpoints hsub
        (fun e _ => Endpoint.confined_reset rfl rfl) hj (List.mem_filter.mpr ⟨he, hm⟩)
      refine ⟨keeps_setting_of_acts (hconfined.runs hj),
        heq ▸ Endpoint.eq_reset_of_mem_pointings hown, fun hres => ?_⟩
      obtain ⟨v, rfl⟩ := Option.ne_none_iff_exists'.mp (hdone (hvalues hres))
      exact List.mem_cons_of_mem _ (hinside _ (Endpoint.sent_of_reset hm hown))
    · rename_i hs
      obtain rfl : rest = [] := hrest.1
      rw [if_neg hs]
      exact ⟨by simp [Trace.Keeps], rfl⟩

theorem confined_recoverAll (fleet : Fleet) : fleet.recoverAll.Confined
    (fleet.Acts fun r => ∀ p source, r ≠ .chain p (.reset source)) := by
  refine (Activity.confined_memory fleet.acts_found).bind fun state => ?_
  refine (confined_joinAll (fun _ h => List.mem_of_mem_filter h) fun e _ => ?_).bind fun _ =>
    Activity.confined_pure _
  exact (Endpoint.confined_recover (fun _ _ _ => nofun) (fun _ _ => nofun)).bind fun _ =>
    Activity.confined_pure _

end Fleet

end ChainWatch
