import ChainWatch.Proofs.Fleet.LazyStart
import ChainWatch.Proofs.Fleet.Reset

/-!
# A repoint beside the lazy start

The start of a fleet takes the chain source when it begins, and it is complete when all launches are
over. A repoint in between only notes its source down, and nobody takes it from there: the nodes are
left with the source that the start has taken.
-/

namespace ChainWatch

open Concurrency

namespace Fleet

variable {fleet : Fleet} {reads : List Read} {answers : List (Except FleetFault Unit)}
  {trace turn : Trace system} {url : String} {o : Opening} {found m m' : State} {stage : StartStage}

/-- Reads, and a repoint beside them. -/
def race (fleet : Fleet) (reads : List Read) (url : String) :
    Job (List (Except FleetFault Unit) × Unit) :=
  Activity.both (fleet.answerAll reads) (fleet.repoint url)

/-- A repoint notes the source down, and resets the managed nodes if the start is complete. -/
theorem exists_turn_of_repoint (hr : (fleet.repoint url).Runs trace (some ())) :
    ∃ (found : State) (turn : Trace system),
      trace = .touched found { found with forkUrl := url } :: turn ∧ turn.Keeps setting ∧
      (found.start ≠ .complete → turn = []) ∧
      ∀ e ∈ fleet.endpoints, resets e.position turn =
        if e.role.isManaged ∧ found.start = .complete then [url] else [] := by
  obtain ⟨⟨now, found⟩, turn, rfl, hl⟩ := begins_some.mp hr
  refine ⟨found, turn, rfl, ?_⟩
  dsimp only at hl
  split at hl
  · rename_i hs
    obtain ⟨results, turn, last, hj, hp, rfl⟩ := Activity.runs_bind_some.mp hl
    obtain ⟨rfl, -⟩ := Activity.runs_pure_some.mp hp
    rw [List.append_nil]
    have hsub : (fleet.endpoints.filter (·.role.isManaged)).Sublist fleet.endpoints :=
      List.filter_sublist
    have : Nonempty (Except NodeFault Unit) := ⟨.ok ()⟩
    obtain ⟨own, outcome, hown, hw, -⟩ :=
      Activity.exists_runs_of_joinAll (fleet.nodup_endpoints.sublist hsub) hj
    have acts : ∀ e ∈ fleet.endpoints.filter (·.role.isManaged), ∀ event ∈ own e,
        e.Acts (Request.About e.position) event := fun e he => by
      have hc : (e.reset url).run.Confined (e.Acts (Request.About e.position)) :=
        Endpoint.confined_reset rfl rfl
      exact hc.runs (hown e he)
    refine ⟨hw.keeps fun part hp => ?_, fun hn => (hn hs).elim, fun e he => ?_⟩
    · obtain ⟨e, he, rfl⟩ := List.mem_map.mp hp
      exact Endpoint.keeps_of_acts (acts e he) fun _ _ => rfl
    · by_cases hm : e.role.isManaged
      · have hmem : e ∈ fleet.endpoints.filter (·.role.isManaged) := by simp [he, hm]
        rw [if_pos ⟨hm, hs⟩, ← Endpoint.resets_of_reset hm (hown e hmem)]
        exact requested_of_endpoints hsub hw acts hmem (administers_reset? _).about
      · rw [if_neg fun h => hm h.1]
        refine requested_eq_nil fun r hsent => (administers_reset? _).about r ?_
        exact not_about_of_others hsub hw acts he (fun h => (hm (List.mem_filter.mp h).2).elim) hsent
  · rename_i hs
    obtain ⟨rfl, -⟩ := Activity.runs_pure_some.mp hl
    refine ⟨by simp [Trace.Keeps], fun _ => rfl, fun e _ => ?_⟩
    rw [if_neg fun h => hs h.2]
    rfl

/-- At every moment before the start is complete it has been begun, or the source is still to be
taken. -/
theorem Opens.claimed_or_copied_late (h : fleet.Opens o) {early late : Trace system}
    (hb : o.before = early ++ late) :
    (∃ first, .touched first (claimed first) ∈ early) ∨
      .touched o.copied o.copied ∈ late := by
  obtain ⟨first, launching, -, hstarter, -⟩ := h.starts
  have hearly := h.early
  rw [hb] at hearly
  obtain ⟨cuts, hcuts, hown, hfirst, hsecond⟩ := hearly.split
  have hmem : o.starter ∈ cuts.map (·.1) := hcuts ▸ by simp [Opening.visits]
  obtain ⟨cut, hcut, heq⟩ := List.mem_map.mp hmem
  have hparts := hown cut hcut
  rw [heq, hstarter] at hparts
  cases hc : cut.2.1 with
  | nil =>
      rw [hc, List.nil_append] at hparts
      exact .inr (hsecond.mem_iff.mpr ⟨cut.2.2, List.mem_map_of_mem hcut, by simp [← hparts]⟩)
  | cons event part =>
      rw [hc] at hparts
      obtain ⟨rfl, -⟩ := List.cons.inj hparts
      exact .inl ⟨first, hfirst.mem_iff.mpr ⟨cut.2.1, List.mem_map_of_mem hcut, by simp [hc]⟩⟩

/-- How reads and a repoint beside them lie in one trace, cut where the repoint notes its source
down. -/
structure Meets (o : Opening) (url : String) (trace : Trace system) (found : State)
    (early late turn after : Trace system) : Prop where
  reads : o.trace = early ++ late
  whole : trace = early ++ .touched found { found with forkUrl := url } :: after
  rest : Shuffle late turn after

theorem not_completed_late {early late : Trace system} (heq : o.trace = early ++ late)
    (hn : .touched o.last { o.last with start := .complete } ∉ late) :
    ∃ others, o.after = others ++ late := by
  rcases List.append_eq_append_iff.mp heq with ⟨more, -, hmore⟩ | ⟨more, -, rfl⟩
  · cases more with
    | nil =>
        have hlate : late = .touched o.last { o.last with start := .complete } :: o.after := hmore.symm
        exact (hn (by rw [hlate]; exact List.mem_cons_self ..)).elim
    | cons event more => exact ⟨more, (List.cons.inj hmore).2⟩
  · exact (hn (by simp)).elim

theorem not_completed_early {early late : Trace system} (heq : o.trace = early ++ late)
    (hn : .touched o.last { o.last with start := .complete } ∉ early) :
    ∃ others, o.before = early ++ others ∧ ∀ event ∈ others, event ∈ late := by
  rcases List.append_eq_append_iff.mp heq with ⟨more, rfl, hmore⟩ | ⟨more, hbefore, rfl⟩
  · cases more with
    | nil => exact ⟨[], by simp⟩
    | cons event more =>
        obtain ⟨rfl, -⟩ := List.cons.inj hmore
        exact (hn (by simp)).elim
  · exact ⟨more, hbefore, fun event he => List.mem_append_left _ he⟩

section Meets

variable {early late after : Trace system}

theorem Meets.follows (h : Meets o url trace found early late turn after)
    (hf : trace.Follows id m m') :
    early.Follows id m found ∧ after.Follows id { found with forkUrl := url } m' := by
  rw [h.whole] at hf
  obtain ⟨_, hearly, rfl, hafter⟩ := Trace.follows_append.mp hf
  exact ⟨hearly, hafter⟩

/-- From the repoint on the source stays what it is, and the start is not taken back. -/
theorem Meets.kept (h : Meets o url trace found early late turn after)
    (hs : ∀ event ∈ o.trace, fleet.Serves event) (hk : turn.Keeps setting) {before later : State}
    (hm : .touched before later ∈ after) :
    later.forkUrl = before.forkUrl ∧ (before.start = .complete → later.start = .complete) := by
  rcases h.rest.mem_iff.mp hm with hm | hm
  · have hserves := hs _ (h.reads ▸ List.mem_append_right _ hm)
    exact ⟨hserves.touched.1, hserves.touched.2.2⟩
  · obtain ⟨hfork, hstart⟩ := Prod.mk.inj (hk before later hm)
    exact ⟨hfork, fun hc => hstart.trans hc⟩

variable (h : Meets o url trace found early late turn after)
  (hs : ∀ event ∈ o.trace, fleet.Serves event) (hk : turn.Keeps setting)
  (hf : trace.Follows id m m')
include h hs hf

theorem Meets.completed_early :
    .touched o.last { o.last with start := .complete } ∈ early → found.start = .complete := fun hm =>
  ((h.follows hf).1.through State.start).reached (P := (· = .complete))
    (fun _ _ hb => (hs _ (h.reads ▸ List.mem_append_left _ hb)).touched.2.2) hm rfl

theorem Meets.claimed_early {first : State} (hm : .touched first (claimed first) ∈ early) :
    found.start ≠ .idle :=
  ((h.follows hf).1.through State.start).reached (P := (· ≠ .idle))
    (fun _ _ hb => (hs _ (h.reads ▸ List.mem_append_left _ hb)).touched.2.1) hm
    (start_claimed_ne_idle first)

theorem Meets.copied_early (hm : .touched o.copied o.copied ∈ early) :
    o.copied.forkUrl = m.forkUrl :=
  ((h.follows hf).1.through State.forkUrl).found (P := (· = m.forkUrl)) rfl
    (fun _ _ hb hp => (hs _ (h.reads ▸ List.mem_append_left _ hb)).touched.1.trans hp) hm

include hk

theorem Meets.copied_late (hm : .touched o.copied o.copied ∈ late) : o.copied.forkUrl = url :=
  ((h.follows hf).2.through State.forkUrl).found (P := (· = url)) rfl
    (fun _ _ hb hp => (h.kept hs hk hb).1.trans hp) (h.rest.mem_iff.mpr (.inl hm))

theorem Meets.forkUrl : m'.forkUrl = url :=
  ((h.follows hf).2.through State.forkUrl).stable (P := (· = url)) rfl
    fun _ _ hb hp => (h.kept hs hk hb).1.trans hp

theorem Meets.completed_late (ho : fleet.Opens o) (hc : found.start = .complete) :
    .touched o.last { o.last with start := .complete } ∉ late := fun hm =>
  ho.completes <| ((h.follows hf).2.through State.start).found (P := (· = .complete)) hc
    (fun _ _ hb => (h.kept hs hk hb).2) (h.rest.mem_iff.mpr (.inl hm))

/-- The resets of the start come first, and then those of the repoint. -/
theorem Meets.resets_trace (ho : fleet.Opens o) (ht : found.start ≠ .complete → turn = []) {p : Nat} :
    resets p trace = resets p o.trace ++ resets p turn := by
  have hparts : Shuffle (resets p late) (resets p turn) (resets p after) :=
    h.rest.filterMap _
  have hlate : resets p late = [] ∨ turn = [] := by
    by_cases hc : found.start = .complete
    · obtain ⟨others, heq⟩ := not_completed_late h.reads (h.completed_late hs hk hf ho hc)
      have hafter : resets p o.after = [] := ho.requested_after (administers_reset? p)
      rw [heq, resets_append] at hafter
      exact .inl (List.append_eq_nil_iff.mp hafter).2
    · exact .inr (ht hc)
  have hafter : resets p after = resets p late ++ resets p turn := by
    rcases hlate with hnone | rfl
    · rw [hnone] at hparts ⊢
      exact hparts.swap.eq_of_nil_right
    · exact hparts.eq_of_nil_right.trans (List.append_nil _).symm
  have hwhole : resets p trace = resets p early ++ resets p after := by
    rw [h.whole, resets_append]
    rfl
  rw [hwhole, hafter, h.reads, resets_append, List.append_assoc]

end Meets

/-- Beside the start of a fleet a repoint notes its source down. The nodes that come up are reset to
the source that the start has taken, and then by the repoint if that has found the start complete. So a
node was last told the new source unless the repoint has come when the start had taken another one and
was not yet complete; one that comes before the start is never too late. -/
theorem last_reset_of_race (fleet : Fleet) (reads : List Read) (url : String) (hne : reads ≠ [])
    (hurl : url ≠ "") (trace : Trace system) (answers : List (Except FleetFault Unit)) (m m' : State)
    (hidle : m.start = .idle) (hr : (fleet.race reads url).Runs trace (some (answers, ())))
    (hf : trace.Follows id m m') :
    ∃ (o : Opening) (found : State) (turn : Trace system), fleet.Opens o ∧
      o.visits.map (·.read) = reads ∧
      Shuffle o.trace (.touched found { found with forkUrl := url } :: turn) trace ∧
      m'.forkUrl = url ∧ (o.copied.forkUrl = url ∨ o.copied.forkUrl = m.forkUrl) ∧
      (found.start = .idle → o.copied.forkUrl = url) ∧
      ∀ e ∈ fleet.endpoints, e.role.isManaged → (o.launch e).outcome.isOk →
        (resets e.position trace = (if o.copied.forkUrl ≠ "" then [o.copied.forkUrl] else []) ++
          if found.start = .complete then [url] else []) ∧
        ((resets e.position trace).getLast? = some url ↔
          found.start = .complete ∨ o.copied.forkUrl = url) := by
  obtain ⟨left, right, hreads, hrepoint, hw⟩ := Activity.runs_both_some.mp hr
  obtain ⟨found, turn, rfl, hk, hquiet, hresets⟩ := exists_turn_of_repoint hrepoint
  have hstages : left.Follows State.start .idle m'.start := by
    refine hw.follows ?_ (hidle ▸ hf.through State.start)
    intro before later hm
    rcases List.mem_cons.mp hm with heq | hm
    · cases heq
      rfl
    · exact (Prod.mk.inj (hk before later hm)).2
  obtain ⟨o, rfl, hvisits, -, ho⟩ := exists_opening hne hreads hstages
  have hs := serves_of_answerAll hreads
  obtain ⟨early, late, after, hcut, hwhole, hrest⟩ := hw.uncons_right
  have h : Meets o url trace found early late turn after := ⟨hcut, hwhole, hrest⟩
  have hcopied : .touched o.copied o.copied ∈ early ++ late := hcut ▸ ho.copied_mem
  refine ⟨o, found, turn, ho, hvisits, hw, h.forkUrl hs hk hf, ?_, fun hi => ?_, fun e he hm hok => ?_⟩
  · rcases List.mem_append.mp hcopied with hc | hc
    · exact .inr (h.copied_early hs hf hc)
    · exact .inl (h.copied_late hs hk hf hc)
  · have hnot : .touched o.last { o.last with start := .complete } ∉ early := fun hc => by
      rw [h.completed_early hs hf hc] at hi
      cases hi
    obtain ⟨others, hbefore, hothers⟩ := not_completed_early hcut hnot
    rcases ho.claimed_or_copied_late hbefore with ⟨first, hclaim⟩ | hc
    · exact (h.claimed_early hs hf hclaim hi).elim
    · exact h.copied_late hs hk hf (hothers _ hc)
  · have htrace : resets e.position trace =
        (if o.copied.forkUrl ≠ "" then [o.copied.forkUrl] else []) ++
          if found.start = .complete then [url] else [] := by
      rw [h.resets_trace hs hk hf ho hquiet, ho.resets_trace he, hresets e he]
      simp [hm, hok]
    refine ⟨htrace, ?_⟩
    rw [htrace]
    by_cases hc : found.start = .complete
    · simp [hc]
    · by_cases hsource : o.copied.forkUrl = ""
      · simp [hc, hsource, hurl.symm]
      · simp [hc, hsource]

/-! ## A source that is lost -/

/-- What was asked was done. -/
def granted : Event system → Bool
  | .answered (.chain _ _) answer => answer.isOk
  | .answered (.container _ _) answer => answer.isOk
  | _ => true

namespace Solo

/-- The new source has been noted down. -/
def noted (stage : StartStage) : State := ⟨[], "fork", stage, .empty⟩

/-- A read starts the fleet; it takes the source right away, and goes on when the repoint is over. -/
def reading : Trace system :=
  launching (noted .running) ++ asking (noted .complete)

/-- The repoint comes when the start has taken the source. -/
def lateRepoint : Trace system :=
  reading.take 2 ++ .touched (state .running []) (noted .running) :: reading.drop 2

theorem runs_lateRepoint :
    (solo.race [.blockNumber] "fork").Runs lateRepoint (some ([.ok ()], ())) := by
  have reads : (solo.answerAll [.blockNumber]).Runs reading (some [.ok ()]) :=
    Activity.runs_joinAll_singleton (runs_answer _ (runs_launching _))
  have repoints : (solo.repoint "fork").Runs [.touched (state .running []) (noted .running)]
      (some ()) :=
    Activity.runs_touch (I := system) (state .running []) ⟨rfl, .inr rfl⟩
  refine Activity.runs_both_some.mpr ⟨_, _, reads, repoints, ?_⟩
  exact .left (.left (.right (.nil_right _)))

theorem follows_lateRepoint : lateRepoint.Follows id (state .idle []) (noted .complete) := by
  repeat' constructor

theorem resets_lateRepoint : resets 0 lateRepoint = ["source"] := by
  decide

theorem last_reset_of_lateRepoint :
    [Read.blockNumber] ≠ [] ∧ "fork" ≠ "" ∧ (state .idle []).start = .idle ∧
      (solo.race [.blockNumber] "fork").Runs lateRepoint (some ([.ok ()], ())) ∧
      lateRepoint.Follows id (state .idle []) (noted .complete) ∧
      ∃ o : Opening, solo.Opens o ∧
        (o.copied.forkUrl = "fork" ∨ o.copied.forkUrl = (state .idle []).forkUrl) ∧
        ((o.launch soloist).outcome.isOk → o.copied.forkUrl ≠ "fork") := by
  obtain ⟨o, found, turn, ho, -, -, -, hcopied, -, hresets⟩ :=
    last_reset_of_race solo [.blockNumber] "fork" (by simp) (by decide) lateRepoint [.ok ()]
      (state .idle []) (noted .complete) rfl runs_lateRepoint follows_lateRepoint
  refine ⟨by simp, by decide, rfl, runs_lateRepoint, follows_lateRepoint, o, ho, hcopied, ?_⟩
  intro hok htaken
  have hlast := (hresets soloist (List.mem_singleton.mpr rfl) rfl hok).2.mpr (.inr htaken)
  have hsource : (resets soloist.position lateRepoint).getLast? = some "source" :=
    congrArg List.getLast? resets_lateRepoint
  rw [hsource] at hlast
  exact absurd (Option.some.inj hlast) (by decide)

/-- A source that is noted down while the fleet starts may be lost, although all goes well. -/
theorem source_lost_beside_start :
    ¬ ∀ (fleet : Fleet) (reads : List Read) (url : String) (trace : Trace system)
      (answers : List (Except FleetFault Unit)) (m m' : State), reads ≠ [] → url ≠ "" →
      m.start = .idle → (fleet.race reads url).Runs trace (some (answers, ())) →
      trace.Follows id m m' → trace.all granted = true →
      ∀ e ∈ fleet.endpoints, e.role.isManaged →
        (resets e.position trace).getLast? = some url := by
  intro kept
  have last := kept solo [.blockNumber] "fork" lateRepoint [.ok ()] (state .idle [])
    (noted .complete) (by simp) (by decide) rfl runs_lateRepoint follows_lateRepoint (by decide)
    soloist (List.mem_singleton.mpr rfl) rfl
  have source : (resets soloist.position lateRepoint).getLast? = some "source" :=
    congrArg List.getLast? resets_lateRepoint
  rw [source] at last
  exact absurd (Option.some.inj last) (by decide)

end Solo

end Fleet

end ChainWatch
