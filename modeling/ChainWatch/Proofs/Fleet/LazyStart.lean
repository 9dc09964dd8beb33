import ChainWatch.Proofs.Fleet.Answers
import ChainWatch.Proofs.Fleet.History
import ChainWatch.Proofs.Fleet.Launch

/-!
# The lazy start

Reads of a fleet that has not started start it: one of them launches all endpoints, and the others wait
for that. Nobody asks the chain anything before all launches are over, however they have ended; and
whether a read is answered depends on what the endpoints answer to it then.
-/

namespace ChainWatch

open Concurrency

namespace Fleet

/-- How reads have started a fleet, taken apart at the moment at which the start was complete. -/
structure Opening where
  before : Trace system
  last : State
  after : Trace system
  /-- The reads in front of the one that started the fleet. -/
  front : List Visit
  starter : Visit
  rest : List Visit
  /-- The memory from which the chain source was taken. -/
  copied : State
  launch : Endpoint → Launch

def Opening.trace (o : Opening) : Trace system :=
  o.before ++ .touched o.last { o.last with start := .complete } :: o.after

def Opening.visits (o : Opening) : List Visit := o.front ++ o.starter :: o.rest

variable {fleet : Fleet} {reads : List Read} {answers : List (Except FleetFault Unit)}
  {trace waiting asked : Trace system} {asks : Request → Prop} {B : Type} {f : Request → Option B}
  {o : Opening} {e : Endpoint} {m m' : State} {stage : StartStage}

/-- One read launches each endpoint once. The others just look, or wait, until that is over; from then
on all reads ask, and nothing but the chain is asked. -/
structure Opens (fleet : Fleet) (o : Opening) : Prop where
  early : Shuffles (o.visits.map (·.early)) o.before
  late : Shuffles (o.visits.map (·.late)) o.after
  starts : ∃ found launching, found.start = .idle ∧
    o.starter.early = .touched found (claimed found) :: .touched o.copied o.copied :: launching ∧
      Shuffles (fleet.endpoints.map fun e => (o.launch e).own) launching
  launched : ∀ e ∈ fleet.endpoints, e.Launches o.copied.forkUrl (o.launch e)
  waits : ∀ v ∈ o.front ++ o.rest, ∀ event ∈ v.early, event.Still
  completes : o.last.start ≠ .complete
  asks : ∀ v ∈ o.visits, ∃ waiting asked, v.late = waiting ++ asked ∧
    (∀ event ∈ waiting, event.Still) ∧ fleet.Asks v.read asked v.answer
  reads : ∀ event ∈ o.after, event.Still ∨ fleet.Acts Request.IsRead event

/-! ## One wait for the start -/

/-- Nothing is done, and the start is seen to be complete in the end. -/
def Awaits (waiting : Trace system) : Prop :=
  (∀ event ∈ waiting, event.Still) ∧
    ∃ event ∈ waiting, ¬ Trace.Misses State.start (· = .complete) event

theorem runs_ensureStarted_some (hr : fleet.ensureStarted.Runs waiting (some ())) :
    (∃ (found last : State) (starting : Trace system), found.start = .idle ∧
      fleet.start.Runs starting (some ()) ∧ waiting = (.touched found (claimed found) :: starting) ++
        [.touched last { last with start := .complete }]) ∨ Awaits waiting := by
  obtain ⟨⟨now, found⟩, later, rfl, hl⟩ := begins_some.mp hr
  dsimp only at hl ⊢
  cases hs : found.start with
  | idle =>
      rw [hs] at hl
      obtain ⟨⟨⟩, starting, ending, hstart, hend, rfl⟩ := Activity.runs_bind_some.mp hl
      obtain ⟨last, rfl⟩ := Activity.runs_modify_some.mp hend
      refine .inl ⟨found, last, starting, hs, hstart, ?_⟩
      simp [claimed, hs]
  | running =>
      rw [hs] at hl
      obtain ⟨ready, hready, rfl⟩ := Activity.runs_await_some.mp hl
      refine .inr ⟨by simp [Event.Still], .noticed ready, by simp, ?_⟩
      simpa [Trace.Misses] using hready
  | complete =>
      rw [hs] at hl
      obtain ⟨rfl, -⟩ := Activity.runs_pure_some.mp hl
      refine .inr ⟨by simp [Event.Still], _, List.mem_cons_self .., ?_⟩
      simp [Trace.Misses, hs]

theorem Awaits.not_brings (h : Awaits waiting) (ha : ∀ event ∈ asked, fleet.Acts asks event) :
    ∀ event ∈ waiting ++ asked, Trace.Brings State.start (· = .complete) event = false :=
  List.forall_mem_append.mpr ⟨fun event he => Trace.not_brings_of_still (h.1 event he),
    fun event he => (ha event he).not_brings⟩

/-- As long as nobody has seen the start complete, one who awaits that is not through with it. -/
theorem Awaits.cut {early late : Trace system} (h : Awaits waiting)
    (heq : waiting ++ asked = early ++ late)
    (hm : ∀ event ∈ early, Trace.Misses State.start (· = .complete) event) :
    (∀ event ∈ early, event.Still) ∧
      ∃ waits, late = waits ++ asked ∧ ∀ event ∈ waits, event.Still := by
  obtain ⟨hstill, event, he, hn⟩ := h
  rcases List.append_eq_append_iff.mp heq with ⟨more, rfl, -⟩ | ⟨waits, rfl, rfl⟩
  · exact (hn (hm event (List.mem_append_left _ he))).elim
  · exact ⟨fun event he => hstill event (List.mem_append_left _ he), waits, rfl,
      fun event he => hstill event (List.mem_append_right _ he)⟩

/-- Of one who starts the fleet the only event that makes the start complete is the one that says so. -/
theorem cut_at_completion {found last : State} {starting early late : Trace system}
    {event : Event system} (hidle : found.start = .idle)
    (hs : ∀ event ∈ starting, fleet.Acts (fun _ => True) event)
    (ha : ∀ event ∈ asked, fleet.Acts asks event)
    (heq : (.touched found (claimed found) :: starting) ++
      .touched last { last with start := .complete } :: asked = early ++ event :: late)
    (hb : Trace.Brings State.start (· = .complete) event) :
    .touched found (claimed found) :: starting = early ∧
      .touched last { last with start := .complete } = event ∧ asked = late := by
  have out {part : Trace system}
      (hp : ∀ event ∈ part, Trace.Brings State.start (· = .complete) event = false) :
      event ∉ part := fun hm => by
    rw [hp event hm] at hb
    cases hb
  refine (List.append_cons_inj_of_notMem (out ?_) (out ?_)).mp heq
  · refine List.forall_mem_cons.mpr ⟨?_, fun event hm => (hs event hm).not_brings⟩
    simp [Trace.Brings, claimed, hidle]
  · exact fun event hm => (ha event hm).not_brings

theorem brings_claimed (hidle : m.start = .idle) :
    Trace.Brings State.start (· ≠ StartStage.idle) (.touched m (claimed m) : Event system) = true := by
  simp [Trace.Brings, claimed, hidle]

/-! ## All reads -/

/-- The stage leaves `idle` once, so no more than one read finds it idle. -/
theorem awaits_of_others {front rest : List Visit} {v : Visit}
    (hf : trace.Follows State.start .idle stage) (hs : ∀ event ∈ trace, fleet.Serves event)
    (hw : Shuffles ((front ++ v :: rest).map Visit.own) trace)
    (hr : ∀ d ∈ front ++ v :: rest, fleet.ensureStarted.Runs d.early (some ()))
    (hidle : m.start = .idle) (hm : .touched m (claimed m) ∈ v.early) :
    ∀ d ∈ front ++ rest, Awaits d.early := by
  have once := hf.countP_brings_le_one (P := (· ≠ .idle)) fun before after hm =>
    (hs _ hm).touched.2.1
  have hpos : 0 < v.own.countP (Trace.Brings State.start (· ≠ .idle)) :=
    List.countP_pos_iff.mpr ⟨_, List.mem_append_left _ hm, brings_claimed hidle⟩
  rw [List.map_append, List.map_cons] at hw
  have hzero := hw.countP_around once hpos
  intro d hd
  have hmem : d ∈ front ++ v :: rest :=
    ((List.sublist_cons_self v rest).append_left front).subset hd
  rcases runs_ensureStarted_some (hr d hmem) with ⟨found, last, starting, hfound, -, heq⟩ | hawaits
  · have hnone := hzero d.own (by
      rw [← List.map_append]
      exact List.mem_map_of_mem hd)
    refine absurd (brings_claimed hfound) (List.countP_eq_zero.mp hnone _ ?_)
    simp [Visit.own, heq]
  · exact hawaits

/-- Whoever gets through has seen the start complete. -/
theorem exists_seen {visits : List Visit} (hne : visits ≠ [])
    (hw : Shuffles (visits.map Visit.own) trace)
    (hr : ∀ v ∈ visits, fleet.ensureStarted.Runs v.early (some ())) :
    ∃ event ∈ trace, ¬ Trace.Misses State.start (· = .complete) event := by
  obtain ⟨v, hv⟩ := List.exists_mem_of_ne_nil visits hne
  have inside : ∀ event ∈ v.early, event ∈ trace := fun event he =>
    hw.mem_iff.mpr ⟨v.own, List.mem_map_of_mem hv, List.mem_append_left _ he⟩
  rcases runs_ensureStarted_some (hr v hv) with ⟨found, last, starting, -, -, heq⟩ |
    ⟨-, event, he, hn⟩
  · refine ⟨.touched last { last with start := .complete }, inside _ (by simp [heq]), ?_⟩
    exact fun h => h.2 rfl
  · exact ⟨event, inside event he, hn⟩

/-- A visit whose trace was cut somewhere. -/
def Visit.ofCut (cut : Visit × Trace system × Trace system) : Visit :=
  ⟨cut.1.read, cut.2.1, cut.2.2, cut.1.answer⟩

/-- The visits in front of the starter's, the starter's and those behind, cut when the start got
complete. -/
def Opening.ofCuts (before : Trace system) (last : State) (after : Trace system)
    (front : List (Visit × Trace system × Trace system)) (cut : Visit × Trace system × Trace system)
    (rest : List (Visit × Trace system × Trace system)) (copied : State)
    (launch : Endpoint → Launch) : Opening :=
  ⟨before, last, after, front.map .ofCut, .ofCut cut, rest.map .ofCut, copied, launch⟩

theorem visits_ofCuts {before after : Trace system} {last copied : State}
    {front rest : List (Visit × Trace system × Trace system)}
    {cut : Visit × Trace system × Trace system} {launch : Endpoint → Launch} :
    (Opening.ofCuts before last after front cut rest copied launch).visits =
      (front ++ cut :: rest).map .ofCut := by
  simp [Opening.ofCuts, Opening.visits]

/-- After the start was complete the visit has waited at most, and asked. -/
def Visit.AsksLate (fleet : Fleet) (v : Visit) : Prop :=
  ∃ waiting asked, v.late = waiting ++ asked ∧ (∀ event ∈ waiting, event.Still) ∧
    (fleet.asking v.read).Runs asked (some v.answer)

theorem reads_of_asksLate {v : Visit} (h : v.AsksLate fleet) :
    ∀ event ∈ v.late, event.Still ∨ fleet.Acts Request.IsRead event := by
  obtain ⟨waiting, asked, hlate, hstill, hasking⟩ := h
  rw [hlate]
  exact List.forall_mem_append.mpr ⟨fun event he => .inl (hstill event he),
    fun event he => .inr ((fleet.confined_asking v.read).runs hasking event he)⟩

/-- The run of reads is cut where the start gets complete. -/
theorem exists_opening (hne : reads ≠ []) (hr : (fleet.answerAll reads).Runs trace (some answers))
    (hf : trace.Follows State.start .idle stage) :
    ∃ o : Opening, o.trace = trace ∧ o.visits.map (·.read) = reads ∧
      o.visits.map (·.answer) = answers ∧ fleet.Opens o := by
  obtain ⟨visits, rfl, rfl, hw, hvisits⟩ := exists_visits hr
  have asking : ∀ v ∈ visits, ∀ event ∈ v.late, fleet.Acts Request.IsRead event := fun v hv =>
    (fleet.confined_asking v.read).runs (hvisits v hv).2
  obtain ⟨event, hm, hn⟩ := exists_seen (by rintro rfl; exact hne rfl) hw
    fun v hv => (hvisits v hv).1
  obtain ⟨before, event, after, rfl, hbrings, hmisses⟩ := hf.exists_first (by nofun) hm hn
  obtain ⟨cuts, rfl, hcuts, hearly, hlate⟩ := hw.split
  obtain ⟨front, cut, rest, late, rfl, hcut, hafter⟩ := hlate.uncons
  have hown : cut.1.own = cut.2.1 ++ event :: late := by rw [hcuts cut (by simp), hcut]
  have hstarter : cut.1 ∈ (front ++ cut :: rest).map (·.1) := List.mem_map_of_mem (by simp)
  have around : front ++ rest ⊆ front ++ cut :: rest :=
    ((List.sublist_cons_self cut rest).append_left front).subset
  rcases runs_ensureStarted_some (hvisits cut.1 hstarter).1 with
    ⟨found, last, starting, hidle, hstart, heq⟩ | hawaits
  · obtain ⟨hbegun, rfl, rfl⟩ := cut_at_completion hidle (fleet.confined_start.runs hstart)
      (asking cut.1 hstarter) (by rw [← hown, Visit.own, heq, List.append_assoc]; rfl) hbrings
    obtain ⟨copied, launching, launch, rfl, hlaunching, hlaunches⟩ := exists_launches hstart
    have awaits : ∀ d ∈ front ++ rest, Awaits d.1.early := by
      rw [List.map_append, List.map_cons] at hw hvisits
      have others := awaits_of_others hf (serves_of_answerAll hr) hw (fun v hv => (hvisits v hv).1)
        hidle (by simp [heq])
      rw [← List.map_append] at others
      exact fun d hd => others d.1 (List.mem_map_of_mem hd)
    -- nobody in front of the cut has seen the start complete, so no other read asks there
    have others : ∀ d ∈ front ++ rest, (∀ event ∈ d.2.1, event.Still) ∧
        (Visit.ofCut d).AsksLate fleet := by
      intro d hd
      obtain ⟨hstill, waiting, hlate, hwaiting⟩ :=
        (awaits d hd).cut (hcuts d (around hd)) fun event he =>
          hmisses event (hearly.mem_iff.mpr ⟨d.2.1, List.mem_map_of_mem (around hd), he⟩)
      exact ⟨hstill, waiting, d.1.late, hlate, hwaiting,
        (hvisits d.1 (List.mem_map_of_mem (around hd))).2⟩
    obtain ⟨hfront, hrest⟩ := List.forall_mem_append.mp others
    have shares : ∀ d ∈ front ++ (cut.1, cut.2.1, cut.1.late) :: rest,
        (Visit.ofCut d).AsksLate fleet :=
      List.forall_mem_append.mpr ⟨fun d hd => (hfront d hd).2, List.forall_mem_cons.mpr
        ⟨⟨[], cut.1.late, rfl, by simp, (hvisits cut.1 hstarter).2⟩, fun d hd => (hrest d hd).2⟩⟩
    have hafter : Shuffles ((front ++ (cut.1, cut.2.1, cut.1.late) :: rest).map (·.2.2)) after := by
      simpa using hafter
    refine ⟨.ofCuts before last after front (cut.1, cut.2.1, cut.1.late) rest copied launch, rfl,
      ?_, ?_, ?_, ?_, ?_, hlaunches, ?_, ?_, ?_, ?_⟩
    · simp [visits_ofCuts, Visit.ofCut, Function.comp_def]
    · simp [visits_ofCuts, Visit.ofCut, Function.comp_def]
    · rw [visits_ofCuts]
      simpa [Opening.ofCuts, Visit.ofCut, Function.comp_def] using hearly
    · rw [visits_ofCuts]
      simpa [Opening.ofCuts, Visit.ofCut, Function.comp_def] using hafter
    · exact ⟨found, launching, hidle, hbegun.symm, hlaunching⟩
    · exact List.forall_mem_append.mpr ⟨List.forall_mem_map.mpr fun d hd => (hfront d hd).1,
        List.forall_mem_map.mpr fun d hd => (hrest d hd).1⟩
    · simpa [Opening.ofCuts, Trace.Brings] using hbrings
    · rw [visits_ofCuts]
      refine List.forall_mem_map.mpr fun d hd => ?_
      obtain ⟨waiting, asked, hlate, hstill, hasking⟩ := shares d hd
      exact ⟨waiting, asked, hlate, hstill, asks_of_runs hasking⟩
    · intro event he
      obtain ⟨part, hp, he⟩ := hafter.mem_iff.mp he
      obtain ⟨d, hd, rfl⟩ := List.mem_map.mp hp
      exact reads_of_asksLate (shares d hd) event he
  · -- one who waits for the completion does not bring it about
    exfalso
    have hnot := hawaits.not_brings (asking cut.1 hstarter) event (by rw [← Visit.own, hown]; simp)
    rw [hbrings] at hnot
    cases hnot

/-! ## What the endpoints are asked -/

theorem requested_of_still (h : ∀ event ∈ trace, event.Still) : requested f trace = [] :=
  requested_eq_nil fun _ hm => (h _ hm).elim

/-- Before the start is complete an endpoint is asked what belongs to its launch. -/
theorem Opens.requested_before (h : fleet.Opens o) (he : e ∈ fleet.endpoints)
    (hf : Administers e.position f) : requested f o.before = requested f (o.launch e).own := by
  obtain ⟨found, launching, -, hstarter, hlaunching⟩ := h.starts
  have hparts : Shuffles (o.front.map (fun v => requested f v.early) ++ requested f o.starter.early ::
      o.rest.map fun v => requested f v.early) (requested f o.before) := by
    have hearly := requested_shuffles (f := f) h.early
    simpa [Opening.visits, Function.comp_def] using hearly
  rw [hparts.eq_of_around_nil, hstarter, requested_touched, requested_touched]
  · exact requested_of_endpoints (List.Sublist.refl _) hlaunching
      (fun e he => (h.launched e he).acts) he hf.about
  · intro part hp
    rw [← List.map_append] at hp
    obtain ⟨v, hv, rfl⟩ := List.mem_map.mp hp
    exact requested_of_still (h.waits v hv)

theorem Opens.requested_after (h : fleet.Opens o) {p : Nat} (hf : Administers p f) :
    requested f o.after = [] := by
  refine requested_eq_nil fun r hm => ?_
  rcases h.reads _ hm with hstill | ⟨e, -, ha⟩
  · exact hstill.elim
  · cases ha with
    | sent hr => exact hf.reads r hr

theorem Opens.requested_trace (h : fleet.Opens o) (he : e ∈ fleet.endpoints)
    (hf : Administers e.position f) : requested f o.trace = requested f (o.launch e).own := by
  rw [Opening.trace, requested_append, requested_touched, h.requested_before he hf,
    h.requested_after hf, List.append_nil]

theorem Opens.launches_trace (h : fleet.Opens o) (he : e ∈ fleet.endpoints) :
    launches e.position o.trace = e.role.containers := by
  rw [← (h.launched e he).launches_own]
  exact h.requested_trace he (administers_presence? _)

theorem Opens.resets_trace (h : fleet.Opens o) (he : e ∈ fleet.endpoints) :
    resets e.position o.trace = if (o.launch e).outcome.isOk ∧ e.role.isManaged ∧
      o.copied.forkUrl ≠ "" then [o.copied.forkUrl] else [] := by
  rw [← (h.launched e he).resets_own]
  exact h.requested_trace he (administers_reset? _)

theorem Opens.copied_mem (h : fleet.Opens o) : .touched o.copied o.copied ∈ o.trace := by
  obtain ⟨found, launching, -, hstarter, -⟩ := h.starts
  refine List.mem_append_left _ (h.early.mem_iff.mpr ⟨o.starter.early, ?_, by simp [hstarter]⟩)
  exact List.mem_map_of_mem (by simp [Opening.visits])

/-- Reads of a fleet that has not started all end. Each endpoint is started once, by one of them, and
before that is over nobody asks anything for a read. A managed endpoint that has come up is reset once,
to the source that is known, unless that is empty; nobody else is reset. How the launches have ended is
nothing to the reads: a read is answered when some endpoint does its share of it. -/
theorem answerAll_starts_once (fleet : Fleet) (reads : List Read) (hne : reads ≠ []) :
    (∀ {σ : Type} (h : Handler system σ) (now : Nat) (w : World system σ),
      w.memory.start ≠ .running → ∃ answers trace,
        ((fleet.answerAll reads).run h now w).value? = some answers ∧
          (fleet.answerAll reads).Runs trace (some answers) ∧
          trace.Leads h w ((fleet.answerAll reads).run h now w).world) ∧
    ∀ (trace : Trace system) (answers : List (Except FleetFault Unit)) (m m' : State),
      m.start = .idle → (fleet.answerAll reads).Runs trace (some answers) →
      trace.Follows id m m' →
      ∃ o : Opening, o.trace = trace ∧ o.visits.map (·.read) = reads ∧
        o.visits.map (·.answer) = answers ∧ fleet.Opens o ∧ o.copied.forkUrl = m.forkUrl ∧
        ∀ e ∈ fleet.endpoints, launches e.position trace = e.role.containers ∧
          resets e.position trace = if (o.launch e).outcome.isOk ∧ e.role.isManaged ∧
            m.forkUrl ≠ "" then [m.forkUrl] else [] := by
  constructor
  · intro σ h now w hs
    obtain ⟨answers, hv⟩ := fleet.exists_value_of_answerAll reads h now w hs
    obtain ⟨trace, hr, hl⟩ := Activity.exists_trace_of_run h now (fleet.answerAll reads) w
    exact ⟨answers, trace, hv, hv ▸ hr, hl⟩
  · intro trace answers m m' hidle hr hf
    have hstages : trace.Follows State.start .idle m'.start := by
      rw [← hidle]
      exact hf.through State.start
    obtain ⟨o, rfl, hreads, hanswers, hopens⟩ := exists_opening hne hr hstages
    have hcopied : o.copied.forkUrl = m.forkUrl :=
      (hf.through State.forkUrl).found (P := (· = m.forkUrl)) rfl
        (fun before after hm hp => (serves_of_answerAll hr _ hm).touched.1.trans hp) hopens.copied_mem
    refine ⟨o, rfl, hreads, hanswers, hopens, hcopied, fun e he => ⟨hopens.launches_trace he, ?_⟩⟩
    rw [hopens.resets_trace he, hcopied]

namespace Solo

def asking (m : State) : Trace system :=
  exchange (.chain 0 .blockNumber) (.ok 1) ++ [.touched m (m.mark 0 true)]

/-- What is left of the first read when the second one comes. -/
def begun : Trace system := starting.tail ++ asking (state .complete [])

def waited : Trace system := .noticed (state .complete []) :: asking (state .complete [])

/-- Of two reads the second one comes while the first one starts the fleet. -/
def overlapping : Trace system :=
  .touched (state .idle []) (state .running []) ::
    .touched (state .running []) (state .running []) :: (begun ++ waited)

theorem runs_answer {trace : Trace system} (m : State)
    (h : solo.ensureStarted.Runs trace (some ())) :
    (solo.answer .blockNumber).Runs (trace ++ asking m) (some (.ok ())) := by
  have asked : soloist.blockNumber.run.Runs (asking m) (some (.ok 1)) :=
    Endpoint.runs_ask_some.mpr ⟨m, rfl⟩
  rw [answer_eq]
  refine Activity.runs_bind_some.mpr ⟨(), trace, asking m, h, ?_, rfl⟩
  exact Activity.runs_bind_some.mpr ⟨_, asking m, [], Activity.runs_joinAll_singleton asked,
    ⟨rfl, .inr rfl⟩, rfl⟩

theorem runs_overlapping :
    (solo.answerAll [.blockNumber, .blockNumber]).Runs overlapping (some [.ok (), .ok ()]) := by
  have waiting : solo.ensureStarted.Runs [.touched (state .running []) (state .running []),
      .noticed (state .complete [])] (some ()) :=
    Activity.runs_touch (I := system) (state .running [])
      (Activity.runs_await_some.mpr ⟨state .complete [], rfl, rfl⟩)
  have first := runs_answer (state .complete []) runs_starting
  have second := runs_answer (state .complete []) waiting
  refine Activity.runs_joinBounded_some.mpr ⟨_, _, _, some [.ok ()], first,
    ⟨_, [], _, some [], second, ⟨rfl, rfl⟩, .nil_right _, rfl⟩, ?_, rfl⟩
  exact .left (.right (Shuffle.concat begun waited))

theorem answerAll_starts_once_overlapping :
    (state .idle []).start = .idle ∧
      (solo.answerAll [.blockNumber, .blockNumber]).Runs overlapping (some [.ok (), .ok ()]) ∧
      overlapping.Follows id (state .idle []) (state .complete []) ∧
      launches 0 overlapping = ["solo"] ∧ resets 0 overlapping = ["source"] := by
  have follows : overlapping.Follows id (state .idle []) (state .complete []) := by
    repeat' constructor
  obtain ⟨-, described⟩ := answerAll_starts_once solo [.blockNumber, .blockNumber] (by simp)
  obtain ⟨o, -, -, -, -, -, hasked⟩ :=
    described overlapping _ (state .idle []) _ rfl runs_overlapping follows
  obtain ⟨hlaunches, hresets⟩ := hasked soloist (List.mem_singleton.mpr rfl)
  refine ⟨rfl, runs_overlapping, follows, hlaunches, ?_⟩
  have sent : resets 0 overlapping ≠ [] := by decide
  split at hresets
  · exact hresets
  · exact (sent hresets).elim

end Solo

end Fleet

end ChainWatch
