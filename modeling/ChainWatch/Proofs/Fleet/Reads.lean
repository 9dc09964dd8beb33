import ChainWatch.Proofs.Fleet.Start

/-!
# Reads side by side

Any number of reads may be under way at once. One of them starts the fleet, unless it has started
before; the others wait for that. Whatever is asked of the outside beyond the chain itself is asked by
this start.
-/

namespace ChainWatch

open Concurrency

/-- A question about the chain. It changes nothing there. -/
def Request.IsRead : Request → Prop
  | .chain _ (.reset _) => False
  | .chain _ _ => True
  | _ => False

/-- A read through the fleet. -/
inductive Read where
  | blockNumber
  | view (address : Address) (contract : Abi.Contract) (method : String) (inputs : List Abi.Value)
  | proxy (address : Address)

namespace Fleet

variable {fleet : Fleet} {r : Read} {reads : List Read} {trace : Trace system}
  {result : Option Unit} {m m' : State}

def read (fleet : Fleet) : Read → Job Unit
  | .blockNumber => do
    let _ ← fleet.blockNumber.run
    return
  | .view address contract method inputs => do
    let _ ← (fleet.callView address contract method inputs).run
    return
  | .proxy address => do
    let _ ← (fleet.proxyInfo address).run
    return

/-- A read, and whether it is answered. -/
def answer (fleet : Fleet) : Read → Job (Except FleetFault Unit)
  | .blockNumber => do
    let height ← fleet.blockNumber.run
    return height.map fun _ => ()
  | .view address contract method inputs => do
    let outputs ← (fleet.callView address contract method inputs).run
    return outputs.map fun _ => ()
  | .proxy address => do
    let info ← (fleet.proxyInfo address).run
    return info.map fun _ => ()

/-- Ask all endpoints, and draw a conclusion. -/
def askAll {β γ : Type} (fleet : Fleet) (job : Endpoint → Job β) (conclude : List β → γ) : Job γ := do
  let answers ← Activity.joinAll (fleet.endpoints.map job)
  return conclude answers

/-- A read fails when nothing was found. -/
def concluded {α : Type} (fault : FleetFault) : Option α → Except FleetFault Unit
  | some _ => .ok ()
  | none => .error fault

/-- What a read does after the start of the fleet. -/
def asking (fleet : Fleet) : Read → Job (Except FleetFault Unit)
  | .blockNumber => fleet.askAll (fun e => e.blockNumber.run) fun answers =>
    concluded .blockNumber (answers.filterMap Except.toOption).max?
  | .view address contract method inputs =>
    fleet.askAll (readView address contract method inputs) fun readings =>
      concluded (.viewCall address method) (Reading.freshest readings)
  | .proxy address => fleet.askAll (fun e => (e.proxyInfo address).run) fun answers =>
    concluded (.proxyInfo address) (answers.findSome? Except.toOption)

def readAll (fleet : Fleet) (reads : List Read) : Job Unit := do
  let _ ← Activity.joinAll (reads.map fleet.read)
  return

/-- The start is no longer idle once somebody has looked whether it is. -/
def claimed (m : State) : State :=
  if m.start = .idle then { m with start := .running } else m

/-- Start the fleet, and say that it has started. -/
def complete (fleet : Fleet) : Job Unit := do
  fleet.start
  Activity.modify (I := system) fun state => { state with start := .complete }

/-- What a read does once it has seen how far the start is. -/
def proceed {α : Type} (fleet : Fleet) (asking : Job α) : StartStage → Job α
  | .idle => fleet.complete >>= fun _ => asking
  | .running =>
    Activity.await (I := system) (fun state => state.start = .complete) >>= fun _ => asking
  | .complete => asking

/-! ## One read -/

/-- A read is a start of the fleet, if that is still due, and then its questions. -/
theorem answer_eq (fleet : Fleet) (r : Read) :
    fleet.answer r = fleet.ensureStarted >>= fun _ => fleet.asking r := by
  have ended {β γ : Type} (job : Endpoint → Job β) (last : List β → Job (Except FleetFault γ))
      (conclude : List β → Except FleetFault Unit)
      (h : ∀ answers, (last answers >>= fun v => pure (v.map fun _ => ())) = pure (conclude answers)) :
      ((fleet.ensureStarted >>= fun _ => Activity.joinAll (fleet.endpoints.map job) >>= last) >>=
        fun v => pure (v.map fun _ => ())) =
          fleet.ensureStarted >>= fun _ => fleet.askAll job conclude := by
    simp only [bind_assoc, h, askAll]
  cases r with
  | blockNumber =>
      refine ended _ _ _ fun answers => ?_
      cases (answers.filterMap Except.toOption).max? <;> rfl
  | view address contract method inputs =>
      refine ended _ _ _ fun readings => ?_
      cases Reading.freshest readings <;> rfl
  | proxy address =>
      refine ended _ _ _ fun answers => ?_
      cases answers.findSome? Except.toOption <;> rfl

theorem read_eq (fleet : Fleet) (r : Read) :
    fleet.read r = fleet.answer r >>= fun _ => pure () := by
  cases r <;> simp only [read, answer, bind_assoc, pure_bind]

theorem confined_askAll {β γ : Type} {job : Endpoint → Job β} {conclude : List β → γ}
    (hj : ∀ e ∈ fleet.endpoints, (job e).Confined (e.Acts Request.IsRead)) :
    (fleet.askAll job conclude).Confined (fleet.Acts Request.IsRead) :=
  (confined_joinAll (fun _ he => he) hj).bind fun _ => Activity.confined_pure _

theorem confined_viewing {address : Address} {contract : Abi.Contract} {method : String}
    {inputs : List Abi.Value} {e : Endpoint} :
    (readView address contract method inputs e).Confined (e.Acts Request.IsRead) :=
  (Activity.confined_both (Endpoint.confined_callView fun _ => trivial)
    (Endpoint.confined_ask trivial)).bind fun _ => Activity.confined_pure _

theorem confined_asking (fleet : Fleet) (r : Read) :
    (fleet.asking r).Confined (fleet.Acts Request.IsRead) := by
  cases r with
  | blockNumber => exact confined_askAll fun e _ => Endpoint.confined_ask trivial
  | view address contract method inputs => exact confined_askAll fun e _ => confined_viewing
  | proxy address => exact confined_askAll fun e _ => Endpoint.confined_proxyInfo fun _ => trivial

theorem exists_asking (fleet : Fleet) (r : Read) :
    ∃ asking : Job Unit, asking.Confined (fleet.Acts Request.IsRead) ∧
      fleet.read r = fleet.ensureStarted >>= fun _ => asking := by
  refine ⟨fleet.asking r >>= fun _ => pure (),
    (fleet.confined_asking r).bind fun _ => Activity.confined_pure (), ?_⟩
  rw [read_eq, answer_eq, bind_assoc]

/-- A read looks whether the fleet has started, and does what it must before it asks. -/
theorem runs_read (hr : (fleet.read r).Runs trace result) :
    trace = [] ∧ result = none ∨
      ∃ (found : State) (rest : Trace system) (asking : Job Unit),
        trace = .touched found (claimed found) :: rest ∧
        asking.Confined (fleet.Acts Request.IsRead) ∧
        (fleet.proceed asking found.start).Runs rest result := by
  obtain ⟨asking, hasking, heq⟩ := fleet.exists_asking r
  rw [heq] at hr
  rcases hr with hnone | ⟨⟨now, found⟩, rest, rfl, hrest⟩
  · exact .inl hnone
  · refine .inr ⟨found, rest, asking, rfl, hasking, ?_⟩
    dsimp only at hrest
    cases hs : found.start <;> rw [hs] at hrest <;> exact hrest

/-- What reads do besides asking: they look whether the fleet has started, and one of them starts it. -/
inductive Serves (fleet : Fleet) : Event system → Prop where
  | acted {event : Event system} (h : fleet.Acts (fun _ => True) event) : Serves fleet event
  | claimed (m : State) : Serves fleet (.touched m (claimed m))
  | completed (m : State) : Serves fleet (.touched m { m with start := .complete })
  | noticed (m : State) : Serves fleet (.noticed m)

theorem Acts.serves {asks : Request → Prop} {event : Event system} (h : fleet.Acts asks event) :
    fleet.Serves event := by
  obtain ⟨e, he, ha⟩ := h
  exact .acted ⟨e, he, ha.mono fun _ _ => trivial⟩

theorem confined_complete (fleet : Fleet) : fleet.complete.Confined fleet.Serves :=
  (fleet.confined_start.mono fun _ h => h.serves).bind fun _ =>
    Activity.confined_modify fun m => .completed m

theorem confined_ensureStarted (fleet : Fleet) : fleet.ensureStarted.Confined fleet.Serves := by
  refine fun now m => ⟨.claimed m, ?_⟩
  dsimp only
  split
  · exact fleet.confined_complete
  · exact Activity.confined_await fun m => .noticed m
  · exact Activity.confined_pure ()

theorem confined_read (fleet : Fleet) (r : Read) : (fleet.read r).Confined fleet.Serves := by
  obtain ⟨asking, hasking, heq⟩ := fleet.exists_asking r
  rw [heq]
  exact fleet.confined_ensureStarted.bind fun _ => hasking.mono fun _ h => h.serves

/-! ## Stages of the start -/

/-- Reads never set the source, and they never take back a start. -/
theorem Serves.touched {before after : State} (h : fleet.Serves (.touched before after)) :
    after.forkUrl = before.forkUrl ∧ (before.start ≠ .idle → after.start ≠ .idle) ∧
      (before.start = .complete → after.start = .complete) := by
  cases h with
  | acted h =>
      obtain ⟨e, he, ha⟩ := h
      cases ha with
      | found => exact ⟨rfl, id, id⟩
      | marked m healthy => exact ⟨rfl, id, id⟩
  | claimed m =>
      unfold Fleet.claimed
      split
      · rename_i hs
        exact ⟨rfl, fun h => (h hs).elim, fun h => by rw [hs] at h; cases h⟩
      · exact ⟨rfl, id, id⟩
  | completed m => exact ⟨rfl, fun _ => nofun, fun _ => rfl⟩

theorem Serves.abis_eq {before after : State} (h : fleet.Serves (.touched before after)) :
    after.abis = before.abis := by
  cases h with
  | acted h =>
      obtain ⟨e, -, ha⟩ := h
      cases ha with
      | found => rfl
      | marked m healthy => rfl
  | claimed m =>
      unfold Fleet.claimed
      split <;> rfl
  | completed m => rfl

/-- The runs of the single reads in the run of them all. -/
theorem exists_parts_of_readAll (hr : (fleet.readAll reads).Runs trace result) :
    ∃ parts : List (Trace system), Shuffles parts trace ∧ ∀ part ∈ parts, ∃ r ∈ reads,
      ∃ outcome : Option Unit, (fleet.read r).Runs part outcome ∧
        (result ≠ none → outcome ≠ none) := by
  obtain ⟨values, hj, hvalues⟩ := Activity.exists_runs_of_dropped hr
  obtain ⟨shares, rfl, hruns, hw, hdone⟩ := Activity.exists_shares_of_joinAll hj
  refine ⟨shares.map (·.trace), hw, fun part hp => ?_⟩
  obtain ⟨s, hs, rfl⟩ := List.mem_map.mp hp
  exact ⟨s.member, List.mem_map_of_mem hs, s.result, hruns s hs,
    fun hres => Share.result_ne_none hdone (hvalues hres) s hs⟩

theorem serves_of_readAll (hr : (fleet.readAll reads).Runs trace result) :
    ∀ event ∈ trace, fleet.Serves event := by
  obtain ⟨parts, hw, hparts⟩ := exists_parts_of_readAll hr
  intro event hm
  obtain ⟨part, hp, hm⟩ := hw.mem_iff.mp hm
  obtain ⟨r, -, outcome, hread, -⟩ := hparts part hp
  exact (fleet.confined_read r).runs hread event hm

/-! ## Reads from a given memory -/

theorem keeps_forkUrl_of_readAll (hr : (fleet.readAll reads).Runs trace result) :
    trace.Keeps State.forkUrl :=
  fun _ _ hm => (serves_of_readAll hr _ hm).touched.1

theorem forkUrl_of_readAll (hr : (fleet.readAll reads).Runs trace result)
    (hf : trace.Follows id m m') : m'.forkUrl = m.forkUrl :=
  (hf.through State.forkUrl).eq_of_keeps (keeps_forkUrl_of_readAll hr)

theorem forkUrl_found_of_readAll (hr : (fleet.readAll reads).Runs trace result)
    (hf : trace.Follows id m m') {before after : State} (hm : .touched before after ∈ trace) :
    before.forkUrl = m.forkUrl :=
  (hf.through State.forkUrl).found (P := (· = m.forkUrl)) rfl
    (fun b a hb hp => (keeps_forkUrl_of_readAll hr b a hb).trans hp) hm

/-- After reads that are all over the start is no longer running. -/
theorem start_of_readAll (hr : (fleet.readAll reads).Runs trace (some ()))
    (hf : trace.Follows id m m') (hs : m.start ≠ .running) : m'.start ≠ .running := by
  obtain ⟨parts, hw, hparts⟩ := exists_parts_of_readAll hr
  have kept : ∀ b a, .touched b a ∈ trace → b.start = .complete → a.start = .complete :=
    fun b a hm => (serves_of_readAll hr _ hm).touched.2.2
  cases parts with
  | nil =>
      obtain rfl : trace = [] := hw
      rw [show m' = m from hf]
      exact hs
  | cons part parts =>
      -- one read is enough: it has found the start complete, waited for that, or completed it
      obtain ⟨r, -, outcome, hread, hdone⟩ := hparts part (by simp)
      have inside : ∀ event ∈ part, event ∈ trace := fun event hm =>
        hw.mem_iff.mpr ⟨part, by simp, hm⟩
      have complete : m'.start = .complete := by
        rcases runs_read hread with ⟨-, hn⟩ | ⟨found, rest, asking, rfl, -, hrest⟩
        · exact (hdone (by simp) hn).elim
        · cases hfound : found.start with
          | idle =>
              rw [hfound] at hrest
              obtain ⟨early, late, v, hc, rfl, hlate⟩ := Activity.exists_runs_of_bind hrest
              obtain ⟨-, hn⟩ | ⟨u, rfl, -⟩ := hlate
              · exact (hdone (by simp) hn).elim
              · obtain ⟨⟨⟩, starting, ending, -, he, rfl⟩ := Activity.runs_bind_some.mp hc
                obtain ⟨last, rfl⟩ := Activity.runs_modify_some.mp he
                exact (hf.through State.start).reached (P := (· = .complete)) kept
                  (inside (.touched last { last with start := .complete }) (by simp)) rfl
          | running =>
              rw [hfound] at hrest
              obtain ⟨early, late, v, ha, rfl, hlate⟩ := Activity.exists_runs_of_bind hrest
              obtain ⟨-, hn⟩ | ⟨u, rfl, -⟩ := hlate
              · exact (hdone (by simp) hn).elim
              · obtain ⟨ready, hready, rfl⟩ := Activity.runs_await_some.mp ha
                exact (hf.through State.start).noticed (P := (· = .complete)) kept
                  (inside (.noticed ready) (by simp)) (by simpa using hready)
          | complete =>
              refine (hf.through State.start).reached (P := (· = .complete)) kept
                (inside (.touched found (claimed found)) (by simp)) ?_
              simp [claimed, hfound]
      rw [complete]
      nofun

/-! ## The one start -/

/-- What a read does unless it starts the fleet. -/
def Quiet (fleet : Fleet) (event : Event system) : Prop :=
  fleet.Acts Request.IsRead event ∨ (∃ m, event = .noticed m)

/-- What cannot be seen of reads that start nothing, nor in the memory. -/
structure Blind {B : Type} (fleet : Fleet) (g : Event system → Option B) : Prop where
  quiet : ∀ event, fleet.Quiet event → g event = none
  touched : ∀ before after, g (.touched before after) = none

theorem Acts.not_brings {asks : Request → Prop} {P : StartStage → Prop} [DecidablePred P]
    {event : Event system} (h : fleet.Acts asks event) :
    Trace.Brings State.start P event = false := by
  obtain ⟨e, -, ha⟩ := h
  cases ha with
  | sent | answered => rfl
  | found m => exact Trace.not_brings_of_still rfl
  | marked m healthy =>
      simp only [Trace.Brings, State.start_mark]
      exact Bool.not_and_self _

theorem Quiet.not_brings {event : Event system} (h : fleet.Quiet event) :
    Trace.Brings State.start (· ≠ .idle) event = false := by
  rcases h with h | ⟨m, rfl⟩
  · exact h.not_brings
  · rfl

theorem quiet_of_proceed {asking : Job Unit} {stage : StartStage}
    (ha : asking.Confined (fleet.Acts Request.IsRead)) (hs : stage ≠ .idle)
    (hr : (fleet.proceed asking stage).Runs trace result) : ∀ event ∈ trace, fleet.Quiet event := by
  have hasking : asking.Confined fleet.Quiet := ha.mono fun _ h => .inl h
  have hconfined : (fleet.proceed asking stage).Confined fleet.Quiet := by
    cases stage with
    | idle => exact (hs rfl).elim
    | running => exact (Activity.confined_await fun m => .inr ⟨m, rfl⟩).bind fun _ => hasking
    | complete => exact hasking
  exact hconfined.runs hr

section Starting

variable {B : Type} {g : Event system → Option B} {asking : Job Unit}

/-- A part of a complete start shows no more than the start itself. -/
theorem Blind.exists_starting (hg : fleet.Blind g)
    (ha : asking.Confined (fleet.Acts Request.IsRead))
    (hr : (fleet.complete >>= fun _ => asking).Runs trace result) :
    ∃ (starting : Trace system) (outcome : Option Unit), fleet.start.Runs starting outcome ∧
      (result ≠ none → outcome ≠ none) ∧ (∀ event ∈ starting, event ∈ trace) ∧
      trace.filterMap g = starting.filterMap g := by
  obtain ⟨early, late, done, hc, rfl, hlate⟩ := Activity.exists_runs_of_bind hr
  obtain ⟨starting, ending, outcome, hs, rfl, hending⟩ := Activity.exists_runs_of_bind hc
  have hasked : late.filterMap g = [] := by
    obtain ⟨rfl, -⟩ | ⟨u, -, hl⟩ := hlate
    · rfl
    · exact List.filterMap_eq_nil_iff.mpr fun event hm => hg.quiet event (.inl (ha.runs hl event hm))
  have hended : ending.filterMap g = [] := by
    obtain ⟨rfl, -⟩ | ⟨u, -, he⟩ := hending
    · rfl
    · rcases he with ⟨rfl, -⟩ | ⟨last, later, rfl, hd⟩
      · rfl
      · obtain rfl : later = [] := hd.1
        simp [hg.touched]
  refine ⟨starting, outcome, hs, fun hres => ?_, fun event hm => by simp [hm], ?_⟩
  · obtain ⟨-, hn⟩ | ⟨u, rfl, -⟩ := hlate
    · exact (hres hn).elim
    · obtain ⟨-, hn⟩ | ⟨v, rfl, -⟩ := hending
      · cases hn
      · exact Option.some_ne_none v
  · simp only [List.filterMap_append, hasked, hended, List.append_nil]

/-- A read that did not find the fleet idle shows nothing. -/
theorem Blind.nil_of_proceed (hg : fleet.Blind g)
    (ha : asking.Confined (fleet.Acts Request.IsRead)) {found : State} (hs : found.start ≠ .idle)
    (hr : (fleet.proceed asking found.start).Runs trace result) :
    (.touched found (claimed found) :: trace : Trace system).filterMap g = [] := by
  rw [List.filterMap_cons, hg.touched]
  exact List.filterMap_eq_nil_iff.mpr fun event hm =>
    hg.quiet event (quiet_of_proceed ha hs hr event hm)

theorem Blind.nil_of_readAll (hg : fleet.Blind g) (hr : (fleet.readAll reads).Runs trace result)
    (hf : trace.Follows id m m') (hs : m.start ≠ .idle) : trace.filterMap g = [] := by
  obtain ⟨parts, hw, hparts⟩ := exists_parts_of_readAll hr
  refine (hw.filterMap g).nil_of_forall_nil fun shown hshown => ?_
  obtain ⟨part, hp, rfl⟩ := List.mem_map.mp hshown
  obtain ⟨r, -, outcome, hread, -⟩ := hparts part hp
  rcases runs_read hread with ⟨rfl, -⟩ | ⟨found, rest, asking, rfl, ha, hrest⟩
  · rfl
  · have hmem : Event.touched found (claimed found) ∈ trace :=
      hw.mem_iff.mpr ⟨_, hp, by simp⟩
    have hfound := (hf.through State.start).found (P := (· ≠ .idle)) hs
      (fun b a hm => (serves_of_readAll hr _ hm).touched.2.1) hmem
    exact hg.nil_of_proceed ha hfound hrest

theorem start_claimed_ne_idle (m : State) : (claimed m).start ≠ .idle := by
  unfold claimed
  split
  · nofun
  · assumption

/-- Reads of a fleet that has not been started start it once. -/
theorem Blind.exists_starting_of_readAll (hg : fleet.Blind g)
    (hr : (fleet.readAll reads).Runs trace result) (hf : trace.Follows id m m')
    (hidle : m.start = .idle) (hne : trace ≠ []) :
    m'.start ≠ .idle ∧ ∃ (starting : Trace system) (outcome : Option Unit),
      fleet.start.Runs starting outcome ∧ (result ≠ none → outcome ≠ none) ∧
        (∀ event ∈ starting, event ∈ trace) ∧ trace.filterMap g = starting.filterMap g := by
  obtain ⟨parts, hw, hparts⟩ := exists_parts_of_readAll hr
  have kept : ∀ b a, .touched b a ∈ trace → b.start ≠ .idle → a.start ≠ .idle :=
    fun b a hm => (serves_of_readAll hr _ hm).touched.2.1
  have hstages := hf.through State.start
  have once := hstages.countP_brings_le_one (P := (· ≠ .idle)) kept
  have unstarted : ¬ m.start ≠ .idle := fun h => h hidle
  -- whatever read came first, the fleet is not idle after it
  have claim : ∃ found, .touched found (claimed found) ∈ trace := by
    obtain ⟨event, hm⟩ := List.exists_mem_of_ne_nil trace hne
    obtain ⟨part, hp, hm⟩ := hw.mem_iff.mp hm
    obtain ⟨r, -, outcome, hread, -⟩ := hparts part hp
    rcases runs_read hread with ⟨rfl, -⟩ | ⟨found, rest, asking, rfl, -, -⟩
    · cases hm
    · exact ⟨found, hw.mem_iff.mpr ⟨_, hp, by simp⟩⟩
  obtain ⟨found, hclaim⟩ := claim
  refine ⟨hstages.reached (P := (· ≠ .idle)) kept hclaim (start_claimed_ne_idle found), ?_⟩
  obtain ⟨event, hm, hbrings⟩ := hstages.exists_brings (P := (· ≠ .idle)) unstarted hclaim
    (start_claimed_ne_idle found)
  obtain ⟨part, hp, hm⟩ := hw.mem_iff.mp hm
  have hpos : 0 < part.countP (Trace.Brings State.start (· ≠ .idle)) :=
    List.countP_pos_iff.mpr ⟨event, hm, hbrings⟩
  have needs : ∀ part ∈ parts, part.countP (Trace.Brings State.start (· ≠ .idle)) = 0 →
      part.filterMap g = [] := by
    intro part hp hz
    obtain ⟨r, -, outcome, hread, -⟩ := hparts part hp
    rcases runs_read hread with ⟨rfl, -⟩ | ⟨found, rest, asking, rfl, ha, hrest⟩
    · rfl
    · have hfirst := List.countP_eq_zero.mp hz (.touched found (claimed found)) (by simp)
      have hfound : found.start ≠ .idle := fun hi => by
        simp [Trace.Brings, hi, start_claimed_ne_idle] at hfirst
      exact hg.nil_of_proceed ha hfound hrest
  obtain ⟨r, -, outcome, hread, hdone⟩ := hparts part hp
  rcases runs_read hread with ⟨rfl, -⟩ | ⟨found, rest, asking, rfl, ha, hrest⟩
  · cases hm
  · by_cases hfound : found.start = .idle
    · rw [hfound] at hrest
      obtain ⟨starting, started, hs, hfinished, hsub, hshown⟩ := hg.exists_starting ha hrest
      refine ⟨starting, started, hs, fun hres => hfinished (hdone hres), fun event hm => ?_, ?_⟩
      · exact hw.mem_iff.mpr ⟨_, hp, by simp [hsub event hm]⟩
      · rw [hw.filterMap_eq_of_countP once needs hp hpos, List.filterMap_cons, hg.touched]
        exact hshown
    · -- such a read leaves the stage alone
      exfalso
      rcases List.mem_cons.mp hm with rfl | hm
      · simp [Trace.Brings, hfound] at hbrings
      · rw [(quiet_of_proceed ha hfound hrest event hm).not_brings] at hbrings
        cases hbrings

end Starting

end Fleet

end ChainWatch
