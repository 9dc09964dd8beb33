import ChainWatch.Proofs.Concurrency.Waiting
import ChainWatch.Proofs.Fleet.Freshness
import ChainWatch.Proofs.Fleet.Reads

/-!
# What reads come to

Once the fleet has started, a read asks all endpoints. Whether it is answered depends on what the
endpoints answer to it, not on how their start has ended. Any number of reads side by side come to their
end, also those that have to wait for the start.
-/

namespace ChainWatch

open Concurrency

/-- In the trace an endpoint has done its share of a read; it tells whether the share is complete. -/
def Endpoint.Contributes (e : Endpoint) : Read → Trace system → Bool → Prop
  | .blockNumber, own, told => ∃ answer, e.blockNumber.run.Runs own (some answer) ∧ told = answer.isOk
  | .view address contract method inputs, own, told => ∃ reading,
    (Fleet.readView address contract method inputs e).Runs own (some reading) ∧
      told = reading.complete?.isSome
  | .proxy address, own, told => ∃ answer,
    (e.proxyInfo address).run.Runs own (some answer) ∧ told = answer.isOk

namespace Fleet

def answerAll (fleet : Fleet) (reads : List Read) : Job (List (Except FleetFault Unit)) :=
  Activity.joinAll (reads.map fleet.answer)

/-- In the trace a read asks each endpoint, and it is answered when some share is complete. -/
def Asks (fleet : Fleet) (r : Read) (trace : Trace system) (answer : Except FleetFault Unit) : Prop :=
  ∃ (own : Endpoint → Trace system) (told : Endpoint → Bool),
    Shuffles (fleet.endpoints.map own) trace ∧
      (∀ e ∈ fleet.endpoints, e.Contributes r (own e) (told e)) ∧
        (answer.isOk = true ↔ ∃ e ∈ fleet.endpoints, told e = true)

variable {fleet : Fleet} {r : Read} {trace : Trace system} {answer : Except FleetFault Unit}

/-! ## One read -/

theorem runs_askAll_some {β γ : Type} [Nonempty β] {job : Endpoint → Job β} {conclude : List β → γ}
    {value : γ} (hr : (fleet.askAll job conclude).Runs trace (some value)) :
    ∃ (own : Endpoint → Trace system) (got : Endpoint → β),
      (∀ e ∈ fleet.endpoints, (job e).Runs (own e) (some (got e))) ∧
        Shuffles (fleet.endpoints.map own) trace ∧ value = conclude (fleet.endpoints.map got) := by
  obtain ⟨answers, asked, last, hj, hp, rfl⟩ := Activity.runs_bind_some.mp hr
  obtain ⟨rfl, rfl⟩ := Activity.runs_pure_some.mp hp
  obtain ⟨own, got, hown, hw, rfl⟩ := Activity.exists_runs_of_joinAll fleet.nodup_endpoints hj
  rw [List.append_nil]
  exact ⟨own, got, hown, hw, rfl⟩

theorem isOk_concluded {α : Type} (fault : FleetFault) (found : Option α) :
    (concluded fault found).isOk = found.isSome := by
  cases found <;> rfl

theorem isSome_toOption {ε α : Type} (answer : Except ε α) :
    answer.toOption.isSome = answer.isOk := by
  cases answer <;> rfl

theorem isSome_freshest_iff {α : Type} (readings : List (Reading α)) :
    (Reading.freshest readings).isSome = true ↔ ∃ r ∈ readings, r.complete?.isSome = true := by
  have hbest := Reading.bestOf_freshest readings
  cases hf : Reading.freshest readings with
  | none =>
      rw [hf] at hbest
      constructor
      · nofun
      · rintro ⟨r, hr, hc⟩
        rw [hbest r hr] at hc
        cases hc
  | some best =>
      rw [hf] at hbest
      obtain ⟨r, hr, hc⟩ := hbest.1
      exact ⟨fun _ => ⟨r, hr, by rw [hc]; rfl⟩, fun _ => rfl⟩

theorem asks_of_runs (hr : (fleet.asking r).Runs trace (some answer)) : fleet.Asks r trace answer := by
  cases r with
  | blockNumber =>
      have : Nonempty (Except NodeFault Nat) := ⟨.error .exchange⟩
      obtain ⟨own, got, hown, hw, rfl⟩ := runs_askAll_some hr
      refine ⟨own, fun e => (got e).isOk, hw, fun e he => ⟨got e, hown e he, rfl⟩, ?_⟩
      rw [isOk_concluded, List.isSome_max?_iff, ne_eq, List.filterMap_eq_nil_iff]
      simp [← isSome_toOption, Option.isSome_iff_ne_none]
  | view address contract method inputs =>
      have : Nonempty (Reading (List Abi.Value)) := ⟨⟨0, none, none⟩⟩
      obtain ⟨own, got, hown, hw, rfl⟩ := runs_askAll_some hr
      refine ⟨own, fun e => (got e).complete?.isSome, hw, fun e he => ⟨got e, hown e he, rfl⟩, ?_⟩
      rw [isOk_concluded, isSome_freshest_iff]
      simp
  | proxy address =>
      have : Nonempty (Except NodeFault ProxyInfo) := ⟨.error .exchange⟩
      obtain ⟨own, got, hown, hw, rfl⟩ := runs_askAll_some hr
      refine ⟨own, fun e => (got e).isOk, hw, fun e he => ⟨got e, hown e he, rfl⟩, ?_⟩
      rw [isOk_concluded, List.findSome?_isSome_iff]
      simp [isSome_toOption]

/-! ## All reads -/

/-- A read in the run of many: what it did up to some moment, what it did then, and its answer. -/
structure Visit where
  read : Read
  early : Trace system
  late : Trace system
  answer : Except FleetFault Unit

def Visit.own (v : Visit) : Trace system := v.early ++ v.late

variable {reads : List Read} {answers : List (Except FleetFault Unit)}

/-- In a run of reads each of them waits for the start of the fleet, and then it asks all endpoints. -/
theorem exists_visits (hr : (fleet.answerAll reads).Runs trace (some answers)) :
    ∃ visits : List Visit, visits.map (·.read) = reads ∧ answers = visits.map (·.answer) ∧
      Shuffles (visits.map Visit.own) trace ∧ ∀ v ∈ visits,
        fleet.ensureStarted.Runs v.early (some ()) ∧ (fleet.asking v.read).Runs v.late (some v.answer) := by
  obtain ⟨shares, rfl, hruns, hw, hc⟩ :=
    Crew.runs_ofList_map.mp (Activity.runs_joinBounded_some.mp hr)
  have results := collect_eq_some.mp hc.symm
  have visited : ∀ s ∈ shares, ∃ v : Visit, v.read = s.member ∧ v.own = s.trace ∧
      s.result = some v.answer ∧ fleet.ensureStarted.Runs v.early (some ()) ∧
        (fleet.asking v.read).Runs v.late (some v.answer) := by
    intro s hs
    have hmem : s.result ∈ answers.map some := results ▸ List.mem_map_of_mem hs
    obtain ⟨answer, -, hanswer⟩ := List.mem_map.mp hmem
    have hrun := hruns s hs
    rw [← hanswer, answer_eq] at hrun
    obtain ⟨⟨⟩, early, late, hearly, hlate, htrace⟩ := Activity.runs_bind_some.mp hrun
    exact ⟨⟨s.member, early, late, answer⟩, rfl, htrace.symm, hanswer.symm, hearly, hlate⟩
  have : Nonempty Visit := ⟨⟨.blockNumber, [], [], .ok ()⟩⟩
  choose! visit hread hown hresult hearly hlate using visited
  refine ⟨shares.map visit, ?_, ?_, ?_, ?_⟩
  · rw [List.map_map]
    exact List.map_congr_left hread
  · have hmap : answers.map some = ((shares.map visit).map (·.answer)).map some := by
      rw [← results, List.map_map, List.map_map]
      exact List.map_congr_left hresult
    exact List.map_injective_iff.mpr (fun _ _ => Option.some.inj) hmap
  · rw [List.map_map]
    exact (List.map_congr_left hown : shares.map (Visit.own ∘ visit) = shares.map (·.trace)) ▸ hw
  · intro v hv
    obtain ⟨s, hs, rfl⟩ := List.mem_map.mp hv
    exact ⟨hearly s hs, hlate s hs⟩

/-! ## Reads come to their end -/

def Started (m : State) : Prop := m.start = .complete

theorem Started.ne_running {m : State} (h : Started m) : m.start ≠ .running := by
  rw [show m.start = .complete from h]
  nofun

theorem Serves.spares {event : Event system} (h : fleet.Serves event) : event.Spares Started := by
  cases event with
  | touched before after => exact h.touched.2.2
  | _ => trivial

theorem confined_answer (fleet : Fleet) (r : Read) : (fleet.answer r).Confined fleet.Serves := by
  rw [answer_eq]
  exact fleet.confined_ensureStarted.bind fun _ =>
    (fleet.confined_asking r).mono fun _ h => h.serves

theorem serves_of_answerAll {values : Option (List (Except FleetFault Unit))}
    (hr : (fleet.answerAll reads).Runs trace values) : ∀ event ∈ trace, fleet.Serves event := by
  have hc : (fleet.answerAll reads).Confined fleet.Serves := by
    refine Activity.confined_joinAll fun member hm => ?_
    obtain ⟨r, -, rfl⟩ := List.mem_map.mp hm
    exact fleet.confined_answer r
  exact hc.runs hr

theorem waitFree_complete (fleet : Fleet) : fleet.complete.WaitFree :=
  (waitFree_of_acts fleet.confined_start).bind fun _ => Activity.confined_modify fun _ => nofun

theorem awaits_ensureStarted (fleet : Fleet) : fleet.ensureStarted.Awaits Started := by
  intro now m
  dsimp only
  split
  · exact Activity.awaits_of_waitFree fleet.waitFree_complete
  · exact ⟨fun m hm => decide_eq_true hm, trivial⟩
  · exact Activity.awaits_pure ()

theorem awaits_answer (fleet : Fleet) (r : Read) : (fleet.answer r).Awaits Started := by
  rw [answer_eq]
  exact fleet.awaits_ensureStarted.bind fun _ =>
    Activity.awaits_of_waitFree (waitFree_of_acts (fleet.confined_asking r))

theorem provides_complete (fleet : Fleet) : fleet.complete.Provides Started := by
  refine ⟨fleet.waitFree_complete, fun trace value hr => ?_⟩
  obtain ⟨⟨⟩, starting, ending, -, he, rfl⟩ := Activity.runs_bind_some.mp hr
  obtain ⟨last, rfl⟩ := Activity.runs_modify_some.mp he
  exact ⟨last, { last with start := .complete }, by simp, rfl⟩

/-- Who finds the fleet not started promises to start it. -/
theorem promises_ensureStarted {α σ : Type} {rest : Unit → Job α}
    (hr : ∀ u, (rest u).Confined (Event.Spares Started)) (h : Handler system σ) (now : Nat)
    (w : World system σ) (hs : w.memory.start ≠ .running) :
    Started ((fleet.ensureStarted >>= rest).poll h now w).2.memory ∨
      ((fleet.ensureStarted >>= rest).poll h now w).1.Promises Started := by
  cases hm : w.memory.start with
  | idle =>
      have promised : (fleet.complete >>= rest).Promises Started :=
        ⟨Unit, fleet.complete, rest, rfl, fleet.provides_complete,
          fleet.confined_complete.mono fun _ h => h.spares, hr⟩
      have polled : (fleet.ensureStarted >>= rest).poll h now w =
          (fleet.complete >>= rest).poll h now { w with memory := claimed w.memory } := by
        obtain ⟨⟨down, forkUrl, stage, abis⟩, outside⟩ := w
        obtain rfl : stage = .idle := hm
        rfl
      rw [polled]
      exact promised.poll h now _
  | running => exact (hs hm).elim
  | complete =>
      have spares : (fleet.ensureStarted >>= rest).Confined (Event.Spares Started) :=
        (fleet.confined_ensureStarted.mono fun _ h => h.spares).bind hr
      exact .inl (spares.spares hm)

/-- Jobs side by side end if they wait for nothing but the start of the fleet, and the first of them sees
to it before it does anything else. -/
theorem exists_values_of_starting {σ β : Type} {first : Job β} {others : List (Job β)}
    {rest : Unit → Job β} (hfirst : first = fleet.ensureStarted >>= rest)
    (hrest : ∀ u, (rest u).Confined (Event.Spares Started))
    (hm : ∀ p ∈ first :: others, p.Awaits Started ∧ p.Confined (Event.Spares Started))
    (h : Handler system σ) (now : Nat) (w : World system σ) (hs : w.memory.start ≠ .running) :
    (∃ values, ((Activity.joinAll (first :: others)).run h now w).value? = some values) ∧
      Started ((Activity.joinAll (first :: others)).run h now w).world.memory := by
  refine Activity.exists_value_of_promise h now w hm ?_
  rw [hfirst]
  exact fleet.promises_ensureStarted hrest h now w hs

/-- Unless somebody else is busy with the start, reads side by side end, however many they are. -/
theorem exists_value_of_answerAll {σ : Type} (fleet : Fleet) (reads : List Read)
    (h : Handler system σ) (now : Nat) (w : World system σ) (hs : w.memory.start ≠ .running) :
    ∃ answers, ((fleet.answerAll reads).run h now w).value? = some answers := by
  cases reads with
  | nil =>
      exact Activity.exists_value_of_waitFree h now _ w (Activity.confined_joinAll (by simp))
  | cons first others =>
      have members : ∀ p ∈ (first :: others).map fleet.answer,
          p.Awaits Started ∧ p.Confined (Event.Spares Started) := by
        intro p hp
        obtain ⟨r, -, rfl⟩ := List.mem_map.mp hp
        exact ⟨fleet.awaits_answer r, (fleet.confined_answer r).mono fun _ h => h.spares⟩
      have asks : (fleet.asking first).Confined (Event.Spares Started) :=
        (fleet.confined_asking first).mono fun _ h => h.serves.spares
      exact (exists_values_of_starting (fleet.answer_eq first) (fun _ => asks) members h now w hs).1

end Fleet

end ChainWatch
