import ChainWatch.Proofs.Config.Build
import ChainWatch.Proofs.Cycle.Delivery
import ChainWatch.Proofs.Fleet.Reset

/-!
# Reading the configuration file anew

Before each cycle the configuration file is read again. Over a whole run the configuration in force is
the last one that could be loaded, and the fleet follows the last chain source that any of them has
named: it is told of a source at the turns that name another one than the configuration before. Two
configurations in a row may thus name the same source without a word to the fleet, and one that names
none leaves the fleet where it is.
-/

namespace ChainWatch

open Concurrency

/-! ## Parts of the memory that stay as they are -/

/-- The event leaves the view of the memory as it is. -/
def Concurrency.Event.Keeps {I : Interface} {X : Type} (view : I.Memory → X) : Event I → Prop
  | .touched before after => view after = view before
  | _ => True

section Keeps

variable {α X : Type} {p : Job α} {view : State → X} {trace : Trace system} {result : Option α}

theorem keeps_of_confined (hp : p.Confined (Event.Keeps view)) (hr : p.Runs trace result) :
    trace.Keeps view :=
  fun _ _ hm => hp.runs hr _ hm

theorem keeps_forkUrl_of_acts {fleet : Fleet} {asks : Request → Prop} {event : Event system}
    (h : fleet.Acts asks event) : event.Keeps State.forkUrl := by
  obtain ⟨e, -, ha⟩ := h
  cases ha with
  | found m | marked m healthy => rfl
  | _ => trivial

theorem RuleContext.Works.keeps_forkUrl {context : RuleContext} {event : Event system}
    (h : context.Works event) : event.Keeps State.forkUrl := by
  cases h with
  | @served event h =>
      cases event with
      | touched before after => exact h.touched.1
      | _ => trivial
  | learned m a text => rfl
  | _ => trivial

end Keeps

namespace Cycle

theorem confined_emit (signal : Signal) : (emit signal).Confined (Event.Keeps State.forkUrl) :=
  (Activity.confined_request trivial fun _ => trivial).bind fun _ => Activity.confined_pure ()

theorem confined_clock : (Activity.clock (I := system)).Confined (Event.Keeps State.forkUrl) :=
  fun _ _ => ⟨rfl, trivial⟩

theorem confined_start (fleet : Fleet) : (start fleet).Confined (Event.Keeps State.forkUrl) := by
  refine confined_clock.bind fun started => (confined_emit _).bind fun _ =>
    (fleet.confined_recoverAll.mono fun _ => keeps_forkUrl_of_acts).bind fun outcome => ?_
  cases outcome with
  | ok report => exact Activity.confined_pure started
  | error fault => exact (confined_emit _).bind fun _ => Activity.confined_pure started

theorem confined_submit : (txs : List OutboundTransaction) →
    (submit txs).Confined (Event.Keeps State.forkUrl)
  | [] => Activity.confined_pure []
  | _ :: txs => (Activity.confined_request trivial fun _ => trivial).bind fun _ =>
      (confined_submit txs).bind fun _ => Activity.confined_pure _

theorem confined_finish (started : Nat) :
    (finish started).Confined (Event.Keeps State.forkUrl) :=
  confined_clock.bind fun _ => (confined_emit _).bind fun _ => confined_emit _

end Cycle

/-- A cycle reads the chain source at most. -/
theorem Config.confined_runCycle (config : Config) (context : RuleContext) :
    (config.runCycle context).Confined (Event.Keeps State.forkUrl) := by
  have evaluates : (Rule.evaluateAll (config.engineIn context).rules).Confined context.Works :=
    (Rule.uses_evaluateAll (config.suits_engineIn context)).confined
  exact (Cycle.confined_start _).bind fun started =>
    (evaluates.mono fun _ h => h.keeps_forkUrl).bind fun _ =>
      (Cycle.confined_submit _).bind fun _ =>
        (Cycle.confined_finish started).bind fun _ => Activity.confined_pure _

/-! ## Repoints -/

namespace Fleet

variable {fleet : Fleet} {url : String} {trace : Trace system} {m m' : State}

theorem confined_resets (fleet : Fleet) (url : String) :
    (Activity.joinAll ((fleet.endpoints.filter (·.role.isManaged)).map
      fun e => (e.reset url).run)).Confined (fleet.Acts fun _ => True) :=
  confined_joinAll (fun _ h => List.mem_of_mem_filter h) fun _ _ =>
    Endpoint.confined_reset trivial trivial

/-- Before it has started a fleet only takes the source down. -/
theorem eq_of_repoint_early (hr : (fleet.repoint url).Runs trace (some ()))
    (hf : trace.Follows id m m') (hs : m.start ≠ .complete) :
    trace = [.touched m { m with forkUrl := url }] ∧ m' = { m with forkUrl := url } := by
  obtain ⟨⟨now, found⟩, rest, rfl, hl⟩ := begins_some.mp hr
  obtain rfl : found = m := hf.1
  dsimp only at hl
  rw [if_neg hs] at hl
  obtain ⟨rfl, -⟩ := Activity.runs_pure_some.mp hl
  exact ⟨rfl, hf.2⟩

theorem forkUrl_of_repoint (hr : (fleet.repoint url).Runs trace (some ()))
    (hf : trace.Follows id m m') : m'.forkUrl = url := by
  by_cases hs : m.start = .complete
  · obtain ⟨rest, results, rfl, hrest, hj⟩ := runs_repoint_some hr hf hs
    exact (hrest.through State.forkUrl).eq_of_keeps fun _ _ hm =>
      keeps_forkUrl_of_acts ((confined_resets fleet url).runs hj _ hm)
  · rw [(eq_of_repoint_early hr hf hs).2]

/-- A fleet that has started resets each managed node once and asks nothing of the others. -/
theorem resets_of_repoint (hr : (fleet.repoint url).Runs trace (some ()))
    (hf : trace.Follows id m m') (hs : m.start = .complete) {e : Endpoint}
    (he : e ∈ fleet.endpoints) :
    (e.role.isManaged → resets e.position trace = [url]) ∧
      (e.role.isManaged = false → ∀ r : Request, .sent r ∈ trace → ¬ r.About e.position) := by
  obtain ⟨own, outcome, rest, rfl, hw, hmanaged, hunmanaged⟩ := afterReset_of_repoint hr hf hs
  refine ⟨fun hm => ?_, fun hm => (hunmanaged e he hm).1⟩
  have acts : ∀ e ∈ fleet.endpoints.filter (·.role.isManaged), ∀ event ∈ own e,
      e.Acts (Request.About e.position) event := by
    intro e he
    obtain ⟨he, hm⟩ := List.mem_filter.mp he
    have hc : (e.reset url).run.Confined (e.Acts (Request.About e.position)) :=
      Endpoint.confined_reset rfl rfl
    exact hc.runs (hmanaged e he hm).2.1
  have alone : resets e.position rest = resets e.position (own e) :=
    requested_of_endpoints List.filter_sublist hw acts (List.mem_filter.mpr ⟨he, hm⟩)
      (administers_reset? e.position).about
  have reset : resets e.position (own e) = [url] :=
    Endpoint.resets_of_reset hm (hmanaged e he hm).2.1
  rw [← reset, ← alone]
  rfl

theorem ends_repoint (fleet : Fleet) (url : String) : Ends (fleet.repoint url) := by
  refine fun σ h now w hs => ⟨fleet.exists_value_of_repoint url h now w, ?_⟩
  have spares : (fleet.repoint url).Confined (Event.Spares fun m : State => m.start ≠ .running) := by
    refine fun now m => ⟨id, ?_⟩
    dsimp only
    split
    · refine ((fleet.confined_resets url).mono fun event ha => ?_).bind fun _ =>
        Activity.confined_pure ()
      obtain ⟨e, -, ha⟩ := ha
      cases ha with
      | found m | marked m healthy => exact id
      | _ => trivial
    · exact Activity.confined_pure ()
  exact spares.spares_run hs

end Fleet

/-! ## Reloads -/

namespace Config

/-- The configurations among these files, as far as they can be loaded. -/
def loaded (env : Environment) (files : List ConfigFile) : List Config :=
  files.filterMap fun file => (load env file).toOption

/-- The configuration in force after the file has been read several times. -/
def inForce (env : Environment) (first : Config) (files : List ConfigFile) : Config :=
  (loaded env files).getLast?.getD first

/-- The last chain source that one of the configurations names; empty if none does. -/
def lastSource (configs : List Config) : String :=
  ((configs.map (·.forkUrl)).filter (· ≠ "")).getLast?.getD ""

/-- What a fleet does when the configuration `before` gives way to what the file holds. -/
structure Heeds (fleet : Fleet) (env : Environment) (before : Config) (file : ConfigFile)
    (found : State) (trace : Trace system) : Prop where
  /-- Nothing, unless a configuration is loaded that names a source, and another one than before. -/
  still : (∀ fresh, load env file = .ok fresh →
    fresh.forkUrl = "" ∨ fresh.forkUrl = before.forkUrl) → trace = []
  repointed : ∀ fresh, load env file = .ok fresh → fresh.forkUrl ≠ "" →
    fresh.forkUrl ≠ before.forkUrl → (fleet.repoint fresh.forkUrl).Runs trace (some ())
  /-- As long as the fleet has not started, nobody is told. -/
  early : found.start ≠ .complete → ∀ r, .sent r ∉ trace
  /-- Once it has, each managed node is reset once. -/
  managed : found.start = .complete → ∀ fresh, load env file = .ok fresh → fresh.forkUrl ≠ "" →
    fresh.forkUrl ≠ before.forkUrl → ∀ e ∈ fleet.endpoints, e.role.isManaged →
      resets e.position trace = [fresh.forkUrl]
  unmanaged : ∀ e ∈ fleet.endpoints, e.role.isManaged = false → ∀ r : Request,
    .sent r ∈ trace → ¬ r.About e.position

variable {fleet : Fleet} {env : Environment} {current config first : Config} {file : ConfigFile}
  {files : List ConfigFile} {history : List Config} {trace : Trace system} {m m' : State}

theorem inForce_singleton_of_ok (h : load env file = .ok config) :
    inForce env current [file] = config := by
  simp [inForce, loaded, h, Except.toOption]

theorem inForce_singleton_of_error {fault : ConfigFault} (h : load env file = .error fault) :
    inForce env current [file] = current := by
  simp [inForce, loaded, h, Except.toOption]

theorem inForce_append (early late : List ConfigFile) :
    inForce env first (early ++ late) = inForce env (inForce env first early) late := by
  simp only [inForce, loaded, List.filterMap_append, List.getLast?_append]
  cases (List.filterMap (fun file => (load env file).toOption) late).getLast? <;> simp

theorem getLast?_cons_loaded :
    (first :: loaded env files).getLast? = some (inForce env first files) := by
  rw [List.getLast?_cons, inForce]

theorem lastSource_append (config : Config) :
    lastSource (history ++ [config]) =
      if config.forkUrl = "" then lastSource history else config.forkUrl := by
  by_cases h : config.forkUrl = "" <;> simp [lastSource, h]

/-- The configuration in force and the fleet agree, unless the former names no source. -/
theorem lastSource_of_getLast? (h : history.getLast? = some config) (hn : config.forkUrl ≠ "") :
    lastSource history = config.forkUrl := by
  obtain ⟨earlier, rfl⟩ := List.getLast?_eq_some_iff.mp h
  rw [lastSource_append, if_neg hn]

theorem ends_reload (fleet : Fleet) (env : Environment) (current : Config) (file : ConfigFile) :
    Ends (reload fleet env current file) := by
  unfold reload
  split
  · exact ends_pure current
  · rename_i fresh _
    dsimp only
    split
    · exact (fleet.ends_repoint _).bind fun _ => ends_pure fresh
    · exact ends_pure fresh

/-- A reload always comes to a configuration, whatever the fleet is busy with. -/
theorem exists_value_of_reload {σ : Type} (fleet : Fleet) (env : Environment) (current : Config)
    (file : ConfigFile) (h : Handler system σ) (now : Nat) (w : World system σ) :
    ∃ config, ((reload fleet env current file).run h now w).value? = some config := by
  unfold reload
  split
  · exact ⟨current, congrArg Ending.value? (Activity.run_done ..)⟩
  · rename_i fresh _
    dsimp only
    split
    · obtain ⟨u, hu⟩ := fleet.exists_value_of_repoint fresh.forkUrl h now w
      exact ⟨fresh, (congrArg Ending.value? (Activity.run_bind_of_value hu)).trans
        (congrArg Ending.value? (Activity.run_done ..))⟩
    · exact ⟨fresh, congrArg Ending.value? (Activity.run_done ..)⟩

theorem runs_reload_some (hr : (reload fleet env current file).Runs trace (some config)) :
    (∃ fault, load env file = .error fault ∧ config = current ∧ trace = []) ∨
      load env file = .ok config ∧
        if config.forkUrl ≠ "" ∧ config.forkUrl ≠ current.forkUrl then
          (fleet.repoint config.forkUrl).Runs trace (some ())
        else trace = [] := by
  unfold reload at hr
  cases hload : load env file with
  | error fault =>
      rw [hload] at hr
      obtain ⟨rfl, rfl⟩ := Activity.runs_pure_some.mp hr
      exact .inl ⟨fault, rfl, rfl, rfl⟩
  | ok fresh =>
      rw [hload] at hr
      dsimp only at hr
      split at hr
      · rename_i hdue
        obtain ⟨u, early, late, hp, hd, rfl⟩ := Activity.runs_bind_some.mp hr
        obtain ⟨rfl, rfl⟩ := Activity.runs_pure_some.mp hd
        refine .inr ⟨rfl, ?_⟩
        rw [if_pos (by simpa [and_comm] using hdue), List.append_nil]
        exact hp
      · rename_i hdue
        obtain ⟨rfl, rfl⟩ := Activity.runs_pure_some.mp hr
        refine .inr ⟨rfl, ?_⟩
        rw [if_neg (by simpa [and_comm] using hdue)]

/-- What can be loaded comes into force, and nothing else does. -/
theorem eq_inForce_of_reload (hr : (reload fleet env current file).Runs trace (some config)) :
    config = inForce env current [file] := by
  obtain ⟨fault, hload, rfl, -⟩ | ⟨hload, -⟩ := runs_reload_some hr
  · exact (inForce_singleton_of_error hload).symm
  · exact (inForce_singleton_of_ok hload).symm

theorem heeds_of_reload (hr : (reload fleet env current file).Runs trace (some config))
    (hf : trace.Follows id m m') : Heeds fleet env current file m trace := by
  obtain ⟨fault, hload, rfl, rfl⟩ | ⟨hload, hdue⟩ := runs_reload_some hr
  · refine ⟨fun _ => rfl, ?_, ?_, ?_, ?_⟩
    all_goals simp [hload]
  · have same {fresh : Config} (h : load env file = .ok fresh) : fresh = config :=
      Except.ok.inj (h.symm.trans hload)
    split at hdue
    · rename_i hnew
      refine ⟨fun h => ?_, fun fresh h _ _ => same h ▸ hdue, fun hs r hm => ?_,
        fun hs fresh h _ _ e he hm => same h ▸ (Fleet.resets_of_repoint hdue hf hs he).1 hm,
        fun e he hm r hsent => ?_⟩
      · rcases h config hload with h | h
        · exact (hnew.1 h).elim
        · exact (hnew.2 h).elim
      · simp [(Fleet.eq_of_repoint_early hdue hf hs).1] at hm
      · by_cases hs : m.start = .complete
        · exact (Fleet.resets_of_repoint hdue hf hs he).2 hm r hsent
        · simp [(Fleet.eq_of_repoint_early hdue hf hs).1] at hsent
    · rename_i hold
      subst hdue
      refine ⟨fun _ => rfl, fun fresh h hn hne => ?_, fun _ r hm => by simp at hm,
        fun _ fresh h hn hne => ?_, fun _ _ _ r hm => by simp at hm⟩
      all_goals
        obtain rfl := same h
        exact (hold ⟨hn, hne⟩).elim

/-- The fleet goes on following the last source that was named. -/
theorem forkUrl_of_reload (hr : (reload fleet env current file).Runs trace (some config))
    (hf : trace.Follows id m m') (hlast : history.getLast? = some current)
    (hm : m.forkUrl = lastSource history) :
    m'.forkUrl = lastSource (history ++ loaded env [file]) := by
  obtain ⟨fault, hload, rfl, rfl⟩ | ⟨hload, hdue⟩ := runs_reload_some hr
  · obtain rfl : m' = m := hf
    simp [loaded, hload, Except.toOption, hm]
  · have heq : loaded env [file] = [config] := by simp [loaded, hload, Except.toOption]
    rw [heq, lastSource_append]
    split at hdue
    · rename_i hnew
      rw [if_neg hnew.1]
      exact Fleet.forkUrl_of_repoint hdue hf
    · rename_i hold
      subst hdue
      obtain rfl : m' = m := hf
      split
      · exact hm
      · rename_i hn
        -- The source is named again: the fleet was told of it before.
        have hsame : config.forkUrl = current.forkUrl := by
          by_contra hne
          exact hold ⟨hn, hne⟩
        rw [hm, hsame]
        exact lastSource_of_getLast? hlast (hsame ▸ hn)

end Config

/-! ## Turns -/

namespace Watch

/-- Take a turn for each of these states of the configuration file, and list the configurations that
are in force after them. -/
def turns (watch : Watch) (env : Environment) : Config → List ConfigFile → Job (List Config)
  | _, [] => return []
  | current, file :: files => do
    let config ← watch.turn env file current
    let others ← turns watch env config files
    return config :: others

variable {watch : Watch} {env : Environment} {current config first : Config} {file : ConfigFile}
  {early late files : List ConfigFile} {history configs : List Config} {trace : Trace system}
  {m m' : State}

theorem ends_turn (watch : Watch) (env : Environment) (file : ConfigFile) (current : Config) :
    Ends (watch.turn env file current) :=
  (Config.ends_reload _ env current file).bind fun config =>
    (config.ends_runCycle watch.context).bind fun _ => ends_pure config

theorem ends_turns (watch : Watch) (env : Environment) :
    (current : Config) → (files : List ConfigFile) → Ends (watch.turns env current files)
  | _, [] => ends_pure []
  | _, _ :: files => (ends_turn ..).bind fun config =>
      (ends_turns watch env config files).bind fun _ => ends_pure _

theorem runs_turn_some (hr : (watch.turn env file current).Runs trace (some config)) :
    ∃ reload cycle report, trace = reload ++ cycle ∧
      (Config.reload watch.context.fleet env current file).Runs reload (some config) ∧
      (config.runCycle watch.context).Runs cycle (some report) := by
  obtain ⟨fresh, reload, rest, hreload, hr', rfl⟩ := Activity.runs_bind_some.mp hr
  obtain ⟨report, cycle, last, hcycle, hp, rfl⟩ := Activity.runs_bind_some.mp hr'
  obtain ⟨rfl, rfl⟩ := Activity.runs_pure_some.mp hp
  exact ⟨reload, cycle, report, by rw [List.append_nil], hreload, hcycle⟩

theorem runs_turns_cons_some :
    (watch.turns env current (file :: files)).Runs trace (some configs) ↔
      ∃ config others turn rest, configs = config :: others ∧ trace = turn ++ rest ∧
        (watch.turn env file current).Runs turn (some config) ∧
        (watch.turns env config files).Runs rest (some others) := by
  simp only [turns, Activity.runs_bind_some, Activity.runs_pure_some]
  constructor
  · rintro ⟨config, turn, _, hturn, ⟨others, rest, _, hrest, ⟨rfl, rfl⟩, rfl⟩, rfl⟩
    exact ⟨config, others, turn, rest, rfl, by rw [List.append_nil], hturn, hrest⟩
  · rintro ⟨config, others, turn, rest, rfl, rfl, hturn, hrest⟩
    exact ⟨config, turn, rest, hturn, ⟨others, rest, [], hrest, ⟨rfl, rfl⟩, by simp⟩, rfl⟩

theorem eq_inForce_of_turn (hr : (watch.turn env file current).Runs trace (some config)) :
    config = Config.inForce env current [file] := by
  obtain ⟨reload, cycle, report, rfl, hreload, -⟩ := runs_turn_some hr
  exact Config.eq_inForce_of_reload hreload

/-- The configurations in force after the turns are those of the files seen up to them. -/
theorem eq_inForce_of_turns
    (hr : (watch.turns env current files).Runs trace (some configs)) :
    configs = files.inits.tail.map (Config.inForce env current) := by
  induction files generalizing current trace configs with
  | nil => exact (Activity.runs_pure_some.mp hr).2
  | cons file files ih =>
      obtain ⟨config, others, turn, rest, rfl, rfl, hturn, hrest⟩ := runs_turns_cons_some.mp hr
      have onwards : List.map (Config.inForce env config) files.inits =
          (file :: files).inits.tail.map (Config.inForce env current) := by
        show _ = (files.inits.map (file :: ·)).map (Config.inForce env current)
        rw [List.map_map]
        refine List.map_congr_left fun later _ => ?_
        rw [eq_inForce_of_turn hturn, ← Config.inForce_append]
        rfl
      have begins : files.inits = [] :: files.inits.tail := by cases files <;> rfl
      rw [ih hrest, ← onwards, begins]
      rfl

theorem exists_runs_of_turns_append
    (hr : (watch.turns env current (early ++ late)).Runs trace (some configs)) :
    ∃ passed others before after, trace = before ++ after ∧
      (watch.turns env current early).Runs before (some passed) ∧
      (watch.turns env (Config.inForce env current early) late).Runs after (some others) := by
  induction early generalizing current trace configs with
  | nil => exact ⟨[], configs, [], trace, rfl, Activity.runs_pure_some.mpr ⟨rfl, rfl⟩, hr⟩
  | cons file early ih =>
      obtain ⟨config, rest, turn, later, rfl, rfl, hturn, hrest⟩ := runs_turns_cons_some.mp hr
      obtain ⟨passed, others, before, after, rfl, hbefore, hafter⟩ := ih hrest
      rw [eq_inForce_of_turn hturn, ← Config.inForce_append] at hafter
      exact ⟨config :: passed, others, turn ++ before, after, by rw [List.append_assoc],
        runs_turns_cons_some.mpr ⟨config, passed, turn, before, rfl, rfl, hturn, hbefore⟩, hafter⟩

theorem forkUrl_of_turn (hr : (watch.turn env file current).Runs trace (some config))
    (hf : trace.Follows id m m') (hlast : history.getLast? = some current)
    (hm : m.forkUrl = Config.lastSource history) :
    m'.forkUrl = Config.lastSource (history ++ Config.loaded env [file]) := by
  obtain ⟨reload, cycle, report, rfl, hreload, hcycle⟩ := runs_turn_some hr
  obtain ⟨between, hbefore, hafter⟩ := Trace.follows_append.mp hf
  rw [← Config.forkUrl_of_reload hreload hbefore hlast hm]
  exact (hafter.through State.forkUrl).eq_of_keeps
    (keeps_of_confined (config.confined_runCycle watch.context) hcycle)

/-- Turn by turn the fleet follows the last source that was named so far. -/
theorem forkUrl_of_turns (hr : (watch.turns env current files).Runs trace (some configs))
    (hf : trace.Follows id m m') (hlast : history.getLast? = some current)
    (hm : m.forkUrl = Config.lastSource history) :
    m'.forkUrl = Config.lastSource (history ++ Config.loaded env files) := by
  induction files generalizing current trace configs history m with
  | nil =>
      obtain ⟨rfl, -⟩ := Activity.runs_pure_some.mp hr
      obtain rfl : m' = m := hf
      rw [hm, Config.loaded, List.filterMap_nil, List.append_nil]
  | cons file files ih =>
      obtain ⟨config, others, turn, rest, rfl, rfl, hturn, hrest⟩ := runs_turns_cons_some.mp hr
      obtain ⟨between, hbefore, hafter⟩ := Trace.follows_append.mp hf
      have hnow := forkUrl_of_turn hturn hbefore hlast hm
      have hlast' : (history ++ Config.loaded env [file]).getLast? = some config := by
        rw [eq_inForce_of_turn hturn, List.getLast?_append, hlast, Config.inForce]
        cases (Config.loaded env [file]).getLast? <;> rfl
      rw [ih hrest hafter hlast' hnow, List.append_assoc]
      exact congrArg (fun later => Config.lastSource (history ++ later))
        List.filterMap_append.symm

/-- Whatever the configuration file holds over time: reading it anew never fails, and a watch goes
through all its turns. After each of them the configuration in force is the last one that was loaded, or
else the first one, and the fleet follows the last source that the first or a loaded configuration has
named. A fleet is repointed at the turns that load a configuration which names a source, and another
one than the configuration in force just before; then a fleet that has started resets each of its
managed nodes once and asks nothing of the others, and one that has not sends nothing. -/
theorem turns_follow_file (watch : Watch) (env : Environment) (first : Config) :
    (∀ {σ : Type} (h : Handler system σ) (now : Nat) (w : World system σ),
      (∀ (current : Config) (file : ConfigFile), ∃ config,
        ((Config.reload watch.context.fleet env current file).run h now w).value? = some config) ∧
      ∀ files : List ConfigFile, w.memory.start ≠ .running → ∃ configs trace,
        ((watch.turns env first files).run h now w).value? = some configs ∧
          (watch.turns env first files).Runs trace (some configs) ∧
          trace.Leads h w ((watch.turns env first files).run h now w).world) ∧
    ∀ (files : List ConfigFile) (trace : Trace system) (configs : List Config) (m m' : State),
      (watch.turns env first files).Runs trace (some configs) → trace.Follows id m m' →
      m.forkUrl = first.forkUrl →
      configs = files.inits.tail.map (Config.inForce env first) ∧
      m'.forkUrl = Config.lastSource (first :: Config.loaded env files) ∧
      ∀ early file late, files = early ++ file :: late →
        ∃ (passed : List Config) (before reload after : Trace system) (found left : State),
          trace = before ++ reload ++ after ∧
          (watch.turns env first early).Runs before (some passed) ∧ before.Follows id m found ∧
          (Config.reload watch.context.fleet env (Config.inForce env first early) file).Runs reload
            (some (Config.inForce env first (early ++ [file]))) ∧ reload.Follows id found left ∧
          after.Follows id left m' ∧
          found.forkUrl = Config.lastSource (first :: Config.loaded env early) ∧
          left.forkUrl = Config.lastSource (first :: Config.loaded env (early ++ [file])) ∧
          Config.Heeds watch.context.fleet env (Config.inForce env first early) file found
            reload := by
  refine ⟨fun h now w => ⟨fun current file => ?_, fun files hs => ?_⟩, ?_⟩
  · exact Config.exists_value_of_reload _ env current file h now w
  · obtain ⟨⟨configs, hv⟩, -⟩ := ends_turns watch env first files h now w hs
    obtain ⟨trace, hr, hl⟩ := Activity.exists_trace_of_run h now (watch.turns env first files) w
    exact ⟨configs, trace, hv, hv ▸ hr, hl⟩
  · intro files trace configs m m' hr hf hm
    have hfirst : m.forkUrl = Config.lastSource [first] := by
      rw [hm, show [first] = [] ++ [first] from rfl, Config.lastSource_append]
      split
      · assumption
      · rfl
    refine ⟨eq_inForce_of_turns hr, forkUrl_of_turns hr hf rfl hfirst, ?_⟩
    rintro early file late rfl
    obtain ⟨passed, others, before, rest, rfl, hbefore, hrest⟩ := exists_runs_of_turns_append hr
    obtain ⟨config, later, turn, after, rfl, rfl, hturn, -⟩ := runs_turns_cons_some.mp hrest
    obtain ⟨reload, cycle, report, rfl, hreload, -⟩ := runs_turn_some hturn
    obtain ⟨found, hfound, hf'⟩ := Trace.follows_append.mp hf
    rw [List.append_assoc] at hf'
    obtain ⟨left, hleft, hafter⟩ := Trace.follows_append.mp hf'
    have hheld := forkUrl_of_turns hbefore hfound rfl hfirst
    have hforce : config = Config.inForce env first (early ++ [file]) := by
      rw [Config.eq_inForce_of_reload hreload, Config.inForce_append]
    refine ⟨passed, before, reload, cycle ++ after, found, left, ?_, hbefore, hfound,
      hforce ▸ hreload, hleft, hafter, hheld, ?_, Config.heeds_of_reload hreload hleft⟩
    · simp only [List.append_assoc]
    · rw [Config.forkUrl_of_reload hreload hleft Config.getLast?_cons_loaded hheld,
        List.cons_append]
      exact congrArg (fun loaded => Config.lastSource (first :: loaded))
        List.filterMap_append.symm

/-! ### A file that comes and goes -/

def solitary : Watch where
  config := { Config.ofNodes [] with forkUrl := "source" }
  context := ⟨Fleet.solo, .absent⟩
  initial := ⟨[], "source", .complete, .empty⟩

def forking : ConfigFile :=
  .holding (Bytes.ofString ("upstream = \x7bfork_url = \"fork\"\x7d\n" ++
    "nodes = [\x7bname = \"solo\", rpc_url = \"http://solo\"\x7d]\n"))

theorem exists_load_forking :
    ∃ fresh, Config.load [] forking = .ok fresh ∧ fresh.forkUrl = "fork" := by
  refine Config.exists_load_of_map ?_
  rewrite [forking, Config.load_ofString, Config.parse?, Toml.parse?_eq_bind]
  all_goals
    simp only [String.toList_append]
    repeat rewrite [String.toList_ofList]
    decide +kernel

theorem solitary_follows_file : ∃ (trace reload : Trace system) (configs : List Config) (m' : State),
    solitary.initial.start ≠ .running ∧ solitary.initial.forkUrl = solitary.config.forkUrl ∧
    (solitary.turns [] solitary.config [forking, .missing]).Runs trace (some configs) ∧
    trace.Follows id solitary.initial m' ∧ configs.map (·.forkUrl) = ["fork", "fork"] ∧
    m'.forkUrl = "fork" ∧ (∀ event ∈ reload, event ∈ trace) ∧ resets 0 reload = ["fork"] := by
  let world : World system Rehearsal.Stage := ⟨solitary.initial, (Fleet.refusing .complete).outside⟩
  obtain ⟨runs, follows⟩ := turns_follow_file solitary [] solitary.config
  obtain ⟨configs, trace, -, hr, hl⟩ :=
    (runs Rehearsal.Stage.handler 0 world).2 [forking, .missing] (by decide)
  obtain ⟨rfl, hm', steps⟩ := follows _ trace configs _ _ hr hl.1 rfl
  obtain ⟨passed, before, reload, after, found, left, rfl, hbefore, hfound, -, -, -, -, -, heeds⟩ :=
    steps [] forking [.missing] rfl
  -- Nothing comes before the first reload.
  obtain ⟨rfl, -⟩ := Activity.runs_pure_some.mp hbefore
  obtain rfl : found = solitary.initial := hfound
  obtain ⟨fresh, hfresh, hfork⟩ := exists_load_forking
  have hmissing : Config.load [] .missing = .error .unreadable := rfl
  have hloaded : Config.loaded [] [forking, .missing] = [fresh] := by
    simp [Config.loaded, hfresh, hmissing, Except.toOption]
  refine ⟨_, reload, _, _, by decide, rfl, hr, hl.1, by decide +kernel, ?_, by simp_all, ?_⟩
  · rw [hm', hloaded]
    simp [Config.lastSource, hfork, solitary]
  · rw [← hfork]
    exact heeds.managed rfl fresh hfresh (by simp [hfork]) (by rw [hfork]; decide) Fleet.soloist
      (List.mem_singleton.mpr rfl) rfl

end Watch

end ChainWatch
