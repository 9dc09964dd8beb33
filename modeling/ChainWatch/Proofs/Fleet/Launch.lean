import ChainWatch.Proofs.Fleet.Reads

/-!
# How endpoints are launched

With the start of a fleet each endpoint is started, and then reset to the chain source if it has come up
and there is one. Of its container it is asked once whether it is there, and the node is told a source
once at most.
-/

namespace ChainWatch

open Concurrency

variable {B : Type} {f : Request → Option B} {p : Nat} {e : Endpoint} {fleet : Fleet}
  {trace early late : Trace system} {asks : Request → Prop} {source : String}

/-! ## What was sent -/

def sent? (f : Request → Option B) : Event system → Option B
  | .sent r => f r
  | _ => none

/-- What is to be seen of the requests that were sent, in their order. -/
def requested (f : Request → Option B) (trace : Trace system) : List B :=
  trace.filterMap (sent? f)

def reset? (position : Nat) : Request → Option String
  | .chain p (.reset source) => if p = position then some source else none
  | _ => none

/-- Every start of a container begins with this question, and nothing else asks it. -/
def presence? (position : Nat) : Request → Option String
  | .container p (.presence name) => if p = position then some name else none
  | _ => none

/-- The sources that the node at a place was told to follow. -/
def resets (position : Nat) : Trace system → List String :=
  requested (reset? position)

/-- The containers that were asked for when the node at a place was started. -/
def launches (position : Nat) : Trace system → List String :=
  requested (presence? position)

@[simp] theorem requested_nil : requested f [] = [] := rfl

@[simp] theorem requested_append :
    requested f (early ++ late) = requested f early ++ requested f late :=
  List.filterMap_append

@[simp] theorem resets_append : resets p (early ++ late) = resets p early ++ resets p late :=
  requested_append

@[simp] theorem launches_append :
    launches p (early ++ late) = launches p early ++ launches p late :=
  requested_append

@[simp] theorem requested_sent {r : Request} :
    requested f (.sent r :: trace) = (f r).toList ++ requested f trace := by
  cases h : f r <;> simp [requested, sent?, h]

@[simp] theorem requested_answered {r : Request} {answer : r.Answer} :
    requested f (.answered r answer :: trace) = requested f trace := rfl

@[simp] theorem requested_touched {before after : State} :
    requested f (.touched before after :: trace) = requested f trace := rfl

theorem requested_shuffles {parts : List (Trace system)} (h : Shuffles parts trace) :
    Shuffles (parts.map (requested f)) (requested f trace) :=
  h.filterMap (sent? f)

theorem requested_eq_nil (h : ∀ r, .sent r ∈ trace → f r = none) : requested f trace = [] := by
  refine List.filterMap_eq_nil_iff.mpr fun event hm => ?_
  cases event with
  | sent r => exact h r hm
  | _ => rfl

theorem Endpoint.requested_of_acts (ha : ∀ event ∈ trace, e.Acts asks event)
    (hn : ∀ r, asks r → f r = none) : requested f trace = [] :=
  requested_eq_nil fun r hm => by
    cases ha _ hm with
    | sent h => exact hn r h

/-- What shows nothing is not sent by an activity that sends nothing else. -/
theorem Endpoint.requested_of_confined {α : Type} {job : Job α} {value : Option α}
    (hj : job.Confined (e.Acts (f · = none))) (hr : job.Runs trace value) : requested f trace = [] :=
  requested_of_acts (hj.runs hr) fun _ h => h

/-- Of endpoints side by side one alone sends what is about it. -/
theorem Fleet.requested_of_endpoints {endpoints : List Endpoint}
    (hs : endpoints.Sublist fleet.endpoints) {own : Endpoint → Trace system}
    (hw : Shuffles (endpoints.map own) trace)
    (ha : ∀ e ∈ endpoints, ∀ event ∈ own e, e.Acts (Request.About e.position) event)
    (he : e ∈ endpoints) (hf : ∀ r : Request, ¬ r.About e.position → f r = none) :
    requested f trace = requested f (own e) := by
  have hparts := requested_shuffles (f := f) hw
  rw [List.map_map] at hparts
  refine hparts.eq_of_others_nil (fleet.nodup_endpoints.sublist hs) he fun other ho hne => ?_
  refine Endpoint.requested_of_acts (ha other ho) fun r hr => hf r fun habout => hne ?_
  exact fleet.eq_of_position_eq (hs.subset ho) (hs.subset he) (Request.About.unique hr habout)

/-- Nothing is shown of questions about the chain, nor of other nodes. -/
structure Administers (position : Nat) (f : Request → Option B) : Prop where
  about : ∀ r : Request, ¬ r.About position → f r = none
  reads : ∀ r : Request, r.IsRead → f r = none

theorem administers_reset? (p : Nat) : Administers p (reset? p) where
  about r h := by
    unfold reset?
    split
    · exact if_neg h
    · rfl
  reads r h := by
    unfold reset?
    split
    · exact h.elim
    · rfl

theorem administers_presence? (p : Nat) : Administers p (presence? p) where
  about r h := by
    unfold presence?
    split
    · exact if_neg h
    · rfl
  reads r h := by
    unfold presence?
    split
    · exact h.elim
    · rfl

/-! ## One endpoint -/

def NodeRole.containers : NodeRole → List String
  | .unmanaged => []
  | .managed c => [c.name]

/-- How an endpoint was started, what has come of that, and how it was reset then. -/
structure Launch where
  starting : Trace system
  outcome : Except NodeFault Unit
  resetting : Trace system

def Launch.own (l : Launch) : Trace system := l.starting ++ l.resetting

namespace Endpoint

variable {c : Container} {outcome : Except NodeFault Unit} {result : Option (Except NodeFault Unit)}

/-- An endpoint whose start fails is left alone; a managed one that comes up is reset, unless there is
no source to follow. -/
structure Launches (e : Endpoint) (source : String) (l : Launch) : Prop where
  start : e.start.run.Runs l.starting (some l.outcome)
  reset : if l.outcome.isOk ∧ e.role.isManaged ∧ source ≠ "" then
    ∃ ended, (e.reset source).run.Runs l.resetting (some ended) else l.resetting = []

theorem launches_of_ensureContainer (hr : (e.ensureContainer c).run.Runs trace (some outcome)) :
    launches e.position trace = [c.name] := by
  have engine {r : ContainerRequest} (hr : presence? e.position (.container e.position r) = none) :
      (e.engine r).run.Confined (e.Acts (presence? e.position · = none)) := confined_engine hr
  rcases runs_exceptT_bind_some.mp hr with ⟨fault, hp, -⟩ | ⟨present, early, late, hp, hl, rfl⟩
  · obtain ⟨answer, rfl, -⟩ := runs_engine_some.mp hp
    simp [launches, presence?]
  · obtain ⟨answer, rfl, -⟩ := runs_engine_some.mp hp
    have hlate : launches e.position late = [] := by
      cases present with
      | false => exact requested_of_confined (engine rfl) hl
      | true =>
          refine requested_of_confined (confined_exceptT_bind (engine rfl) fun fitting => ?_) hl
          cases fitting with
          | true => exact confined_exceptT_pure ()
          | false => exact confined_exceptT_bind (engine rfl) fun _ => engine rfl
    simp only [launches, List.cons_append, List.nil_append, requested_sent,
      requested_answered] at hlate ⊢
    simp [hlate, presence?]

/-- The engine is asked once for the container of a node that is started. -/
theorem launches_of_start (hr : e.start.run.Runs trace (some outcome)) :
    launches e.position trace = e.role.containers := by
  unfold start at hr
  cases hrole : e.role with
  | unmanaged =>
      rw [hrole] at hr
      obtain ⟨rfl, -⟩ := runs_exceptT_pure_some.mp hr
      rfl
  | managed c =>
      rw [hrole] at hr
      have brought {t : Trace system} {outcome : Except NodeFault Unit}
          (ht : (tryCatch (e.ensureContainer c) fun fault => do
            e.mark false
            throw fault : NodeJob Unit).run.Runs t (some outcome)) : launches e.position t = [c.name] := by
        rcases runs_tryCatch_some.mp ht with ⟨v, hc, -⟩ | ⟨fault, early, late, hc, hh, rfl⟩
        · exact launches_of_ensureContainer hc
        · have hlate : launches e.position late = [] := requested_of_confined
            (confined_exceptT_bind (confined_lift (confined_mark e false)) fun _ =>
              confined_throw fault) hh
          rw [launches_append, launches_of_ensureContainer hc, hlate]
          rfl
      rcases runs_exceptT_bind_some.mp hr with ⟨fault, hc, -⟩ | ⟨u, early, late, hc, hw, rfl⟩
      · exact brought hc
      · have hwaiting : launches e.position late = [] :=
          requested_of_confined (confined_awaitReady rfl) hw
        rw [launches_append, brought hc, hwaiting]
        rfl

theorem resets_of_start (hr : e.start.run.Runs trace result) : resets e.position trace = [] :=
  requested_of_confined (confined_start (fun _ => rfl) rfl) hr

theorem launches_of_reset (hr : (e.reset source).run.Runs trace result) :
    launches e.position trace = [] :=
  requested_of_confined (confined_reset rfl rfl) hr

theorem resets_of_reset (hm : e.role.isManaged)
    (hr : (e.reset source).run.Runs trace (some outcome)) :
    resets e.position trace = [source] := by
  cases hrole : e.role with
  | unmanaged => simp [hrole, NodeRole.isManaged] at hm
  | managed c =>
      rcases (runs_reset_some hrole).mp hr with ⟨fault, rfl, -⟩ | ⟨waiting, hw, rfl⟩
      · simp [resets, reset?]
      · have hwaiting : resets e.position waiting = [] :=
          requested_of_confined (confined_awaitReady rfl) hw
        rw [resets] at hwaiting ⊢
        simp [hwaiting, reset?]

variable {l : Launch}

theorem Launches.launches_own (h : e.Launches source l) :
    launches e.position l.own = e.role.containers := by
  have hresetting : launches e.position l.resetting = [] := by
    have hreset := h.reset
    split at hreset
    · obtain ⟨ended, hreset⟩ := hreset
      exact launches_of_reset hreset
    · rw [hreset]
      rfl
  rw [Launch.own, launches_append, launches_of_start h.start, hresetting, List.append_nil]

theorem Launches.resets_own (h : e.Launches source l) :
    resets e.position l.own =
      if l.outcome.isOk ∧ e.role.isManaged ∧ source ≠ "" then [source] else [] := by
  have hresetting : resets e.position l.resetting =
      if l.outcome.isOk ∧ e.role.isManaged ∧ source ≠ "" then [source] else [] := by
    have hreset := h.reset
    split at hreset
    · rename_i hdue
      obtain ⟨ended, hreset⟩ := hreset
      rw [resets_of_reset hdue.2.1 hreset, if_pos hdue]
    · rename_i hdue
      rw [hreset, if_neg hdue]
      rfl
  rw [Launch.own, resets_append, resets_of_start h.start, hresetting, List.nil_append]

theorem Launches.acts (h : e.Launches source l) :
    ∀ event ∈ l.own, e.Acts (Request.About e.position) event := by
  have hc : e.start.run.Confined (e.Acts (Request.About e.position)) :=
    confined_start (fun _ => rfl) rfl
  refine append_confined (hc.runs h.start) ?_
  have hreset := h.reset
  split at hreset
  · obtain ⟨ended, hreset⟩ := hreset
    have hc : (e.reset source).run.Confined (e.Acts (Request.About e.position)) :=
      confined_reset rfl rfl
    exact hc.runs hreset
  · simp [hreset]

end Endpoint

/-! ## All endpoints -/

namespace Fleet

/-- The start of a fleet finds out which source to follow, and launches each endpoint once. -/
theorem exists_launches (hr : fleet.start.Runs trace (some ())) :
    ∃ (copied : State) (rest : Trace system) (launch : Endpoint → Launch),
      trace = .touched copied copied :: rest ∧
        Shuffles (fleet.endpoints.map fun e => (launch e).own) rest ∧
          ∀ e ∈ fleet.endpoints, e.Launches copied.forkUrl (launch e) := by
  obtain ⟨copied, rest, results, rfl, hj⟩ := runs_start_some hr
  obtain ⟨own, value, hown, hw, -⟩ := Activity.exists_runs_of_joinAll fleet.nodup_endpoints hj
  have launched : ∀ e ∈ fleet.endpoints, ∃ l : Launch, own e = l.own ∧
      e.Launches copied.forkUrl l := by
    intro e he
    obtain ⟨early, late, outcome, hs, heq, hreset⟩ := runs_startEndpoint_some (hown e he)
    exact ⟨⟨early, outcome, late⟩, heq, hs, hreset⟩
  have : Nonempty Launch := ⟨⟨[], .ok (), []⟩⟩
  choose! launch hlaunch hlaunches using launched
  refine ⟨copied, rest, launch, rfl, ?_, hlaunches⟩
  exact (List.map_congr_left hlaunch : fleet.endpoints.map own = _) ▸ hw

end Fleet

end ChainWatch
