import ChainWatch.Proofs.Fleet.Pointing

/-!
# Operations one after the other

Reads side by side, repoints and health passes, each of them begun when the one before has ended. What
is shown is when an endpoint follows the source that the fleet is set to: it was reset by some operation
after which no health pass has started its container and no source was set that it was not told of.
-/

namespace ChainWatch

open Concurrency

inductive Operation where
  | reads (reads : List Read)
  | repoint (source : String)
  | recovery

/-- An operation and what it has done. -/
structure Turn where
  operation : Operation
  trace : Trace system

namespace Turn

/-- The turn has told the endpoint to follow some source. -/
def Points (turn : Turn) (e : Endpoint) : Prop :=
  ∃ source, .sent (.chain e.position (.reset source)) ∈ turn.trace

/-- The turn has had the container of the endpoint started. -/
def Restarts (turn : Turn) (e : Endpoint) : Prop :=
  ∃ c, .sent (.container e.position (.start c)) ∈ turn.trace

end Turn

namespace Fleet

variable {fleet : Fleet} {e : Endpoint} {operation : Operation} {turn : Turn} {past : List Turn}
  {trace : Trace system} {result : Option Unit} {m₀ m m' : State}

def perform (fleet : Fleet) : Operation → Job Unit
  | .reads reads => fleet.readAll reads
  | .repoint source => fleet.repoint source
  | .recovery => do
    let _ ← fleet.recoverAll
    return

/-- What has been done since `m₀`, the latest turn first, and the memory after it. -/
inductive Past (fleet : Fleet) (m₀ : State) : List Turn → State → Prop where
  | nil : Past fleet m₀ [] m₀
  | turn {past : List Turn} {m m' : State} {turn : Turn} (before : Past fleet m₀ past m)
      (runs : (fleet.perform turn.operation).Runs turn.trace (some ()))
      (follows : turn.trace.Follows id m m') : Past fleet m₀ (turn :: past) m'

def traceOf : List Turn → Trace system
  | [] => []
  | turn :: past => traceOf past ++ turn.trace

theorem mem_traceOf {event : Event system} {turns : List Turn} :
    event ∈ traceOf turns ↔ ∃ turn ∈ turns, event ∈ turn.trace := by
  induction turns with
  | nil => simp [traceOf]
  | cons turn past ih => simp [traceOf, ih, or_comm]

/-! ## One turn -/

/-- What an operation can do to the source of a managed endpoint. -/
structure Effect (e : Endpoint) (operation : Operation) (trace : Trace system)
    (result : Option Unit) (m m' : State) : Prop where
  ends : EndsAt e.position m'.forkUrl trace
  source : m'.forkUrl = m.forkUrl ↔ trace.Keeps State.forkUrl
  told : ¬ trace.Keeps State.forkUrl → result ≠ none → m.start = .complete →
    ∃ source, .reset source ∈ pointings e.position trace
  idle : m'.start = .idle →
    m.start = .idle ∧ ∀ source, .reset source ∉ pointings e.position trace
  settled : result ≠ none → m'.start ≠ .running
  recovery : operation = .recovery → ∀ source, .reset source ∉ pointings e.position trace
  restart : .restart ∈ pointings e.position trace → operation = .recovery ∨ m.start = .idle

theorem Effect.of_silent (hnil : pointings e.position trace = [])
    (hsource : m'.forkUrl = m.forkUrl ↔ trace.Keeps State.forkUrl)
    (htold : ¬ trace.Keeps State.forkUrl → result ≠ none → m.start ≠ .complete)
    (hidle : m'.start = .idle → m.start = .idle) (hsettled : result ≠ none → m'.start ≠ .running) :
    Effect e operation trace result m m' where
  ends _ hm := by simp [hnil] at hm
  source := hsource
  told hn hres hc := (htold hn hres hc).elim
  idle hi := ⟨hidle hi, by simp [hnil]⟩
  settled := hsettled
  recovery _ := by simp [hnil]
  restart hm := by simp [hnil] at hm

theorem effect_of_reads {reads : List Read} (hr : (fleet.readAll reads).Runs trace result)
    (hf : trace.Follows id m m') (hs : m.start ≠ .running) (he : e ∈ fleet.endpoints) :
    Effect e (.reads reads) trace result m m' := by
  have hkeeps := keeps_forkUrl_of_readAll hr
  have hurl := forkUrl_of_readAll hr hf
  have hstage : m'.start = .idle → m.start = .idle := fun hidle => by
    by_contra hne
    refine (hf.through State.start).stable (P := (· ≠ .idle)) hne ?_ hidle
    exact fun b a hm => (serves_of_readAll hr _ hm).touched.2.1
  have hsettled : result ≠ none → m'.start ≠ .running := fun hres => by
    obtain ⟨⟨⟩, rfl⟩ := Option.ne_none_iff_exists'.mp hres
    exact start_of_readAll hr hf hs
  rcases endsAt_of_readAll hr hf he with hnil | ⟨hidle, hstarted, hends⟩
  · exact .of_silent hnil ⟨fun _ => hkeeps, fun _ => hurl⟩ (fun hn => (hn hkeeps).elim) hstage
      hsettled
  · exact {
      ends := hurl ▸ hends
      source := ⟨fun _ => hkeeps, fun _ => hurl⟩
      told := fun hn => (hn hkeeps).elim
      idle := fun hi => (hstarted hi).elim
      settled := hsettled
      recovery := nofun
      restart := fun _ => .inr hidle }

theorem effect_of_repoint {url : String} (hr : (fleet.repoint url).Runs trace result)
    (hf : trace.Follows id m m') (hs : m.start ≠ .running) (he : e ∈ fleet.endpoints)
    (hm : e.role.isManaged) : Effect e (.repoint url) trace result m m' := by
  rcases runs_repoint hr hf he hm with ⟨rfl, rfl⟩ | ⟨rest, rfl, hkeeps, htold⟩
  · obtain rfl : m' = m := hf
    have hkeeps : Trace.Keeps State.forkUrl ([] : Trace system) := by simp [Trace.Keeps]
    exact .of_silent rfl ⟨fun _ => hkeeps, fun _ => rfl⟩ (fun hn => (hn hkeeps).elim) id
      fun _ => hs
  · have hsetting : setting m' = (url, m.start) :=
      (hf.2.through setting).eq_of_keeps hkeeps
    have hurl : m'.forkUrl = url := congrArg Prod.fst hsetting
    have hstart : m'.start = m.start := congrArg Prod.snd hsetting
    have hsource : m'.forkUrl = m.forkUrl ↔
        Trace.Keeps State.forkUrl (.touched m { m with forkUrl := url } :: rest) := by
      constructor
      · intro heq before after hmem
        rcases List.mem_cons.mp hmem with hfirst | hmem
        · cases hfirst
          exact hurl.symm.trans heq
        · exact congrArg Prod.fst (hkeeps before after hmem)
      · intro hkept
        exact (hf.through State.forkUrl).eq_of_keeps hkept
    have hsettled : result ≠ none → m'.start ≠ .running := fun _ => hstart ▸ hs
    by_cases hcomplete : m.start = .complete
    · rw [if_pos hcomplete] at htold
      exact {
        ends := hurl.symm ▸ endsAt_of_forall htold.1
        source := hsource
        told := fun _ hres _ => ⟨url, reset_mem_pointings.mpr (htold.2 hres)⟩
        idle := fun hi => by simp [hstart, hcomplete] at hi
        settled := hsettled
        recovery := fun h => by cases h
        restart := fun hm => by cases htold.1 _ hm }
    · rw [if_neg hcomplete] at htold
      exact .of_silent htold hsource (fun _ _ => hcomplete) (fun hi => hstart ▸ hi) hsettled

theorem effect_of_recovery (hr : (fleet.perform .recovery).Runs trace result)
    (hf : trace.Follows id m m') (hs : m.start ≠ .running) :
    Effect e .recovery trace result m m' := by
  obtain ⟨outcome, hrun, -⟩ := Activity.exists_runs_of_dropped hr
  have hacts := fleet.confined_recoverAll.runs hrun
  have hkeeps := keeps_setting_of_acts hacts
  have hsetting : setting m' = setting m := (hf.through setting).eq_of_keeps hkeeps
  have hstart : m'.start = m.start := congrArg Prod.snd hsetting
  have hurl : trace.Keeps State.forkUrl := fun before after hm =>
    congrArg Prod.fst (hkeeps before after hm)
  have hreset : ∀ source, .reset source ∉ pointings e.position trace := fun source hm => by
    obtain ⟨e', -, ha⟩ := hacts _ (reset_mem_pointings.mp hm)
    cases ha with
    | sent h => exact h _ source rfl
  exact {
    ends := fun any hm => (hreset any hm).elim
    source := ⟨fun _ => hurl, fun _ => congrArg Prod.fst hsetting⟩
    told := fun hn => (hn hurl).elim
    idle := fun hi => ⟨hstart ▸ hi, hreset⟩
    settled := fun _ => hstart ▸ hs
    recovery := fun _ => hreset
    restart := fun _ => .inl rfl }

theorem effect_of_runs (hr : (fleet.perform operation).Runs trace result)
    (hf : trace.Follows id m m') (hs : m.start ≠ .running) (he : e ∈ fleet.endpoints)
    (hm : e.role.isManaged) : Effect e operation trace result m m' := by
  cases operation with
  | reads reads => exact effect_of_reads hr hf hs he
  | repoint source => exact effect_of_repoint hr hf hs he hm
  | recovery => exact effect_of_recovery hr hf hs

/-! ## All turns -/

/-- The last that the node was told is to follow the source, and its container was not started since. -/
def FollowsSource (e : Endpoint) (source : String) (trace : Trace system) : Prop :=
  (pointings e.position trace).getLast? = some (.reset source)

/-- Some turn has reset the endpoint, and all later ones left its container and the source alone. -/
def Pointed (e : Endpoint) (turns : List Turn) : Prop :=
  ∃ after pointer before, turns = after ++ pointer :: before ∧ pointer.Points e ∧
    ∀ turn ∈ after, ¬ turn.Restarts e ∧ turn.trace.Keeps State.forkUrl

theorem points_iff : turn.Points e ↔ ∃ source, .reset source ∈ pointings e.position turn.trace := by
  simp only [Turn.Points, reset_mem_pointings]

theorem restarts_iff : turn.Restarts e ↔ .restart ∈ pointings e.position turn.trace :=
  restart_mem_pointings.symm

theorem pointed_cons : Pointed e (turn :: past) ↔
    turn.Points e ∨ ¬ turn.Restarts e ∧ turn.trace.Keeps State.forkUrl ∧ Pointed e past := by
  constructor
  · intro ⟨after, pointer, before, hsplit, hpoints, hafter⟩
    cases after with
    | nil =>
        obtain ⟨rfl, rfl⟩ := List.cons.inj hsplit
        exact .inl hpoints
    | cons first after =>
        obtain ⟨rfl, rfl⟩ := List.cons.inj hsplit
        obtain ⟨hcontainer, hsource⟩ := hafter turn (by simp)
        refine .inr ⟨hcontainer, hsource, after, pointer, before, rfl, hpoints, fun t ht => ?_⟩
        exact hafter t (by simp [ht])
  · intro h
    rcases h with hpoints | ⟨hcontainer, hsource, after, pointer, before, rfl, hpoints, hafter⟩
    · exact ⟨[], turn, past, rfl, hpoints, by simp⟩
    · refine ⟨turn :: after, pointer, before, rfl, hpoints, fun t ht => ?_⟩
      rcases List.mem_cons.mp ht with rfl | ht
      · exact ⟨hcontainer, hsource⟩
      · exact hafter t ht

/-- What holds between two turns, of the fleet and of a managed endpoint. -/
structure Standing (e : Endpoint) (past : List Turn) (m : State) : Prop where
  settled : m.start ≠ .running
  named : ∀ source, FollowsSource e source (traceOf past) → source = m.forkUrl
  idle : m.start = .idle → ∀ source, .reset source ∉ pointings e.position (traceOf past)

theorem Standing.step (h : Standing e past m)
    (heffect : Effect e turn.operation turn.trace (some ()) m m') :
    Standing e (turn :: past) m' where
  settled := heffect.settled (by simp)
  named source hfollows := by
    unfold FollowsSource traceOf at hfollows
    rw [pointings_append, List.getLast?_append] at hfollows
    cases hlast : (pointings e.position turn.trace).getLast? with
    | some x =>
        rw [hlast] at hfollows
        obtain rfl : x = .reset source := by simpa using hfollows
        have hends := heffect.ends source (List.mem_of_getLast? hlast)
        rw [hlast] at hends
        simpa using hends
    | none =>
        rw [hlast] at hfollows
        have hbefore : FollowsSource e source (traceOf past) := by
          simpa [FollowsSource] using hfollows
        by_cases hkeeps : turn.trace.Keeps State.forkUrl
        · exact (h.named source hbefore).trans (heffect.source.mpr hkeeps).symm
        · -- a new source is told to all that were told one before
          have hcomplete : m.start = .complete := by
            cases hs : m.start with
            | complete => rfl
            | running => exact (h.settled hs).elim
            | idle => exact (h.idle hs source (List.mem_of_getLast? hbefore)).elim
          obtain ⟨any, hm⟩ := heffect.told hkeeps (by simp) hcomplete
          rw [List.getLast?_eq_none_iff.mp hlast] at hm
          cases hm
  idle hidle source := by
    obtain ⟨hbefore, hnone⟩ := heffect.idle hidle
    unfold traceOf
    rw [pointings_append, List.mem_append, not_or]
    exact ⟨h.idle hbefore source, hnone source⟩

theorem Past.standing (h : fleet.Past m₀ past m) (hs : m₀.start = .idle)
    (he : e ∈ fleet.endpoints) (hm : e.role.isManaged) : Standing e past m := by
  induction h with
  | nil =>
      exact {
        settled := by simp [hs]
        named := by simp [FollowsSource, traceOf, pointings]
        idle := by simp [traceOf, pointings] }
  | turn _ hr hf ih => exact ih.step (effect_of_runs hr hf ih.settled he hm)

/-- A turn that resets the endpoint makes it follow the source; any other one spoils that by a start
of its container, or by a source that the endpoint was not told of. -/
theorem Standing.followsSource_cons (h : Standing e past m)
    (heffect : Effect e turn.operation turn.trace result m m')
    (hpast : FollowsSource e m.forkUrl (traceOf past) ↔ Pointed e past) :
    FollowsSource e m'.forkUrl (traceOf (turn :: past)) ↔ Pointed e (turn :: past) := by
  rw [pointed_cons]
  unfold FollowsSource traceOf
  rw [pointings_append, List.getLast?_append]
  by_cases hpoints : turn.Points e
  · obtain ⟨any, hany⟩ := points_iff.mp hpoints
    simp [heffect.ends any hany, hpoints]
  · by_cases hrestarts : turn.Restarts e
    · -- it was told something, and no reset
      have hne := List.ne_nil_of_mem (restarts_iff.mp hrestarts)
      have hlast : (pointings e.position turn.trace).getLast hne = .restart := by
        have hmem := List.getLast_mem hne
        cases hx : (pointings e.position turn.trace).getLast hne with
        | restart => rfl
        | reset any => exact (hpoints (points_iff.mpr ⟨any, hx ▸ hmem⟩)).elim
      simp [List.getLast?_eq_some_getLast hne, hlast, hpoints, hrestarts]
    · have hnil : pointings e.position turn.trace = [] := by
        refine List.eq_nil_iff_forall_not_mem.mpr fun x hx => ?_
        cases x with
        | reset any => exact hpoints (points_iff.mpr ⟨any, hx⟩)
        | restart => exact hrestarts (restarts_iff.mpr hx)
      simp only [hnil, hpoints, hrestarts, List.getLast?_nil, Option.none_or, false_or,
        not_false_eq_true, true_and]
      by_cases hkeeps : turn.trace.Keeps State.forkUrl
      · rw [heffect.source.mpr hkeeps]
        simpa [hkeeps, FollowsSource] using hpast
      · have hrenamed : m'.forkUrl ≠ m.forkUrl := fun heq => hkeeps (heffect.source.mp heq)
        simp only [hkeeps, false_and, iff_false]
        exact fun hfollows => hrenamed (h.named m'.forkUrl hfollows)

theorem Past.followsSource_iff (h : fleet.Past m₀ past m) (hs : m₀.start = .idle)
    (he : e ∈ fleet.endpoints) (hm : e.role.isManaged) :
    FollowsSource e m.forkUrl (traceOf past) ↔ Pointed e past := by
  induction h with
  | nil => simp [FollowsSource, traceOf, pointings, Pointed]
  | turn before hr hf ih =>
      have hstanding := before.standing hs he hm
      exact hstanding.followsSource_cons (effect_of_runs hr hf hstanding.settled he hm) ih

theorem Standing.not_points_of_idle (h : Standing e past m) (hs : m.start = .idle) :
    ∀ earlier ∈ past, ¬ earlier.Points e := by
  intro earlier hmem hpoints
  obtain ⟨any, hsent⟩ := hpoints
  have hall := mem_traceOf.mpr ⟨earlier, hmem, hsent⟩
  exact h.idle hs any (reset_mem_pointings.mpr hall)

/-- Health passes reset nothing, and a container that anything else has started was started before
the first reset. -/
def Apart (e : Endpoint) (turns : List Turn) : Prop :=
  ∀ after turn before, turns = after ++ turn :: before →
    (turn.operation = .recovery → ¬ turn.Points e) ∧
      (turn.Restarts e → turn.operation = .recovery ∨ ∀ earlier ∈ before, ¬ earlier.Points e)

/-- Once the endpoint was reset, it is told every source that is set. -/
def Informed (e : Endpoint) (turns : List Turn) : Prop :=
  ∀ after turn before, turns = after ++ turn :: before →
    turn.trace.Keeps State.forkUrl ∨ turn.Points e ∨ ∀ earlier ∈ before, ¬ earlier.Points e

theorem Standing.apart_cons (h : Standing e past m)
    (heffect : Effect e turn.operation turn.trace result m m') (hpast : Apart e past) :
    Apart e (turn :: past) := by
  intro after t before hsplit
  cases after with
  | cons first after =>
      obtain ⟨rfl, rfl⟩ := List.cons.inj hsplit
      exact hpast after t before rfl
  | nil =>
      obtain ⟨rfl, rfl⟩ := List.cons.inj hsplit
      refine ⟨fun hrecovery hpoints => ?_, fun hrestarts => ?_⟩
      · obtain ⟨any, hany⟩ := points_iff.mp hpoints
        exact heffect.recovery hrecovery any hany
      · exact (heffect.restart (restarts_iff.mp hrestarts)).imp id h.not_points_of_idle

theorem Standing.informed_cons (h : Standing e past m)
    (heffect : Effect e turn.operation turn.trace result m m') (hres : result ≠ none)
    (hpast : Informed e past) : Informed e (turn :: past) := by
  intro after t before hsplit
  cases after with
  | cons first after =>
      obtain ⟨rfl, rfl⟩ := List.cons.inj hsplit
      exact hpast after t before rfl
  | nil =>
      obtain ⟨rfl, rfl⟩ := List.cons.inj hsplit
      by_cases hkeeps : turn.trace.Keeps State.forkUrl
      · exact .inl hkeeps
      · cases hs : m.start with
        | running => exact (h.settled hs).elim
        | idle => exact .inr (.inr (h.not_points_of_idle hs))
        | complete => exact .inr (.inl (points_iff.mpr (heffect.told hkeeps hres hs)))

theorem Past.apart_and_informed (h : fleet.Past m₀ past m) (hs : m₀.start = .idle)
    (he : e ∈ fleet.endpoints) (hm : e.role.isManaged) : Apart e past ∧ Informed e past := by
  induction h with
  | nil => exact ⟨by simp [Apart], by simp [Informed]⟩
  | turn before hr hf ih =>
      have hstanding := before.standing hs he hm
      have heffect := effect_of_runs hr hf hstanding.settled he hm
      exact ⟨hstanding.apart_cons heffect ih.1,
        hstanding.informed_cons heffect (by simp) ih.2⟩

/-- Some turn has reset the endpoint, and no health pass has started its container since. -/
def Unspoiled (e : Endpoint) (turns : List Turn) : Prop :=
  ∃ after pointer before, turns = after ++ pointer :: before ∧ pointer.Points e ∧
    ∀ turn ∈ after, turn.operation = .recovery → ¬ turn.Restarts e

/-- Between two turns nothing but a health pass can have spoiled what a reset has done. -/
theorem pointed_iff_unspoiled {turns : List Turn} (ha : Apart e turns) (hi : Informed e turns) :
    Pointed e turns ↔ Unspoiled e turns := by
  constructor
  · intro ⟨after, pointer, before, hsplit, hpoints, hafter⟩
    exact ⟨after, pointer, before, hsplit, hpoints, fun t ht _ => (hafter t ht).1⟩
  · intro ⟨after, pointer, before, hsplit, hpoints, hafter⟩
    subst hsplit
    induction after with
    | nil => exact ⟨[], pointer, before, rfl, hpoints, by simp⟩
    | cons first after ih =>
        have hearlier : ¬ ∀ earlier ∈ after ++ pointer :: before, ¬ earlier.Points e :=
          fun hnone => hnone pointer (by simp) hpoints
        have hrest := ih (fun t ht => hafter t (by simp [ht]))
          (fun a t b h => ha (first :: a) t b (congrArg (first :: ·) h))
          (fun a t b h => hi (first :: a) t b (congrArg (first :: ·) h))
        rw [List.cons_append, pointed_cons]
        by_cases hfirst : first.Points e
        · exact .inl hfirst
        · have hkeeps : first.trace.Keeps State.forkUrl := by
            rcases hi [] first _ rfl with hkeeps | htold | hnone
            · exact hkeeps
            · exact (hfirst htold).elim
            · exact (hearlier hnone).elim
          refine .inr ⟨fun hrestarts => ?_, hkeeps, hrest⟩
          rcases (ha [] first _ rfl).2 hrestarts with hrecovery | hnone
          · exact hafter first (by simp) hrecovery hrestarts
          · exact hearlier hnone

/-- When a turn that is over has reset the endpoint: a repoint if the fleet had started, and reads if
they have started it, with a source to follow and with success at this endpoint. -/
def Resets (e : Endpoint) (turn : Turn) (m : State) : Prop :=
  match turn.operation with
  | .repoint _ => turn.Points e ↔ m.start = .complete
  | .recovery => ¬ turn.Points e
  | .reads _ =>
    if m.start = .idle ∧ turn.trace ≠ [] then
      ∃ (early : Trace system) (started : Except NodeFault Unit),
        e.start.run.Runs early (some started) ∧ (∀ event ∈ early, event ∈ turn.trace) ∧
          (turn.Points e ↔ started.isOk ∧ m.forkUrl ≠ "")
    else ¬ turn.Points e

theorem resets_of_runs (hr : (fleet.perform turn.operation).Runs turn.trace (some ()))
    (hf : turn.trace.Follows id m m') (hs : m.start ≠ .running) (he : e ∈ fleet.endpoints)
    (hm : e.role.isManaged) : Resets e turn m := by
  have heffect := effect_of_runs hr hf hs he hm
  obtain ⟨operation, trace⟩ := turn
  cases operation with
  | recovery =>
      intro hpoints
      obtain ⟨any, hany⟩ := points_iff.mp hpoints
      exact heffect.recovery rfl any hany
  | repoint url =>
      unfold Resets
      rw [points_iff]
      rcases runs_repoint hr hf he hm with ⟨-, hn⟩ | ⟨rest, -, -, htold⟩
      · cases hn
      · by_cases hcomplete : m.start = .complete
        · rw [if_pos hcomplete] at htold
          exact ⟨fun _ => hcomplete, fun _ => ⟨url, reset_mem_pointings.mpr (htold.2 (by simp))⟩⟩
        · rw [if_neg hcomplete] at htold
          simp [htold, hcomplete]
  | reads reads =>
      unfold Resets
      dsimp only
      split
      · rename_i hfirst
        rw [points_iff]
        exact exists_start_of_readAll hr hf hfirst.1 hfirst.2 he hm
      · rename_i hlater
        intro hpoints
        obtain ⟨any, hany⟩ := points_iff.mp hpoints
        rcases endsAt_of_readAll hr hf he with hnil | ⟨hidle, -, -⟩
        · simp [hnil] at hany
        · refine hlater ⟨hidle, fun hempty => ?_⟩
          rw [show trace = [] from hempty] at hany
          cases hany

/-- At any time a managed endpoint follows the source that is set just when some turn has reset it and
all later ones left its container and the source alone. Between two turns that means that no health
pass has started its container since the last reset; and it is known which turns reset it. -/
theorem followsSource_iff_pointed {fleet : Fleet} {e : Endpoint} {turn : Turn} {past : List Turn}
    {result : Option Unit} {m₀ m m' : State} (hs : m₀.start = .idle) (hp : fleet.Past m₀ past m)
    (hr : (fleet.perform turn.operation).Runs turn.trace result)
    (hf : turn.trace.Follows id m m') (he : e ∈ fleet.endpoints) (hm : e.role.isManaged) :
    (FollowsSource e m'.forkUrl (traceOf (turn :: past)) ↔ Pointed e (turn :: past)) ∧
      Apart e (turn :: past) ∧
      (result ≠ none → (FollowsSource e m'.forkUrl (traceOf (turn :: past)) ↔
        Unspoiled e (turn :: past)) ∧ Resets e turn m) := by
  have hstanding := hp.standing hs he hm
  have heffect := effect_of_runs hr hf hstanding.settled he hm
  obtain ⟨hapart, hinformed⟩ := hp.apart_and_informed hs he hm
  have hpointed := hstanding.followsSource_cons heffect (hp.followsSource_iff hs he hm)
  have hapart' := hstanding.apart_cons heffect hapart
  refine ⟨hpointed, hapart', fun hres => ⟨?_, ?_⟩⟩
  · have hinformed' := hstanding.informed_cons heffect hres hinformed
    exact hpointed.trans (pointed_iff_unspoiled hapart' hinformed')
  · obtain ⟨⟨⟩, rfl⟩ := Option.ne_none_iff_exists'.mp hres
    exact resets_of_runs hr hf hstanding.settled he hm

/-! ## A recovery that leaves the source unset -/

namespace Solo

def state (stage : StartStage) (down : List Nat) : State := ⟨down, "source", stage, .empty⟩

def exchange (r : Request) (answer : r.Answer) : Trace system := [.sent r, .answered r answer]

/-- The container is brought up, and its node answers. -/
def upward (m : State) : Trace system :=
  exchange (.container 0 (.presence "solo")) (.ok false) ++
    exchange (.container 0 (.start ⟨"solo", "image", [], []⟩)) (.ok ()) ++
    exchange (.chain 0 .blockNumber) (.ok 1) ++ [.touched m (m.mark 0 true)]

def resetting (m : State) : Trace system :=
  exchange (.chain 0 (.reset "source")) (.ok ()) ++
    exchange (.chain 0 .blockNumber) (.ok 1) ++ [.touched m (m.mark 0 true)]

def starting : Trace system :=
  .touched (state .idle []) (state .running []) ::
    .touched (state .running []) (state .running []) ::
    (upward (state .running []) ++ resetting (state .running [])) ++
    [.touched (state .running []) (state .complete [])]

def missing : Trace system :=
  exchange (.chain 0 .blockNumber) (.error .exchange) ++
    [.touched (state .complete []) (state .complete [0])]

def recovering : Trace system :=
  .touched (state .complete [0]) (state .complete [0]) ::
    .touched (state .complete [0]) (state .complete [0]) ::
    exchange (.container 0 (.stop "solo")) (.ok ()) ++
    [.touched (state .complete [0]) (state .complete [0])] ++
    upward (state .complete [0]) ++
    [.touched (state .complete []) (state .complete [])]

/-- The fleet starts with a read, and then the node is not to be reached. -/
def first : Turn := ⟨.reads [.blockNumber], starting ++ missing⟩

/-- The container is started anew, and the node answers again. -/
def second : Turn := ⟨.recovery, recovering⟩

theorem runs_upward (m : State) : soloist.start.run.Runs (upward m) (some (.ok ())) := by
  refine Activity.runs_perform ?_
  refine Activity.runs_perform ?_
  refine Activity.runs_perform ?_
  exact Activity.runs_touch (I := system) m ⟨rfl, .inr rfl⟩

theorem runs_resetting (m : State) :
    (soloist.reset "source").run.Runs (resetting m) (some (.ok ())) := by
  refine Activity.runs_perform ?_
  refine Activity.runs_perform ?_
  exact Activity.runs_touch (I := system) m ⟨rfl, .inr rfl⟩

/-- A read starts the fleet, while others may have changed the memory. -/
def launching (m : State) : Trace system :=
  .touched (state .idle []) (state .running []) ::
    .touched (state .running []) (state .running []) :: (upward m ++ resetting m) ++
    [.touched m { m with start := .complete }]

theorem runs_launching (m : State) : solo.ensureStarted.Runs (launching m) (some ()) := by
  have started : (startEndpoint "source" soloist).Runs (upward m ++ resetting m) (some ()) := by
    refine Activity.runs_bind_some.mpr ⟨_, _, _, runs_upward m, ?_, rfl⟩
    exact Activity.runs_bind_some.mpr ⟨_, _, [], runs_resetting m, ⟨rfl, .inr rfl⟩, rfl⟩
  have all : solo.start.Runs
      (.touched (state .running []) (state .running []) :: (upward m ++ resetting m)) (some ()) := by
    refine Activity.runs_bind_some.mpr ⟨state .running [], [_], _,
      Activity.runs_memory_some.mpr rfl, ?_, rfl⟩
    exact Activity.runs_bind_some.mpr ⟨_, _, [], Activity.runs_joinAll_singleton started,
      ⟨rfl, .inr rfl⟩, rfl⟩
  refine Activity.runs_touch (I := system) (state .idle []) ?_
  exact Activity.runs_bind_some.mpr ⟨_, _, _, all, Activity.runs_modify_some.mpr ⟨m, rfl⟩, rfl⟩

theorem runs_starting : solo.ensureStarted.Runs starting (some ()) :=
  runs_launching (state .running [])

theorem runs_first : (solo.perform first.operation).Runs first.trace (some ()) := by
  have missed : soloist.blockNumber.run.Runs missing (some (.error .exchange)) :=
    Endpoint.runs_ask_some.mpr ⟨state .complete [], rfl⟩
  have read : solo.blockNumber.run.Runs (starting ++ missing)
      (some (.error .blockNumber)) := by
    refine Activity.runs_bind_some.mpr ⟨_, _, _, runs_starting, ?_, rfl⟩
    exact Activity.runs_bind_some.mpr ⟨_, _, [], Activity.runs_joinAll_singleton missed,
      ⟨rfl, .inr rfl⟩, rfl⟩
  have dropped : (solo.read .blockNumber).Runs (starting ++ missing) (some ()) :=
    Activity.runs_bind_some.mpr ⟨_, _, [], read, ⟨rfl, .inr rfl⟩, rfl⟩
  exact Activity.runs_bind_some.mpr ⟨_, _, [], Activity.runs_joinAll_singleton dropped,
    ⟨rfl, .inr rfl⟩, rfl⟩

theorem runs_second : (solo.perform second.operation).Runs second.trace (some ()) := by
  have recovered : (attemptRecovery soloist).Runs recovering.tail (some ("solo", true)) := by
    refine Activity.runs_touch (I := system) (state .complete [0]) ?_
    refine Activity.runs_perform ?_
    refine Activity.runs_touch (I := system) (state .complete [0]) ?_
    refine Activity.runs_perform ?_
    refine Activity.runs_perform ?_
    refine Activity.runs_perform ?_
    refine Activity.runs_touch (I := system) (state .complete [0]) ?_
    refine Activity.runs_touch (I := system) (state .complete []) ?_
    exact ⟨rfl, .inr rfl⟩
  have all : solo.recoverAll.Runs recovering (some (.ok ⟨1, 1, 0⟩)) := by
    refine Activity.runs_bind_some.mpr ⟨state .complete [0], [_], _,
      Activity.runs_memory_some.mpr rfl, ?_, rfl⟩
    exact Activity.runs_bind_some.mpr ⟨_, _, [], Activity.runs_joinAll_singleton recovered,
      ⟨rfl, .inr rfl⟩, rfl⟩
  exact Activity.runs_bind_some.mpr ⟨_, _, [], all, ⟨rfl, .inr rfl⟩, rfl⟩

theorem follows_first : first.trace.Follows id (state .idle []) (state .complete [0]) :=
  ⟨rfl, rfl, rfl, rfl, rfl, rfl, rfl⟩

theorem follows_second : second.trace.Follows id (state .complete [0]) (state .complete []) :=
  ⟨rfl, rfl, rfl, rfl, rfl, rfl⟩

theorem past_first : solo.Past (state .idle []) [first] (state .complete [0]) :=
  .turn .nil runs_first follows_first

theorem unspoiled_until_recovery :
    (state .idle []).start = .idle ∧ solo.Past (state .idle []) [first] (state .complete [0]) ∧
      (solo.perform second.operation).Runs second.trace (some ()) ∧
      second.trace.Follows id (state .complete [0]) (state .complete []) ∧
      soloist ∈ solo.endpoints ∧ soloist.role.isManaged ∧
      Unspoiled soloist [first] ∧ ¬ Unspoiled soloist [second, first] := by
  have idle : (state .idle []).start = .idle := rfl
  have member : soloist ∈ solo.endpoints := List.mem_singleton.mpr rfl
  refine ⟨idle, past_first, runs_second, follows_second, member, rfl, ?_, ?_⟩
  · have before := followsSource_iff_pointed idle .nil runs_first follows_first member rfl
    exact (before.2.2 (by simp)).1.mp rfl
  · have after := followsSource_iff_pointed idle past_first runs_second follows_second member rfl
    intro unspoiled
    have follows := (after.2.2 (by simp)).1.mpr unspoiled
    cases follows

/-- A health pass may bring back an endpoint that does not follow the source. -/
theorem healthy_without_source_after_recovery :
    ¬ ∀ (fleet : Fleet) (m₀ m m' : State) (past : List Turn) (turn : Turn) (result : Option Unit),
      m₀.start = .idle → fleet.Past m₀ past m →
      (fleet.perform turn.operation).Runs turn.trace result → turn.trace.Follows id m m' →
      m'.start = .complete → m'.forkUrl ≠ "" →
      (∀ p source fault, .answered (.chain p (.reset source)) (.error fault) ∉
        traceOf (turn :: past)) →
      ∀ e ∈ fleet.endpoints, e.role.isManaged → m'.isHealthy e.position →
        FollowsSource e m'.forkUrl (traceOf (turn :: past)) := by
  intro consistent
  have taken : ∀ p source fault, .answered (.chain p (.reset source)) (.error fault) ∉
      traceOf [second, first] := by
    intro p source fault
    simp [traceOf, first, second, starting, missing, recovering, upward, resetting, exchange]
  have follows := consistent solo (state .idle []) _ _ [first] second (some ()) rfl past_first
    runs_second follows_second rfl (by decide) taken soloist (List.mem_singleton.mpr rfl) rfl rfl
  cases follows

end Solo

end Fleet

end ChainWatch
