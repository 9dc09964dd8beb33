import ChainWatch.Proofs.Concurrency.Ending

/-!
# Runs have traces

`Activity.run` follows one schedule, which the handler's delays decide. It is one of the schedules that
`Activity.Runs` allows: every run, whether or not it ends with a value, has a trace, along which the
memory and the outside develop from event to event (`Activity.exists_trace_of_run`).
-/

namespace ChainWatch.Concurrency

variable {I : Interface} {σ α β γ ε : Type}

/-- What a request is answered, sooner or later. -/
def Settlement.answer {A : Type} : Settlement A → A
  | .now answer => answer
  | .later _ answer => answer

namespace Trace

/-- The handler gives the answers of the trace, from the outside state `s` to the outside state `s'`. -/
def Served (h : Handler I σ) : Trace I → σ → σ → Prop
  | [], s, s' => s' = s
  | .sent request :: rest, s, s' => Served h rest (h.submit request s).2 s'
  | .answered request answer :: rest, s, s' =>
    (h.settle request s).1.answer = answer ∧ Served h rest (h.settle request s).2 s'
  | .touched _ _ :: rest, s, s' => Served h rest s s'
  | .noticed _ :: rest, s, s' => Served h rest s s'

def exchanged (trace : Trace I) : Trace I :=
  trace.filter fun
    | .sent _ | .answered _ _ => true
    | _ => false

/-- Along the trace the world `w` becomes the world `w'`. -/
def Leads (h : Handler I σ) (trace : Trace I) (w w' : World I σ) : Prop :=
  trace.Follows id w.memory w'.memory ∧ trace.Served h w.outside w'.outside

variable {h : Handler I σ}

theorem leads_nil (w : World I σ) : Leads h [] w w := ⟨rfl, rfl⟩

theorem served_append {early late : Trace I} {s s' : σ} :
    (early ++ late).Served h s s' ↔ ∃ z, early.Served h s z ∧ late.Served h z s' := by
  induction early generalizing s with
  | nil => simp [Served]
  | cons event early ih =>
      cases event <;> simp only [List.cons_append, Served, ih, exists_and_left, and_assoc]

theorem Leads.append {early late : Trace I} {w w' w'' : World I σ} (he : early.Leads h w w')
    (hl : late.Leads h w' w'') : (early ++ late).Leads h w w'' :=
  ⟨follows_append.mpr ⟨_, he.1, hl.1⟩, served_append.mpr ⟨_, he.2, hl.2⟩⟩

end Trace

/-- What an activity has become is explained by a trace that whatever it does next can be put behind. -/
def Explains (h : Handler I σ) (p : Activity I α) (w : World I σ) (r : Activity I α × World I σ) :
    Prop :=
  ∃ trace : Trace I, trace.Leads h w r.2 ∧
    ∀ later result, r.1.Runs later result → p.Runs (trace ++ later) result

def CrewExplains (h : Handler I σ) (crew : Crew I β) (w : World I σ)
    (r : Crew I β × World I σ) : Prop :=
  ∃ trace : Trace I, trace.Leads h w r.2 ∧
    ∀ later results, r.1.Runs later results → crew.Runs (trace ++ later) results

section Poll

variable {h : Handler I σ} {now : Nat} {w w' : World I σ}

theorem explains_refl (p : Activity I α) (w : World I σ) : Explains h p w (p, w) :=
  ⟨[], Trace.leads_nil w, fun _ _ hr => hr⟩

theorem Explains.trans {p q : Activity I α} {r : Activity I α × World I σ}
    (hp : Explains h p w (q, w')) (hq : Explains h q w' r) : Explains h p w r := by
  obtain ⟨early, he, hpe⟩ := hp
  obtain ⟨late, hl, hql⟩ := hq
  refine ⟨early ++ late, he.append hl, fun later result hr => ?_⟩
  rw [List.append_assoc]
  exact hpe _ _ (hql _ _ hr)

theorem explains_of_event {p q : Activity I α} (event : Event I)
    (hl : Trace.Leads h [event] w w')
    (hr : ∀ later result, q.Runs later result → p.Runs (event :: later) result) :
    Explains h p w (q, w') :=
  ⟨[event], hl, hr⟩

theorem explains_of_silent {p q : Activity I α}
    (hr : ∀ later result, q.Runs later result → p.Runs later result) : Explains h p w (q, w) :=
  ⟨[], Trace.leads_nil w, hr⟩

theorem explains_conclude {request : I.Request} {next : I.Answer request → Activity I α}
    (ih : ∀ answer w, Explains h (next answer) w ((next answer).poll h now w)) (due : Nat)
    (w : World I σ) :
    Explains h (.settleAt due request next) w
      (h.conclude now request next (fun answer w => (next answer).poll h now w) w) := by
  have answered : ∀ {answer : I.Answer request} {outside : σ},
      (h.settle request w.outside).1.answer = answer →
      (h.settle request w.outside).2 = outside →
      Explains h (.settleAt due request next) w (next answer, { w with outside }) := by
    rintro answer outside rfl rfl
    exact explains_of_event (.answered request _) ⟨rfl, rfl, rfl⟩
      fun later result hr => .inr ⟨_, later, rfl, hr⟩
  unfold Handler.conclude
  split
  · rename_i answer outside heq
    exact (answered (by rw [heq]; rfl) (by rw [heq])).trans (ih answer _)
  · rename_i span answer outside heq
    have hanswered : Explains h (.settleAt due request next) w (next answer, { w with outside }) :=
      answered (by rw [heq]; rfl) (by rw [heq])
    split
    · exact hanswered.trans (ih answer _)
    · exact hanswered.trans (explains_of_silent fun _ _ hr => hr)

theorem runs_of_results {crew : Crew I β} {results : List β} (hc : crew.results? = some results) :
    crew.Runs [] (some results) := by
  cases crew with
  | nil => exact ⟨rfl, hc.symm⟩
  | running | queued => simp [Crew.results?] at hc
  | finished value rest =>
      obtain ⟨values, hv, rfl⟩ := Option.map_eq_some_iff.mp hc
      exact ⟨some values, runs_of_results hv, rfl⟩

theorem explains_join {limit : Nat} {crew crew' : Crew I β} {next : List β → Activity I α}
    (hc : CrewExplains h crew w (crew', w')) :
    Explains h (.join limit crew next) w (.join limit crew' next, w') := by
  obtain ⟨trace, hl, hr⟩ := hc
  refine ⟨trace, hl, fun later result hj => ?_⟩
  rcases hj with ⟨rfl, results, hj⟩ | ⟨results, early, late, he, hn, rfl⟩
  · exact .inl ⟨rfl, results, hr _ _ hj⟩
  · exact .inr ⟨results, trace ++ early, late, hr _ _ he, hn, (List.append_assoc ..).symm⟩

theorem explains_joined {limit : Nat} {crew : Crew I β} {next : List β → Activity I α}
    {results : List β} (hc : crew.results? = some results) :
    Explains h (.join limit crew next) w (next results, w) :=
  explains_of_silent fun later _ hr => .inr ⟨results, [], later, runs_of_results hc, hr, rfl⟩

theorem explains_left {p p' : Activity I (Except ε β)} {q : Activity I (Except ε γ)}
    {next : Except ε (β × γ) → Activity I α} (hp : Explains h p w (p', w')) :
    Explains h (.tryPair p q next) w (.tryPair p' q next, w') := by
  obtain ⟨trace, hl, hr⟩ := hp
  refine ⟨trace, hl, fun later result ht => ?_⟩
  have grow : ∀ {a b c : Trace I}, Shuffle a b c → Shuffle (trace ++ a) b (trace ++ c) :=
    fun hs => (Shuffle.nil_right trace).append hs
  rcases ht with ⟨rfl, a, b, ra, rb, ha, hb, hs⟩ |
    ⟨outcome, early, late, ⟨a, b, ra, rb, ha, hb, hs, ho⟩, hn, rfl⟩
  · exact .inl ⟨rfl, trace ++ a, b, ra, rb, hr _ _ ha, hb, grow hs⟩
  · exact .inr ⟨outcome, trace ++ early, late, ⟨trace ++ a, b, ra, rb, hr _ _ ha, hb, grow hs, ho⟩,
      hn, (List.append_assoc ..).symm⟩

theorem explains_right {p : Activity I (Except ε β)} {q q' : Activity I (Except ε γ)}
    {next : Except ε (β × γ) → Activity I α} (hq : Explains h q w (q', w')) :
    Explains h (.tryPair p q next) w (.tryPair p q' next, w') := by
  obtain ⟨trace, hl, hr⟩ := hq
  refine ⟨trace, hl, fun later result ht => ?_⟩
  have grow : ∀ {a b c : Trace I}, Shuffle a b c → Shuffle a (trace ++ b) (trace ++ c) :=
    fun hs => (Shuffle.nil_right trace).swap.append hs
  rcases ht with ⟨rfl, a, b, ra, rb, ha, hb, hs⟩ |
    ⟨outcome, early, late, ⟨a, b, ra, rb, ha, hb, hs, ho⟩, hn, rfl⟩
  · exact .inl ⟨rfl, a, trace ++ b, ra, rb, ha, hr _ _ hb, grow hs⟩
  · exact .inr ⟨outcome, trace ++ early, late, ⟨a, trace ++ b, ra, rb, ha, hr _ _ hb, grow hs, ho⟩,
      hn, (List.append_assoc ..).symm⟩

/-- A pair moves on when its halves have come far enough. -/
theorem explains_paired {p : Activity I (Except ε β)} {q : Activity I (Except ε γ)}
    {next : Except ε (β × γ) → Activity I α} {ra : Option (Except ε β)}
    {rb : Option (Except ε γ)} {outcome : Except ε (β × γ)} (hp : p.Runs [] ra)
    (hq : q.Runs [] rb) (ho : PairOutcome ra rb outcome) :
    Explains h (.tryPair p q next) w (next outcome, w) :=
  explains_of_silent fun later _ hr =>
    .inr ⟨outcome, [], later, ⟨[], [], ra, rb, hp, hq, .nil, ho⟩, hr, rfl⟩

theorem crewExplains_refl (crew : Crew I β) (w : World I σ) : CrewExplains h crew w (crew, w) :=
  ⟨[], Trace.leads_nil w, fun _ _ hr => hr⟩

theorem crewExplains_running {member member' : Activity I β} {rest rest' : Crew I β}
    {w'' : World I σ} (hm : Explains h member w (member', w'))
    (hr : CrewExplains h rest w' (rest', w'')) :
    CrewExplains h (.running member rest) w (.running member' rest', w'') := by
  obtain ⟨early, he, hem⟩ := hm
  obtain ⟨late, hl, hlr⟩ := hr
  refine ⟨early ++ late, he.append hl, ?_⟩
  rintro later _ ⟨a, b, ra, rb, ha, hb, hs, rfl⟩
  refine ⟨early ++ a, late ++ b, ra, rb, hem _ _ ha, hlr _ _ hb, ?_, rfl⟩
  exact (Shuffle.concat early late).append hs

theorem crewExplains_finishing {member : Activity I β} {value : β} {rest rest' : Crew I β}
    {w'' : World I σ} (hm : Explains h member w (.done value, w'))
    (hr : CrewExplains h rest w' (rest', w'')) :
    CrewExplains h (.running member rest) w (.finished value rest', w'') := by
  obtain ⟨early, he, hem⟩ := hm
  obtain ⟨late, hl, hlr⟩ := hr
  refine ⟨early ++ late, he.append hl, ?_⟩
  rintro later _ ⟨others, ho, rfl⟩
  refine ⟨early, late ++ later, some value, others, ?_, hlr _ _ ho, ?_, rfl⟩
  · simpa using hem [] (some value) ⟨rfl, .inr rfl⟩
  · rw [List.append_assoc]
    exact Shuffle.concat early (late ++ later)

mutual

theorem Activity.explains_poll {α : Type} (h : Handler I σ) (now : Nat) :
    (p : Activity I α) → (w : World I σ) → Explains h p w (p.poll h now w)
  | .done _, w => explains_refl _ w
  | .touch change next, w => by
      have touched : Explains h (.touch change next) w
          (next now w.memory, { w with memory := change w.memory }) :=
        explains_of_event (.touched w.memory (change w.memory)) ⟨⟨rfl, rfl⟩, rfl⟩
          fun later result hr => .inr ⟨(now, w.memory), later, rfl, hr⟩
      unfold Activity.poll
      exact touched.trans ((next now w.memory).explains_poll h now _)
  | .perform request next, w => by
      have sent : ∀ due, Explains h (.perform request next) w
          (.settleAt due request next, { w with outside := (h.submit request w.outside).2 }) :=
        fun due => explains_of_event (.sent request) ⟨rfl, rfl⟩
          fun later result hr => .inr ⟨(), later, rfl, hr⟩
      unfold Activity.poll
      dsimp only
      split
      · exact (sent now).trans
          (explains_conclude (fun answer w => (next answer).explains_poll h now w) now _)
      · exact sent _
  | .settleAt due request next, w => by
      unfold Activity.poll
      split
      · exact explains_conclude (fun answer w => (next answer).explains_poll h now w) due w
      · exact explains_refl _ w
  | .pause span next, w => by
      unfold Activity.poll
      split
      · exact (explains_of_silent fun _ _ hr => hr).trans (next.explains_poll h now w)
      · exact explains_of_silent fun _ _ hr => hr
  | .resumeAt due next, w => by
      unfold Activity.poll
      split
      · exact (explains_of_silent fun _ _ hr => hr).trans (next.explains_poll h now w)
      · exact explains_refl _ w
  | .waitUntil ready next, w => by
      unfold Activity.poll
      split
      · rename_i hready
        have noticed : Explains h (.waitUntil ready next) w (next, w) :=
          explains_of_event (.noticed w.memory) ⟨⟨rfl, rfl⟩, rfl⟩
            fun later result hr => .inr ⟨⟨w.memory, hready⟩, later, rfl, hr⟩
        exact noticed.trans (next.explains_poll h now w)
      · exact explains_refl _ w
  | .join limit crew next, w => by
      have hc := crew.explains_poll h now (limit - crew.busy) w
      unfold Activity.poll
      dsimp only
      split
      · rename_i results hresults
        exact ((explains_join hc).trans (explains_joined hresults)).trans
          ((next results).explains_poll h now _)
      · exact explains_join hc
  | .tryPair left right next, w => by
      have ih := fun outcome w => (next outcome).explains_poll h now w
      have hl := left.explains_poll h now w
      have finished {δ : Type} (value : δ) : (Activity.done value : Activity I δ).Runs [] (some value) :=
        ⟨rfl, .inr rfl⟩
      unfold Activity.poll
      split
      · rename_i e w' heq
        rw [heq] at hl
        exact ((explains_left hl).trans
          (explains_paired (finished _) right.runs_nil (.left e fun _ => nofun))).trans (ih _ _)
      · rename_i left' w' _ heq
        rw [heq] at hl
        have hr := right.explains_poll h now w'
        have both : Explains h (.tryPair left right next) w
            (.tryPair left' (right.poll h now w').1 next, (right.poll h now w').2) :=
          (explains_left hl).trans (explains_right hr)
        split
        · rw [‹right.poll h now w' = _›] at both
          exact (both.trans
            (explains_paired (Activity.runs_nil _) (finished _) (.right _ fun _ => nofun))).trans
              (ih _ _)
        · rw [‹right.poll h now w' = _›] at both
          exact (both.trans (explains_paired (finished _) (finished _) (.both _ _))).trans (ih _ _)
        · rw [‹right.poll h now w' = _›] at both
          exact both
termination_by structural p => p

theorem Crew.explains_poll {β : Type} (h : Handler I σ) (now : Nat) :
    (crew : Crew I β) → (free : Nat) → (w : World I σ) →
      CrewExplains h crew w (crew.poll h now free w)
  | .nil, _, w => crewExplains_refl _ w
  | .finished value rest, free, w => by
      obtain ⟨trace, hl, hr⟩ := rest.explains_poll h now free w
      refine ⟨trace, hl, ?_⟩
      rintro later _ ⟨others, ho, rfl⟩
      exact ⟨others, hr _ _ ho, rfl⟩
  | .running member rest, free, w => by
      have hm := member.explains_poll h now w
      unfold Crew.poll
      split
      · rename_i value w' heq
        rw [heq] at hm
        exact crewExplains_finishing hm (rest.explains_poll h now (free + 1) w')
      · rename_i member' w' _ heq
        rw [heq] at hm
        exact crewExplains_running hm (rest.explains_poll h now free w')
  | .queued member rest, free, w => by
      unfold Crew.poll
      split
      · exact crewExplains_running (explains_refl member w) (rest.explains_poll h now 0 w)
      · have hm := member.explains_poll h now w
        split
        · rename_i value w' heq
          rw [heq] at hm
          exact crewExplains_finishing hm (rest.explains_poll h now free w')
        · rename_i member' w' _ heq
          rw [heq] at hm
          exact crewExplains_running hm (rest.explains_poll h now (free - 1) w')
termination_by structural crew => crew

end

end Poll

theorem Activity.runs_value? (p : Activity I α) : p.Runs [] p.value? := by
  cases p with
  | done value => exact ⟨rfl, .inr rfl⟩
  | _ => exact Activity.runs_nil _

/-- Every run has a trace. -/
theorem Activity.exists_trace_of_run (h : Handler I σ) (now : Nat) (p : Activity I α)
    (w : World I σ) :
    ∃ trace : Trace I, p.Runs trace (p.run h now w).value? ∧
      trace.Leads h w (p.run h now w).world := by
  obtain ⟨q, ⟨trace, hl, hr⟩, -, hv⟩ :=
    exists_rest_of_run (fun q w' => Explains h p w (q, w')) h now (explains_refl p w)
      fun due q w' hq => hq.trans (q.explains_poll h due w')
  exact ⟨trace, by simpa [hv] using hr _ _ q.runs_value?, hl⟩

end ChainWatch.Concurrency
