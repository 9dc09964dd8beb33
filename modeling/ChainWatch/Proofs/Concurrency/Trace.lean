import ChainWatch.Concurrency.Run
import ChainWatch.Proofs.Concurrency.Shuffle
import Mathlib.Data.List.Nodup
import Mathlib.Tactic.Choose

/-!
# Traces

A trace lists what an activity did: the requests it sent, the answers it got, and how it found and left
the shared memory. `Activity.Runs` says which traces an activity allows when its requests may be
answered in any way, after any time, and when others may change the memory between any two of its
events. Members of a crew interleave freely, so what holds of all traces holds of every schedule.
-/

namespace ChainWatch.Concurrency

/-- What an activity does that can be noticed from outside. -/
inductive Event (I : Interface) where
  | sent (request : I.Request)
  | answered (request : I.Request) (answer : I.Answer request)
  /-- The memory was found as `before` and left as `after`. -/
  | touched (before after : I.Memory)
  /-- A wait ended, since the memory was found ready. -/
  | noticed (memory : I.Memory)

abbrev Trace (I : Interface) : Type := List (Event I)

variable {I : Interface} {α β γ ε ι : Type}

/-- Nothing has happened so far, or some event came first and the rest for it followed. -/
def Begins (event : ι → Event I) (rest : ι → Trace I → Option α → Prop) (trace : Trace I)
    (result : Option α) : Prop :=
  trace = [] ∧ result = none ∨ ∃ i later, trace = event i :: later ∧ rest i later result

/-- A first part is still under way, or it has ended in some way and the rest for it followed. -/
def Continues (underWay : Trace I → Prop) (ended : ι → Trace I → Prop)
    (rest : ι → Trace I → Option α → Prop) (trace : Trace I) (result : Option α) : Prop :=
  result = none ∧ underWay trace ∨
    ∃ i early late, ended i early ∧ rest i late result ∧ trace = early ++ late

/-- How a pair ends, given what its halves have come to. -/
inductive PairOutcome : Option (Except ε β) → Option (Except ε γ) → Except ε (β × γ) → Prop where
  | both (b : β) (c : γ) : PairOutcome (some (.ok b)) (some (.ok c)) (.ok (b, c))
  | left (e : ε) {right : Option (Except ε γ)} (alone : ∀ e', right ≠ some (.error e')) :
      PairOutcome (some (.error e)) right (.error e)
  | right (e : ε) {left : Option (Except ε β)} (alone : ∀ e', left ≠ some (.error e')) :
      PairOutcome left (some (.error e)) (.error e)

def consResult : Option β → Option (List β) → Option (List β)
  | some value, some values => some (value :: values)
  | _, _ => none

mutual

/-- What an activity may do: the events so far, and its value if it has finished. -/
def Activity.Runs {α : Type} : Activity I α → Trace I → Option α → Prop
  | .done value => fun trace result => trace = [] ∧ (result = none ∨ result = some value)
  | .touch change next =>
    Begins (fun found : Nat × I.Memory => .touched found.2 (change found.2))
      fun found => (next found.1 found.2).Runs
  | .perform request next =>
    Begins (fun _ : Unit => .sent request) fun _ =>
      Begins (.answered request) fun answer => (next answer).Runs
  | .settleAt _ request next => Begins (.answered request) fun answer => (next answer).Runs
  | .pause _ next => next.Runs
  | .resumeAt _ next => next.Runs
  | .waitUntil ready next =>
    Begins (fun found : { m : I.Memory // ready m = true } => .noticed found.1) fun _ => next.Runs
  | .join _ crew next =>
    Continues (fun trace => ∃ results, crew.Runs trace results)
      (fun results early => crew.Runs early (some results)) fun results => (next results).Runs
  | .tryPair left right next =>
    Continues
      (fun trace => ∃ a b ra rb, left.Runs a ra ∧ right.Runs b rb ∧ Shuffle a b trace)
      (fun outcome early => ∃ a b ra rb, left.Runs a ra ∧ right.Runs b rb ∧ Shuffle a b early ∧
        PairOutcome ra rb outcome)
      fun outcome => (next outcome).Runs
termination_by structural p => p

/-- What the members of a crew may do together, and all their values if all have finished. -/
def Crew.Runs {β : Type} : Crew I β → Trace I → Option (List β) → Prop
  | .nil => fun trace results => trace = [] ∧ results = some []
  | .finished value rest => fun trace results =>
    ∃ others, rest.Runs trace others ∧ results = consResult (some value) others
  | .running member rest => fun trace results =>
    ∃ a b ra rb, member.Runs a ra ∧ rest.Runs b rb ∧ Shuffle a b trace ∧ results = consResult ra rb
  | .queued member rest => fun trace results =>
    ∃ a b ra rb, member.Runs a ra ∧ rest.Runs b rb ∧ Shuffle a b trace ∧ results = consResult ra rb
termination_by structural crew => crew

end

/-! ## Not having started -/

mutual

theorem Activity.runs_nil {α : Type} : (p : Activity I α) → p.Runs [] none
  | .done _ => ⟨rfl, .inl rfl⟩
  | .touch _ _ => .inl ⟨rfl, rfl⟩
  | .perform _ _ => .inl ⟨rfl, rfl⟩
  | .settleAt _ _ _ => .inl ⟨rfl, rfl⟩
  | .pause _ next => next.runs_nil
  | .resumeAt _ next => next.runs_nil
  | .waitUntil _ _ => .inl ⟨rfl, rfl⟩
  | .join _ crew _ => .inl ⟨rfl, crew.runs_nil⟩
  | .tryPair left right _ =>
      .inl ⟨rfl, [], [], none, none, left.runs_nil, right.runs_nil, .nil⟩
termination_by structural p => p

theorem Crew.runs_nil {β : Type} : (crew : Crew I β) → ∃ results, crew.Runs [] results
  | .nil => ⟨_, rfl, rfl⟩
  | .finished _ rest => by
      obtain ⟨others, h⟩ := rest.runs_nil
      exact ⟨_, others, h, rfl⟩
  | .running member rest => by
      obtain ⟨others, h⟩ := rest.runs_nil
      exact ⟨_, [], [], none, others, member.runs_nil, h, .nil, rfl⟩
  | .queued member rest => by
      obtain ⟨others, h⟩ := rest.runs_nil
      exact ⟨_, [], [], none, others, member.runs_nil, h, .nil, rfl⟩
termination_by structural crew => crew

end

/-! ## One after the other -/

@[simp] theorem begins_some {event : ι → Event I} {rest : ι → Trace I → Option α → Prop}
    {trace : Trace I} {value : α} :
    Begins event rest trace (some value) ↔
      ∃ i later, trace = event i :: later ∧ rest i later (some value) := by
  simp [Begins]

@[simp] theorem continues_some {underWay : Trace I → Prop} {ended : ι → Trace I → Prop}
    {rest : ι → Trace I → Option α → Prop} {trace : Trace I} {value : α} :
    Continues underWay ended rest trace (some value) ↔
      ∃ i early late, ended i early ∧ rest i late (some value) ∧ trace = early ++ late := by
  simp [Continues]

/-- The traces of a sequence: those of the first part while it is under way, then followed by those of
the second part. -/
abbrev Sequence (first : Trace I → Option α → Prop) (second : α → Trace I → Option β → Prop) :
    Trace I → Option β → Prop :=
  Continues (first · none) (fun value early => first early (some value)) second

theorem begins_sequence (event : ι → Event I) (first : ι → Trace I → Option α → Prop)
    (second : α → Trace I → Option β → Prop) (trace : Trace I) (result : Option β) :
    Begins event (fun i => Sequence (first i) second) trace result ↔
      Sequence (Begins event first) second trace result := by
  constructor
  · rintro (⟨rfl, rfl⟩ | ⟨i, later, rfl, ⟨rfl, h⟩ | ⟨value, early, late, h, hs, rfl⟩⟩)
    · exact .inl ⟨rfl, .inl ⟨rfl, rfl⟩⟩
    · exact .inl ⟨rfl, .inr ⟨i, later, rfl, h⟩⟩
    · exact .inr ⟨value, event i :: early, late, .inr ⟨i, early, rfl, h⟩, hs, rfl⟩
  · rintro (⟨rfl, ⟨rfl, -⟩ | ⟨i, later, rfl, h⟩⟩ | ⟨value, _, late, hf, hs, rfl⟩)
    · exact .inl ⟨rfl, rfl⟩
    · exact .inr ⟨i, later, rfl, .inl ⟨rfl, h⟩⟩
    · obtain ⟨i, early, rfl, h⟩ := begins_some.mp hf
      exact .inr ⟨i, early ++ late, rfl, .inr ⟨value, early, late, h, hs, rfl⟩⟩

theorem continues_sequence (underWay : Trace I → Prop) (ended : ι → Trace I → Prop)
    (first : ι → Trace I → Option α → Prop) (second : α → Trace I → Option β → Prop)
    (trace : Trace I) (result : Option β) :
    Continues underWay ended (fun i => Sequence (first i) second) trace result ↔
      Sequence (Continues underWay ended first) second trace result := by
  constructor
  · rintro (⟨rfl, h⟩ | ⟨i, early, _, he, ⟨rfl, h⟩ | ⟨value, middle, late, h, hs, rfl⟩, rfl⟩)
    · exact .inl ⟨rfl, .inl ⟨rfl, h⟩⟩
    · exact .inl ⟨rfl, .inr ⟨i, early, _, he, h, rfl⟩⟩
    · exact .inr ⟨value, early ++ middle, late, .inr ⟨i, early, middle, he, h, rfl⟩, hs,
        (List.append_assoc ..).symm⟩
  · rintro (⟨rfl, ⟨-, h⟩ | ⟨i, early, late, he, h, rfl⟩⟩ | ⟨value, _, late, hf, hs, rfl⟩)
    · exact .inl ⟨rfl, h⟩
    · exact .inr ⟨i, early, late, he, .inl ⟨rfl, h⟩, rfl⟩
    · obtain ⟨i, early, middle, he, h, rfl⟩ := continues_some.mp hf
      exact .inr ⟨i, early, middle ++ late, he, .inr ⟨value, middle, late, h, hs, rfl⟩,
        List.append_assoc ..⟩

theorem Activity.runs_bind {α β : Type} : (p : Activity I α) → (f : α → Activity I β) →
    (p.bind f).Runs = Sequence p.Runs fun value => (f value).Runs
  | .done value, f => by
      funext trace result
      apply propext
      constructor
      · intro h
        exact .inr ⟨value, [], trace, ⟨rfl, .inr rfl⟩, h, rfl⟩
      · rintro (⟨rfl, rfl, -⟩ | ⟨v, early, late, ⟨rfl, hv⟩, h, rfl⟩)
        · exact (f value).runs_nil
        · obtain rfl : v = value := by simpa using hv
          exact h
  | .touch change next, f => by
      funext trace result
      have ih := fun found : Nat × I.Memory => (next found.1 found.2).runs_bind f
      simpa only [Activity.bind, Activity.Runs, ih] using propext (begins_sequence ..)
  | .perform request next, f => by
      funext trace result
      have ih := fun answer => (next answer).runs_bind f
      have settled : Begins (.answered request) (fun answer => ((next answer).bind f).Runs) =
          Sequence (Begins (.answered request) fun answer => (next answer).Runs)
            fun value => (f value).Runs := by
        funext trace result
        simpa only [ih] using propext (begins_sequence ..)
      simpa only [Activity.bind, Activity.Runs, settled] using propext (begins_sequence ..)
  | .settleAt due request next, f => by
      funext trace result
      have ih := fun answer => (next answer).runs_bind f
      simpa only [Activity.bind, Activity.Runs, ih] using propext (begins_sequence ..)
  | .pause _ next, f => next.runs_bind f
  | .resumeAt _ next, f => next.runs_bind f
  | .waitUntil ready next, f => by
      funext trace result
      simpa only [Activity.bind, Activity.Runs, next.runs_bind f] using
        propext (begins_sequence ..)
  | .join limit crew next, f => by
      funext trace result
      have ih := fun results => (next results).runs_bind f
      simpa only [Activity.bind, Activity.Runs, ih] using propext (continues_sequence ..)
  | .tryPair left right next, f => by
      funext trace result
      have ih := fun outcome => (next outcome).runs_bind f
      simpa only [Activity.bind, Activity.Runs, ih] using propext (continues_sequence ..)
termination_by structural p => p

namespace Activity

theorem runs_bind_some {p : Activity I α} {f : α → Activity I β} {trace : Trace I} {value : β} :
    (p >>= f).Runs trace (some value) ↔
      ∃ v early late, p.Runs early (some v) ∧ (f v).Runs late (some value) ∧ trace = early ++ late := by
  rw [show (p >>= f) = p.bind f from rfl, p.runs_bind f]
  exact continues_some

/-- A sequence has done a part of its first half, or all of it and a part of its second half. -/
theorem exists_runs_of_bind {p : Activity I α} {f : α → Activity I β} {trace : Trace I}
    {result : Option β} (h : (p >>= f).Runs trace result) :
    ∃ (early late : Trace I) (outcome : Option α), p.Runs early outcome ∧ trace = early ++ late ∧
      (late = [] ∧ result = none ∨ ∃ v, outcome = some v ∧ (f v).Runs late result) := by
  rw [show (p >>= f) = p.bind f from rfl, p.runs_bind f] at h
  rcases h with ⟨rfl, hp⟩ | ⟨v, early, late, hp, hf, rfl⟩
  · exact ⟨trace, [], none, hp, (List.append_nil trace).symm, .inl ⟨rfl, rfl⟩⟩
  · exact ⟨early, late, some v, hp, rfl, .inr ⟨v, rfl, hf⟩⟩

theorem exists_runs_of_mapped {p : Activity I α} {f : α → β} {trace : Trace I} {result : Option β}
    (h : (p >>= fun value => pure (f value)).Runs trace result) :
    ∃ outcome, p.Runs trace outcome ∧ ∀ b, result = some b → ∃ v, outcome = some v ∧ b = f v := by
  obtain ⟨early, late, outcome, hp, rfl, hlate⟩ := exists_runs_of_bind h
  obtain ⟨rfl, rfl⟩ | ⟨v, rfl, rfl, hd⟩ := hlate
  · rw [List.append_nil]
    exact ⟨outcome, hp, nofun⟩
  · rw [List.append_nil]
    refine ⟨some v, hp, fun b hb => ⟨v, rfl, ?_⟩⟩
    subst hb
    simpa using hd

theorem exists_runs_of_dropped {p : Activity I α} {b : β} {trace : Trace I} {result : Option β}
    (h : (p >>= fun _ => pure b).Runs trace result) :
    ∃ outcome, p.Runs trace outcome ∧ (result ≠ none → outcome ≠ none) := by
  obtain ⟨outcome, hp, hvalue⟩ := exists_runs_of_mapped h
  refine ⟨outcome, hp, fun hres => ?_⟩
  obtain ⟨b', hb⟩ := Option.ne_none_iff_exists'.mp hres
  obtain ⟨v, rfl, -⟩ := hvalue b' hb
  exact Option.some_ne_none v

@[simp] theorem runs_pure_some {v value : α} {trace : Trace I} :
    (pure v : Activity I α).Runs trace (some value) ↔ trace = [] ∧ value = v := by
  rw [show (pure v : Activity I α) = .done v from rfl, Activity.Runs]
  simp

/-! ## Single actions -/

theorem runs_touch {change : I.Memory → I.Memory} {next : Nat → I.Memory → Activity I α}
    {trace : Trace I} {result : Option α} (m : I.Memory) (h : (next 0 m).Runs trace result) :
    (touch change next).Runs (.touched m (change m) :: trace) result :=
  .inr ⟨(0, m), trace, rfl, h⟩

theorem runs_perform {r : I.Request} {next : I.Answer r → Activity I α} {trace : Trace I}
    {result : Option α} {answer : I.Answer r} (h : (next answer).Runs trace result) :
    (perform r next).Runs (.sent r :: .answered r answer :: trace) result :=
  .inr ⟨(), _, rfl, .inr ⟨answer, trace, rfl, h⟩⟩

@[simp] theorem runs_request_some {r : I.Request} {trace : Trace I} {answer : I.Answer r} :
    (request r).Runs trace (some answer) ↔ trace = [.sent r, .answered r answer] := by
  simp only [request, Activity.Runs, begins_some]
  constructor
  · rintro ⟨-, _, rfl, answer', _, rfl, rfl, h⟩
    obtain rfl : answer = answer' := by simpa using h
    rfl
  · rintro rfl
    exact ⟨(), _, rfl, answer, [], rfl, rfl, .inr rfl⟩

@[simp] theorem runs_modify_some {change : I.Memory → I.Memory} {trace : Trace I} {u : Unit} :
    (modify change).Runs trace (some u) ↔ ∃ m, trace = [.touched m (change m)] := by
  simp [modify, Activity.Runs]

@[simp] theorem runs_memory_some {trace : Trace I} {m : I.Memory} :
    (memory : Activity I I.Memory).Runs trace (some m) ↔ trace = [.touched m m] := by
  simp only [memory, Activity.Runs, begins_some]
  constructor
  · rintro ⟨⟨now, m'⟩, _, rfl, rfl, h⟩
    obtain rfl : m = m' := by simpa using h
    rfl
  · rintro rfl
    exact ⟨(0, m), [], rfl, rfl, .inr rfl⟩

@[simp] theorem runs_sleep_some {span : Nat} {trace : Trace I} {u : Unit} :
    (sleep span : Activity I Unit).Runs trace (some u) ↔ trace = [] := by
  simp [sleep, Activity.Runs]

@[simp] theorem runs_await_some {ready : I.Memory → Bool} {trace : Trace I} {u : Unit} :
    (await ready).Runs trace (some u) ↔ ∃ m, ready m = true ∧ trace = [.noticed m] := by
  simp [await, Activity.Runs]

end Activity

/-! ## Side by side -/

/-- What one member did in the run of a crew, and what it has come to. -/
structure Share (I : Interface) (B : Type*) (β : Type) where
  member : B
  trace : Trace I
  result : Option β

theorem Share.result_ne_none {B : Type*} {shares : List (Share I B β)} {values : Option (List β)}
    (h : ∀ vs, values = some vs → shares.map (·.result) = vs.map some) (hv : values ≠ none) :
    ∀ s ∈ shares, s.result ≠ none := by
  obtain ⟨vs, hvs⟩ := Option.ne_none_iff_exists'.mp hv
  intro s hs
  have hmem : s.result ∈ vs.map some := h vs hvs ▸ List.mem_map_of_mem hs
  obtain ⟨v, -, hv⟩ := List.mem_map.mp hmem
  rw [← hv]
  exact Option.some_ne_none v

def collect : List (Option β) → Option (List β)
  | [] => some []
  | result :: results => consResult result (collect results)

theorem collect_eq_some {results : List (Option β)} {values : List β} :
    collect results = some values ↔ results = values.map some := by
  induction results generalizing values with
  | nil => cases values <;> simp [collect]
  | cons result results ih =>
      cases result with
      | none => cases values <;> simp [collect, consResult]
      | some v =>
          cases hc : collect results with
          | none =>
              have hn : ∀ vs : List β, results ≠ vs.map some := fun vs h => by
                rw [ih.mpr h] at hc
                cases hc
              cases values <;> simp [collect, consResult, hc, hn]
          | some vs =>
              have hv := ih.mp hc
              cases values with
              | nil => simp [collect, consResult, hc]
              | cons w ws =>
                  have heq : results = ws.map some ↔ vs = ws := by
                    rw [← ih, hc, Option.some.injEq]
                  simp [collect, consResult, hc, heq]

/-- The run of a crew is a shuffle of runs of its members. -/
theorem Crew.runs_ofList_map {B : Type*} {xs : List B} {job : B → Activity I β} {trace : Trace I}
    {results : Option (List β)} :
    (Crew.ofList (xs.map job)).Runs trace results ↔
      ∃ shares : List (Share I B β), shares.map (·.member) = xs ∧
        (∀ s ∈ shares, (job s.member).Runs s.trace s.result) ∧
        Shuffles (shares.map (·.trace)) trace ∧ results = collect (shares.map (·.result)) := by
  induction xs generalizing trace results with
  | nil => simp [Crew.ofList, Crew.Runs, Shuffles, collect]
  | cons x xs ih =>
      simp only [List.map_cons, Crew.ofList, Crew.Runs]
      constructor
      · rintro ⟨a, b, ra, rb, ha, hb, hs, rfl⟩
        obtain ⟨shares, rfl, hr, hw, rfl⟩ := ih.mp hb
        refine ⟨⟨x, a, ra⟩ :: shares, rfl, ?_, ⟨b, hw, hs⟩, rfl⟩
        simpa using ⟨ha, hr⟩
      · rintro ⟨shares, hm, hr, hw, rfl⟩
        cases shares with
        | nil => simp at hm
        | cons s shares =>
            obtain ⟨rfl, rfl⟩ := List.cons.inj hm
            obtain ⟨b, hb, hs⟩ := hw
            have hr := List.forall_mem_cons.mp hr
            exact ⟨s.trace, b, s.result, _, hr.1, ih.mpr ⟨shares, rfl, hr.2, hb, rfl⟩, hs, rfl⟩

namespace Activity

theorem runs_joinBounded_some {limit : Nat} {members : List (Activity I β)} {trace : Trace I}
    {values : List β} :
    (joinBounded limit members).Runs trace (some values) ↔
      (Crew.ofList members).Runs trace (some values) := by
  simp only [joinBounded, Activity.Runs, continues_some]
  constructor
  · rintro ⟨values', early, _, h, ⟨rfl, hv⟩, rfl⟩
    obtain rfl : values = values' := by simpa using hv
    simpa using h
  · intro h
    exact ⟨values, trace, [], h, ⟨rfl, .inr rfl⟩, by simp⟩

theorem runs_joinAll_singleton {p : Activity I β} {trace : Trace I} {value : β}
    (h : p.Runs trace (some value)) : (joinAll [p]).Runs trace (some [value]) :=
  runs_joinBounded_some.mpr ⟨trace, [], _, some [], h, ⟨rfl, rfl⟩, .nil_right _, rfl⟩

/-- What members side by side have done so far, and that all have finished if the whole has. -/
theorem exists_shares_of_joinAll {B : Type*} {xs : List B} {job : B → Activity I β}
    {trace : Trace I} {values : Option (List β)}
    (h : (joinAll (xs.map job)).Runs trace values) :
    ∃ shares : List (Share I B β), shares.map (·.member) = xs ∧
      (∀ s ∈ shares, (job s.member).Runs s.trace s.result) ∧
      Shuffles (shares.map (·.trace)) trace ∧
      ∀ vs, values = some vs → shares.map (·.result) = vs.map some := by
  cases values with
  | none =>
      have hcrew : ∃ results, (Crew.ofList (xs.map job)).Runs trace results := by
        rcases h with ⟨-, hc⟩ | ⟨results, early, late, hc, hd, rfl⟩
        · exact hc
        · obtain ⟨rfl, -⟩ := hd
          exact ⟨some results, by simpa using hc⟩
      obtain ⟨results, hc⟩ := hcrew
      obtain ⟨shares, hm, hr, hw, -⟩ := Crew.runs_ofList_map.mp hc
      exact ⟨shares, hm, hr, hw, nofun⟩
  | some values =>
      obtain ⟨shares, hm, hr, hw, hc⟩ := Crew.runs_ofList_map.mp (runs_joinBounded_some.mp h)
      refine ⟨shares, hm, hr, hw, ?_⟩
      rintro _ ⟨⟩
      exact collect_eq_some.mp hc.symm

theorem runs_both_some {p : Activity I β} {q : Activity I γ} {trace : Trace I} {b : β} {c : γ} :
    (both p q).Runs trace (some (b, c)) ↔
      ∃ left right, p.Runs left (some b) ∧ q.Runs right (some c) ∧ Shuffle left right trace := by
  have halves {δ : Type} {r : Activity I δ} {t : Trace I} {d : δ} :
      (r.bind fun d => .done (.ok d : Except Empty δ)).Runs t (some (.ok d)) ↔
        r.Runs t (some d) := by
    constructor
    · intro h
      obtain ⟨d', early, _, hr, hd, rfl⟩ := runs_bind_some.mp h
      obtain ⟨rfl, hv⟩ := runs_pure_some.mp hd
      obtain rfl : d = d' := by simpa using hv
      simpa using hr
    · intro h
      exact runs_bind_some.mpr ⟨d, t, [], h, runs_pure_some.mpr ⟨rfl, rfl⟩, by simp⟩
  simp only [both, Activity.Runs, continues_some]
  constructor
  · rintro ⟨outcome, early, _, ⟨a, b', ra, rb, ha, hb, hs, ho⟩, hd, rfl⟩
    cases ho with
    | left e => exact e.elim
    | right e => exact e.elim
    | both v w =>
        obtain ⟨rfl, hd⟩ := hd
        obtain ⟨rfl, rfl⟩ : b = v ∧ c = w := by simpa using hd
        exact ⟨a, b', halves.mp ha, halves.mp hb, by simpa using hs⟩
  · rintro ⟨left, right, hp, hq, hs⟩
    exact ⟨.ok (b, c), trace, [], ⟨left, right, _, _, halves.mpr hp, halves.mpr hq, hs, .both b c⟩,
      ⟨rfl, .inr rfl⟩, by simp⟩

end Activity

/-- With all members different, what each of them did is a function of the member. -/
theorem exists_share {B : Type} (shares : List (Share I B β))
    (hd : (shares.map (·.member)).Nodup) :
    ∃ share : B → Share I B β, ∀ s ∈ shares, share s.member = s := by
  classical
  refine ⟨fun x => if h : ∃ s ∈ shares, s.member = x then h.choose else ⟨x, [], none⟩, ?_⟩
  intro s hs
  have h : ∃ s' ∈ shares, s'.member = s.member := ⟨s, hs, rfl⟩
  simp only [dif_pos h]
  exact List.inj_on_of_nodup_map hd h.choose_spec.1 hs h.choose_spec.2

theorem Crew.exists_runs_of_nodup {B : Type} {xs : List B} (hd : xs.Nodup)
    {job : B → Activity I β} {trace : Trace I} {results : Option (List β)}
    (h : (Crew.ofList (xs.map job)).Runs trace results) :
    ∃ (own : B → Trace I) (result : B → Option β),
      (∀ x ∈ xs, (job x).Runs (own x) (result x)) ∧ Shuffles (xs.map own) trace ∧
        results = collect (xs.map result) := by
  obtain ⟨shares, rfl, hr, hw, rfl⟩ := Crew.runs_ofList_map.mp h
  obtain ⟨share, hs⟩ := exists_share shares hd
  refine ⟨fun x => (share x).trace, fun x => (share x).result, ?_, ?_, ?_⟩
  · intro x hx
    obtain ⟨s, hm, rfl⟩ := List.mem_map.mp hx
    simpa only [hs s hm] using hr s hm
  · rw [List.map_map]
    have heq : shares.map ((fun x => (share x).trace) ∘ (·.member)) = shares.map (·.trace) :=
      List.map_congr_left fun s hm => by simp [hs s hm]
    rwa [heq]
  · rw [List.map_map]
    exact congrArg collect (List.map_congr_left fun s hm => by simp [hs s hm])

/-- The run of a crew to its end, with a member for each of some different things. -/
theorem Activity.exists_runs_of_joinAll {B : Type} [Nonempty β] {xs : List B} (hd : xs.Nodup)
    {job : B → Activity I β} {trace : Trace I} {values : List β}
    (h : (Activity.joinAll (xs.map job)).Runs trace (some values)) :
    ∃ (own : B → Trace I) (value : B → β),
      (∀ x ∈ xs, (job x).Runs (own x) (some (value x))) ∧ Shuffles (xs.map own) trace ∧
        values = xs.map value := by
  obtain ⟨own, result, hr, hw, hc⟩ :=
    Crew.exists_runs_of_nodup hd (runs_joinBounded_some.mp h)
  have hv : xs.map result = values.map some := collect_eq_some.mp hc.symm
  have hall : ∀ x ∈ xs, ∃ v, result x = some v := by
    intro x hx
    have hm : result x ∈ values.map some := hv ▸ List.mem_map_of_mem hx
    obtain ⟨v, -, hv⟩ := List.mem_map.mp hm
    exact ⟨v, hv.symm⟩
  choose! value hvalue using hall
  refine ⟨own, value, fun x hx => hvalue x hx ▸ hr x hx, hw, ?_⟩
  have hmap : values.map some = (xs.map value).map some := by
    rw [← hv, List.map_map]
    exact List.map_congr_left hvalue
  exact List.map_injective_iff.mpr (fun _ _ => Option.some.inj) hmap

/-! ## Activities that may fail -/

section Failing

variable {x : ExceptT ε (Activity I) α} {f : α → ExceptT ε (Activity I) β} {trace : Trace I}

theorem runs_exceptT_bind_some {outcome : Except ε β} :
    (x >>= f).run.Runs trace (some outcome) ↔
      (∃ e, x.run.Runs trace (some (.error e)) ∧ outcome = .error e) ∨
        ∃ v early late, x.run.Runs early (some (.ok v)) ∧ (f v).run.Runs late (some outcome) ∧
          trace = early ++ late := by
  rw [ExceptT.run_bind, Activity.runs_bind_some]
  constructor
  · rintro ⟨v, early, late, hx, hf, rfl⟩
    cases v with
    | error e =>
        obtain ⟨rfl, rfl⟩ := Activity.runs_pure_some.mp hf
        exact .inl ⟨e, by simpa using hx, rfl⟩
    | ok v => exact .inr ⟨v, early, late, hx, hf, rfl⟩
  · rintro (⟨e, hx, rfl⟩ | ⟨v, early, late, hx, hf, rfl⟩)
    · exact ⟨.error e, trace, [], hx, Activity.runs_pure_some.mpr ⟨rfl, rfl⟩, by simp⟩
    · exact ⟨.ok v, early, late, hx, hf, rfl⟩

@[simp] theorem runs_exceptT_pure_some {v : α} {outcome : Except ε α} :
    (pure v : ExceptT ε (Activity I) α).run.Runs trace (some outcome) ↔
      trace = [] ∧ outcome = .ok v :=
  Activity.runs_pure_some

@[simp] theorem runs_throw_some {e : ε} {outcome : Except ε α} :
    (throw e : ExceptT ε (Activity I) α).run.Runs trace (some outcome) ↔
      trace = [] ∧ outcome = .error e :=
  Activity.runs_pure_some

theorem runs_lift_some {p : Activity I α} {outcome : Except ε α} :
    (liftM p : ExceptT ε (Activity I) α).run.Runs trace (some outcome) ↔
      ∃ v, p.Runs trace (some v) ∧ outcome = .ok v := by
  rw [show (liftM p : ExceptT ε (Activity I) α).run = p >>= fun v => pure (.ok v) from rfl,
    Activity.runs_bind_some]
  constructor
  · rintro ⟨v, early, late, hp, hv, rfl⟩
    obtain ⟨rfl, rfl⟩ := Activity.runs_pure_some.mp hv
    exact ⟨v, by simpa using hp, rfl⟩
  · rintro ⟨v, hp, rfl⟩
    exact ⟨v, trace, [], hp, Activity.runs_pure_some.mpr ⟨rfl, rfl⟩, by simp⟩

theorem runs_adapt_some {ε' : Type} {g : ε → ε'} {outcome : Except ε' α} :
    (x.adapt g).run.Runs trace (some outcome) ↔
      ∃ result, x.run.Runs trace (some result) ∧ outcome = result.mapError g := by
  rw [show (x.adapt g).run = x.run >>= fun result => pure (result.mapError g) from
    map_eq_pure_bind .., Activity.runs_bind_some]
  constructor
  · rintro ⟨result, early, late, hx, hp, rfl⟩
    obtain ⟨rfl, rfl⟩ := Activity.runs_pure_some.mp hp
    exact ⟨result, by simpa using hx, rfl⟩
  · rintro ⟨result, hx, rfl⟩
    exact ⟨result, trace, [], hx, Activity.runs_pure_some.mpr ⟨rfl, rfl⟩, by simp⟩

theorem runs_adapt_ok {ε' : Type} {g : ε → ε'} {value : α} :
    (x.adapt g).run.Runs trace (some (.ok value)) ↔ x.run.Runs trace (some (.ok value)) := by
  rw [runs_adapt_some]
  constructor
  · rintro ⟨result | result, hx, heq⟩
    · cases heq
    · cases heq
      exact hx
  · exact fun hx => ⟨_, hx, rfl⟩

theorem runs_adapt_error {ε' : Type} {g : ε → ε'} {fault : ε'} :
    (x.adapt g).run.Runs trace (some (.error fault)) ↔
      ∃ e, x.run.Runs trace (some (.error e)) ∧ fault = g e := by
  rw [runs_adapt_some]
  constructor
  · rintro ⟨e | result, hx, heq⟩
    · exact ⟨e, hx, Except.error.inj heq⟩
    · cases heq
  · rintro ⟨e, hx, rfl⟩
    exact ⟨_, hx, rfl⟩

theorem runs_tryCatch_some {handle : ε → ExceptT ε (Activity I) α} {outcome : Except ε α} :
    (tryCatch x handle).run.Runs trace (some outcome) ↔
      (∃ v, x.run.Runs trace (some (.ok v)) ∧ outcome = .ok v) ∨
        ∃ e early late, x.run.Runs early (some (.error e)) ∧
          (handle e).run.Runs late (some outcome) ∧ trace = early ++ late := by
  have hrun : (tryCatch x handle).run = (x.run >>= fun outcome =>
      match outcome with
      | .ok v => pure (.ok v)
      | .error e => (handle e).run) := by
    show x.run.bind _ = x.run.bind _
    congr
    funext outcome
    cases outcome <;> rfl
  rw [hrun, Activity.runs_bind_some]
  constructor
  · rintro ⟨v, early, late, hx, hh, rfl⟩
    cases v with
    | error e => exact .inr ⟨e, early, late, hx, hh, rfl⟩
    | ok v =>
        obtain ⟨rfl, rfl⟩ := Activity.runs_pure_some.mp hh
        exact .inl ⟨v, by simpa using hx, rfl⟩
  · rintro (⟨v, hx, rfl⟩ | ⟨e, early, late, hx, hh, rfl⟩)
    · exact ⟨.ok v, trace, [], hx, Activity.runs_pure_some.mpr ⟨rfl, rfl⟩, by simp⟩
    · exact ⟨.error e, early, late, hx, hh, rfl⟩

end Failing

end ChainWatch.Concurrency
