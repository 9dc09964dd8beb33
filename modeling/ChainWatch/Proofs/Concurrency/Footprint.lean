import ChainWatch.Proofs.Concurrency.View

/-!
# Footprints

What an activity does at most: its events are all of an allowed kind. The footprint of an activity is
put together from those of its parts, and the events of every run, finished or not, stay within it
(`Activity.Confined.runs`).
-/

namespace ChainWatch.Concurrency

variable {I : Interface} {α β γ ε : Type}

mutual

/-- Whatever the activity may ever do is allowed; and no crew in it is left without any place. -/
def Activity.Confined {α : Type} (allowed : Event I → Prop) : Activity I α → Prop
  | .done _ => True
  | .touch change next =>
    ∀ now m, allowed (.touched m (change m)) ∧ (next now m).Confined allowed
  | .perform request next =>
    allowed (.sent request) ∧
      ∀ answer, allowed (.answered request answer) ∧ (next answer).Confined allowed
  | .settleAt _ request next =>
    ∀ answer, allowed (.answered request answer) ∧ (next answer).Confined allowed
  | .pause _ next => next.Confined allowed
  | .resumeAt _ next => next.Confined allowed
  | .waitUntil _ next => (∀ m, allowed (.noticed m)) ∧ next.Confined allowed
  | .join limit crew next =>
    (crew.results? = none → 0 < limit) ∧ crew.Confined allowed ∧
      ∀ results, (next results).Confined allowed
  | .tryPair left right next =>
    left.Confined allowed ∧ right.Confined allowed ∧ ∀ outcome, (next outcome).Confined allowed
termination_by structural p => p

def Crew.Confined {β : Type} (allowed : Event I → Prop) : Crew I β → Prop
  | .nil => True
  | .finished _ rest => rest.Confined allowed
  | .running member rest => member.Confined allowed ∧ rest.Confined allowed
  | .queued member rest => member.Confined allowed ∧ rest.Confined allowed
termination_by structural crew => crew

end

variable {allowed wider : Event I → Prop}

/-! ## Soundness -/

theorem Begins.confined {ι : Type} {event : ι → Event I} {rest : ι → Trace I → Option α → Prop}
    {trace : Trace I} {result : Option α} (h : Begins event rest trace result)
    (he : ∀ i, allowed (event i))
    (hr : ∀ i later, rest i later result → ∀ x ∈ later, allowed x) : ∀ x ∈ trace, allowed x := by
  rcases h with ⟨rfl, -⟩ | ⟨i, later, rfl, h⟩
  · simp
  · intro x hx
    rcases List.mem_cons.mp hx with rfl | hx
    · exact he i
    · exact hr i later h x hx

theorem Shuffle.confined {a b c : Trace I} (h : Shuffle a b c) (ha : ∀ x ∈ a, allowed x)
    (hb : ∀ x ∈ b, allowed x) : ∀ x ∈ c, allowed x := by
  intro x hx
  rcases h.mem_iff.mp hx with hx | hx
  · exact ha x hx
  · exact hb x hx

theorem append_confined {early late : Trace I} (he : ∀ x ∈ early, allowed x)
    (hl : ∀ x ∈ late, allowed x) : ∀ x ∈ early ++ late, allowed x := by
  intro x hx
  rcases List.mem_append.mp hx with hx | hx
  · exact he x hx
  · exact hl x hx

mutual

theorem Activity.Confined.runs {α : Type} : {p : Activity I α} → p.Confined allowed →
    {trace : Trace I} → {result : Option α} → p.Runs trace result → ∀ x ∈ trace, allowed x
  | .done _, _, _, _, hr => by simp [hr.1]
  | .touch _ _, hp, _, _, hr =>
      hr.confined (fun found => (hp found.1 found.2).1)
        fun found _ h => (hp found.1 found.2).2.runs h
  | .perform _ _, hp, _, _, hr =>
      hr.confined (fun _ => hp.1) fun _ _ h =>
        h.confined (fun answer => (hp.2 answer).1) fun answer _ h => (hp.2 answer).2.runs h
  | .settleAt _ _ _, hp, _, _, hr =>
      hr.confined (fun answer => (hp answer).1) fun answer _ h => (hp answer).2.runs h
  | .pause _ next, hp, _, _, hr => Activity.Confined.runs (p := next) hp hr
  | .resumeAt _ next, hp, _, _, hr => Activity.Confined.runs (p := next) hp hr
  | .waitUntil _ _, hp, _, _, hr =>
      hr.confined (fun found => hp.1 found.1) fun _ _ h => hp.2.runs h
  | .join _ crew _, hp, _, _, hr => by
      rcases hr with ⟨-, results, h⟩ | ⟨results, early, late, he, hl, rfl⟩
      · exact hp.2.1.runs h
      · exact append_confined (hp.2.1.runs he) ((hp.2.2 results).runs hl)
  | .tryPair left right _, hp, _, _, hr => by
      rcases hr with ⟨-, a, b, ra, rb, ha, hb, hs⟩ |
        ⟨outcome, early, late, ⟨a, b, ra, rb, ha, hb, hs, -⟩, hl, rfl⟩
      · exact hs.confined (hp.1.runs ha) (hp.2.1.runs hb)
      · exact append_confined (hs.confined (hp.1.runs ha) (hp.2.1.runs hb))
          ((hp.2.2 outcome).runs hl)
termination_by structural p => p

theorem Crew.Confined.runs {β : Type} : {crew : Crew I β} → crew.Confined allowed →
    {trace : Trace I} → {results : Option (List β)} → crew.Runs trace results →
      ∀ x ∈ trace, allowed x
  | .nil, _, _, _, hr => by simp [hr.1]
  | .finished _ rest, hc, _, _, hr => by
      obtain ⟨others, hr, -⟩ := hr
      have hrest : rest.Confined allowed := hc
      exact hrest.runs hr
  | .running _ _, hc, _, _, hr => by
      obtain ⟨a, b, ra, rb, ha, hb, hs, -⟩ := hr
      exact hs.confined (hc.1.runs ha) (hc.2.runs hb)
  | .queued _ _, hc, _, _, hr => by
      obtain ⟨a, b, ra, rb, ha, hb, hs, -⟩ := hr
      exact hs.confined (hc.1.runs ha) (hc.2.runs hb)
termination_by structural crew => crew

end

/-! ## Putting footprints together -/

mutual

theorem Activity.Confined.mono {α : Type} (hw : ∀ event, allowed event → wider event) :
    {p : Activity I α} → p.Confined allowed → p.Confined wider
  | .done _, _ => trivial
  | .touch _ _, hp => fun now m => ⟨hw _ (hp now m).1, (hp now m).2.mono hw⟩
  | .perform _ _, hp =>
      ⟨hw _ hp.1, fun answer => ⟨hw _ (hp.2 answer).1, (hp.2 answer).2.mono hw⟩⟩
  | .settleAt _ _ _, hp => fun answer => ⟨hw _ (hp answer).1, (hp answer).2.mono hw⟩
  | .pause _ next, hp => Activity.Confined.mono hw (p := next) hp
  | .resumeAt _ next, hp => Activity.Confined.mono hw (p := next) hp
  | .waitUntil _ _, hp => ⟨fun m => hw _ (hp.1 m), hp.2.mono hw⟩
  | .join _ _ _, hp => ⟨hp.1, hp.2.1.mono hw, fun results => (hp.2.2 results).mono hw⟩
  | .tryPair _ _ _, hp => ⟨hp.1.mono hw, hp.2.1.mono hw, fun outcome => (hp.2.2 outcome).mono hw⟩
termination_by structural p => p

theorem Crew.Confined.mono {β : Type} (hw : ∀ event, allowed event → wider event) :
    {crew : Crew I β} → crew.Confined allowed → crew.Confined wider
  | .nil, _ => trivial
  | .finished _ rest, hc => show rest.Confined wider from Crew.Confined.mono hw hc
  | .running _ _, hc => ⟨hc.1.mono hw, hc.2.mono hw⟩
  | .queued _ _, hc => ⟨hc.1.mono hw, hc.2.mono hw⟩
termination_by structural crew => crew

end

namespace Activity

theorem confined_pure (value : α) : (pure value : Activity I α).Confined allowed := trivial

theorem Confined.bind : {p : Activity I α} → {f : α → Activity I β} → p.Confined allowed →
    (∀ value, (f value).Confined allowed) → (p >>= f).Confined allowed
  | .done value, _, _, hf => hf value
  | .touch _ _, _, hp, hf => fun now m => ⟨(hp now m).1, (hp now m).2.bind hf⟩
  | .perform _ _, _, hp, hf =>
      ⟨hp.1, fun answer => ⟨(hp.2 answer).1, (hp.2 answer).2.bind hf⟩⟩
  | .settleAt _ _ _, _, hp, hf => fun answer => ⟨(hp answer).1, (hp answer).2.bind hf⟩
  | .pause _ next, _, hp, hf => Confined.bind (p := next) hp hf
  | .resumeAt _ next, _, hp, hf => Confined.bind (p := next) hp hf
  | .waitUntil _ _, _, hp, hf => ⟨hp.1, hp.2.bind hf⟩
  | .join _ _ _, _, hp, hf => ⟨hp.1, hp.2.1, fun results => (hp.2.2 results).bind hf⟩
  | .tryPair _ _ _, _, hp, hf => ⟨hp.1, hp.2.1, fun outcome => (hp.2.2 outcome).bind hf⟩

theorem confined_modify {change : I.Memory → I.Memory}
    (ht : ∀ m, allowed (.touched m (change m))) : (modify change).Confined allowed :=
  fun _ m => ⟨ht m, trivial⟩

theorem confined_memory (ht : ∀ m, allowed (.touched m m)) :
    (memory : Activity I I.Memory).Confined allowed :=
  fun _ m => ⟨ht m, trivial⟩

theorem confined_request {r : I.Request} (hs : allowed (.sent r))
    (ha : ∀ answer, allowed (.answered r answer)) : (request r).Confined allowed :=
  ⟨hs, fun answer => ⟨ha answer, trivial⟩⟩

theorem confined_sleep (span : Nat) : (sleep span : Activity I Unit).Confined allowed := trivial

theorem confined_await {ready : I.Memory → Bool} (hn : ∀ m, allowed (.noticed m)) :
    (await ready).Confined allowed :=
  ⟨hn, trivial⟩

theorem confined_joinBounded {limit : Nat} {members : List (Activity I β)} (hl : 0 < limit)
    (hm : ∀ member ∈ members, member.Confined allowed) :
    (joinBounded limit members).Confined allowed := by
  refine ⟨fun _ => hl, ?_, fun _ => trivial⟩
  induction members with
  | nil => trivial
  | cons member members ih =>
      exact ⟨hm member (by simp), ih fun m h => hm m (by simp [h])⟩

theorem confined_joinAll {members : List (Activity I β)}
    (hm : ∀ member ∈ members, member.Confined allowed) : (joinAll members).Confined allowed := by
  cases members with
  | nil => exact ⟨nofun, trivial, fun _ => trivial⟩
  | cons member members => exact confined_joinBounded (by simp) hm

theorem confined_tryBoth {p : Activity I (Except ε β)} {q : Activity I (Except ε γ)}
    (hp : p.Confined allowed) (hq : q.Confined allowed) : (tryBoth p q).Confined allowed :=
  ⟨hp, hq, fun _ => trivial⟩

theorem confined_both {p : Activity I β} {q : Activity I γ} (hp : p.Confined allowed)
    (hq : q.Confined allowed) : (both p q).Confined allowed := by
  refine ⟨hp.bind fun _ => confined_pure _, hq.bind fun _ => confined_pure _, fun outcome => ?_⟩
  cases outcome with
  | error e => exact e.elim
  | ok values => trivial

end Activity

/-! ## Activities that may fail -/

open Activity

variable {x : ExceptT ε (Activity I) α} {f : α → ExceptT ε (Activity I) β}

theorem confined_exceptT_pure (value : α) :
    (pure value : ExceptT ε (Activity I) α).run.Confined allowed :=
  confined_pure _

theorem confined_throw (e : ε) : (throw e : ExceptT ε (Activity I) α).run.Confined allowed :=
  confined_pure _

theorem confined_exceptT_bind (hx : x.run.Confined allowed)
    (hf : ∀ value, (f value).run.Confined allowed) : (x >>= f).run.Confined allowed := by
  rw [ExceptT.run_bind]
  refine hx.bind fun outcome => ?_
  cases outcome with
  | error e => exact confined_pure _
  | ok value => exact hf value

theorem confined_lift {p : Activity I α} (hp : p.Confined allowed) :
    (liftM p : ExceptT ε (Activity I) α).run.Confined allowed :=
  hp.bind fun _ => confined_pure _

end ChainWatch.Concurrency
