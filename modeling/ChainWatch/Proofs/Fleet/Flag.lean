import ChainWatch.Proofs.Concurrency.Schedule
import ChainWatch.Proofs.Fleet.Verdict
import ChainWatch.Rehearsal.Stage

/-!
# The health flag

At any moment the health flag of an endpoint is the latest verdict on it, whatever operations are under
way with it and however they interleave.
-/

namespace ChainWatch

open Concurrency

namespace Endpoint

variable {e : Endpoint} {operation : Operation} {trace : Trace system}

/-! ## All operations together -/

/-- What an operation does, noted down, and how it ends if it does. The two halves of a proxy read have
pasts of their own. -/
def Does (e : Endpoint) (noted : List Noted) (outcome : Option (Except NodeFault Unit)) :
    Operation → Prop
  | .proxy address => ∃ left right first second,
    (e.implementationWord address .eip1967).run.Runs left first ∧
      (e.implementationWord address .legacy).run.Runs right second ∧
      Shuffle ((Operation.proxy address).noted [] left) ((Operation.proxy address).noted [] right)
        noted ∧
      ∀ ended, outcome = some ended →
        ∃ words, PairOutcome first second words ∧ ended = words.map fun _ => ()
  | operation => ∃ own, (e.perform operation).run.Runs own outcome ∧ noted = operation.noted [] own

/-- An operation among others, what it has done, and how it has ended if it has. -/
structure Part where
  operation : Operation
  noted : List Noted
  outcome : Option (Except NodeFault Unit)

/-- Operations side by side, each of which has its part in what is noted down. -/
structure DoAll (e : Endpoint) (parts : List Part) (noted : List Noted) : Prop where
  does : ∀ part ∈ parts, e.Does part.noted part.outcome part.operation
  shuffles : Shuffles (parts.map (·.noted)) noted

/-- What is noted down is sound, and at any moment the flag is the latest verdict so far. Without a
verdict it is as it was. -/
structure Flagged (e : Endpoint) (noted : List Noted) (x y : Bool) : Prop where
  sound : ∀ n ∈ noted, e.Sound n
  flag : ∀ early late, noted = early ++ late →
    Trace.Follows e.flag (early.map (·.1)) x ((latest? early).getD x) ∧
      Trace.Follows e.flag (late.map (·.1)) ((latest? early).getD x) y

variable {operations : List Operation} {noted : List Noted} {address : Address}
  {slot : ImplementationSlot} {outcome : Option (Except NodeFault Unit)}

/-- A proxy read is done by its halves, all else from its beginning. -/
theorem Does.cases (hd : e.Does noted outcome operation) :
    (∃ address left right first second, operation = .proxy address ∧
      (e.implementationWord address .eip1967).run.Runs left first ∧
      (e.implementationWord address .legacy).run.Runs right second ∧
      Shuffle (operation.noted [] left) (operation.noted [] right) noted ∧
      ∀ ended, outcome = some ended →
        ∃ words, PairOutcome first second words ∧ ended = words.map fun _ => ()) ∨
    ∃ own, (∀ address, operation ≠ .proxy address) ∧ (e.perform operation).run.Runs own outcome ∧
      noted = operation.noted [] own := by
  cases operation with
  | proxy address =>
      obtain ⟨left, right, first, second, hd⟩ := hd
      exact .inl ⟨address, left, right, first, second, rfl, hd⟩
  | _ =>
      obtain ⟨own, hr, hnoted⟩ := hd
      exact .inr ⟨own, by simp, hr, hnoted⟩

theorem exists_halves_of_proxy (hr : (e.perform (.proxy address)).run.Runs trace outcome) :
    ∃ left right first second, (e.implementationWord address .eip1967).run.Runs left first ∧
      (e.implementationWord address .legacy).run.Runs right second ∧ Shuffle left right trace ∧
      ∀ ended, outcome = some ended →
        ∃ words, PairOutcome first second words ∧ ended = words.map fun _ => () := by
  rw [run_perform_proxy] at hr
  obtain ⟨pair, hpair, hvalue⟩ := Activity.exists_runs_of_mapped hr
  rcases hpair with ⟨rfl, left, right, first, second, hleft, hright, hs⟩ |
    ⟨words, early, late, ⟨left, right, first, second, hleft, hright, hs, hwords⟩, ⟨rfl, hp⟩, rfl⟩
  · refine ⟨left, right, first, second, hleft, hright, hs, fun ended hended => ?_⟩
    obtain ⟨words, hnone, -⟩ := hvalue ended hended
    cases hnone
  · rw [List.append_nil]
    refine ⟨left, right, first, second, hleft, hright, hs, fun ended hended => ?_⟩
    obtain ⟨words', hsome, rfl⟩ := hvalue ended hended
    obtain rfl : words' = words := by simpa [hsome] using hp
    exact ⟨words', hwords, rfl⟩

theorem exists_does (hr : (e.perform operation).run.Runs trace outcome) :
    ∃ noted, e.Does noted outcome operation ∧ noted.map (·.1) = trace := by
  cases operation with
  | proxy address =>
      obtain ⟨left, right, first, second, hl, hr, hs, hended⟩ := exists_halves_of_proxy hr
      have noted (half : Trace system) : ((Operation.proxy address).noted [] half).map (·.1) = half :=
        map_noted
      rw [← noted left, ← noted right] at hs
      obtain ⟨noted, hs, hmap⟩ := hs.exists_of_map
      exact ⟨noted, ⟨left, right, first, second, hl, hr, hs, hended⟩, hmap⟩
  | _ => exact ⟨_, ⟨trace, hr, rfl⟩, map_noted⟩

/-- What is done side by side falls into parts, and the results are those of the parts. -/
theorem exists_doAll {outcomes : Option (List (Except NodeFault Unit))}
    (hr : (e.performAll operations).Runs trace outcomes) :
    ∃ parts noted, parts.map Part.operation = operations ∧
      (∀ ended, outcomes = some ended → parts.map Part.outcome = ended.map some) ∧
      e.DoAll parts noted ∧ noted.map (·.1) = trace := by
  obtain ⟨shares, rfl, hruns, hw, hended⟩ := Activity.exists_shares_of_joinAll hr
  have does : ∀ s ∈ shares, ∃ noted, e.Does noted s.result s.member ∧ noted.map (·.1) = s.trace :=
    fun s hs => exists_does (hruns s hs)
  choose! own hown using does
  have hmap : shares.map (·.trace) = (shares.map own).map (List.map (·.1)) := by
    rw [List.map_map]
    exact List.map_congr_left fun s hs => (hown s hs).2.symm
  rw [hmap] at hw
  obtain ⟨noted, hs, hn⟩ := hw.exists_of_map
  refine ⟨shares.map fun s => ⟨s.member, own s, s.result⟩, noted, ?_, ?_, ⟨?_, ?_⟩, hn⟩
  · rw [List.map_map]
    rfl
  · rw [List.map_map]
    exact hended
  · intro part hp
    obtain ⟨s, hm, rfl⟩ := List.mem_map.mp hp
    exact (hown s hm).1
  · rw [List.map_map]
    exact hs

/-! ## The flag at any moment -/

theorem sound_of_does (hd : e.Does noted outcome operation) : ∀ n ∈ noted, e.Sound n := by
  obtain ⟨address, left, right, first, second, rfl, hl, hr, hs, -⟩ | ⟨own, hn, hr, rfl⟩ := hd.cases
  · intro n hn
    rcases hs.mem_iff.mp hn with hn | hn
    · exact sound_of_fits (heeds_half.runs hl).1 n hn
    · exact sound_of_fits (heeds_half.runs hr).1 n hn
  · exact sound_of_fits ((heeds_perform hn).runs hr).1

theorem sound_of_doAll {parts : List Part} (h : e.DoAll parts noted) : ∀ n ∈ noted, e.Sound n := by
  intro n hn
  obtain ⟨own, hown, hn⟩ := h.shuffles.mem_iff.mp hn
  obtain ⟨part, hpart, rfl⟩ := List.mem_map.mp hown
  exact sound_of_does (h.does part hpart) n hn

theorem flagged_of_sound {x y : Bool} (hs : ∀ n ∈ noted, e.Sound n)
    (hf : Trace.Follows e.flag (noted.map (·.1)) x y) : e.Flagged noted x y := by
  refine ⟨hs, ?_⟩
  rintro early late rfl
  rw [List.map_append] at hf
  obtain ⟨z, hearly, hlate⟩ := Trace.follows_append.mp hf
  obtain rfl : z = (latest? early).getD x :=
    flag_of_sound (fun n hn => hs n (List.mem_append_left late hn)) hearly
  exact ⟨hearly, hlate⟩

/-! ## Operations that have ended -/

/-- A half that has been answered has told once whether it went well, and there is nothing left. -/
theorem verdicts_of_half {half : Trace system} {answer : Except NodeFault Word}
    (hr : (e.implementationWord address slot).run.Runs half (some answer)) :
    ((Operation.proxy address).noted [] half).filterMap (·.2) = [answer.isOk] ∧
      (Operation.proxy address).verdict? half.reverse = none := by
  obtain ⟨m, rfl⟩ := runs_ask_some.mp hr
  exact ⟨rfl, rfl⟩

theorem not_told_of_half {half : Trace system} {answer : Option (Except NodeFault Word)}
    (hr : (e.implementationWord address slot).run.Runs half answer)
    (hn : ∀ r a, .answered r a ∉ half) :
    ((Operation.proxy address).noted [] half).filterMap (·.2) = [] := by
  rcases hr with ⟨rfl, _⟩ | ⟨_, later, rfl, ⟨rfl, _⟩ | ⟨a, later, rfl, _⟩⟩
  · rfl
  · rfl
  · exact (hn _ a (by simp)).elim

/-- Whichever half was the later one, a proxy read that went well has last said so, and one that has
failed has said that as well. -/
theorem leaves_of_halves {left right : Trace system} {first second : Option (Except NodeFault Word)}
    {words : Except NodeFault (Word × Word)}
    (hl : (e.implementationWord address .eip1967).run.Runs left first)
    (hr : (e.implementationWord address .legacy).run.Runs right second)
    (hs : Shuffle ((Operation.proxy address).noted [] left)
      ((Operation.proxy address).noted [] right) noted)
    (hwords : PairOutcome first second words) :
    e.Leaves noted (words.map fun _ => ()) (.proxy address) := by
  have hverdicts := hs.filterMap (·.2)
  have told (h : false ∈ noted.filterMap (·.2)) : some false ∈ noted.map (·.2) := by
    simpa using h
  cases hwords with
  | both v w =>
      rw [(verdicts_of_half hl).1, (verdicts_of_half hr).1] at hverdicts
      show (noted.filterMap (·.2)).getLast? = some true
      rw [hverdicts.eq_of_singletons]
      rfl
  | left fault =>
      rw [(verdicts_of_half hl).1] at hverdicts
      exact told (hverdicts.mem_iff.mpr (.inl (List.mem_singleton.mpr rfl)))
  | right fault =>
      rw [(verdicts_of_half hr).1] at hverdicts
      exact told (hverdicts.mem_iff.mpr (.inr (List.mem_singleton.mpr rfl)))

theorem leaves_of_does {ended : Except NodeFault Unit} (hd : e.Does noted (some ended) operation) :
    e.Leaves noted ended operation := by
  obtain ⟨address, left, right, first, second, rfl, hl, hr, hs, hended⟩ | ⟨own, hn, hr, rfl⟩ :=
    hd.cases
  · obtain ⟨words, hwords, rfl⟩ := hended ended rfl
    exact leaves_of_halves hl hr hs hwords
  · have concludes := ((heeds_perform hn).runs hr).2 ended rfl
    simpa using concludes.leaves

/-! ## Operations without a verdict -/

/-- The operation says nothing of the endpoint: it asks for what the contract does not have, there is
no container, the container is not stopped, or the endpoint is well already. -/
def Spares (e : Endpoint) (own : Trace system) : Operation → Prop
  | .view _ contract method inputs => ∃ fault, contract.Prepares method inputs (.error fault)
  | .start => e.role = .unmanaged
  | .reset _ => e.role = .unmanaged
  | .stop => e.role = .unmanaged ∨ ∃ name fault,
    .answered (.container e.position (.stop name)) (.error fault) ∈ own
  | .recover => ∃ m, own.head? = some (.touched m m) ∧ m.isHealthy e.position
  | _ => False

theorem noted_of_failed_stop {name : String} {fault : ContainerFault} {c : Container}
    (hm : e.role = .managed c)
    (hr : e.stop.run.Runs trace outcome)
    (hf : .answered (.container e.position (.stop name)) (.error fault) ∈ trace) :
    ∀ n ∈ Operation.stop.noted [] trace, n.2 = none := by
  unfold stop at hr
  rw [hm] at hr
  rcases hr with ⟨ht, _⟩ | ⟨_, later, ht, ⟨rfl, _⟩ | ⟨answer, rest, rfl, hrest⟩⟩
  · simp [ht] at hf
  · simp [ht] at hf
  · subst ht
    cases answer with
    | error fault =>
        obtain rfl : rest = [] := hrest.1
        simp [Operation.noted, Operation.verdict?]
    | ok u =>
        have marks : (liftM (e.mark false) : NodeJob Unit).run.Confined
            (e.Acts fun _ => False) := confined_lift (confined_mark e false)
        have hrest : .answered (.container e.position (.stop name)) (.error fault) ∈ rest := by
          simpa using hf
        cases marks.runs ‹_› _ hrest with
        | answered h => exact h.elim

theorem spared (hr : (e.perform operation).run.Runs trace outcome)
    (hs : e.Spares trace operation) :
    ∀ n ∈ operation.noted [] trace, n.2 = none := by
  have silent (h : trace = []) : ∀ n ∈ operation.noted [] trace, n.2 = none := by
    simp [h, Operation.noted]
  cases operation with
  | blockNumber => exact hs.elim
  | proxy => exact hs.elim
  | view address contract method inputs =>
      obtain ⟨fault, hrefused⟩ := hs
      replace hr : (e.callView address contract method inputs >>= fun _ => pure () :
          NodeJob Unit).run.Runs trace outcome := hr
      rw [callView_of_refused hrefused] at hr
      exact silent hr.1
  | start =>
      replace hr : e.start.run.Runs trace outcome := hr
      unfold start at hr
      rw [show e.role = .unmanaged from hs] at hr
      exact silent hr.1
  | stop =>
      replace hr : e.stop.run.Runs trace outcome := hr
      obtain hu | ⟨name, fault, hf⟩ := hs
      · unfold stop at hr
        rw [hu] at hr
        exact silent hr.1
      · cases hrole : e.role with
        | unmanaged =>
            unfold stop at hr
            rw [hrole] at hr
            exact silent hr.1
        | managed c => exact noted_of_failed_stop hrole hr hf
  | reset source =>
      replace hr : (e.reset source).run.Runs trace outcome := hr
      unfold reset at hr
      rw [show e.role = .unmanaged from hs] at hr
      exact silent hr.1
  | recover =>
      replace hr : e.recover.run.Runs trace outcome := hr
      obtain ⟨m, hhead, hup⟩ := hs
      rw [recover_eq] at hr
      rcases hr with ⟨ht, _⟩ | ⟨⟨now, found⟩, later, ht, hlater⟩
      · exact silent ht
      · obtain rfl : found = m := by simpa [ht] using hhead
        have hnothing : (if found.isHealthy e.position then pure () else e.revive :
          NodeJob Unit).run.Runs later outcome := hlater
        rw [if_pos hup] at hnothing
        obtain rfl : later = [] := hnothing.1
        simp [ht, Operation.noted, Operation.verdict?]

/-! ## A proxy read alone -/

/-- What is left of a question to the node until it is answered. -/
inductive Asks (e : Endpoint) (r : ChainRequest) : Job (Except NodeFault r.Value) → Prop where
  | unsent : Asks e r (e.ask r).run
  | sent (due : Nat) : Asks e r (.settleAt due (.chain e.position r) fun answer =>
      .touch (State.mark e.position answer.isOk) fun _ _ => .done answer)
  | held (due : Nat) (answer : Except NodeFault r.Value) : Asks e r (.resumeAt due
      (.touch (State.mark e.position answer.isOk) fun _ _ => .done answer))

/-- A half of a pair of questions that has not failed: it is on its way, or the flag is up for it. -/
def Half (e : Endpoint) (r : ChainRequest) (p : Job (Except NodeFault r.Value)) (m : State) : Prop :=
  e.Asks r p ∨ (∃ value, p = .done (.ok value)) ∧ e.flag m = true

section Poll

variable {σ : Type} {h : Handler system σ} {now : Nat} {w : World system σ} {r : ChainRequest}
  {p : Job (Except NodeFault r.Value)}

/-- A question is still open after a poll, or it has been answered and the flag tells how. -/
def Asked (e : Endpoint) (r : ChainRequest) (m : State)
    (polled : Job (Except NodeFault r.Value) × World system σ) : Prop :=
  e.Asks r polled.1 ∧ polled.2.memory = m ∨
    ∃ answer, polled.1 = .done answer ∧ polled.2.memory = m.mark e.position answer.isOk

theorem asked_of_conclude :
    e.Asked r w.memory (h.conclude now (.chain e.position r)
      (fun answer => .touch (State.mark e.position answer.isOk) fun _ _ => .done answer)
      (fun answer w => Activity.poll h now
        (.touch (State.mark e.position answer.isOk) fun _ _ => .done answer) w) w) := by
  unfold Handler.conclude
  split
  · exact .inr ⟨_, rfl, rfl⟩
  · split
    · exact .inr ⟨_, rfl, rfl⟩
    · exact .inl ⟨.held _ _, rfl⟩

theorem Asks.poll (h : Handler system σ) (now : Nat) (w : World system σ) (hp : e.Asks r p) :
    e.Asked r w.memory (p.poll h now w) := by
  cases hp with
  | unsent =>
      show e.Asked r w.memory (Activity.poll h now (.perform (.chain e.position r) fun answer =>
        .touch (State.mark e.position answer.isOk) fun _ _ => .done answer) w)
      unfold Activity.poll
      dsimp only
      split
      · exact asked_of_conclude
      · exact .inl ⟨.sent _, rfl⟩
  | sent due =>
      unfold Activity.poll
      split
      · exact asked_of_conclude
      · exact .inl ⟨.sent due, rfl⟩
  | held due answer =>
      unfold Activity.poll
      split
      · exact .inr ⟨answer, rfl, rfl⟩
      · exact .inl ⟨.held due answer, rfl⟩

/-- A half that fails in a poll takes the flag down, and otherwise no half takes it down. -/
theorem Half.poll (h : Handler system σ) (now : Nat) (hp : e.Half r p w.memory) :
    (∃ fault, (p.poll h now w).1 = .done (.error fault) ∧
        e.flag (p.poll h now w).2.memory = false) ∨
      e.Half r (p.poll h now w).1 (p.poll h now w).2.memory ∧
        (e.flag w.memory = true → e.flag (p.poll h now w).2.memory = true) := by
  rcases hp with hp | ⟨⟨value, rfl⟩, hup⟩
  · rcases hp.poll h now w with ⟨hasks, hm⟩ | ⟨answer, hdone, hm⟩
    · rw [hm]
      exact .inr ⟨.inl hasks, id⟩
    · rw [hm, hdone, flag_mark]
      cases answer with
      | error fault => exact .inl ⟨fault, rfl, rfl⟩
      | ok value => exact .inr ⟨.inr ⟨⟨value, rfl⟩, e.flag_mark _ _⟩, fun _ => rfl⟩
  · exact .inr ⟨.inr ⟨⟨value, rfl⟩, hup⟩, id⟩

/-- A pair of questions that is still under way, or what has become of it. -/
def Paired {α : Type} (e : Endpoint) (left right : ChainRequest)
    (next : Except NodeFault (left.Value × right.Value) → Job (Except NodeFault α))
    (q : Job (Except NodeFault α)) (w : World system σ) : Prop :=
  (∃ p p', q = .tryPair p p' next ∧ e.Half left p w.memory ∧ e.Half right p' w.memory) ∨
    ∃ outcome, q = .done outcome ∧ e.flag w.memory = outcome.isOk

theorem Half.mono {m m' : State} (hp : e.Half r p m) (hm : e.flag m = true → e.flag m' = true) :
    e.Half r p m' :=
  hp.imp id fun ⟨hdone, hup⟩ => ⟨hdone, hm hup⟩

theorem Half.not_failed {m : State} (hp : e.Half r p m) (fault : NodeFault) :
    p ≠ .done (.error fault) := by
  rintro rfl
  rcases hp with hp | ⟨⟨value, heq⟩, -⟩
  · nomatch hp
  · cases heq

theorem Half.up {m : State} {value : r.Value} (hp : e.Half r (.done (.ok value)) m) :
    e.flag m = true := by
  rcases hp with hp | ⟨-, hup⟩
  · nomatch hp
  · exact hup

theorem Paired.poll {α : Type} {left right : ChainRequest}
    {next : Except NodeFault (left.Value × right.Value) → Job (Except NodeFault α)}
    (hn : ∀ outcome, ∃ v, next outcome = .done v ∧ v.isOk = outcome.isOk)
    {q : Job (Except NodeFault α)} (hq : e.Paired left right next q w) :
    e.Paired left right next (q.poll h now w).1 (q.poll h now w).2 := by
  have ends (outcome : Except NodeFault (left.Value × right.Value)) (w : World system σ)
      (hw : e.flag w.memory = outcome.isOk) :
      e.Paired left right next ((next outcome).poll h now w).1 ((next outcome).poll h now w).2 := by
    obtain ⟨v, hv, hok⟩ := hn outcome
    rw [hv]
    exact .inr ⟨v, rfl, hw.trans hok.symm⟩
  rcases hq with ⟨p, p', rfl, hp, hp'⟩ | ⟨outcome, rfl, hf⟩
  · unfold Activity.poll
    rcases hp.poll h now with ⟨fault, hdone, hdown⟩ | ⟨hleft, hkeep⟩
    · rw [show p.poll h now w = (.done (.error fault), (p.poll h now w).2) from Prod.ext hdone rfl]
      exact ends (.error fault) _ hdown
    · split
      · rw [‹p.poll h now w = _›] at hleft
        exact (hleft.not_failed _ rfl).elim
      · rename_i p₁ w₁ _ heq
        rw [heq] at hleft hkeep
        rcases (hp'.mono hkeep).poll h now with ⟨fault, hdone, hdown⟩ | ⟨hright, hkeep⟩
        · rw [show p'.poll h now w₁ = (.done (.error fault), (p'.poll h now w₁).2) from
            Prod.ext hdone rfl]
          exact ends (.error fault) _ hdown
        · have hleft := hleft.mono hkeep
          split
          · rw [‹p'.poll h now w₁ = _›] at hright
            exact (hright.not_failed _ rfl).elim
          · rw [‹p'.poll h now w₁ = _›] at hright
            exact ends (.ok _) _ hright.up
          · rw [‹p'.poll h now w₁ = _›] at hleft hright
            exact .inl ⟨_, _, rfl, hleft, hright⟩
  · exact .inr ⟨outcome, rfl, hf⟩

end Poll

/-- A proxy read that nobody else disturbs leaves the flag as it has ended, also when it has given up
one of its halves. -/
theorem exists_flag_of_proxyInfo {σ : Type} (e : Endpoint) (address : Address)
    (h : Handler system σ) (now : Nat) (w : World system σ) :
    ∃ outcome, ((e.proxyInfo address).run.run h now w).value? = some outcome ∧
      e.flag ((e.proxyInfo address).run.run h now w).world.memory = outcome.isOk := by
  let left : ChainRequest := .storage address ImplementationSlot.eip1967.key
  let right : ChainRequest := .storage address ImplementationSlot.legacy.key
  let next : Except NodeFault (left.Value × right.Value) → Job (Except NodeFault ProxyInfo) :=
    ExceptT.bindCont fun words => pure (.ofSlots words.1 words.2)
  have hn : ∀ outcome, ∃ v, next outcome = .done v ∧ v.isOk = outcome.isOk := by
    intro outcome
    cases outcome with
    | error fault => exact ⟨.error fault, rfl, rfl⟩
    | ok words => exact ⟨.ok (.ofSlots words.1 words.2), rfl, rfl⟩
  have begun : e.Paired left right next (e.proxyInfo address).run w :=
    .inl ⟨_, _, rfl, .inl .unsent, .inl .unsent⟩
  have confined : (e.proxyInfo address).run.Confined (e.Acts fun _ => True) :=
    confined_proxyInfo fun _ => trivial
  obtain ⟨outcome, hv⟩ :=
    Activity.exists_value_of_waitFree h now _ w (waitFree_of_acts confined)
  obtain ⟨q, hq, -, hrest⟩ := Activity.exists_rest_of_run (e.Paired left right next) h now begun
    fun due _ _ => Paired.poll hn
  rw [hv] at hrest
  rcases hq with ⟨p, p', rfl, -⟩ | ⟨ended, rfl, hf⟩
  · cases hrest
  · obtain rfl : outcome = ended := Option.some.inj hrest
    exact ⟨outcome, hv, hf⟩

theorem waitFree_performAll (e : Endpoint) (operations : List Operation) :
    (e.performAll operations).WaitFree := by
  have dropped {α : Type} {x : NodeJob α} (hx : x.run.Confined (e.Acts fun _ => True)) :
      (x >>= fun _ => pure () : NodeJob Unit).run.Confined (e.Acts fun _ => True) := by
    rw [run_bind_pure]
    exact hx.bind fun _ => Activity.confined_pure _
  have confined : (e.performAll operations).Confined (e.Acts fun _ => True) := by
    refine Activity.confined_joinAll fun member hm => ?_
    obtain ⟨operation, -, rfl⟩ := List.mem_map.mp hm
    cases operation with
    | blockNumber => exact dropped (confined_ask trivial)
    | view => exact dropped (confined_callView fun _ => trivial)
    | proxy => exact dropped (confined_proxyInfo fun _ => trivial)
    | start => exact confined_start (fun _ => trivial) trivial
    | stop => exact confined_stop fun _ => trivial
    | reset => exact confined_reset trivial trivial
    | recover => exact confined_recover (fun _ => trivial) trivial
  exact waitFree_of_acts confined

/-- At first the flag is up. At any moment of any run of operations, finished or not, it is the latest
verdict, and it is as before when there was none; others may change what they like but this flag. An
operation that has ended has left it by how it has ended, with nothing pending. -/
theorem flag_is_latest_verdict (e : Endpoint) :
    (∀ forkUrl abis, e.flag (.initial forkUrl abis) = true) ∧
    (∀ (operations : List Operation) (trace : Trace system)
      (outcomes : Option (List (Except NodeFault Unit))) (x y : Bool),
      (e.performAll operations).Runs trace outcomes → trace.Follows e.flag x y →
      ∃ parts noted, parts.map Part.operation = operations ∧
        (∀ ended, outcomes = some ended → parts.map Part.outcome = ended.map some) ∧
        e.DoAll parts noted ∧ noted.map (·.1) = trace ∧ e.Flagged noted x y ∧
        ∀ part ∈ parts, ∀ ended, part.outcome = some ended →
          e.Leaves part.noted ended part.operation) ∧
    (∀ (operation : Operation) (own : Trace system) (ended : Except NodeFault Unit),
      (∀ address, operation ≠ .proxy address) → (e.perform operation).run.Runs own (some ended) →
      operation.verdict? own.reverse = none) ∧
    (∀ (operation : Operation) (own : Trace system) (outcome : Option (Except NodeFault Unit)),
      (e.perform operation).run.Runs own outcome → e.Spares own operation →
      ∀ n ∈ operation.noted [] own, n.2 = none) ∧
    (∀ (address : Address) (slot : ImplementationSlot) (half : Trace system),
      (∀ answer, (e.implementationWord address slot).run.Runs half (some answer) →
        ((Operation.proxy address).noted [] half).filterMap (·.2) = [answer.isOk] ∧
          (Operation.proxy address).verdict? half.reverse = none) ∧
      ∀ answer, (e.implementationWord address slot).run.Runs half answer →
        (∀ r a, .answered r a ∉ half) →
        ((Operation.proxy address).noted [] half).filterMap (·.2) = []) ∧
    ∀ {σ : Type} (h : Handler system σ) (now : Nat) (w : World system σ),
      (∀ operations, ∃ trace outcomes,
        ((e.performAll operations).run h now w).value? = some outcomes ∧
        (e.performAll operations).Runs trace (some outcomes) ∧
        trace.Leads h w ((e.performAll operations).run h now w).world) ∧
      ∀ address, ∃ outcome, ((e.proxyInfo address).run.run h now w).value? = some outcome ∧
        e.flag ((e.proxyInfo address).run.run h now w).world.memory = outcome.isOk := by
  refine ⟨fun _ _ => rfl, ?_, ?_, fun _ _ _ => spared, fun address slot half => ⟨?_, ?_⟩,
    fun h now w => ⟨?_, ?_⟩⟩
  · intro operations trace outcomes x y hr hf
    obtain ⟨parts, noted, hoperations, houtcomes, hdo, rfl⟩ := exists_doAll hr
    refine ⟨parts, noted, hoperations, houtcomes, hdo, rfl,
      flagged_of_sound (sound_of_doAll hdo) hf, fun part hpart ended hended => ?_⟩
    exact leaves_of_does (hended ▸ hdo.does part hpart)
  · intro operation own ended hn hr
    simpa using (((heeds_perform hn).runs hr).2 ended rfl).verdict
  · exact fun answer hr => verdicts_of_half hr
  · exact fun answer hr hn => not_told_of_half hr hn
  · intro operations
    obtain ⟨outcomes, hv⟩ :=
      Activity.exists_value_of_waitFree h now _ w (e.waitFree_performAll operations)
    obtain ⟨trace, hr, hl⟩ := Activity.exists_trace_of_run h now (e.performAll operations) w
    exact ⟨trace, outcomes, hv, hv ▸ hr, hl⟩
  · exact fun address => e.exists_flag_of_proxyInfo address h now w

open Rehearsal

/-- A node that is well and whose container can be stopped. -/
def stoppable : World system Stage :=
  ⟨.initial "" .empty, ⟨[{ Node.fresh with present := true }], [], false, .absent⟩⟩

/-- A node whose container cannot be brought up. -/
def imageless : World system Stage :=
  ⟨.initial "" .empty,
    ⟨[{ Node.fresh with engineFaults := ⟨none, none, none, some "no image"⟩ }], [], false, .absent⟩⟩

set_option maxRecDepth 4000 in
/-- A recovery beside a stop takes the flag up again, and a start that fails takes it down. -/
theorem flag_of_recover_and_failed_start :
    (∃ (trace : Trace system) (m' : State) (parts : List Part) (noted : List Noted),
      (Fleet.soloist.performAll [.stop, .recover]).Runs trace (some [.ok (), .ok ()]) ∧
        trace.Follows id stoppable.memory m' ∧ noted.map (·.1) = trace ∧
        Fleet.soloist.flag m' = true ∧
        parts.map Part.operation = [.stop, .recover] ∧ Fleet.soloist.DoAll parts noted ∧
        ∀ part ∈ parts, Fleet.soloist.Leaves part.noted (.ok ()) part.operation) ∧
    ∃ (trace : Trace system) (m' : State) (noted : List Noted) (fault : NodeFault),
      (Fleet.soloist.performAll [.start]).Runs trace (some [.error fault]) ∧
        trace.Follows id imageless.memory m' ∧ noted.map (·.1) = trace ∧
        Fleet.soloist.flag m' = false ∧ latest? noted = some false := by
  obtain ⟨-, latest, -, -, -, ends⟩ := flag_is_latest_verdict Fleet.soloist
  have flagged {w w' : World system Stage} {operations : List Operation}
      {outcomes : List (Except NodeFault Unit)}
      (hw : (Fleet.soloist.performAll operations).wake 0 w.memory = some 0)
      (polled : (Fleet.soloist.performAll operations).poll Stage.handler 0 w = (.done outcomes, w')) :
      ∃ trace parts noted, (Fleet.soloist.performAll operations).Runs trace (some outcomes) ∧
        trace.Follows id w.memory w'.memory ∧ noted.map (·.1) = trace ∧
        Fleet.soloist.flag w'.memory = (latest? noted).getD (Fleet.soloist.flag w.memory) ∧
        parts.map Part.operation = operations ∧ parts.map Part.outcome = outcomes.map some ∧
        Fleet.soloist.DoAll parts noted ∧ ∀ part ∈ parts, ∀ ended, part.outcome = some ended →
          Fleet.soloist.Leaves part.noted ended part.operation := by
    obtain ⟨trace, ended, hv, hr, hl⟩ := (ends Stage.handler 0 w).1 operations
    rw [Activity.run_of_wake hw, polled, Activity.run_done] at hv hl
    obtain rfl : ended = outcomes := (Option.some.inj hv).symm
    obtain ⟨parts, noted, hoperations, houtcomes, hdo, hmap, hflag, hleaves⟩ :=
      latest operations trace _ _ _ hr (hl.1.through Fleet.soloist.flag)
    refine ⟨trace, parts, noted, hr, hl.1, hmap, ?_, hoperations, houtcomes _ rfl, hdo, hleaves⟩
    exact (hflag.flag noted [] (List.append_nil noted).symm).2
  have stopped : (Fleet.soloist.performAll [.stop, .recover]).poll Stage.handler 0 stoppable =
      (.done [.ok (), .ok ()], ((Fleet.soloist.performAll [.stop, .recover]).poll Stage.handler 0
        stoppable).2) := by rfl
  have failed : (Fleet.soloist.performAll [.start]).poll Stage.handler 0 imageless =
      (.done [.error (.lifecycle "no image")], ((Fleet.soloist.performAll [.start]).poll
        Stage.handler 0 imageless).2) := by rfl
  constructor
  · obtain ⟨trace, parts, noted, hr, hf, hmap, -, hoperations, houtcomes, hdo, hleaves⟩ :=
      flagged (by rfl) stopped
    refine ⟨trace, _, parts, noted, hr, hf, hmap, by rfl, hoperations, hdo, fun part hpart => ?_⟩
    have ended : part.outcome ∈ parts.map Part.outcome := List.mem_map_of_mem hpart
    rw [houtcomes] at ended
    exact hleaves part hpart (.ok ()) (by simpa using ended)
  · obtain ⟨trace, parts, noted, hr, hf, hmap, hflag, -⟩ := flagged (by rfl) failed
    refine ⟨trace, _, noted, _, hr, hf, hmap, by rfl, ?_⟩
    -- the flag was up before, so it is a verdict that has taken it down
    have hverdict : false = (latest? noted).getD true := hflag
    cases hlatest : latest? noted with
    | none => simp [hlatest] at hverdict
    | some verdict => simpa [hlatest] using hverdict.symm

end Endpoint

end ChainWatch
