import ChainWatch.Proofs.Rule.Findings

/-!
# Loading an interface

The interface that describes calls to an address is found in two steps: the fleet is asked for the logic
behind the address, and then the interface is looked up where the logic is. `RuleContext.Loads` lists the
ways in which this can go. A read of the fleet is described by `Fleet.Reads`: by the answers that the
endpoints gave in its course and by whose answer was chosen. The answers of another read may be others.
-/

namespace ChainWatch

open Concurrency

/-! ## The answers to one read -/

namespace Endpoint

variable {e : Endpoint} {trace : Trace system}

/-- Whether or not it has come to an end, to ask a node something brings one answer at most. -/
theorem exists_answer_of_ask {q : ChainRequest} {result : Option (Except NodeFault q.Value)}
    (hr : (e.ask q).run.Runs trace result) :
    ∃ answer : Except NodeFault q.Value, ∀ (r : Request) (x : r.Answer), .answered r x ∈ trace →
      (⟨r, x⟩ : (r : Request) × r.Answer) = ⟨.chain e.position q, answer⟩ := by
  rcases hr with ⟨rfl, -⟩ | ⟨-, later, rfl, hlater⟩
  · exact ⟨.error .exchange, by simp⟩
  rcases hlater with ⟨rfl, -⟩ | ⟨answer, marking, rfl, hmarking⟩
  · exact ⟨.error .exchange, by simp⟩
  refine ⟨answer, fun r x hx => ?_⟩
  have unanswered : .answered r x ∉ marking := by
    rcases hmarking with ⟨rfl, -⟩ | ⟨-, last, rfl, rfl, -⟩
    · simp
    · simp
  obtain ⟨rfl, hx⟩ : r = .chain e.position q ∧ x ≍ answer := by simpa [unanswered] using hx
  rw [eq_of_heq hx]

/-- A read of both slots asks for neither of them twice, also where one failure ends it. -/
theorem answer_unique_of_proxyInfo {address : Address} {outcome : Except NodeFault ProxyInfo}
    (hr : (e.proxyInfo address).run.Runs trace (some outcome)) {r : Request} {x y : r.Answer}
    (hx : .answered r x ∈ trace) (hy : .answered r y ∈ trace) : x = y := by
  have slots_unique {t : Trace system} {half : Except NodeFault (Word × Word)}
      (ht : (Activity.tryBoth (e.implementationWord address .eip1967).run
        (e.implementationWord address .legacy).run).Runs t (some half))
      (hx : .answered r x ∈ t) (hy : .answered r y ∈ t) : x = y := by
    obtain ⟨half', early, late, ⟨left, right, first, second, hl, hr, hs, -⟩, hd, rfl⟩ :=
      continues_some.mp ht
    obtain ⟨rfl, -⟩ := hd
    rw [List.append_nil, hs.mem_iff] at hx hy
    obtain ⟨newer, hnewer⟩ := exists_answer_of_ask hl
    obtain ⟨older, holder⟩ := exists_answer_of_ask hr
    have apart (z z' : r.Answer) (hz : .answered r z ∈ left) : .answered r z' ∉ right := by
      intro hz'
      have first_asked : r = _ := congrArg Sigma.fst (hnewer r z hz)
      have then_asked : r = _ := congrArg Sigma.fst (holder r z' hz')
      rw [first_asked] at then_asked
      simp [ImplementationSlot.key] at then_asked
    have unique {a : (r : Request) × r.Answer} (ha : ⟨r, x⟩ = a) (hb : ⟨r, y⟩ = a) : x = y := by
      rw [← hb] at ha
      simpa using ha
    rcases hx with hx | hx <;> rcases hy with hy | hy
    · exact unique (hnewer r x hx) (hnewer r y hy)
    · exact (apart x y hx hy).elim
    · exact (apart y x hy hx).elim
    · exact unique (holder r x hx) (holder r y hy)
  rcases runs_exceptT_bind_some.mp hr with ⟨fault, ht, -⟩ | ⟨words, early, late, ht, hp, rfl⟩
  · exact slots_unique ht hx hy
  · obtain ⟨rfl, -⟩ := runs_exceptT_pure_some.mp hp
    rw [List.append_nil] at hx hy
    exact slots_unique ht hx hy

end Endpoint

namespace Fleet

variable {fleet : Fleet} {trace : Trace system} {replies : Replies} {r : Read}

/-- In one read every answer is the only one to its request. -/
theorem exists_answeredBy_of_querying {result : Except FleetFault r.Value}
    (hr : (fleet.querying r).Runs trace (some result)) : ∃ replies, trace.AnsweredBy replies := by
  cases r with
  | blockNumber =>
      have : Nonempty (Except NodeFault Nat) := ⟨.error .exchange⟩
      obtain ⟨own, got, hown, hw, -⟩ := runs_askAll_some hr
      refine exists_answeredBy_of_parts hw fun e he r x hx => ?_
      obtain ⟨answer, unique⟩ := Endpoint.exists_answer_of_ask (hown e he)
      refine ⟨⟨_, congrArg Sigma.fst (unique r x hx)⟩, fun y hy => ?_⟩
      have hsame := (unique r x hx).trans (unique r y hy).symm
      simpa using hsame
  | view address contract method inputs =>
      have : Nonempty (Reading (List Abi.Value)) := ⟨⟨0, none, none⟩⟩
      obtain ⟨own, got, hown, hw, -⟩ := runs_askAll_some hr
      exact exists_answeredBy_of_parts hw fun e he r x => answers_of_readView (hown e he)
  | proxy address =>
      have : Nonempty (Except NodeFault ProxyInfo) := ⟨.error .exchange⟩
      obtain ⟨own, got, hown, hw, -⟩ := runs_askAll_some hr
      refine exists_answeredBy_of_parts hw fun e he r x hx =>
        ⟨?_, fun y hy => Endpoint.answer_unique_of_proxyInfo (hown e he) hx hy⟩
      have own_slots : (e.proxyInfo address).run.Confined (e.Acts fun r =>
          ∃ slot, r = .chain e.position (.storage address slot)) :=
        Endpoint.confined_proxyInfo fun slot => ⟨slot, rfl⟩
      cases own_slots.runs (hown e he) _ hx with
      | answered h =>
          obtain ⟨slot, h⟩ := h
          exact ⟨_, h⟩

/-- A read in the course of a run: a start of the fleet, if that is still due, and then what all
endpoints are asked. Of their complete answers the one of the highest rank counts, of equal ones that
of the endpoint that comes first; without any, the read fails. -/
def Reads (fleet : Fleet) (r : Read) (trace : Trace system) (result : Except FleetFault r.Value) :
    Prop :=
  ∃ starting asking replies, trace = starting ++ asking ∧
    fleet.ensureStarted.Runs starting (some ()) ∧ (fleet.querying r).Runs asking (some result) ∧
    asking.AnsweredBy replies ∧
    (∀ v, result = .ok v ↔ ∃ e share, fleet.Chooses replies r e share ∧ v = r.value share) ∧
    ∀ fault, result = .error fault ↔
      fault = r.fault ∧ ∀ e ∈ fleet.endpoints, e.share? replies r = none

theorem reads_of_query {result : Except FleetFault r.Value}
    (hr : (fleet.query r).run.Runs trace (some result)) : fleet.Reads r trace result := by
  obtain ⟨starting, asking, rfl, hs, hq⟩ := runs_query_some hr
  obtain ⟨replies, ha⟩ := exists_answeredBy_of_querying hq
  have answered := eq_queryAnswer_of_querying hq ha
  refine ⟨starting, asking, replies, rfl, hs, hq, ha, fun v => ?_, fun fault => ?_⟩
  · rw [answered]
    exact queryAnswer_eq_ok_iff
  · rw [answered]
    exact queryAnswer_eq_error_iff

end Fleet

/-! ## Interfaces -/

namespace RuleContext

variable {context : RuleContext} {a : Address} {trace : Trace system}

/-- How the loading of an interface can go. -/
inductive Loads (context : RuleContext) (a : Address) :
    Trace system → Except RuleFault Abi.Contract → Prop where
  /-- No endpoint tells where the logic is. -/
  | unresolved {asking : Trace system} {fault : FleetFault}
      (hp : context.fleet.Reads (.proxy a) asking (.error fault)) :
      Loads context a asking (.error (.fleet fault))
  /-- Where the logic is, no interface is known. -/
  | unknown {asking looking : Trace system} {info : ProxyInfo} {fault : AbiFault}
      (hp : context.fleet.Reads (.proxy a) asking (.ok info))
      (hl : context.explorer.Looks (info.source a) looking (.error fault)) :
      Loads context a (asking ++ looking) (.error (.abi fault))
  /-- The text that is known is none of an interface. -/
  | unreadable {asking looking : Trace system} {info : ProxyInfo} {text : String}
      (hp : context.fleet.Reads (.proxy a) asking (.ok info))
      (hl : context.explorer.Looks (info.source a) looking (.ok text))
      (ht : Abi.Contract.parse? text = none) :
      Loads context a (asking ++ looking) (.error (.abi .unreadable))
  | loaded {asking looking : Trace system} {info : ProxyInfo} {text : String}
      {contract : Abi.Contract} (hp : context.fleet.Reads (.proxy a) asking (.ok info))
      (hl : context.explorer.Looks (info.source a) looking (.ok text))
      (ht : Abi.Contract.parse? text = some contract) :
      Loads context a (asking ++ looking) (.ok contract)

theorem loads_of_loadContract {outcome : Except RuleFault Abi.Contract}
    (hr : (context.loadContract a).run.Runs trace (some outcome)) : context.Loads a trace outcome := by
  rcases runs_exceptT_bind_some.mp hr with
    ⟨fault, hask, rfl⟩ | ⟨info, asking, later, hask, hlater, rfl⟩
  · obtain ⟨refusal, hquery, rfl⟩ := runs_adapt_error.mp hask
    exact .unresolved (Fleet.reads_of_query (r := .proxy a) hquery)
  have hp := Fleet.reads_of_query (r := .proxy a) (runs_adapt_ok.mp hask)
  rcases runs_exceptT_bind_some.mp hlater with
    ⟨fault, hlook, rfl⟩ | ⟨text, looking, last, hlook, hlast, rfl⟩
  · obtain ⟨refusal, hlookup, rfl⟩ := runs_adapt_error.mp hlook
    exact .unknown hp (Explorer.runs_lookup_some hlookup)
  have hl := Explorer.runs_lookup_some (runs_adapt_ok.mp hlook)
  split at hlast
  · obtain ⟨rfl, rfl⟩ := runs_exceptT_pure_some.mp hlast
    rw [List.append_nil]
    exact .loaded hp hl ‹_›
  · obtain ⟨rfl, rfl⟩ := runs_throw_some.mp hlast
    rw [List.append_nil]
    exact .unreadable hp hl ‹_›

end RuleContext

end ChainWatch
