import ChainWatch.Proofs.Fleet.Answers

/-!
# Fleets that answer by a table

Where every endpoint always answers a question alike, what a read of the fleet comes to can be read off
the table of the answers. Of the endpoints that contribute to a read one is chosen by rank, and the
first of them in fleet order where ranks are equal; the delays, the schedule and the start of the fleet
make no difference.
-/

namespace ChainWatch

open Concurrency

/-! ## Answers by a table -/

section Quotes

variable {σ : Type} {asked : Request → Prop} {replies : Replies}

/-- If the event is an answer to such a request, it is that of the table. -/
def Concurrency.Event.Quotes (asked : Request → Prop) (replies : Replies) : Event system → Prop
  | .answered r answer => asked r → answer = replies r
  | _ => True

/-- To such requests the trace has the answers of the table. -/
def Concurrency.Trace.Quotes (asked : Request → Prop) (replies : Replies) (trace : Trace system) :
    Prop :=
  ∀ event ∈ trace, event.Quotes asked replies

/-- In these states of the outside, which are never left, such requests are answered by the table. -/
structure Concurrency.Handler.Quotes (h : Handler system σ) (asked : Request → Prop)
    (replies : Replies) (valid : σ → Prop) : Prop where
  answer : ∀ r s, asked r → valid s → (h.settle r s).1.answer = replies r
  submit : ∀ r s, valid s → valid (h.submit r s).2
  settle : ∀ r s, valid s → valid (h.settle r s).2

theorem Concurrency.Handler.Quotes.trace {h : Handler system σ} {valid : σ → Prop}
    (hq : h.Quotes asked replies valid) {trace : Trace system} {s s' : σ} (hv : valid s)
    (hs : trace.Served h s s') : trace.Quotes asked replies := by
  induction trace generalizing s with
  | nil => exact List.forall_mem_nil _
  | cons event trace ih =>
      refine List.forall_mem_cons.mpr ?_
      cases event with
      | sent request => exact ⟨trivial, ih (hq.submit request s hv) hs⟩
      | answered request answer =>
          obtain ⟨rfl, hs⟩ := hs
          exact ⟨fun ha => hq.answer request s ha hv, ih (hq.settle request s hv) hs⟩
      | touched before after => exact ⟨trivial, ih hv hs⟩
      | noticed memory => exact ⟨trivial, ih hv hs⟩

theorem Concurrency.Handler.Quotes.valid_of_served {h : Handler system σ} {valid : σ → Prop}
    (hq : h.Quotes asked replies valid) {trace : Trace system} {s s' : σ} (hv : valid s)
    (hs : trace.Served h s s') : valid s' := by
  induction trace generalizing s with
  | nil => exact (show s' = s from hs) ▸ hv
  | cons event trace ih =>
      cases event with
      | sent request => exact ih (hq.submit request s hv) hs
      | answered request answer => exact ih (hq.settle request s hv) hs.2
      | touched before after => exact ih hv hs
      | noticed memory => exact ih hv hs

/-- A handler that answers by a table, each request after its own delay. -/
def Concurrency.Handler.ofReplies (delay : Request → Nat) (replies : Replies) :
    Handler system Unit where
  submit r _ := (delay r, ())
  settle r _ := (.now (replies r), ())

theorem Concurrency.Handler.quotes_ofReplies (delay : Request → Nat) (asked : Request → Prop)
    (replies : Replies) : (ofReplies delay replies).Quotes asked replies fun _ => True :=
  ⟨fun _ _ _ _ => rfl, fun _ _ _ => trivial, fun _ _ _ => trivial⟩

/-- Where only such requests are made, all answers are those of the table. -/
theorem Concurrency.Trace.Quotes.answeredBy {fleet : Fleet} {trace : Trace system}
    (h : trace.Quotes asked replies) (hf : ∀ event ∈ trace, fleet.Acts asked event) :
    trace.AnsweredBy replies := by
  intro r answer hm
  obtain ⟨e, -, ha⟩ := hf _ hm
  cases ha with
  | answered ha => exact h _ hm ha

end Quotes

/-! ## Reads and their answers -/

namespace Read

abbrev Value : Read → Type
  | .blockNumber => Nat
  | .view _ _ _ _ => List Abi.Value
  | .proxy _ => ProxyInfo

/-- What an endpoint contributes to a read. To a view this is its answer together with its height. -/
abbrev Share : Read → Type
  | .blockNumber => Nat
  | .view _ _ _ _ => List Abi.Value × Nat
  | .proxy _ => ProxyInfo

/-- What the read answers if this contribution is chosen. -/
def value : (r : Read) → r.Share → r.Value
  | .blockNumber, height => height
  | .view _ _ _ _, share => share.1
  | .proxy _, info => info

/-- By what contributions are chosen: the height where there is one. -/
def rank : (r : Read) → r.Share → Nat
  | .blockNumber, height => height
  | .view _ _ _ _, share => share.2
  | .proxy _, _ => 0

/-- Why the read fails when nobody contributes. -/
def fault : Read → FleetFault
  | .blockNumber => .blockNumber
  | .view address _ method _ => .viewCall address method
  | .proxy address => .proxyInfo address

/-- The first contribution of the highest rank. -/
def choose (r : Read) (shares : List r.Share) : Option r.Share :=
  shares.find? fun share => shares.all fun other => r.rank other ≤ r.rank share

theorem choose_eq_none_iff {r : Read} {shares : List r.Share} :
    r.choose shares = none ↔ shares = [] := by
  constructor
  · intro h
    by_contra hn
    obtain ⟨best, hbest⟩ := Option.isSome_iff_exists.mp
      (List.isSome_max?_of_ne_nil (l := shares.map r.rank) (by simpa using hn))
    obtain ⟨hmem, hmax⟩ := List.max?_eq_some_iff.mp hbest
    obtain ⟨share, hshare, rfl⟩ := List.mem_map.mp hmem
    refine List.find?_eq_none.mp h share hshare ?_
    exact List.all_eq_true.mpr fun other ho =>
      decide_eq_true (hmax _ (List.mem_map_of_mem ho))
  · rintro rfl
    rfl

theorem choose_eq_some_iff {r : Read} {shares : List r.Share} {share : r.Share} :
    r.choose shares = some share ↔ (∀ other ∈ shares, r.rank other ≤ r.rank share) ∧
      ∃ before after, shares = before ++ share :: after ∧
        ∀ other ∈ before, r.rank other < r.rank share := by
  rw [choose, List.find?_eq_some_iff_append]
  simp only [List.all_eq_true, decide_eq_true_eq, Bool.not_eq_true', List.all_eq_false,
    Nat.not_le]
  refine and_congr_right fun hmax => exists_congr fun before => exists_congr fun after =>
    and_congr_right fun heq => forall₂_congr fun other ho => ?_
  constructor
  · rintro ⟨higher, hhigher, hlt⟩
    exact Nat.lt_of_lt_of_le hlt (hmax higher hhigher)
  · exact fun hlt => ⟨share, by simp [heq], hlt⟩

end Read

namespace Endpoint

/-- Two answers together, if both came back. -/
def paired {ε β γ : Type} : Except ε β → Except ε γ → Option (β × γ)
  | .ok b, .ok c => some (b, c)
  | _, _ => none

/-- What a read of both slots comes to at an endpoint that gives such answers. -/
def slots (e : Endpoint) (address : Address) (replies : Replies) : Option ProxyInfo :=
  (paired (replies (.chain e.position (.storage address ImplementationSlot.eip1967.key)))
    (replies (.chain e.position (.storage address ImplementationSlot.legacy.key)))).map
      fun words => .ofSlots words.1 words.2

/-- What an endpoint contributes to a read when it gives such answers: nothing unless its answer is
complete. -/
def share? (e : Endpoint) (replies : Replies) : (r : Read) → Option r.Share
  | .blockNumber => (replies (.chain e.position .blockNumber)).toOption
  | .view address contract method inputs =>
    paired (e.viewOutcome address contract method inputs replies)
      (replies (.chain e.position .blockNumber))
  | .proxy address => e.slots address replies

theorem share?_view_eq_some_iff {e : Endpoint} {replies : Replies} {address : Address}
    {contract : Abi.Contract} {method : String} {inputs : List Abi.Value}
    {outputs : List Abi.Value} {height : Nat} :
    e.share? replies (.view address contract method inputs) = some (outputs, height) ↔
      e.Sees address contract method inputs replies outputs height := by
  unfold share? Sees
  dsimp only
  cases e.viewOutcome address contract method inputs replies <;>
    cases replies (.chain e.position .blockNumber) <;> simp [paired]

/-- A read of both slots fails at the first slot that fails; otherwise it tells what both say. -/
theorem eq_slots_of_runs {e : Endpoint} {address : Address} {replies : Replies}
    {trace : Trace system} {outcome : Except NodeFault ProxyInfo}
    (hr : (e.proxyInfo address).run.Runs trace (some outcome)) (ha : trace.AnsweredBy replies) :
    outcome.toOption = e.slots address replies := by
  have told {t : Trace system} {half : Except NodeFault (Word × Word)}
      (ht : (Activity.tryBoth (e.implementationWord address .eip1967).run
        (e.implementationWord address .legacy).run).Runs t (some half))
      (hat : t.AnsweredBy replies) :
      half.toOption.map (fun words => ProxyInfo.ofSlots words.1 words.2) =
        e.slots address replies := by
    obtain ⟨half', early, late, ⟨left, right, first, second, hl, hr, hs, ho⟩, hd, rfl⟩ :=
      continues_some.mp ht
    obtain ⟨rfl, hv⟩ := hd
    obtain rfl : half = half' := by simpa using hv
    have left_told {a : Except NodeFault Word} (hfirst : first = some a) :
        a = replies (.chain e.position (.storage address ImplementationSlot.eip1967.key)) := by
      rw [hfirst] at hl
      exact eq_reply_of_ask hl fun r x hm => hat r x (by simp [hs.mem_iff.mpr (.inl hm)])
    have right_told {a : Except NodeFault Word} (hsecond : second = some a) :
        a = replies (.chain e.position (.storage address ImplementationSlot.legacy.key)) := by
      rw [hsecond] at hr
      exact eq_reply_of_ask hr fun r x hm => hat r x (by simp [hs.mem_iff.mpr (.inr hm)])
    unfold slots
    cases ho with
    | both b c =>
        rw [← left_told rfl, ← right_told rfl]
        rfl
    | left fault =>
        rw [← left_told rfl]
        rfl
    | right fault =>
        rw [← right_told rfl]
        cases replies (.chain e.position (.storage address ImplementationSlot.eip1967.key)) <;> rfl
  unfold proxyInfo at hr
  rcases runs_exceptT_bind_some.mp hr with ⟨fault, ht, rfl⟩ | ⟨words, early, late, ht, hp, rfl⟩
  · exact told ht ha
  · obtain ⟨rfl, rfl⟩ := runs_exceptT_pure_some.mp hp
    exact told ht fun r x hm => ha r x (by simp [hm])

end Endpoint

namespace Fleet

variable {fleet : Fleet} {replies : Replies} {r : Read} {trace : Trace system}

def query (fleet : Fleet) : (r : Read) → FleetJob r.Value
  | .blockNumber => fleet.blockNumber
  | .view address contract method inputs => fleet.callView address contract method inputs
  | .proxy address => fleet.proxyInfo address

/-- What the endpoints contribute to a read, in fleet order. -/
def shares (fleet : Fleet) (replies : Replies) (r : Read) : List r.Share :=
  fleet.endpoints.filterMap fun e => e.share? replies r

/-- What a read comes to when the endpoints give such answers. -/
def queryAnswer (fleet : Fleet) (replies : Replies) (r : Read) : Except FleetFault r.Value :=
  match r.choose (fleet.shares replies r) with
  | some share => .ok (r.value share)
  | none => .error r.fault

/-- The endpoint's contribution is chosen: no other endpoint has one of a higher rank, and none that
comes earlier has one of the same rank. -/
def Chooses (fleet : Fleet) (replies : Replies) (r : Read) (e : Endpoint) (share : r.Share) : Prop :=
  e ∈ fleet.endpoints ∧ e.share? replies r = some share ∧
    ∀ e' ∈ fleet.endpoints, ∀ other, e'.share? replies r = some other →
      r.rank other < r.rank share ∨ r.rank other = r.rank share ∧ e.position ≤ e'.position

theorem Chooses.unique {e e' : Endpoint} {share share' : r.Share}
    (h : fleet.Chooses replies r e share) (h' : fleet.Chooses replies r e' share') :
    e = e' ∧ share = share' := by
  have hle := h.2.2 e' h'.1 share' h'.2.1
  have hge := h'.2.2 e h.1 share h.2.1
  obtain rfl := fleet.eq_of_position_eq h.1 h'.1 (by omega)
  exact ⟨rfl, Option.some.inj (h.2.1.symm.trans h'.2.1)⟩

theorem shares_eq_nil_iff :
    fleet.shares replies r = [] ↔ ∀ e ∈ fleet.endpoints, e.share? replies r = none :=
  List.filterMap_eq_nil_iff

theorem choose_shares_eq_some_iff {share : r.Share} :
    r.choose (fleet.shares replies r) = some share ↔ ∃ e, fleet.Chooses replies r e share := by
  have chosen {share : r.Share} (h : r.choose (fleet.shares replies r) = some share) :
      ∃ e, fleet.Chooses replies r e share := by
    obtain ⟨hmax, before, after, hsplit, hlower⟩ := Read.choose_eq_some_iff.mp h
    obtain ⟨first, rest, hends, hfirst, hrest⟩ := List.filterMap_eq_append_iff.mp hsplit
    obtain ⟨silent, e, last, rfl, hsilent, hshare, -⟩ := List.filterMap_eq_cons_iff.mp hrest
    have ordered := fleet.ordered
    rw [hends] at ordered
    refine ⟨e, by simp [hends], hshare, fun e' he' other ho => ?_⟩
    have hle := hmax other (List.mem_filterMap.mpr ⟨e', he', ho⟩)
    rw [hends] at he'
    simp only [List.mem_append, List.mem_cons] at he'
    rcases he' with he' | he' | rfl | he'
    · exact .inl (hlower other (hfirst ▸ List.mem_filterMap.mpr ⟨e', he', ho⟩))
    · rw [hsilent e' he'] at ho
      cases ho
    · exact .inr ⟨by rw [Option.some.inj (hshare.symm.trans ho)], Nat.le_refl _⟩
    · have hlt : e.position < e'.position :=
        (List.pairwise_cons.mp (List.pairwise_append.mp
          (List.pairwise_append.mp ordered).2.1).2.1).1 e' he'
      omega
  refine ⟨chosen, fun ⟨e, he⟩ => ?_⟩
  cases hc : r.choose (fleet.shares replies r) with
  | none =>
      have hnone := shares_eq_nil_iff.mp (Read.choose_eq_none_iff.mp hc) e he.1
      rw [he.2.1] at hnone
      cases hnone
  | some other =>
      obtain ⟨e', he'⟩ := chosen hc
      rw [(he'.unique he).2]

theorem queryAnswer_eq_ok_iff {v : r.Value} :
    fleet.queryAnswer replies r = .ok v ↔
      ∃ e share, fleet.Chooses replies r e share ∧ v = r.value share := by
  unfold queryAnswer
  constructor
  · intro h
    split at h
    · rename_i share hc
      obtain ⟨e, he⟩ := choose_shares_eq_some_iff.mp hc
      exact ⟨e, share, he, (Except.ok.inj h).symm⟩
    · cases h
  · rintro ⟨e, share, he, rfl⟩
    rw [choose_shares_eq_some_iff.mpr ⟨e, he⟩]

theorem queryAnswer_eq_error_iff {fault : FleetFault} :
    fleet.queryAnswer replies r = .error fault ↔
      fault = r.fault ∧ ∀ e ∈ fleet.endpoints, e.share? replies r = none := by
  rw [← shares_eq_nil_iff, ← Read.choose_eq_none_iff]
  unfold queryAnswer
  cases r.choose (fleet.shares replies r) with
  | some share => simp
  | none => simp [eq_comm]

/-! ## The three reads -/

theorem queryAnswer_blockNumber :
    fleet.queryAnswer replies .blockNumber =
      match (fleet.shares replies .blockNumber).max? with
      | some height => .ok height
      | none => .error .blockNumber := by
  unfold queryAnswer
  cases hc : Read.choose .blockNumber (fleet.shares replies .blockNumber) with
  | none => rw [Read.choose_eq_none_iff.mp hc]; rfl
  | some height =>
      obtain ⟨hmax, before, after, hsplit, -⟩ := Read.choose_eq_some_iff.mp hc
      have hbest : (fleet.shares replies .blockNumber).max? = some height :=
        List.max?_eq_some_iff.mpr ⟨by simp [hsplit], hmax⟩
      rw [hbest]
      rfl

theorem queryAnswer_proxy {address : Address} :
    fleet.queryAnswer replies (.proxy address) =
      match fleet.endpoints.findSome? fun e => e.slots address replies with
      | some info => .ok info
      | none => .error (.proxyInfo address) := by
  have hhead : Read.choose (.proxy address) (fleet.shares replies (.proxy address)) =
      (fleet.shares replies (.proxy address)).head? := by
    cases hshares : fleet.shares replies (.proxy address) with
    | nil => rfl
    | cons info rest =>
        exact Read.choose_eq_some_iff.mpr
          ⟨fun _ _ => Nat.le_refl _, [], rest, rfl, fun _ h => (List.not_mem_nil h).elim⟩
  unfold queryAnswer
  rw [hhead, shares, List.head?_filterMap,
    show (fun e : Endpoint => e.share? replies (.proxy address)) = fun e => e.slots address replies
      from rfl]
  cases fleet.endpoints.findSome? fun e => e.slots address replies <;> rfl

theorem queryAnswer_view {address : Address} {contract : Abi.Contract} {method : String}
    {inputs : List Abi.Value} :
    fleet.queryAnswer replies (.view address contract method inputs) =
      fleet.viewAnswer address contract method inputs replies := by
  cases hv : fleet.viewAnswer address contract method inputs replies with
  | ok outputs =>
      obtain ⟨e, he, height, hsees, hmax⟩ := viewAnswer_eq_ok_iff.mp hv
      refine queryAnswer_eq_ok_iff.mpr ⟨e, (outputs, height),
        ⟨he, Endpoint.share?_view_eq_some_iff.mpr hsees, fun e' he' other ho => ?_⟩, rfl⟩
      exact hmax e' he' other.1 other.2 (Endpoint.share?_view_eq_some_iff.mp ho)
  | error fault =>
      obtain ⟨rfl, hnone⟩ := viewAnswer_eq_error_iff.mp hv
      refine queryAnswer_eq_error_iff.mpr ⟨rfl, fun e he => ?_⟩
      cases hs : e.share? replies (.view address contract method inputs) with
      | none => rfl
      | some share => exact (hnone e he _ _ (Endpoint.share?_view_eq_some_iff.mp hs)).elim

/-! ## Runs -/

theorem answeredBy_part {e : Endpoint} {own : Endpoint → Trace system}
    (hw : Shuffles (fleet.endpoints.map own) trace) (ha : trace.AnsweredBy replies)
    (he : e ∈ fleet.endpoints) : (own e).AnsweredBy replies :=
  fun q x hm => ha q x (hw.mem_iff.mpr ⟨own e, List.mem_map_of_mem he, hm⟩)

/-- What a read does after the start of the fleet, with its full answer. -/
def querying (fleet : Fleet) : (r : Read) → Job (Except FleetFault r.Value)
  | .blockNumber => fleet.askAll (fun e => e.blockNumber.run) fun answers =>
    match (answers.filterMap Except.toOption).max? with
    | some height => .ok height
    | none => .error .blockNumber
  | .view address contract method inputs =>
    fleet.askAll (readView address contract method inputs) fun readings =>
      match Reading.freshest readings with
      | some best => .ok best.value
      | none => .error (.viewCall address method)
  | .proxy address => fleet.askAll (fun e => (e.proxyInfo address).run) fun answers =>
    match answers.findSome? Except.toOption with
    | some info => .ok info
    | none => .error (.proxyInfo address)

theorem query_eq (fleet : Fleet) (r : Read) :
    (fleet.query r).run = fleet.ensureStarted >>= fun _ => fleet.querying r := by
  have ended {β γ : Type} (job : Endpoint → Job β) (last : List β → Job γ) (conclude : List β → γ)
      (h : ∀ answers, last answers = pure (conclude answers)) :
      (fleet.ensureStarted >>= fun _ => Activity.joinAll (fleet.endpoints.map job) >>= last) =
          fleet.ensureStarted >>= fun _ => fleet.askAll job conclude := by
    rw [funext h]
    rfl
  cases r with
  | blockNumber =>
      refine ended _ _ _ fun answers => ?_
      cases (answers.filterMap Except.toOption).max? <;> rfl
  | view address contract method inputs =>
      refine ended _ _ _ fun readings => ?_
      cases Reading.freshest readings <;> rfl
  | proxy address =>
      refine ended _ _ _ fun answers => ?_
      cases answers.findSome? Except.toOption <;> rfl

theorem confined_querying (fleet : Fleet) (r : Read) :
    (fleet.querying r).Confined (fleet.Acts Request.IsRead) := by
  cases r with
  | blockNumber => exact confined_askAll fun e _ => Endpoint.confined_ask trivial
  | view address contract method inputs => exact confined_askAll fun e _ => confined_viewing
  | proxy address => exact confined_askAll fun e _ => Endpoint.confined_proxyInfo fun _ => trivial

theorem confined_query (fleet : Fleet) (r : Read) :
    (fleet.query r).run.Confined fleet.Serves := by
  rw [query_eq]
  exact fleet.confined_ensureStarted.bind fun _ =>
    (fleet.confined_querying r).mono fun _ h => h.serves

/-- What a read comes to can be read off the table that it is answered by. -/
theorem eq_queryAnswer_of_querying {result : Except FleetFault r.Value}
    (hr : (fleet.querying r).Runs trace (some result)) (ha : trace.AnsweredBy replies) :
    result = fleet.queryAnswer replies r := by
  cases r with
  | blockNumber =>
      have : Nonempty (Except NodeFault Nat) := ⟨.error .exchange⟩
      obtain ⟨own, got, hown, hw, rfl⟩ := runs_askAll_some hr
      have hgot : (fleet.endpoints.map got).filterMap Except.toOption =
          fleet.shares replies .blockNumber := by
        rw [List.filterMap_map, shares]
        refine List.filterMap_congr fun e he => ?_
        exact congrArg Except.toOption
          (Endpoint.eq_reply_of_ask (hown e he) (answeredBy_part hw ha he))
      rw [queryAnswer_blockNumber, hgot]
      rfl
  | view address contract method inputs =>
      have : Nonempty (Reading (List Abi.Value)) := ⟨⟨0, none, none⟩⟩
      obtain ⟨own, got, hown, hw, rfl⟩ := runs_askAll_some hr
      have hgot : fleet.endpoints.map got = fleet.readingsOf address contract method inputs replies :=
        List.map_congr_left fun e he =>
          eq_reading_of_runs (hown e he) (answeredBy_part hw ha he)
      rw [queryAnswer_view, hgot]
      rfl
  | proxy address =>
      have : Nonempty (Except NodeFault ProxyInfo) := ⟨.error .exchange⟩
      obtain ⟨own, got, hown, hw, rfl⟩ := runs_askAll_some hr
      have hgot : (fleet.endpoints.map got).findSome? Except.toOption =
          fleet.endpoints.findSome? fun e => e.slots address replies := by
        rw [List.findSome?_map, ← List.head?_filterMap, ← List.head?_filterMap]
        refine congrArg List.head? (List.filterMap_congr fun e he => ?_)
        exact Endpoint.eq_slots_of_runs (hown e he) (answeredBy_part hw ha he)
      rw [queryAnswer_proxy, hgot]

/-- A read waits for the start of the fleet, and then it asks all endpoints. -/
theorem runs_query_some {result : Except FleetFault r.Value}
    (hr : (fleet.query r).run.Runs trace (some result)) :
    ∃ starting reading, trace = starting ++ reading ∧ fleet.ensureStarted.Runs starting (some ()) ∧
      (fleet.querying r).Runs reading (some result) := by
  rw [query_eq] at hr
  obtain ⟨⟨⟩, starting, reading, hs, hq, rfl⟩ := Activity.runs_bind_some.mp hr
  exact ⟨starting, reading, rfl, hs, hq⟩

theorem eq_queryAnswer_of_runs {result : Except FleetFault r.Value}
    (hr : (fleet.query r).run.Runs trace (some result)) (hq : trace.Quotes Request.IsRead replies) :
    result = fleet.queryAnswer replies r := by
  obtain ⟨starting, reading, rfl, -, hread⟩ := runs_query_some hr
  have hreading : reading.Quotes Request.IsRead replies :=
    fun event hm => hq event (List.mem_append_right _ hm)
  exact eq_queryAnswer_of_querying hread
    (hreading.answeredBy ((fleet.confined_querying r).runs hread))

/-- A read ends unless somebody else is busy starting the fleet. -/
theorem exists_value_of_query {σ : Type} (fleet : Fleet) (r : Read) (h : Handler system σ)
    (now : Nat) (w : World system σ) (hs : w.memory.start ≠ .running) :
    ∃ result, ((fleet.query r).run.run h now w).value? = some result := by
  rw [query_eq]
  exact exists_value_of_ensureStarted (fun _ => waitFree_of_acts (fleet.confined_querying r)) h now w hs

end Fleet

end ChainWatch
