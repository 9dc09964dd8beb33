import ChainWatch.Proofs.Fleet.Recovery
import ChainWatch.Proofs.Fleet.Replies

/-!
# Doing without failed endpoints

An endpoint that contributes nothing to a read might as well not be there. The fleet without it answers
the same, and the same endpoint decides, although places are counted anew and the start takes another
course.
-/

namespace ChainWatch

open Concurrency

variable {fleet rest : Fleet} {replies replies' : Replies} {r : Read} {e e' : Endpoint}

namespace Endpoint

/-- Endpoints, perhaps of different fleets, that answer every question about the chain alike. -/
def Alike (replies replies' : Replies) (e e' : Endpoint) : Prop :=
  ∀ q : ChainRequest, Request.IsRead (.chain e.position q) →
    replies (.chain e.position q) = replies' (.chain e'.position q)

theorem Alike.share?_eq (h : Alike replies replies' e e') (r : Read) :
    e.share? replies r = e'.share? replies' r := by
  have hblock := h .blockNumber trivial
  cases r with
  | blockNumber => exact congrArg Except.toOption hblock
  | view address contract method inputs =>
      have hview : e.viewOutcome address contract method inputs replies =
          e'.viewOutcome address contract method inputs replies' := by
        unfold viewOutcome
        split
        · rfl
        · split
          · rfl
          · rw [h (.call address _) trivial]
      simp only [share?, hview, hblock]
  | proxy address =>
      simp only [share?, slots, h (.storage address _) trivial]

end Endpoint

namespace Fleet

/-- The second fleet is the first one without some endpoints that contribute nothing to the read. Those
that are kept answer as before and in the same order, perhaps at other places. -/
structure Without (fleet rest : Fleet) (replies replies' : Replies) (r : Read)
    (kept : Endpoint → Bool) : Prop where
  silent : ∀ e ∈ fleet.endpoints, kept e = false → e.share? replies r = none
  alike : List.Forall₂ (Endpoint.Alike replies replies') (fleet.endpoints.filter kept)
    rest.endpoints

theorem filterMap_share?_of_alike {endpoints endpoints' : List Endpoint}
    (h : List.Forall₂ (Endpoint.Alike replies replies') endpoints endpoints') :
    endpoints.filterMap (·.share? replies r) = endpoints'.filterMap (·.share? replies' r) := by
  induction h with
  | nil => rfl
  | cons halike _ ih => simp only [List.filterMap_cons, halike.share?_eq r, ih]

theorem Without.shares_eq {kept : Endpoint → Bool}
    (h : fleet.Without rest replies replies' r kept) :
    fleet.shares replies r = rest.shares replies' r := by
  have hkept : (fleet.endpoints.filter kept).filterMap (·.share? replies r) =
      fleet.shares replies r := by
    rw [List.filterMap_filter]
    refine List.filterMap_congr fun e he => ?_
    split
    · rfl
    · rename_i hdropped
      exact (h.silent e he (by simpa using hdropped)).symm
  rw [← hkept]
  exact filterMap_share?_of_alike h.alike

theorem Without.queryAnswer_eq {kept : Endpoint → Bool}
    (h : fleet.Without rest replies replies' r kept) :
    fleet.queryAnswer replies r = rest.queryAnswer replies' r := by
  rw [queryAnswer, queryAnswer, h.shares_eq]

theorem position_le_iff {endpoints : List Endpoint}
    (ho : endpoints.Pairwise fun a b => a.position < b.position) {i j : Nat}
    (hi : i < endpoints.length) (hj : j < endpoints.length) :
    endpoints[i].position ≤ endpoints[j].position ↔ i ≤ j := by
  have hlt := List.pairwise_iff_getElem.mp ho
  rcases Nat.lt_trichotomy i j with h | rfl | h
  · have := hlt i j hi hj h
    omega
  · simp
  · have := hlt j i hj hi h
    omega

/-- The same endpoint decides, also where heights are equal. -/
theorem Without.chooses_iff {kept : Endpoint → Bool}
    (h : fleet.Without rest replies replies' r kept)
    (hp : (e, e') ∈ (fleet.endpoints.filter kept).zip rest.endpoints) (share : r.Share) :
    fleet.Chooses replies r e share ↔ rest.Chooses replies' r e' share := by
  have ordered := fleet.ordered.filter kept
  obtain ⟨hlength, halike⟩ := List.forall₂_iff_get.mp h.alike
  simp only [List.get_eq_getElem] at halike
  obtain ⟨i, hi, heq⟩ := List.mem_iff_getElem.mp hp
  rw [List.getElem_zip] at heq
  obtain ⟨rfl, rfl⟩ := Prod.mk.inj heq
  rw [List.length_zip] at hi
  have hi₁ : i < (fleet.endpoints.filter kept).length := by omega
  have hi₂ : i < rest.endpoints.length := by omega
  have hshare := (halike i hi₁ hi₂).share?_eq r
  constructor
  · rintro ⟨-, hs, hmax⟩
    refine ⟨List.getElem_mem hi₂, hshare ▸ hs, fun f' hf' other ho => ?_⟩
    obtain ⟨j, hj, rfl⟩ := List.mem_iff_getElem.mp hf'
    have hj₁ : j < (fleet.endpoints.filter kept).length := by omega
    rw [← (halike j hj₁ hj).share?_eq r] at ho
    refine (hmax _ (List.mem_of_mem_filter (List.getElem_mem hj₁)) other ho).imp id fun ht =>
      ⟨ht.1, ?_⟩
    exact (position_le_iff rest.ordered hi₂ hj).mpr ((position_le_iff ordered hi₁ hj₁).mp ht.2)
  · rintro ⟨-, hs, hmax⟩
    refine ⟨List.mem_of_mem_filter (List.getElem_mem hi₁), hshare ▸ hs, fun f hf other ho => ?_⟩
    have hkept : kept f = true := by
      by_contra hn
      rw [h.silent f hf (by simpa using hn)] at ho
      cases ho
    obtain ⟨j, hj, rfl⟩ := List.mem_iff_getElem.mp (List.mem_filter.mpr ⟨hf, hkept⟩)
    have hj₂ : j < rest.endpoints.length := by omega
    rw [(halike j hj hj₂).share?_eq r] at ho
    refine (hmax _ (List.getElem_mem hj₂) other ho).imp id fun ht => ⟨ht.1, ?_⟩
    exact (position_le_iff ordered hi₁ hj).mpr ((position_le_iff rest.ordered hi₂ hj₂).mp ht.2)

/-- The height of the chain is the greatest one that an endpoint has answered. -/
theorem queryAnswer_blockNumber_eq_ok_iff {height : Nat} :
    fleet.queryAnswer replies .blockNumber = .ok height ↔
      (∃ e ∈ fleet.endpoints, replies (.chain e.position .blockNumber) = .ok height) ∧
        ∀ e ∈ fleet.endpoints, ∀ other, replies (.chain e.position .blockNumber) = .ok other →
          other ≤ height := by
  have hmem {n : Nat} : n ∈ fleet.shares replies .blockNumber ↔
      ∃ e ∈ fleet.endpoints, replies (.chain e.position .blockNumber) = .ok n := by
    refine List.mem_filterMap.trans (exists_congr fun e => and_congr_right fun _ => ?_)
    unfold Endpoint.share?
    cases replies (.chain e.position .blockNumber) <;> simp [Except.toOption]
  have hmax : fleet.queryAnswer replies .blockNumber = .ok height ↔
      (fleet.shares replies .blockNumber).max? = some height := by
    rw [queryAnswer_blockNumber]
    cases (fleet.shares replies .blockNumber).max? <;> simp
  rw [hmax, List.max?_eq_some_iff, hmem]
  refine and_congr_right fun _ => ?_
  simp only [hmem]
  constructor
  · intro h e he other ho
    exact h other ⟨e, he, ho⟩
  · rintro h n ⟨e, he, hn⟩
    exact h e he n hn

/-- The first endpoint tells that has an answer for both slots. -/
theorem queryAnswer_proxy_eq_ok_iff {address : Address} {info : ProxyInfo} :
    fleet.queryAnswer replies (.proxy address) = .ok info ↔
      ∃ before e after, fleet.endpoints = before ++ e :: after ∧
        e.slots address replies = some info ∧ ∀ e' ∈ before, e'.slots address replies = none := by
  have hfound : fleet.queryAnswer replies (.proxy address) = .ok info ↔
      (fleet.endpoints.findSome? fun e => e.slots address replies) = some info := by
    rw [queryAnswer_proxy]
    cases fleet.endpoints.findSome? fun e => e.slots address replies <;> simp
  rw [hfound, List.findSome?_eq_some_iff]

/-- Where answers do not depend on when they are asked for, a read comes to what the table of answers
says, and a fleet without some of the endpoints that fail it comes to the same. -/
theorem query_ignores_failed (fleet : Fleet) (r : Read) (replies : Replies) :
    (∀ {σ : Type} (h : Handler system σ) (valid : σ → Prop) (now : Nat) (w : World system σ),
      h.Quotes Request.IsRead replies valid → valid w.outside → w.memory.start ≠ .running →
      ∃ result trace, ((fleet.query r).run.run h now w).value? = some result ∧
        (fleet.query r).run.Runs trace (some result) ∧ trace.Quotes Request.IsRead replies) ∧
    (∀ trace result, (fleet.query r).run.Runs trace (some result) →
      trace.Quotes Request.IsRead replies →
      (∀ v, result = .ok v ↔ ∃ e share, fleet.Chooses replies r e share ∧ v = r.value share) ∧
      (∀ fault, result = .error fault ↔
        fault = r.fault ∧ ∀ e ∈ fleet.endpoints, e.share? replies r = none) ∧
      ∀ (rest : Fleet) (kept : Endpoint → Bool) (replies' : Replies),
        fleet.Without rest replies replies' r kept →
        (∀ trace' result', (rest.query r).run.Runs trace' (some result') →
          trace'.Quotes Request.IsRead replies' → result' = result) ∧
        ∀ e e', (e, e') ∈ (fleet.endpoints.filter kept).zip rest.endpoints → ∀ share,
          fleet.Chooses replies r e share ↔ rest.Chooses replies' r e' share) ∧
    (∀ trace result, fleet.blockNumber.run.Runs trace (some result) →
      trace.Quotes Request.IsRead replies → ∀ height, result = .ok height ↔
        (∃ e ∈ fleet.endpoints, replies (.chain e.position .blockNumber) = .ok height) ∧
          ∀ e ∈ fleet.endpoints, ∀ other, replies (.chain e.position .blockNumber) = .ok other →
            other ≤ height) ∧
    ∀ address trace result, (fleet.proxyInfo address).run.Runs trace (some result) →
      trace.Quotes Request.IsRead replies → ∀ info, result = .ok info ↔
        ∃ before e after, fleet.endpoints = before ++ e :: after ∧
          e.slots address replies = some info ∧ ∀ e' ∈ before, e'.slots address replies = none := by
  refine ⟨fun h valid now w hq hv hs => ?_, fun trace result hr hq => ?_,
    fun trace result hr hq height => ?_, fun address trace result hr hq info => ?_⟩
  · obtain ⟨result, hvalue⟩ := exists_value_of_query fleet r h now w hs
    obtain ⟨trace, hr, hl⟩ := Activity.exists_trace_of_run h now (fleet.query r).run w
    exact ⟨result, trace, hvalue, hvalue ▸ hr, hq.trace hv hl.2⟩
  · rw [eq_queryAnswer_of_runs hr hq]
    refine ⟨fun _ => queryAnswer_eq_ok_iff, fun _ => queryAnswer_eq_error_iff,
      fun rest kept replies' hw => ⟨fun trace' result' hr' hq' => ?_, fun e e' => hw.chooses_iff⟩⟩
    rw [eq_queryAnswer_of_runs hr' hq', hw.queryAnswer_eq]
  · rw [eq_queryAnswer_of_runs (r := .blockNumber) hr hq]
    exact queryAnswer_blockNumber_eq_ok_iff
  · rw [eq_queryAnswer_of_runs (r := .proxy address) hr hq]
    exact queryAnswer_proxy_eq_ok_iff

/-- All nodes are at the same height. Those before the first place given fail calls, the one at that
place answers that the switch is on, and those behind it that it is off. -/
def divided (first : Nat) : Replies
  | .chain _ .blockNumber => .ok 7
  | .chain position (.call _ _) =>
    if position < first then .error .exchange
    else .ok (List.replicate 31 0 ++ [if position = first then 1 else 0])
  | .chain _ (.storage _ _) => .ok 0
  | .chain _ (.reset _) => .ok ()
  | .container _ _ => .error .unavailable
  | .explore _ => .unreachable
  | .deliver _ => .ok ()
  | .enqueue _ => .ok ()

set_option maxRecDepth 4000 in
theorem query_of_trio_without_first :
    trio.Without pair (divided 1) (divided 0) (.view .zero switch "on" []) (·.position != 0) ∧
    ∃ trace trace',
      (trio.query (.view .zero switch "on" [])).run.Runs trace (some (.ok [.bool true])) ∧
        trace.Quotes Request.IsRead (divided 1) ∧
      (pair.query (.view .zero switch "on" [])).run.Runs trace' (some (.ok [.bool true])) ∧
        trace'.Quotes Request.IsRead (divided 0) := by
  have without : trio.Without pair (divided 1) (divided 0) (.view .zero switch "on" [])
      (·.position != 0) := by
    have alike (i : Nat) {e e' : Endpoint} (he : e.position = i + 1) (he' : e'.position = i) :
        Endpoint.Alike (divided 1) (divided 0) e e' := by
      intro q hq
      rw [he, he']
      cases q <;> simp [divided]
    refine ⟨fun e he hk => ?_, .cons (alike 0 rfl rfl) (.cons (alike 1 rfl rfl) .nil)⟩
    have hfirst : e.position = 0 := by simpa using hk
    rw [Endpoint.share?, Endpoint.viewOutcome]
    rw [hfirst]
    rfl
  have chosen : trio.Chooses (divided 1) (.view .zero switch "on" [])
      ⟨1, "second", .unmanaged, ⟨1, 0, 0⟩⟩ ([.bool true], 7) := by
    refine ⟨by simp [trio], rfl, fun e' he' ⟨outputs, height⟩ ho => ?_⟩
    have hheight := (Endpoint.share?_view_eq_some_iff.mp ho).2
    rcases Nat.eq_zero_or_pos e'.position with hfirst | hlater
    · rw [Endpoint.share?, Endpoint.viewOutcome, hfirst] at ho
      cases ho
    · exact .inr ⟨(Except.ok.inj hheight).symm, hlater⟩
  obtain ⟨ends, described, -, -⟩ :=
    query_ignores_failed trio (.view .zero switch "on" []) (divided 1)
  obtain ⟨ends', -, -, -⟩ :=
    query_ignores_failed pair (.view .zero switch "on" []) (divided 0)
  obtain ⟨result, trace, -, hr, hq⟩ := ends (.ofReplies (fun _ => 3) (divided 1)) _ 0
    ⟨.initial "" .empty, ()⟩ (Handler.quotes_ofReplies _ _ _) trivial (by decide)
  obtain ⟨result', trace', -, hr', hq'⟩ := ends' (.ofReplies (fun _ => 0) (divided 0)) _ 0
    ⟨.initial "" .empty, ()⟩ (Handler.quotes_ofReplies _ _ _) trivial (by decide)
  obtain ⟨answers, -, drops⟩ := described trace result hr hq
  obtain rfl : result = .ok [.bool true] := (answers _).mpr ⟨_, _, chosen, rfl⟩
  obtain rfl := (drops pair _ _ without).1 trace' result' hr' hq'
  exact ⟨without, trace, trace', hr, hq, hr', hq'⟩

end Fleet

end ChainWatch
