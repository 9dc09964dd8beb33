import ChainWatch.Proofs.Concurrency.Past
import ChainWatch.Proofs.Fleet.Recovery
import ChainWatch.Proofs.Fleet.ViewCall

/-!
# Verdicts on an endpoint

Several operations may be under way with one endpoint. What an operation finds out about the endpoint by
an answer is a verdict. The next thing the operation does is to set the flag to it, and otherwise it
leaves the flag alone. An operation that has ended has nothing left to say, and how it has ended tells
what it has said last (`Endpoint.Leaves`).
-/

namespace ChainWatch

open Concurrency

namespace Endpoint

/-- What can be done with a single endpoint. -/
inductive Operation where
  | blockNumber
  | view (address : Address) (contract : Abi.Contract) (method : String) (inputs : List Abi.Value)
  | proxy (address : Address)
  | start
  | stop
  | reset (source : String)
  | recover

/-- Do something with the endpoint. Whether it fails is kept, and a value is dropped. -/
def perform (e : Endpoint) : Operation → NodeJob Unit
  | .blockNumber => do
    let _ ← e.blockNumber
    return
  | .view address contract method inputs => do
    let _ ← e.callView address contract method inputs
    return
  | .proxy address => do
    let _ ← e.proxyInfo address
    return
  | .start => e.start
  | .stop => e.stop
  | .reset source => e.reset source
  | .recover => e.recover

theorem run_bind_pure {α β : Type} {x : NodeJob α} {f : α → β} :
    (x >>= fun value => pure (f value)).run = x.run >>= fun outcome => pure (outcome.map f) := by
  simp only [bind_pure_comp, ExceptT.run_map]

/-- A proxy read has two halves, and nothing comes after them. -/
theorem run_perform_proxy (e : Endpoint) (address : Address) :
    (e.perform (.proxy address)).run = (do
      let words ← Activity.tryBoth (e.implementationWord address .eip1967).run
        (e.implementationWord address .legacy).run
      return words.map fun _ => ()) := by
  show (e.proxyInfo address >>= fun _ => pure () : NodeJob Unit).run = _
  unfold proxyInfo
  simp only [bind_pure_comp, ExceptT.run_map, Functor.map_map]
  rfl

def performAll (e : Endpoint) (operations : List Operation) : Job (List (Except NodeFault Unit)) :=
  Activity.joinAll (operations.map fun operation => (e.perform operation).run)

/-! ## Verdicts -/

namespace Operation

def recovers : Operation → Bool
  | .recover => true
  | _ => false

/-- Whether a container that is stopped now is stopped for good. Bringing one up may stop an old one on
the way; a recovery first stops the container for good. -/
def shutsDown : Operation → Trace system → Bool
  | .stop, _ => true
  | .recover, past => past.all fun
    | .answered (.container _ _) _ => false
    | _ => true
  | _, _ => false

/-- What the operation has just found out about its endpoint, by what it has done so far. The latest
event comes first. -/
def verdict? (operation : Operation) : Trace system → Option Bool
  -- a refused reset says nothing, any other answer of the node tells whether it is well
  | .answered (.chain _ (.reset _)) _ :: _ => none
  | .answered (.chain _ _) answer :: _ => some answer.isOk
  -- a container that was stopped for good is gone, and a fault in bringing one up is the endpoint's
  | .answered (.container _ _) answer :: past =>
    if operation.shutsDown past then
      if answer.isOk then some false else none
    else if answer.isOk then none else some false
  -- the node of a recovered endpoint has answered, which was marked already
  | .touched _ _ :: .answered (.chain _ .blockNumber) (.ok _) :: _ =>
    if operation.recovers then some true else none
  | _ => none

/-- What the operation has last set the flag to, by what it has done so far. -/
def told? (operation : Operation) : Trace system → Option Bool
  | [] => none
  | _ :: past => (operation.verdict? past).or (operation.told? past)

end Operation

/-- An event, and the verdict that comes with it. -/
abbrev Noted := Event system × Option Bool

/-- Note down after which verdict each event of an operation has happened. -/
def Operation.noted (operation : Operation) : (past : Trace system) → Trace system → List Noted
  | _, [] => []
  | past, event :: rest =>
    (event, operation.verdict? past) :: operation.noted (event :: past) rest

def latest? (noted : List Noted) : Option Bool :=
  (noted.filterMap (·.2)).getLast?

/-- The flag is set to the verdict, and it is left alone when there is none. -/
def Sound (e : Endpoint) : Noted → Prop
  | (.touched before after, none) => after = before
  | (.touched before after, some verdict) => after = before.mark e.position verdict
  | (_, verdict) => verdict = none

variable {e : Endpoint} {operation : Operation} {past trace : Trace system} {x y : Bool}

theorem map_noted : (operation.noted past trace).map (·.1) = trace := by
  induction trace generalizing past with
  | nil => rfl
  | cons event trace ih => simp [Operation.noted, ih]

theorem latest?_cons (n : Noted) (noted : List Noted) :
    latest? (n :: noted) = (latest? noted).or n.2 := by
  obtain ⟨event, verdict⟩ := n
  cases verdict with
  | none => simp [latest?]
  | some verdict => cases h : (noted.filterMap (·.2)).getLast? <;> simp [latest?, List.getLast?_cons, h]

theorem latest?_noted : (latest? (operation.noted past trace)).or (operation.told? past) =
    operation.told? (trace.reverse ++ past) := by
  induction trace generalizing past with
  | nil => rfl
  | cons event trace ih =>
      rw [Operation.noted, latest?_cons, Option.or_assoc, List.reverse_cons, List.append_assoc]
      exact ih

/-- After events that are sound, the flag is the latest verdict. -/
theorem flag_of_sound {noted : List Noted} (hs : ∀ n ∈ noted, e.Sound n)
    (hf : Trace.Follows e.flag (noted.map (·.1)) x y) : y = (latest? noted).getD x := by
  induction noted generalizing x with
  | nil => exact hf
  | cons n noted ih =>
      obtain ⟨event, verdict⟩ := n
      have hsound : e.Sound (event, verdict) := hs _ (by simp)
      have hrest : ∀ n ∈ noted, e.Sound n := fun n hn => hs n (by simp [hn])
      have silent (hv : verdict = none) : latest? ((event, verdict) :: noted) = latest? noted := by
        simp [latest?_cons, hv]
      cases event with
      | sent | answered =>
          rw [silent hsound]
          exact ih hrest hf
      | noticed =>
          rw [silent hsound]
          exact ih hrest hf.2
      | touched before after =>
          obtain ⟨hbefore, hf⟩ := hf
          cases verdict with
          | none =>
              obtain rfl : after = before := hsound
              rw [silent rfl, ← hbefore]
              exact ih hrest hf
          | some verdict =>
              obtain rfl : after = before.mark e.position verdict := hsound
              rw [flag_mark] at hf
              rw [ih hrest hf, latest?_cons]
              cases latest? noted <;> rfl

/-! ## Operations give sound verdicts -/

/-- After what the operation has done, the event is sound. -/
def Fits (e : Endpoint) (operation : Operation) (past : Trace system) (event : Event system) :
    Prop :=
  e.Sound (event, operation.verdict? past)

theorem sound_of_fits (h : Trace.Fits (e.Fits operation) past trace) :
    ∀ n ∈ operation.noted past trace, e.Sound n := by
  induction trace generalizing past with
  | nil => simp [Operation.noted]
  | cons event trace ih =>
      rw [Operation.noted, List.forall_mem_cons]
      exact ⟨h.1, ih h.2⟩

namespace Operation

variable {event : Event system} {m m' : State} {p : Nat}

theorem shutsDown_cons (h : operation.shutsDown past = false) :
    operation.shutsDown (event :: past) = false := by
  cases operation with
  | recover => simp_all [shutsDown]
  | stop => cases h
  | _ => rfl

theorem shutsDown_answered {r : ContainerRequest} {answer : Except ContainerFault r.Value}
    (h : operation ≠ .stop) :
    operation.shutsDown (.answered (.container p r) answer :: past) = false := by
  cases operation with
  | stop => exact (h rfl).elim
  | _ => rfl

theorem verdict?_chain {r : ChainRequest} (hr : ∀ source, r ≠ .reset source)
    {answer : Except NodeFault r.Value} :
    operation.verdict? (.answered (.chain p r) answer :: past) = some answer.isOk := by
  cases r with
  | reset source => exact (hr source rfl).elim
  | _ => rfl

theorem verdict?_container {r : ContainerRequest} {answer : Except ContainerFault r.Value} :
    operation.verdict? (.answered (.container p r) answer :: past) =
      if operation.shutsDown past then
        if answer.isOk then some false else none
      else if answer.isOk then none else some false := rfl

end Operation

/-- The operation has said whether the endpoint is well. There is nothing more to say, unless it recovers
the endpoint and has heard from the node. -/
structure Tells (operation : Operation) (well : Bool) (past : Trace system) : Prop where
  told : operation.told? past = some well
  verdict : operation.verdict? past = if operation.recovers && well then some true else none
  silent : ∀ m m', operation.verdict? (.touched m m' :: past) = none

theorem tells_height {answer : Except NodeFault Nat} {m m' : State} {p : Nat} :
    Tells operation answer.isOk
      (.touched m m' :: .answered (.chain p .blockNumber) answer :: past) := by
  cases answer with
  | error fault =>
      exact ⟨rfl, by simp [Operation.verdict?, Except.isOk, Except.toBool], fun _ _ => rfl⟩
  | ok height =>
      exact ⟨rfl, by simp [Operation.verdict?, Except.isOk, Except.toBool], fun _ _ => rfl⟩

section Heeds

variable (hv : operation.verdict? past = none)
include hv

theorem heeds_ask {r : ChainRequest} (hr : ∀ source, r ≠ .reset source)
    {post : Except NodeFault r.Value → Trace system → Prop}
    (hp : ∀ answer m, post answer (.touched m (m.mark e.position answer.isOk) ::
      .answered (.chain e.position r) answer :: .sent (.chain e.position r) :: past)) :
    (e.ask r).run.Heeds (e.Fits operation) post past := by
  refine ⟨hv, fun answer => ⟨rfl, fun _ m => ⟨?_, hp answer m⟩⟩⟩
  unfold Fits
  rw [Operation.verdict?_chain hr]
  rfl

theorem heeds_engine {r : ContainerRequest}
    {post : Except NodeFault r.Value → Trace system → Prop}
    (hp : ∀ answer, post (answer.mapError lifecycle)
      (.answered (.container e.position r) answer :: .sent (.container e.position r) :: past)) :
    (e.engine r).run.Heeds (e.Fits operation) post past :=
  ⟨hv, fun answer => ⟨rfl, hp answer⟩⟩

theorem heeds_blockNumber :
    e.blockNumber.run.Heeds (e.Fits operation) (fun outcome => Tells operation outcome.isOk) past :=
  heeds_ask hv (by simp) fun _ _ => tells_height

theorem heeds_answersWithin {attempts : Nat} (hpos : 0 < attempts) :
    (e.answersWithin attempts).Heeds (e.Fits operation) (Tells operation) past := by
  induction attempts generalizing past with
  | zero => omega
  | succ attempts ih =>
      refine ((heeds_blockNumber hv).mono fun answer past told => ?_).bind
      cases answer with
      | ok height => exact told
      | error fault =>
          dsimp only
          split
          · exact told
          · rename_i hmore
            refine Activity.Heeds.bind (ih ?_ (by omega))
            simpa [Except.isOk, Except.toBool] using told.verdict

theorem heeds_awaitReady :
    e.awaitReady.run.Heeds (e.Fits operation) (fun outcome => Tells operation outcome.isOk) past := by
  refine heeds_exceptT_bind (heeds_lift
    ((heeds_answersWithin hv (by omega)).mono fun ready past told => ?_))
  cases ready with
  | true => exact told
  | false => exact told

end Heeds

/-- While a container is brought up, a fault of its engine is a verdict. -/
structure Building (operation : Operation) (well : Bool) (past : Trace system) : Prop where
  shutsDown : operation.shutsDown past = false
  verdict : operation.verdict? past = if well then none else some false
  silent : ∀ m m', operation.verdict? (.touched m m' :: past) = none

theorem heeds_build {r : ContainerRequest} (hv : operation.verdict? past = none)
    (hs : operation.shutsDown past = false) :
    (e.engine r).run.Heeds (e.Fits operation) (fun outcome => Building operation outcome.isOk)
      past := by
  refine heeds_engine hv fun answer => ?_
  have hsent : operation.shutsDown (.sent (.container e.position r) :: past) = false :=
    Operation.shutsDown_cons hs
  refine ⟨Operation.shutsDown_cons hsent, ?_, fun _ _ => rfl⟩
  rw [Operation.verdict?_container, hsent]
  cases answer <;> rfl

theorem heeds_ensureContainer (hv : operation.verdict? past = none)
    (hs : operation.shutsDown past = false) (c : Container) :
    (e.ensureContainer c).run.Heeds (e.Fits operation)
      (fun outcome => Building operation outcome.isOk) past := by
  have asked {past : Trace system} (r : ContainerRequest) (h : Building operation true past) :
      (e.engine r).run.Heeds (e.Fits operation) (fun outcome => Building operation outcome.isOk)
        past := heeds_build h.verdict h.shutsDown
  refine heeds_exceptT_bind ((heeds_build hv hs).mono fun present past hpresent => ?_)
  cases present with
  | error fault => exact hpresent
  | ok present =>
      cases present with
      | false => exact asked (.start c) hpresent
      | true =>
          refine heeds_exceptT_bind ((asked _ hpresent).mono fun fitting past hfitting => ?_)
          cases fitting with
          | error fault => exact hfitting
          | ok fitting =>
              cases fitting with
              | true => exact hfitting
              | false =>
                  refine heeds_exceptT_bind
                    ((asked (.stop c.name) hfitting).mono fun stopped past hstopped => ?_)
                  cases stopped with
                  | error fault => exact hstopped
                  | ok u => exact asked (.start c) hstopped

theorem heeds_mark {healthy : Bool} {post : Unit → Trace system → Prop}
    (hv : operation.verdict? past = some healthy)
    (hp : ∀ m, post () (.touched m (m.mark e.position healthy) :: past)) :
    (e.mark healthy).Heeds (e.Fits operation) post past := by
  refine fun _ m => ⟨?_, hp m⟩
  unfold Fits
  rw [hv]
  rfl

/-- What the operation finds out and notes at once is what it has said last. -/
theorem told?_of_verdict {event : Event system} {verdict : Bool}
    (hv : operation.verdict? past = some verdict) :
    operation.told? (event :: past) = some verdict := by
  rw [Operation.told?, hv]
  rfl

theorem heeds_start {c : Container} (hm : e.role = .managed c)
    (hv : operation.verdict? past = none) (hs : operation.shutsDown past = false) :
    e.start.run.Heeds (e.Fits operation) (fun outcome => Tells operation outcome.isOk) past := by
  unfold start
  rw [hm]
  refine heeds_exceptT_bind (heeds_tryCatch
    ((heeds_ensureContainer hv hs c).mono fun built past hbuilt => ?_))
  cases built with
  | ok u => exact heeds_awaitReady hbuilt.verdict
  | error fault =>
      refine heeds_exceptT_bind (heeds_lift (heeds_mark hbuilt.verdict fun m => ?_))
      refine ⟨told?_of_verdict hbuilt.verdict, ?_, fun _ _ => rfl⟩
      simpa [Except.isOk, Except.toBool] using hbuilt.silent m _

/-- A stop that went well has taken the flag down, and one that failed has left it alone. A container that
was stopped for good is told of at once, and what comes then brings it up. -/
structure Halts (e : Endpoint) (operation : Operation) (before : Trace system) (well : Bool)
    (past : Trace system) : Prop where
  verdict : operation.verdict? past = none
  shutsDown : operation ≠ .stop → operation.shutsDown past = false
  told : operation.told? past = if well then some false else operation.told? before
  failed : well = false → ∃ name fault,
    .answered (.container e.position (.stop name)) (.error fault) ∈ past

theorem heeds_stop {c : Container} (hm : e.role = .managed c)
    (hv : operation.verdict? past = none) (hs : operation.shutsDown past = true) :
    e.stop.run.Heeds (e.Fits operation) (fun outcome => e.Halts operation past outcome.isOk) past := by
  have hsent : operation.shutsDown (.sent (.container e.position (.stop c.name)) :: past) = true := by
    cases operation with
    | recover => simpa [Operation.shutsDown] using hs
    | stop => rfl
    | _ => cases hs
  unfold stop
  rw [hm]
  refine heeds_exceptT_bind (heeds_engine (r := .stop c.name) hv fun answer => ?_)
  cases answer with
  | error fault =>
      refine ⟨?_, fun h => Operation.shutsDown_answered h, ?_, fun _ => ⟨c.name, fault, by simp⟩⟩
      · rw [Operation.verdict?_container, hsent]
        rfl
      · show (Option.or none ((operation.verdict? past).or (operation.told? past))) = _
        rw [hv]
        rfl
  | ok u =>
      have hdown : operation.verdict? (.answered (.container e.position (.stop c.name)) (.ok u) ::
          .sent (.container e.position (.stop c.name)) :: past) = some false := by
        rw [Operation.verdict?_container, hsent]
        rfl
      refine heeds_lift (heeds_mark hdown fun m => ⟨rfl, fun h => ?_, told?_of_verdict hdown, nofun⟩)
      exact Operation.shutsDown_cons (Operation.shutsDown_answered h)

/-! ## How operations end -/

/-- There is nothing left to say, and the operation has last said how it has ended: it has taken the flag
up, or down unless already the stop has failed. -/
structure Revives (e : Endpoint) (well : Bool) (past : Trace system) : Prop where
  verdict : Operation.recover.verdict? past = none
  succeeded : well = true → Operation.recover.told? past = some true
  failed : well = false → Operation.recover.told? past = some false ∨
    Operation.recover.told? past = none ∧ ∃ name fault,
      .answered (.container e.position (.stop name)) (.error fault) ∈ past

theorem Tells.revives (h : Tells .recover false past) : e.Revives false past :=
  ⟨h.verdict, nofun, fun _ => .inl h.told⟩

theorem heeds_revived (h : Tells .recover true past) :
    (liftM (e.mark true) : NodeJob Unit).run.Heeds (e.Fits .recover)
      (fun outcome => e.Revives outcome.isOk) past :=
  heeds_lift (heeds_mark h.verdict fun _ => ⟨h.silent _ _, fun _ => told?_of_verdict h.verdict, nofun⟩)

theorem heeds_revive (found : State) :
    e.revive.run.Heeds (e.Fits .recover) (fun outcome => e.Revives outcome.isOk)
      [.touched found found] := by
  unfold revive
  split
  · rename_i c hrole
    refine heeds_exceptT_bind ((heeds_stop hrole rfl rfl).mono fun stopped past hstopped => ?_)
    cases stopped with
    | error fault => exact ⟨hstopped.verdict, nofun, fun _ => .inr ⟨hstopped.told, hstopped.failed rfl⟩⟩
    | ok u =>
        have starts := heeds_start (e := e) hrole hstopped.verdict (hstopped.shutsDown nofun)
        refine heeds_exceptT_bind (starts.mono fun started past told => ?_)
        cases started with
        | error fault => exact told.revives
        | ok u => exact heeds_revived told
  · have asks : e.blockNumber.run.Heeds (e.Fits .recover)
        (fun outcome => Tells .recover outcome.isOk) [.touched found found] := heeds_blockNumber rfl
    have probes : (do
        let _ ← e.blockNumber
        e.mark true : NodeJob Unit).run.Heeds (e.Fits .recover)
        (fun outcome => e.Revives outcome.isOk) [.touched found found] := by
      refine heeds_exceptT_bind (asks.mono fun answer past told => ?_)
      cases answer with
      | error fault => exact told.revives
      | ok height => exact heeds_revived told
    exact probes

/-- How an operation that has ended has left the flag. -/
def Leaves (e : Endpoint) (noted : List Noted) (outcome : Except NodeFault Unit) : Operation → Prop
  | .blockNumber => latest? noted = some outcome.isOk
  -- without a question there is no verdict; an answer that cannot be decoded is an answer
  | .view address contract method inputs =>
    (∃ fault, contract.Prepares method inputs (.error fault) ∧ outcome = .error fault ∧
      latest? noted = none) ∨
    ∃ f data answer values healthy, contract.Prepares method inputs (.ok (f, data)) ∧
      .answered (.chain e.position (.call address data)) answer ∈ noted.map (·.1) ∧
      Settles f method answer values healthy ∧ outcome = values.map (fun _ => ()) ∧
      latest? noted = some healthy
  | .proxy _ =>
    if outcome.isOk then latest? noted = some true else some false ∈ noted.map (·.2)
  | .start => latest? noted = if e.role.isManaged then some outcome.isOk else none
  | .stop => latest? noted = if e.role.isManaged && outcome.isOk then some false else none
  -- a source that was refused says nothing of the node
  | .reset source =>
    if e.role.isManaged then
      ∃ answer waiting, noted.map (·.1) = .sent (.chain e.position (.reset source)) ::
          .answered (.chain e.position (.reset source)) answer :: waiting ∧
        latest? noted = if answer.isOk then some outcome.isOk else none
    else latest? noted = none
  | .recover => ∃ found, (noted.map (·.1)).head? = some (.touched found found) ∧
    if found.isHealthy e.position then outcome = .ok () ∧ latest? noted = none
    else if outcome.isOk then latest? noted = some true
    else latest? noted = some false ∨ latest? noted = none ∧ ∃ name fault,
      .answered (.container e.position (.stop name)) (.error fault) ∈ noted.map (·.1)

/-- The operation has nothing left to say, and it has left the flag as it should. -/
structure Concludes (e : Endpoint) (operation : Operation) (outcome : Except NodeFault Unit)
    (past : Trace system) : Prop where
  verdict : operation.verdict? past = none
  leaves : e.Leaves (operation.noted [] past.reverse) outcome operation

@[simp] theorem latest?_noted_reverse :
    latest? (operation.noted [] past.reverse) = operation.told? past := by
  have h : (latest? (operation.noted [] past.reverse)).or (operation.told? []) = _ := latest?_noted
  rwa [Operation.told?, Option.or_none, List.reverse_reverse, List.append_nil] at h

theorem heeds_callView {address : Address} {contract : Abi.Contract} {method : String}
    {inputs : List Abi.Value} :
    (e.callView address contract method inputs).run.Heeds
      (e.Fits (.view address contract method inputs))
      (fun values => e.Concludes (.view address contract method inputs) (values.map fun _ => ()))
      [] := by
  obtain ⟨plan, hplan⟩ : ∃ plan, contract.Prepares method inputs plan :=
    ⟨_, Abi.Contract.prepares_iff.mpr rfl⟩
  cases plan with
  | error fault =>
      rw [callView_of_refused hplan]
      exact ⟨rfl, .inl ⟨fault, hplan, rfl, rfl⟩⟩
  | ok call =>
      obtain ⟨f, data⟩ := call
      obtain ⟨hf, hd⟩ := overload?_of_ready hplan
      have concluded (answer : Except NodeFault Bytes) (m : State) :
          e.Concludes (.view address contract method inputs)
            ((decoded f method answer).map fun _ => ())
            [.touched m (m.mark e.position answer.isOk),
              .answered (.chain e.position (.call address data)) answer,
              .sent (.chain e.position (.call address data))] := by
        refine ⟨rfl, .inr ⟨f, data, answer, _, _, hplan, ?_, settles_iff.mpr ⟨rfl, rfl⟩, rfl, ?_⟩⟩
        · simp [map_noted]
        · rw [latest?_noted_reverse, told?_of_verdict (Operation.verdict?_chain (by simp))]
      unfold callView
      rw [hf]
      dsimp only
      rw [hd]
      dsimp only
      refine heeds_exceptT_bind (heeds_ask rfl (by simp) fun answer m => ?_)
      cases answer with
      | error fault => exact concluded (.error fault) m
      | ok answer =>
          have h := concluded (.ok answer) m
          unfold decoded at h
          dsimp only at h ⊢
          cases hdecoded : f.decodeAnswer? answer with
          | none =>
              rw [hdecoded] at h
              exact h
          | some outputs =>
              rw [hdecoded] at h
              exact h

theorem Tells.concludes {well : Bool} {outcome : Except NodeFault Unit} (h : Tells operation well past)
    (hr : operation.recovers = false)
    (hl : operation.told? past = some well →
      e.Leaves (operation.noted [] past.reverse) outcome operation) :
    e.Concludes operation outcome past :=
  ⟨by simpa [hr] using h.verdict, hl h.told⟩

theorem heeds_reset {source : String} :
    (e.reset source).run.Heeds (e.Fits (.reset source)) (e.Concludes (.reset source)) [] := by
  unfold reset
  split
  · rename_i hrole
    refine ⟨rfl, ?_⟩
    simp [Leaves, hrole, NodeRole.isManaged, Operation.noted, latest?]
  · rename_i c hrole
    refine heeds_exceptT_bind ⟨rfl, fun answer => ⟨rfl, ?_⟩⟩
    have left {outcome : Except NodeFault Unit} {past : Trace system}
        (hpast : [.answered (.chain e.position (.reset source)) answer,
          .sent (.chain e.position (.reset source))] <:+ past)
        (hl : (Operation.reset source).told? past = if answer.isOk then some outcome.isOk else none) :
        e.Leaves ((Operation.reset source).noted [] past.reverse) outcome (.reset source) := by
      obtain ⟨later, rfl⟩ := hpast
      simp only [Leaves, hrole, NodeRole.isManaged, if_true, latest?_noted_reverse, map_noted]
      exact ⟨answer, later.reverse, by simp, hl⟩
    cases answer with
    | error fault => exact ⟨rfl, left (List.suffix_refl _) rfl⟩
    | ok u =>
        refine (heeds_awaitReady rfl).grows.mono fun outcome past h => ?_
        exact h.2.concludes rfl fun told => left h.1 told

theorem heeds_recover : e.recover.run.Heeds (e.Fits .recover) (e.Concludes .recover) [] := by
  rw [recover_eq]
  refine heeds_exceptT_bind (heeds_lift (Activity.heeds_memory fun found => ⟨rfl, ?_⟩))
  dsimp only
  split
  · rename_i hup
    exact ⟨rfl, found, rfl, by rw [if_pos hup]; exact ⟨rfl, rfl⟩⟩
  · rename_i hdown
    refine (heeds_revive found).grows.mono fun outcome past h => ?_
    obtain ⟨⟨later, rfl⟩, hrevives⟩ := h
    refine ⟨hrevives.verdict, found, by simp [map_noted], ?_⟩
    rw [if_neg hdown]
    cases hok : outcome.isOk with
    | true =>
        rw [if_pos rfl, latest?_noted_reverse]
        exact hrevives.succeeded hok
    | false =>
        rw [if_neg Bool.false_ne_true, latest?_noted_reverse, map_noted]
        simpa using hrevives.failed hok

/-- Each operation but the one with two halves does only what fits its verdicts, and concludes. -/
theorem heeds_perform (h : ∀ address, operation ≠ .proxy address) :
    (e.perform operation).run.Heeds (e.Fits operation) (e.Concludes operation) [] := by
  cases operation with
  | blockNumber =>
      show (e.blockNumber >>= fun _ => pure () : NodeJob Unit).run.Heeds _ _ _
      rw [run_bind_pure]
      refine ((heeds_blockNumber rfl).mono fun answer past told => ?_).bind
      refine told.concludes rfl fun h => ?_
      cases answer <;> simp [Leaves, h, Except.map, Except.isOk, Except.toBool]
  | view address contract method inputs =>
      show (e.callView address contract method inputs >>= fun _ => pure () : NodeJob Unit).run.Heeds
        _ _ _
      rw [run_bind_pure]
      exact heeds_callView.bind
  | proxy address => exact (h address rfl).elim
  | start =>
      show e.start.run.Heeds _ _ _
      cases hrole : e.role with
      | unmanaged =>
          unfold start
          rw [hrole]
          refine ⟨rfl, ?_⟩
          simp [Leaves, hrole, NodeRole.isManaged, Operation.noted, latest?]
      | managed c =>
          refine (heeds_start hrole rfl rfl).mono fun outcome past told => ?_
          exact told.concludes rfl fun h => by simp [Leaves, h, hrole, NodeRole.isManaged]
  | stop =>
      show e.stop.run.Heeds _ _ _
      cases hrole : e.role with
      | unmanaged =>
          unfold stop
          rw [hrole]
          refine ⟨rfl, ?_⟩
          simp [Leaves, hrole, NodeRole.isManaged, Operation.noted, latest?]
      | managed c =>
          refine (heeds_stop hrole rfl rfl).mono fun outcome past halts => ⟨halts.verdict, ?_⟩
          have told := halts.told
          simpa [Leaves, hrole, NodeRole.isManaged, Operation.told?] using told
  | reset source => exact heeds_reset
  | recover => exact heeds_recover

/-- A half that has been answered has told so. -/
theorem heeds_half {address : Address} {slot : ImplementationSlot} :
    (e.implementationWord address slot).run.Heeds (e.Fits (.proxy address))
      (fun answer => Tells (.proxy address) answer.isOk) [] :=
  heeds_ask (r := .storage address slot.key) rfl (by simp) fun _ _ =>
    ⟨told?_of_verdict (Operation.verdict?_chain (by simp)), rfl, fun _ _ => rfl⟩

end Endpoint

end ChainWatch
