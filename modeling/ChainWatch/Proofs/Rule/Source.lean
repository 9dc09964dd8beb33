import ChainWatch.Proofs.Fleet.Failover
import ChainWatch.Proofs.Rule.Loading
import ChainWatch.Proofs.Text.Notation

/-!
# Where an interface is looked up

The first endpoint that answers for both slots of a contract settles at which address the interface is
looked up (`Fleet.Sources`); no other endpoint has a say. The lookup may be made in any repository: it
is asked for that one address and for no other, and not at all when no endpoint answers for both slots.
-/

namespace ChainWatch

open Concurrency

/-! ## Low bytes -/

namespace Bytes

theorem ofNat_mod (size n : Nat) : ofNat size (n % Nat.pow 256 size) = ofNat size n := by
  induction size generalizing n with
  | zero => rfl
  | succ size ih =>
      have hp : Nat.pow 256 (size + 1) = 256 * Nat.pow 256 size := Nat.pow_succ'
      have last : UInt8.ofNat (n % (256 * Nat.pow 256 size)) = UInt8.ofNat n := by
        apply UInt8.toNat.inj
        simp
      rw [ofNat, ofNat, hp, last, Nat.mod_mul_right_div_self, ih]

theorem drop_ofNat (high low n : Nat) : (ofNat (high + low) n).drop high = ofNat low n := by
  induction low generalizing n with
  | zero => simp [ofNat, List.drop_eq_nil_iff]
  | succ low ih =>
      rw [← Nat.add_assoc, ofNat, ofNat, List.drop_append_of_le_length (by simp), ih]

end Bytes

theorem Address.toBytes_ofWord (w : Word) : (ofWord w).toBytes = w.toBytes.drop 12 := by
  rw [Word.toBytes, Bytes.drop_ofNat 12 20, ← Bytes.ofNat_mod 20 w.toNat, toBytes, ofWord,
    BitVec.toNat_setWidth]

theorem Address.eq_ofWord_iff {a : Address} {w : Word} :
    a.toBytes = w.toBytes.drop 12 ↔ a = .ofWord w := by
  rw [← toBytes_ofWord]
  exact ⟨fun h => toBytes_injective h, fun h => h ▸ rfl⟩

namespace ProxyInfo

variable {newer older : Word} {a : Address}

theorem source_ofSlots_of_newer (hn : newer ≠ 0) :
    (ofSlots newer older).source a = .ofWord newer := by
  rw [ofSlots, if_pos hn]
  rfl

theorem source_ofSlots_of_older (ho : older ≠ 0) : (ofSlots 0 older).source a = .ofWord older := by
  rw [ofSlots, if_neg (by simp), if_pos ho]
  rfl

theorem source_ofSlots_zero : (ofSlots 0 0).source a = a := by
  simp [ofSlots, source]

end ProxyInfo

/-! ## The source -/

variable {fleet other : Fleet} {replies replies' : Replies} {a : Address} {newer older : Word}

/-- The endpoint answers for both slots of the contract, and these are the words. -/
def Endpoint.Reveals (e : Endpoint) (replies : Replies) (a : Address) (newer older : Word) : Prop :=
  replies (.chain e.position (.storage a ImplementationSlot.eip1967.key)) = .ok newer ∧
    replies (.chain e.position (.storage a ImplementationSlot.legacy.key)) = .ok older

theorem Endpoint.slots_eq_some_iff {e : Endpoint} {info : ProxyInfo} :
    e.slots a replies = some info ↔
      ∃ newer older, e.Reveals replies a newer older ∧ info = .ofSlots newer older := by
  unfold Endpoint.slots Endpoint.Reveals
  cases replies (.chain e.position (.storage a ImplementationSlot.eip1967.key)) <;>
    cases replies (.chain e.position (.storage a ImplementationSlot.legacy.key)) <;>
      simp [paired, eq_comm]

theorem Endpoint.slots_eq_none_iff {e : Endpoint} :
    e.slots a replies = none ↔ ∀ newer older, ¬ e.Reveals replies a newer older := by
  rw [Option.eq_none_iff_forall_ne_some]
  constructor
  · intro h newer older ht
    exact h _ (slots_eq_some_iff.mpr ⟨newer, older, ht, rfl⟩)
  · intro h info hi
    obtain ⟨newer, older, ht, -⟩ := slots_eq_some_iff.mp hi
    exact h newer older ht

namespace Fleet

/-- The first endpoint of the fleet that answers for both slots has these words. -/
def FirstReveals (fleet : Fleet) (replies : Replies) (a : Address) (newer older : Word) : Prop :=
  ∃ before e after, fleet.endpoints = before ++ e :: after ∧ e.Reveals replies a newer older ∧
    ∀ e' ∈ before, ∀ newer' older', ¬ e'.Reveals replies a newer' older'

/-- At which address the interface of a contract is looked up, if at any: at the one in the low bytes of
the newer word, of the older word if the newer one is zero, and at the contract's own if both are. -/
inductive Sources (fleet : Fleet) (replies : Replies) (a : Address) : Option Address → Prop where
  | newer {newer older : Word} {source : Address} (h : fleet.FirstReveals replies a newer older)
      (hn : newer ≠ 0) (hs : source.toBytes = newer.toBytes.drop 12) :
      Sources fleet replies a (some source)
  | older {older : Word} {source : Address} (h : fleet.FirstReveals replies a 0 older)
      (ho : older ≠ 0) (hs : source.toBytes = older.toBytes.drop 12) :
      Sources fleet replies a (some source)
  | itself (h : fleet.FirstReveals replies a 0 0) : Sources fleet replies a (some a)
  | nowhere (h : ∀ e ∈ fleet.endpoints, ∀ newer older, ¬ e.Reveals replies a newer older) :
      Sources fleet replies a none

theorem queryAnswer_of_firstReveals (h : fleet.FirstReveals replies a newer older) :
    fleet.queryAnswer replies (.proxy a) = .ok (ProxyInfo.ofSlots newer older) := by
  obtain ⟨before, e, after, hends, ht, hbefore⟩ := h
  exact queryAnswer_proxy_eq_ok_iff.mpr ⟨before, e, after, hends,
    Endpoint.slots_eq_some_iff.mpr ⟨newer, older, ht, rfl⟩,
    fun e' he' => Endpoint.slots_eq_none_iff.mpr (hbefore e' he')⟩

theorem exists_firstReveals {info : ProxyInfo}
    (h : fleet.queryAnswer replies (.proxy a) = .ok info) :
    ∃ newer older, fleet.FirstReveals replies a newer older ∧ info = .ofSlots newer older := by
  obtain ⟨before, e, after, hends, hslots, hbefore⟩ := queryAnswer_proxy_eq_ok_iff.mp h
  obtain ⟨newer, older, ht, rfl⟩ := Endpoint.slots_eq_some_iff.mp hslots
  exact ⟨newer, older, ⟨before, e, after, hends, ht,
    fun e' he' => Endpoint.slots_eq_none_iff.mp (hbefore e' he')⟩, rfl⟩

theorem queryAnswer_eq_error_iff_nobody_reveals {fault : FleetFault} :
    fleet.queryAnswer replies (.proxy a) = .error fault ↔ fault = .proxyInfo a ∧
      ∀ e ∈ fleet.endpoints, ∀ newer older, ¬ e.Reveals replies a newer older := by
  rw [queryAnswer_eq_error_iff]
  exact and_congr_right fun _ => forall₂_congr fun _ _ => Endpoint.slots_eq_none_iff

/-- The answer to the read of the slots settles the source. -/
theorem sources_iff {source : Option Address} :
    fleet.Sources replies a source ↔
      source = match fleet.queryAnswer replies (.proxy a) with
        | .ok info => some (info.source a)
        | .error _ => none := by
  constructor
  · intro h
    cases h with
    | newer h hn hs =>
        rw [queryAnswer_of_firstReveals h, Address.eq_ofWord_iff.mp hs]
        exact congrArg some (ProxyInfo.source_ofSlots_of_newer hn).symm
    | older h ho hs =>
        rw [queryAnswer_of_firstReveals h, Address.eq_ofWord_iff.mp hs]
        exact congrArg some (ProxyInfo.source_ofSlots_of_older ho).symm
    | itself h =>
        rw [queryAnswer_of_firstReveals h]
        exact congrArg some ProxyInfo.source_ofSlots_zero.symm
    | nowhere h => rw [queryAnswer_eq_error_iff_nobody_reveals.mpr ⟨rfl, h⟩]
  · rintro rfl
    cases hq : fleet.queryAnswer replies (.proxy a) with
    | error fault => exact .nowhere (queryAnswer_eq_error_iff_nobody_reveals.mp hq).2
    | ok info =>
        obtain ⟨newer, older, h, rfl⟩ := exists_firstReveals hq
        dsimp only
        by_cases hn : newer = 0
        · subst hn
          by_cases ho : older = 0
          · subst ho
            rw [ProxyInfo.source_ofSlots_zero]
            exact .itself h
          · rw [ProxyInfo.source_ofSlots_of_older ho]
            exact .older h ho (Address.toBytes_ofWord older)
        · rw [ProxyInfo.source_ofSlots_of_newer hn]
          exact .newer h hn (Address.toBytes_ofWord newer)

/-- Where the first words are the same, so is the source, whatever other endpoints answer. -/
theorem sources_congr (h : fleet.FirstReveals replies a newer older)
    (h' : other.FirstReveals replies' a newer older) (source : Option Address) :
    fleet.Sources replies a source ↔ other.Sources replies' a source := by
  rw [sources_iff, sources_iff, queryAnswer_of_firstReveals h, queryAnswer_of_firstReveals h']

/-! ## The lookup -/

def readContract (repository : Address → ExceptT AbiFault Job String) (source : Address) :
    RuleJob Abi.Contract := do
  let text ← (repository source).adapt .abi
  match Abi.Contract.parse? text with
  | some contract => return contract
  | none => throw (.abi .unreadable)

/-- Load the interface that describes calls to an address from any repository. -/
def loadContract (fleet : Fleet) (repository : Address → ExceptT AbiFault Job String) (a : Address) :
    RuleJob Abi.Contract := do
  let info ← (fleet.proxyInfo a).adapt .fleet
  readContract repository (info.source a)

variable {repository : Address → ExceptT AbiFault Job String} {trace looking : Trace system}
  {outcome : Except RuleFault Abi.Contract}

/-- What becomes of a load once the slots have been read: the repository is asked for the source, and
the text that it has is read. -/
inductive Obtains (fleet : Fleet) (repository : Address → ExceptT AbiFault Job String)
    (replies : Replies) (a : Address) : Trace system → Except RuleFault Abi.Contract → Prop where
  | nowhere (h : fleet.Sources replies a none) :
      Obtains fleet repository replies a [] (.error (.fleet (.proxyInfo a)))
  | failed {source : Address} {looking : Trace system} {fault : AbiFault}
      (h : fleet.Sources replies a (some source))
      (hl : (repository source).run.Runs looking (some (.error fault))) :
      Obtains fleet repository replies a looking (.error (.abi fault))
  | unreadable {source : Address} {looking : Trace system} {text : String}
      (h : fleet.Sources replies a (some source))
      (hl : (repository source).run.Runs looking (some (.ok text)))
      (ht : Abi.Contract.parse? text = none) :
      Obtains fleet repository replies a looking (.error (.abi .unreadable))
  | loaded {source : Address} {looking : Trace system} {text : String} {contract : Abi.Contract}
      (h : fleet.Sources replies a (some source))
      (hl : (repository source).run.Runs looking (some (.ok text)))
      (ht : Abi.Contract.parse? text = some contract) :
      Obtains fleet repository replies a looking (.ok contract)

/-- The answer to the read of the slots, and then what it leads to. -/
def Follows (repository : Address → ExceptT AbiFault Job String) (a : Address)
    (looking : Trace system) (outcome : Except RuleFault Abi.Contract) :
    Except FleetFault ProxyInfo → Prop
  | .error fault => looking = [] ∧ outcome = .error (.fleet fault)
  | .ok info => (readContract repository (info.source a)).run.Runs looking (some outcome)

theorem runs_loadContract_some :
    (fleet.loadContract repository a).run.Runs trace (some outcome) ↔
      ∃ starting asking looking answer, trace = starting ++ asking ++ looking ∧
        fleet.ensureStarted.Runs starting (some ()) ∧
        (fleet.querying (.proxy a)).Runs asking (some answer) ∧
        Follows repository a looking outcome answer := by
  have read : (fleet.proxyInfo a).run = fleet.ensureStarted >>= fun _ => fleet.querying (.proxy a) :=
    fleet.query_eq (.proxy a)
  rw [loadContract, runs_exceptT_bind_some]
  constructor
  · rintro (⟨fault, hr, rfl⟩ | ⟨info, early, looking, hr, hl, rfl⟩)
    · obtain ⟨refusal, hask, rfl⟩ := runs_adapt_error.mp hr
      rw [read] at hask
      obtain ⟨⟨⟩, starting, asking, hs, hq, rfl⟩ := Activity.runs_bind_some.mp hask
      exact ⟨starting, asking, [], _, by simp, hs, hq, rfl, rfl⟩
    · have hask := runs_adapt_ok.mp hr
      rw [read] at hask
      obtain ⟨⟨⟩, starting, asking, hs, hq, rfl⟩ := Activity.runs_bind_some.mp hask
      exact ⟨starting, asking, looking, _, rfl, hs, hq, hl⟩
  · rintro ⟨starting, asking, looking, answer, rfl, hs, hq, hf⟩
    have hr : (fleet.proxyInfo a).run.Runs (starting ++ asking) (some answer) := by
      rw [read]
      exact Activity.runs_bind_some.mpr ⟨(), starting, asking, hs, hq, rfl⟩
    cases answer with
    | error fault =>
        obtain ⟨rfl, rfl⟩ := hf
        exact .inl ⟨.fleet fault, runs_adapt_error.mpr ⟨fault, by simpa using hr, rfl⟩, rfl⟩
    | ok info => exact .inr ⟨info, starting ++ asking, looking, runs_adapt_ok.mpr hr, hf, rfl⟩

theorem runs_readContract_some {source : Address} :
    (readContract repository source).run.Runs looking (some outcome) ↔
      (∃ fault, (repository source).run.Runs looking (some (.error fault)) ∧
        outcome = .error (.abi fault)) ∨
      ∃ text, (repository source).run.Runs looking (some (.ok text)) ∧
        outcome = match Abi.Contract.parse? text with
          | some contract => .ok contract
          | none => .error (.abi .unreadable) := by
  have ended {text : String} {t : Trace system} :
      (match Abi.Contract.parse? text with
        | some contract => return contract
        | none => throw (.abi .unreadable) : RuleJob Abi.Contract).run.Runs t (some outcome) ↔
      t = [] ∧ outcome = match Abi.Contract.parse? text with
        | some contract => .ok contract
        | none => .error (.abi .unreadable) := by
    cases Abi.Contract.parse? text with
    | some contract => exact runs_exceptT_pure_some
    | none => exact runs_throw_some
  rw [readContract, runs_exceptT_bind_some]
  constructor
  · rintro (⟨fault, hr, rfl⟩ | ⟨text, early, late, hr, hl, rfl⟩)
    · obtain ⟨refusal, hlookup, rfl⟩ := runs_adapt_error.mp hr
      exact .inl ⟨refusal, hlookup, rfl⟩
    · obtain ⟨rfl, rfl⟩ := ended.mp hl
      rw [List.append_nil]
      exact .inr ⟨text, runs_adapt_ok.mp hr, rfl⟩
  · rintro (⟨fault, hr, rfl⟩ | ⟨text, hr, rfl⟩)
    · exact .inl ⟨.abi fault, runs_adapt_error.mpr ⟨fault, hr, rfl⟩, rfl⟩
    · exact .inr ⟨text, looking, [], runs_adapt_ok.mpr hr, ended.mpr ⟨rfl, rfl⟩, by simp⟩

/-- By the answers to the read of the slots it is settled what the load leads to. -/
theorem follows_iff_obtains :
    Follows repository a looking outcome (fleet.queryAnswer replies (.proxy a)) ↔
      fleet.Obtains repository replies a looking outcome := by
  cases hq : fleet.queryAnswer replies (.proxy a) with
  | error fault =>
      obtain ⟨rfl, -⟩ := queryAnswer_eq_error_iff_nobody_reveals.mp hq
      have source {s : Option Address} : fleet.Sources replies a s ↔ s = none := by
        rw [sources_iff, hq]
      constructor
      · rintro ⟨rfl, rfl⟩
        exact .nowhere (source.mpr rfl)
      · intro h
        cases h with
        | nowhere => exact ⟨rfl, rfl⟩
        | failed h => cases source.mp h
        | unreadable h => cases source.mp h
        | loaded h => cases source.mp h
  | ok info =>
      have source {s : Option Address} : fleet.Sources replies a s ↔ s = some (info.source a) := by
        rw [sources_iff, hq]
      refine runs_readContract_some.trans ⟨?_, fun h => ?_⟩
      · rintro (⟨fault, hl, rfl⟩ | ⟨text, hl, rfl⟩)
        · exact .failed (source.mpr rfl) hl
        · cases ht : Abi.Contract.parse? text with
          | none => exact .unreadable (source.mpr rfl) hl ht
          | some contract => exact .loaded (source.mpr rfl) hl ht
      · cases h with
        | nowhere h => cases source.mp h
        | failed h hl =>
            obtain rfl := Option.some.inj (source.mp h)
            exact .inl ⟨_, hl, rfl⟩
        | unreadable h hl ht =>
            obtain rfl := Option.some.inj (source.mp h)
            exact .inr ⟨_, hl, by rw [ht]⟩
        | loaded h hl ht =>
            obtain rfl := Option.some.inj (source.mp h)
            exact .inr ⟨_, hl, by rw [ht]⟩

theorem waitFree_readContract (hr : ∀ source, (repository source).run.WaitFree) (source : Address) :
    (readContract repository source).run.WaitFree := by
  have adapted : ((repository source).adapt RuleFault.abi).run.WaitFree :=
    Activity.Confined.bind (hr source) fun _ => Activity.confined_pure _
  refine confined_exceptT_bind adapted fun text => ?_
  split
  · exact confined_exceptT_pure _
  · exact confined_throw _

/-- A load ends unless somebody else is busy starting the fleet. -/
theorem exists_value_of_loadContract {σ : Type}
    (hr : ∀ source, (repository source).run.WaitFree) (h : Handler system σ) (now : Nat)
    (w : World system σ) (hs : w.memory.start ≠ .running) :
    ∃ outcome, ((fleet.loadContract repository a).run.run h now w).value? = some outcome := by
  have read : ((fleet.proxyInfo a).adapt RuleFault.fleet).run =
      (fleet.ensureStarted >>= fun _ => fleet.querying (.proxy a)) >>=
        fun answer => pure (answer.mapError RuleFault.fleet) := by
    rw [← fleet.query_eq (.proxy a)]
    rfl
  rw [loadContract, ExceptT.run_bind, read, bind_assoc, bind_assoc]
  refine exists_value_of_ensureStarted (fun _ => ?_) h now w hs
  refine (waitFree_of_acts (fleet.confined_querying (.proxy a))).bind fun answer => ?_
  refine (Activity.confined_pure _).bind fun result => ?_
  cases result with
  | error fault => exact Activity.confined_pure _
  | ok info => exact waitFree_readContract hr _

/-- A load reads the slots of the contract and then asks the repository for one address: the first
endpoint that answers for both slots settles which. When none does, nothing is looked up and the load
fails; otherwise it fails as the repository does or when the text is none of an interface. -/
theorem loadContract_looks_up_source (fleet : Fleet)
    (repository : Address → ExceptT AbiFault Job String) (a : Address) :
    (∀ explorer : Explorer, (⟨fleet, explorer⟩ : RuleContext).loadContract a =
      fleet.loadContract explorer.lookup a) ∧
    (∀ replies, ∃! source, fleet.Sources replies a source) ∧
    (∀ (other : Fleet) replies replies' newer older, fleet.FirstReveals replies a newer older →
      other.FirstReveals replies' a newer older → ∀ source,
        fleet.Sources replies a source ↔ other.Sources replies' a source) ∧
    (∀ trace outcome, (fleet.loadContract repository a).run.Runs trace (some outcome) ↔
      ∃ starting asking looking answer, trace = starting ++ asking ++ looking ∧
        fleet.ensureStarted.Runs starting (some ()) ∧
        (fleet.querying (.proxy a)).Runs asking (some answer) ∧
        (∃ replies, asking.AnsweredBy replies) ∧
        ∀ replies, asking.AnsweredBy replies → fleet.Obtains repository replies a looking outcome) ∧
    ((∀ source, (repository source).run.WaitFree) →
      ∀ {σ : Type} (h : Handler system σ) (now : Nat) (w : World system σ),
        w.memory.start ≠ .running → ∃ outcome trace,
          ((fleet.loadContract repository a).run.run h now w).value? = some outcome ∧
            (fleet.loadContract repository a).run.Runs trace (some outcome) ∧
            trace.Leads h w ((fleet.loadContract repository a).run.run h now w).world) := by
  refine ⟨fun _ => rfl, fun replies => ⟨_, sources_iff.mpr rfl, fun _ => sources_iff.mp⟩,
    fun other replies replies' newer older h h' => sources_congr h h',
    fun trace outcome => ?_, fun hr σ h now w hs => ?_⟩
  · rw [runs_loadContract_some]
    constructor
    · rintro ⟨starting, asking, looking, answer, rfl, hs, hq, hf⟩
      refine ⟨starting, asking, looking, answer, rfl, hs, hq, exists_answeredBy_of_querying hq,
        fun replies ha => ?_⟩
      rw [eq_queryAnswer_of_querying hq ha] at hf
      exact follows_iff_obtains.mp hf
    · rintro ⟨starting, asking, looking, answer, rfl, hs, hq, ⟨replies, ha⟩, ho⟩
      refine ⟨starting, asking, looking, answer, rfl, hs, hq, ?_⟩
      rw [eq_queryAnswer_of_querying hq ha]
      exact follows_iff_obtains.mpr (ho replies ha)
  · obtain ⟨outcome, hv⟩ := exists_value_of_loadContract hr h now w hs
    obtain ⟨trace, hruns, hl⟩ := Activity.exists_trace_of_run h now
      (fleet.loadContract repository a).run w
    exact ⟨outcome, trace, hv, hv ▸ hruns, hl⟩

/-- So many nodes at the front do not reveal the older word. The next one has nothing but an older word,
and those behind it have newer ones as well. -/
def hidden (front : Nat) : Replies
  | .chain position (.storage _ key) =>
    if key = ImplementationSlot.eip1967.key then .ok (if position ≤ front then 0 else 7)
    else if position < front then .error .exchange else .ok 5
  | r => divided 0 r

theorem loadContract_looks_up_source_hidden :
    trio.FirstReveals (hidden 1) .zero 0 5 ∧ trio.Sources (hidden 1) .zero (some (.ofWord 5)) ∧
      solo.Sources (hidden 0) .zero (some (.ofWord 5)) ∧
      ∃ trace outcome looking found,
        (trio.loadContract Explorer.absent.lookup .zero).run.Runs trace (some outcome) ∧
          looking <:+ trace ∧
          (Explorer.absent.lookup (.ofWord 5)).run.Runs looking (some found) := by
  have first : trio.FirstReveals (hidden 1) .zero 0 5 := by
    refine ⟨[_], _, [_], rfl, ⟨rfl, rfl⟩, fun e he newer older ht => ?_⟩
    obtain rfl := List.mem_singleton.mp he
    cases ht.2
  have alone : solo.FirstReveals (hidden 0) .zero 0 5 :=
    ⟨[], _, [], rfl, ⟨rfl, rfl⟩, fun _ he => (List.not_mem_nil he).elim⟩
  have source : trio.Sources (hidden 1) .zero (some (.ofWord 5)) :=
    .older first (by decide) (Address.toBytes_ofWord 5)
  obtain ⟨-, unique, same, runs, ends⟩ :=
    loadContract_looks_up_source trio Explorer.absent.lookup .zero
  obtain ⟨outcome, trace, -, hr, hl⟩ := ends (fun _ => Explorer.absent.waitFree_lookup _)
    (.ofReplies (fun _ => 3) (hidden 1)) 0 ⟨.initial "" .empty, ()⟩ (by decide)
  obtain ⟨starting, asking, looking, answer, rfl, -, hq, -, obtained⟩ := (runs trace outcome).mp hr
  have quotes := (Handler.quotes_ofReplies (fun _ => 3) Request.IsRead (hidden 1)).trace trivial hl.2
  have asked : asking.AnsweredBy (hidden 1) :=
    Trace.Quotes.answeredBy (fun event hm => quotes event (by simp [hm]))
      ((trio.confined_querying (.proxy .zero)).runs hq)
  have at_source {s : Address} (hs : trio.Sources (hidden 1) .zero (some s)) : s = .ofWord 5 :=
    Option.some.inj ((unique (hidden 1)).unique hs source)
  have looked : ∃ found, (Explorer.absent.lookup (.ofWord 5)).run.Runs looking (some found) := by
    cases obtained _ asked with
    | nowhere h => cases (unique (hidden 1)).unique h source
    | failed h hlook => exact ⟨_, at_source h ▸ hlook⟩
    | unreadable h hlook => exact ⟨_, at_source h ▸ hlook⟩
    | loaded h hlook => exact ⟨_, at_source h ▸ hlook⟩
  obtain ⟨found, hlook⟩ := looked
  exact ⟨first, source, (same solo _ _ _ _ first alone _).mp source, starting ++ asking ++ looking,
    outcome, looking, found, hr, List.suffix_append _ _, hlook⟩

end Fleet

end ChainWatch
