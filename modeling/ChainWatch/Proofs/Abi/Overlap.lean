import ChainWatch.Proofs.Abi.Lookups
import ChainWatch.Proofs.Text.Notation

/-!
# Lookups side by side

A lookup that has not found a text in the table goes to the explorer, and it puts what it learns there
into the table only when the answer is back. Whoever looks in between goes to the explorer as well: each
such call may be granted a text, and not always the same one. Calls that do not overlap share what the
first of them has learned.
-/

namespace ChainWatch

open Concurrency

namespace Explorer

variable {explorer : Explorer} {m m' before after : State} {a b : Address} {text : String}
  {trace : Trace system} {outcome : Except AbiFault String}

@[simp] theorem url_inj : explorer.url a = explorer.url b ↔ a = b := by
  constructor
  · intro h
    unfold url at h
    rw [String.append_left_inj, String.append_right_inj] at h
    exact Address.checksum_injective h
  · intro h
    rw [h]

/-! ## What the explorer grants -/

/-- The explorer answers the request for an address with a text. -/
def grants (explorer : Explorer) (a : Address) : Event system → Bool
  | .answered (.explore url) answer => url == explorer.url a && (read a answer).isOk
  | _ => false

/-- How many requests for an address end in success. -/
def successes (explorer : Explorer) (a : Address) (trace : Trace system) : Nat :=
  trace.countP (explorer.grants a)

/-! ## Single calls -/

/-- A call among others: for what, what it did, and how it came out. -/
structure Call where
  address : Address
  trace : Trace system
  outcome : Except AbiFault String

namespace Call

/-- The explorer is called in such a way, whatever others do meanwhile. -/
def Of (c : Call) (explorer : Explorer) : Prop :=
  (explorer.lookup c.address).run.Runs c.trace (some c.outcome)

/-- Nobody is asked in the call. -/
def IsSilent (c : Call) : Prop := c.trace.exchanged = []

/-- The call is granted a text by the explorer. -/
def granted (c : Call) (explorer : Explorer) : Bool := c.trace.any (explorer.grants c.address)

/-- A text is found in the table, and that is all. -/
structure Finds (c : Call) (m : State) (text : String) : Prop where
  find : m.abis.find? c.address = some text
  trace : c.trace = [.touched m m]
  outcome : c.outcome = .ok text

/-- No text is found, neither in the table nor elsewhere. -/
structure Fails (c : Call) (m : State) (fault : AbiFault) : Prop where
  find : m.abis.find? c.address = none
  found : .touched m m ∈ c.trace
  kept : ∀ before after, .touched before after ∈ c.trace → after = before
  outcome : c.outcome = .error fault

/-- No text is found in the table, and the explorer has one. -/
structure Learns (c : Call) (explorer : Explorer) (m m' : State) (text : String) : Prop where
  find : m.abis.find? c.address = none
  found : .touched m m ∈ c.trace
  answered : ∃ answer, .answered (.explore (explorer.url c.address)) answer ∈ c.trace ∧
    read c.address answer = .ok text
  put : .touched m' (learned m' c.address (.ok text)) ∈ c.trace
  kept : ∀ before after, .touched before after ∈ c.trace →
    after = before ∨ after = learned before c.address (.ok text)
  outcome : c.outcome = .ok text

variable {c : Call}

/-- All that a call can do. -/
theorem Of.cases (h : c.Of explorer) :
    (∃ m text, c.Finds m text ∧ c.granted explorer = false) ∨
      (∃ m fault, c.Fails m fault ∧ c.granted explorer = false) ∨
      ∃ m m' text, c.Learns explorer m m' text ∧ c.granted explorer = true := by
  obtain ⟨a, trace, outcome⟩ := c
  have hlooks : explorer.Looks a trace outcome := runs_lookup_some h
  cases hlooks with
  | known m hfind => exact .inl ⟨m, _, ⟨hfind, rfl, rfl⟩, rfl⟩
  | nowhere m hfind hb =>
      have kept : ∀ before after, .touched before after ∈ ([.touched m m] : Trace system) →
          after = before := by
        simp
      exact .inr (.inl ⟨m, _, ⟨hfind, by simp, kept, rfl⟩, rfl⟩)
  | refused m answer hfind hb hread =>
      have kept : ∀ before after, .touched before after ∈
          (.touched m m :: explorer.asking a answer : Trace system) → after = before := by
        simp [asking]
      refine .inr (.inl ⟨m, _, ⟨hfind, by simp, kept, rfl⟩, ?_⟩)
      simp [granted, grants, hread, Except.isOk, Except.toBool]
  | @learned text m m' answer hfind hb hread =>
      let whole : Trace system :=
        .touched m m :: explorer.asking a answer ++ [.touched m' (learned m' a (.ok text))]
      have kept : ∀ before after, Event.touched before after ∈ whole →
          after = before ∨ after = learned before a (.ok text) := by
        intro before after hm
        obtain ⟨rfl, rfl⟩ | ⟨rfl, rfl⟩ :
            before = m ∧ after = m ∨ before = m' ∧ after = learned m' a (.ok text) := by
          simpa [whole, asking] using hm
        · exact .inl rfl
        · exact .inr rfl
      refine .inr (.inr ⟨m, m', text, ⟨hfind, by simp, ⟨answer, by simp, hread⟩,
        by simp [learned], kept, rfl⟩, ?_⟩)
      simp [granted, grants, hread, Except.isOk, Except.toBool]

theorem Of.successes_eq (h : c.Of explorer) :
    explorer.successes a c.trace = if c.address = a ∧ c.granted explorer = true then 1 else 0 := by
  obtain ⟨b, trace, outcome⟩ := c
  have hlooks : explorer.Looks b trace outcome := runs_lookup_some h
  have asked (m : State) (answer : Http.Outcome) (late : Trace system)
      (hlate : ∀ c, late.countP (explorer.grants c) = 0) :
      explorer.successes a (.touched m m :: explorer.asking b answer ++ late) =
        if b = a ∧ granted ⟨b, .touched m m :: explorer.asking b answer ++ late, outcome⟩ explorer =
          true then 1 else 0 := by
    have hany : late.any (explorer.grants b) = false := by
      simpa using List.countP_eq_zero.mp (hlate b)
    by_cases hb : b = a
    · subst hb
      cases hread : (read b answer).isOk <;>
        simp [successes, granted, asking, hlate, hany, hread, grants]
    · simp [successes, asking, hlate, hb, grants]
  cases hlooks with
  | known m hfind => simp [successes, granted, grants]
  | nowhere m hfind hb => simp [successes, granted, grants]
  | refused m answer hfind hb hread => exact asked m answer [] fun _ => rfl
  | learned m m' answer hfind hb hread => exact asked m answer [_] fun _ => rfl

theorem Finds.isSilent {m : State} (h : c.Finds m text) : c.IsSilent := by
  rw [IsSilent, h.trace]
  rfl

/-- A call changes the memory only by the text that it has been granted. -/
theorem Of.eq_or_learned (h : c.Of explorer) (hm : .touched before after ∈ c.trace) :
    after = before ∨ ∃ text, c.outcome = .ok text ∧ c.granted explorer = true ∧
      after = learned before c.address (.ok text) := by
  obtain ⟨m, text, hf, -⟩ | ⟨m, fault, hf, -⟩ | ⟨m, m', text, hl, hg⟩ := h.cases
  · have heq : before = m ∧ after = m := by simpa [hf.trace] using hm
    exact .inl (heq.2.trans heq.1.symm)
  · exact .inl (hf.kept _ _ hm)
  · refine (hl.kept _ _ hm).imp id fun hput => ?_
    exact ⟨text, hl.outcome, hg, hput⟩

theorem Of.finds (h : c.Of explorer)
    (hk : ∀ m, .touched m m ∈ c.trace → (m.abis.find? c.address).isSome) :
    ∃ m text, c.Finds m text ∧ c.granted explorer = false := by
  obtain hf | ⟨m, fault, hf, -⟩ | ⟨m, m', text, hl, -⟩ := h.cases
  · exact hf
  · have hsome := hk m hf.found
    simp [hf.find] at hsome
  · have hsome := hk m hl.found
    simp [hl.find] at hsome

/-- A call that comes out well leaves a text behind. -/
theorem Of.exists_left (h : c.Of explorer) (ho : c.outcome = .ok text) :
    ∃ before after, .touched before after ∈ c.trace ∧ (after.abis.find? c.address).isSome := by
  obtain ⟨m, other, hf, -⟩ | ⟨m, fault, hf, -⟩ | ⟨m, m', other, hl, -⟩ := h.cases
  · exact ⟨m, m, by simp [hf.trace], by simp [hf.find]⟩
  · rw [hf.outcome] at ho
    cases ho
  · refine ⟨m', _, hl.put, ?_⟩
    rw [learned, AbiTable.find?_insert, if_pos rfl]
    rfl

end Call

/-! ## Calls side by side -/

def together (explorer : Explorer) (addresses : List Address) :
    Job (List (Except AbiFault String)) :=
  Activity.joinAll (addresses.map fun a => (explorer.lookup a).run)

/-- The events of a trace, each tagged with the place of the call that it belongs to. -/
structure Beside (explorer : Explorer) (calls : List Call) (tagged : List (Nat × Event system)) :
    Prop where
  of : ∀ c ∈ calls, c.Of explorer
  own : ∀ i, ownedBy i tagged = (calls.map Call.trace).getD i []

/-- One call has come to its end when the other one begins. -/
def Precedes (tagged : List (Nat × Event system)) (i j : Nat) : Prop :=
  ∃ early late, tagged = early ++ late ∧ ownedBy j early = [] ∧ ownedBy i late = []

theorem exists_calls_of_together {addresses : List Address}
    {outcomes : List (Except AbiFault String)}
    (hr : (explorer.together addresses).Runs trace (some outcomes)) :
    ∃ calls : List Call, calls.map Call.address = addresses ∧
      calls.map Call.outcome = outcomes ∧ (∀ c ∈ calls, c.Of explorer) ∧
      Shuffles (calls.map Call.trace) trace := by
  have hcrew := Activity.runs_joinBounded_some.mp hr
  clear hr
  induction addresses generalizing trace outcomes with
  | nil =>
      obtain ⟨rfl, hresults⟩ := hcrew
      cases hresults
      exact ⟨[], rfl, rfl, by simp, rfl⟩
  | cons a addresses ih =>
      obtain ⟨own, others, ra, rb, hown, hothers, hs, hresults⟩ := hcrew
      cases ra with
      | none => cases hresults
      | some outcome =>
          cases rb with
          | none => cases hresults
          | some rest =>
              obtain rfl : outcomes = outcome :: rest := Option.some.inj hresults
              obtain ⟨calls, rfl, rfl, hcalls, hw⟩ := ih hothers
              refine ⟨⟨a, own, outcome⟩ :: calls, rfl, rfl, ?_, others, hw, hs⟩
              exact List.forall_mem_cons.mpr ⟨hown, hcalls⟩

section Beside

variable {calls : List Call} {tagged : List (Nat × Event system)} {i j : Nat} {c c' : Call}

theorem successes_eq_countP (hcalls : ∀ c ∈ calls, c.Of explorer)
    (hw : Shuffles (calls.map Call.trace) trace) :
    explorer.successes a trace =
      calls.countP fun c => decide (c.address = a ∧ c.granted explorer = true) := by
  induction calls generalizing trace with
  | nil =>
      obtain rfl : trace = [] := hw
      rfl
  | cons c calls ih =>
      obtain ⟨others, ho, hs⟩ := hw
      obtain ⟨hc, hcalls⟩ := List.forall_mem_cons.mp hcalls
      have hsum : explorer.successes a trace =
          explorer.successes a c.trace + explorer.successes a others := hs.countP _
      rw [hsum, hc.successes_eq, ih hcalls ho, List.countP_cons]
      simp only [decide_eq_true_eq]
      omega

/-- If no two places bear items of a kind, there is at most one such item. -/
theorem countP_le_one {p : Call → Bool}
    (h : ∀ (i j : Nat) (c c' : Call), calls[i]? = some c → calls[j]? = some c' → p c = true →
      p c' = true → i = j) :
    calls.countP p ≤ 1 := by
  induction calls with
  | nil => exact Nat.zero_le 1
  | cons c calls ih =>
      rw [List.countP_cons]
      by_cases hp : p c = true
      · have hnone : calls.countP p = 0 := by
          refine List.countP_eq_zero.mpr fun c' hm hp' => ?_
          obtain ⟨j, hj⟩ := List.mem_iff_getElem?.mp hm
          have heq := h 0 (j + 1) c c' rfl hj hp hp'
          omega
        simp [hnone, hp]
      · have hrest : calls.countP p ≤ 1 := ih fun i j c c' hi hj hp hp' => by
          have heq := h (i + 1) (j + 1) c c' hi hj hp hp'
          omega
        simpa [hp] using hrest

theorem eq_of_countP_le_one {p : Call → Bool} (h : calls.countP p ≤ 1) (hc : c ∈ calls)
    (hc' : c' ∈ calls) (hp : p c = true) (hp' : p c' = true) : c = c' := by
  rw [List.countP_eq_length_filter] at h
  have hm : c ∈ calls.filter p := List.mem_filter.mpr ⟨hc, hp⟩
  have hm' : c' ∈ calls.filter p := List.mem_filter.mpr ⟨hc', hp'⟩
  match hf : calls.filter p, h with
  | [], _ => simp [hf] at hm
  | [only], _ =>
      rw [hf, List.mem_singleton] at hm hm'
      rw [hm, hm']

namespace Beside

theorem own_eq (h : explorer.Beside calls tagged) (hi : calls[i]? = some c) :
    ownedBy i tagged = c.trace := by
  rw [h.own, List.getD_eq_getElem?_getD, List.getElem?_map, hi]
  rfl

theorem exists_call (h : explorer.Beside calls tagged) {event : Event system}
    (hm : event ∈ tagged.map Prod.snd) : ∃ c ∈ calls, event ∈ c.trace := by
  obtain ⟨⟨i, _⟩, hitem, rfl⟩ := List.mem_map.mp hm
  have hown : _ ∈ ownedBy i tagged := mem_ownedBy.mpr hitem
  cases hi : calls[i]? with
  | some c =>
      rw [h.own_eq hi] at hown
      exact ⟨c, List.mem_of_getElem? hi, hown⟩
  | none =>
      rw [h.own, List.getD_eq_getElem?_getD, List.getElem?_map, hi] at hown
      cases hown

/-- Whatever the calls do, an address that has a text keeps having one. -/
theorem keeps_isSome (h : explorer.Beside calls tagged)
    (hm : .touched before after ∈ tagged.map Prod.snd) (hs : (before.abis.find? a).isSome) :
    (after.abis.find? a).isSome := by
  obtain ⟨c, hc, hm⟩ := h.exists_call hm
  obtain rfl | ⟨text, -, -, rfl⟩ := (h.of c hc).eq_or_learned hm
  · exact hs
  · rw [learned, AbiTable.find?_insert]
    split
    · rfl
    · exact hs

/-- A text was there from the start, or it has been granted to one of the calls. -/
def Known (explorer : Explorer) (calls : List Call) (m : State) (a : Address) (text : String) :
    Prop :=
  m.abis.find? a = some text ∨
    ∃ c ∈ calls, c.address = a ∧ c.granted explorer = true ∧ c.outcome = .ok text

theorem keeps_known (h : explorer.Beside calls tagged)
    (hm : .touched before after ∈ tagged.map Prod.snd)
    (hk : ∀ text, before.abis.find? a = some text → Known explorer calls m a text) :
    ∀ text, after.abis.find? a = some text → Known explorer calls m a text := by
  obtain ⟨c, hc, hm⟩ := h.exists_call hm
  obtain rfl | ⟨other, ho, hg, rfl⟩ := (h.of c hc).eq_or_learned hm
  · exact hk
  · intro text hf
    rw [learned, AbiTable.find?_insert] at hf
    split at hf
    · rename_i ha
      cases hf
      exact .inr ⟨c, hc, ha.symm, hg, ho⟩
    · exact hk text hf

theorem mem_trace (h : explorer.Beside calls tagged) (hc : c ∈ calls) {event : Event system}
    (hm : event ∈ c.trace) : event ∈ tagged.map Prod.snd := by
  obtain ⟨i, hi⟩ := List.mem_iff_getElem?.mp hc
  rw [← h.own_eq hi] at hm
  exact List.mem_map_of_mem (mem_ownedBy.mp hm)

theorem known_of_ok (h : explorer.Beside calls tagged)
    (hf : Trace.Follows id (tagged.map Prod.snd) m m') (hc : c ∈ calls)
    (ho : c.outcome = .ok text) : Known explorer calls m c.address text := by
  obtain ⟨k, other, hfinds, -⟩ | ⟨k, fault, hfails, -⟩ | ⟨k, k', other, hl, hg⟩ := (h.of c hc).cases
  · have hlook : Event.touched k k ∈ tagged.map Prod.snd := h.mem_trace hc (by simp [hfinds.trace])
    have heq : other = text := Except.ok.inj (hfinds.outcome.symm.trans ho)
    subst heq
    exact hf.found (P := fun z => ∀ text, z.abis.find? c.address = some text →
        Known explorer calls m c.address text) (fun text ht => .inl ht)
      (fun before after hm hk => h.keeps_known hm hk) hlook other hfinds.find
  · rw [hfails.outcome] at ho
    cases ho
  · exact .inr ⟨c, hc, rfl, hg, ho⟩

theorem mem_early (h : explorer.Beside calls tagged) (hi : calls[i]? = some c)
    {early late : List (Nat × Event system)} (hcut : tagged = early ++ late)
    (hlate : ownedBy i late = []) {event : Event system} (hm : event ∈ c.trace) :
    event ∈ early.map Prod.snd := by
  rw [← h.own_eq hi, hcut, ownedBy_append, hlate, List.append_nil] at hm
  exact List.mem_map_of_mem (mem_ownedBy.mp hm)

theorem mem_late (h : explorer.Beside calls tagged) (hi : calls[i]? = some c)
    {early late : List (Nat × Event system)} (hcut : tagged = early ++ late)
    (hearly : ownedBy i early = []) {event : Event system} (hm : event ∈ c.trace) :
    event ∈ late.map Prod.snd := by
  rw [← h.own_eq hi, hcut, ownedBy_append, hearly, List.nil_append] at hm
  exact List.mem_map_of_mem (mem_ownedBy.mp hm)

/-- A call that begins when one for the same address has come out well finds a text. -/
theorem finds_of_precedes (h : explorer.Beside calls tagged)
    (hf : Trace.Follows id (tagged.map Prod.snd) m m') (hi : calls[i]? = some c)
    (hj : calls[j]? = some c') (ha : c.address = c'.address) (hp : Precedes tagged i j)
    (ho : c.outcome = .ok text) : ∃ k text', c'.Finds k text' ∧ c'.granted explorer = false := by
  obtain ⟨early, late, hcut, hearly, hlate⟩ := hp
  have hkept : ∀ before after, .touched before after ∈ tagged.map Prod.snd →
      (before.abis.find? c'.address).isSome → (after.abis.find? c'.address).isSome :=
    fun before after hm hs => h.keeps_isSome hm hs
  rw [hcut, List.map_append] at hf hkept
  obtain ⟨z, hbefore, hafter⟩ := Trace.follows_append.mp hf
  obtain ⟨before, after, hm, hsome⟩ := (h.of c (List.mem_of_getElem? hi)).exists_left ho
  have hz : (z.abis.find? c'.address).isSome := by
    refine hbefore.reached (P := fun z => (z.abis.find? c'.address).isSome) ?_
      (h.mem_early hi hcut hlate hm) (ha ▸ hsome)
    exact fun before after hm => hkept before after (List.mem_append_left _ hm)
  refine (h.of c' (List.mem_of_getElem? hj)).finds fun k hlook => ?_
  refine hafter.found (P := fun z => (z.abis.find? c'.address).isSome) hz ?_
    (h.mem_late hj hcut hearly hlook)
  exact fun before after hm => hkept before after (List.mem_append_right _ hm)

/-- With a text in the table from the start every call for that address finds it. -/
theorem finds_of_seeded (h : explorer.Beside calls tagged)
    (hf : Trace.Follows id (tagged.map Prod.snd) m m') (hs : m.abis.find? a = some text)
    (hc : c ∈ calls) (ha : c.address = a) :
    ∃ k, c.Finds k text ∧ c.granted explorer = false := by
  have hsome {c : Call} (hc : c ∈ calls) (ha : c.address = a) :
      ∃ k text', c.Finds k text' ∧ c.granted explorer = false :=
    (h.of c hc).finds fun k hlook => by
      rw [ha]
      exact hf.found (P := fun z => (z.abis.find? a).isSome) (by simp [hs])
        (fun before after hm hb => h.keeps_isSome hm hb) (h.mem_trace hc hlook)
  -- No call for the address is granted a text, so the one that is there stays.
  have hkept : ∀ before after, .touched before after ∈ tagged.map Prod.snd →
      before.abis.find? a = some text → after.abis.find? a = some text := by
    intro before after hm hb
    obtain ⟨c, hc, hm⟩ := h.exists_call hm
    obtain rfl | ⟨other, -, hg, rfl⟩ := (h.of c hc).eq_or_learned hm
    · exact hb
    · by_cases hca : c.address = a
      · obtain ⟨k, text', -, hno⟩ := hsome hc hca
        simp [hg] at hno
      · rw [learned, AbiTable.find?_insert, if_neg (Ne.symm hca)]
        exact hb
  obtain ⟨k, text', hfinds, hg⟩ := hsome hc ha
  have hlook : Event.touched k k ∈ tagged.map Prod.snd := h.mem_trace hc (by simp [hfinds.trace])
  have hk : k.abis.find? a = some text :=
    hf.found (P := fun z => z.abis.find? a = some text) hs hkept hlook
  have heq : text' = text := by
    rw [← ha, hfinds.find] at hk
    exact Option.some.inj hk
  exact ⟨k, heq ▸ hfinds, hg⟩

end Beside

end Beside

/-- How calls side by side share what there is for an address. -/
structure Sharing (explorer : Explorer) (m : State) (calls : List Call)
    (tagged : List (Nat × Event system)) (a : Address) : Prop where
  /-- Each request that ends in success belongs to another call. -/
  successes : explorer.successes a (tagged.map Prod.snd) =
    calls.countP fun c => decide (c.address = a ∧ c.granted explorer = true)
  /-- A text that is given was there from the start, or it has been granted to one of the calls. -/
  known : ∀ c ∈ calls, c.address = a → ∀ text, c.outcome = .ok text →
    Beside.Known explorer calls m a text
  /-- If there is a text from the start, it is given to all, and nobody is asked. -/
  seeded : ∀ text, m.abis.find? a = some text → ∀ c ∈ calls, c.address = a →
    c.outcome = .ok text ∧ c.IsSilent
  /-- Nobody is asked either in a call that begins when another one has come out well. -/
  later : ∀ (i j : Nat) (c c' : Call), calls[i]? = some c → calls[j]? = some c' → c.address = a →
    c'.address = a → Precedes tagged i j → c.outcome.isOk = true →
    c'.outcome.isOk = true ∧ c'.IsSilent
  /-- Where the calls for the address do not overlap, at most one of them is granted a text. -/
  apart : (∀ (i j : Nat) (c c' : Call), calls[i]? = some c → calls[j]? = some c' →
      c.address = a → c'.address = a → i ≠ j → Precedes tagged i j ∨ Precedes tagged j i) →
    explorer.successes a (tagged.map Prod.snd) ≤ 1
  /-- Where that is so, or where the explorer always answers alike, all are given one text. -/
  alike : explorer.successes a (tagged.map Prod.snd) ≤ 1 ∨
      (∀ answer answer', .answered (.explore (explorer.url a)) answer ∈ tagged.map Prod.snd →
        .answered (.explore (explorer.url a)) answer' ∈ tagged.map Prod.snd → answer = answer') →
    ∀ c ∈ calls, ∀ c' ∈ calls, c.address = a → c'.address = a → ∀ text text',
      c.outcome = .ok text → c'.outcome = .ok text' → text = text'

theorem Call.Of.exists_answer {c : Call} (h : c.Of explorer) (hg : c.granted explorer = true)
    (ho : c.outcome = .ok text) : ∃ answer,
      .answered (.explore (explorer.url c.address)) answer ∈ c.trace ∧
        read c.address answer = .ok text := by
  obtain ⟨k, other, -, hno⟩ | ⟨k, fault, -, hno⟩ | ⟨k, k', other, hl, -⟩ := h.cases
  · simp [hg] at hno
  · simp [hg] at hno
  · have heq : other = text := Except.ok.inj (hl.outcome.symm.trans ho)
    exact heq ▸ hl.answered

theorem Call.Of.isOk_of_granted {c : Call} (h : c.Of explorer) (hg : c.granted explorer = true) :
    ∃ text, c.outcome = .ok text := by
  obtain ⟨k, other, -, hno⟩ | ⟨k, fault, -, hno⟩ | ⟨k, k', other, hl, -⟩ := h.cases
  · simp [hg] at hno
  · simp [hg] at hno
  · exact ⟨other, hl.outcome⟩

theorem Beside.sharing {calls : List Call} {tagged : List (Nat × Event system)}
    (h : explorer.Beside calls tagged)
    (hw : Shuffles (calls.map Call.trace) (tagged.map Prod.snd))
    (hf : Trace.Follows id (tagged.map Prod.snd) m m') (a : Address) :
    explorer.Sharing m calls tagged a where
  successes := successes_eq_countP h.of hw
  known := by
    rintro c hc rfl text ho
    exact h.known_of_ok hf hc ho
  seeded := by
    intro text hs c hc ha
    obtain ⟨k, hfinds, -⟩ := h.finds_of_seeded hf hs hc ha
    exact ⟨hfinds.outcome, hfinds.isSilent⟩
  later := by
    rintro i j c c' hi hj rfl ha hp hok
    cases ho : c.outcome with
    | error fault => simp [ho, Except.isOk, Except.toBool] at hok
    | ok text =>
        obtain ⟨k, text', hfinds, -⟩ := h.finds_of_precedes hf hi hj ha.symm hp ho
        rw [hfinds.outcome]
        exact ⟨rfl, hfinds.isSilent⟩
  apart := by
    intro hapart
    rw [successes_eq_countP h.of hw]
    refine countP_le_one fun i j c c' hi hj hp hp' => ?_
    obtain ⟨rfl, hg⟩ := of_decide_eq_true hp
    obtain ⟨ha, hg'⟩ := of_decide_eq_true hp'
    have follows {i j : Nat} {c c' : Call} (hi : calls[i]? = some c) (hj : calls[j]? = some c')
        (ha : c.address = c'.address) (hg : c.granted explorer = true)
        (hg' : c'.granted explorer = true) : ¬ Precedes tagged i j := by
      intro hp
      obtain ⟨text, ho⟩ := (h.of c (List.mem_of_getElem? hi)).isOk_of_granted hg
      obtain ⟨k, text', -, hno⟩ := h.finds_of_precedes hf hi hj ha hp ho
      simp [hg'] at hno
    by_contra hne
    rcases hapart i j c c' hi hj rfl ha hne with hp | hp
    · exact follows hi hj ha.symm hg hg' hp
    · exact follows hj hi ha hg' hg hp
  alike := by
    rintro halike c hc c' hc' ha ha' text text' ho ho'
    have known {c : Call} {text : String} (hc : c ∈ calls) (ha : c.address = a)
        (ho : c.outcome = .ok text) : Known explorer calls m a text :=
      ha ▸ h.known_of_ok hf hc ho
    rcases known hc ha ho with hs | ⟨first, hfirst, hfa, hfg, hfo⟩
    · obtain ⟨k, hfinds, -⟩ := h.finds_of_seeded hf hs hc' ha'
      exact Except.ok.inj (hfinds.outcome.symm.trans ho')
    rcases known hc' ha' ho' with hs | ⟨second, hsecond, hsa, hsg, hso⟩
    · obtain ⟨k, hfinds, -⟩ := h.finds_of_seeded hf hs hc ha
      exact Except.ok.inj (ho.symm.trans hfinds.outcome)
    rcases halike with hone | hanswers
    · rw [successes_eq_countP h.of hw] at hone
      have heq : first = second :=
        eq_of_countP_le_one hone hfirst hsecond (decide_eq_true ⟨hfa, hfg⟩)
          (decide_eq_true ⟨hsa, hsg⟩)
      exact Except.ok.inj (hfo.symm.trans (heq ▸ hso))
    · obtain ⟨answer, hm, hread⟩ := (h.of first hfirst).exists_answer hfg hfo
      obtain ⟨answer', hm', hread'⟩ := (h.of second hsecond).exists_answer hsg hso
      rw [hfa] at hm hread
      rw [hsa] at hm' hread'
      have heq := hanswers answer answer' (h.mem_trace hfirst hm) (h.mem_trace hsecond hm')
      rw [heq] at hread
      exact Except.ok.inj (hread.symm.trans hread')

/-- Any number of lookups side by side, in any interleaving and with any answers: each is a call of its
own, and for every address the calls share what there is as `Sharing` says. -/
theorem together_share {addresses : List Address} {outcomes : List (Except AbiFault String)}
    (hr : (explorer.together addresses).Runs trace (some outcomes)) (hf : trace.Follows id m m') :
    ∃ (calls : List Call) (tagged : List (Nat × Event system)),
      calls.map Call.address = addresses ∧ calls.map Call.outcome = outcomes ∧
      tagged.map Prod.snd = trace ∧ explorer.Beside calls tagged ∧
      ∀ a, explorer.Sharing m calls tagged a := by
  obtain ⟨calls, haddresses, houtcomes, hcalls, hw⟩ := exists_calls_of_together hr
  obtain ⟨tagged, rfl, hown⟩ := hw.exists_tagged
  have h : explorer.Beside calls tagged := ⟨hcalls, hown⟩
  exact ⟨calls, tagged, haddresses, houtcomes, rfl, h, h.sharing hw hf⟩

/-! ### Two calls that overlap -/

/-- A memory in which nothing is known, or this text for one address. -/
def holding (table : AbiTable) : State := .initial "" table

def source : Explorer := ofUrl "http://explorer/" ""

/-- What a call does that is granted a text, from its request on. -/
def obtaining (before : AbiTable) (text : String) : Trace system :=
  source.asking .zero (granting text) ++
    [.touched (holding before) (learned (holding before) .zero (.ok text))]

/-- Both calls look before either of them has its answer. -/
def crossing : Trace system :=
  [.touched (holding .empty) (holding .empty), .touched (holding .empty) (holding .empty)] ++
    obtaining .empty "[]" ++ obtaining ⟨[(.zero, "[]")]⟩ "[ ]"

theorem runs_obtaining (before : AbiTable) (text : String)
    (hread : read .zero (granting text) = .ok text) :
    (source.lookup .zero).run.Runs
      (.touched (holding .empty) (holding .empty) :: obtaining before text) (some (.ok text)) :=
  runs_of_looks (.learned (holding .empty) (holding before) (granting text) rfl (by decide) hread)

theorem runs_crossing :
    (source.together [.zero, .zero]).Runs crossing (some [.ok "[]", .ok "[ ]"]) := by
  have first := runs_obtaining .empty "[]" (by decide +kernel)
  have second := runs_obtaining ⟨[(.zero, "[]")]⟩ "[ ]" (by decide +kernel)
  have others : (Crew.ofList [(source.lookup .zero).run]).Runs
      (.touched (holding .empty) (holding .empty) :: obtaining ⟨[(.zero, "[]")]⟩ "[ ]")
      (some [.ok "[ ]"]) :=
    Activity.runs_joinBounded_some.mp (Activity.runs_joinAll_singleton second)
  refine Activity.runs_joinBounded_some.mpr ⟨_, _, _, some [.ok "[ ]"], first, others, ?_, rfl⟩
  exact .left (.right (.concat _ _))

theorem follows_crossing :
    crossing.Follows id (holding .empty) (holding ⟨[(.zero, "[ ]")]⟩) := by
  repeat' constructor

theorem successes_crossing : source.successes .zero crossing = 2 := by
  have granted : ∀ text ∈ ["[]", "[ ]"], (read .zero (granting text)).isOk = true := by
    decide +kernel
  rw [List.forall_mem_cons, List.forall_mem_singleton] at granted
  simp [crossing, obtaining, asking, successes, grants, granted]

theorem crossing_shared : ∃ (calls : List Call) (tagged : List (Nat × Event system)),
    (source.together [.zero, .zero]).Runs crossing (some [.ok "[]", .ok "[ ]"]) ∧
    crossing.Follows id (holding .empty) (holding ⟨[(.zero, "[ ]")]⟩) ∧
    calls.map Call.outcome = [.ok "[]", .ok "[ ]"] ∧ tagged.map Prod.snd = crossing ∧
    calls.countP (fun c => decide (c.address = .zero ∧ c.granted source = true)) = 2 := by
  obtain ⟨calls, tagged, -, houtcomes, htrace, -, hsharing⟩ :=
    together_share runs_crossing follows_crossing
  refine ⟨calls, tagged, runs_crossing, follows_crossing, houtcomes, htrace, ?_⟩
  rw [← (hsharing .zero).successes, htrace]
  exact successes_crossing

/-- Of two calls that overlap both may be granted a text, and each another one. -/
theorem granted_twice_when_crossing :
    ¬ ∀ (explorer : Explorer) (addresses : List Address) (trace : Trace system)
      (outcomes : List (Except AbiFault String)) (m m' : State),
      (explorer.together addresses).Runs trace (some outcomes) → trace.Follows id m m' →
      ∀ a, explorer.successes a trace ≤ 1 ∧
        ∀ text text', (a, .ok text) ∈ addresses.zip outcomes →
          (a, .ok text') ∈ addresses.zip outcomes → text = text' := by
  intro once
  have hone := (once source [.zero, .zero] crossing _ _ _ runs_crossing follows_crossing .zero).1
  rw [successes_crossing] at hone
  exact absurd hone (by decide)

end Explorer

end ChainWatch
