import ChainWatch.Proofs.Abi.Inline
import ChainWatch.Proofs.Rule.Findings

/-!
# Lookups one after the other

A lookup asks the explorer when the table has no text for the address, and puts what it learns into the
table. So a table of interfaces holds interfaces only, a text that was once given for an address is given
for it ever after, and what goes wrong leaves no trace.
-/

namespace ChainWatch

open Concurrency

/-! ## Tables of interfaces -/

namespace AbiTable

/-- All texts of the table are interfaces. -/
def Sound (table : AbiTable) : Prop :=
  ∀ a text, table.find? a = some text → (Abi.Contract.parse? text).isSome

theorem sound_ofInline {entries : List (String × String)} {table : AbiTable}
    (h : ofInline entries = .ok table) : table.Sound := by
  intro a text ht
  rw [find?_ofInline h] at ht
  obtain ⟨entry, hlast, rfl⟩ := Option.map_eq_some_iff.mp ht
  have hmem := (mem_namesOf.mp (List.mem_of_getLast? hlast)).1
  exact (exists_ofInline_iff.mp ⟨table, h⟩ entry hmem).2

end AbiTable

namespace Explorer

/-! ## Single lookups -/

variable {explorer : Explorer} {m m' : State} {a b : Address} {text : String} {trace : Trace system}

theorem isSome_parse?_of_read {answer : Http.Outcome} (h : read a answer = .ok text) :
    (Abi.Contract.parse? text).isSome := by
  unfold read at h
  split at h
  · cases h
  · split at h
    · unfold readBody at h
      split at h
      · cases h
      · split at h
        · cases h
        · split at h
          · rename_i hparse
            cases h
            exact hparse
          · cases h
    · cases h

/-- The request of a lookup and its answer. -/
def asking (explorer : Explorer) (a : Address) (answer : Http.Outcome) : Trace system :=
  [.sent (.explore (explorer.url a)), .answered (.explore (explorer.url a)) answer]

/-- However a lookup can go, there is a run in which it goes so. -/
theorem runs_of_looks {outcome : Except AbiFault String} (h : explorer.Looks a trace outcome) :
    (explorer.lookup a).run.Runs trace (some outcome) := by
  -- It begins with a look at the table, whatever comes next.
  have begun {m : State} {later : Trace system} {next : State → ExceptT AbiFault Job String}
      (hl : (next m).run.Runs later (some outcome)) :
      (liftM (Activity.memory (I := system)) >>= next).run.Runs (.touched m m :: later)
        (some outcome) :=
    runs_exceptT_bind_some.mpr (.inr ⟨m, [.touched m m], later,
      runs_lift_some.mpr ⟨m, Activity.runs_memory_some.mpr rfl, rfl⟩, hl, rfl⟩)
  have asked {answer : Http.Outcome} {later : Trace system}
      {next : Http.Outcome → ExceptT AbiFault Job String}
      (hl : (next answer).run.Runs later (some outcome)) :
      (liftM (Activity.request (I := system) (.explore (explorer.url a))) >>= next).run.Runs
        (explorer.asking a answer ++ later) (some outcome) :=
    runs_exceptT_bind_some.mpr (.inr ⟨answer, explorer.asking a answer, later,
      runs_lift_some.mpr ⟨answer, Activity.runs_request_some.mpr rfl, rfl⟩, hl, rfl⟩)
  cases h with
  | known m hfind =>
      refine begun ?_
      simp only [hfind]
      exact runs_exceptT_pure_some.mpr ⟨rfl, rfl⟩
  | nowhere m hfind hb =>
      refine begun ?_
      simp only [hfind, if_pos hb]
      exact runs_throw_some.mpr ⟨rfl, rfl⟩
  | refused m answer hfind hb hread =>
      refine begun ?_
      simp only [hfind, if_neg hb]
      refine asked ?_
      simp only [hread]
      exact runs_throw_some.mpr ⟨rfl, rfl⟩
  | learned m m' answer hfind hb hread =>
      refine begun ?_
      simp only [hfind, if_neg hb]
      refine asked ?_
      simp only [hread]
      exact runs_exceptT_bind_some.mpr (.inr ⟨(), _, [],
        runs_lift_some.mpr ⟨(), Activity.runs_modify_some.mpr ⟨m', rfl⟩, rfl⟩,
        runs_exceptT_pure_some.mpr ⟨rfl, rfl⟩, rfl⟩)

/-- The memory after an outcome: an interface has entered the table, a fault has not. -/
def learned (m : State) (a : Address) : Except AbiFault String → State
  | .ok text => { m with abis := m.abis.insert a text }
  | .error _ => m

/-- A lookup: for what, how it found and left the memory, what it did, and how it came out. -/
structure Lookup where
  address : Address
  found : State
  left : State
  trace : Trace system
  outcome : Except AbiFault String

namespace Lookup

def exchange (l : Lookup) : Trace system := l.trace.exchanged

/-- The explorer is looked up in such a way, while nobody else touches the memory. -/
structure Of (l : Lookup) (explorer : Explorer) : Prop where
  runs : (explorer.lookup l.address).run.Runs l.trace (some l.outcome)
  follows : l.trace.Follows id l.found l.left

/-- The text is in the table, and nobody is asked. -/
structure Knows (l : Lookup) (text : String) : Prop where
  find : l.found.abis.find? l.address = some text
  outcome : l.outcome = .ok text
  exchange : l.exchange = []
  left : l.left = l.found

/-- The text is not in the table, and there is nobody to ask. -/
structure Misses (l : Lookup) (explorer : Explorer) : Prop where
  find : l.found.abis.find? l.address = none
  base : explorer.base = ""
  outcome : l.outcome = .error (.notFound l.address)
  exchange : l.exchange = []
  left : l.left = l.found

/-- The text is not in the table, and the explorer is asked for it once. -/
structure Inquires (l : Lookup) (explorer : Explorer) (answer : Http.Outcome) : Prop where
  find : l.found.abis.find? l.address = none
  base : explorer.base ≠ ""
  outcome : l.outcome = read l.address answer
  exchange : l.exchange = explorer.asking l.address answer
  left : l.left = learned l.found l.address l.outcome

variable {l : Lookup}

/-- All that a lookup can do. -/
theorem Of.cases (h : l.Of explorer) :
    (∃ text, l.Knows text) ∨ l.Misses explorer ∨ ∃ answer, l.Inquires explorer answer := by
  obtain ⟨address, found, left, trace, outcome⟩ := l
  have hlooks : explorer.Looks address trace outcome := runs_lookup_some h.runs
  have hf : trace.Follows id found left := h.follows
  cases hlooks with
  | known m hfind =>
      obtain ⟨rfl, rfl⟩ := hf
      exact .inl ⟨_, hfind, rfl, rfl, rfl⟩
  | nowhere m hfind hb =>
      obtain ⟨rfl, rfl⟩ := hf
      exact .inr (.inl ⟨hfind, hb, rfl, rfl, rfl⟩)
  | refused m answer hfind hb hread =>
      obtain ⟨rfl, rfl⟩ := hf
      exact .inr (.inr ⟨answer, hfind, hb, hread.symm, rfl, rfl⟩)
  | learned m m' answer hfind hb hread =>
      obtain ⟨rfl, rfl, rfl⟩ := hf
      exact .inr (.inr ⟨answer, hfind, hb, hread.symm, rfl, rfl⟩)

theorem Of.memory_eq (h : l.Of explorer) : l.left = { l.found with abis := l.left.abis } := by
  obtain ⟨text, hk⟩ | hm | ⟨answer, hi⟩ := h.cases
  · rw [hk.left]
  · rw [hm.left]
  · rw [hi.left]
    cases l.outcome <;> rfl

theorem Of.knows (h : l.Of explorer) (hf : l.found.abis.find? l.address = some text) :
    l.Knows text := by
  obtain ⟨other, hk⟩ | hm | ⟨answer, hi⟩ := h.cases
  · have heq : other = text := Option.some.inj (hk.find.symm.trans hf)
    exact heq ▸ hk
  · simp [hm.find] at hf
  · simp [hi.find] at hf

theorem Of.inquires (h : l.Of explorer) (hf : l.found.abis.find? l.address = none)
    (hb : explorer.base ≠ "") : ∃ answer, l.Inquires explorer answer := by
  obtain ⟨text, hk⟩ | hm | hi := h.cases
  · simp [hk.find] at hf
  · exact absurd hm.base hb
  · exact hi

theorem Of.exchange_eq_nil (h : l.Of explorer) (hb : explorer.base = "") : l.exchange = [] := by
  obtain ⟨text, hk⟩ | hm | ⟨answer, hi⟩ := h.cases
  · exact hk.exchange
  · exact hm.exchange
  · exact absurd hb hi.base

theorem Of.misses (h : l.Of explorer) (hf : l.found.abis.find? l.address = none)
    (hb : explorer.base = "") : l.Misses explorer := by
  obtain ⟨text, hk⟩ | hm | ⟨answer, hi⟩ := h.cases
  · simp [hk.find] at hf
  · exact hm
  · exact absurd hb hi.base

theorem Of.left_of_error {fault : AbiFault} (h : l.Of explorer) (ho : l.outcome = .error fault) :
    l.left = l.found := by
  obtain ⟨text, hk⟩ | hm | ⟨answer, hi⟩ := h.cases
  · exact hk.left
  · exact hm.left
  · rw [hi.left, ho]
    rfl

/-- A text that was not given by the time of a fault is not there afterwards. -/
theorem Of.find?_of_error {fault : AbiFault} (h : l.Of explorer) (ho : l.outcome = .error fault) :
    l.left.abis.find? l.address = none := by
  rw [h.left_of_error ho]
  obtain ⟨text, hk⟩ | hm | ⟨answer, hi⟩ := h.cases
  · rw [hk.outcome] at ho
    cases ho
  · exact hm.find
  · exact hi.find

theorem Of.find?_of_ok (h : l.Of explorer) (ho : l.outcome = .ok text) :
    l.left.abis.find? l.address = some text := by
  obtain ⟨other, hk⟩ | hm | ⟨answer, hi⟩ := h.cases
  · have heq : other = text := Except.ok.inj (hk.outcome.symm.trans ho)
    rw [hk.left, hk.find, heq]
  · rw [hm.outcome] at ho
    cases ho
  · rw [hi.left, ho, learned, AbiTable.find?_insert, if_pos rfl]

theorem Of.find?_of_ne (h : l.Of explorer) (hb : b ≠ l.address) :
    l.left.abis.find? b = l.found.abis.find? b := by
  obtain ⟨text, hk⟩ | hm | ⟨answer, hi⟩ := h.cases
  · rw [hk.left]
  · rw [hm.left]
  · rw [hi.left]
    cases l.outcome with
    | ok text => rw [learned, AbiTable.find?_insert, if_neg hb]
    | error fault => rfl

theorem Of.keeps (h : l.Of explorer) (hf : l.found.abis.find? b = some text) :
    l.left.abis.find? b = some text := by
  by_cases hb : b = l.address
  · rw [hb] at hf ⊢
    exact h.find?_of_ok (h.knows hf).outcome
  · rw [h.find?_of_ne hb, hf]

theorem Of.parses (h : l.Of explorer) (hs : l.found.abis.Sound) (ho : l.outcome = .ok text) :
    (Abi.Contract.parse? text).isSome := by
  obtain ⟨other, hk⟩ | hm | ⟨answer, hi⟩ := h.cases
  · have heq : other = text := Except.ok.inj (hk.outcome.symm.trans ho)
    exact hs _ _ (heq ▸ hk.find)
  · rw [hm.outcome] at ho
    cases ho
  · exact isSome_parse?_of_read (hi.outcome.symm.trans ho)

theorem Of.sound (h : l.Of explorer) (hs : l.found.abis.Sound) : l.left.abis.Sound := by
  intro b text hf
  by_cases hb : b = l.address
  · rw [hb] at hf
    cases ho : l.outcome with
    | ok other =>
        have heq : other = text := Option.some.inj ((h.find?_of_ok ho).symm.trans hf)
        exact heq ▸ h.parses hs ho
    | error fault =>
        rw [h.find?_of_error ho] at hf
        cases hf
  · rw [h.find?_of_ne hb] at hf
    exact hs b text hf

/-- What shows of a lookup from outside. -/
def shown (l : Lookup) : Address × Trace system × Except AbiFault String :=
  (l.address, l.exchange, l.outcome)

/-- What shows of a lookup depends on the table for its address only. -/
theorem Of.exists_replay (h : l.Of explorer)
    (hm : m.abis.find? l.address = l.found.abis.find? l.address) :
    ∃ l' : Lookup, l'.Of explorer ∧ l'.found = m ∧ l'.shown = l.shown ∧
      l'.left.abis.find? l.address = l.left.abis.find? l.address := by
  obtain ⟨text, hk⟩ | hm' | ⟨answer, hi⟩ := h.cases
  · have hfind : m.abis.find? l.address = some text := hm.trans hk.find
    refine ⟨⟨l.address, m, m, [.touched m m], .ok text⟩, ⟨?_, rfl, rfl⟩, rfl, ?_, ?_⟩
    · exact runs_of_looks (.known m hfind)
    · rw [shown, shown, hk.exchange, hk.outcome]
      rfl
    · rw [hk.left]
      exact hm
  · have hfind : m.abis.find? l.address = none := hm.trans hm'.find
    refine ⟨⟨l.address, m, m, [.touched m m], .error (.notFound l.address)⟩, ⟨?_, rfl, rfl⟩, rfl,
      ?_, ?_⟩
    · exact runs_of_looks (.nowhere m hfind hm'.base)
    · rw [shown, shown, hm'.exchange, hm'.outcome]
      rfl
    · rw [hm'.left]
      exact hm
  · have hfind : m.abis.find? l.address = none := hm.trans hi.find
    cases ho : l.outcome with
    | error fault =>
        have hread : read l.address answer = .error fault := hi.outcome.symm.trans ho
        refine ⟨⟨l.address, m, m, .touched m m :: explorer.asking l.address answer, .error fault⟩,
          ⟨?_, rfl, rfl⟩, rfl, ?_, ?_⟩
        · exact runs_of_looks (.refused m answer hfind hi.base hread)
        · rw [shown, shown, hi.exchange, ho]
          rfl
        · rw [h.left_of_error ho]
          exact hm
    | ok text =>
        have hread : read l.address answer = .ok text := hi.outcome.symm.trans ho
        let m' := learned m l.address (.ok text)
        have hrun := runs_of_looks (.learned m m answer hfind hi.base hread)
        refine ⟨⟨l.address, m, m', _, .ok text⟩, ⟨hrun, rfl, rfl, rfl⟩, rfl, ?_, ?_⟩
        · rw [shown, shown, hi.exchange, ho]
          rfl
        · rw [h.find?_of_ok ho, show m' = learned m l.address (.ok text) from rfl, learned,
            AbiTable.find?_insert, if_pos rfl]

end Lookup
/-! ## Rows of lookups -/

/-- Lookups one after the other, each with how it comes out. -/
def lookups (explorer : Explorer) : List Address → Job (List (Except AbiFault String))
  | [] => return []
  | a :: later => do
    let outcome ← (explorer.lookup a).run
    let outcomes ← explorer.lookups later
    return outcome :: outcomes

/-- From the first memory to the last one, each lookup finds what the one before has left. -/
def Row (explorer : Explorer) : State → List Lookup → State → Prop
  | m, [], m' => m' = m
  | m, l :: later, m' => l.found = m ∧ l.Of explorer ∧ Row explorer l.left later m'

section Row

variable {row early late : List Lookup} {l first : Lookup} {fault : AbiFault}

theorem row_append :
    explorer.Row m (early ++ late) m' ↔ ∃ z, explorer.Row m early z ∧ explorer.Row z late m' := by
  induction early generalizing m with
  | nil => simp [Row]
  | cons l early ih => simp only [List.cons_append, Row, ih, exists_and_left, and_assoc]

/-- A lookup of a row, with the memory between it and the ones before. -/
theorem Row.split (h : explorer.Row m (early ++ l :: late) m') :
    l.Of explorer ∧ explorer.Row m early l.found ∧ explorer.Row l.left late m' := by
  obtain ⟨z, hearly, rfl, hl, hlate⟩ := row_append.mp h
  exact ⟨hl, hearly, hlate⟩

theorem Row.keeps (h : explorer.Row m row m') (hf : m.abis.find? a = some text) :
    m'.abis.find? a = some text := by
  induction row generalizing m with
  | nil => rwa [show m' = m from h]
  | cons l row ih =>
      obtain ⟨rfl, hl, hrow⟩ := h
      exact ih hrow (hl.keeps hf)

theorem Row.find?_of_others (h : explorer.Row m row m') (ho : ∀ l ∈ row, l.address ≠ a) :
    m'.abis.find? a = m.abis.find? a := by
  induction row generalizing m with
  | nil => rw [show m' = m from h]
  | cons l row ih =>
      obtain ⟨rfl, hl, hrow⟩ := h
      obtain ⟨hhead, htail⟩ := List.forall_mem_cons.mp ho
      rw [ih hrow htail, hl.find?_of_ne hhead.symm]

theorem Row.sound (h : explorer.Row m row m') (hs : m.abis.Sound) : m'.abis.Sound := by
  induction row generalizing m with
  | nil => rwa [show m' = m from h]
  | cons l row ih =>
      obtain ⟨rfl, hl, hrow⟩ := h
      exact ih hrow (hl.sound hs)

/-- Where nobody can be asked, the table stays as it is. -/
theorem Row.eq_of_nowhere (h : explorer.Row m row m') (hb : explorer.base = "") : m' = m := by
  induction row generalizing m with
  | nil => exact h
  | cons l row ih =>
      obtain ⟨rfl, hl, hrow⟩ := h
      have hleft : l.left = l.found := by
        obtain ⟨text, hk⟩ | hm | ⟨answer, hi⟩ := hl.cases
        · exact hk.left
        · exact hm.left
        · exact absurd hb hi.base
      rw [ih hrow, hleft]

/-- The lookups for one address could have been made without the others. -/
theorem Row.exists_alone (h : explorer.Row m row m') (a : Address) {other : State}
    (hm : other.abis.find? a = m.abis.find? a) :
    ∃ alone other', explorer.Row other alone other' ∧
      alone.map Lookup.shown = (row.filter (·.address = a)).map Lookup.shown := by
  induction row generalizing m other with
  | nil => exact ⟨[], other, rfl, rfl⟩
  | cons l row ih =>
      obtain ⟨rfl, hl, hrow⟩ := h
      by_cases ha : l.address = a
      · obtain ⟨l', hl', rfl, hshown, hleft⟩ := hl.exists_replay (ha ▸ hm)
        obtain ⟨alone, other', halone, heq⟩ := ih hrow (ha ▸ hleft)
        refine ⟨l' :: alone, other', ⟨rfl, hl', halone⟩, ?_⟩
        rw [List.filter_cons_of_pos (by simpa using ha), List.map_cons, List.map_cons, hshown, heq]
      · have hleft : other.abis.find? a = l.left.abis.find? a := by
          rw [hm, hl.find?_of_ne (Ne.symm ha)]
        rw [List.filter_cons_of_neg (by simpa using ha)]
        exact ih hrow hleft

/-- What a row of lookups from some memory keeps to. -/
structure Remembers (explorer : Explorer) (m : State) (row : List Lookup) : Prop where
  /-- Only interfaces are given. -/
  parses : ∀ l ∈ row, ∀ text, l.outcome = .ok text → (Abi.Contract.parse? text).isSome
  /-- What is in the table from the start is given without a question. -/
  seeded : ∀ l ∈ row, ∀ text, m.abis.find? l.address = some text →
    l.outcome = .ok text ∧ l.exchange = []
  /-- So is what was given once. -/
  settled : ∀ early first late text, row = early ++ first :: late → first.outcome = .ok text →
    ∀ l ∈ late, l.address = first.address → l.outcome = .ok text ∧ l.exchange = []
  /-- A fault leaves the memory as it was. -/
  failed : ∀ l ∈ row, ∀ fault, l.outcome = .error fault → l.left = l.found
  /-- Wherever there is an explorer, the next lookup for that address asks it again. -/
  again : explorer.base ≠ "" → ∀ early first between next late fault,
    row = early ++ first :: (between ++ next :: late) → first.outcome = .error fault →
    next.address = first.address → (∀ l ∈ between, l.address ≠ first.address) →
    ∃ answer, next.exchange = explorer.asking next.address answer ∧
      next.outcome = read next.address answer
  /-- Nothing but the text for its own address is touched by a lookup. -/
  confined : ∀ l ∈ row, l.left = { l.found with abis := l.left.abis } ∧
    ∀ b, b ≠ l.address → l.left.abis.find? b = l.found.abis.find? b
  /-- All lookups for one address show what they would show without the others. -/
  apart : ∀ a, ∃ alone m', explorer.Row m alone m' ∧
    alone.map Lookup.shown = (row.filter (·.address = a)).map Lookup.shown
  /-- Without an explorer nobody is asked, and nothing is found that was not there from the start. -/
  nowhere : explorer.base = "" → ∀ l ∈ row, l.exchange = [] ∧
    (m.abis.find? l.address = none → l.outcome = .error (.notFound l.address))

theorem Row.exists_of_mem (h : explorer.Row m row m') (hl : l ∈ row) :
    ∃ early late, row = early ++ l :: late ∧ l.Of explorer ∧ explorer.Row m early l.found := by
  obtain ⟨early, late, rfl⟩ := List.append_of_mem hl
  obtain ⟨hof, hearly, -⟩ := h.split
  exact ⟨early, late, rfl, hof, hearly⟩

theorem Row.remembers (h : explorer.Row m row m') (hs : m.abis.Sound) :
    explorer.Remembers m row where
  parses := by
    intro l hl text ho
    obtain ⟨early, late, -, hof, hearly⟩ := h.exists_of_mem hl
    exact hof.parses (hearly.sound hs) ho
  seeded := by
    intro l hl text hf
    obtain ⟨early, late, -, hof, hearly⟩ := h.exists_of_mem hl
    have hknows := hof.knows (hearly.keeps hf)
    exact ⟨hknows.outcome, hknows.exchange⟩
  settled := by
    rintro early first late text rfl ho l hl ha
    obtain ⟨hfirst, -, hlate⟩ := h.split
    obtain ⟨between, later, -, hof, hbetween⟩ := hlate.exists_of_mem hl
    have hfind : first.left.abis.find? l.address = some text := by
      rw [ha]
      exact hfirst.find?_of_ok ho
    have hknows := hof.knows (hbetween.keeps hfind)
    exact ⟨hknows.outcome, hknows.exchange⟩
  failed := by
    intro l hl fault ho
    obtain ⟨early, late, -, hof, -⟩ := h.exists_of_mem hl
    exact hof.left_of_error ho
  again := by
    rintro hb early first between next late fault rfl ho ha hothers
    obtain ⟨hfirst, -, hlate⟩ := h.split
    obtain ⟨hnext, hbetween, -⟩ := hlate.split
    have hfind : next.found.abis.find? next.address = none := by
      rw [ha, hbetween.find?_of_others hothers, hfirst.find?_of_error ho]
    obtain ⟨answer, hi⟩ := hnext.inquires hfind hb
    exact ⟨answer, hi.exchange, hi.outcome⟩
  confined := by
    intro l hl
    obtain ⟨early, late, -, hof, -⟩ := h.exists_of_mem hl
    exact ⟨hof.memory_eq, fun b hb => hof.find?_of_ne hb⟩
  apart a := h.exists_alone a rfl
  nowhere := by
    intro hb l hl
    obtain ⟨early, late, -, hof, hearly⟩ := h.exists_of_mem hl
    have hfound : l.found = m := hearly.eq_of_nowhere hb
    exact ⟨hof.exchange_eq_nil hb, fun hf => (hof.misses (hfound ▸ hf) hb).outcome⟩

end Row

theorem runs_lookups_cons_some {later : List Address} {outcomes : List (Except AbiFault String)} :
    (explorer.lookups (a :: later)).Runs trace (some outcomes) ↔
      ∃ outcome others first rest, outcomes = outcome :: others ∧ trace = first ++ rest ∧
        (explorer.lookup a).run.Runs first (some outcome) ∧
        (explorer.lookups later).Runs rest (some others) := by
  rw [lookups, Activity.runs_bind_some]
  constructor
  · rintro ⟨outcome, first, _, hfirst, hlater, rfl⟩
    obtain ⟨others, rest, _, hrest, hlast, rfl⟩ := Activity.runs_bind_some.mp hlater
    obtain ⟨rfl, rfl⟩ := Activity.runs_pure_some.mp hlast
    exact ⟨outcome, others, first, rest, rfl, by simp, hfirst, hrest⟩
  · rintro ⟨outcome, others, first, rest, rfl, rfl, hfirst, hrest⟩
    refine ⟨outcome, first, rest, hfirst, Activity.runs_bind_some.mpr ?_, rfl⟩
    exact ⟨others, rest, [], hrest, Activity.runs_pure_some.mpr ⟨rfl, rfl⟩, by simp⟩

/-- What lookups one after the other do is a row of lookups. -/
theorem exists_row_of_lookups {addresses : List Address}
    {outcomes : List (Except AbiFault String)}
    (hr : (explorer.lookups addresses).Runs trace (some outcomes)) (hf : trace.Follows id m m') :
    ∃ row : List Lookup, row.map Lookup.address = addresses ∧ row.map Lookup.outcome = outcomes ∧
      row.flatMap Lookup.trace = trace ∧ explorer.Row m row m' := by
  induction addresses generalizing trace outcomes m with
  | nil =>
      obtain ⟨rfl, rfl⟩ := Activity.runs_pure_some.mp hr
      exact ⟨[], rfl, rfl, rfl, hf⟩
  | cons a later ih =>
      obtain ⟨outcome, others, first, rest, rfl, rfl, hfirst, hrest⟩ := runs_lookups_cons_some.mp hr
      obtain ⟨between, hbefore, hafter⟩ := Trace.follows_append.mp hf
      obtain ⟨row, rfl, rfl, rfl, hrow⟩ := ih hrest hafter
      exact ⟨⟨a, m, between, first, outcome⟩ :: row, rfl, rfl, rfl, rfl, ⟨hfirst, hbefore⟩, hrow⟩

theorem waitFree_lookups (explorer : Explorer) (addresses : List Address) :
    (explorer.lookups addresses).WaitFree := by
  induction addresses with
  | nil => exact Activity.confined_pure _
  | cons a later ih =>
      refine (explorer.waitFree_lookup a).bind fun outcome => ?_
      exact ih.bind fun outcomes => Activity.confined_pure _

/-- Lookups one after the other, against a table of configured entries and an explorer that may answer
anything: they all come to an end, and together they are a row which keeps to `Remembers`. -/
theorem lookups_remember {entries : List (String × String)} {table : AbiTable}
    (ht : AbiTable.ofInline entries = .ok table) (url key : String) (addresses : List Address)
    {σ : Type} (h : Handler system σ) (now : Nat) (w : World system σ) (hw : w.memory.abis = table) :
    let explorer := ofUrl url key
    let ending := (explorer.lookups addresses).run h now w
    ∃ row : List Lookup, row.map Lookup.address = addresses ∧
      ending.value? = some (row.map Lookup.outcome) ∧
      explorer.Row w.memory row ending.world.memory ∧
      Trace.Served h (row.flatMap Lookup.trace) w.outside ending.world.outside ∧
      explorer.Remembers w.memory row := by
  intro explorer ending
  obtain ⟨outcomes, hv⟩ : ∃ outcomes, ending.value? = some outcomes :=
    Activity.exists_value_of_waitFree h now _ w (explorer.waitFree_lookups addresses)
  obtain ⟨trace, hr, hf, hserved⟩ :=
    Activity.exists_trace_of_run h now (explorer.lookups addresses) w
  rw [show (Activity.run ..).value? = some outcomes from hv] at hr
  obtain ⟨row, haddresses, rfl, rfl, hrow⟩ := exists_row_of_lookups hr hf
  have hs : w.memory.abis.Sound := hw ▸ AbiTable.sound_ofInline ht
  exact ⟨row, haddresses, hv, hrow, hserved, hrow.remembers hs⟩

/-! ### An explorer that fails at first -/

/-- The answer of an explorer that has a text. -/
def granting (text : String) : Http.Outcome :=
  .replied ⟨200, Bytes.ofString ("\x7b\"status\":\"1\",\"result\":\"" ++ text ++ "\"\x7d")⟩

/-- An explorer that fails on its first request and then has another text each time. -/
def fickle : Handler system Nat where
  submit _ n := (0, n + 1)
  settle
    | .explore _, n =>
      (.now (if n = 1 then .replied ⟨500, []⟩ else granting ("[" ++ "".pushn ' ' n ++ "]")), n)
    | .chain _ _, n => (.now (.error .exchange), n)
    | .container _ _, n => (.now (.error .unavailable), n)
    | .deliver _, n => (.now (.error .exchange), n)
    | .enqueue _, n => (.now (.error .notWritable), n)

def seeded : AbiTable := ⟨[(.zero, "[]")]⟩

/-- A lookup of a configured address, three of another one and one of a third. -/
def sought : List Address := [.zero, ⟨1⟩, ⟨1⟩, ⟨1⟩, ⟨2⟩]

def begun : World system Nat := ⟨.initial "" seeded, 0⟩

theorem value?_sought :
    (((ofUrl "http://explorer/" "").lookups sought).run fickle 0 begun).value? =
      some [.ok "[]", .error (.status 500), .ok "[  ]", .ok "[  ]", .ok "[   ]"] := by
  rw [← Activity.run_poll]
  have polled : (((ofUrl "http://explorer/" "").lookups sought).poll fickle 0 begun).1.value? =
      some [.ok "[]", .error (.status 500), .ok "[  ]", .ok "[  ]", .ok "[   ]"] := by
    decide +kernel
  rw [Activity.run_of_value polled]

theorem sought_remembered : ∃ row : List Lookup,
    AbiTable.ofInline [("0x0000000000000000000000000000000000000000", "[]")] = .ok seeded ∧
    row.map Lookup.address = sought ∧
    row.map Lookup.outcome =
      [.ok "[]", .error (.status 500), .ok "[  ]", .ok "[  ]", .ok "[   ]"] ∧
    (ofUrl "http://explorer/" "").Remembers begun.memory row := by
  have built : AbiTable.ofInline [("0x0000000000000000000000000000000000000000", "[]")] =
      .ok seeded := by decide +kernel
  obtain ⟨row, haddresses, hv, -, -, hremembers⟩ :=
    lookups_remember built "http://explorer/" "" sought fickle 0 begun rfl
  have houtcomes := Option.some.inj (hv.symm.trans value?_sought)
  exact ⟨row, built, haddresses, houtcomes, hremembers⟩

end Explorer
end ChainWatch
