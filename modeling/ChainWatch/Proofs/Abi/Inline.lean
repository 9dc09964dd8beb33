import ChainWatch.Abi.Table
import Mathlib.Data.List.Basic

/-!
# Configured tables in any order

The entries of a configured table come in no particular order. Whether they can all be taken in does not
depend on it (`exists_ofInline_iff`), but the text for an address is that of the last entry for it
(`find?_ofInline`). Two keys that spell one address in different ways are two entries for it, so a table
gives the same texts in any order exactly if the entries for an address have the same text.
-/

namespace ChainWatch.AbiTable

/-- The entry's key spells the address. -/
def Names (entry : String × String) (a : Address) : Prop :=
  Address.ofHex? (Text.trim entry.1.toList) = some a

instance (entry : String × String) (a : Address) : Decidable (Names entry a) :=
  inferInstanceAs (Decidable (_ = _))

/-- The entry's key spells an address and its text is an interface. -/
def Usable (entry : String × String) : Prop :=
  (∃ a, Names entry a) ∧ (Abi.Contract.parse? entry.2).isSome

def namesOf (entries : List (String × String)) (a : Address) : List (String × String) :=
  entries.filter fun entry => Names entry a

variable {entries : List (String × String)} {entry : String × String} {table next : AbiTable}
  {a : Address}

theorem Names.unique {b : Address} (ha : Names entry a) (hb : Names entry b) : a = b :=
  Option.some.inj (ha.symm.trans hb)

theorem mem_namesOf : entry ∈ namesOf entries a ↔ entry ∈ entries ∧ Names entry a := by
  rw [namesOf, List.mem_filter, decide_eq_true_eq]

theorem namesOf_cons : namesOf (entry :: entries) a =
    if Names entry a then entry :: namesOf entries a else namesOf entries a := by
  by_cases h : Names entry a <;> simp [namesOf, h]

theorem insertInline_eq_ok_iff : table.insertInline entry = .ok next ↔
    ∃ a, Names entry a ∧ (Abi.Contract.parse? entry.2).isSome ∧ next = table.insert a entry.2 := by
  unfold insertInline Names
  cases Address.ofHex? (Text.trim entry.1.toList) with
  | none => simp
  | some a => by_cases hp : (Abi.Contract.parse? entry.2).isSome <;> simp [hp, eq_comm]

theorem foldlM_cons_eq_ok_iff : (entry :: entries).foldlM insertInline table = .ok next ↔
    ∃ between, table.insertInline entry = .ok between ∧
      entries.foldlM insertInline between = .ok next := by
  rw [List.foldlM_cons]
  cases table.insertInline entry <;> simp [bind, Except.bind]

theorem exists_foldlM_iff : (∃ next, entries.foldlM insertInline table = .ok next) ↔
    ∀ entry ∈ entries, Usable entry := by
  induction entries generalizing table with
  | nil => simp [pure, Except.pure]
  | cons entry entries ih =>
      rw [List.forall_mem_cons]
      constructor
      · rintro ⟨next, h⟩
        obtain ⟨between, hentry, hrest⟩ := foldlM_cons_eq_ok_iff.mp h
        obtain ⟨a, ha, hp, -⟩ := insertInline_eq_ok_iff.mp hentry
        exact ⟨⟨⟨a, ha⟩, hp⟩, ih.mp ⟨next, hrest⟩⟩
      · rintro ⟨⟨⟨a, ha⟩, hp⟩, hrest⟩
        obtain ⟨next, h⟩ := ih.mpr hrest
        exact ⟨next, foldlM_cons_eq_ok_iff.mpr ⟨_, insertInline_eq_ok_iff.mpr ⟨a, ha, hp, rfl⟩, h⟩⟩

theorem exists_ofInline_iff : (∃ table, ofInline entries = .ok table) ↔
    ∀ entry ∈ entries, Usable entry :=
  exists_foldlM_iff

/-- What is taken in goes before what was in the table, and the later before the earlier. -/
theorem find?_foldlM (h : entries.foldlM insertInline table = .ok next) (a : Address) :
    next.find? a = ((namesOf entries a).getLast?.map (·.2)).or (table.find? a) := by
  induction entries generalizing table with
  | nil =>
      cases h
      rfl
  | cons entry entries ih =>
      obtain ⟨between, hentry, hrest⟩ := foldlM_cons_eq_ok_iff.mp h
      obtain ⟨b, hb, -, rfl⟩ := insertInline_eq_ok_iff.mp hentry
      rw [ih hrest, find?_insert]
      by_cases hab : a = b
      · subst hab
        rw [if_pos rfl, namesOf_cons, if_pos hb, List.getLast?_cons]
        cases (namesOf entries a).getLast? <;> rfl
      · have other : ¬ Names entry a := fun ha => hab (ha.unique hb)
        rw [if_neg hab, namesOf_cons, if_neg other]

/-- The text for an address is that of the last entry for it. -/
theorem find?_ofInline (h : ofInline entries = .ok table) (a : Address) :
    table.find? a = (namesOf entries a).getLast?.map (·.2) := by
  rw [find?_foldlM h, show empty.find? a = none from rfl, Option.or_none]

/-- Each of the entries for an address can come last. -/
theorem exists_last (usable : ∀ entry ∈ entries, Usable entry) (he : entry ∈ entries)
    (ha : Names entry a) : ∃ visited table, visited.Perm entries ∧ ofInline visited = .ok table ∧
      table.find? a = some entry.2 := by
  have order : (entries.erase entry ++ [entry]).Perm entries :=
    List.perm_append_comm.trans (List.perm_cons_erase he).symm
  obtain ⟨table, htable⟩ := exists_ofInline_iff.mpr fun e h => usable e (order.mem_iff.mp h)
  refine ⟨_, table, order, htable, ?_⟩
  have last : namesOf (entries.erase entry ++ [entry]) a = namesOf (entries.erase entry) a ++ [entry] := by
    simp [namesOf, List.filter_append, ha]
  rw [find?_ofInline htable, last, List.getLast?_concat, Option.map_some]

/-- Entries of one text for an address give the same text in any order. -/
theorem find?_eq_of_perm {left right : List (String × String)} {first second : AbiTable}
    (hperm : left.Perm right) (hleft : ofInline left = .ok first) (hright : ofInline right = .ok second)
    (alike : ∀ e ∈ namesOf left a, ∀ f ∈ namesOf left a, e.2 = f.2) :
    first.find? a = second.find? a := by
  have named : (namesOf left a).Perm (namesOf right a) := hperm.filter _
  rw [find?_ofInline hleft, find?_ofInline hright]
  cases he : (namesOf left a).getLast? with
  | none =>
      rw [List.getLast?_eq_none_iff.mp he] at named
      rw [← named.nil_eq, List.getLast?_nil]
  | some e =>
      cases hf : (namesOf right a).getLast? with
      | none =>
          rw [List.getLast?_eq_none_iff.mp hf] at named
          rw [named.eq_nil] at he
          cases he
      | some f =>
          have same : e.2 = f.2 := alike e (List.mem_of_getLast? he) f
            (named.mem_iff.mpr (List.mem_of_getLast? hf))
          rw [Option.map_some, Option.map_some, same]

/-- In whatever order its entries are visited, a table is taken in exactly if all of them are usable, and
the text for an address is that of the last entry for it. So the order does not matter for an address
exactly if the entries for it have one text. -/
theorem inline_in_any_order (entries : List (String × String)) :
    (∀ visited : List (String × String), visited.Perm entries →
      ((∃ table, ofInline visited = .ok table) ↔ ∀ entry ∈ entries, Usable entry)) ∧
    (∀ visited table, ofInline visited = .ok table → ∀ a,
      table.find? a = (namesOf visited a).getLast?.map (·.2)) ∧
    ((∀ entry ∈ entries, Usable entry) → ∀ a,
      ((∀ (left right : List (String × String)) (first second : AbiTable), left.Perm entries →
          right.Perm entries → ofInline left = .ok first → ofInline right = .ok second →
            first.find? a = second.find? a) ↔
        ∀ e ∈ entries, ∀ f ∈ entries, Names e a → Names f a → e.2 = f.2)) := by
  refine ⟨fun visited hperm => ?_, fun visited table h a => find?_ofInline h a, fun usable a => ?_⟩
  · rw [exists_ofInline_iff]
    exact forall_congr' fun entry => imp_congr_left hperm.mem_iff
  constructor
  · intro alike e he f hf hea hfa
    obtain ⟨left, first, hleft, hfirst, htext⟩ := exists_last usable he hea
    obtain ⟨right, second, hright, hsecond, htext'⟩ := exists_last usable hf hfa
    have same := alike left right first second hleft hright hfirst hsecond
    rw [htext, htext'] at same
    exact Option.some.inj same
  · intro alike left right first second hleft hright hfirst hsecond
    refine find?_eq_of_perm (hleft.trans hright.symm) hfirst hsecond fun e he f hf => ?_
    obtain ⟨he, hea⟩ := mem_namesOf.mp he
    obtain ⟨hf, hfa⟩ := mem_namesOf.mp hf
    exact alike e (hleft.mem_iff.mp he) f (hleft.mem_iff.mp hf) hea hfa

/-! ## Two spellings of one address -/

/-- An address of forty equal digits. -/
def spelling (digit : Char) : String :=
  String.ofList ('0' :: 'x' :: List.replicate 40 digit)

/-- One address in small letters with one text and in capitals with another. -/
def spelledTwice (text other : String) : List (String × String) :=
  [(spelling 'a', text), (spelling 'A', other)]

def spelled : Address := ⟨0xaaaaaaaaaaaaaaaaaaaaaaaaaaaaaaaaaaaaaaaa⟩

theorem names_spelling (text : String) :
    Names (spelling 'a', text) spelled ∧ Names (spelling 'A', text) spelled := by
  simp only [Names, spelling, String.toList_ofList]
  decide +kernel

theorem usable_spelledTwice {text other : String} (ht : (Abi.Contract.parse? text).isSome)
    (ho : (Abi.Contract.parse? other).isSome) : ∀ entry ∈ spelledTwice text other, Usable entry := by
  rw [spelledTwice, List.forall_mem_cons, List.forall_mem_singleton]
  exact ⟨⟨⟨_, (names_spelling text).1⟩, ht⟩, ⟨_, (names_spelling other).2⟩, ho⟩

theorem parse?_brackets :
    (Abi.Contract.parse? "[]").isSome ∧ (Abi.Contract.parse? "[ ]").isSome := by
  decide +kernel

theorem inline_in_any_order_spelledTwice :
    (∃ table, ofInline (spelledTwice "[]" "[ ]").reverse = .ok table ∧ table.find? spelled = some "[]") ∧
    ∀ (visited : List (String × String)) table, visited.Perm (spelledTwice "[]" "[]") →
      ofInline visited = .ok table → table.find? spelled = some "[]" := by
  obtain ⟨plain, spaced⟩ := parse?_brackets
  constructor
  · obtain ⟨taken, last, -⟩ := inline_in_any_order (spelledTwice "[]" "[ ]")
    obtain ⟨table, h⟩ := (taken _ (List.reverse_perm _)).mpr (usable_spelledTwice plain spaced)
    refine ⟨table, h, ?_⟩
    rw [last _ _ h]
    simp [spelledTwice, namesOf, names_spelling]
  · intro visited table hperm h
    obtain ⟨taken, last, orders⟩ := inline_in_any_order (spelledTwice "[]" "[]")
    have usable := usable_spelledTwice plain plain
    obtain ⟨first, hfirst⟩ := (taken _ (.refl _)).mpr usable
    have same := ((orders usable spelled).mpr (by simp [spelledTwice])) visited _ _ _ hperm (.refl _) h hfirst
    rw [same, last _ _ hfirst]
    simp [spelledTwice, namesOf, names_spelling]

/-- A configuration has a key once only, and yet the text for an address can depend on the order. -/
theorem text_depends_on_order :
    ¬ ∀ (entries left right : List (String × String)) (first second : AbiTable),
      (entries.map (·.1)).Nodup → left.Perm entries → right.Perm entries →
        ofInline left = .ok first → ofInline right = .ok second →
          ∀ a, first.find? a = second.find? a := by
  intro same
  have usable := usable_spelledTwice parse?_brackets.1 parse?_brackets.2
  obtain ⟨left, first, hleft, hfirst, small⟩ := exists_last usable (by simp [spelledTwice])
    (names_spelling "[]").1
  obtain ⟨right, second, hright, hsecond, capital⟩ := exists_last usable (by simp [spelledTwice])
    (names_spelling "[ ]").2
  have keys : ((spelledTwice "[]" "[ ]").map (·.1)).Nodup := by
    simp [spelledTwice, spelling]
  have h := same _ left right first second keys hleft hright hfirst hsecond spelled
  rw [small, capital] at h
  exact absurd h (by decide)

end ChainWatch.AbiTable
