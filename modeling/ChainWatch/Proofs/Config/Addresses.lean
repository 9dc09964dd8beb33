import ChainWatch.Proofs.Config.Build
import ChainWatch.Proofs.Text.Pieces
import Mathlib.Data.List.Forall2

/-!
# Addresses in an environment

Without a file, the nodes are those whose addresses the environment lists between commas. Each piece that
is not blank is one address, once the blanks around it are taken off (`addresses_intercalate`), and the
nodes are numbered without gaps, so that addresses which are written with blanks around them and blank
pieces between them are read back (`addresses_of_spreads`).
-/

namespace ChainWatch.Config

open Text

/-- The list is cut at its commas into the pieces. -/
structure Cuts (list : String) (pieces : List String) : Prop where
  ne_nil : pieces ≠ []
  no_comma : ∀ piece ∈ pieces, ',' ∉ piece.toList
  joined : list = ",".intercalate pieces

/-- There are blanks in the piece, or nothing at all. -/
def IsVacant (piece : String) : Prop := ∀ c ∈ piece.toList, isBlank c = true

instance (piece : String) : Decidable (IsVacant piece) :=
  List.decidableBAll (fun c => isBlank c = true) piece.toList

/-- The address is the piece without the blanks at its ends. -/
def Trims (piece address : String) : Prop :=
  Pads address.toList piece.toList ∧ Tight address.toList

/-- The pieces are the addresses with blanks around them, and vacant ones in any places. -/
inductive Spreads : List String → List String → Prop
  | nil : Spreads [] []
  | vacant {addresses pieces : List String} {piece : String} (h : IsVacant piece)
      (rest : Spreads addresses pieces) : Spreads addresses (piece :: pieces)
  | address {addresses pieces : List String} {piece address : String}
      (h : Pads address.toList piece.toList) (rest : Spreads addresses pieces) :
      Spreads (address :: addresses) (piece :: pieces)

/-- The node at an address of the list, by its place there. -/
def nodeAt (place : Nat) (address : String) : NodeEntry where
  name := s!"rpc-{place + 1}"
  rpcUrl := address
  kind := .unmanaged
  container := none
  resetMethod := "anvil_reset"

/-! ## Pieces -/

section Pieces

variable {list piece address : String} {pieces : List String}

theorem pieces_of_cuts (h : Cuts list pieces) :
    Text.pieces ',' list.toList = pieces.map String.toList := by
  rw [h.joined, String.toList_intercalate]
  refine pieces_intercalate (by simpa using h.ne_nil) fun part hpart => ?_
  obtain ⟨piece, hpiece, rfl⟩ := List.mem_map.mp hpart
  exact h.no_comma piece hpiece

theorem Cuts.unique {others : List String} (h : Cuts list pieces) (h' : Cuts list others) :
    pieces = others := by
  have same := (pieces_of_cuts h).symm.trans (pieces_of_cuts h')
  exact List.map_injective_iff.mpr (fun _ _ => String.toList_injective) same

theorem exists_cuts (list : String) : ∃ pieces, Cuts list pieces := by
  have back : ((Text.pieces ',' list.toList).map String.ofList).map String.toList =
      Text.pieces ',' list.toList := by
    simp [List.map_map, Function.comp_def]
  refine ⟨(Text.pieces ',' list.toList).map String.ofList, ?_, ?_, ?_⟩
  · simpa using pieces_ne_nil ',' list.toList
  · intro piece hpiece
    obtain ⟨part, hpart, rfl⟩ := List.mem_map.mp hpiece
    rw [String.toList_ofList]
    exact not_mem_of_mem_pieces hpart
  · rw [← String.toList_inj, String.toList_intercalate, back]
    exact (intercalate_pieces ',' list.toList).symm

theorem trims_iff : Trims piece address ↔ String.ofList (trim piece.toList) = address := by
  rw [Trims, ← trim_eq_iff, ← String.toList_inj, String.toList_ofList]

theorem trim_eq_nil_iff : trim piece.toList = [] ↔ IsVacant piece := by
  rw [trim_eq_iff, and_iff_left (tight_of_forall (by simp))]
  constructor
  · rintro ⟨left, right, htext, hleft, hright⟩ c hc
    rw [htext, List.append_nil] at hc
    exact (List.mem_append.mp hc).elim (hleft c) (hright c)
  · exact fun h => ⟨piece.toList, [], by simp, h, by simp⟩

/-- What is left of the pieces when the vacant ones are dropped and the blanks are taken off. -/
theorem addresses_of_cuts (h : Cuts list pieces) : addresses list =
    (pieces.filter fun piece => ¬ IsVacant piece).map fun piece => String.ofList (trim piece.toList) := by
  have kept : (fun piece : String => decide (trim piece.toList ≠ [])) =
      fun piece => decide (¬ IsVacant piece) := by
    funext piece
    rw [decide_eq_decide, Ne, trim_eq_nil_iff]
  rw [addresses, pieces_of_cuts h, List.map_map, List.filter_map, List.map_map]
  exact congrArg (fun p => (pieces.filter p).map _) kept

theorem forall₂_addresses (h : Cuts list pieces) :
    List.Forall₂ Trims (pieces.filter fun piece => ¬ IsVacant piece) (addresses list) := by
  rw [addresses_of_cuts h, List.forall₂_map_right_iff, List.forall₂_same]
  exact fun piece _ => trims_iff.mpr rfl

theorem addresses_eq_nil_iff (h : Cuts list pieces) :
    addresses list = [] ↔ ∀ piece ∈ pieces, IsVacant piece := by
  rw [addresses_of_cuts h, List.map_eq_nil_iff, List.filter_eq_nil_iff]
  simp

end Pieces

/-! ## Reading back -/

section Spreads

variable {list : String} {urls pieces : List String}

theorem Spreads.no_comma (h : Spreads urls pieces) (hurls : ∀ url ∈ urls, ',' ∉ url.toList) :
    ∀ piece ∈ pieces, ',' ∉ piece.toList := by
  have visible : ¬ isBlank ',' = true := by decide
  induction h with
  | nil => simp
  | vacant hvacant _ ih =>
      exact List.forall_mem_cons.mpr ⟨fun hc => visible (hvacant _ hc), ih hurls⟩
  | address hpads _ ih =>
      obtain ⟨hurl, hrest⟩ := List.forall_mem_cons.mp hurls
      refine List.forall_mem_cons.mpr ⟨fun hc => ?_, ih hrest⟩
      obtain ⟨left, right, htext, hleft, hright⟩ := hpads
      rw [htext, List.mem_append, List.mem_append] at hc
      rcases hc with (hc | hc) | hc
      · exact visible (hleft _ hc)
      · exact hurl hc
      · exact visible (hright _ hc)

theorem Spreads.kept (h : Spreads urls pieces) (hurls : ∀ url ∈ urls, url ≠ "" ∧ Tight url.toList) :
    ((pieces.filter fun piece => ¬ IsVacant piece).map fun piece =>
      String.ofList (trim piece.toList)) = urls := by
  induction h with
  | nil => rfl
  | vacant hvacant _ ih =>
      rw [List.filter_cons_of_neg (by simpa using hvacant)]
      exact ih hurls
  | @address _ _ piece url hpads _ ih =>
      obtain ⟨⟨hne, htight⟩, hrest⟩ := List.forall_mem_cons.mp hurls
      have core : String.ofList (trim piece.toList) = url := trims_iff.mp ⟨hpads, htight⟩
      have occupied : ¬ IsVacant piece := by
        rw [← trim_eq_nil_iff]
        intro hnil
        rw [hnil] at core
        exact hne core.symm
      rw [List.filter_cons_of_pos (by simpa using occupied), List.map_cons, core, ih hrest]

theorem Spreads.ne_nil (h : Spreads urls pieces) (hne : urls ≠ []) : pieces ≠ [] := by
  cases h with
  | nil => exact absurd rfl hne
  | vacant | address => exact List.cons_ne_nil _ _

theorem addresses_of_spreads (h : Spreads urls pieces) (hne : urls ≠ [])
    (hurls : ∀ url ∈ urls, url ≠ "" ∧ Tight url.toList ∧ ',' ∉ url.toList) :
    addresses (",".intercalate pieces) = urls := by
  have cuts : Cuts (",".intercalate pieces) pieces :=
    ⟨h.ne_nil hne, h.no_comma fun url hurl => (hurls url hurl).2.2, rfl⟩
  rw [addresses_of_cuts cuts]
  exact h.kept fun url hurl => ⟨(hurls url hurl).1, (hurls url hurl).2.1⟩

end Spreads

/-! ## Nodes -/

section Nodes

variable {env : Environment} {list : String} {urls : List String}

theorem nodesAt_eq_mapIdx (first : Nat) (urls : List String) :
    nodesAt (first + 1) urls = urls.mapIdx fun i url => nodeAt (first + i) url := by
  induction urls generalizing first with
  | nil => rfl
  | cons url urls ih =>
      rw [nodesAt, ih, List.mapIdx_cons]
      refine congrArg (nodeAt first url :: ·) (congrArg urls.mapIdx ?_)
      funext i url
      rw [Nat.add_right_comm, Nat.add_assoc]

@[simp] theorem map_rpcUrl_mapIdx (urls : List String) :
    (urls.mapIdx nodeAt).map (·.rpcUrl) = urls := by
  refine List.ext_getElem? fun place => ?_
  rw [List.getElem?_map, List.getElem?_mapIdx]
  cases urls[place]? <;> rfl

theorem ofEnvironment_of_nil (h : env.find? Environment.urlsName = some list)
    (hnil : addresses list = []) : ofEnvironment env = .error .noNodes := by
  rw [ofEnvironment, h]
  simp only [hnil]
  rfl

theorem ofEnvironment_of_ne_nil (h : env.find? Environment.urlsName = some list)
    (hne : addresses list ≠ []) :
    ∃ config, ofEnvironment env = .ok config ∧ config.nodes = (addresses list).mapIdx nodeAt := by
  have nodes : nodesAt 1 (addresses list) = (addresses list).mapIdx nodeAt := by
    rw [nodesAt_eq_mapIdx 0]
    simp only [Nat.zero_add]
  refine ⟨(ofNodes ((addresses list).mapIdx nodeAt)).overlay env, ?_, rfl⟩
  rw [ofEnvironment, h]
  simp only [nodes]
  have fanOut : CycleEntry.default.fanOut ≠ 0 := by decide
  refine finish_eq_ok_iff.mpr ⟨rfl, (validate_eq_ok_iff _).mpr ⟨⟨?_, fun node hnode => ?_⟩, fanOut⟩⟩
  · exact List.mapIdx_eq_nil_iff.not.mpr hne
  · obtain ⟨place, hplace, rfl⟩ := List.mem_mapIdx.mp hnode
    exact nofun

/-- The environment's list has one way to be cut at its commas. Each piece that is not vacant makes a node,
in order and numbered without gaps, at the address that is left of it without the blanks around it; there
is no configuration exactly if all pieces are vacant, and then for want of nodes. So addresses without
commas and without blanks at their ends are read back from any list in which they are spread. -/
theorem ofEnvironment_takes_addresses (h : env.find? Environment.urlsName = some list) :
    (∃! pieces, Cuts list pieces) ∧
    (∀ pieces, Cuts list pieces →
      (ofEnvironment env = .error .noNodes ↔ ∀ piece ∈ pieces, IsVacant piece) ∧
      ((∃ piece ∈ pieces, ¬ IsVacant piece) → ∃ config urls, ofEnvironment env = .ok config ∧
        List.Forall₂ Trims (pieces.filter fun piece => ¬ IsVacant piece) urls ∧
          config.nodes = urls.mapIdx nodeAt)) ∧
    ∀ urls pieces : List String, urls ≠ [] →
      (∀ url ∈ urls, url ≠ "" ∧ Tight url.toList ∧ ',' ∉ url.toList) → Spreads urls pieces →
        list = ",".intercalate pieces →
          ∃ config, ofEnvironment env = .ok config ∧ config.nodes.map (·.rpcUrl) = urls := by
  refine ⟨?_, fun pieces cuts => ⟨?_, fun hsome => ?_⟩, fun urls pieces hne hurls spreads hlist => ?_⟩
  · obtain ⟨pieces, cuts⟩ := exists_cuts list
    exact ⟨pieces, cuts, fun others cuts' => cuts'.unique cuts⟩
  · rw [← addresses_eq_nil_iff cuts]
    constructor
    · intro herror
      by_contra hne
      obtain ⟨config, hok, -⟩ := ofEnvironment_of_ne_nil h hne
      rw [hok] at herror
      cases herror
    · exact ofEnvironment_of_nil h
  · have hne : addresses list ≠ [] := by
      rw [Ne, addresses_eq_nil_iff cuts]
      simpa using hsome
    obtain ⟨config, hok, hnodes⟩ := ofEnvironment_of_ne_nil h hne
    exact ⟨config, addresses list, hok, forall₂_addresses cuts, hnodes⟩
  · have back : addresses list = urls := hlist ▸ addresses_of_spreads spreads hne hurls
    obtain ⟨config, hok, hnodes⟩ := ofEnvironment_of_ne_nil h (back.symm ▸ hne)
    exact ⟨config, hok, by rw [hnodes, back, map_rpcUrl_mapIdx]⟩

/-- Two addresses among vacant pieces, and a list of vacant pieces alone. -/
theorem ofEnvironment_takes_addresses_scattered :
    (∃ config, ofEnvironment [(Environment.urlsName, "\t, http://a ,, \n,http://b,")] = .ok config ∧
      config.nodes.map (fun node => (node.name, node.rpcUrl)) =
        [("rpc-1", "http://a"), ("rpc-2", "http://b")]) ∧
    ofEnvironment [(Environment.urlsName, ", ,")] = .error .noNodes := by
  constructor
  · have given : Environment.find? [(Environment.urlsName, "\t, http://a ,, \n,http://b,")]
        Environment.urlsName = some "\t, http://a ,, \n,http://b," := rfl
    obtain ⟨-, takes, reads⟩ := ofEnvironment_takes_addresses given
    have cuts : Cuts "\t, http://a ,, \n,http://b,"
        ["\t", " http://a ", "", " \n", "http://b", ""] :=
      ⟨by simp, by decide +kernel, by decide +kernel⟩
    have pads : Pads "http://a".toList " http://a ".toList := (trims_iff.mpr (by decide +kernel)).1
    have spreads : Spreads ["http://a", "http://b"]
        ["\t", " http://a ", "", " \n", "http://b", ""] :=
      .vacant (by decide +kernel) (.address pads (.vacant (by decide +kernel)
        (.vacant (by decide +kernel) (.address (pads_self _) (.vacant (by decide +kernel) .nil)))))
    obtain ⟨config, hok, hurls⟩ := reads _ _ (by simp) (by decide +kernel) spreads cuts.joined
    obtain ⟨config', urls, hok', -, hnodes⟩ :=
      (takes _ cuts).2 ⟨"http://b", by simp, by decide +kernel⟩
    obtain rfl : config = config' := Except.ok.inj (hok.symm.trans hok')
    rw [hnodes, map_rpcUrl_mapIdx] at hurls
    refine ⟨config, hok, ?_⟩
    rw [hnodes, hurls]
    decide +kernel
  · have given : Environment.find? [(Environment.urlsName, ", ,")] Environment.urlsName =
        some ", ," := rfl
    obtain ⟨-, takes, -⟩ := ofEnvironment_takes_addresses given
    have cuts : Cuts ", ," ["", " ", ""] := ⟨by simp, by decide +kernel, by decide +kernel⟩
    exact (takes _ cuts).1.mpr (by decide +kernel)

end Nodes

end ChainWatch.Config
