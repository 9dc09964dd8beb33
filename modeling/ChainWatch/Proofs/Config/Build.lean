import ChainWatch.Proofs.Text.Blank
import ChainWatch.Proofs.Text.Notation
import ChainWatch.Proofs.Text.Utf8
import ChainWatch.Watch
import Mathlib.Data.List.TakeDrop

/-!
# Fleets from configurations

A configuration is checked when it is loaded, and its fleet is built from its nodes later on. Both look
at the nodes on their own, and they agree: what passes the check can fail to make a fleet only because an
address is none, and a fleet that was built has an endpoint for each node.
-/

namespace ChainWatch

/-! ## Addresses of nodes -/

namespace Text

theorem splitOnce?_cons_of_ne {mark c : Char} {text before after : List Char} (h : c ≠ mark)
    (hs : splitOnce? [mark] (c :: text) = some (before, after)) :
    ∃ front, before = c :: front ∧ splitOnce? [mark] text = some (front, after) := by
  rw [splitOnce?, if_neg (by simpa using Ne.symm h)] at hs
  obtain ⟨⟨front, rest⟩, hrest, heq⟩ := Option.map_eq_some_iff.mp hs
  obtain ⟨rfl, rfl⟩ := Prod.mk.inj heq
  exact ⟨front, rfl, hrest⟩

theorem head?_of_pieces {separator : Char} {text piece : List Char} {more : List (List Char)}
    {c : Char} (h : pieces separator text = (c :: piece) :: more) : text.head? = some c := by
  cases text with
  | nil => simp [pieces] at h
  | cons d rest =>
      rw [pieces] at h
      split at h
      · simp at h
      · split at h <;> simp_all

end Text

namespace Http.Url

/-- An address begins with the name of its scheme, and so with one letter. -/
theorem ofText?_eq_none_of_head {text : String} {c : Char} {rest : List Char}
    (ht : text.toList = c :: rest) (hm : isMargin c = false) (hc : c ≠ ':')
    (hh : c.toLower ≠ 'h') : ofText? text = none := by
  have hdrop : text.toList.dropWhile isMargin = c :: rest := by
    rw [ht, List.dropWhile_cons_of_neg (by simp [hm])]
  have hkept : (decide (c ≠ '\t') && decide (c ≠ '\n') && decide (c ≠ '\r')) = true := by
    have ne_of_margin (d : Char) (hd : isMargin d = true) : c ≠ d := by
      rintro rfl
      simp [hm] at hd
    simp [ne_of_margin '\t' rfl, ne_of_margin '\n' rfl, ne_of_margin '\r' rfl]
  unfold ofText?
  rw [hdrop, Text.trimEnd_cons_of_neg hm]
  simp only [List.filter_cons, hkept, if_true]
  split
  · rfl
  · rename_i scheme behind hs
    obtain ⟨front, rfl, -⟩ := Text.splitOnce?_cons_of_ne hc hs
    have named (name : String) (hn : name.toList.head? = some 'h') :
        String.ofList ((c :: front).map Char.toLower) ≠ name := by
      rintro rfl
      simp at hn
      exact hh hn
    split
    · rename_i heq
      exact absurd heq (named "http" rfl)
    · rename_i heq
      exact absurd heq (named "https" rfl)
    · rfl

end Http.Url

namespace JsonRpc

/-- What the first character of a number in an address can be. -/
theorem range_of_digitIn? {c : Char} (h : (Text.digitIn? 10 c).isSome) :
    48 ≤ c.toNat ∧ c.toNat ≤ 57 := by
  obtain ⟨d, hd⟩ := Option.isSome_iff_exists.mp h
  obtain ⟨hvalue, hlt⟩ := Option.filter_eq_some_iff.mp hd
  have hrange := Text.range_of_digitValue? hvalue
  simp at hlt
  omega

theorem exists_head_of_decimal? {text : List Char} (h : (Text.decimal? text).isSome) :
    ∃ c rest, text = c :: rest ∧ (Text.digitIn? 10 c).isSome := by
  cases text with
  | nil => simp [Text.decimal?] at h
  | cons c rest =>
      refine ⟨c, rest, rfl, ?_⟩
      cases hc : Text.digitIn? 10 c with
      | some d => rfl
      | none => simp [Text.decimal?, Text.digits?, List.mapM_cons, hc] at h

theorem exists_head_of_isDottedQuad {text : List Char} (h : Http.Url.isDottedQuad text = true) :
    ∃ c, text.head? = some c ∧ (Text.digitIn? 10 c).isSome := by
  unfold Http.Url.isDottedQuad at h
  cases hp : Text.pieces '.' text with
  | nil => exact absurd hp (Text.pieces_ne_nil '.' text)
  | cons piece more =>
      simp only [hp, Bool.and_eq_true, List.all_cons] at h
      have hpiece : (Text.decimal? piece).isSome := by
        have hd := h.2.1
        split at hd
        · cases hd
        · rename_i n heq
          simp [heq]
      obtain ⟨c, rest, rfl, hc⟩ := exists_head_of_decimal? hpiece
      exact ⟨c, Text.head?_of_pieces hp, hc⟩

theorem exists_head_of_isSocket {text : List Char} (h : isSocket text = true) :
    ∃ c, text.head? = some c ∧ (c = '[' ∨ (Text.digitIn? 10 c).isSome) := by
  unfold isSocket at h
  rw [List.span_eq_takeWhile_dropWhile] at h
  split at h
  · rename_i digits front heq
    obtain ⟨hdigits, hfront⟩ := Prod.mk.inj heq
    -- The host comes first, and what follows it is of no account here.
    have htext : text = front.reverse ++ ':' :: digits.reverse := by
      rw [← List.reverse_reverse text, ← List.takeWhile_append_dropWhile
        (p := Char.isDigit) (l := text.reverse), hdigits, hfront]
      simp
    have hhead {c : Char} (hc : front.reverse.head? = some c) : text.head? = some c := by
      rw [htext, List.head?_append, hc]
      rfl
    simp only [Bool.and_eq_true, Bool.or_eq_true] at h
    rcases h.2 with hquad | hbracketed
    · obtain ⟨c, hc, hd⟩ := exists_head_of_isDottedQuad hquad
      exact ⟨c, hhead hc, .inr hd⟩
    · split at hbracketed
      · rename_i inner hhost
        exact ⟨'[', hhead (by rw [hhost]; rfl), .inl rfl⟩
      · cases hbracketed
  · cases h

/-- A text that is an address on the web is read as such. -/
theorem url?_of_ofText? {text : String} (h : (Http.Url.ofText? text).isSome) :
    url? text = Http.Url.ofText? text := by
  have begins {c : Char} (hc : text.toList.head? = some c) (hm : Http.Url.isMargin c = false)
      (hne : c ≠ ':') : c.toLower = 'h' := by
    obtain ⟨rest, hrest⟩ := List.head?_eq_some_iff.mp hc
    by_contra hh
    simp [Http.Url.ofText?_eq_none_of_head hrest hm hne hh] at h
  have hlocal : "localhost:".toList.isPrefixOf text.toList = false := by
    rw [Bool.eq_false_iff]
    intro hp
    obtain ⟨rest, hrest⟩ := List.isPrefixOf_iff_prefix.mp hp
    have hc : text.toList.head? = some 'l' := by
      rw [← hrest]
      rfl
    exact absurd (begins hc rfl (by decide)) (by decide)
  have hsocket : isSocket text.toList = false := by
    rw [Bool.eq_false_iff]
    intro hs
    obtain ⟨c, hc, rfl | hd⟩ := exists_head_of_isSocket hs
    · exact absurd (begins hc rfl (by decide)) (by decide)
    · obtain ⟨hlow, hhigh⟩ := range_of_digitIn? hd
      have hm : Http.Url.isMargin c = false := by
        simp [Http.Url.isMargin]
        omega
      have hne : c ≠ ':' := by
        rintro rfl
        exact absurd hhigh (by decide)
      have hlower : c.toLower = c := by
        unfold Char.toLower
        rw [dif_neg]
        rintro ⟨hupper, -⟩
        have hletter : 65 ≤ c.toNat := hupper
        omega
      have hh := begins hc hm hne
      rw [hlower] at hh
      rw [hh] at hhigh
      exact absurd hhigh (by decide)
  rw [url?, hlocal, hsocket]
  rfl

end JsonRpc

/-! ## Nodes -/

namespace NodeEntry

/-- The node is not ours to manage, or it has a container. -/
def IsEquipped (node : NodeEntry) : Prop := node.kind = .managed → node.container.isSome

/-- The endpoint is the one for this node at this place. -/
structure Makes (node : NodeEntry) (settings : EndpointSettings) (position : Nat) (e : Endpoint) :
    Prop where
  position : e.position = position
  name : e.name = node.name
  settings : e.settings = settings
  unmanaged : node.kind = .unmanaged → e.role = .unmanaged
  /-- Its container is as configured; without a name it has the node's. -/
  managed : node.kind = .managed → ∃ c, node.container = some c ∧
    e.role = .managed ⟨c.name.getD node.name, c.image, c.ports, c.args⟩

variable {node : NodeEntry}

theorem isSome_role?_iff : node.role?.isSome ↔ node.IsEquipped := by
  unfold role? IsEquipped
  cases node.kind <;> cases node.container <;> simp

theorem makes_of_role? {role : NodeRole} {settings : EndpointSettings} {position : Nat}
    (h : node.role? = some role) : node.Makes settings position ⟨position, node.name, role, settings⟩
    where
  position := rfl
  name := rfl
  settings := rfl
  unmanaged := by
    intro hk
    simp only [role?, hk] at h
    exact (Option.some.inj h).symm
  managed := by
    intro hk
    cases hc : node.container with
    | none => simp [role?, hk, hc] at h
    | some c =>
        simp only [role?, hk, hc] at h
        exact ⟨c, rfl, (Option.some.inj h).symm⟩

/-- A node is built if it has an address and is equipped; an address that is none is noticed first. -/
theorem build_cases (node : NodeEntry) :
    (∃ role, node.build = .ok (node.name, role) ∧ node.role? = some role ∧
        (JsonRpc.url? node.rpcUrl).isSome) ∨
      (node.build = .error (.badUrl node.name) ∧ JsonRpc.url? node.rpcUrl = none) ∨
      (node.build = .error (.noContainer node.name) ∧ ¬ node.IsEquipped) := by
  unfold build
  cases hu : JsonRpc.url? node.rpcUrl with
  | none => exact .inr (.inl ⟨rfl, rfl⟩)
  | some url =>
      cases hr : node.role? with
      | some role => exact .inl ⟨role, rfl, rfl, rfl⟩
      | none =>
          have hbare : ¬ node.IsEquipped := by
            rw [← isSome_role?_iff, hr]
            exact Bool.false_ne_true
          exact .inr (.inr ⟨rfl, hbare⟩)

end NodeEntry

/-! ## Lists of nodes -/

/-- What is tried for all of a list succeeds for each, or it fails at the first of them that fails. -/
theorem mapM_cases {α β ε : Type} (f : α → Except ε β) (xs : List α) :
    (∃ ys, xs.mapM f = .ok ys ∧ xs.map f = ys.map .ok) ∨
      ∃ early x late e, xs = early ++ x :: late ∧ f x = .error e ∧ xs.mapM f = .error e ∧
        ∀ x ∈ early, ∃ y, f x = .ok y := by
  induction xs with
  | nil => exact .inl ⟨[], rfl, rfl⟩
  | cons x xs ih =>
      rw [List.mapM_cons]
      cases hx : f x with
      | error e => exact .inr ⟨[], x, xs, e, rfl, hx, rfl, by simp⟩
      | ok y =>
          rcases ih with ⟨ys, hys, hall⟩ | ⟨early, x', late, e, rfl, hx', herror, hearly⟩
          · rw [hys]
            exact .inl ⟨y :: ys, rfl, by rw [List.map_cons, List.map_cons, hx, hall]⟩
          · rw [herror]
            refine .inr ⟨x :: early, x', late, e, rfl, hx', rfl, ?_⟩
            exact List.forall_mem_cons.mpr ⟨⟨y, hx⟩, hearly⟩

theorem Fleet.getElem?_numbered {settings : EndpointSettings} {nodes : List (String × NodeRole)}
    (first i : Nat) : (numbered settings first nodes)[i]? =
      nodes[i]?.map fun node => ⟨first + i, node.1, node.2, settings⟩ := by
  induction nodes generalizing first i with
  | nil => rfl
  | cons node nodes ih =>
      cases i with
      | zero => rfl
      | succ i =>
          rw [numbered, List.getElem?_cons_succ, ih, List.getElem?_cons_succ,
            Nat.add_right_comm, Nat.add_assoc]

theorem Fleet.length_numbered {settings : EndpointSettings} {nodes : List (String × NodeRole)}
    (first : Nat) : (numbered settings first nodes).length = nodes.length := by
  induction nodes generalizing first with
  | nil => rfl
  | cons node nodes ih => rw [numbered, List.length_cons, ih, List.length_cons]

namespace Config

/-- There are nodes, and all of them are equipped. -/
def NodesSound (config : Config) : Prop :=
  config.nodes ≠ [] ∧ ∀ node ∈ config.nodes, node.IsEquipped

/-- The fleet has an endpoint for each node, in the order of the nodes. -/
def Manned (config : Config) (fleet : Fleet) : Prop :=
  fleet.endpoints.length = config.nodes.length ∧
    ∀ (i : Nat) (node : NodeEntry), config.nodes[i]? = some node →
      ∃ e, fleet.endpoints[i]? = some e ∧ node.Makes config.endpoint.settings i e

theorem validate_eq_ok_iff (config : Config) :
    config.validate = .ok () ↔ config.NodesSound ∧ config.cycle.fanOut ≠ 0 := by
  have bare (node : NodeEntry) : node.role?.isNone = true ↔ ¬ node.IsEquipped := by
    rw [← NodeEntry.isSome_role?_iff]
    cases node.role? <;> simp
  unfold validate NodesSound
  by_cases hn : config.nodes = []
  · simp [hn]
  · rw [if_neg (by simpa using hn)]
    by_cases hf : config.cycle.fanOut = 0
    · simp [hf]
    · rw [if_neg hf]
      cases hb : config.nodes.find? fun node => node.role?.isNone with
      | some node =>
          have hm := List.mem_of_find?_eq_some hb
          have hnone : node.role?.isNone = true := by simpa using List.find?_some hb
          have hbare := (bare node).mp hnone
          simp only [reduceCtorEq, false_iff]
          exact fun h => hbare (h.1.2 node hm)
      | none =>
          have hall : ∀ node ∈ config.nodes, node.IsEquipped := by
            intro node hm
            have hsome := List.find?_eq_none.mp hb node hm
            rw [bare node] at hsome
            exact not_not.mp hsome
          simp only [true_iff]
          exact ⟨⟨hn, hall⟩, hf⟩

/-- All that building a fleet can come to. -/
theorem buildFleet_cases (config : Config) :
    (∃ fleet, config.buildFleet = .ok fleet ∧ config.NodesSound ∧ config.Manned fleet ∧
        ∀ node ∈ config.nodes, (JsonRpc.url? node.rpcUrl).isSome) ∨
      (config.buildFleet = .error (.fleet .empty) ∧ config.nodes = []) ∨
      ∃ node ∈ config.nodes,
        (config.buildFleet = .error (.badUrl node.name) ∧ JsonRpc.url? node.rpcUrl = none) ∨
          (config.buildFleet = .error (.noContainer node.name) ∧ ¬ node.IsEquipped) := by
  unfold buildFleet
  rcases mapM_cases NodeEntry.build config.nodes with
    ⟨built, hb, hall⟩ | ⟨early, node, late, fault, hnodes, hnode, hb, -⟩
  · rw [hb]
    have made {node : NodeEntry} {pair : String × NodeRole} (h : node.build = .ok pair) :
        pair.1 = node.name ∧ node.role? = some pair.2 ∧ (JsonRpc.url? node.rpcUrl).isSome := by
      rcases node.build_cases with ⟨role, hok, hrole, hurl⟩ | ⟨herror, -⟩ | ⟨herror, -⟩
      · rw [h] at hok
        cases hok
        exact ⟨rfl, hrole, hurl⟩
      · rw [h] at herror
        cases herror
      · rw [h] at herror
        cases herror
    have hlength : config.nodes.length = built.length := by
      simpa using congrArg List.length hall
    have place {i : Nat} {node : NodeEntry} (hi : config.nodes[i]? = some node) :
        ∃ pair, built[i]? = some pair ∧ node.build = .ok pair := by
      have hat : (config.nodes.map NodeEntry.build)[i]? = (built.map Except.ok)[i]? := by rw [hall]
      rw [List.getElem?_map, hi, List.getElem?_map] at hat
      obtain ⟨pair, hpair, heq⟩ := Option.map_eq_some_iff.mp hat.symm
      exact ⟨pair, hpair, heq.symm⟩
    have ofMem {node : NodeEntry} (hm : node ∈ config.nodes) : ∃ pair, node.build = .ok pair := by
      obtain ⟨i, hi⟩ := List.mem_iff_getElem?.mp hm
      obtain ⟨pair, -, hpair⟩ := place hi
      exact ⟨pair, hpair⟩
    cases built with
    | nil => exact .inr (.inl ⟨rfl, List.eq_nil_of_length_eq_zero hlength⟩)
    | cons first others =>
        have hn : config.nodes ≠ [] := by
          rintro hnil
          simp [hnil] at hlength
        refine .inl ⟨_, rfl, ⟨hn, fun node hm => ?_⟩, ⟨?_, fun i node hi => ?_⟩, fun node hm => ?_⟩
        · obtain ⟨pair, hpair⟩ := ofMem hm
          rw [← NodeEntry.isSome_role?_iff, (made hpair).2.1]
          rfl
        · rw [Fleet.length_numbered, hlength]
        · obtain ⟨⟨name, role⟩, hpair, hbuild⟩ := place hi
          obtain ⟨rfl, hrole, -⟩ := made hbuild
          refine ⟨_, ?_, NodeEntry.makes_of_role? hrole⟩
          rw [Fleet.getElem?_numbered, hpair, Nat.zero_add]
          rfl
        · obtain ⟨pair, hpair⟩ := ofMem hm
          exact (made hpair).2.2
  · rw [hb]
    refine .inr (.inr ⟨node, by simp [hnodes], ?_⟩)
    rcases node.build_cases with ⟨role, hok, -, -⟩ | ⟨herror, hurl⟩ | ⟨herror, hbare⟩
    · rw [hnode] at hok
      cases hok
    · rw [hnode] at herror
      cases herror
      exact .inl ⟨rfl, hurl⟩
    · rw [hnode] at herror
      cases herror
      exact .inr ⟨rfl, hbare⟩

theorem sound_of_buildFleet {config : Config} {fleet : Fleet} (h : config.buildFleet = .ok fleet) :
    config.NodesSound ∧ config.Manned fleet := by
  rcases config.buildFleet_cases with
    ⟨other, hok, hsound, hmanned, -⟩ | ⟨herror, -⟩ | ⟨node, -, ⟨herror, -⟩ | ⟨herror, -⟩⟩
  · rw [h] at hok
    cases hok
    exact ⟨hsound, hmanned⟩
  all_goals
    rw [h] at herror
    cases herror

/-- With sound nodes a fleet can fail on an address only. -/
theorem exists_fleet_of_sound {config : Config} (h : config.NodesSound) :
    (∃ fleet, config.buildFleet = .ok fleet) ∨ ∃ node ∈ config.nodes,
      config.buildFleet = .error (.badUrl node.name) ∧ Http.Url.ofText? node.rpcUrl = none := by
  rcases config.buildFleet_cases with
    ⟨fleet, hok, -⟩ | ⟨-, hnil⟩ | ⟨node, hm, ⟨herror, hurl⟩ | ⟨-, hbare⟩⟩
  · exact .inl ⟨fleet, hok⟩
  · exact absurd hnil h.1
  · refine .inr ⟨node, hm, herror, ?_⟩
    by_contra hne
    have hsome := Option.isSome_iff_ne_none.mpr hne
    rw [← JsonRpc.url?_of_ofText? hsome, hurl] at hsome
    cases hsome
  · exact absurd (h.2 node hm) hbare

/-! ## Loaded configurations -/

/-- The configuration is what a file says, or it lists the nodes of the environment alone. -/
inductive Drafted (env : Environment) : Config → Prop where
  | file {content : Bytes} {text : String} {config : Config}
    (ht : Text.ofUtf8? content = some text) (hp : parse? text = some config) : Drafted env config
  | environment {list : String} (hl : env.find? Environment.urlsName = some list) :
    Drafted env (ofNodes (nodesAt 1 (addresses list)))

/-- The configuration is loaded from a file, from the environment alone, or from either. -/
def Loaded (env : Environment) (config : Config) : Prop :=
  (∃ file, load env file = .ok config) ∨ ofEnvironment env = .ok config ∨
    ∃ file, locate env file = .ok config

variable {env : Environment} {config : Config}

theorem load_ofString (env : Environment) (text : String) :
    load env (.holding (Bytes.ofString text)) =
      (parse? text).elim (.error .malformed) (·.finish env) := by
  rw [load, Text.ofUtf8?_ofString]
  dsimp only
  cases parse? text <;> rfl

theorem exists_load_of_map {α : Type} {file : ConfigFile} {f : Config → α} {a : α}
    (h : (load env file).toOption.map f = some a) : ∃ config, load env file = .ok config ∧ f config = a := by
  cases hl : load env file with
  | error fault => simp [hl, Except.toOption] at h
  | ok config =>
      rw [hl] at h
      exact ⟨config, rfl, Option.some.inj h⟩

theorem exists_draft_of_load {file : ConfigFile} (h : load env file = .ok config) :
    ∃ draft, Drafted env draft ∧ draft.finish env = .ok config := by
  unfold load at h
  split at h
  · cases h
  · cases h
  · split at h
    · cases h
    · rename_i text ht
      split at h
      · cases h
      · rename_i draft hp
        exact ⟨draft, .file ht hp, h⟩

theorem exists_draft_of_ofEnvironment (h : ofEnvironment env = .ok config) :
    ∃ draft, Drafted env draft ∧ draft.finish env = .ok config := by
  unfold ofEnvironment at h
  split at h
  · cases h
  · rename_i list hl
    exact ⟨_, .environment hl, h⟩

theorem Loaded.exists_draft (h : Loaded env config) :
    ∃ draft, Drafted env draft ∧ draft.finish env = .ok config := by
  rcases h with ⟨file, h⟩ | h | ⟨file, h⟩
  · exact exists_draft_of_load h
  · exact exists_draft_of_ofEnvironment h
  · unfold locate at h
    split at h
    · exact exists_draft_of_ofEnvironment h
    · exact exists_draft_of_load h

theorem finish_eq_ok_iff {draft : Config} :
    draft.finish env = .ok config ↔ config = draft.overlay env ∧ config.validate = .ok () := by
  unfold finish
  cases hv : (draft.overlay env).validate with
  | ok value =>
      constructor
      · intro h
        cases h
        exact ⟨rfl, hv⟩
      · rintro ⟨rfl, -⟩
        rfl
  | error fault =>
      constructor
      · intro h
        cases h
      · rintro ⟨rfl, hok⟩
        rw [hv] at hok
        cases hok

/-- The check of a configuration and the making of its fleet agree. With addresses on the web, there is
a fleet exactly when the check has nothing to say against the nodes. Whatever is loaded is a draft under
its environment that passes the check, so that its fleet can only fail on an address that is none. A
fleet has an endpoint for each node, all of which count as healthy at first, and the environment has a
say on two fields only. -/
theorem fleets_agree_with_checks :
    (∀ config : Config, config.validate = .ok () ↔ config.NodesSound ∧ config.cycle.fanOut ≠ 0) ∧
    (∀ config : Config, (∀ node ∈ config.nodes, (Http.Url.ofText? node.rpcUrl).isSome) →
      ((∃ fleet, config.buildFleet = .ok fleet) ↔ config.NodesSound)) ∧
    (∀ (env : Environment) (config : Config), Loaded env config →
      (∃ draft, Drafted env draft ∧ config = draft.overlay env) ∧ config.validate = .ok () ∧
      ((∃ fleet, config.buildFleet = .ok fleet) ∨ ∃ node ∈ config.nodes,
        config.buildFleet = .error (.badUrl node.name) ∧
          Http.Url.ofText? node.rpcUrl = none)) ∧
    (∀ (config : Config) (fleet : Fleet), config.buildFleet = .ok fleet →
      config.Manned fleet ∧ ∀ abis, ∀ e ∈ fleet.endpoints,
        (State.initial config.forkUrl abis).isHealthy e.position = true) ∧
    ∀ (env : Environment) (config : Config),
      config.overlay env =
        { config with
          abi := { config.abi with explorerKey := (config.overlay env).abi.explorerKey }
          cycle := { config.cycle with heartbeatUrl := (config.overlay env).cycle.heartbeatUrl } } ∧
      (config.overlay env).abi.explorerKey =
        (env.find? Environment.keyName).getD config.abi.explorerKey ∧
      (config.overlay env).cycle.heartbeatUrl =
        (env.find? Environment.heartbeatName).getD config.cycle.heartbeatUrl := by
  refine ⟨validate_eq_ok_iff, fun config hurls => ⟨?_, fun hsound => ?_⟩, fun env config hl => ?_,
    fun config fleet hb => ⟨(sound_of_buildFleet hb).2, fun _ _ _ => rfl⟩,
    fun env config => ⟨rfl, rfl, rfl⟩⟩
  · rintro ⟨fleet, hb⟩
    exact (sound_of_buildFleet hb).1
  · rcases exists_fleet_of_sound hsound with hok | ⟨node, hm, -, hnone⟩
    · exact hok
    · have hsome := hurls node hm
      rw [hnone] at hsome
      cases hsome
  · obtain ⟨draft, hdraft, hfinish⟩ := hl.exists_draft
    obtain ⟨heq, hvalid⟩ := finish_eq_ok_iff.mp hfinish
    have hsound := ((validate_eq_ok_iff config).mp hvalid).1
    exact ⟨⟨draft, hdraft, heq⟩, hvalid, exists_fleet_of_sound hsound⟩

/-! ### A managed node and one that is not -/

def mixedFile : ConfigFile :=
  .holding (Bytes.ofString ("nodes = [\x7bname = \"own\", rpc_url = \"http://own:8545\", " ++
    "role = \"managed\", container = \x7bimage = \"anvil\"\x7d\x7d, " ++
    "\x7bname = \"other\", rpc_url = \"https://other/rpc\"\x7d]\n"))

def own : NodeEntry :=
  ⟨"own", "http://own:8545", .managed, some ⟨"anvil", none, [], []⟩, NodeEntry.defaultResetMethod⟩

def other : NodeEntry :=
  ⟨"other", "https://other/rpc", .unmanaged, none, NodeEntry.defaultResetMethod⟩

theorem exists_load_mixedFile : ∃ config, load [(Environment.keyName, "key")] mixedFile = .ok config ∧
    config.nodes = [own, other] ∧ config.abi.explorerKey = "key" := by
  have known : (load [(Environment.keyName, "key")] mixedFile).toOption.map
      (fun config => (config.nodes, config.abi.explorerKey)) = some ([own, other], "key") := by
    rewrite [mixedFile, load_ofString, parse?, Toml.parse?_eq_bind]
    -- `String.toList` is slow to evaluate, so the characters are written out first
    all_goals
      simp only [String.toList_append]
      repeat rewrite [String.toList_ofList]
      decide +kernel
  obtain ⟨config, hload, heq⟩ := exists_load_of_map known
  exact ⟨config, hload, (Prod.mk.inj heq).1, (Prod.mk.inj heq).2⟩

theorem fleet_of_mixedFile : ∃ (config : Config) (fleet : Fleet) (first second : Endpoint),
    load [(Environment.keyName, "key")] mixedFile = .ok config ∧ config.validate = .ok () ∧
    config.buildFleet = .ok fleet ∧ fleet.endpoints = [first, second] ∧
    first.role = .managed ⟨"own", "anvil", [], []⟩ ∧ second.role = .unmanaged ∧
    ∀ abis, (State.initial config.forkUrl abis).isHealthy first.position = true := by
  obtain ⟨config, hload, hnodes, -⟩ := exists_load_mixedFile
  obtain ⟨hcheck, hbuild, hloaded, hmade, -⟩ := fleets_agree_with_checks
  obtain ⟨-, hvalid, -⟩ := hloaded _ config (.inl ⟨mixedFile, hload⟩)
  have hurls : ∀ node ∈ config.nodes, (Http.Url.ofText? node.rpcUrl).isSome := by
    rw [hnodes]
    decide +kernel
  obtain ⟨fleet, hfleet⟩ := (hbuild config hurls).mpr ((hcheck config).mp hvalid).1
  obtain ⟨⟨hlength, hplaces⟩, hhealthy⟩ := hmade config fleet hfleet
  obtain ⟨first, hfirst, hmakes⟩ := hplaces 0 own (by rw [hnodes]; rfl)
  obtain ⟨second, hsecond, hmakes'⟩ := hplaces 1 other (by rw [hnodes]; rfl)
  have hendpoints : fleet.endpoints = [first, second] := by
    rw [hnodes] at hlength
    match h : fleet.endpoints, hlength with
    | [e, e'], _ => simp_all
  obtain ⟨c, hc, hrole⟩ := hmakes.managed rfl
  cases hc
  refine ⟨config, fleet, first, second, hload, hvalid, hfleet, hendpoints, hrole,
    hmakes'.unmanaged rfl, fun abis => hhealthy abis first ?_⟩
  simp [hendpoints]

end Config

end ChainWatch
