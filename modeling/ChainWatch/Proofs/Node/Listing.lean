import ChainWatch.Node.Docker
import ChainWatch.Proofs.Text.Numeral
import ChainWatch.Proofs.Text.Pieces
import ChainWatch.Proofs.Text.Utf8

/-!
# Listings of published ports

A line shows a binding if the numeral of a container's port stands in front of its first arrow, up to a
slash, and that of a host's port at its end, behind the last colon (`PortBinding.Shows`). The binding is
read off such a line and off no other (`ofLine?_eq_some_iff`), so a listing is the set of what was printed
in it, whatever the addresses and whatever stands between (`listing_is_read`).
-/

namespace ChainWatch

open Text

namespace PortBinding

/-! ## Sets in order -/

section Order

variable {a b : PortBinding} {bindings others : List PortBinding}

/-- The place of a binding in the order. -/
def rank (b : PortBinding) : Nat :=
  b.host.toNat * 65536 + b.container.toNat

theorem lt_iff : a.lt b = true ↔ a.rank < b.rank := by
  have ha := a.container.toNat_lt
  have hb := b.container.toNat_lt
  simp only [lt, rank, Bool.or_eq_true, Bool.and_eq_true, decide_eq_true_eq, beq_iff_eq,
    UInt16.lt_iff_toNat_lt, ← UInt16.toNat_inj]
  omega

theorem rank_injective (h : a.rank = b.rank) : a = b := by
  have ha := a.container.toNat_lt
  have hb := b.container.toNat_lt
  obtain ⟨host, container⟩ := a
  obtain ⟨host', container'⟩ := b
  simp only [rank] at h ha hb
  rw [mk.injEq, ← UInt16.toNat_inj, ← UInt16.toNat_inj]
  omega

/-- In order, each once. -/
def Ordered (bindings : List PortBinding) : Prop :=
  bindings.Pairwise fun a b => a.rank < b.rank

instance (bindings : List PortBinding) : Decidable (Ordered bindings) :=
  inferInstanceAs (Decidable (bindings.Pairwise fun a b => a.rank < b.rank))

theorem mem_insert : a ∈ insert b bindings ↔ a = b ∨ a ∈ bindings := by
  induction bindings with
  | nil => simp [insert]
  | cons c rest ih =>
      rw [insert]
      split
      · exact List.mem_cons
      · split
        · rename_i hbc
          simp [hbc]
        · rw [List.mem_cons, ih, List.mem_cons]
          exact or_left_comm

theorem ordered_insert (h : Ordered bindings) (b : PortBinding) : Ordered (insert b bindings) := by
  induction bindings with
  | nil => exact List.pairwise_singleton _ b
  | cons c rest ih =>
      obtain ⟨hc, hrest⟩ := List.pairwise_cons.mp h
      rw [insert]
      split
      · rename_i hbc
        have first : b.rank < c.rank := lt_iff.mp hbc
        refine List.pairwise_cons.mpr ⟨fun d hd => ?_, h⟩
        rcases List.mem_cons.mp hd with rfl | hd
        · exact first
        · exact first.trans (hc d hd)
      · rename_i hbc
        split
        · exact h
        · rename_i hne
          have apart : b.rank ≠ c.rank := fun heq => hne (rank_injective heq)
          have behind : ¬ b.rank < c.rank := fun hlt => hbc (lt_iff.mpr hlt)
          refine List.pairwise_cons.mpr ⟨fun d hd => ?_, ih hrest⟩
          rcases mem_insert.mp hd with rfl | hd
          · omega
          · exact hc d hd

@[simp] theorem mem_toSet : b ∈ toSet bindings ↔ b ∈ bindings := by
  induction bindings with
  | nil => rfl
  | cons c rest ih =>
      rw [toSet, List.foldr_cons, mem_insert, ← toSet, ih, List.mem_cons]

theorem ordered_toSet (bindings : List PortBinding) : Ordered (toSet bindings) := by
  induction bindings with
  | nil => exact List.Pairwise.nil
  | cons c rest ih => exact ordered_insert ih c

theorem Ordered.eq_of_mem_iff (h : Ordered bindings) (h' : Ordered others)
    (hmem : ∀ b, b ∈ bindings ↔ b ∈ others) : bindings = others := by
  have once {l : List PortBinding} (hl : Ordered l) : l.Nodup :=
    hl.imp fun hlt heq => absurd (congrArg rank heq) hlt.ne
  refine ((List.perm_ext_iff_of_nodup (once h) (once h')).mpr hmem).eq_of_pairwise ?_ h h'
  exact fun a b _ _ hab hba => absurd hab hba.not_gt

theorem toSet_eq_toSet_iff : toSet bindings = toSet others ↔ ∀ b, b ∈ bindings ↔ b ∈ others := by
  constructor
  · intro h b
    rw [← mem_toSet, h, mem_toSet]
  · intro h
    exact (ordered_toSet _).eq_of_mem_iff (ordered_toSet _) (by simpa using h)

end Order

/-! ## Ports -/

/-- The text is the decimal numeral of the port, zeros and one plus sign may stand in front. -/
def Numeral (text : List Char) (port : PortNumber) : Prop :=
  ∃ sign zeros, (sign = [] ∨ sign = ['+']) ∧
    text = sign ++ (List.replicate zeros '0' ++ Nat.toDigits 10 port.toNat)

section Numeral

variable {text : List Char} {port : PortNumber} {c : Char}

theorem numeral_toDigits (port : PortNumber) : Numeral (Nat.toDigits 10 port.toNat) port :=
  ⟨[], 0, .inl rfl, rfl⟩

theorem Numeral.ne_nil (h : Numeral text port) : text ≠ [] := by
  obtain ⟨sign, zeros, -, rfl⟩ := h
  simp [Nat.toDigits_ne_nil]

theorem mem_of_mem_toDigits {n : Nat} (h : c ∈ Nat.toDigits 10 n) : c ∈ "0123456789".toList := by
  have digits : ∀ d < 10, Nat.digitChar d ∈ "0123456789".toList := by decide
  obtain ⟨d, hd, rfl⟩ := exists_of_mem_toDigits (by decide) h
  exact digits d hd

theorem Numeral.mem (h : Numeral text port) (hc : c ∈ text) : c ∈ "+0123456789".toList := by
  obtain ⟨sign, zeros, hsign, rfl⟩ := h
  rcases List.mem_append.mp hc with hc | hc
  · rcases hsign with rfl | rfl
    · cases hc
    · rw [List.mem_singleton.mp hc]
      decide
  · rcases List.mem_append.mp hc with hc | hc
    · rw [List.eq_of_mem_replicate hc]
      decide
    · exact List.mem_cons_of_mem _ (mem_of_mem_toDigits hc)

/-- A numeral has none of the characters that stand around it. -/
theorem Numeral.not_mark (h : Numeral text port) (hc : c ∈ text) :
    isBlank c = false ∧ c ≠ '/' ∧ c ≠ ':' := by
  have plain : ("+0123456789".toList.all fun c => !isBlank c && c != '/' && c != ':') = true := by
    decide
  have hchar := List.all_eq_true.mp plain c (h.mem hc)
  simpa [and_assoc] using hchar

theorem ofNat_eq_some_iff {n : Nat} :
    (if n < 65536 then some (UInt16.ofNat n) else none) = some port ↔ n = port.toNat := by
  have hport := port.toNat_lt
  rw [Option.ite_none_right_eq_some, Option.some_inj, ← UInt16.toNat_inj]
  constructor
  · rintro ⟨hn, h⟩
    rwa [UInt16.toNat_ofNat_of_lt' hn] at h
  · rintro rfl
    exact ⟨hport, UInt16.toNat_ofNat_of_lt' hport⟩

theorem number?_eq_some_iff : number? text = some port ↔ Numeral text port := by
  have unsigned (digits : List Char) :
      ((decimal? digits).bind fun n => if n < 65536 then some (UInt16.ofNat n) else none) = some port ↔
        ∃ zeros, digits = List.replicate zeros '0' ++ Nat.toDigits 10 port.toNat := by
    rw [Option.bind_eq_some_iff]
    simp only [ofNat_eq_some_iff, exists_eq_right, decimal?_eq_some_iff]
  unfold number?
  split
  · rename_i rest
    rw [unsigned]
    constructor
    · rintro ⟨zeros, rfl⟩
      exact ⟨['+'], zeros, .inr rfl, rfl⟩
    · rintro ⟨sign, zeros, rfl | rfl, htext⟩
      · have signless : decimal? ('+' :: rest) = none := by
          simp [decimal?, digits?_cons, digitIn?, digitValue?]
        rw [decimal?_eq_some_iff.mpr ⟨zeros, htext⟩] at signless
        cases signless
      · exact ⟨zeros, (List.cons.inj htext).2⟩
  · rename_i hplus
    rw [unsigned]
    constructor
    · rintro ⟨zeros, rfl⟩
      exact ⟨[], zeros, .inl rfl, rfl⟩
    · rintro ⟨sign, zeros, rfl | rfl, htext⟩
      · exact ⟨zeros, htext⟩
      · exact absurd htext (hplus _)

theorem number?_before_eq_some_iff : number? (before '/' (trim text)) = some port ↔
    ∃ number, Leads '/' number text ∧ Numeral number port := by
  constructor
  · exact fun h => ⟨_, leads_before_trim '/' text, number?_eq_some_iff.mp h⟩
  · rintro ⟨number, hlead, hnumber⟩
    have hmark : ∀ c ∈ number, isBlank c = false ∧ c ≠ '/' := fun c hc =>
      ⟨(hnumber.not_mark hc).1, (hnumber.not_mark hc).2.1⟩
    rw [before_trim_of_leads hlead hnumber.ne_nil hmark rfl]
    exact number?_eq_some_iff.mpr hnumber

theorem number?_afterLast_eq_some_iff : number? (afterLast ':' (trim text)) = some port ↔
    ∃ number, Trails ':' number text ∧ Numeral number port := by
  constructor
  · exact fun h => ⟨_, trails_afterLast_trim ':' text, number?_eq_some_iff.mp h⟩
  · rintro ⟨number, htrail, hnumber⟩
    have hmark : ∀ c ∈ number, isBlank c = false ∧ c ≠ ':' := fun c hc =>
      ⟨(hnumber.not_mark hc).1, (hnumber.not_mark hc).2.2⟩
    rw [afterLast_trim_of_trails htrail hnumber.ne_nil hmark rfl]
    exact number?_eq_some_iff.mpr hnumber

end Numeral

/-! ## Lines -/

def arrow : List Char := ['-', '>']

/-- The line shows the binding: its container's port leads what stands before the first arrow, its host's
port ends what stands behind it. -/
def Shows (line : List Char) (b : PortBinding) : Prop :=
  ∃ left right, line = left ++ arrow ++ right ∧ ¬ arrow <:+: left ∧
    (∃ number, Leads '/' number left ∧ Numeral number b.container) ∧
    ∃ number, Trails ':' number right ∧ Numeral number b.host

section Lines

variable {line left right text : List Char} {b : PortBinding}

theorem splitOnce?_arrow_eq_some_iff : splitOnce? arrow text = some (left, right) ↔
    text = left ++ arrow ++ right ∧ ¬ arrow <:+: left := by
  induction text generalizing left with
  | nil => simp [splitOnce?, arrow]
  | cons c rest ih =>
      rw [splitOnce?]
      split
      · rename_i hfirst
        obtain ⟨behind, hbehind⟩ := List.isPrefixOf_iff_prefix.mp hfirst
        rw [← hbehind, List.drop_left, Option.some_inj, Prod.mk.injEq]
        constructor
        · rintro ⟨rfl, rfl⟩
          exact ⟨rfl, by simp [arrow]⟩
        · rintro ⟨htext, hnot⟩
          -- An arrow that came later would stand behind the one in front.
          match left with
          | [] => exact ⟨rfl, by simpa using htext⟩
          | [d] => simp [arrow] at htext
          | d :: e :: front =>
              refine absurd ?_ hnot
              simp only [arrow, List.cons_append, List.nil_append, List.cons.injEq] at htext
              obtain ⟨rfl, rfl, -⟩ := htext
              exact ⟨[], front, rfl⟩
      · rename_i hfirst
        have hnot : ¬ arrow <+: c :: rest := fun h => hfirst (List.isPrefixOf_iff_prefix.mpr h)
        rw [Option.map_eq_some_iff]
        constructor
        · rintro ⟨⟨front, behind⟩, hrest, heq⟩
          obtain ⟨rfl, rfl⟩ := Prod.mk.inj heq
          obtain ⟨rfl, hlater⟩ := ih.mp hrest
          refine ⟨rfl, fun h => ?_⟩
          rcases List.infix_cons_iff.mp h with h | h
          · exact hnot (h.trans ⟨arrow ++ behind, by simp⟩)
          · exact hlater h
        · rintro ⟨htext, hlater⟩
          cases left with
          | nil => exact absurd ⟨right, htext.symm⟩ hnot
          | cons d front =>
              obtain ⟨rfl, rfl⟩ := List.cons.inj htext
              exact ⟨(front, right), ih.mpr ⟨rfl, fun h => hlater (h.trans
                (List.suffix_cons _ _).isInfix)⟩, rfl⟩

/-- The binding of a line is the one that it shows. -/
theorem ofLine?_eq_some_iff : ofLine? line = some b ↔ Shows line b := by
  have made : ofLine? line = some b ↔ ∃ left right, splitOnce? arrow line = some (left, right) ∧
      number? (before '/' (trim left)) = some b.container ∧
      number? (afterLast ':' (trim right)) = some b.host := by
    obtain ⟨host, container⟩ := b
    simp only [ofLine?, ← arrow.eq_def, Option.bind_eq_bind, Option.bind_eq_some_iff, Prod.exists]
    simp
  simp only [made, Shows, splitOnce?_arrow_eq_some_iff, number?_before_eq_some_iff,
    number?_afterLast_eq_some_iff, and_assoc]

-- Neither the protocol nor the address has to be there.
example : ofLine? "8545->+80".toList = some ⟨80, 8545⟩ := by decide +kernel

/-- Blanks at the end of a line do not count. -/
theorem shows_concat_iff {c : Char} (hc : isBlank c = true) : Shows (line ++ [c]) b ↔ Shows line b := by
  have trailing (right : List Char) : trim (right ++ [c]) = trim right :=
    trim_append_of_blank (by simpa using hc)
  simp only [Shows, ← number?_afterLast_eq_some_iff]
  constructor
  · rintro ⟨left, right, hline, hfirst, hleft, hright⟩
    rcases List.eq_nil_or_concat right with rfl | ⟨front, d, rfl⟩
    · cases hright
    · rw [List.concat_eq_append, ← List.append_assoc] at hline
      obtain ⟨rfl, hd⟩ := List.append_inj' hline rfl
      obtain rfl : c = d := by simpa using hd
      rw [List.concat_eq_append, trailing] at hright
      exact ⟨left, front, rfl, hfirst, hleft, hright⟩
  · rintro ⟨left, right, rfl, hfirst, hleft, hright⟩
    refine ⟨left, right ++ [c], by rw [List.append_assoc], hfirst, hleft, ?_⟩
    rw [trailing]
    exact hright

theorem ofLine?_dropReturn (line : List Char) : ofLine? (dropReturn line) = ofLine? line := by
  rcases eq_or_eq_dropReturn line with h | h
  · rw [← h]
  · refine Option.ext fun b => ?_
    rw [ofLine?_eq_some_iff, ofLine?_eq_some_iff, h, dropReturn_concat, shows_concat_iff rfl]

theorem filterMap_lines {rows : List (List Char)} (h : MadeOf rows text)
    (hrows : ∀ row ∈ rows, '\n' ∉ row) :
    (lines text).filterMap ofLine? = rows.filterMap ofLine? := by
  induction h with
  | nil => rfl
  | last line =>
      rw [lines_of_not_mem (hrows line (by simp))]
      split
      · rename_i hnil
        subst hnil
        rfl
      · rfl
  | feed line _ ih =>
      obtain ⟨hline, hrest⟩ := List.forall_mem_cons.mp hrows
      rw [lines_append_feed hline, List.filterMap_cons, ofLine?_dropReturn, ih hrest,
        List.filterMap_cons]
  | @returnFeed _ text line _ ih =>
      obtain ⟨hline, hrest⟩ := List.forall_mem_cons.mp hrows
      have hended : '\n' ∉ line ++ ['\r'] := by simpa using hline
      have htext : line ++ '\r' :: '\n' :: text = line ++ ['\r'] ++ '\n' :: text := by simp
      rw [htext, lines_append_feed hended, dropReturn_concat, List.filterMap_cons, ih hrest,
        List.filterMap_cons]

/-- Where a text has an arrow, it has a first one. -/
theorem exists_first_arrow (h : arrow <:+: text) :
    ∃ left right, text = left ++ arrow ++ right ∧ ¬ arrow <:+: left := by
  induction text with
  | nil => simp [arrow] at h
  | cons c rest ih =>
      by_cases hfront : arrow <+: c :: rest
      · obtain ⟨right, hright⟩ := hfront
        exact ⟨[], right, hright.symm, by simp [arrow]⟩
      · obtain ⟨left, right, rfl, hleft⟩ := ih ((List.infix_cons_iff.mp h).resolve_left hfront)
        refine ⟨c :: left, right, rfl, fun hlater => ?_⟩
        rcases List.infix_cons_iff.mp hlater with hlater | hlater
        · exact hfront (hlater.trans ⟨arrow ++ right, by simp⟩)
        · exact hleft hlater

theorem not_arrow_append {front : List Char} (hfront : '-' ∉ front) (h : ¬ arrow <:+: text) :
    ¬ arrow <:+: front ++ text := by
  induction front with
  | nil => exact h
  | cons c front ih =>
      obtain ⟨hc, hrest⟩ := not_or.mp (List.mem_cons.not.mp hfront)
      intro harrow
      rcases List.infix_cons_iff.mp harrow with hfirst | hlater
      · exact hc (List.cons_prefix_cons.mp hfirst).1
      · exact ih hrest hlater

end Lines

/-! ## Listings -/

/-- A line of a listing. -/
inductive Row where
  /-- A binding, with the name of its protocol and the address that the host publishes it on. -/
  | binding (b : PortBinding) (protocol address : String)
  | other (text : String)
  deriving DecidableEq, Repr

namespace Row

def text : Row → String
  | binding b protocol address => s!"{b.container.toNat}/{protocol} -> {address}:{b.host.toNat}"
  | other text => text

def binding? : Row → Option PortBinding
  | binding b _ _ => some b
  | other _ => none

end Row

/-- The bindings that are printed in some rows. -/
def printed (rows : List Row) : List PortBinding :=
  rows.filterMap Row.binding?

/-- A printed binding is shown, even if its protocol or its address have arrows and colons of their
own. -/
theorem shows_text (b : PortBinding) (protocol address : String) :
    Shows (Row.binding b protocol address).text.toList b := by
  have htext : (Row.binding b protocol address).text.toList =
      (Nat.toDigits 10 b.container.toNat ++ ['/']) ++
        (protocol.toList ++ [' '] ++ arrow ++ ([' '] ++ address.toList)) ++
        ':' :: Nat.toDigits 10 b.host.toNat := by
    simp [Row.text, arrow, toString, Nat.toList_repr]
  obtain ⟨left, right, hmiddle, hfirst⟩ := exists_first_arrow
    (List.infix_append (protocol.toList ++ [' ']) arrow ([' '] ++ address.toList))
  have plain : '-' ∉ Nat.toDigits 10 b.container.toNat ++ ['/'] := by
    intro h
    rcases List.mem_append.mp h with h | h
    · exact absurd (mem_of_mem_toDigits h) (by decide)
    · exact absurd h (by decide)
  refine ⟨Nat.toDigits 10 b.container.toNat ++ ['/'] ++ left,
    right ++ ':' :: Nat.toDigits 10 b.host.toNat, ?_, not_arrow_append plain hfirst,
    ⟨_, ⟨[], '/' :: left, by simp, by simp, .inr rfl⟩, numeral_toDigits _⟩,
    ⟨_, ⟨right ++ [':'], [], by simp, by simp, .inr (by simp)⟩, numeral_toDigits _⟩⟩
  rw [htext, hmiddle]
  simp

section Listings

variable {rows : List Row} {listing : String}

theorem ofListing_eq (hmade : MadeOf (rows.map fun row => row.text.toList) listing.toList)
    (hline : ∀ row ∈ rows, '\n' ∉ row.text.toList)
    (hother : ∀ text, Row.other text ∈ rows → ∀ b, ¬ Shows text.toList b) :
    ofListing listing = toSet (printed rows) := by
  have each : ∀ row ∈ rows, ofLine? row.text.toList = row.binding? := by
    intro row hrow
    cases row with
    | binding b protocol address => exact ofLine?_eq_some_iff.mpr (shows_text b protocol address)
    | other text =>
        refine Option.eq_none_iff_forall_ne_some.mpr fun b hb => ?_
        exact hother text hrow b (ofLine?_eq_some_iff.mp hb)
  rw [ofListing, filterMap_lines hmade (by simpa using hline), List.filterMap_map, printed]
  exact congrArg toSet (List.filterMap_congr each)

theorem read_portsMatch (program name listing : String) (wanted : List PortBinding) (errors : Bytes) :
    Docker.read program (.portsMatch name wanted) (some ⟨0, Bytes.ofString listing, errors⟩) =
      .ok (listingMatches listing wanted) := by
  rw [Docker.read, if_pos rfl, ofUtf8_of_ofUtf8? (ofUtf8?_ofString listing)]
  rfl

/-- A listing of bindings with other lines between them is the set of the printed bindings. The
engine's answer to whether the ports match is that this set is the wanted one, in whatever order and
however often these are given; one binding that is missing or not wanted makes the difference. -/
theorem listing_is_read (hmade : MadeOf (rows.map fun row => row.text.toList) listing.toList)
    (hline : ∀ row ∈ rows, '\n' ∉ row.text.toList)
    (hother : ∀ text, Row.other text ∈ rows → ∀ b, ¬ Shows text.toList b) :
    Ordered (ofListing listing) ∧ (∀ b, b ∈ ofListing listing ↔ b ∈ printed rows) ∧
      ∀ (program name : String) (wanted : List PortBinding) (errors : Bytes), ∃ matching : Bool,
        Docker.read program (.portsMatch name wanted)
            (some ⟨0, Bytes.ofString listing, errors⟩) = .ok matching ∧
          (matching = true ↔ ∀ b, b ∈ wanted ↔ b ∈ printed rows) ∧
          (matching = false ↔
            ∃ b, (b ∈ wanted ∧ b ∉ printed rows) ∨ (b ∈ printed rows ∧ b ∉ wanted)) := by
  have hset := ofListing_eq hmade hline hother
  refine ⟨hset ▸ ordered_toSet _, fun b => by rw [hset, mem_toSet], ?_⟩
  intro program name wanted errors
  have hmatch : listingMatches listing wanted = true ↔ ∀ b, b ∈ wanted ↔ b ∈ printed rows := by
    rw [listingMatches, hset, beq_iff_eq, toSet_eq_toSet_iff]
    exact forall_congr' fun b => Iff.comm
  refine ⟨_, read_portsMatch program name listing wanted errors, hmatch, ?_⟩
  rw [← Bool.not_eq_true, hmatch, not_forall]
  exact exists_congr fun b => (xor_iff_not_iff _ _).symm

/-- A listing with two lines for one binding, an address with an arrow, and lines of other forms. -/
def mixedRows : List Row :=
  [.binding ⟨18545, 8545⟩ "tcp" "0.0.0.0", .binding ⟨18545, 8545⟩ "tcp" "[::]",
    .other "Error: no public port", .binding ⟨65535, 1⟩ "udp" "[fe80::1%a->b]",
    .other "65536/tcp -> 0.0.0.0:1", .other "-> 1"]

def mixedListing : String :=
  "8545/tcp -> 0.0.0.0:18545\n8545/tcp -> [::]:18545\r\nError: no public port\n" ++
    "1/udp -> [fe80::1%a->b]:65535\n65536/tcp -> 0.0.0.0:1\n-> 1"

theorem madeOf_mixedListing :
    MadeOf (mixedRows.map fun row => row.text.toList) mixedListing.toList := by
  have hrows : (mixedRows.map fun row => row.text.toList) =
      ["8545/tcp -> 0.0.0.0:18545".toList, "8545/tcp -> [::]:18545".toList,
        "Error: no public port".toList, "1/udp -> [fe80::1%a->b]:65535".toList,
        "65536/tcp -> 0.0.0.0:1".toList, "-> 1".toList] := by
    decide +kernel
  have htext : mixedListing.toList = "8545/tcp -> 0.0.0.0:18545".toList ++ '\n' ::
      ("8545/tcp -> [::]:18545".toList ++ '\r' :: '\n' :: ("Error: no public port".toList ++ '\n' ::
        ("1/udp -> [fe80::1%a->b]:65535".toList ++ '\n' :: ("65536/tcp -> 0.0.0.0:1".toList ++ '\n' ::
          "-> 1".toList)))) := by
    decide +kernel
  rw [hrows, htext]
  exact .feed _ (.returnFeed _ (.feed _ (.feed _ (.feed _ (.last _)))))

theorem listing_is_read_mixed :
    ofListing mixedListing = [⟨18545, 8545⟩, ⟨65535, 1⟩] ∧
      Docker.read "docker" (.portsMatch "fork" [⟨65535, 1⟩, ⟨18545, 8545⟩, ⟨65535, 1⟩])
        (some ⟨0, Bytes.ofString mixedListing, []⟩) = .ok true ∧
      Docker.read "docker" (.portsMatch "fork" [⟨18545, 8545⟩, ⟨65535, 2⟩])
        (some ⟨0, Bytes.ofString mixedListing, []⟩) = .ok false := by
  have others : ∀ text, Row.other text ∈ mixedRows → ∀ b, ¬ Shows text.toList b := by
    have unread : ∀ row ∈ mixedRows, row.binding? = none → ofLine? row.text.toList = none := by
      decide +kernel
    intro text htext b hb
    have hnone := unread _ htext rfl
    rw [Row.text, ofLine?_eq_some_iff.mpr hb] at hnone
    cases hnone
  obtain ⟨ordered, members, reads⟩ := listing_is_read madeOf_mixedListing (by decide +kernel) others
  have shown : printed mixedRows = [⟨18545, 8545⟩, ⟨18545, 8545⟩, ⟨65535, 1⟩] := rfl
  rw [shown] at members reads
  refine ⟨ordered.eq_of_mem_iff (by decide +kernel) fun b => by simp [members], ?_, ?_⟩
  · obtain ⟨matching, hread, htrue, -⟩ :=
      reads "docker" "fork" [⟨65535, 1⟩, ⟨18545, 8545⟩, ⟨65535, 1⟩] []
    obtain rfl : matching = true := htrue.mpr fun b => by
      constructor <;> simp +contextual [or_imp]
    exact hread
  · obtain ⟨matching, hread, -, hfalse⟩ := reads "docker" "fork" [⟨18545, 8545⟩, ⟨65535, 2⟩] []
    obtain rfl : matching = false := hfalse.mpr ⟨⟨65535, 2⟩, .inl ⟨by decide, by decide⟩⟩
    exact hread

end Listings

end PortBinding

end ChainWatch
