import ChainWatch.Proofs.Json.ReadBack
import ChainWatch.Proofs.Text.Notation
import ChainWatch.Transaction.Line

/-!
# Transactions as lines

A transaction is read back from the line that stands for it, whatever texts, numbers and bytes it
carries, and there is no line break within this line.
-/

namespace ChainWatch

open Json

/-! ## Members that may be left out -/

section OpenMembers

variable {α : Type} {name other : String} {encode : α → Json} {value : Option α}

theorem filter_openMember_of_eq :
    (openMember name encode value).filter (·.1 == name) = openMember name encode value := by
  cases value <;> simp [openMember]

theorem filter_openMember_of_ne (h : name ≠ other) :
    (openMember name encode value).filter (·.1 == other) = [] := by
  cases value <;> simp [openMember, h]

/-- A member is read as it was written, and one that was left out as nothing. -/
theorem openField?_of_filter {members : List (String × Json)} {decode : Decoder α}
    (hm : members.filter (·.1 == name) = openMember name encode value)
    (hr : ∀ v, nullable decode (encode v) = some (some v)) :
    CallRequest.openField? members name decode = some value := by
  cases value with
  | none => simp [CallRequest.openField?, member?, hm, openMember, defaulted]
  | some v => simp [CallRequest.openField?, member?, hm, openMember, defaulted, hr v]

theorem fits_openMember {depth : Nat} (h : ∀ v, Fits depth (encode v)) :
    ∀ m ∈ openMember name encode value, Fits depth m.2 := by
  cases value with
  | none => simp [openMember]
  | some v => simpa [openMember] using h v

end OpenMembers

namespace CallRequest

/-- The members of a request, those that are left open left out. -/
def members (r : CallRequest) : List (String × Json) :=
  openMember "from" (fun a : Address => .string a.toHex) r.sender ++
  openMember "to" (fun a : Address => .string a.toHex) r.recipient ++
  openMember "gas" (fun n : UInt64 => .string (Word.quantity n.toNat)) r.gas ++
  openMember "value" (fun w : Word => .string (Word.quantity w.toNat)) r.value ++
  openMember "input" (fun b : Bytes => .string b.toHex) r.input ++
  openMember "data" (fun b : Bytes => .string b.toHex) r.data ++
  openMember "nonce" (fun n : UInt64 => .string (Word.quantity n.toNat)) r.nonce ++
  openMember "chainId" (fun n : UInt64 => .string (Word.quantity n.toNat)) r.chainId

theorem toJson_eq (r : CallRequest) : r.toJson = .object r.members := rfl

theorem nullable_hex (a : Address) : nullable Address.ofJson? (.string a.toHex) = some (some a) := by
  simp [nullable, Address.ofJson?_toHex]

theorem nullable_bytes (b : Bytes) : nullable Bytes.ofJson? (.string b.toHex) = some (some b) := by
  simp [nullable, Bytes.ofJson?, Bytes.ofHex?_toHex]

theorem nullable_count (n : UInt64) :
    nullable (fun j => (Word.ofQuantityBelow? UInt64.size j).map UInt64.ofNat)
      (.string (Word.quantity n.toNat)) = some (some n) := by
  simp [nullable, Word.ofQuantityBelow?, Word.ofTextBelow?_quantity n.toNat_lt]

theorem nullable_word (w : Word) :
    nullable (fun j => (Word.ofQuantityBelow? Word.size j).map (BitVec.ofNat 256))
      (.string (Word.quantity w.toNat)) = some (some w) := by
  simp [nullable, Word.ofQuantityBelow?, Word.ofTextBelow?_quantity w.toNat_lt_size]

/-- Of the members of a request those of one name are its own part. -/
theorem filter_members (r : CallRequest) :
    r.members.filter (·.1 == "from") = openMember "from" (.string ·.toHex) r.sender ∧
    r.members.filter (·.1 == "to") = openMember "to" (.string ·.toHex) r.recipient ∧
    r.members.filter (·.1 == "gas") = openMember "gas" (.string <| Word.quantity ·.toNat) r.gas ∧
    r.members.filter (·.1 == "value") = openMember "value" (.string <| Word.quantity ·.toNat) r.value ∧
    r.members.filter (·.1 == "input") = openMember "input" (.string ·.toHex) r.input ∧
    r.members.filter (·.1 == "data") = openMember "data" (.string ·.toHex) r.data ∧
    r.members.filter (·.1 == "nonce") = openMember "nonce" (.string <| Word.quantity ·.toNat) r.nonce ∧
    r.members.filter (·.1 == "chainId") =
      openMember "chainId" (.string <| Word.quantity ·.toNat) r.chainId := by
  simp [members, filter_openMember_of_eq, filter_openMember_of_ne]

theorem ofJson?_toJson (r : CallRequest) : ofJson? r.toJson = some r := by
  obtain ⟨hsender, hrecipient, hgas, hvalue, hinput, hdata, hnonce, hchain⟩ := filter_members r
  simp only [toJson_eq, ofJson?, openField?_of_filter hsender nullable_hex,
    openField?_of_filter hrecipient nullable_hex, openField?_of_filter hgas nullable_count,
    openField?_of_filter hvalue nullable_word, openField?_of_filter hinput nullable_bytes,
    openField?_of_filter hdata nullable_bytes, openField?_of_filter hnonce nullable_count,
    openField?_of_filter hchain nullable_count, Option.bind_eq_bind, Option.bind_some]

theorem fits_toJson (r : CallRequest) {depth : Nat} : Fits (depth + 1) r.toJson := by
  refine .object fun m hm => ?_
  simp only [List.mem_append] at hm
  obtain ((((((hm | hm) | hm) | hm) | hm) | hm) | hm) | hm := hm
  all_goals exact fits_openMember (fun _ => .string _) m hm

end CallRequest

namespace OutboundTransaction

theorem asUInt64_ofNat (n : UInt64) : asUInt64 (.ofNat n.toNat) = some n.toNat := by
  have bounded : (n.toNat : Int) < UInt64.size := Int.ofNat_lt.mpr n.toNat_lt
  simp only [asUInt64, asNatBelow, Json.ofNat]
  rw [if_pos ⟨Int.natCast_nonneg _, bounded⟩, Int.toNat_natCast]

theorem required_count (n : UInt64) : required asUInt64 (some (.ofNat n.toNat)) = some n.toNat := by
  rw [required, Option.bind_some, asUInt64_ofNat]

theorem required_urgency (u : Urgency) :
    required (asChoice .exact Urgency.ofName?) (some (.string u.name)) = some u := by
  rw [required, Option.bind_some, asChoice, Urgency.ofName?_name]

theorem required_text (text : String) : required asString (some (.string text)) = some text := rfl

theorem fields?_toJson (tx : OutboundTransaction) : fields? .exact fieldNames tx.toJson = some [
    some (.string tx.urgency.name), some (.string tx.executor), some (.string tx.context),
    some (.string tx.dedupKey), some (.ofNat tx.ttlSeconds.toNat), some tx.request.toJson] := by
  simp [toJson, fields?, fieldNames, member?]

theorem ofJson?_toJson (tx : OutboundTransaction) : ofJson? tx.toJson = some tx := by
  have request : required CallRequest.ofJson? (some tx.request.toJson) = some tx.request :=
    CallRequest.ofJson?_toJson tx.request
  unfold ofJson?
  rw [fields?_toJson tx]
  simp only [required_count, required_urgency, required_text, request, Option.bind_eq_bind,
    Option.bind_some]
  rw [UInt64.ofNat_toNat]

theorem isInteger_toNat (n : UInt64) : IsInteger n.toNat := by
  have lowest : Int64.minValue.toInt ≤ 0 := by decide
  have bounded : (n.toNat : Int) < UInt64.size := Int.ofNat_lt.mpr n.toNat_lt
  exact ⟨Int.le_trans lowest (Int.natCast_nonneg _), bounded⟩

theorem fits_toJson (tx : OutboundTransaction) : Fits maxDepth tx.toJson := by
  show Fits (126 + 1) tx.toJson
  refine .object fun m hm => ?_
  simp only [List.mem_cons, List.not_mem_nil, or_false] at hm
  obtain rfl | rfl | rfl | rfl | rfl | rfl := hm
  · exact .string _
  · exact .string _
  · exact .string _
  · exact .string _
  · exact .integer (isInteger_toNat _)
  · exact tx.request.fits_toJson

/-- A transaction is read back from its line. -/
theorem ofLine?_line (tx : OutboundTransaction) : ofLine? (String.ofList tx.line) = some tx := by
  rw [ofLine?, line, show String.ofList tx.toJson.render = tx.toJson.text from rfl,
    parse?_text tx.fits_toJson, Option.bind_some, ofJson?_toJson]

theorem exists_line (tx : OutboundTransaction) : ∃ rest, tx.line = '\x7b' :: rest := ⟨_, rfl⟩

/-- Nothing is read from a line behind a single brace: an object has no name that begins with one. -/
theorem ofLine?_brace_line (tx : OutboundTransaction) :
    ofLine? (String.ofList ('\x7b' :: tx.line)) = none := by
  obtain ⟨rest, h⟩ := tx.exists_line
  have hvalue (budget : Nat) : value? (budget + 2) (126 + 1) ('\x7b' :: '\x7b' :: rest) = none := by
    simp [value?, members?, skipBlanks, isBlank]
  rw [ofLine?, parse?_eq_bind, String.toList_ofList, h]
  exact congrArg (fun read => (Option.bind read _).bind ofJson?) (hvalue _)

/-- No line break, nor any other control character, is in a line. -/
theorem printable_line (tx : OutboundTransaction) : ∀ c ∈ tx.line, 32 ≤ c.toNat :=
  printable_render tx.fits_toJson

end OutboundTransaction

end ChainWatch
