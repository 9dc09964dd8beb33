import ChainWatch.Proofs.Concurrency.Exclusion
import ChainWatch.Proofs.Text.Utf8
import ChainWatch.Proofs.Transaction.Framing
import ChainWatch.Proofs.Transaction.Line
import ChainWatch.Transaction.Queue
import ChainWatch.Transaction.Sink

/-!
# What is in a queue file

Any number of transactions may be offered to a sink at once. The lock lets one be appended after the
other, and what one appends is a beginning of its record, all of it if it is accepted
(`Sink.runs_append_some`). So the file of a sink that began without one consists of the lines of the
accepted transactions, unless a write or a flush has failed and left something behind. A sink does not
look at what its file holds: a line that was not ended is gone on with (`Sink.lines_of_untorn`).
-/

namespace ChainWatch

open Concurrency

/-! ## Records -/

namespace OutboundTransaction

theorem record_eq (tx : OutboundTransaction) : tx.record = tx.lineBytes ++ [Lines.lineEnd] := by
  have hend : String.utf8EncodeChar '\n' = [Lines.lineEnd] := by decide
  simp [record, lineBytes, Bytes.ofString_eq, hend]

theorem printable_lineBytes (tx : OutboundTransaction) : ∀ b ∈ tx.lineBytes, 32 ≤ b.toNat :=
  Text.printable_ofString fun c hc => tx.printable_line c (by simpa using hc)

theorem lineEnd_not_mem (tx : OutboundTransaction) : Lines.lineEnd ∉ tx.lineBytes := fun h =>
  absurd (tx.printable_lineBytes _ h) (by decide)

/-- The transaction that a line of a file stands for. -/
def ofBytes? (bytes : Bytes) : Option OutboundTransaction :=
  (Text.ofUtf8? bytes).bind ofLine?

theorem ofBytes?_lineBytes (tx : OutboundTransaction) : ofBytes? tx.lineBytes = some tx := by
  rw [ofBytes?, lineBytes, Text.ofUtf8?_ofString, Option.bind_some, ofLine?_line]

/-- What stands on a line that had only been begun before. -/
def misread (tx : OutboundTransaction) : Bytes :=
  Bytes.ofString (String.ofList ('\x7b' :: tx.line))

theorem misread_eq (tx : OutboundTransaction) : tx.misread = 123 :: tx.lineBytes := by
  have hbrace : String.utf8EncodeChar '\x7b' = [123] := by decide
  simp [misread, lineBytes, Bytes.ofString_eq, hbrace]

theorem lineEnd_not_mem_misread (tx : OutboundTransaction) : Lines.lineEnd ∉ tx.misread := by
  rw [misread_eq, List.mem_cons, not_or]
  exact ⟨by decide, tx.lineEnd_not_mem⟩

theorem ofBytes?_misread (tx : OutboundTransaction) : ofBytes? tx.misread = none := by
  rw [ofBytes?, misread, Text.ofUtf8?_ofString, Option.bind_some, ofLine?_brace_line]

/-- The first byte of a record is the brace of an object. -/
theorem take_record (tx : OutboundTransaction) : tx.record.take 1 = [123] := by
  have hbrace : String.utf8EncodeChar '\x7b' = [123] := by decide
  obtain ⟨rest, h⟩ := tx.exists_line
  simp [record, Bytes.ofString_eq, h, hbrace]

theorem flatMap_record (txs : List OutboundTransaction) :
    txs.flatMap record = (txs.map lineBytes).flatMap (· ++ [Lines.lineEnd]) := by
  rw [List.flatMap_map]
  exact congrArg (txs.flatMap ·) (funext record_eq)

end OutboundTransaction

namespace Sink

/-! ## Appending -/

variable {taken bytes : Bytes} {trace : Trace device.locked} {file file' : Option Bytes}

/-- What the answers of the device make of a file, whatever else happens. -/
def Handle.replay (file : Handle) (trace : Trace device.locked) : Handle :=
  trace.foldl (fun file event =>
    match event with
    | .answered request answer => file.after request answer
    | _ => file) file

theorem replay_append {handle : Handle} {early late : Trace device.locked} :
    handle.replay (early ++ late) = (handle.replay early).replay late :=
  List.foldl_append

theorem appended_nil_appended : appended bytes (appended [] file) = appended bytes file := by
  simp [appended]

theorem confined_ask (taken : Bytes) (request : DeviceRequest) :
    (ask taken request).Confined Event.SparesLock :=
  (Activity.confined_request trivial fun _ => trivial).bind fun _ =>
    (Activity.confined_modify fun _ => rfl).bind fun _ => Activity.confined_pure _

theorem confined_writeAll (taken bytes : Bytes) : (writeAll taken bytes).Confined Event.SparesLock := by
  fun_induction writeAll taken bytes with
  | case1 => exact Activity.confined_pure _
  | case2 taken bytes h ih =>
      refine (confined_ask _ _).bind fun answer => ?_
      cases answer with
      | error landed => exact Activity.confined_pure _
      | ok count => exact ih count

theorem confined_append (bytes : Bytes) : (append bytes).Confined Event.SparesLock := by
  refine (confined_ask _ _).bind fun opened => ?_
  cases opened with
  | false => exact Activity.confined_pure _
  | true =>
      refine (confined_writeAll _ _).bind fun written => ?_
      cases written with
      | error fault => exact Activity.confined_pure _
      | ok taken =>
          refine (confined_ask _ _).bind fun flushed => ?_
          cases flushed with
          | error landed => exact Activity.confined_pure _
          | ok _ => exact Activity.confined_pure _

theorem runs_ask_some {request : DeviceRequest} {answer : request.Answer} :
    (ask taken request).Runs trace (some answer) ↔
      ∃ m : Locked (Option Bytes), trace = [.sent request, .answered request answer,
        .touched m (m.change fun content => (Handle.after ⟨taken, content⟩ request answer).content)] := by
  constructor
  · intro h
    obtain ⟨answer', _, _, hasked, hrest, rfl⟩ := Activity.runs_bind_some.mp h
    obtain rfl := Activity.runs_request_some.mp hasked
    obtain ⟨_, _, _, hmodify, hend, rfl⟩ := Activity.runs_bind_some.mp hrest
    obtain ⟨m, rfl⟩ := Activity.runs_modify_some.mp hmodify
    obtain ⟨rfl, rfl⟩ := Activity.runs_pure_some.mp hend
    exact ⟨m, rfl⟩
  · rintro ⟨m, rfl⟩
    refine Activity.runs_bind_some.mpr ⟨answer, _, _, Activity.runs_request_some.mpr rfl, ?_, rfl⟩
    exact Activity.runs_bind_some.mpr ⟨(), _, [], Activity.runs_modify_some.mpr ⟨m, rfl⟩,
      Activity.runs_pure_some.mpr ⟨rfl, rfl⟩, rfl⟩

theorem follows_ask {request : DeviceRequest} {answer : request.Answer}
    (hr : (ask taken request).Runs trace (some answer))
    (hf : trace.Follows Locked.content file file') :
    Handle.replay ⟨taken, file⟩ trace = Handle.after ⟨taken, file⟩ request answer ∧
      file' = (Handle.after ⟨taken, file⟩ request answer).content := by
  obtain ⟨m, rfl⟩ := runs_ask_some.mp hr
  obtain ⟨rfl, rfl⟩ := hf
  exact ⟨rfl, rfl⟩

/-- Writing either hands everything to the device and leaves the file alone, or it fails and a part of
what the device was to take has come to the file. -/
theorem follows_writeAll {outcome : Except SinkFault Bytes}
    (hr : (writeAll taken bytes).Runs trace (some outcome))
    (hf : trace.Follows Locked.content file file') :
    (outcome = .ok (taken ++ bytes) ∧ file' = file ∧
        Handle.replay ⟨taken, file⟩ trace = ⟨taken ++ bytes, file⟩) ∨
      ∃ part, outcome = .error .writing ∧ part <+: taken ++ bytes ∧ file' = appended part file ∧
        Handle.replay ⟨taken, file⟩ trace = ⟨[], file'⟩ := by
  fun_induction writeAll taken bytes generalizing trace file with
  | case1 taken =>
      obtain ⟨rfl, rfl⟩ := Activity.runs_pure_some.mp hr
      obtain rfl : file' = file := hf
      exact .inl ⟨by rw [List.append_nil], rfl, by rw [List.append_nil]; rfl⟩
  | case2 taken bytes h ih =>
      obtain ⟨answer, early, late, hask, hrest, rfl⟩ := Activity.runs_bind_some.mp hr
      obtain ⟨between, hearly, hlate⟩ := Trace.follows_append.mp hf
      obtain ⟨hreplay, hbetween⟩ := follows_ask hask hearly
      rw [replay_append, hreplay]
      cases answer with
      | error landed =>
          obtain ⟨rfl, rfl⟩ := Activity.runs_pure_some.mp hrest
          obtain rfl : file' = between := hlate
          exact .inr ⟨_, rfl, List.take_prefix _ _, hbetween, hbetween ▸ rfl⟩
      | ok count =>
          obtain rfl : between = file := hbetween
          have hwhole : taken ++ bytes.take count ++ bytes.drop count = taken ++ bytes := by
            rw [List.append_assoc, List.take_append_drop]
          have hlater := ih count hrest hlate
          rw [hwhole] at hlater
          exact hlater

/-- Appending leaves the file alone if it cannot be opened, and otherwise adds a part of the bytes; all
of them if it succeeds. The file is what the device has made of it by its answers. -/
theorem runs_append_some {outcome : Except SinkFault Unit}
    (hr : (append bytes).Runs trace (some outcome))
    (hf : trace.Follows Locked.content file file') :
    file' = (Handle.replay ⟨[], file⟩ trace).content ∧
      ((outcome = .error .opening ∧ file' = file) ∨
        ∃ part, part <+: bytes ∧ (outcome = .ok () → part = bytes) ∧ outcome ≠ .error .opening ∧
          file' = appended part file) := by
  obtain ⟨opened, _, _, hopen, hrest, rfl⟩ := Activity.runs_bind_some.mp hr
  obtain ⟨created, hcreated, hlater⟩ := Trace.follows_append.mp hf
  obtain ⟨hreplay, hcreated⟩ := follows_ask hopen hcreated
  rw [replay_append, hreplay]
  cases opened with
  | false =>
      obtain ⟨rfl, rfl⟩ := Activity.runs_pure_some.mp hrest
      obtain rfl : created = file := hcreated
      exact ⟨hlater, .inl ⟨rfl, hlater⟩⟩
  | true =>
      obtain rfl : created = appended [] file := hcreated
      obtain ⟨written, _, _, hwrite, hend, rfl⟩ := Activity.runs_bind_some.mp hrest
      obtain ⟨filled, hfilled, hlast⟩ := Trace.follows_append.mp hlater
      rw [replay_append]
      show file' = (Handle.replay (Handle.replay ⟨[], appended [] file⟩ _) _).content ∧ _
      rcases follows_writeAll hwrite hfilled with ⟨rfl, rfl, hreplay⟩ | ⟨part, rfl, hpart, rfl, hreplay⟩
      · rw [hreplay]
        obtain ⟨flushed, _, _, hflush, hdone, rfl⟩ := Activity.runs_bind_some.mp hend
        obtain ⟨settled, hsettled, hnothing⟩ := Trace.follows_append.mp hlast
        obtain ⟨hreplay, hsettled⟩ := follows_ask hflush hsettled
        rw [replay_append, hreplay]
        cases flushed with
        | error landed =>
            obtain ⟨rfl, rfl⟩ := Activity.runs_pure_some.mp hdone
            obtain rfl : file' = settled := hnothing
            refine ⟨hsettled, .inr ⟨bytes.take landed, List.take_prefix _ _, nofun, nofun, ?_⟩⟩
            exact hsettled.trans appended_nil_appended
        | ok _ =>
            obtain ⟨rfl, rfl⟩ := Activity.runs_pure_some.mp hdone
            obtain rfl : file' = settled := hnothing
            refine ⟨hsettled, .inr ⟨bytes, List.prefix_rfl, fun _ => rfl, nofun, ?_⟩⟩
            exact hsettled.trans appended_nil_appended
      · obtain ⟨rfl, rfl⟩ := Activity.runs_pure_some.mp hend
        obtain rfl : file' = appended part (appended [] file) := hlast
        rw [hreplay]
        exact ⟨rfl, .inr ⟨part, hpart, nofun, nofun, appended_nil_appended⟩⟩

theorem prefix_of_append {outcome : Except SinkFault Unit}
    (hr : (append bytes).Runs trace (some outcome))
    (hf : trace.Follows Locked.content file file') : file.getD [] <+: file'.getD [] := by
  obtain ⟨-, rfl⟩ | ⟨part, -, -, -, rfl⟩ := (runs_append_some hr hf).2
  · exact List.prefix_rfl
  · exact List.prefix_append _ part

/-! ## Calls -/

/-- A call of the sink. -/
abbrev Call : Type := Stay fun tx : OutboundTransaction => append tx.record

/-- The transactions that the calls were told to be accepted. -/
def accepted (calls : List Call) : List OutboundTransaction :=
  (calls.filter (·.value.isOk)).map (·.member)

/-- The call was accepted, or nothing of its transaction has come to the file. -/
def Untorn (c : Call) : Prop :=
  c.value = .ok () ∨ c.after.getD [] = c.before.getD []

variable {c : Call} {order : List Call}

theorem accepted_cons_of_ok (ho : c.value = .ok ()) :
    accepted (c :: order) = c.member :: accepted order := by
  simp [accepted, ho, Except.isOk, Except.toBool]

theorem accepted_cons_of_error {e : SinkFault} (he : c.value = .error e) :
    accepted (c :: order) = accepted order := by
  simp [accepted, he, Except.isOk, Except.toBool]

theorem after_eq_of_ok (hf : Trace.Follows Locked.content c.inside c.before c.after)
    (ho : c.value = .ok ()) : c.after = appended c.member.record c.before := by
  obtain ⟨he, -⟩ | ⟨part, -, hwhole, -, hafter⟩ := (runs_append_some c.runs hf).2
  · cases ho.symm.trans he
  · rw [hafter, hwhole ho]

theorem after_eq_of_opening (hf : Trace.Follows Locked.content c.inside c.before c.after)
    (ho : c.value = .error .opening) : c.after = c.before := by
  obtain ⟨-, heq⟩ | ⟨part, -, -, hne, -⟩ := (runs_append_some c.runs hf).2
  · exact heq
  · exact (hne ho).elim

/-- If nothing is torn, the records of the accepted transactions are put behind what was there. -/
theorem content_of_untorn (hf : Trace.Follows Locked.content (order.flatMap Stay.turn) file file')
    (hu : ∀ c ∈ order, Untorn c) :
    file'.getD [] = file.getD [] ++ (accepted order).flatMap OutboundTransaction.record := by
  induction order generalizing file with
  | nil =>
      obtain rfl : file' = file := hf
      simp [accepted]
  | cons c order ih =>
      obtain ⟨rfl, hinside, hlater⟩ := Stay.follows_turns_cons.mp hf
      obtain ⟨hfirst, hrest⟩ := List.forall_mem_cons.mp hu
      rw [ih hlater hrest]
      cases hv : c.value with
      | ok _ =>
          rw [accepted_cons_of_ok hv, after_eq_of_ok hinside hv]
          simp [appended]
      | error e =>
          rw [accepted_cons_of_error hv, hfirst.resolve_left (by simp [hv])]

/-- The accepted transactions come to the file in any case. -/
theorem length_le_of_turns (hf : Trace.Follows Locked.content (order.flatMap Stay.turn) file file') :
    (file.getD [] ++ (accepted order).flatMap OutboundTransaction.record).length ≤
      (file'.getD []).length := by
  induction order generalizing file with
  | nil =>
      obtain rfl : file' = file := hf
      simp [accepted]
  | cons c order ih =>
      obtain ⟨rfl, hinside, hlater⟩ := Stay.follows_turns_cons.mp hf
      have hrest := ih hlater
      cases hv : c.value with
      | ok _ =>
          rw [after_eq_of_ok hinside hv] at hrest
          rw [accepted_cons_of_ok hv]
          simpa [appended, Nat.add_assoc] using hrest
      | error e =>
          rw [accepted_cons_of_error hv]
          have hfirst := (prefix_of_append c.runs hinside).length_le
          simp only [List.length_append] at hrest ⊢
          omega

/-- If nothing but the accepted transactions has come to the file, nothing is torn. -/
theorem untorn_of_content (hf : Trace.Follows Locked.content (order.flatMap Stay.turn) file file')
    (h : file'.getD [] = file.getD [] ++ (accepted order).flatMap OutboundTransaction.record) :
    ∀ c ∈ order, Untorn c := by
  induction order generalizing file with
  | nil => exact fun c hc => absurd hc List.not_mem_nil
  | cons c order ih =>
      obtain ⟨rfl, hinside, hlater⟩ := Stay.follows_turns_cons.mp hf
      rw [List.forall_mem_cons]
      cases hv : c.value with
      | ok _ =>
          rw [accepted_cons_of_ok hv] at h
          refine ⟨.inl hv, ih hlater ?_⟩
          rw [h, after_eq_of_ok hinside hv]
          simp [appended]
      | error e =>
          rw [accepted_cons_of_error hv] at h
          have hfirst := prefix_of_append c.runs hinside
          -- what the call has left behind would be too long with anything of its own in it
          have hlength := length_le_of_turns hlater
          rw [h] at hlength
          have hsame : c.after.getD [] = c.before.getD [] := by
            refine (hfirst.eq_of_length_le ?_).symm
            simp only [List.length_append] at hlength
            omega
          exact ⟨.inr hsame, ih hlater (by rw [h, hsame])⟩

/-- Whatever fails, nothing of what was in the file is lost. -/
theorem prefix_of_turns (hf : Trace.Follows Locked.content (order.flatMap Stay.turn) file file') :
    file.getD [] <+: file'.getD [] := by
  induction order generalizing file with
  | nil =>
      obtain rfl : file' = file := hf
      exact List.prefix_rfl
  | cons c order ih =>
      obtain ⟨rfl, hinside, hlater⟩ := Stay.follows_turns_cons.mp hf
      exact (prefix_of_append c.runs hinside).trans (ih hlater)

/-! ## Runs -/

variable {txs : List OutboundTransaction} {outcomes : List (Except SinkFault Unit)}
  {m m' : Locked (Option Bytes)}

/-- The calls that were made of the sink in a run. -/
abbrev Calls (txs : List OutboundTransaction) (outcomes : List (Except SinkFault Unit))
    (trace : Trace device.locked) : Type :=
  Turns (fun tx => append (OutboundTransaction.record tx)) txs outcomes trace

theorem exists_calls (hr : (Activity.joinAll (txs.map accept)).Runs trace (some outcomes))
    (hf : trace.Follows id m m') (hl : m.lock.IsFree) : Nonempty (Calls txs outcomes trace) := by
  obtain ⟨calls, -⟩ := Activity.exists_turns_of_exclusively (fun _ => confined_append _) hr
    (hf.through Locked.lock) hl
  exact ⟨calls⟩

theorem accepted_perm (calls : Calls txs outcomes trace) (ho : ∀ o ∈ outcomes, o = .ok ()) :
    (accepted calls.order).Perm txs := by
  have hall : calls.order.filter (·.value.isOk) = calls.order := by
    refine List.filter_eq_self.mpr fun c hc => ?_
    rw [ho _ (calls.mem_of_mem_order hc)]
    rfl
  rw [accepted, hall]
  exact (calls.perm.map _).trans (.of_eq calls.members)

/-- What is read from the file after any number of calls, if nothing is torn. -/
theorem lines_of_untorn (calls : Calls txs outcomes trace) (hf : trace.Follows id m m')
    (hu : ∀ c ∈ calls.order, Untorn c) :
    Lines.of (m'.content.getD []) = (Lines.of (m.content.getD [])).extended
      ((accepted calls.order).map OutboundTransaction.lineBytes) := by
  have hcontent := content_of_untorn (calls.follows (fun _ => confined_append _) hf) hu
  rw [hcontent, OutboundTransaction.flatMap_record]
  refine Lines.of_append_flatMap _ fun line hline => ?_
  obtain ⟨tx, -, rfl⟩ := List.mem_map.mp hline
  exact tx.lineEnd_not_mem

/-! ## What a device may do -/

theorem exists_run_of_ask (taken : Bytes) (request : DeviceRequest) (answer : request.Answer)
    (m : Locked (Option Bytes)) :
    ∃ (asked : Trace device.locked) (m' : Locked (Option Bytes)),
      (ask taken request).Runs asked (some answer) ∧ asked.Follows id m m' :=
  ⟨_, _, runs_ask_some.mpr ⟨m, rfl⟩, rfl, rfl⟩

/-- The device takes all bytes at once and puts them into the file. -/
theorem exists_run_of_append (hb : bytes ≠ []) (m : Locked (Option Bytes)) :
    ∃ (inside : Trace device.locked) (m' : Locked (Option Bytes)),
      (append bytes).Runs inside (some (.ok ())) ∧ inside.Follows id m m' := by
  let all : { count : Nat // 0 < count } := ⟨bytes.length, List.length_pos_iff.mpr hb⟩
  have hnothing : bytes.drop all = [] := List.drop_length
  obtain ⟨opening, m₁, hopen, hf₁⟩ := exists_run_of_ask [] .openFile true m
  obtain ⟨writing, m₂, hwrite, hf₂⟩ := exists_run_of_ask [] (.write bytes) (.ok all) m₁
  obtain ⟨flushing, m₃, hflush, hf₃⟩ := exists_run_of_ask ([] ++ bytes.take all) .flush (.ok ()) m₂
  have hwritten : (writeAll [] bytes).Runs (writing ++ []) (some (.ok ([] ++ bytes.take all))) := by
    rw [writeAll, if_neg hb]
    refine Activity.runs_bind_some.mpr ⟨.ok all, writing, [], hwrite, ?_, rfl⟩
    dsimp only
    rw [hnothing, writeAll, if_pos rfl]
    exact Activity.runs_pure_some.mpr ⟨rfl, rfl⟩
  refine ⟨opening ++ ((writing ++ []) ++ (flushing ++ [])), m₃, ?_, ?_⟩
  · refine Activity.runs_bind_some.mpr ⟨true, _, _, hopen, ?_, rfl⟩
    refine Activity.runs_bind_some.mpr ⟨_, _, _, hwritten, ?_, rfl⟩
    refine Activity.runs_bind_some.mpr ⟨_, _, _, hflush, ?_, rfl⟩
    exact Activity.runs_pure_some.mpr ⟨rfl, rfl⟩
  · simp only [List.append_nil, Trace.follows_append]
    exact ⟨m₁, hf₁, m₂, hf₂, hf₃⟩

/-- The device fails to write, and some of the bytes have come to the file nevertheless. -/
theorem exists_run_of_failed_append (hb : bytes ≠ []) (landed : Nat) (m : Locked (Option Bytes)) :
    ∃ (inside : Trace device.locked) (m' : Locked (Option Bytes)),
      (append bytes).Runs inside (some (.error .writing)) ∧ inside.Follows id m m' ∧
        m'.content = appended (bytes.take landed) m.content := by
  obtain ⟨opening, m₁, hopen, hf₁⟩ := exists_run_of_ask [] .openFile true m
  obtain ⟨writing, m₂, hwrite, hf₂⟩ := exists_run_of_ask [] (.write bytes) (.error landed) m₁
  have hwritten : (writeAll [] bytes).Runs (writing ++ []) (some (.error .writing)) := by
    rw [writeAll, if_neg hb]
    refine Activity.runs_bind_some.mpr ⟨.error landed, writing, [], hwrite, ?_, rfl⟩
    exact Activity.runs_pure_some.mpr ⟨rfl, rfl⟩
  refine ⟨opening ++ ((writing ++ []) ++ []), m₂, ?_, ?_, ?_⟩
  · refine Activity.runs_bind_some.mpr ⟨true, _, _, hopen, ?_, rfl⟩
    refine Activity.runs_bind_some.mpr ⟨_, _, _, hwritten, ?_, rfl⟩
    exact Activity.runs_pure_some.mpr ⟨rfl, rfl⟩
  · simp only [List.append_nil, Trace.follows_append]
    exact ⟨m₁, hf₁, hf₂⟩
  · have hcreated := (follows_ask hopen (hf₁.through Locked.content)).2
    have hlanded := (follows_ask hwrite (hf₂.through Locked.content)).2
    rw [hlanded, hcreated]
    exact appended_nil_appended

/-- What comes to the file of some bytes: all of them, or as many as come before the write fails. -/
def landing (bytes : Bytes) : Option Nat → Bytes
  | none => bytes
  | some landed => bytes.take landed

def landingOutcome : Option Nat → Except SinkFault Unit
  | none => .ok ()
  | some _ => .error .writing

/-- Any transactions may be offered all at once, and whichever writes fail, all calls come to their end
in the order in which they were made. -/
theorem exists_run_of_accepts (landed : OutboundTransaction → Option Nat)
    (txs : List OutboundTransaction) {m : Locked (Option Bytes)} (hl : m.lock.IsFree) :
    ∃ (trace : Trace device.locked) (m' : Locked (Option Bytes)),
      (Activity.joinAll (txs.map accept)).Runs trace
        (some (txs.map fun tx => landingOutcome (landed tx))) ∧ trace.Follows id m m' ∧
        m'.content = txs.foldl (fun file tx => appended (landing tx.record (landed tx)) file)
          m.content := by
  refine Activity.exists_run_of_exclusively (fun _ => confined_append _) (fun tx m => ?_) txs hl
  have hb : tx.record ≠ [] := by simp [OutboundTransaction.record_eq]
  cases landed tx with
  | none =>
      obtain ⟨inside, m', hr, hf⟩ := exists_run_of_append hb m
      refine ⟨inside, m', hr, hf, ?_⟩
      obtain ⟨he, -⟩ | ⟨part, -, hwhole, -, hafter⟩ :=
        (runs_append_some hr (hf.through Locked.content)).2
      · cases he
      · rw [hafter, hwhole rfl]
        rfl
  | some landed => exact exists_run_of_failed_append hb landed m

/-! ## Files that were empty -/

/-- A file is made of one line for each of the transactions, from which it is read back, and no line has
a line break in it. -/
structure LineByLine (file : Bytes) (txs : List OutboundTransaction) : Prop where
  lines : Lines.of file = ⟨txs.map OutboundTransaction.lineBytes, []⟩
  readBack : (Lines.of file).complete.map OutboundTransaction.ofBytes? = txs.map some
  unbroken : ∀ line ∈ (Lines.of file).complete, ∀ b ∈ line, b ≠ 10 ∧ b ≠ 13

theorem lineByLine_of_lines {bytes : Bytes} {txs : List OutboundTransaction}
    (h : Lines.of bytes = ⟨txs.map OutboundTransaction.lineBytes, []⟩) : LineByLine bytes txs := by
  refine ⟨h, ?_, ?_⟩
  · rw [h, List.map_map]
    exact List.map_congr_left fun tx _ => tx.ofBytes?_lineBytes
  · rw [h]
    intro line hline b hb
    obtain ⟨tx, -, rfl⟩ := List.mem_map.mp hline
    have hprintable := tx.printable_lineBytes b hb
    constructor <;> rintro rfl <;> simp at hprintable

/-- However many transactions are offered at once to a sink without a file or with an empty one, the file
follows the answers of the device. A transaction that is accepted comes to it as a whole, and who cannot
open it leaves it as it is. It is made of the lines of the accepted transactions, in the order in which
their calls got the lock, if and only if nothing of any other transaction has come to it. -/
theorem accept_queues_lines
    (hr : (Activity.joinAll (txs.map accept)).Runs trace (some outcomes))
    (hf : trace.Follows id m m') (hl : m.lock.IsFree) (he : m.content.getD [] = []) :
    ∃ calls : Calls txs outcomes trace,
      (∀ c ∈ calls.order, c.after = (Handle.replay ⟨[], c.before⟩ c.inside).content) ∧
      (∀ c ∈ calls.order, c.value = .ok () → c.after = appended c.member.record c.before) ∧
      (∀ c ∈ calls.order, c.value = .error .opening → c.after = c.before) ∧
      (LineByLine (m'.content.getD []) (accepted calls.order) ↔ ∀ c ∈ calls.order, Untorn c) := by
  obtain ⟨calls⟩ := exists_calls hr hf hl
  have hinside := calls.follows_inside (fun _ => confined_append _) hf
  refine ⟨calls, fun c hc => (runs_append_some c.runs (hinside c hc)).1,
    fun c hc => after_eq_of_ok (hinside c hc), fun c hc => after_eq_of_opening (hinside c hc),
    fun h => ?_, fun hu => ?_⟩
  · refine untorn_of_content (calls.follows (fun _ => confined_append _) hf) ?_
    rw [he, List.nil_append, ← Lines.flatMap_of (m'.content.getD []), h.lines, List.append_nil,
      OutboundTransaction.flatMap_record]
  · have hempty : Lines.of (m.content.getD []) = ⟨[], []⟩ := congrArg Lines.of he
    refine lineByLine_of_lines ?_
    rw [lines_of_untorn calls hf hu, hempty, Lines.extended_empty]

/-- A transaction whose texts have in them what might be taken for the end of a text or of a line. -/
def awkward : OutboundTransaction where
  urgency := .critical
  executor := "\\ \"a\", \"b\""
  context := "one\r\ntwo\u2028\u0000é😀"
  dedupKey := "\n"
  ttlSeconds := 18446744073709551615
  request := .call ⟨7⟩ [0, 10, 255]

theorem queues_awkward_pair : ∃ (trace : Trace device.locked) (m' : Locked (Option Bytes))
      (txs : List OutboundTransaction),
    (Activity.joinAll ([awkward, { awkward with urgency := .low }].map accept)).Runs trace
        (some [.ok (), .ok ()]) ∧
      trace.Follows id ⟨.new, none⟩ m' ∧ Lock.new.IsFree ∧
      txs.Perm [awkward, { awkward with urgency := .low }] ∧ LineByLine (m'.content.getD []) txs := by
  have hfree : Lock.new.IsFree := rfl
  obtain ⟨trace, m', hr, hf, -⟩ := exists_run_of_accepts (fun _ => none)
    [awkward, { awkward with urgency := .low }] (m := ⟨.new, none⟩) hfree
  obtain ⟨calls, -, -, -, hlines⟩ := accept_queues_lines hr hf hfree rfl
  have hok : ∀ o ∈ [Except.ok (), Except.ok ()], o = (.ok () : Except SinkFault Unit) := by simp
  exact ⟨trace, m', accepted calls.order, hr, hf, hfree, accepted_perm calls hok,
    hlines.mpr fun c hc => .inl (hok _ (calls.mem_of_mem_order hc))⟩

/-- A call whose write fails after a byte is all it takes: the line of the next transaction goes on with
this byte, and nothing is read from it, though the transaction was accepted. -/
theorem not_lineByLine_after_failed_write : ∃ (trace : Trace device.locked)
      (m' : Locked (Option Bytes)) (glued : Bytes),
    (Activity.joinAll ([awkward, { awkward with urgency := .low }].map accept)).Runs trace
        (some [.error .writing, .ok ()]) ∧
      trace.Follows id ⟨.new, none⟩ m' ∧ Lock.new.IsFree ∧
      Lines.of (m'.content.getD []) = ⟨[glued], []⟩ ∧ OutboundTransaction.ofBytes? glued = none ∧
      ¬ LineByLine (m'.content.getD []) [{ awkward with urgency := .low }] := by
  have hfree : Lock.new.IsFree := rfl
  let second : OutboundTransaction := { awkward with urgency := .low }
  obtain ⟨trace, m', hr, hf, hcontent⟩ := exists_run_of_accepts
    (fun tx => if tx.urgency = .critical then some 1 else none) [awkward, second]
    (m := ⟨.new, none⟩) hfree
  have hbytes : m'.content.getD [] = second.misread ++ [Lines.lineEnd] := by
    rw [hcontent]
    show ([] ++ awkward.record.take 1) ++ second.record = _
    rw [awkward.take_record, second.record_eq, OutboundTransaction.misread_eq]
    rfl
  have hlines : Lines.of (m'.content.getD []) = ⟨[second.misread], []⟩ := by
    rw [hbytes, Lines.of_line second.lineEnd_not_mem_misread]
  refine ⟨trace, m', second.misread, hr, hf, hfree, hlines, second.ofBytes?_misread, fun h => ?_⟩
  have hread := h.readBack
  rw [hlines, List.map_singleton, second.ofBytes?_misread] at hread
  cases hread

/-! ## Files that held something -/

/-- Behind the complete lines of what was read before there is a line for each of the transactions, in
their order. -/
def Queues (before after : Lines) (txs : List OutboundTransaction) : Prop :=
  ∃ added, after.complete = before.complete ++ added ∧
    (txs.map OutboundTransaction.lineBytes).Sublist added

theorem queues_iff (calls : Calls txs outcomes trace) (hf : trace.Follows id m m')
    (hu : ∀ c ∈ calls.order, Untorn c) :
    Queues (Lines.of (m.content.getD [])) (Lines.of (m'.content.getD [])) (accepted calls.order) ↔
      accepted calls.order = [] ∨ (Lines.of (m.content.getD [])).rest = [] := by
  rw [Queues, lines_of_untorn calls hf hu, Lines.sublist_extended_iff, List.map_eq_nil_iff]

/-- Whatever was in the file stays there, and the accepted transactions are put behind it. But the first
of them goes on with what had not come to its end, and then it has no line of its own. -/
theorem accept_extends_lines
    (hr : (Activity.joinAll (txs.map accept)).Runs trace (some outcomes))
    (hf : trace.Follows id m m') (hl : m.lock.IsFree) :
    ∃ calls : Calls txs outcomes trace,
      m.content.getD [] <+: m'.content.getD [] ∧
      ((∀ c ∈ calls.order, Untorn c) →
        let before := Lines.of (m.content.getD [])
        let after := Lines.of (m'.content.getD [])
        after = before.extended ((accepted calls.order).map OutboundTransaction.lineBytes) ∧
        (Queues before after (accepted calls.order) ↔
          accepted calls.order = [] ∨ before.rest = [])) := by
  obtain ⟨calls⟩ := exists_calls hr hf hl
  exact ⟨calls, prefix_of_turns (calls.follows (fun _ => confined_append _) hf),
    fun hu => ⟨lines_of_untorn calls hf hu, queues_iff calls hf hu⟩⟩

theorem queues_behind_line : ∃ (trace : Trace device.locked) (m' : Locked (Option Bytes)),
    (Activity.joinAll ([awkward].map accept)).Runs trace (some [.ok ()]) ∧
      trace.Follows id ⟨.new, some (Bytes.ofString "old\n")⟩ m' ∧ Lock.new.IsFree ∧
      Queues (Lines.of (Bytes.ofString "old\n")) (Lines.of (m'.content.getD [])) [awkward] := by
  have hfree : Lock.new.IsFree := rfl
  obtain ⟨trace, m', hr, hf, -⟩ := exists_run_of_accepts (fun _ => none) [awkward]
    (m := ⟨.new, some (Bytes.ofString "old\n")⟩) hfree
  obtain ⟨calls, -, hlines⟩ := accept_extends_lines hr hf hfree
  have hok : ∀ o ∈ [Except.ok ()], o = (.ok () : Except SinkFault Unit) := by simp
  have hall : accepted calls.order = [awkward] := List.perm_singleton.mp (accepted_perm calls hok)
  obtain ⟨-, hqueues⟩ := hlines fun c hc => .inl (hok _ (calls.mem_of_mem_order hc))
  have hrest : (Lines.of (Bytes.ofString "old\n")).rest = [] := by decide +kernel
  exact ⟨trace, m', hr, hf, hfree, hall ▸ hqueues.mpr (.inr hrest)⟩

/-- The beginning of a line, as a write that has failed leaves it. -/
def torn : Bytes := Bytes.ofString "\x7b\"urgency\":\"high"

/-- A transaction that is accepted after a write has failed has no line of its own. -/
theorem not_queues_behind_torn : ∃ (trace : Trace device.locked) (m' : Locked (Option Bytes)),
    (Activity.joinAll ([awkward].map accept)).Runs trace (some [.ok ()]) ∧
      trace.Follows id ⟨.new, some torn⟩ m' ∧ Lock.new.IsFree ∧
      ¬ Queues (Lines.of torn) (Lines.of (m'.content.getD [])) [awkward] := by
  have hfree : Lock.new.IsFree := rfl
  obtain ⟨trace, m', hr, hf, -⟩ := exists_run_of_accepts (fun _ => none) [awkward]
    (m := ⟨.new, some torn⟩) hfree
  obtain ⟨calls⟩ := exists_calls hr hf hfree
  have hok : ∀ o ∈ [Except.ok ()], o = (.ok () : Except SinkFault Unit) := by simp
  have hall : accepted calls.order = [awkward] := List.perm_singleton.mp (accepted_perm calls hok)
  have hqueues := queues_iff calls hf fun c hc => .inl (hok _ (calls.mem_of_mem_order hc))
  rw [hall] at hqueues
  have hrest : (Lines.of torn).rest ≠ [] := by decide +kernel
  refine ⟨trace, m', hr, hf, hfree, fun h => ?_⟩
  cases hqueues.mp h with
  | inl hnone => cases hnone
  | inr hnil => exact hrest hnil

/-! ## One transaction at a time -/

/-- What the bytes of a queue file are, if there is one. -/
def fileBytes (file : QueueFile) : Option Bytes :=
  file.content?.map fun content => Bytes.ofString (String.ofList content)

theorem accept_of_ne_blocked {file : QueueFile} (hb : file ≠ .blocked) (tx : OutboundTransaction) :
    (file.accept tx).2 ≠ .blocked ∧
      fileBytes (file.accept tx).2 = appended tx.record (fileBytes file) := by
  cases file with
  | absent =>
      simp [QueueFile.accept, fileBytes, QueueFile.content?, appended, OutboundTransaction.record]
  | holding content =>
      simp [QueueFile.accept, fileBytes, QueueFile.content?, appended, OutboundTransaction.record,
        Bytes.ofString_eq]
  | blocked => exact (hb rfl).elim

theorem content_of_turns (hf : Trace.Follows Locked.content (order.flatMap Stay.turn) file file')
    (ho : ∀ c ∈ order, c.value = .ok () ∨ c.value = .error .opening) {queue : QueueFile}
    (hb : queue ≠ .blocked) (hq : file = fileBytes queue) :
    file' = fileBytes ((accepted order).foldl (fun queue tx => (queue.accept tx).2) queue) := by
  induction order generalizing file queue with
  | nil => exact (show file' = file from hf).trans hq
  | cons c order ih =>
      obtain ⟨rfl, hinside, hlater⟩ := Stay.follows_turns_cons.mp hf
      obtain ⟨hfirst, hrest⟩ := List.forall_mem_cons.mp ho
      cases hfirst with
      | inl hok =>
          obtain ⟨hb', hbytes⟩ := accept_of_ne_blocked hb c.member
          rw [accepted_cons_of_ok hok, List.foldl_cons]
          refine ih hlater hrest hb' ?_
          rw [after_eq_of_ok hinside hok, hq, hbytes]
      | inr hopening =>
          rw [accepted_cons_of_error hopening]
          exact ih hlater hrest hb ((after_eq_of_opening hinside hopening).trans hq)

/-- Where every call is accepted or cannot open the file, the file is as if the accepted transactions
had been offered to it one at a time. -/
theorem accept_one_at_a_time (calls : Calls txs outcomes trace) (hf : trace.Follows id m m')
    (ho : ∀ o ∈ outcomes, o = .ok () ∨ o = .error .opening) {queue : QueueFile}
    (hb : queue ≠ .blocked) (hq : m.content = fileBytes queue) : m'.content =
      fileBytes ((accepted calls.order).foldl (fun queue tx => (queue.accept tx).2) queue) :=
  content_of_turns (calls.follows (fun _ => confined_append _) hf)
    (fun _ hc => ho _ (calls.mem_of_mem_order hc)) hb hq

end Sink

end ChainWatch
