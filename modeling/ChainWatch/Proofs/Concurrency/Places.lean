import ChainWatch.Proofs.Concurrency.Mirror
import ChainWatch.Proofs.Concurrency.Waiting

/-!
# Crews with so many places

A member of a crew has a place from the moment at which it is started to that at which it has finished.
A log says which member did what, and when it got its place and gave it back. Every crew that runs to
its end has a log (`Activity.exists_log_of_joinBounded`): each member has had a place once and done all
of its work there, and at no point were more places taken than there are.

An order of events is no mere possibility if the outside has seen them in this order. `Handler.taped`
is an outside that writes down what it is asked and what it answers.
-/

namespace ChainWatch.Concurrency

variable {I : Interface} {σ α β : Type}

/-- An entry on a member of a crew. -/
inductive Mark (I : Interface) where
  /-- It gets a place. -/
  | began
  | did (event : Event I)
  /-- It has finished and gives its place back. -/
  | ended

namespace Mark

def event? : Mark I → Option (Event I)
  | did event => some event
  | _ => none

def isBegan : Mark I → Bool
  | began => true
  | _ => false

def isEnded : Mark I → Bool
  | ended => true
  | _ => false

end Mark

/-- What the members of a crew did, each entry under the number of its member. -/
abbrev Log (I : Interface) : Type := List (Nat × Mark I)

namespace Log

def events (log : Log I) : Trace I := log.filterMap fun entry => entry.2.event?

/-- How many members have got a place and not given it back. -/
def inFlight (log : Log I) : Nat :=
  (log.countP fun entry => entry.2.isBegan) - log.countP fun entry => entry.2.isEnded

/-- What a member with such a number does at its place. -/
def theirs (k : Nat) (trace : Trace I) : Log I := trace.map fun event => (k, .did event)

/-- With so many places taken at first and so many at last, there is a place for everybody who gets one,
and nobody gives back what was not taken. -/
def Within (limit : Nat) : Nat → Log I → Nat → Prop
  | taken, [], last => last = taken
  | taken, (_, .began) :: rest, last => taken < limit ∧ Within limit (taken + 1) rest last
  | taken, (_, .did _) :: rest, last => Within limit taken rest last
  | taken, (_, .ended) :: rest, last => 0 < taken ∧ Within limit (taken - 1) rest last

variable {limit taken last k i : Nat} {early late log : Log I} {trace : Trace I}

@[simp] theorem events_nil : events ([] : Log I) = [] := rfl

@[simp] theorem events_append : (early ++ late).events = early.events ++ late.events :=
  List.filterMap_append

@[simp] theorem events_began : events ((k, .began) :: log) = events log := rfl

@[simp] theorem events_ended : events ((k, .ended) :: log) = events log := rfl

@[simp] theorem events_theirs : (theirs k trace).events = trace := by
  rw [events, theirs, List.filterMap_map]
  exact List.filterMap_some

@[simp] theorem ownedBy_theirs : ownedBy k (theirs k trace) = trace.map .did := by
  induction trace with
  | nil => rfl
  | cons event trace ih => exact ownedBy_cons_self.trans (congrArg _ ih)

theorem ownedBy_theirs_of_ne (h : i ≠ k) : ownedBy i (theirs k trace) = [] := by
  induction trace with
  | nil => rfl
  | cons event trace ih => exact (ownedBy_cons_of_ne h.symm).trans ih

/-! ## Places -/

theorem within_append :
    Within limit taken (early ++ late) last ↔
      ∃ middle, Within limit taken early middle ∧ Within limit middle late last := by
  induction early generalizing taken with
  | nil => simp [Within]
  | cons entry early ih =>
      obtain ⟨k, _ | event | _⟩ := entry <;>
        simp only [List.cons_append, Within, ih, exists_and_left, and_assoc]

theorem within_theirs : Within limit taken (theirs k trace) taken := by
  induction trace with
  | nil => rfl
  | cons event trace ih => exact ih

/-- There are never more places taken than there are, and they are the ones that were got. -/
theorem Within.balance (h : Within limit taken log last) (ht : taken ≤ limit) :
    last ≤ limit ∧ taken + (log.countP fun entry => entry.2.isBegan) =
      last + log.countP fun entry => entry.2.isEnded := by
  induction log generalizing taken with
  | nil =>
      obtain rfl : last = taken := h
      exact ⟨ht, rfl⟩
  | cons entry log ih =>
      obtain ⟨k, _ | event | _⟩ := entry
      · obtain ⟨hlt, hrest⟩ := h
        have hb := ih hrest hlt
        rw [List.countP_cons_of_pos rfl, List.countP_cons_of_neg Bool.false_ne_true]
        omega
      · rw [List.countP_cons_of_neg Bool.false_ne_true, List.countP_cons_of_neg Bool.false_ne_true]
        exact ih h ht
      · obtain ⟨hpos, hrest⟩ := h
        have hb := ih hrest (by omega)
        rw [List.countP_cons_of_neg Bool.false_ne_true, List.countP_cons_of_pos rfl]
        omega

/-- At every point of the log so many members at most are at work. -/
theorem Within.inFlight_le (h : Within limit 0 (early ++ late) last) : early.inFlight ≤ limit := by
  obtain ⟨middle, he, -⟩ := within_append.mp h
  have hb := he.balance (Nat.zero_le limit)
  unfold inFlight
  omega

/-- The log of a crew that has run to its end. -/
structure Covers (log : Log I) (limit : Nat) (members : List (Activity I β)) (values : List β) :
    Prop where
  length_eq : values.length = members.length
  /-- Each member has got a place once, and there it has done what came to its value. -/
  whole : ∀ i member value, members[i]? = some member → values[i]? = some value →
    ∃ trace, member.Runs trace (some value) ∧
      ownedBy i log = .began :: trace.map .did ++ [.ended]
  /-- Nobody else has done anything. -/
  alone : ∀ i, members.length ≤ i → ownedBy i log = []
  inFlight_le : ∀ early late, log = early ++ late → early.inFlight ≤ limit

end Log

/-! ## Where the members of a crew are -/

/-- The log says what the members, numbered from `k` on, have done to become what they are in the
crew. -/
inductive Crew.Stands (log : Log I) : Nat → List (Activity I β) → Crew I β → Prop where
  | nil (k : Nat) : Stands log k [] .nil
  | finished {k : Nat} {member : Activity I β} {members : List (Activity I β)} {rest : Crew I β}
    {value : β} {trace : Trace I} (runs : member.Runs trace (some value))
    (owned : ownedBy k log = .began :: trace.map .did ++ [.ended])
    (others : Stands log (k + 1) members rest) :
    Stands log k (member :: members) (.finished value rest)
  | running {k : Nat} {member left : Activity I β} {members : List (Activity I β)}
    {rest : Crew I β} {trace : Trace I}
    (runs : ∀ later result, left.Runs later result → member.Runs (trace ++ later) result)
    (owned : ownedBy k log = .began :: trace.map .did)
    (others : Stands log (k + 1) members rest) :
    Stands log k (member :: members) (.running left rest)
  | queued {k : Nat} {member : Activity I β} {members : List (Activity I β)} {rest : Crew I β}
    (owned : ownedBy k log = []) (others : Stands log (k + 1) members rest) :
    Stands log k (member :: members) (.queued member rest)

namespace Crew

variable {log log' : Log I} {k : Nat} {members : List (Activity I β)} {crew : Crew I β}

theorem stands_ofList (k : Nat) (members : List (Activity I β)) :
    (ofList members).Stands [] k members := by
  induction members generalizing k with
  | nil => exact .nil k
  | cons member members ih => exact .queued rfl (ih (k + 1))

theorem Stands.congr (h : crew.Stands log k members)
    (ho : ∀ i, k ≤ i → ownedBy i log' = ownedBy i log) : crew.Stands log' k members := by
  induction h with
  | nil k => exact .nil k
  | finished runs owned _ ih =>
      exact .finished runs ((ho _ (Nat.le_refl _)).trans owned) (ih fun i hi => ho i (by omega))
  | running runs owned _ ih =>
      exact .running runs ((ho _ (Nat.le_refl _)).trans owned) (ih fun i hi => ho i (by omega))
  | queued owned _ ih =>
      exact .queued ((ho _ (Nat.le_refl _)).trans owned) (ih fun i hi => ho i (by omega))

/-- When all have finished, the log holds the whole work of each of them. -/
theorem Stands.whole {values : List β} (h : crew.Stands log k members)
    (hr : crew.results? = some values) :
    values.length = members.length ∧
      ∀ i member value, members[i]? = some member → values[i]? = some value →
        ∃ trace, member.Runs trace (some value) ∧
          ownedBy (k + i) log = .began :: trace.map .did ++ [.ended] := by
  induction h generalizing values with
  | nil k =>
      obtain rfl : [] = values := Option.some.inj hr
      exact ⟨rfl, fun i member value hm => by simp at hm⟩
  | running | queued => cases hr
  | @finished k member members rest value trace runs owned _ ih =>
      obtain ⟨others, hothers, rfl⟩ := Option.map_eq_some_iff.mp hr
      obtain ⟨hlength, hwhole⟩ := ih hothers
      refine ⟨congrArg (· + 1) hlength, fun i other v hm hv => ?_⟩
      cases i with
      | zero =>
          cases hm
          cases hv
          exact ⟨trace, runs, owned⟩
      | succ i =>
          obtain ⟨theirs, hruns, howned⟩ := hwhole i other v hm hv
          exact ⟨theirs, hruns, by rw [← howned, Nat.add_right_comm, Nat.add_assoc]⟩

end Crew

/-! ## Polling -/

/-- After a poll the log of a crew is longer, and it still says where everybody is. -/
def Crew.Logged (h : Handler I σ) (limit k taken : Nat) (log : Log I) (members : List (Activity I β))
    (crew : Crew I β) (w : World I σ) (r : Crew I β × World I σ) : Prop :=
  ∃ (new : Log I) (last : Nat), r.1.Stands (log ++ new) k members ∧ new.events.Leads h w r.2 ∧
    new.Within limit taken last ∧ last + crew.busy = taken + r.1.busy ∧
    ∀ i, i < k ∨ k + members.length ≤ i → ownedBy i new = []

section Poll

variable {h : Handler I σ} {limit k taken taken' free now : Nat} {log : Log I}
  {member : Activity I β} {members : List (Activity I β)} {crew rest : Crew I β}
  {w w' : World I σ} {r : Crew I β × World I σ}

/-- First the first member moves, then the others do. -/
theorem Crew.Logged.cons (mine : Log I) (put : Crew I β → Crew I β)
    (hr : Logged h limit (k + 1) taken' (log ++ mine) members rest w' r)
    (hl : mine.events.Leads h w w') (hw : mine.Within limit taken taken')
    (hm : ∀ i, i ≠ k → ownedBy i mine = [])
    (hp : ∀ later, ownedBy k later = ownedBy k (log ++ mine) → r.1.Stands later (k + 1) members →
      (put r.1).Stands later k (member :: members))
    (hb : crew.busy + taken' + r.1.busy = rest.busy + taken + (put r.1).busy) :
    Logged h limit k taken log (member :: members) crew w (put r.1, r.2) := by
  obtain ⟨new, last, hstands, hleads, hwithin, hbusy, hothers⟩ := hr
  refine ⟨mine ++ new, last, ?_, ?_, ?_, ?_, fun i hi => ?_⟩
  · rw [← List.append_assoc]
    refine hp _ ?_ hstands
    rw [ownedBy_append, hothers k (.inl (Nat.lt_succ_self k)), List.append_nil]
  · rw [Log.events_append]
    exact hl.append hleads
  · exact Log.within_append.mpr ⟨taken', hw, hwithin⟩
  · dsimp only
    omega
  · rw [List.length_cons] at hi
    rw [ownedBy_append, hm i (by omega), hothers i (by omega)]
    rfl

theorem Crew.Logged.cons_still (put : Crew I β → Crew I β)
    (hr : Logged h limit (k + 1) taken log members rest w r)
    (hp : ∀ later, ownedBy k later = ownedBy k log → r.1.Stands later (k + 1) members →
      (put r.1).Stands later k (member :: members))
    (hb : crew.busy + r.1.busy = rest.busy + (put r.1).busy) :
    Logged h limit k taken log (member :: members) crew w (put r.1, r.2) := by
  rw [← List.append_nil log] at hr hp
  exact .cons [] put hr (Trace.leads_nil w) rfl (fun _ _ => rfl) hp (by omega)

theorem Crew.Stands.append {mine : Log I} (h : rest.Stands log (k + 1) members)
    (hm : ∀ i, i ≠ k → ownedBy i mine = []) : rest.Stands (log ++ mine) (k + 1) members := by
  refine h.congr fun i hi => ?_
  rw [ownedBy_append, hm i (by omega), List.append_nil]

theorem Crew.logged_running {left : Activity I β}
    (ih : ∀ {free : Nat} {w : World I σ} {log : Log I} {k taken : Nat}
      {members : List (Activity I β)}, rest.Stands log k members → rest.busy ≤ taken →
      taken + free ≤ limit → Logged h limit k taken log members rest w (rest.poll h now free w))
    (hs : (running left rest).Stands log k members) (hb : rest.busy < taken)
    (hf : taken + free ≤ limit) :
    Logged h limit k taken log members (.running left rest) w
      ((running left rest).poll h now free w) := by
  obtain ⟨trace, hl, hr⟩ := left.explains_poll h now w
  cases hs with
  | @running _ member _ members _ early runs owned others =>
      unfold Crew.poll
      split
      · rename_i value w' heq
        rw [heq] at hl hr
        have mine (i : Nat) (hi : i ≠ k) : ownedBy i (Log.theirs k trace ++ [(k, .ended)]) = [] := by
          rw [ownedBy_append, Log.ownedBy_theirs_of_ne hi, ownedBy_cons_of_ne hi.symm]
          rfl
        have events : Log.events (Log.theirs k trace ++ [(k, .ended)]) = trace := by simp
        have ended : member.Runs (early ++ trace) (some value) :=
          runs trace _ (by simpa using hr [] (some value) ⟨rfl, .inr rfl⟩)
        refine .cons _ (.finished value)
          (ih (others.append mine) (by omega : rest.busy ≤ taken - 1) (by omega)) ?_ ?_ mine
          (fun later ho => .finished ended ?_) ?_
        · rw [events]
          exact hl
        · exact Log.within_append.mpr ⟨taken, Log.within_theirs, by omega, rfl⟩
        · rw [ho]
          simp [owned]
        · simp only [busy]
          omega
      · rename_i left' w' _ heq
        rw [heq] at hl hr
        have mine (i : Nat) (hi : i ≠ k) : ownedBy i (Log.theirs k trace) = [] :=
          Log.ownedBy_theirs_of_ne hi
        have moved : ∀ later result, left'.Runs later result →
            member.Runs (early ++ trace ++ later) result := by
          intro later result hn
          rw [List.append_assoc]
          exact runs _ result (hr later result hn)
        refine .cons _ (.running left')
          (ih (others.append mine) (by omega : rest.busy ≤ taken) hf) (Log.events_theirs ▸ hl)
          Log.within_theirs mine (fun later ho => .running moved ?_) ?_
        · rw [ho]
          simp [owned]
        · simp only [busy]
          omega

/-- A member that gets a place goes on like one that has it. -/
theorem Crew.Logged.begin
    (hr : Logged h limit k (taken + 1) (log ++ [(k, .began)]) (member :: members)
      (.running member rest) w r) (ht : taken < limit) :
    Logged h limit k taken log (member :: members) (.queued member rest) w r := by
  obtain ⟨new, last, hstands, hleads, hwithin, hbusy, hothers⟩ := hr
  refine ⟨(k, .began) :: new, last, ?_, hleads, ⟨ht, hwithin⟩, ?_, fun i hi => ?_⟩
  · rwa [List.append_assoc] at hstands
  · simp only [busy] at hbusy ⊢
    omega
  · rw [List.length_cons] at hothers hi
    rw [ownedBy_cons_of_ne (by omega), hothers i hi]

theorem Crew.poll_queued_of_ne_zero (hf : free ≠ 0) :
    (Crew.queued member rest).poll h now free w =
      (Crew.running member rest).poll h now (free - 1) w := by
  unfold Crew.poll
  rw [if_neg hf, Nat.sub_add_cancel (Nat.pos_of_ne_zero hf)]

/-- A poll lets no more members have a place than there are places. -/
theorem Crew.logged_poll (h : Handler I σ) (now : Nat) : (crew : Crew I β) → {free : Nat} →
    {w : World I σ} → {log : Log I} → {k taken : Nat} → {members : List (Activity I β)} →
    crew.Stands log k members → crew.busy ≤ taken → taken + free ≤ limit →
    Logged h limit k taken log members crew w (crew.poll h now free w)
  | .nil, _, w, _, _, taken, _, .nil k, _, _ =>
      ⟨[], taken, .nil k, Trace.leads_nil w, rfl, rfl, fun _ _ => rfl⟩
  | .finished value rest, _, _, _, _, _, _, .finished runs owned others, hb, hf =>
      .cons_still (.finished value) (rest.logged_poll h now others hb hf)
        (fun _ ho => .finished runs (ho.trans owned)) rfl
  | .running left rest, _, _, _, _, _, _, hs, hb, hf =>
      logged_running (rest.logged_poll h now) hs hb hf
  | .queued member rest, free, _, log, k, _, _, .queued owned others, hb, hf => by
      by_cases hfree : free = 0
      · subst hfree
        exact .cons_still (.queued member) (rest.logged_poll h now others hb hf)
          (fun _ ho => .queued (ho.trans owned)) rfl
      · have began : (running member rest).Stands (log ++ [(k, .began)]) k (member :: _) :=
          .running (fun later _ hn => (List.nil_append later).symm ▸ hn) (by simp [owned])
            (others.append fun i hi => ownedBy_cons_of_ne hi.symm)
        rw [poll_queued_of_ne_zero hfree]
        exact (logged_running (rest.logged_poll h now) began (Nat.lt_succ_of_le hb)
          (by omega)).begin (by omega)

end Poll

/-! ## Runs -/

/-- Where a crew stands that has so many places and has got so far. -/
structure Crew.Logs (h : Handler I σ) (limit : Nat) (members : List (Activity I β)) (w : World I σ)
    (crew : Crew I β) (log : Log I) (w' : World I σ) : Prop where
  stands : crew.Stands log 0 members
  leads : log.events.Leads h w w'
  within : log.Within limit 0 crew.busy
  alone : ∀ i, members.length ≤ i → ownedBy i log = []

namespace Crew

variable {h : Handler I σ} {limit : Nat} {members : List (Activity I β)} {crew : Crew I β}
  {log : Log I} {w w' : World I σ}

theorem logs_ofList (h : Handler I σ) (limit : Nat) (members : List (Activity I β))
    (w : World I σ) : (ofList members).Logs h limit members w [] w where
  stands := stands_ofList 0 members
  leads := Trace.leads_nil w
  within := busy_ofList members
  alone _ _ := rfl

theorem Logs.poll (hc : crew.Logs h limit members w log w') (now : Nat) :
    ∃ new, (crew.poll h now (limit - crew.busy) w').1.Logs h limit members w (log ++ new)
      (crew.poll h now (limit - crew.busy) w').2 := by
  have hle := (hc.within.balance (Nat.zero_le limit)).1
  obtain ⟨new, last, hstands, hleads, hwithin, hbusy, hothers⟩ :=
    crew.logged_poll h now (w := w') hc.stands (Nat.le_refl _)
      (by omega : crew.busy + (limit - crew.busy) ≤ limit)
  obtain rfl : last = (crew.poll h now (limit - crew.busy) w').1.busy := by omega
  refine ⟨new, hstands, ?_, Log.within_append.mpr ⟨_, hc.within, hwithin⟩, fun i hi => ?_⟩
  · rw [Log.events_append]
    exact hc.leads.append hleads
  · rw [ownedBy_append, hc.alone i hi, hothers i (.inr (by omega))]
    rfl

theorem Logs.covers {values : List β} (hc : crew.Logs h limit members w log w')
    (hr : crew.results? = some values) : log.Covers limit members values := by
  obtain ⟨hlength, hwhole⟩ := hc.stands.whole hr
  refine ⟨hlength, fun i member value hm hv => ?_, hc.alone, fun early late heq => ?_⟩
  · rw [← Nat.zero_add i]
    exact hwhole i member value hm hv
  · exact (heq ▸ hc.within).inFlight_le

end Crew

/-- What a crew is on the way to its end, and what has become of it in the end. -/
inductive Activity.Joining (h : Handler I σ) (limit : Nat) (members : List (Activity I β))
    (w : World I σ) : Activity I (List β) → World I σ → Prop where
  | underWay {crew : Crew I β} {log : Log I} {w' : World I σ}
    (logs : crew.Logs h limit members w log w') : Joining h limit members w (.join limit crew .done) w'
  | joined {values : List β} {log : Log I} {w' : World I σ} (leads : log.events.Leads h w w')
    (covers : log.Covers limit members values) : Joining h limit members w (.done values) w'

theorem Activity.Joining.poll {h : Handler I σ} {limit : Nat} {members : List (Activity I β)}
    {p : Activity I (List β)} {w w' : World I σ} (hp : p.Joining h limit members w w') (now : Nat) :
    (p.poll h now w').1.Joining h limit members w (p.poll h now w').2 := by
  cases hp with
  | underWay logs =>
      obtain ⟨new, hnew⟩ := logs.poll now
      unfold Activity.poll
      dsimp only
      split
      · exact .joined hnew.leads (hnew.covers ‹_›)
      · exact .underWay hnew
  | joined leads covers => exact .joined leads covers

/-- Every crew that runs to its end has a log. -/
theorem Activity.exists_log_of_joinBounded {h : Handler I σ} {now limit : Nat}
    {members : List (Activity I β)} {w : World I σ} {values : List β}
    (hv : ((joinBounded limit members).run h now w).value? = some values) :
    ∃ log : Log I, log.events.Leads h w ((joinBounded limit members).run h now w).world ∧
      log.Covers limit members values := by
  obtain ⟨q, hq, -, heq⟩ := exists_rest_of_run (Joining h limit members w) h now
    (.underWay (Crew.logs_ofList h limit members w)) fun due q w' hq => hq.poll due
  have ended : some values = q.value? := hv.symm.trans heq
  cases hq with
  | underWay logs => cases ended
  | @joined values' log _ leads covers =>
      obtain rfl : values = values' := Option.some.inj ended
      exact ⟨log, leads, covers⟩

/-! ## Writing down what is seen -/

/-- A handler that writes down what it is asked and what it answers. -/
def Handler.taped (h : Handler I σ) : Handler I (σ × Trace I) where
  submit r s := ((h.submit r s.1).1, (h.submit r s.1).2, s.2 ++ [.sent r])
  settle r s :=
    ((h.settle r s.1).1, (h.settle r s.1).2, s.2 ++ [.answered r (h.settle r s.1).1.answer])

theorem Handler.taped_mirrors (h : Handler I σ) (asks : I.Request → Prop) :
    h.taped.Mirrors h asks Prod.fst :=
  ⟨fun _ _ _ => rfl, fun _ _ _ => rfl⟩

/-- Whether somebody writes it down makes no difference to a run. -/
theorem Activity.Timeless.run_taped {h : Handler I σ} {asks : I.Request → Prop} {p : Activity I α}
    (hp : p.Timeless asks) (now : Nat) (w : World I (σ × Trace I)) :
    (p.run h.taped now w).map 0 Prod.fst = p.run h now (w.map Prod.fst) := by
  have taped : p.run h.taped now w = (p.run h.taped 0 w).map now id :=
    hp.run_eq (Handler.Mirrors.refl h.taped asks) now w
  rw [taped, hp.run_eq (h.taped_mirrors asks) now w]
  rfl

/-- What has been written down in the end is what was exchanged. -/
theorem Trace.Served.taped {h : Handler I σ} {trace : Trace I} {s s' : σ × Trace I}
    (hs : trace.Served h.taped s s') :
    trace.Served h s.1 s'.1 ∧ s'.2 = s.2 ++ trace.exchanged := by
  induction trace generalizing s with
  | nil =>
      obtain rfl : s' = s := hs
      exact ⟨rfl, (List.append_nil _).symm⟩
  | cons event trace ih =>
      cases event with
      | sent r =>
          obtain ⟨hserved, htape⟩ := ih hs
          exact ⟨hserved, htape.trans (List.append_assoc ..)⟩
      | answered r answer =>
          obtain ⟨rfl, hs⟩ := hs
          obtain ⟨hserved, htape⟩ := ih hs
          exact ⟨⟨rfl, hserved⟩, htape.trans (List.append_assoc ..)⟩
      | touched before after => exact ih hs
      | noticed memory => exact ih hs

end ChainWatch.Concurrency
