import ChainWatch.Concurrency.Lock
import ChainWatch.Proofs.Concurrency.Footprint

/-!
# One after the other

Of calls that do their work while holding the same lock, whatever the schedule, one does its work after
the other. They come in the order of their numbers, and apart from asking for the lock the trace of the
whole is nothing but what each of them does inside (`Activity.exists_turns_of_exclusively`).
-/

namespace ChainWatch.Concurrency

variable {I : Interface} {B β : Type} {work : B → Activity I.locked β}

namespace Event

/-- The event leaves the lock as it is, and no wait ends with it. -/
def SparesLock : Event I.locked → Prop
  | .touched before after => after.lock = before.lock
  | .noticed _ => False
  | _ => True

/-- A number is taken. -/
def asks : Event I.locked → Bool
  | .touched before after => after.lock.taken != before.lock.taken
  | _ => false

theorem SparesLock.asks_eq_false {event : Event I.locked} (h : event.SparesLock) :
    event.asks = false := by
  cases event with
  | touched before after =>
      have hl : after.lock = before.lock := h
      simp [asks, hl]
  | _ => rfl

theorem SparesLock.lock_eq {event : Event I.locked} {lock lock' : Lock} (h : event.SparesLock)
    (hf : Trace.Follows Locked.lock [event] lock lock') : lock' = lock := by
  cases event with
  | touched before after =>
      obtain ⟨rfl, rfl⟩ := hf
      exact h
  | noticed => exact h.elim
  | sent | answered => exact hf

end Event

/-! ## Stays -/

/-- A call from asking for the lock to giving it back. -/
structure Stay (work : B → Activity I.locked β) where
  member : B
  value : β
  asked : Locked I.Memory
  entered : Locked I.Memory
  inside : Trace I.locked
  left : Locked I.Memory
  called : entered.lock.called = asked.lock.taken
  runs : (work member).Runs inside (some value)

namespace Stay

def number (s : Stay work) : Nat := s.asked.lock.taken

/-- The event with which it takes its number. -/
def ask (s : Stay work) : Event I.locked := .touched s.asked s.asked.take

/-- The event with which it gives the lock back. -/
def leave (s : Stay work) : Event I.locked := .touched s.left s.left.call

/-- What it does from its number being called until it has given the lock back. -/
def turn (s : Stay work) : Trace I.locked := .noticed s.entered :: (s.inside ++ [s.leave])

def whole (s : Stay work) : Trace I.locked := s.ask :: s.turn

/-- What the lock is on, as the call gets it. -/
def before (s : Stay work) : I.Memory := s.entered.content

/-- What the lock is on, as the call leaves it. -/
def after (s : Stay work) : I.Memory := s.left.content

theorem eq_ask_of_asks (hw : ∀ x, (work x).Confined Event.SparesLock) {s : Stay work}
    {event : Event I.locked} (he : event ∈ s.whole) (ha : event.asks = true) : event = s.ask := by
  simp only [whole, turn, List.mem_cons, List.mem_append, List.not_mem_nil, or_false] at he
  obtain rfl | rfl | he | rfl := he
  · rfl
  · simp [Event.asks] at ha
  · simp [((hw s.member).runs s.runs event he).asks_eq_false] at ha
  · simp [leave, Event.asks, Locked.call, Lock.call] at ha

/-- From the end of the wait until the lock is given back. -/
theorem follows_turn {s : Stay work} {x y : I.Memory} :
    Trace.Follows Locked.content s.turn x y ↔ s.before = x ∧ s.after = y ∧
      Trace.Follows Locked.content s.inside x y := by
  rw [turn, leave, Trace.Follows, Trace.follows_append]
  constructor
  · rintro ⟨rfl, z, hinside, rfl, rfl⟩
    exact ⟨rfl, rfl, hinside⟩
  · rintro ⟨rfl, rfl, hinside⟩
    exact ⟨rfl, _, hinside, rfl, rfl⟩

theorem follows_turns_cons {s : Stay work} {stays : List (Stay work)} {x y : I.Memory} :
    Trace.Follows Locked.content ((s :: stays).flatMap turn) x y ↔ s.before = x ∧
      Trace.Follows Locked.content s.inside s.before s.after ∧
      Trace.Follows Locked.content (stays.flatMap turn) s.after y := by
  rw [List.flatMap_cons, Trace.follows_append]
  constructor
  · rintro ⟨z, hturn, hlater⟩
    obtain ⟨rfl, rfl, hinside⟩ := follows_turn.mp hturn
    exact ⟨rfl, hinside, hlater⟩
  · rintro ⟨rfl, hinside, hlater⟩
    exact ⟨s.after, follows_turn.mpr ⟨rfl, rfl, hinside⟩, hlater⟩

end Stay

theorem Activity.exists_stay_of_exclusively {x : B} {trace : Trace I.locked} {value : β}
    (h : (exclusively (work x)).Runs trace (some value)) :
    ∃ s : Stay work, s.member = x ∧ s.value = value ∧ s.whole = trace := by
  obtain ⟨asked, _, _, hask, hrest, rfl⟩ := runs_bind_some.mp h
  obtain ⟨⟨_, found⟩, _, rfl, rfl, hfound⟩ := begins_some.mp hask
  obtain rfl : asked = found := by simpa using hfound
  obtain ⟨_, _, _, hwait, hin, rfl⟩ := runs_bind_some.mp hrest
  obtain ⟨entered, hcalled, rfl⟩ := runs_await_some.mp hwait
  obtain ⟨v, inside, _, hwork, hout, rfl⟩ := runs_bind_some.mp hin
  obtain ⟨_, _, _, hleave, hend, rfl⟩ := runs_bind_some.mp hout
  obtain ⟨left, rfl⟩ := runs_modify_some.mp hleave
  obtain ⟨rfl, rfl⟩ := runs_pure_some.mp hend
  exact ⟨⟨x, value, asked, entered, inside, left, by simpa using hcalled, hwork⟩, rfl, rfl, by
    simp [Stay.whole, Stay.ask, Stay.turn, Stay.leave]⟩

theorem Stay.runs_whole (s : Stay work) :
    (Activity.exclusively (work s.member)).Runs s.whole (some s.value) := by
  refine Activity.runs_bind_some.mpr ⟨s.asked, [s.ask], s.turn, ?_, ?_, rfl⟩
  · exact begins_some.mpr ⟨(0, s.asked), [], rfl, rfl, .inr rfl⟩
  refine Activity.runs_bind_some.mpr ⟨(), [.noticed s.entered], _, ?_, ?_, rfl⟩
  · exact Activity.runs_await_some.mpr ⟨s.entered, by simpa using s.called, rfl⟩
  refine Activity.runs_bind_some.mpr ⟨s.value, s.inside, _, s.runs, ?_, rfl⟩
  refine Activity.runs_bind_some.mpr ⟨(), [s.leave], [], ?_, ?_, rfl⟩
  · exact Activity.runs_modify_some.mpr ⟨s.left, rfl⟩
  · exact Activity.runs_pure_some.mpr ⟨rfl, rfl⟩

theorem Activity.exists_stays_of_joinAll {xs : List B} {trace : Trace I.locked} {values : List β}
    (h : (joinAll (xs.map fun x => exclusively (work x))).Runs trace (some values)) :
    ∃ stays : List (Stay work), stays.map (·.member) = xs ∧ stays.map (·.value) = values ∧
      Shuffles (stays.map Stay.whole) trace := by
  obtain ⟨shares, rfl, hr, hw, hc⟩ := Crew.runs_ofList_map.mp (runs_joinBounded_some.mp h)
  have hvalues := collect_eq_some.mp hc.symm
  clear h hc
  induction shares generalizing trace values with
  | nil =>
      obtain rfl : values = [] := by simpa using hvalues.symm
      exact ⟨[], rfl, rfl, hw⟩
  | cons share shares ih =>
      obtain ⟨hshare, hshares⟩ := List.forall_mem_cons.mp hr
      obtain ⟨others, ho, hs⟩ := hw
      cases values with
      | nil => simp at hvalues
      | cons value values =>
          obtain ⟨hvalue, hrest⟩ := List.cons.inj hvalues
          obtain ⟨stays, hm, rfl, hall⟩ := ih hshares ho hrest
          rw [show share.result = some value from hvalue] at hshare
          obtain ⟨s, hmember, rfl, hwhole⟩ := exists_stay_of_exclusively hshare
          refine ⟨s :: stays, ?_, rfl, others, hall, hwhole ▸ hs⟩
          rw [List.map_cons, List.map_cons, hmember, hm]

theorem Activity.runs_joinAll_of_shuffles {stays : List (Stay work)} {trace : Trace I.locked}
    (h : Shuffles (stays.map Stay.whole) trace) :
    (joinAll ((stays.map (·.member)).map fun x => exclusively (work x))).Runs trace
      (some (stays.map (·.value))) := by
  let shares : List (Share I.locked B β) := stays.map fun s => ⟨s.member, s.whole, some s.value⟩
  refine runs_joinBounded_some.mpr (Crew.runs_ofList_map.mpr ⟨shares, ?_, ?_, ?_, ?_⟩)
  · simp [shares]
  · simp only [shares, List.mem_map]
    rintro _ ⟨s, -, rfl⟩
    exact s.runs_whole
  · rwa [List.map_map]
  · refine (collect_eq_some.mpr ?_).symm
    simp [shares]

/-! ## Where everybody stands -/

/-- Who holds the lock, with what is left to do inside and the memory when leaving; who waits, in the
order of the numbers; and who has not asked yet. -/
structure Desk (work : B → Activity I.locked β) where
  inside : Option (Trace I.locked × Locked I.Memory)
  waiting : List (Stay work)
  outside : List (Stay work)

namespace Desk

def held (d : Desk work) : Trace I.locked :=
  match d.inside with
  | none => []
  | some (rest, left) => rest ++ [.touched left left.call]

def holders (d : Desk work) : Nat := d.inside.toList.length

/-- What everybody still does. -/
def parts (d : Desk work) : List (Trace I.locked) :=
  d.held :: (d.waiting.map Stay.turn ++ d.outside.map Stay.whole)

/-- What is still to be done with the lock when the others come in a certain order. -/
def ahead (d : Desk work) (order : List (Stay work)) : Trace I.locked :=
  d.held ++ (d.waiting ++ order).flatMap Stay.turn

/-- The lock counts who holds it and who waits, and its holder does not touch it before leaving. -/
structure Sound (d : Desk work) (lock : Lock) : Prop where
  taken : lock.taken = lock.called + d.holders + d.waiting.length
  numbers : d.waiting.map Stay.number = List.range' (lock.called + d.holders) d.waiting.length
  spares : ∀ rest left, d.inside = some (rest, left) → ∀ event ∈ rest, event.SparesLock

/-- What may happen next. -/
inductive Step : Desk work → Event I.locked → Desk work → Prop where
  | ask {inside waiting outside outside'} (s : Stay work) (h : outside.Perm (s :: outside')) :
      Step ⟨inside, waiting, outside⟩ s.ask ⟨inside, waiting ++ [s], outside'⟩
  | enter {waiting outside} (s : Stay work) :
      Step ⟨none, s :: waiting, outside⟩ (.noticed s.entered)
        ⟨some (s.inside, s.left), waiting, outside⟩
  | act {rest left waiting outside} (event : Event I.locked) (h : event.SparesLock) :
      Step ⟨some (event :: rest, left), waiting, outside⟩ event
        ⟨some (rest, left), waiting, outside⟩
  | leave {waiting outside} (left : Locked I.Memory) :
      Step ⟨some ([], left), waiting, outside⟩ (.touched left left.call) ⟨none, waiting, outside⟩

variable {d d' : Desk work} {event : Event I.locked} {lock lock' : Lock} {trace : Trace I.locked}

/-- The one whose number has been called is the first of those who wait, and nobody holds the lock. -/
theorem Sound.eq_first {inside : Option (Trace I.locked × Locked I.Memory)}
    {l r outside : List (Stay work)} {s : Stay work}
    (hd : (⟨inside, l ++ s :: r, outside⟩ : Desk work).Sound lock) (hs : lock.called = s.number) :
    inside = none ∧ l = [] := by
  have hnumber : s.number = lock.called + inside.toList.length + l.length := by
    have hat := congrArg (·[l.length]?) hd.numbers
    simpa [holders, List.getElem?_range'] using hat
  have hnone : inside.toList.length = 0 := by omega
  have hfirst : l.length = 0 := by omega
  exact ⟨by simpa using hnone, List.length_eq_zero_iff.mp hfirst⟩

theorem eq_of_shuffles_nil (hs : Shuffles d.parts []) : d = ⟨none, [], []⟩ := by
  have hnone : ∀ part ∈ d.parts, ∀ event, event ∉ part := fun part hp event he =>
    List.not_mem_nil ((Shuffles.mem_iff hs).mpr ⟨part, hp, he⟩)
  obtain ⟨inside, waiting, outside⟩ := d
  obtain rfl : inside = none := by
    cases inside with
    | none => rfl
    | some holder =>
        have hleaves : Event.touched holder.2 holder.2.call ∈
            held ⟨some holder, waiting, outside⟩ := by
          simp [held]
        exact (hnone _ List.mem_cons_self _ hleaves).elim
  obtain rfl : waiting = [] := by
    cases waiting with
    | nil => rfl
    | cons s _ => exact (hnone s.turn (by simp [parts]) _ List.mem_cons_self).elim
  obtain rfl : outside = [] := by
    cases outside with
    | nil => rfl
    | cons s _ => exact (hnone s.whole (by simp [parts]) _ List.mem_cons_self).elim
  rfl

theorem Sound.exists_step (hd : d.Sound lock) (hs : Shuffles d.parts (event :: trace))
    (hf : Trace.Follows Locked.lock [event] lock lock') :
    ∃ d', d.Step event d' ∧ Shuffles d'.parts trace := by
  obtain ⟨part, others, hp, hw⟩ := Shuffles.exists_perm_of_cons hs
  have next {rest : List (Trace I.locked)} (hrest : d.parts.Perm ((event :: part) :: rest)) :
      Shuffles (part :: rest) trace :=
    hw.perm ((hp.symm.trans hrest).cons_inv.cons part)
  have hmem : event :: part ∈ d.parts := hp.mem_iff.mpr (by simp)
  obtain ⟨inside, waiting, outside⟩ := d
  simp only [parts, List.mem_cons, List.mem_append, List.mem_map] at hmem
  obtain hheld | ⟨s, hmem, hturn⟩ | ⟨s, hmem, hwhole⟩ := hmem
  · -- who holds the lock goes on or leaves
    have hnext := next (.of_eq (congrArg (· :: _) hheld.symm))
    obtain _ | ⟨_ | ⟨first, rest⟩, left⟩ := inside
    · simp [held] at hheld
    · obtain ⟨rfl, rfl⟩ : event = .touched left left.call ∧ part = [] := by simpa [held] using hheld
      exact ⟨_, .leave left, hnext⟩
    · obtain ⟨rfl, rfl⟩ : event = first ∧ part = _ := by simpa [held] using hheld
      exact ⟨_, .act event (hd.spares _ left rfl event (by simp)), hnext⟩
  · -- a number was called, which is that of the first who waits
    obtain ⟨rfl, rfl⟩ : event = .noticed s.entered ∧ part = s.inside ++ [s.leave] := by
      simpa [Stay.turn, eq_comm] using hturn
    obtain ⟨l, r, rfl⟩ := List.append_of_mem hmem
    obtain ⟨rfl, -⟩ := hf
    obtain ⟨rfl, rfl⟩ := hd.eq_first s.called
    obtain ⟨_, ⟨others, ho, hnil⟩, hpart⟩ := next (List.Perm.swap _ _ _)
    rw [hnil.swap.eq_of_nil_right] at hpart
    exact ⟨_, .enter s, others, ho, hpart⟩
  · -- somebody asks
    obtain ⟨rfl, rfl⟩ : event = s.ask ∧ part = s.turn := by simpa [Stay.whole, eq_comm] using hwhole
    obtain ⟨l, r, rfl⟩ := List.append_of_mem hmem
    refine ⟨⟨inside, waiting ++ [s], l ++ r⟩, .ask s List.perm_middle, ?_⟩
    let before : List (Trace I.locked) := held ⟨inside, waiting, l ++ r⟩ :: waiting.map Stay.turn
    let after : List (Trace I.locked) := (l ++ r).map Stay.whole
    have hasked : Shuffles (s.turn :: (before ++ after)) trace := next <| by
      have hmiddle : (before ++ l.map Stay.whole ++ s.whole :: r.map Stay.whole).Perm _ :=
        List.perm_middle
      simpa [parts, before, after, Stay.whole, held] using hmiddle
    have hwaits : Shuffles (before ++ s.turn :: after) trace := hasked.perm List.perm_middle.symm
    simpa [parts, before, after, held] using hwaits

theorem Step.sound (h : d.Step event d') (hw : ∀ x, (work x).Confined Event.SparesLock)
    (hd : d.Sound lock) (hf : Trace.Follows Locked.lock [event] lock lock') : d'.Sound lock' := by
  obtain ⟨htaken, hnumbers, hspares⟩ := hd
  cases h with
  | ask s h =>
      obtain ⟨rfl, rfl⟩ := hf
      refine ⟨?_, ?_, hspares⟩
      · simp only [Locked.take, Lock.take, holders, List.length_append, List.length_singleton]
          at htaken ⊢
        omega
      · simp only [Locked.take, Lock.take, holders, List.map_append, List.length_append,
          List.length_singleton, List.range'_concat, hnumbers] at hnumbers ⊢
        simp [Stay.number, htaken, holders]
  | enter s =>
      obtain ⟨rfl, rfl⟩ := hf
      refine ⟨?_, ?_, ?_⟩
      · simp only [holders, Option.toList, List.length_nil, List.length_cons] at htaken ⊢
        omega
      · exact (List.cons.inj hnumbers).2
      · rintro _ _ ⟨⟩
        exact (hw s.member).runs s.runs
  | act event h =>
      obtain rfl := h.lock_eq hf
      refine ⟨htaken, hnumbers, ?_⟩
      rintro _ _ ⟨⟩
      exact (List.forall_mem_cons.mp (hspares _ _ rfl)).2
  | leave left =>
      obtain ⟨rfl, rfl⟩ := hf
      refine ⟨?_, ?_, nofun⟩
      · simpa [Locked.call, Lock.call, holders] using htaken
      · simpa [Locked.call, Lock.call, holders] using hnumbers

/-- Those who are not inside yet come in their order, if the others come in that one. -/
def Serves (d : Desk work) (lock : Lock) (order : List (Stay work)) : Prop :=
  (d.waiting ++ order).map Stay.number =
    List.range' (lock.called + d.holders) (d.waiting ++ order).length

/-- With a step somebody asks for the lock, or does what is to be done with it next. -/
theorem Step.exists_order (h : d.Step event d') {order : List (Stay work)}
    (ho : order.Perm d'.outside) (hn : d'.Serves lock' order)
    (hf : Trace.Follows Locked.lock [event] lock lock') :
    ∃ order', order'.Perm d.outside ∧ d.Serves lock order' ∧
      d.ahead order' = [event].filter (!·.asks) ++ d'.ahead order := by
  cases h with
  | ask s h =>
      obtain ⟨rfl, rfl⟩ := hf
      refine ⟨s :: order, (ho.cons s).trans h.symm, ?_, ?_⟩
      · simpa [Serves, holders, Locked.take, Lock.take] using hn
      · simp [ahead, held, Event.asks, Stay.ask, Locked.take, Lock.take]
  | @enter waiting outside s =>
      obtain ⟨rfl, rfl⟩ := hf
      refine ⟨order, ho, ?_, ?_⟩
      · have hcalled : s.number = s.entered.lock.called := s.called.symm
        simp only [Serves, List.cons_append, List.map_cons, List.length_cons, List.range'_succ]
        rw [hcalled]
        exact congrArg (s.entered.lock.called :: ·) hn
      · simp [ahead, held, Event.asks, Stay.turn, Stay.leave]
  | act event h =>
      obtain rfl := h.lock_eq hf
      exact ⟨order, ho, hn, by simp [ahead, held, h.asks_eq_false]⟩
  | leave left =>
      obtain ⟨rfl, rfl⟩ := hf
      refine ⟨order, ho, ?_, ?_⟩
      · simpa [Serves, holders, Locked.call, Lock.call, Nat.add_right_comm] using hn
      · simp [ahead, held, Event.asks, Locked.call, Lock.call]

/-- From any desk on, all that does not ask for the lock happens in turns. -/
theorem Sound.exists_order (hw : ∀ x, (work x).Confined Event.SparesLock) (hd : d.Sound lock)
    (hs : Shuffles d.parts trace) (hf : trace.Follows Locked.lock lock lock') :
    ∃ order : List (Stay work), order.Perm d.outside ∧ d.Serves lock order ∧
      d.ahead order = trace.filter (!·.asks) ∧ lock'.IsFree := by
  induction trace generalizing d lock with
  | nil =>
      obtain rfl : lock' = lock := hf
      obtain rfl := eq_of_shuffles_nil hs
      exact ⟨[], .nil, rfl, rfl, hd.taken.symm⟩
  | cons event trace ih =>
      have hsplit : Trace.Follows Locked.lock ([event] ++ trace) lock lock' := hf
      obtain ⟨next, hevent, hlater⟩ := Trace.follows_append.mp hsplit
      obtain ⟨d', hstep, hparts⟩ := hd.exists_step hs hevent
      obtain ⟨order, ho, hn, hahead, hfree⟩ := ih (hstep.sound hw hd hevent) hparts hlater
      obtain ⟨order', ho', hn', hahead'⟩ := hstep.exists_order ho hn hevent
      refine ⟨order', ho', hn', ?_, hfree⟩
      rw [hahead', hahead, ← List.filter_append, List.singleton_append]

end Desk

/-! ## Turns -/

namespace Trace

theorem Follows.filter {X : Type} {view : I.Memory → X} {keep : Event I → Bool} {trace : Trace I}
    {x y : X} (h : trace.Follows view x y)
    (hk : ∀ event ∈ trace, keep event = false → ∀ before after, event = .touched before after →
      view after = view before) : Follows view (trace.filter keep) x y := by
  induction trace generalizing x with
  | nil => exact h
  | cons event trace ih =>
      have hsplit : Follows view ([event] ++ trace) x y := h
      obtain ⟨z, hevent, hlater⟩ := follows_append.mp hsplit
      obtain ⟨hfirst, hrest⟩ := List.forall_mem_cons.mp hk
      cases hkeep : keep event with
      | true =>
          rw [List.filter_cons_of_pos hkeep, ← List.singleton_append]
          exact follows_append.mpr ⟨z, hevent, ih hlater hrest⟩
      | false =>
          rw [List.filter_cons_of_neg (by simp [hkeep])]
          have hkeeps : Keeps view [event] := fun before after hm =>
            hfirst hkeep before after (List.mem_singleton.mp hm).symm
          rw [← hevent.eq_of_keeps hkeeps]
          exact ih hlater hrest

end Trace

/-- How calls that need the same lock have come to do their work. -/
structure Turns (work : B → Activity I.locked β) (xs : List B) (values : List β)
    (trace : Trace I.locked) where
  calls : List (Stay work)
  /-- The calls in the order in which they have got the lock. -/
  order : List (Stay work)
  members : calls.map (·.member) = xs
  results : calls.map (·.value) = values
  shuffles : Shuffles (calls.map Stay.whole) trace
  perm : order.Perm calls
  /-- Apart from asking for the lock nothing happens outside of turns. -/
  inTurn : order.flatMap Stay.turn = trace.filter (!·.asks)

namespace Turns

variable {xs : List B} {values : List β} {trace : Trace I.locked} {m m' : Locked I.Memory}

theorem mem_of_mem_order (t : Turns work xs values trace) {s : Stay work} (hs : s ∈ t.order) :
    s.value ∈ values := by
  rw [← t.results]
  exact List.mem_map_of_mem (t.perm.mem_iff.mp hs)

/-- What the lock is on changes in turns only. -/
theorem follows (t : Turns work xs values trace) (hw : ∀ x, (work x).Confined Event.SparesLock)
    (hf : trace.Follows id m m') :
    Trace.Follows Locked.content (t.order.flatMap Stay.turn) m.content m'.content := by
  rw [t.inTurn]
  refine (hf.through Locked.content).filter ?_
  rintro event he ha before after rfl
  obtain ⟨_, hp, hm⟩ := t.shuffles.mem_iff.mp he
  obtain ⟨s, -, rfl⟩ := List.mem_map.mp hp
  obtain ⟨rfl, rfl⟩ : before = s.asked ∧ after = s.asked.take := by
    simpa [Stay.ask] using Stay.eq_ask_of_asks hw hm (by simpa using ha)
  rfl

theorem follows_inside (t : Turns work xs values trace)
    (hw : ∀ x, (work x).Confined Event.SparesLock) (hf : trace.Follows id m m') :
    ∀ s ∈ t.order, Trace.Follows Locked.content s.inside s.before s.after := by
  intro s hs
  obtain ⟨l, r, horder⟩ := List.append_of_mem hs
  have hturns := t.follows hw hf
  rw [horder, List.flatMap_append] at hturns
  obtain ⟨_, -, hlater⟩ := Trace.follows_append.mp hturns
  exact (Stay.follows_turns_cons.mp hlater).2.1

end Turns

/-- However the calls are scheduled, one after the other does its work, in the order of their numbers,
and in the end the lock is free. -/
theorem Activity.exists_turns_of_exclusively (hw : ∀ x, (work x).Confined Event.SparesLock)
    {xs : List B} {trace : Trace I.locked} {values : List β} {lock lock' : Lock}
    (hr : (joinAll (xs.map fun x => exclusively (work x))).Runs trace (some values))
    (hf : trace.Follows Locked.lock lock lock') (hl : lock.IsFree) :
    ∃ t : Turns work xs values trace,
      t.order.map Stay.number = List.range' lock.called xs.length ∧ lock'.IsFree := by
  obtain ⟨calls, hm, hv, hs⟩ := exists_stays_of_joinAll hr
  let d : Desk work := ⟨none, [], calls⟩
  have hd : d.Sound lock := ⟨hl.symm, rfl, nofun⟩
  have hparts : Shuffles d.parts trace := ⟨trace, hs, (Shuffle.nil_right trace).swap⟩
  obtain ⟨order, hp, hn, ha, hfree⟩ := hd.exists_order hw hparts hf
  have hlength : order.length = xs.length := by rw [hp.length_eq, ← hm, List.length_map]
  exact ⟨⟨calls, order, hm, hv, hs, hp, ha⟩, hlength ▸ hn, hfree⟩

/-! ## Asking all at once -/

section Asking

variable {value : B → β} {effect : B → I.Memory → I.Memory}

/-- The calls in the order of their numbers, after all of them have asked, one after the other. -/
theorem exists_stays_in_turn (hw : ∀ x, (work x).Confined Event.SparesLock)
    (hdo : ∀ x m, ∃ inside m', (work x).Runs inside (some (value x)) ∧ inside.Follows id m m' ∧
      m'.content = effect x m.content)
    (xs : List B) {asked : List (Locked I.Memory)} {m : Locked I.Memory}
    (hn : asked.map (·.lock.taken) = List.range' m.lock.called xs.length) :
    ∃ (stays : List (Stay work)) (m' : Locked I.Memory), stays.map (·.member) = xs ∧
      stays.map (·.value) = xs.map value ∧ stays.map (·.asked) = asked ∧
      Trace.Follows id (stays.flatMap Stay.turn) m m' ∧
      m'.content = xs.foldl (fun content x => effect x content) m.content := by
  induction xs generalizing asked m with
  | nil =>
      obtain rfl : asked = [] := by simpa using hn
      exact ⟨[], m, rfl, rfl, rfl, rfl, rfl⟩
  | cons x xs ih =>
      obtain ⟨first, asked, rfl, hfirst, hrest⟩ := List.map_eq_cons_iff.mp hn
      obtain ⟨inside, left, hr, hf, hcontent⟩ := hdo x m
      have hlock : left.lock = m.lock := by
        have hkeeps : inside.Keeps Locked.lock := fun _ _ hm => (hw x).runs hr _ hm
        exact (hf.through Locked.lock).eq_of_keeps hkeeps
      have hnumbers : asked.map (·.lock.taken) = List.range' left.call.lock.called xs.length := by
        rw [hrest, Locked.call, hlock, Lock.call]
      obtain ⟨stays, m', hm, hv, ha, hlater, hfold⟩ := ih hnumbers
      refine ⟨⟨x, value x, first, m, inside, left, hfirst.symm, hr⟩ :: stays, m', ?_, ?_, ?_, ?_, ?_⟩
      · rw [List.map_cons, hm]
      · rw [List.map_cons, hv, List.map_cons]
      · rw [List.map_cons, ha]
      · rw [List.flatMap_cons, Trace.follows_append]
        exact ⟨left.call, ⟨rfl, Trace.follows_append.mpr ⟨left, hf, rfl, rfl⟩⟩, hlater⟩
      · rw [hfold, List.foldl_cons, ← hcontent]
        rfl

theorem follows_asks (n : Nat) (m : Locked I.Memory) :
    ∃ (asked : List (Locked I.Memory)) (m' : Locked I.Memory),
      asked.map (·.lock.taken) = List.range' m.lock.taken n ∧ m'.lock.called = m.lock.called ∧
      m'.content = m.content ∧
      Trace.Follows id (asked.map fun m => (.touched m m.take : Event I.locked)) m m' := by
  induction n generalizing m with
  | zero => exact ⟨[], m, rfl, rfl, rfl, rfl⟩
  | succ n ih =>
      obtain ⟨asked, m', hn, hc, hm, hf⟩ := ih m.take
      exact ⟨m :: asked, m', congrArg (m.lock.taken :: ·) hn, hc, hm, rfl, hf⟩

theorem shuffles_asks_turns (stays : List (Stay work)) :
    Shuffles (stays.map Stay.whole) (stays.map Stay.ask ++ stays.flatMap Stay.turn) := by
  induction stays with
  | nil => rfl
  | cons s stays ih =>
      have hask : Shuffle [s.ask] (stays.map Stay.ask) (s.ask :: stays.map Stay.ask) := .concat _ _
      exact ⟨_, ih, hask.append (.concat _ _)⟩

/-- If the work can always be done to some effect, calls that all ask before the first of them begins can
all come to their end, each to its effect, in the order in which they have asked. -/
theorem Activity.exists_run_of_exclusively (hw : ∀ x, (work x).Confined Event.SparesLock)
    (hdo : ∀ x m, ∃ inside m', (work x).Runs inside (some (value x)) ∧ inside.Follows id m m' ∧
      m'.content = effect x m.content)
    (xs : List B) {m : Locked I.Memory} (hl : m.lock.IsFree) :
    ∃ (trace : Trace I.locked) (m' : Locked I.Memory),
      (joinAll (xs.map fun x => exclusively (work x))).Runs trace (some (xs.map value)) ∧
        trace.Follows id m m' ∧
        m'.content = xs.foldl (fun content x => effect x content) m.content := by
  obtain ⟨asked, waiting, hn, hc, hm, hasks⟩ := follows_asks xs.length m
  rw [show m.lock.taken = waiting.lock.called from hl.symm.trans hc.symm] at hn
  obtain ⟨stays, m', rfl, hv, rfl, hturns, hfold⟩ := exists_stays_in_turn hw hdo xs hn
  refine ⟨stays.map Stay.ask ++ stays.flatMap Stay.turn, m', ?_, ?_, ?_⟩
  · exact hv ▸ runs_joinAll_of_shuffles (shuffles_asks_turns stays)
  · have heq : (stays.map (·.asked)).map (fun m => .touched m m.take) = stays.map Stay.ask :=
      List.map_map
    exact Trace.follows_append.mpr ⟨waiting, heq ▸ hasks, hturns⟩
  · rw [hfold, hm]

end Asking

end ChainWatch.Concurrency
