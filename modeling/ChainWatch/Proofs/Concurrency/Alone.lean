import ChainWatch.Proofs.Concurrency.Sequence

/-!
# Runs of activities that do one thing after the other

While an activity waits for one thing at a time, its run is a sequence of exchanges with the outside.
`Activity.Alone` says which exchanges these are, when each of them begins and is over, and how the run
ends. Parts in sequence have their exchanges in sequence (`Activity.Alone.bind`), and what the relation
says is what the run does (`Activity.Alone.run_eq`).
-/

namespace ChainWatch.Concurrency

variable {I : Interface} {σ α β ε : Type}

/-- A request with its answer, and the instants at which it was sent and answered. -/
structure Exchange (I : Interface) where
  request : I.Request
  sentAt : Nat
  answer : I.Answer request
  answeredAt : Nat

/-- The request `r`, sent at the instant `now`, as the handler answers it. -/
def Handler.exchange (h : Handler I σ) (now : Nat) (r : I.Request) (s : σ) : Exchange I :=
  ⟨r, now, h.answer r s, now + h.lag r s⟩

namespace Exchange

def trace (log : List (Exchange I)) : Trace I :=
  log.flatMap fun x => [.sent x.request, .answered x.request x.answer]

def Sent (log : List (Exchange I)) (r : I.Request) : Prop :=
  ∃ x ∈ log, x.request = r

def Got (log : List (Exchange I)) (r : I.Request) (answer : I.Answer r) : Prop :=
  ∃ sentAt answeredAt, (⟨r, sentAt, answer, answeredAt⟩ : Exchange I) ∈ log

end Exchange

/-- From the instant `now` and the world `w` on, the activity has these exchanges and ends so. -/
inductive Activity.Alone (h : Handler I σ) {α : Type} :
    Nat → Activity I α → World I σ → List (Exchange I) → Ending I σ α → Prop where
  | done (now : Nat) (value : α) (w : World I σ) :
      Alone h now (.done value) w [] ⟨some value, now, w⟩
  | touch {now : Nat} {change : I.Memory → I.Memory} {next : Nat → I.Memory → Activity I α}
      {w : World I σ} {log : List (Exchange I)} {ending : Ending I σ α}
      (rest : Alone h now (next now w.memory) ⟨change w.memory, w.outside⟩ log ending) :
      Alone h now (.touch change next) w log ending
  | perform {now : Nat} {r : I.Request} {next : I.Answer r → Activity I α} {w : World I σ}
      {log : List (Exchange I)} {ending : Ending I σ α}
      (rest : Alone h (now + h.lag r w.outside) (next (h.answer r w.outside))
        ⟨w.memory, h.after r w.outside⟩ log ending) :
      Alone h now (.perform r next) w (h.exchange now r w.outside :: log) ending
  | pause {now span : Nat} {next : Activity I α} {w : World I σ} {log : List (Exchange I)}
      {ending : Ending I σ α} (rest : Alone h (now + span) next w log ending) :
      Alone h now (.pause span next) w log ending

namespace Activity

variable {h : Handler I σ} {now mid : Nat} {w w' : World I σ} {early late log : List (Exchange I)}

/-! ## What the relation says of runs -/

theorem Alone.run_eq {p : Activity I α} {ending : Ending I σ α} (hp : p.Alone h now w log ending) :
    p.run h now w = ending := by
  induction hp with
  | done now value w => exact run_done h now value w
  | touch rest ih => rw [run_touch, ih]
  | @perform now r next w log ending rest ih =>
      rw [show Activity.perform r next = request r >>= next from rfl,
        run_bind_of_value (by rw [run_request]), run_request, ih]
  | @pause now span next w log ending rest ih =>
      rw [show Activity.pause span next = sleep span >>= fun _ => next from rfl,
        run_bind_of_value (by rw [run_sleep]), run_sleep, ih]

theorem Alone.exists_trace {p : Activity I α} {ending : Ending I σ α}
    (hp : p.Alone h now w log ending) :
    ∃ trace, p.Runs trace ending.value? ∧ trace.Leads h w ending.world ∧
      trace.exchanged = Exchange.trace log := by
  induction hp with
  | done now value w => exact ⟨[], ⟨rfl, .inr rfl⟩, Trace.leads_nil w, rfl⟩
  | touch rest ih =>
      obtain ⟨trace, hr, ⟨hf, hs⟩, hx⟩ := ih
      exact ⟨.touched _ _ :: trace, .inr ⟨(_, _), trace, rfl, hr⟩, ⟨⟨rfl, hf⟩, hs⟩, hx⟩
  | perform rest ih =>
      obtain ⟨trace, hr, ⟨hf, hs⟩, hx⟩ := ih
      refine ⟨.sent _ :: .answered _ _ :: trace, runs_perform hr, ⟨hf, rfl, hs⟩, ?_⟩
      show .sent _ :: .answered _ _ :: Trace.exchanged trace = _
      rw [hx]
      rfl
  | pause rest ih => exact ih

/-- The handler gives the answers of the log, one after the other. -/
theorem Alone.served {p : Activity I α} {ending : Ending I σ α} (hp : p.Alone h now w log ending) :
    (Exchange.trace log).Served h w.outside ending.world.outside := by
  induction hp with
  | done => rfl
  | touch rest ih => exact ih
  | perform rest ih => exact ⟨rfl, ih⟩
  | pause rest ih => exact ih

/-- An activity that runs alone runs in one way. -/
theorem Alone.unique {p : Activity I α} {log' : List (Exchange I)} {ending ending' : Ending I σ α}
    (hp : p.Alone h now w log ending) (hp' : p.Alone h now w log' ending') :
    log = log' ∧ ending = ending' := by
  induction hp generalizing log' with
  | done => cases hp'; exact ⟨rfl, rfl⟩
  | touch rest ih => cases hp' with | touch rest' => exact ih rest'
  | perform rest ih =>
      cases hp' with
      | perform rest' =>
          obtain ⟨rfl, rfl⟩ := ih rest'
          exact ⟨rfl, rfl⟩
  | pause rest ih => cases hp' with | pause rest' => exact ih rest'

/-! ## Ways of composing -/

theorem Alone.bind {p : Activity I α} {f : α → Activity I β} {value : α} {ending : Ending I σ β}
    (hp : p.Alone h now w early ⟨some value, mid, w'⟩) (hf : (f value).Alone h mid w' late ending) :
    (p >>= f).Alone h now w (early ++ late) ending := by
  show (p.bind f).Alone h now w (early ++ late) ending
  generalize he : (⟨some value, mid, w'⟩ : Ending I σ α) = ended at hp
  induction hp with
  | done => cases he; exact hf
  | touch rest ih => exact .touch (ih he)
  | perform rest ih => exact .perform (ih he)
  | pause rest ih => exact .pause (ih he)

theorem alone_pure (h : Handler I σ) (now : Nat) (value : α) (w : World I σ) :
    (pure value : Activity I α).Alone h now w [] ⟨some value, now, w⟩ :=
  .done now value w

theorem alone_request (h : Handler I σ) (now : Nat) (r : I.Request) (w : World I σ) :
    (request r).Alone h now w [h.exchange now r w.outside]
      ⟨some (h.answer r w.outside), now + h.lag r w.outside, ⟨w.memory, h.after r w.outside⟩⟩ :=
  .perform (.done ..)

theorem alone_memory (h : Handler I σ) (now : Nat) (w : World I σ) :
    (memory : Activity I I.Memory).Alone h now w [] ⟨some w.memory, now, w⟩ :=
  .touch (.done ..)

theorem alone_modify (h : Handler I σ) (now : Nat) (change : I.Memory → I.Memory) (w : World I σ) :
    (modify change).Alone h now w [] ⟨some (), now, ⟨change w.memory, w.outside⟩⟩ :=
  .touch (.done ..)

theorem alone_sleep (h : Handler I σ) (now span : Nat) (w : World I σ) :
    (sleep span).Alone h now w [] ⟨some (), now + span, w⟩ :=
  .pause (.done ..)

section Failing

variable {x : ExceptT ε (Activity I) α} {f : α → ExceptT ε (Activity I) β}

theorem alone_exceptT_bind {value : α} {ending : Ending I σ (Except ε β)}
    (hx : x.run.Alone h now w early ⟨some (.ok value), mid, w'⟩)
    (hf : (f value).run.Alone h mid w' late ending) :
    (x >>= f).run.Alone h now w (early ++ late) ending := by
  rw [ExceptT.run_bind]
  exact hx.bind hf

theorem alone_exceptT_bind_error {fault : ε}
    (hx : x.run.Alone h now w log ⟨some (.error fault), mid, w'⟩) :
    (x >>= f).run.Alone h now w log ⟨some (.error fault), mid, w'⟩ := by
  rw [ExceptT.run_bind, ← List.append_nil log]
  exact hx.bind (alone_pure h mid _ w')

theorem alone_lift {p : Activity I α} {value : α} (hp : p.Alone h now w log ⟨some value, mid, w'⟩) :
    (liftM p : ExceptT ε (Activity I) α).run.Alone h now w log ⟨some (.ok value), mid, w'⟩ := by
  rw [← List.append_nil log]
  exact hp.bind (alone_pure h mid _ w')

theorem alone_tryCatch_ok {handle : ε → ExceptT ε (Activity I) α} {value : α}
    (hx : x.run.Alone h now w log ⟨some (.ok value), mid, w'⟩) :
    (tryCatch x handle).run.Alone h now w log ⟨some (.ok value), mid, w'⟩ := by
  rw [← List.append_nil log]
  exact hx.bind (alone_pure h mid _ w')

theorem alone_tryCatch_error {handle : ε → ExceptT ε (Activity I) α} {fault : ε}
    {ending : Ending I σ (Except ε α)} (hx : x.run.Alone h now w early ⟨some (.error fault), mid, w'⟩)
    (hh : (handle fault).run.Alone h mid w' late ending) :
    (tryCatch x handle).run.Alone h now w (early ++ late) ending :=
  hx.bind hh

end Failing

end Activity

end ChainWatch.Concurrency
