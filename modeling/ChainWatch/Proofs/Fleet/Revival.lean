import ChainWatch.Proofs.Fleet.Bringup
import ChainWatch.Proofs.Fleet.Recovery

/-!
# Bringing an endpoint back

A recovery that runs alone leaves an endpoint alone that is flagged as healthy. A remote node is asked
once after the backoff; a managed one is stopped and then started as `ChainWatch.Proofs.Fleet.Bringup`
says. Whatever fails, the recovery ends, and its outcome is what the flag says afterwards.
-/

namespace ChainWatch

open Concurrency

namespace Endpoint

variable {σ : Type} {h : Handler system σ} {e : Endpoint} {c : Container} {now : Nat}
  {w : World system σ}

/-! ## The two kinds of endpoints -/

theorem exists_alone_stop (hm : e.role = .managed c) (h : Handler system σ) (now : Nat)
    (w : World system σ) : ∃ answer later w',
      e.stop.run.Alone h now w [⟨e.engineRequest (.stop c.name), now, answer, later⟩]
        ⟨some (answer.mapError lifecycle), later, w'⟩ := by
  unfold stop
  rw [hm]
  cases ha : h.answer (.container e.position (.stop c.name)) w.outside with
  | error fault => exact ⟨.error fault, _, _, alone_engine_bind_error ha⟩
  | ok done =>
      exact ⟨.ok (), _, _, alone_engine_bind ha (Activity.alone_lift (Activity.alone_modify ..))⟩

/-- Whatever is done before the endpoint is marked as healthy also decides how the whole ends. -/
theorem exists_alone_marked {α : Type} {x : NodeJob α} {log : List (Exchange system)}
    {outcome : Except NodeFault α} {later : Nat} {w' : World system σ}
    (hx : x.run.Alone h now w log ⟨some outcome, later, w'⟩) :
    ∃ w'', (x >>= fun _ => (e.mark true : NodeJob Unit)).run.Alone h now w log
      ⟨some (outcome.map fun _ => ()), later, w''⟩ := by
  cases outcome with
  | error fault => exact ⟨w', Activity.alone_exceptT_bind_error hx⟩
  | ok value =>
      refine ⟨⟨w'.memory.mark e.position true, w'.outside⟩, ?_⟩
      rw [← List.append_nil log]
      exact Activity.alone_exceptT_bind hx (Activity.alone_lift (Activity.alone_modify ..))

/-- A remote node is asked for the height once, when the backoff is over. -/
theorem exists_alone_revive_unmanaged (hr : e.role = .unmanaged) (h : Handler system σ) (now : Nat)
    (w : World system σ) : ∃ x : Poll, ∃ w', x.sentAt = now + e.settings.recoveryBackoff ∧
      e.revive.run.Alone h now w [e.poll x]
        ⟨some (x.height.map fun _ => ()), x.answeredAt, w'⟩ := by
  unfold revive
  rw [hr]
  have asked : e.blockNumber.run.Alone h (now + e.settings.recoveryBackoff) w _ ⟨some _, _, _⟩ :=
    alone_ask rfl
  obtain ⟨w', hasked⟩ := exists_alone_marked (e := e) asked
  exact ⟨⟨now + e.settings.recoveryBackoff, _, _⟩, w', rfl,
    Activity.alone_exceptT_bind (Activity.alone_lift (Activity.alone_sleep ..)) hasked⟩

/-- A managed endpoint is stopped, and started when that went well. -/
theorem exists_alone_revive_managed (hm : e.role = .managed c) (h : Handler system σ) (now : Nat)
    (w : World system σ) : ∃ answer stopped rest outcome later w',
      e.revive.run.Alone h now w (⟨e.engineRequest (.stop c.name), now, answer, stopped⟩ :: rest)
        ⟨some outcome, later, w'⟩ ∧
      (∀ fault, answer = .error fault → rest = [] ∧ outcome = .error (lifecycle fault)) ∧
      (answer = .ok () → ∃ reconciling verdict polls, rest = reconciling ++ List.map e.poll polls ∧
        e.Reconciles c reconciling verdict ∧
        e.BringsUp reconciling verdict polls outcome later) := by
  obtain ⟨answer, stopped, w', hstop⟩ := exists_alone_stop hm h now w
  unfold revive
  rw [hm]
  cases answer with
  | error fault =>
      refine ⟨.error fault, stopped, [], .error (lifecycle fault), stopped, w',
        Activity.alone_exceptT_bind_error hstop, ?_, nofun⟩
      intro fault' hfault
      cases hfault
      exact ⟨rfl, rfl⟩
  | ok done =>
      obtain ⟨reconciling, verdict, polls, outcome, later, w'', hstart, hr, hb⟩ :=
        exists_alone_start hm h stopped w'
      obtain ⟨last, hmarked⟩ := exists_alone_marked (e := e) hstart
      have same : (outcome.map fun _ => ()) = outcome := by cases outcome <;> rfl
      rw [same] at hmarked
      exact ⟨.ok done, stopped, _, outcome, later, last, Activity.alone_exceptT_bind hstop hmarked,
        nofun, fun _ => ⟨reconciling, verdict, polls, rfl, hr.reconciles, hb⟩⟩

/-! ## Recoveries -/

theorem alone_recover_of_healthy (hup : e.flag w.memory = true) (h : Handler system σ) (now : Nat) :
    e.recover.run.Alone h now w [] ⟨some (.ok ()), now, w⟩ := by
  rw [recover_eq]
  apply Activity.alone_exceptT_bind (Activity.alone_lift (Activity.alone_memory ..))
  have up : w.memory.isHealthy e.position = true := hup
  rw [if_pos up]
  exact Activity.alone_pure ..

theorem alone_recover_of_down (hdown : e.flag w.memory = false) {log : List (Exchange system)}
    {ending : Ending system σ (Except NodeFault Unit)} (hr : e.revive.run.Alone h now w log ending) :
    e.recover.run.Alone h now w log ending := by
  rw [recover_eq, ← List.nil_append log]
  apply Activity.alone_exceptT_bind (Activity.alone_lift (Activity.alone_memory ..))
  have down : ¬ w.memory.isHealthy e.position = true := Bool.eq_false_iff.mp hdown
  rw [if_neg down]
  exact hr

theorem flag_of_alone_recover {log : List (Exchange system)} {outcome : Except NodeFault Unit}
    {later : Nat} {w' : World system σ}
    (hr : e.recover.run.Alone h now w log ⟨some outcome, later, w'⟩) :
    e.flag w'.memory = outcome.isOk := by
  cases hup : e.flag w.memory with
  | true =>
      obtain ⟨-, hending⟩ := hr.unique (alone_recover_of_healthy hup h now)
      cases hending
      exact hup
  | false =>
      obtain ⟨trace, hruns, hl, -⟩ := hr.exists_trace
      have follows := hl.1.through e.flag
      rw [hup] at follows
      exact (retries_of_runs hruns follows).2

/-- A recovery ends, whatever the node and the container engine do. Of an endpoint that is healthy it
asks nothing; a remote node is asked once after the backoff; a managed one is stopped once, and then
started when the stop went well. It succeeds exactly when the flag is up afterwards, and then there is
nothing to do for another recovery. -/
theorem recover_revives (e : Endpoint) (h : Handler system σ) (now : Nat) (w : World system σ) :
    ∃ log outcome later w',
      e.recover.run.Alone h now w log ⟨some outcome, later, w'⟩ ∧
      e.recover.run.run h now w = ⟨some outcome, later, w'⟩ ∧
      (e.flag w.memory = true → log = [] ∧ outcome = .ok () ∧ later = now ∧ w' = w) ∧
      (e.flag w.memory = false → e.role = .unmanaged →
        ∃ x : Poll, log = [e.poll x] ∧ x.sentAt = now + e.settings.recoveryBackoff ∧
          outcome = x.height.map fun _ => ()) ∧
      (∀ c, e.flag w.memory = false → e.role = .managed c →
        ∃ answer stopped rest,
          log = ⟨e.engineRequest (.stop c.name), now, answer, stopped⟩ :: rest ∧
          (∀ fault, answer = .error fault → rest = [] ∧ outcome = .error (lifecycle fault)) ∧
          (answer = .ok () → ∃ reconciling verdict polls,
            rest = reconciling ++ List.map e.poll polls ∧ e.Reconciles c reconciling verdict ∧
              e.BringsUp reconciling verdict polls outcome later)) ∧
      e.flag w'.memory = outcome.isOk ∧
      (outcome = .ok () → ∀ again log' ending, e.recover.run.Alone h again w' log' ending →
        log' = [] ∧ ending = ⟨some (.ok ()), again, w'⟩) := by
  have rest {log : List (Exchange system)} {outcome : Except NodeFault Unit} {later : Nat}
      {w' : World system σ} (hr : e.recover.run.Alone h now w log ⟨some outcome, later, w'⟩) :
      e.flag w'.memory = outcome.isOk ∧
        (outcome = .ok () → ∀ again log' ending, e.recover.run.Alone h again w' log' ending →
          log' = [] ∧ ending = ⟨some (.ok ()), again, w'⟩) := by
    have hflag := flag_of_alone_recover hr
    refine ⟨hflag, fun hok again log' ending hagain => ?_⟩
    rw [hok] at hflag
    exact hagain.unique (alone_recover_of_healthy hflag h again)
  cases hup : e.flag w.memory with
  | true =>
      have hr := alone_recover_of_healthy hup h now
      exact ⟨[], .ok (), now, w, hr, hr.run_eq, fun _ => ⟨rfl, rfl, rfl, rfl⟩, nofun, nofun, rest hr⟩
  | false =>
  cases hrole : e.role with
  | unmanaged =>
      obtain ⟨x, w', hx, hrevive⟩ := exists_alone_revive_unmanaged hrole h now w
      have hr := alone_recover_of_down hup hrevive
      exact ⟨_, _, _, w', hr, hr.run_eq, nofun, fun _ _ => ⟨x, rfl, hx, rfl⟩, nofun, rest hr⟩
  | managed c =>
      obtain ⟨answer, stopped, later, outcome, t, w', hrevive, hfail, hok⟩ :=
        exists_alone_revive_managed hrole h now w
      have hr := alone_recover_of_down hup hrevive
      refine ⟨_, outcome, t, w', hr, hr.run_eq, nofun, nofun, ?_, rest hr⟩
      rintro c' - hc
      cases hc
      exact ⟨answer, stopped, later, rfl, hfail, hok⟩

end Endpoint

end ChainWatch
