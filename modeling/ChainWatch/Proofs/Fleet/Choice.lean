import ChainWatch.Proofs.Fleet.Freshness

/-!
# The choice among readings

Readings arrive in any order, and some of them are incomplete. When they come from different endpoints,
one complete reading leads all others: it is higher, or as high and from an endpoint further in front.
That one is chosen, in whatever order the readings are looked at, and those that trail it can come and
go.
-/

namespace ChainWatch

namespace Reading

variable {α : Type} {readings other : List (Reading α)} {best : Complete α}

/-- Older than the best, or of the same height and from an endpoint further back. -/
def Complete.Behind (c best : Complete α) : Prop :=
  c.height < best.height ∨ c.height = best.height ∧ best.position < c.position

/-- One of the readings is this one, and all other complete ones are behind it. -/
def Leads (readings : List (Reading α)) (best : Complete α) : Prop :=
  (∃ r ∈ readings, r.complete? = some best) ∧
    ∀ r ∈ readings, ∀ c, r.complete? = some c → c = best ∨ c.Behind best

/-- The reading is incomplete or behind what was chosen. -/
def Trails (r : Reading α) (chosen : Option (Complete α)) : Prop :=
  ∀ c, r.complete? = some c → ∃ best, chosen = some best ∧ c.Behind best

theorem Complete.not_behind_self (c : Complete α) : ¬ c.Behind c := by
  simp [Complete.Behind]

theorem complete?_eq_none_iff {r : Reading α} :
    r.complete? = none ↔ r.value = none ∨ r.height = none := by
  unfold complete?
  cases r.value <;> cases r.height <;> simp

theorem position_of_complete? {r : Reading α} {c : Complete α} (h : r.complete? = some c) :
    c.position = r.position := by
  unfold complete? at h
  split at h
  · obtain rfl := Option.some.inj h
    rfl
  · cases h

theorem freshest_eq_none_iff : freshest readings = none ↔ ∀ r ∈ readings, r.complete? = none := by
  have hbest := bestOf_freshest readings
  cases hf : freshest readings with
  | none =>
      rw [hf] at hbest
      exact iff_of_true rfl hbest
  | some best =>
      rw [hf] at hbest
      obtain ⟨⟨r, hr, hc⟩, -⟩ := hbest
      refine iff_of_false nofun fun h => ?_
      rw [h r hr] at hc
      cases hc

theorem Leads.freshest_eq (h : Leads readings best) : freshest readings = some best := by
  obtain ⟨⟨r, hr, hc⟩, hlead⟩ := h
  have hbest := bestOf_freshest readings
  cases hf : freshest readings with
  | none =>
      rw [freshest_eq_none_iff.mp hf r hr] at hc
      cases hc
  | some chosen =>
      rw [hf] at hbest
      obtain ⟨⟨s, hs, hchosen⟩, hmax⟩ := hbest
      have hle := fresher_eq_false.mp (hmax r hr best hc)
      rcases hlead s hs chosen hchosen with rfl | hbehind
      · rfl
      · unfold Complete.Behind at hbehind
        omega

/-- What is chosen among different endpoints leads. Two readings of one endpoint could be level. -/
theorem leads_of_freshest (distinct : (readings.map (·.position)).Nodup)
    (h : freshest readings = some best) : Leads readings best := by
  have hbest := bestOf_freshest readings
  rw [h] at hbest
  obtain ⟨⟨s, hs, hchosen⟩, hmax⟩ := hbest
  refine ⟨⟨s, hs, hchosen⟩, fun r hr c hc => ?_⟩
  have hle := fresher_eq_false.mp (hmax r hr c hc)
  by_cases level : c.position = best.position
  · have same : r.position = s.position := by
      rw [← position_of_complete? hc, level, position_of_complete? hchosen]
    obtain rfl := List.inj_on_of_nodup_map distinct hr hs same
    exact .inl (Option.some.inj (hc.symm.trans hchosen))
  · right
    unfold Complete.Behind
    omega

theorem freshest_eq_some_iff (distinct : (readings.map (·.position)).Nodup) :
    freshest readings = some best ↔ Leads readings best :=
  ⟨leads_of_freshest distinct, Leads.freshest_eq⟩

/-- Lists of readings that differ only in what trails lead to the same choice. -/
theorem freshest_congr (distinct : (readings.map (·.position)).Nodup)
    (come : ∀ r ∈ other, r ∈ readings ∨ r.Trails (freshest readings))
    (gone : ∀ r ∈ readings, r ∈ other ∨ r.Trails (freshest readings)) :
    freshest other = freshest readings := by
  cases hf : freshest readings with
  | none =>
      rw [hf] at come
      refine freshest_eq_none_iff.mpr fun r hr => ?_
      rcases come r hr with hr | ht
      · exact freshest_eq_none_iff.mp hf r hr
      · refine Option.eq_none_iff_forall_not_mem.mpr fun c hc => ?_
        obtain ⟨best, hbest, -⟩ := ht c hc
        cases hbest
  | some best =>
      rw [hf] at come gone
      obtain ⟨⟨s, hs, hchosen⟩, hlead⟩ := leads_of_freshest distinct hf
      have kept : s ∈ other := by
        rcases gone s hs with hs | ht
        · exact hs
        · obtain ⟨leader, hl, hbehind⟩ := ht best hchosen
          obtain rfl := Option.some.inj hl
          exact (best.not_behind_self hbehind).elim
      refine Leads.freshest_eq ⟨⟨s, kept, hchosen⟩, fun r hr c hc => ?_⟩
      rcases come r hr with hr | ht
      · exact hlead r hr c hc
      · obtain ⟨leader, hl, hbehind⟩ := ht c hc
        obtain rfl := Option.some.inj hl
        exact .inr hbehind

/-- Of readings from different endpoints the leader is chosen if any is complete. Neither their order
nor the readings that trail are of any account. -/
theorem freshest_is_leader (readings : List (Reading α))
    (distinct : (readings.map (·.position)).Nodup) :
    (freshest readings = none ↔ ∀ r ∈ readings, r.value = none ∨ r.height = none) ∧
      (∀ best, freshest readings = some best ↔ Leads readings best) ∧
      (∀ other, other.Perm readings → freshest other = freshest readings) ∧
      (∀ inserted other, other.Perm (readings ++ inserted) →
        (∀ r ∈ inserted, r.Trails (freshest readings)) → freshest other = freshest readings) ∧
      ∀ removed other, readings.Perm (other ++ removed) →
        (∀ r ∈ removed, r.Trails (freshest readings)) → freshest other = freshest readings := by
  refine ⟨?_, fun best => freshest_eq_some_iff distinct, fun other hp => ?_,
    fun inserted other hp ht => ?_, fun removed other hp ht => ?_⟩
  · rw [freshest_eq_none_iff]
    exact forall₂_congr fun _ _ => complete?_eq_none_iff
  · exact freshest_congr distinct (fun r hr => .inl (hp.subset hr))
      fun r hr => .inl (hp.symm.subset hr)
  · refine freshest_congr distinct (fun r hr => ?_)
      fun r hr => .inl (hp.symm.subset (List.mem_append_left _ hr))
    exact (List.mem_append.mp (hp.subset hr)).imp id (ht r)
  · refine freshest_congr distinct (fun r hr => .inl (hp.symm.subset (List.mem_append_left _ hr)))
      fun r hr => ?_
    exact (List.mem_append.mp (hp.subset hr)).imp id (ht r)

/-- The second and the third endpoint are level, the first one does not know its height. -/
def tied : List (Reading Nat) := [⟨2, some 20, some 7⟩, ⟨0, some 5, none⟩, ⟨1, some 10, some 7⟩]

theorem freshest_is_leader_tied :
    (tied.map (·.position)).Nodup ∧ freshest tied = some ⟨1, 10, 7⟩ ∧
      Leads tied ⟨1, 10, 7⟩ ∧
      freshest [⟨1, some 10, some 7⟩] = some ⟨1, 10, 7⟩ ∧
      freshest (⟨3, some 9, some 6⟩ :: tied.reverse) = some ⟨1, 10, 7⟩ := by
  have distinct : (tied.map (·.position)).Nodup := by decide
  have chosen : freshest tied = some ⟨1, 10, 7⟩ := by decide
  obtain ⟨-, leader, -, insert, remove⟩ := freshest_is_leader tied distinct
  refine ⟨distinct, chosen, (leader _).mp chosen, ?_, ?_⟩
  · rw [remove [⟨2, some 20, some 7⟩, ⟨0, some 5, none⟩] _ (by decide), chosen]
    rw [chosen]
    simp [Trails, complete?, Complete.Behind]
  · rw [insert [⟨3, some 9, some 6⟩] _ (by decide), chosen]
    rw [chosen]
    simp [Trails, complete?, Complete.Behind]

end Reading

end ChainWatch
