import ChainWatch.Proofs.Concurrency.Trace

/-!
# Pasts

What fits as the next event of an activity may depend on what the activity has done itself.
`Activity.Heeds` says that an activity without parallel parts does only what fits its own past, and what
holds when it ends. There is a rule for each way of composing, and the events of every run, finished or
not, fit (`Activity.Heeds.runs`).
-/

namespace ChainWatch.Concurrency

variable {I : Interface} {α β ε : Type} {fits : Trace I → Event I → Prop} {past trace : Trace I}

/-- From the past, whose latest event comes first, each event fits what was before it. -/
def Trace.Fits (fits : Trace I → Event I → Prop) : Trace I → Trace I → Prop
  | _, [] => True
  | past, event :: rest => fits past event ∧ Trace.Fits fits (event :: past) rest

/-- From the past, whose latest event comes first, the activity does only what fits, and it ends with
a value and a past of which `post` holds. Nothing in it goes on side by side. -/
def Activity.Heeds {α : Type} (fits : Trace I → Event I → Prop) (post : α → Trace I → Prop) :
    Activity I α → Trace I → Prop
  | .done value => fun past => post value past
  | .touch change next => fun past =>
    ∀ now m, fits past (.touched m (change m)) ∧
      (next now m).Heeds fits post (.touched m (change m) :: past)
  | .perform request next => fun past =>
    fits past (.sent request) ∧ ∀ answer, fits (.sent request :: past) (.answered request answer) ∧
      (next answer).Heeds fits post (.answered request answer :: .sent request :: past)
  | .settleAt _ request next => fun past =>
    ∀ answer, fits past (.answered request answer) ∧
      (next answer).Heeds fits post (.answered request answer :: past)
  | .pause _ next => next.Heeds fits post
  | .resumeAt _ next => next.Heeds fits post
  | .waitUntil ready next => fun past =>
    ∀ m, ready m = true → fits past (.noticed m) ∧ next.Heeds fits post (.noticed m :: past)
  | .join _ _ _ => fun _ => False
  | .tryPair _ _ _ => fun _ => False
termination_by structural p => p

namespace Activity

variable {post : α → Trace I → Prop}

@[simp] theorem heeds_pure {value : α} :
    (pure value : Activity I α).Heeds fits post past ↔ post value past := Iff.rfl

theorem heeds_memory {post : I.Memory → Trace I → Prop}
    (h : ∀ m, fits past (.touched m m) ∧ post m (.touched m m :: past)) :
    (memory : Activity I I.Memory).Heeds fits post past :=
  fun _ m => h m

theorem Heeds.runs : {p : Activity I α} → {past : Trace I} → p.Heeds fits post past →
    {trace : Trace I} → {result : Option α} → p.Runs trace result →
    Trace.Fits fits past trace ∧ ∀ value, result = some value → post value (trace.reverse ++ past)
  | .done value, past, hp, trace, result, hr => by
      obtain ⟨rfl, rfl | rfl⟩ := hr
      · exact ⟨trivial, nofun⟩
      · refine ⟨trivial, fun v hv => ?_⟩
        cases hv
        exact hp
  | .touch change next, past, hp, trace, result, hr => by
      rcases hr with ⟨rfl, rfl⟩ | ⟨⟨now, m⟩, later, rfl, hr⟩
      · exact ⟨trivial, nofun⟩
      · obtain ⟨hfits, hn⟩ := hp now m
        obtain ⟨hlater, hpost⟩ := hn.runs hr
        exact ⟨⟨hfits, hlater⟩, by simpa using hpost⟩
  | .perform request next, past, hp, trace, result, hr => by
      rcases hr with ⟨rfl, rfl⟩ | ⟨-, later, rfl, ⟨rfl, rfl⟩ | ⟨answer, later, rfl, hr⟩⟩
      · exact ⟨trivial, nofun⟩
      · exact ⟨⟨hp.1, trivial⟩, nofun⟩
      · obtain ⟨hfits, hn⟩ := hp.2 answer
        obtain ⟨hlater, hpost⟩ := hn.runs hr
        exact ⟨⟨hp.1, hfits, hlater⟩, by simpa using hpost⟩
  | .settleAt _ request next, past, hp, trace, result, hr => by
      rcases hr with ⟨rfl, rfl⟩ | ⟨answer, later, rfl, hr⟩
      · exact ⟨trivial, nofun⟩
      · obtain ⟨hfits, hn⟩ := hp answer
        obtain ⟨hlater, hpost⟩ := hn.runs hr
        exact ⟨⟨hfits, hlater⟩, by simpa using hpost⟩
  | .pause _ next, _, hp, _, _, hr => Heeds.runs (p := next) hp hr
  | .resumeAt _ next, _, hp, _, _, hr => Heeds.runs (p := next) hp hr
  | .waitUntil ready next, past, hp, trace, result, hr => by
      rcases hr with ⟨rfl, rfl⟩ | ⟨⟨m, hm⟩, later, rfl, hr⟩
      · exact ⟨trivial, nofun⟩
      · obtain ⟨hfits, hn⟩ := hp m hm
        obtain ⟨hlater, hpost⟩ := Heeds.runs (p := next) hn hr
        exact ⟨⟨hfits, hlater⟩, by simpa using hpost⟩
  | .join _ _ _, _, hp, _, _, _ => hp.elim
  | .tryPair _ _ _, _, hp, _, _, _ => hp.elim

theorem Heeds.bind {f : α → Activity I β} {post : β → Trace I → Prop} :
    {p : Activity I α} → {past : Trace I} →
      p.Heeds fits (fun value past => (f value).Heeds fits post past) past →
      (p >>= f).Heeds fits post past
  | .done _, _, hp => hp
  | .touch _ _, _, hp => fun now m => ⟨(hp now m).1, (hp now m).2.bind⟩
  | .perform _ _, _, hp =>
      ⟨hp.1, fun answer => ⟨(hp.2 answer).1, (hp.2 answer).2.bind⟩⟩
  | .settleAt _ _ _, _, hp => fun answer => ⟨(hp answer).1, (hp answer).2.bind⟩
  | .pause _ next, _, hp => Heeds.bind (p := next) hp
  | .resumeAt _ next, _, hp => Heeds.bind (p := next) hp
  | .waitUntil _ next, _, hp => fun m hm => ⟨(hp m hm).1, Heeds.bind (p := next) (hp m hm).2⟩
  | .join _ _ _, _, hp => hp.elim
  | .tryPair _ _ _, _, hp => hp.elim

theorem Heeds.mono {post' : α → Trace I → Prop} (h : ∀ value past, post value past → post' value past) :
    {p : Activity I α} → {past : Trace I} → p.Heeds fits post past → p.Heeds fits post' past
  | .done _, _, hp => h _ _ hp
  | .touch _ _, _, hp => fun now m => ⟨(hp now m).1, (hp now m).2.mono h⟩
  | .perform _ _, _, hp =>
      ⟨hp.1, fun answer => ⟨(hp.2 answer).1, (hp.2 answer).2.mono h⟩⟩
  | .settleAt _ _ _, _, hp => fun answer => ⟨(hp answer).1, (hp answer).2.mono h⟩
  | .pause _ next, _, hp => Heeds.mono h (p := next) hp
  | .resumeAt _ next, _, hp => Heeds.mono h (p := next) hp
  | .waitUntil _ next, _, hp => fun m hm => ⟨(hp m hm).1, Heeds.mono h (p := next) (hp m hm).2⟩
  | .join _ _ _, _, hp => hp.elim
  | .tryPair _ _ _, _, hp => hp.elim

theorem Heeds.grows :
    {p : Activity I α} → {past : Trace I} → p.Heeds fits post past →
      p.Heeds fits (fun value later => past <:+ later ∧ post value later) past
  | .done _, past, hp => ⟨List.suffix_refl past, hp⟩
  | .touch _ _, _, hp => fun now m => ⟨(hp now m).1, (hp now m).2.grows.mono fun _ _ h =>
      ⟨(List.suffix_cons _ _).trans h.1, h.2⟩⟩
  | .perform _ _, _, hp =>
      ⟨hp.1, fun answer => ⟨(hp.2 answer).1, (hp.2 answer).2.grows.mono fun _ _ h =>
        ⟨((List.suffix_cons _ _).trans (List.suffix_cons _ _)).trans h.1, h.2⟩⟩⟩
  | .settleAt _ _ _, _, hp => fun answer => ⟨(hp answer).1, (hp answer).2.grows.mono fun _ _ h =>
      ⟨(List.suffix_cons _ _).trans h.1, h.2⟩⟩
  | .pause _ next, _, hp => Heeds.grows (p := next) hp
  | .resumeAt _ next, _, hp => Heeds.grows (p := next) hp
  | .waitUntil _ next, _, hp => fun m hm => ⟨(hp m hm).1,
      (Heeds.grows (p := next) (hp m hm).2).mono fun _ _ h =>
        ⟨(List.suffix_cons _ _).trans h.1, h.2⟩⟩
  | .join _ _ _, _, hp => hp.elim
  | .tryPair _ _ _, _, hp => hp.elim

end Activity

/-! ## Activities that may fail -/

variable {x : ExceptT ε (Activity I) α}

theorem heeds_exceptT_bind {f : α → ExceptT ε (Activity I) β}
    {post : Except ε β → Trace I → Prop}
    (hx : x.run.Heeds fits (fun outcome past =>
      match outcome with
      | .ok value => (f value).run.Heeds fits post past
      | .error e => post (.error e) past) past) :
    (x >>= f).run.Heeds fits post past := by
  rw [ExceptT.run_bind]
  refine (hx.mono fun outcome past h => ?_).bind
  cases outcome with
  | ok value => exact h
  | error e => exact h

theorem heeds_tryCatch {handle : ε → ExceptT ε (Activity I) α} {post : Except ε α → Trace I → Prop}
    (hx : x.run.Heeds fits (fun outcome past =>
      match outcome with
      | .ok value => post (.ok value) past
      | .error e => (handle e).run.Heeds fits post past) past) :
    (tryCatch x handle).run.Heeds fits post past := by
  refine (hx.mono fun outcome past h => ?_).bind
  cases outcome with
  | ok value => exact h
  | error e => exact h

theorem heeds_lift {p : Activity I α} {post : Except ε α → Trace I → Prop}
    (hp : p.Heeds fits (fun value past => post (.ok value) past) past) :
    (liftM p : ExceptT ε (Activity I) α).run.Heeds fits post past :=
  hp.bind

end ChainWatch.Concurrency
