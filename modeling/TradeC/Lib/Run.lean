import Mathlib.Data.List.Basic

/-! Runs of a partial step function, in general.

    A system is a step `σ → ε → Option σ`: what one event does to the state, `none` where the event
    cannot happen there. `exec` runs a list of events; `Along` says that a condition on (state,
    event) holds at every step of a run. The induction over runs is done once here: `exec_inv` for an
    invariant, `exec_inv_along` for one that needs the condition, `exec_reaches` for a goal that steps come
    nearer to, `exec_congr_along` for two systems that agree on every step that meets it. -/

namespace TradeC.Run

variable {σ ε : Type*} (step : σ → ε → Option σ)

/-- Run the events in order, from `s`. -/
def exec : σ → List ε → Option σ
  | s, [] => some s
  | s, e :: es => (step s e).bind fun s' => exec s' es

/-- `ok` holds of the state and the event at every step of the run. -/
def Along (ok : σ → ε → Prop) : σ → List ε → Prop
  | _, [] => True
  | s, e :: es => ok s e ∧ match step s e with
    | some s' => Along ok s' es
    | none => True

instance decAlong (ok : σ → ε → Prop) [∀ s e, Decidable (ok s e)] :
    ∀ (es : List ε) (s : σ), Decidable (Along step ok s es)
  | [], _ => .isTrue trivial
  | e :: es, s =>
    have : Decidable (match step s e with
        | some s' => Along step ok s' es
        | none => True) :=
      match step s e with
      | some s' => decAlong ok es s'
      | none => .isTrue trivial
    inferInstanceAs (Decidable (ok s e ∧ _))

@[simp] theorem exec_nil (s : σ) : exec step s [] = some s := rfl

theorem exec_cons (s : σ) (e : ε) (es : List ε) :
    exec step s (e :: es) = (step s e).bind fun s' => exec step s' es := rfl

variable {step}

theorem exec_cons_some {s s'' : σ} {e : ε} {es : List ε} (h : exec step s (e :: es) = some s'') :
    ∃ s', step s e = some s' ∧ exec step s' es = some s'' := by
  rw [exec_cons] at h
  exact Option.bind_eq_some_iff.mp h

theorem exec_append : ∀ (es₁ es₂ : List ε) (s : σ),
    exec step s (es₁ ++ es₂) = (exec step s es₁).bind fun s' => exec step s' es₂ := by
  intro es₁
  induction es₁ with
  | nil =>
    intro _ _
    rfl
  | cons e es₁ ih =>
    intro es₂ s
    rw [List.cons_append, exec_cons, exec_cons]
    cases step s e with
    | none => rfl
    | some s' => exact ih es₂ s'

theorem along_cons {ok : σ → ε → Prop} {s s' : σ} {e : ε} {es : List ε}
    (h : Along step ok s (e :: es)) (hs : step s e = some s') :
    ok s e ∧ Along step ok s' es := by
  obtain ⟨hok, hrest⟩ := h
  rw [hs] at hrest
  exact ⟨hok, hrest⟩

/-- Where `ok` keeps `Inv` and gives `ok'` under it, a run along `ok` is one along `ok'`. -/
theorem along_mono {Inv : σ → Prop} {ok ok' : σ → ε → Prop}
    (hstep : ∀ s e s', Inv s → ok s e → step s e = some s' → Inv s')
    (himp : ∀ s e, Inv s → ok s e → ok' s e) :
    ∀ (es : List ε) (s : σ), Inv s → Along step ok s es → Along step ok' s es := by
  intro es
  induction es with
  | nil =>
    intro _ _ _
    trivial
  | cons e es ih =>
    intro s hi hal
    refine ⟨himp s e hi hal.1, ?_⟩
    cases hs : step s e with
    | none => trivial
    | some s' => exact ih s' (hstep s e s' hi hal.1 hs) (along_cons hal hs).2

theorem along_and {ok ok' : σ → ε → Prop} : ∀ {es : List ε} {s : σ}, Along step ok s es →
    Along step ok' s es → Along step (fun s e => ok s e ∧ ok' s e) s es := by
  intro es
  induction es with
  | nil =>
    intro _ _ _
    trivial
  | cons e es ih =>
    rintro s ⟨h, hrest⟩ ⟨h', hrest'⟩
    refine ⟨⟨h, h'⟩, ?_⟩
    cases hs : step s e with
    | none => trivial
    | some s' =>
      rw [hs] at hrest hrest'
      exact ih hrest hrest'

/-- A condition along a run, along its two parts. -/
theorem along_append {ok : σ → ε → Prop} : ∀ {es₁ es₂ : List ε} {s s₁ : σ},
    Along step ok s (es₁ ++ es₂) → exec step s es₁ = some s₁ →
    Along step ok s es₁ ∧ Along step ok s₁ es₂ := by
  intro es₁
  induction es₁ with
  | nil =>
    intro _ _ _ hal h
    cases h
    exact ⟨trivial, hal⟩
  | cons e es₁ ih =>
    intro _ _ _ hal h
    obtain ⟨s₂, hs, hrun⟩ := exec_cons_some h
    obtain ⟨hok, hrest⟩ := along_cons hal hs
    obtain ⟨h₁, h₂⟩ := ih hrest hrun
    refine ⟨⟨hok, ?_⟩, h₂⟩
    rw [hs]
    exact h₁

theorem along_take {ok : σ → ε → Prop} : ∀ (es : List ε) (s : σ) (n : ℕ), Along step ok s es →
    Along step ok s (es.take n)
  | _, _, 0, _ => trivial
  | [], _, _ + 1, _ => trivial
  | e :: es, s, n + 1, ⟨hok, hrest⟩ => by
    refine ⟨hok, ?_⟩
    cases hs : step s e with
    | none => trivial
    | some s' =>
      rw [hs] at hrest
      exact along_take es s' n hrest

/-- The rule of invariants under a step condition: one step keeps `Inv` where `ok` holds, so a run
    all of whose steps meet `ok` keeps it. -/
theorem exec_inv_along {Inv : σ → Prop} {ok : σ → ε → Prop}
    (hstep : ∀ s e s', Inv s → ok s e → step s e = some s' → Inv s') :
    ∀ (es : List ε) (s s' : σ), Inv s → Along step ok s es → exec step s es = some s' → Inv s' := by
  intro es
  induction es with
  | nil =>
    intro s s' hi _ h
    cases h
    exact hi
  | cons e es ih =>
    intro s s' hi hal h
    obtain ⟨s₁, hs, hrun⟩ := exec_cons_some h
    obtain ⟨hok, hrest⟩ := along_cons hal hs
    exact ih s₁ s' (hstep s e s₁ hi hok hs) hrest hrun

/-- A condition that all events of the run meet, in whatever state. -/
theorem along_forall {ok : σ → ε → Prop} : ∀ (es : List ε) (s : σ), (∀ e ∈ es, ∀ s, ok s e) →
    Along step ok s es := by
  intro es
  induction es with
  | nil =>
    intro _ _
    trivial
  | cons e es ih =>
    intro s h
    refine ⟨h e List.mem_cons_self s, ?_⟩
    cases step s e with
    | none => trivial
    | some s' => exact ih s' fun e' he' => h e' (List.mem_cons_of_mem _ he')

theorem along_true (es : List ε) (s : σ) : Along step (fun _ _ => True) s es :=
  along_forall es s fun _ _ _ => trivial

/-- A condition under which every step happens and keeps `Inv`: a run that meets it happens. -/
theorem exec_some_along {Inv : σ → Prop} {ok : σ → ε → Prop}
    (hstep : ∀ s e, Inv s → ok s e → ∃ s', step s e = some s' ∧ Inv s') :
    ∀ (es : List ε) (s : σ), Inv s → Along step ok s es → ∃ s', exec step s es = some s' ∧ Inv s' := by
  intro es
  induction es with
  | nil =>
    intro s hi _
    exact ⟨s, rfl, hi⟩
  | cons e es ih =>
    intro s hi hal
    obtain ⟨s₁, hs, hi₁⟩ := hstep s e hi hal.1
    obtain ⟨s', hrun, hi'⟩ := ih s₁ hi₁ (along_cons hal hs).2
    refine ⟨s', ?_, hi'⟩
    rw [exec_cons, hs]
    exact hrun

/-- The rule of invariants: kept by every step, kept by every run. -/
theorem exec_inv {Inv : σ → Prop} (hstep : ∀ s e s', Inv s → step s e = some s' → Inv s')
    (es : List ε) (s s' : σ) (hi : Inv s) (h : exec step s es = some s') : Inv s' :=
  exec_inv_along (fun s e s' hi _ hs => hstep s e s' hi hs) es s s' hi (along_true es s) h

/-- An invariant holds before every step. -/
theorem along_inv {Inv : σ → Prop} (hstep : ∀ s e s', Inv s → step s e = some s' → Inv s') :
    ∀ (es : List ε) (s : σ), Inv s → Along step (fun s _ => Inv s) s es := by
  intro es
  induction es with
  | nil =>
    intro _ _
    trivial
  | cons e es ih =>
    intro s hi
    refine ⟨hi, ?_⟩
    cases hs : step s e with
    | none => trivial
    | some s' => exact ih s' (hstep s e s' hi hs)

/-- Two conditions that come to the same for the steps that happen, under an invariant. -/
theorem along_iff {Inv : σ → Prop} {ok ok' : σ → ε → Prop}
    (hstep : ∀ s e s', Inv s → step s e = some s' → Inv s')
    (hiff : ∀ s e s', Inv s → step s e = some s' → (ok s e ↔ ok' s e)) :
    ∀ (es : List ε) (s s' : σ), Inv s → exec step s es = some s' →
      (Along step ok s es ↔ Along step ok' s es) := by
  intro es
  induction es with
  | nil =>
    intro _ _ _ _
    exact Iff.rfl
  | cons e es ih =>
    intro s s' hi h
    obtain ⟨s₁, hs, hrun⟩ := exec_cons_some h
    have ih := ih s₁ s' (hstep s e s₁ hi hs) hrun
    rw [Along, Along, hs]
    exact and_congr (hiff s e s₁ hi hs) ih

/-- Where each step from `P` keeps it exactly under `ok`, all states that a run comes through have it
    exactly along `ok`. -/
theorem prefixes_iff_along {P : σ → Prop} {ok : σ → ε → Prop}
    (hstep : ∀ s e s', P s → step s e = some s' → (P s' ↔ ok s e)) :
    ∀ (es : List ε) (s s' : σ), P s → exec step s es = some s' →
      ((∀ n s₁, exec step s (es.take n) = some s₁ → P s₁) ↔ Along step ok s es) := by
  intro es
  induction es with
  | nil =>
    intro s s' hp _
    refine ⟨fun _ => trivial, fun _ n s₁ h => ?_⟩
    rw [List.take_nil, exec_nil] at h
    exact Option.some.inj h ▸ hp
  | cons e es ih =>
    intro s s' hp h
    obtain ⟨s₂, hs, hrun⟩ := exec_cons_some h
    rw [Along, hs]
    constructor
    · intro hall
      have hp₂ : P s₂ := hall 1 s₂ (by rw [List.take_succ_cons, List.take_zero, exec_cons, hs]; rfl)
      refine ⟨(hstep s e s₂ hp hs).mp hp₂, (ih s₂ s' hp₂ hrun).mp fun n s₁ hn => ?_⟩
      exact hall (n + 1) s₁ (by rw [List.take_succ_cons, exec_cons, hs]; exact hn)
    · rintro ⟨hok, hal⟩ n s₁ hn
      have hp₂ : P s₂ := (hstep s e s₂ hp hs).mpr hok
      cases n with
      | zero => exact Option.some.inj hn ▸ hp
      | succ n =>
        rw [List.take_succ_cons, exec_cons, hs] at hn
        exact (ih s₂ s' hp₂ hrun).mpr hal n s₁ hn

/-- The rule of progress: where every state that is not a goal yet has a step that meets `ok` and leaves less to
    do, a goal is reached by such steps. -/
theorem exec_reaches {α : Type*} {r : α → α → Prop} (hwf : WellFounded r) {Inv Goal : σ → Prop}
    {ok : σ → ε → Prop} {left : σ → α}
    (hstep : ∀ s, Inv s → ¬ Goal s → ∃ e s', ok s e ∧ step s e = some s' ∧ Inv s' ∧ r (left s') (left s)) :
    ∀ s, Inv s → ∃ es s', Along step ok s es ∧ exec step s es = some s' ∧ Inv s' ∧ Goal s' := by
  intro s
  induction hs : left s using hwf.induction generalizing s with
  | _ a ih =>
    intro hi
    by_cases hgoal : Goal s
    · exact ⟨[], s, trivial, rfl, hi, hgoal⟩
    · obtain ⟨e, s₁, hok, hs₁, hi₁, hlt⟩ := hstep s hi hgoal
      obtain ⟨es, s', hal, hrun, hs'⟩ := ih _ (hs ▸ hlt) s₁ rfl hi₁
      refine ⟨e :: es, s', ⟨hok, ?_⟩, ?_, hs'⟩
      · rw [hs₁]
        exact hal
      · rw [exec_cons, hs₁]
        exact hrun

/-- Two step functions that agree wherever `ok` holds run alike along it. -/
theorem exec_congr_along {step' : σ → ε → Option σ} {ok : σ → ε → Prop}
    (heq : ∀ s e, ok s e → step' s e = step s e) :
    ∀ (es : List ε) (s : σ), Along step ok s es → exec step' s es = exec step s es := by
  intro es
  induction es with
  | nil =>
    intro _ _
    rfl
  | cons e es ih =>
    intro s hal
    rw [exec_cons, exec_cons, heq s e hal.1]
    cases hs : step s e with
    | none => rfl
    | some s' => exact ih s' (along_cons hal hs).2

end TradeC.Run
