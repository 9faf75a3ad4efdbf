import TradeC.Lib.Run

/-! The trail of a run: what its steps show, in order, and conditions on what has been shown so far.

    `Since p q` says of a trail that something with `p` came, and since then only what has `q`; both may look at
    what came before. `along_iff_trail` is the rule that turns a condition on the states of a run into one on
    its trail: an invariant says what the trail tells of the state. -/

namespace TradeC.Run
variable {σ ε γ : Type*}

/-- What the steps of a run show. -/
def trail (step : σ → ε → Option σ) (out : σ → ε → γ) : σ → List ε → List γ
  | _, [] => []
  | s, e :: es => out s e :: (step s e).elim [] fun s' => trail step out s' es

/-- A condition on each entry of a trail and those before it. -/
def Throughout (cond : List γ → γ → Prop) (cs : List γ) : Prop := ∀ cs₁ c cs₂, cs = cs₁ ++ c :: cs₂ → cond cs₁ c

theorem throughout_nil (cond : List γ → γ → Prop) : Throughout cond [] := fun _ _ _ h => absurd h (by simp)

theorem throughout_cons {cond : List γ → γ → Prop} {c : γ} {cs : List γ} :
    Throughout cond (c :: cs) ↔ cond [] c ∧ Throughout (fun cs₁ => cond (c :: cs₁)) cs := by
  constructor
  · intro h
    refine ⟨h [] c cs rfl, fun cs₁ d cs₂ heq => h (c :: cs₁) d cs₂ ?_⟩
    rw [heq]
    rfl
  · rintro ⟨hfirst, hrest⟩ cs₁ d cs₂ heq
    cases cs₁ with
    | nil =>
      cases heq
      exact hfirst
    | cons c' cs₁ =>
      obtain ⟨rfl, rfl⟩ := List.cons.inj heq
      exact hrest cs₁ d cs₂ rfl

/-- The rule of the trail: where `Inv` says of a state what has been shown on the way to it, and a step keeps that,
    a condition on states holds along a run exactly if the one that it comes to holds throughout the trail. -/
theorem along_iff_trail {step : σ → ε → Option σ} {out : σ → ε → γ} {Inv : List γ → σ → Prop}
    {ok : σ → ε → Prop} (cond : List γ → γ → Prop)
    (hstep : ∀ cs s e s', Inv cs s → step s e = some s' → Inv (cs ++ [out s e]) s')
    (hiff : ∀ cs s e s', Inv cs s → step s e = some s' → (ok s e ↔ cond cs (out s e))) :
    ∀ (es : List ε) (cs : List γ) (s s' : σ), Inv cs s → exec step s es = some s' →
      (Along step ok s es ↔ Throughout (fun cs₁ => cond (cs ++ cs₁)) (trail step out s es)) := by
  intro es
  induction es with
  | nil =>
    intro _ _ _ _ _
    exact iff_of_true trivial (throughout_nil _)
  | cons e es ih =>
    intro cs s s' hi h
    obtain ⟨s₁, hs, hrun⟩ := exec_cons_some h
    have ih := ih (cs ++ [out s e]) s₁ s' (hstep cs s e s₁ hi hs) hrun
    rw [Along, trail, hs, Option.elim_some, throughout_cons, List.append_nil]
    simp only [List.append_assoc, List.singleton_append] at ih
    exact and_congr (hiff cs s e s₁ hi hs) ih

/-! ### What came last -/

def Since (p q : List γ → γ → Prop) (cs : List γ) : Prop :=
  ∃ cs₁ c cs₂, cs = cs₁ ++ c :: cs₂ ∧ p cs₁ c ∧ Throughout (fun cs' => q (cs₁ ++ c :: cs')) cs₂

variable {p q : List γ → γ → Prop}

theorem not_since_nil : ¬ Since p q [] := fun ⟨_, _, _, h, _⟩ => absurd h (by simp)

theorem throughout_concat {cond : List γ → γ → Prop} {cs : List γ} {d : γ} :
    Throughout cond (cs ++ [d]) ↔ Throughout cond cs ∧ cond cs d := by
  constructor
  · intro h
    refine ⟨fun cs₁ c cs₂ heq => h cs₁ c (cs₂ ++ [d]) ?_, h cs d [] rfl⟩
    rw [heq, List.append_assoc]
    rfl
  · rintro ⟨hall, hlast⟩ cs₁ c cs₂ heq
    rcases List.eq_nil_or_concat cs₂ with rfl | ⟨cs₂, d', rfl⟩
    · obtain ⟨rfl, hd⟩ := List.append_inj' heq rfl
      rw [← List.singleton_inj.mp hd]
      exact hlast
    · rw [List.concat_eq_append, ← List.cons_append, ← List.append_assoc] at heq
      obtain ⟨rfl, -⟩ := List.append_inj' heq rfl
      exact hall cs₁ c cs₂ rfl

/-- The entry that has just been made, or one before it. -/
theorem since_concat {cs : List γ} {d : γ} : Since p q (cs ++ [d]) ↔ p cs d ∨ Since p q cs ∧ q cs d := by
  constructor
  · rintro ⟨cs₁, c, cs₂, heq, hp, hq⟩
    rcases List.eq_nil_or_concat cs₂ with rfl | ⟨cs₂, d', rfl⟩
    · obtain ⟨rfl, hd⟩ := List.append_inj' heq rfl
      rw [List.singleton_inj.mp hd]
      exact .inl hp
    · rw [List.concat_eq_append] at heq hq
      rw [← List.cons_append, ← List.append_assoc] at heq
      obtain ⟨rfl, hd⟩ := List.append_inj' heq rfl
      rw [List.singleton_inj.mp hd]
      obtain ⟨hall, hlast⟩ := throughout_concat.mp hq
      exact .inr ⟨⟨cs₁, c, cs₂, rfl, hp, hall⟩, hlast⟩
  · rintro (hp | ⟨⟨cs₁, c, cs₂, rfl, hp, hall⟩, hlast⟩)
    · exact ⟨cs, d, [], rfl, hp, throughout_nil _⟩
    · exact ⟨cs₁, c, cs₂ ++ [d], by simp, hp, throughout_concat.mpr ⟨hall, hlast⟩⟩

end TradeC.Run
