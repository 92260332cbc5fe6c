import Mathlib.Data.Option.Basic
import Mathlib.Tactic.Common

/-! Runs of a step function that may refuse an action, and what they preserve. -/
namespace LibWebsocket.Lib

variable {σ α : Type*} (step : σ → α → Option σ)

/-- The state behind a list of actions, if all of them are possible. -/
def run : σ → List α → Option σ
  | s, [] => some s
  | s, a :: as => (step s a).bind fun s' => run s' as

/-- The states that some list of actions leads to. -/
def Reachable (s₀ s : σ) : Prop := ∃ as, run step s₀ as = some s

/-- Every action of the run meets the condition in the state it is taken in. -/
def Meets (Q : σ → α → Prop) : σ → List α → Prop
  | _, [] => True
  | s, a :: as => Q s a ∧ ∀ s', step s a = some s' → Meets Q s' as

/-- Every state of the run has the property. -/
def Always (P : σ → Prop) : σ → List α → Prop
  | s, [] => P s
  | s, a :: as => P s ∧ ∀ s', step s a = some s' → Always P s' as

variable {step} {P R : σ → Prop} {Q : σ → α → Prop} {s s' : σ} {a : α} {as : List α}

theorem run_cons_eq_some : run step s (a :: as) = some s' ↔
    ∃ s₁, step s a = some s₁ ∧ run step s₁ as = some s' := by
  rw [run, Option.bind_eq_some_iff]

theorem run_append {bs : List α} : run step s (as ++ bs) = (run step s as).bind (run step · bs) := by
  induction as generalizing s with
  | nil => rfl
  | cons a as ih =>
    rw [List.cons_append, run, run, Option.bind_assoc]
    exact congrArg _ (funext fun _ => ih)

theorem run_append_eq_some {bs : List α} {u : σ} :
    run step s (as ++ bs) = some u ↔ ∃ t, run step s as = some t ∧ run step t bs = some u := by
  rw [run_append, Option.bind_eq_some_iff]

/-- Of two systems that are related, the second one follows each run of the first. -/
theorem run_simulates {τ : Type*} (step : σ → α → Option σ) (step' : τ → α → Option τ)
    {R : σ → τ → Prop}
    (hstep : ∀ {s t a s'}, R s t → step s a = some s' → ∃ t', step' t a = some t' ∧ R s' t')
    {t : τ} (h : R s t) (hrun : run step s as = some s') :
    ∃ t', run step' t as = some t' ∧ R s' t' := by
  induction as generalizing s t with
  | nil =>
    cases hrun
    exact ⟨t, rfl, h⟩
  | cons a as ih =>
    obtain ⟨s₁, h₁, hrun⟩ := run_cons_eq_some.mp hrun
    obtain ⟨t₁, ht₁, hR⟩ := hstep h h₁
    obtain ⟨t', ht', hR'⟩ := ih hR hrun
    exact ⟨t', run_cons_eq_some.mpr ⟨t₁, ht₁, ht'⟩, hR'⟩

/-- A run is found by a test of the state behind it. -/
theorem exists_run_of_test (step : σ → α → Option σ) (s : σ) (as : List α) (p : σ → Bool)
    (h : (run step s as).any p = true) : ∃ s', run step s as = some s' ∧ p s' = true :=
  (Option.any_eq_true _ _).mp h

instance decidableMeets [∀ s a, Decidable (Q s a)] : ∀ s as, Decidable (Meets step Q s as)
  | _, [] => .isTrue trivial
  | s, a :: as =>
    match h : step s a with
    | none => decidable_of_iff (Q s a) (by simp [Meets, h])
    | some s' =>
      have := decidableMeets s' as
      decidable_of_iff (Q s a ∧ Meets step Q s' as) (by simp [Meets, h])

instance decidableAlways [∀ s, Decidable (P s)] : ∀ s as, Decidable (Always step P s as)
  | s, [] => inferInstanceAs (Decidable (P s))
  | s, a :: as =>
    match h : step s a with
    | none => decidable_of_iff (P s) (by simp [Always, h])
    | some s' =>
      have := decidableAlways s' as
      decidable_of_iff (P s ∧ Always step P s' as) (by simp [Always, h])

/-- What every step that meets the condition preserves, a run of such steps preserves. -/
theorem run_invariant (hstep : ∀ {s a s'}, P s → Q s a → step s a = some s' → P s')
    (hs : P s) (hQ : Meets step Q s as) (hrun : run step s as = some s') : P s' := by
  induction as generalizing s with
  | nil =>
    cases hrun
    exact hs
  | cons a as ih =>
    obtain ⟨s₁, h₁, hrun⟩ := run_cons_eq_some.mp hrun
    exact ih (hstep hs hQ.1 h₁) (hQ.2 s₁ h₁) hrun

theorem Meets.and {Q' : σ → α → Prop} (h : Meets step Q s as) (h' : Meets step Q' s as) :
    Meets step (fun s a => Q s a ∧ Q' s a) s as := by
  induction as generalizing s with
  | nil => exact trivial
  | cons a as ih => exact ⟨⟨h.1, h'.1⟩, fun s₁ hs => ih (h.2 s₁ hs) (h'.2 s₁ hs)⟩

/-- A run of a step function that refuses nothing is a fold. -/
theorem run_some {f : σ → α → σ} : run (fun s a => some (f s a)) s as = some (as.foldl f s) := by
  induction as generalizing s with
  | nil => rfl
  | cons a as ih => exact ih

/-- What every step of a fold that meets the condition preserves, the fold preserves. -/
theorem foldl_invariant {f : σ → α → σ} (hstep : ∀ {s a}, P s → Q s a → P (f s a)) (hs : P s)
    (hQ : Meets (fun s a => some (f s a)) Q s as) : P (as.foldl f s) := by
  refine run_invariant (fun hs ha heq => ?_) hs hQ run_some
  rw [← Option.some.inj heq]
  exact hstep hs ha

theorem meets_true : Meets step (fun _ _ => True) s as := by
  induction as generalizing s with
  | nil => exact trivial
  | cons a as ih => exact ⟨trivial, fun _ _ => ih⟩

theorem meets_of_forall {A : α → Prop} (h : ∀ a ∈ as, A a) : Meets step (fun _ a => A a) s as := by
  induction as generalizing s with
  | nil => exact trivial
  | cons a as ih =>
    obtain ⟨ha, has⟩ := List.forall_mem_cons.mp h
    exact ⟨ha, fun _ _ => ih has⟩

theorem Always.head (h : Always step P s as) : P s := by
  cases as with
  | nil => exact h
  | cons a as => exact h.1

theorem Reachable.invariant {s₀ : σ} (h₀ : P s₀)
    (hstep : ∀ {s a s'}, P s → step s a = some s' → P s') (h : Reachable step s₀ s) : P s := by
  obtain ⟨as, hrun⟩ := h
  exact run_invariant (Q := fun _ _ => True) (fun hs _ => hstep hs) h₀ meets_true hrun

/-- If a step keeps the property exactly when it meets the condition, all states of a run have it
exactly when all its steps meet the condition. `R` holds in every run, and `A` of its actions. -/
theorem always_iff_meets {A : α → Prop} (hR : ∀ {s a s'}, R s → A a → step s a = some s' → R s')
    (hstep : ∀ {s a s'}, R s → P s → A a → step s a = some s' → (P s' ↔ Q s a))
    (hr : R s) (hs : P s) (hA : ∀ a ∈ as, A a) (hrun : run step s as = some s') :
    Always step P s as ↔ Meets step Q s as := by
  induction as generalizing s with
  | nil => exact iff_of_true hs trivial
  | cons a as ih =>
    obtain ⟨s₁, h₁, hrun⟩ := run_cons_eq_some.mp hrun
    obtain ⟨ha, has⟩ := List.forall_mem_cons.mp hA
    have hiff := hstep hr hs ha h₁
    have hrest := fun hp => ih (hR hr ha h₁) hp has hrun
    simp only [Always, Meets, h₁, Option.some.injEq, forall_eq']
    constructor
    · rintro ⟨-, h⟩
      have hp : P s₁ := h.head
      exact ⟨hiff.mp hp, (hrest hp).mp h⟩
    · rintro ⟨hq, h⟩
      exact ⟨hs, (hrest (hiff.mpr hq)).mpr h⟩

/-- A property that cannot be regained holds in all states of a run if it holds in the last. -/
theorem always_iff_of_run (hR : ∀ {s a s'}, R s → step s a = some s' → R s')
    (hback : ∀ {s a s'}, R s → step s a = some s' → P s' → P s) (hr : R s)
    (hrun : run step s as = some s') : Always step P s as ↔ P s' := by
  induction as generalizing s with
  | nil =>
    cases hrun
    exact Iff.rfl
  | cons a as ih =>
    obtain ⟨s₁, h₁, hrun⟩ := run_cons_eq_some.mp hrun
    have hrest := ih (hR hr h₁) hrun
    simp only [Always, h₁, Option.some.injEq, forall_eq']
    rw [hrest, and_iff_right_iff_imp]
    intro hp
    exact hback hr h₁ (hrest.mpr hp).head

/-- If a step keeps such a property exactly when it meets the condition, the last state of a run
has it exactly when all steps meet the condition. -/
theorem run_iff_meets (hR : ∀ {s a s'}, R s → step s a = some s' → R s')
    (hstep : ∀ {s a s'}, R s → step s a = some s' → (P s' ↔ P s ∧ Q s a)) (hr : R s) (hs : P s)
    (hrun : run step s as = some s') : P s' ↔ Meets step Q s as := by
  rw [← always_iff_of_run hR (fun hr h₁ hp => ((hstep hr h₁).mp hp).1) hr hrun]
  refine always_iff_meets (A := fun _ => True) (fun hr _ => hR hr) (fun hr hp _ h₁ => ?_) hr hs
    (by simp) hrun
  rw [hstep hr h₁, and_iff_right hp]

end LibWebsocket.Lib
