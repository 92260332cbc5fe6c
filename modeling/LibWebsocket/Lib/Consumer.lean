import Mathlib.Data.List.Infix
import Mathlib.Tactic.Common

/-! Machines that consume a growing input. One tick either fails, waits for more input,
or moves to a new state, leaving some input unread and writing some output. A run ticks
until the machine waits. On a domain where more input never changes a tick that was
already possible, a run may be cut anywhere. -/
namespace LibWebsocket.Lib

variable {σ α ω ε : Type*}

/-- What a run leaves: the state, the unread input and the output. -/
abbrev Consumer.Rest (σ α ω : Type*) := σ × List α × List ω

structure Consumer (σ α ω ε : Type*) where
  tick : σ → List α → Except ε (Option (Consumer.Rest σ α ω))
  size : σ → List α → ℕ
  tick_size : ∀ {s b s' b' o}, tick s b = .ok (some (s', b', o)) → size s' b' < size s b

namespace Consumer

/-- Put output in front of what a run writes. -/
def Rest.after (o : List ω) (r : Rest σ α ω) : Rest σ α ω := (r.1, r.2.1, o ++ r.2.2)

@[simp] theorem Rest.after_nil (r : Rest σ α ω) : Rest.after [] r = r := rfl

@[simp] theorem Rest.after_after (o o' : List ω) (r : Rest σ α ω) :
    Rest.after o (Rest.after o' r) = Rest.after (o ++ o') r := by
  simp [Rest.after]

def run (M : Consumer σ α ω ε) (s : σ) (b : List α) : Except ε (Rest σ α ω) :=
  match _h : M.tick s b with
  | .error e => .error e
  | .ok none => .ok (s, b, [])
  | .ok (some (s', b', o)) => (M.run s' b').map (Rest.after o)
termination_by M.size s b
decreasing_by exact M.tick_size _h

variable (M : Consumer σ α ω ε) {s s' : σ} {b b' : List α} {o : List ω} {e : ε}

theorem run_of_error (h : M.tick s b = .error e) : M.run s b = .error e := by
  rw [run]
  split <;> simp_all

theorem run_of_wait (h : M.tick s b = .ok none) : M.run s b = .ok (s, b, []) := by
  rw [run]
  split <;> simp_all

theorem run_of_tick (h : M.tick s b = .ok (some (s', b', o))) :
    M.run s b = (M.run s' b').map (Rest.after o) := by
  rw [run]
  split <;> simp_all

/-- A run that returns takes its first tick and goes on. -/
theorem run_eq_ok_of_tick {s₁ : σ} {b₁ : List α} {o₁ : List ω}
    (ht : M.tick s b = .ok (some (s₁, b₁, o₁))) (h : M.run s b = .ok (s', b', o)) :
    ∃ o₂, M.run s₁ b₁ = .ok (s', b', o₂) ∧ o = o₁ ++ o₂ := by
  rw [M.run_of_tick ht] at h
  rcases hr : M.run s₁ b₁ with e | ⟨s₂, b₂, o₂⟩
  · rw [hr] at h
    cases h
  · rw [hr] at h
    cases h
    exact ⟨o₂, rfl, rfl⟩

/-- Ticks lead the machine from one configuration to another. -/
inductive Steps : σ → List α → List ω → σ → List α → Prop
  | refl (s : σ) (b : List α) : Steps s b [] s b
  | head {s s' s'' : σ} {b b' b'' : List α} {o o' : List ω} :
      M.tick s b = .ok (some (s', b', o)) → Steps s' b' o' s'' b'' → Steps s b (o ++ o') s'' b''

theorem run_of_steps (h : M.Steps s b o s' b') : M.run s b = (M.run s' b').map (Rest.after o) := by
  induction h with
  | refl s b => cases M.run s b <;> rfl
  | head ht _ ih =>
    rw [M.run_of_tick ht, ih]
    cases M.run _ _ <;> simp [Except.map]

theorem steps_of_tick (h : M.tick s b = .ok (some (s', b', o))) : M.Steps s b o s' b' := by
  simpa using Steps.head h (.refl s' b')

theorem steps_size_le (h : M.Steps s b o s' b') : M.size s' b' ≤ M.size s b := by
  induction h with
  | refl => exact le_refl _
  | head ht _ ih => exact ih.trans (M.tick_size ht).le

/-- A run returns exactly where ticks lead to a configuration that waits. -/
theorem run_eq_ok_iff :
    M.run s b = .ok (s', b', o) ↔ M.Steps s b o s' b' ∧ M.tick s' b' = .ok none := by
  constructor
  · induction hn : M.size s b using Nat.strong_induction_on generalizing s b o with
    | _ n ih =>
      intro h
      rcases ht : M.tick s b with e | _ | ⟨s₁, b₁, o₁⟩
      · simp [M.run_of_error ht] at h
      · rw [M.run_of_wait ht] at h
        cases h
        exact ⟨.refl _ _, ht⟩
      · rw [M.run_of_tick ht] at h
        rcases hr : M.run s₁ b₁ with e | ⟨s₂, b₂, o₂⟩
        · simp [hr, Except.map] at h
        · rw [hr] at h
          cases h
          obtain ⟨hs, hw⟩ := ih _ (hn ▸ M.tick_size ht) rfl hr
          exact ⟨.head ht hs, hw⟩
  · rintro ⟨hs, hw⟩
    rw [M.run_of_steps hs, M.run_of_wait hw]
    simp [Except.map, Rest.after]

/-- A run returns exactly if no configuration on its way fails. -/
theorem run_isOk_iff :
    (∃ r, M.run s b = .ok r) ↔ ∀ o s' b', M.Steps s b o s' b' → ∃ t, M.tick s' b' = .ok t := by
  constructor
  · rintro ⟨r, hr⟩ o s' b' hs
    rcases ht : M.tick s' b' with e | t
    · rw [M.run_of_steps hs, M.run_of_error ht] at hr
      cases hr
    · exact ⟨t, rfl⟩
  · induction hn : M.size s b using Nat.strong_induction_on generalizing s b with
    | _ n ih =>
      intro h
      obtain ⟨t, ht⟩ := h _ _ _ (.refl s b)
      rcases t with _ | ⟨s₁, b₁, o₁⟩
      · exact ⟨_, M.run_of_wait ht⟩
      · obtain ⟨r, hr⟩ := ih _ (hn ▸ M.tick_size ht) rfl fun o s' b' hs => h _ _ _ (.head ht hs)
        exact ⟨_, by rw [M.run_of_tick ht, hr]; rfl⟩

/-- A run that fails has reached a configuration whose tick fails. -/
theorem exists_tick_error (h : M.run s b = .error e) : ∃ s' b', M.tick s' b' = .error e := by
  induction hn : M.size s b using Nat.strong_induction_on generalizing s b with
  | _ n ih =>
    rcases ht : M.tick s b with e' | _ | ⟨s₁, b₁, o₁⟩
    · rw [M.run_of_error ht] at h
      cases h
      exact ⟨s, b, ht⟩
    · rw [M.run_of_wait ht] at h
      cases h
    · rw [M.run_of_tick ht] at h
      rcases hr : M.run s₁ b₁ with e' | r
      · rw [hr] at h
        cases h
        exact ih _ (hn ▸ M.tick_size ht) hr rfl
      · rw [hr] at h
        cases h

/-- What every tick preserves, a run preserves. -/
theorem Steps.invariant {P : σ → List α → Prop}
    (htick : ∀ {s b s' b' o}, P s b → M.tick s b = .ok (some (s', b', o)) → P s' b')
    (h : M.Steps s b o s' b') (hp : P s b) : P s' b' := by
  induction h with
  | refl => exact hp
  | head ht _ ih => exact ih (htick hp ht)

/-- What holds before a tick and of all configurations behind it holds of all that ticks lead to. -/
theorem forall_steps_of_tick {P : σ → List α → Prop} (ht : M.tick s b = .ok (some (s', b', o)))
    (hp : P s b) (h : ∀ o₁ s₁ b₁, M.Steps s' b' o₁ s₁ b₁ → P s₁ b₁) :
    ∀ o₁ s₁ b₁, M.Steps s b o₁ s₁ b₁ → P s₁ b₁ := by
  intro o₁ s₁ b₁ hs
  cases hs with
  | refl => exact hp
  | head ht' hs =>
    rw [ht] at ht'
    cases ht'
    exact h _ _ _ hs

/-- A configuration that waits leads to no other. -/
theorem forall_steps_of_wait {P : σ → List α → Prop} (ht : M.tick s b = .ok none) (hp : P s b) :
    ∀ o₁ s₁ b₁, M.Steps s b o₁ s₁ b₁ → P s₁ b₁ := by
  intro o₁ s₁ b₁ hs
  cases hs with
  | refl => exact hp
  | head ht' _ =>
    rw [ht] at ht'
    cases ht'

/-- A domain that prefixes and ticks stay inside, and where more input does not change a
tick that was already possible. -/
structure Stable (D : σ → List α → Prop) : Prop where
  take : ∀ {s b x}, D s (b ++ x) → D s b
  tick : ∀ {s b s' b' o}, D s b → M.tick s b = .ok (some (s', b', o)) → D s' b'
  grow : ∀ {s b s' b' o x}, D s (b ++ x) → M.tick s b = .ok (some (s', b', o)) →
    M.tick s (b ++ x) = .ok (some (s', b' ++ x, o))
  fail : ∀ {s b x e}, D s (b ++ x) → M.tick s b = .error e → M.tick s (b ++ x) = .error e

variable {M} {D : σ → List α → Prop}

/-- Stability from one equation: a tick that does anything leaves what follows alone. -/
theorem Stable.of_tick_append (htake : ∀ {s b x}, D s (b ++ x) → D s b)
    (htick : ∀ {s b s' b' o}, D s b → M.tick s b = .ok (some (s', b', o)) → D s' b')
    (happend : ∀ {s b x}, D s (b ++ x) → M.tick s b ≠ .ok none →
      M.tick s (b ++ x) = (M.tick s b).map (Option.map fun r => (r.1, r.2.1 ++ x, r.2.2))) :
    M.Stable D where
  take := htake
  tick := htick
  grow := by
    intro s b s' b' o x hs h
    rw [happend hs (by simp [h]), h]
    rfl
  fail := by
    intro s b x e hs h
    rw [happend hs (by simp [h]), h]
    rfl

/-- Input that arrives in two pieces is consumed as if it had arrived at once. -/
theorem Stable.run_append (hD : M.Stable D) (s : σ) (b x : List α) (hs : D s (b ++ x)) :
    M.run s (b ++ x) =
      (M.run s b).bind fun r => (M.run r.1 (r.2.1 ++ x)).map (Rest.after r.2.2) := by
  induction hn : M.size s b using Nat.strong_induction_on generalizing s b with
  | _ n ih =>
    rcases ht : M.tick s b with e | _ | ⟨s', b', o⟩
    · rw [M.run_of_error ht, M.run_of_error (hD.fail hs ht)]
      rfl
    · rw [M.run_of_wait ht]
      simp only [Except.bind]
      cases M.run s (b ++ x) <;> simp [Except.map]
    · have hg := hD.grow hs ht
      rw [M.run_of_tick ht, M.run_of_tick hg, ih _ (hn ▸ M.tick_size ht) s' b' (hD.tick hs hg) rfl]
      cases M.run s' b' with
      | error e => rfl
      | ok r =>
        simp only [Except.bind, Except.map, Rest.after]
        generalize M.run r.1 (r.2.1 ++ x) = q
        cases q <;> simp

/-- A run on all of the input goes through the configuration where a part of it ends. -/
theorem Stable.run_append_eq_ok (hD : M.Stable D) {x : List α} (hs : D s (b ++ x))
    (h : M.run s (b ++ x) = .ok (s', b', o)) : ∃ s₁ b₁ o₁ o₂, M.run s b = .ok (s₁, b₁, o₁) ∧
      M.run s₁ (b₁ ++ x) = .ok (s', b', o₂) ∧ o = o₁ ++ o₂ := by
  rw [hD.run_append s b x hs] at h
  rcases hrun : M.run s b with e | ⟨s₁, b₁, o₁⟩
  · rw [hrun] at h
    cases h
  · rw [hrun, Except.bind] at h
    rcases hrest : M.run s₁ (b₁ ++ x) with e | ⟨s₂, b₂, o₂⟩
    · rw [hrest] at h
      cases h
    · rw [hrest] at h
      cases h
      exact ⟨s₁, b₁, o₁, o₂, rfl, hrest, rfl⟩

/-- Ticks on part of the input are ticks on all of it. -/
theorem Stable.steps_append (hD : M.Stable D) {x : List α} (h : M.Steps s b o s' b')
    (hs : D s (b ++ x)) : M.Steps s (b ++ x) o s' (b' ++ x) ∧ D s' (b' ++ x) := by
  induction h with
  | refl => exact ⟨.refl _ _, hs⟩
  | head ht _ ih =>
    have hg := hD.grow hs ht
    obtain ⟨hsteps, hend⟩ := ih (hD.tick hs hg)
    exact ⟨.head hg hsteps, hend⟩

/-- Two machines that tick alike on a domain of the first run alike on it. -/
theorem run_congr {M' : Consumer σ α ω ε} (hM : ∀ {s b}, D s b → M'.tick s b = M.tick s b)
    (htick : ∀ {s b s' b' o}, D s b → M.tick s b = .ok (some (s', b', o)) → D s' b')
    (hs : D s b) : M'.run s b = M.run s b := by
  induction hn : M.size s b using Nat.strong_induction_on generalizing s b with
  | _ n ih =>
    rcases ht : M.tick s b with e | _ | ⟨s₁, b₁, o₁⟩
    · rw [M.run_of_error ht, M'.run_of_error ((hM hs).trans ht)]
    · rw [M.run_of_wait ht, M'.run_of_wait ((hM hs).trans ht)]
    · rw [M.run_of_tick ht, M'.run_of_tick ((hM hs).trans ht),
        ih _ (hn ▸ M.tick_size ht) (htick hs ht) rfl]

end Consumer

end LibWebsocket.Lib
