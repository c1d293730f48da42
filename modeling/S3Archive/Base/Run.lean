import Mathlib.Data.List.Basic

/-!
# Runs of a labelled transition system

`Run step s evs t`: the events `evs` take `s` to `t`. `Run.invariant`,
`Run.length_le` and `Run.exists_final` are the rules by which facts about one
step become facts about runs: what every step keeps holds at the end of a run, a
measure that every step lowers bounds its length, and a measure that can always
be lowered before the end says that the end can be reached.
-/

namespace S3Archive

variable {σ ε : Type}

inductive Run (step : σ → ε → σ → Prop) : σ → List ε → σ → Prop where
  | refl (s : σ) : Run step s [] s
  | step {s t u : σ} {evs : List ε} {ev : ε} : Run step s evs t → step t ev u →
      Run step s (evs ++ [ev]) u

namespace Run

variable {step : σ → ε → σ → Prop} {s t u : σ} {evs : List ε}

theorem cons {ev : ε} (hfirst : step s ev t) (h : Run step t evs u) :
    Run step s (ev :: evs) u := by
  induction h with
  | refl => exact .step (.refl s) hfirst
  | step _ hlast ih => exact .step ih hlast

theorem append {evs' : List ε} (h : Run step s evs t) (h' : Run step t evs' u) :
    Run step s (evs ++ evs') u := by
  induction h' with
  | refl => rwa [List.append_nil]
  | step _ hlast ih =>
    rw [← List.append_assoc]
    exact .step ih hlast

/-- A run is over, or it goes on with a first step. -/
theorem head (h : Run step s evs u) : (evs = [] ∧ u = s) ∨
    ∃ ev t evs', evs = ev :: evs' ∧ step s ev t ∧ Run step t evs' u := by
  induction h with
  | refl => exact .inl ⟨rfl, rfl⟩
  | @step t u evs ev hrun hlast ih =>
    right
    rcases ih with ⟨rfl, rfl⟩ | ⟨ev', t', evs', rfl, hfirst, hrest⟩
    · exact ⟨ev, u, [], rfl, hlast, .refl u⟩
    · exact ⟨ev', t', evs' ++ [ev], rfl, hfirst, hrest.step hlast⟩

/-- What holds in all states that are reached, from the first one on. -/
theorem forall_iff {P : σ → Prop} : (∀ evs t, Run step s evs t → P t) ↔
    P s ∧ ∀ ev t, step s ev t → ∀ evs u, Run step t evs u → P u := by
  constructor
  · intro h
    exact ⟨h _ _ (.refl s), fun ev t hfirst evs u hrest => h _ _ (hrest.cons hfirst)⟩
  · rintro ⟨hs, h⟩ evs t hrun
    rcases hrun.head with ⟨-, rfl⟩ | ⟨ev, t', evs', -, hfirst, hrest⟩
    · exact hs
    · exact h ev t' hfirst evs' t hrest

/-- A run from a state without a step stays there. -/
theorem eq_nil_of_stuck (h : Run step s evs t) (hs : ∀ ev u, ¬ step s ev u) :
    evs = [] ∧ t = s := by
  induction h with
  | refl => exact ⟨rfl, rfl⟩
  | step _ hlast ih =>
    obtain ⟨-, rfl⟩ := ih
    exact absurd hlast (hs _ _)

/-- What holds at first and is kept by the allowed events holds at the end. -/
theorem invariant_of {P : σ → Prop} {ok : ε → Prop} (h : Run step s evs t) (hs : P s)
    (hstep : ∀ a ev b, ok ev → P a → step a ev b → P b) (hok : ∀ ev ∈ evs, ok ev) : P t := by
  induction h with
  | refl => exact hs
  | step _ hlast ih =>
    refine hstep _ _ _ ?_ (ih fun ev hev => hok ev (List.mem_append_left _ hev)) hlast
    exact hok _ (List.mem_append_right _ List.mem_cons_self)

theorem invariant {P : σ → Prop} (h : Run step s evs t) (hs : P s)
    (hstep : ∀ a ev b, P a → step a ev b → P b) : P t := by
  have hok : ∀ ev ∈ evs, (fun _ : ε => True) ev := fun _ _ => trivial
  exact h.invariant_of hs (fun a ev b _ => hstep a ev b) hok

/-- A measure that every step lowers bounds the length of a run. -/
theorem length_le {P : σ → Prop} {m : σ → Nat} (h : Run step s evs t) (hs : P s)
    (hstep : ∀ a ev b, P a → step a ev b → P b)
    (hdec : ∀ a ev b, P a → step a ev b → m b < m a) : evs.length + m t ≤ m s := by
  induction h with
  | refl => simp
  | step hrun hlast ih =>
    have := hdec _ _ _ (hrun.invariant hs hstep) hlast
    rw [List.length_append, List.length_singleton]
    omega

/-- When a measure can be lowered in every state that is not final, a final state is reached. -/
theorem exists_final {P final : σ → Prop} {m : σ → Nat} (hs : P s)
    (hlower : ∀ a, P a → final a ∨ ∃ evs b, Run step a evs b ∧ P b ∧ m b < m a) :
    ∃ evs t, Run step s evs t ∧ P t ∧ final t := by
  induction hm : m s using Nat.strongRecOn generalizing s with
  | ind n ih =>
    subst hm
    rcases hlower s hs with hfinal | ⟨evs, t, hrun, ht, hlt⟩
    · exact ⟨[], s, .refl s, hs, hfinal⟩
    · obtain ⟨evs', u, hrest, hu⟩ := ih (m t) hlt ht rfl
      exact ⟨evs ++ evs', u, hrun.append hrest, hu⟩

end Run

/-- After one task of several has moved, each is the one that moved or was there before. -/
theorem mem_replace {α : Type} {l₁ l₂ : List α} {a x : α} (b : α) (h : x ∈ l₁ ++ a :: l₂) :
    x = a ∨ x ∈ l₁ ++ b :: l₂ := by
  rcases List.mem_append.1 h with h | h
  · exact .inr (List.mem_append_left _ h)
  · rcases List.mem_cons.1 h with rfl | h
    · exact .inl rfl
    · exact .inr (List.mem_append_right _ (List.mem_cons_of_mem _ h))

end S3Archive
