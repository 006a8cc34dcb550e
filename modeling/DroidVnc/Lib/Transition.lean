import Mathlib.Data.List.Basic
import Mathlib.Data.List.Induction

/-! Runs of a partial, labelled step function. A run stops at the first label
whose step is undefined. `Always` speaks about every state a run reaches and
`Along` about every step it takes, so that an invariant which some steps break
can be tied exactly to a condition on the steps. -/

namespace Transition

variable {σ α : Type*} {step : σ → α → Option σ}

/-- The state after all labels of the list, when every step is defined. -/
def run (step : σ → α → Option σ) : σ → List α → Option σ
  | s, [] => some s
  | s, a :: l => (step s a).bind fun t => run step t l

@[simp] theorem run_nil (s : σ) : run step s [] = some s := rfl

@[simp] theorem run_cons (s : σ) (a : α) (l : List α) :
    run step s (a :: l) = (step s a).bind fun t => run step t l := rfl

theorem run_append (s : σ) (l m : List α) :
    run step s (l ++ m) = (run step s l).bind fun t => run step t m := by
  induction l generalizing s with
  | nil => rfl
  | cons a l ih =>
    simp only [List.cons_append, run_cons, Option.bind_assoc]
    exact Option.bind_congr fun t _ => ih t

theorem run_concat (s : σ) (l : List α) (a : α) :
    run step s (l ++ [a]) = (run step s l).bind fun t => step t a := by
  rw [run_append]
  exact Option.bind_congr fun t _ => by simp

theorem run_concat_eq_some {s u : σ} {l : List α} {a : α} :
    run step s (l ++ [a]) = some u ↔ ∃ t, run step s l = some t ∧ step t a = some u := by
  rw [run_concat, Option.bind_eq_some_iff]

/-- Induction on the last step of a run, for statements about the labels so far
and the state they lead to. -/
theorem run_induction {M : List α → σ → Prop} {s : σ} (nil : M [] s)
    (concat : ∀ l a t u, run step s l = some t → M l t → step t a = some u → M (l ++ [a]) u)
    {l : List α} {t : σ} (h : run step s l = some t) : M l t := by
  induction l using List.reverseRecOn generalizing t with
  | nil => exact Option.some.inj h ▸ nil
  | append_singleton l a ih =>
    obtain ⟨u, hu, hstep⟩ := run_concat_eq_some.mp h
    exact concat l a u t hu (ih hu) hstep

/-- An invariant of every valid step holds after every run of valid labels. -/
theorem run_invariant {J : σ → Prop} {V : α → Prop}
    (hstep : ∀ s a t, V a → J s → step s a = some t → J t) {s t : σ} {l : List α}
    (hl : ∀ a ∈ l, V a) (hs : J s) (h : run step s l = some t) : J t := by
  induction l generalizing s with
  | nil => exact Option.some.inj h ▸ hs
  | cons a l ih =>
    obtain ⟨u, hu, ht⟩ := Option.bind_eq_some_iff.mp h
    exact ih (fun b hb => hl b (by simp [hb])) (hstep s a u (hl a (by simp)) hs hu) ht

/-- With total steps under an invariant, every run of valid labels is defined. -/
theorem run_defined {J : σ → Prop} {V : α → Prop}
    (hstep : ∀ s a, V a → J s → ∃ t, step s a = some t ∧ J t) {s : σ} {l : List α}
    (hl : ∀ a ∈ l, V a) (hs : J s) : ∃ t, run step s l = some t ∧ J t := by
  induction l generalizing s with
  | nil => exact ⟨s, rfl, hs⟩
  | cons a l ih =>
    obtain ⟨u, hu, hJ⟩ := hstep s a (hl a (by simp)) hs
    obtain ⟨t, ht, hJt⟩ := ih (fun b hb => hl b (by simp [hb])) hJ
    exact ⟨t, by simp [hu, ht], hJt⟩

/-- `P` holds in every state the run reaches, the first and the last included. -/
def Always (step : σ → α → Option σ) (P : σ → Prop) : σ → List α → Prop
  | s, [] => P s
  | s, a :: l => P s ∧ ∀ t, step s a = some t → Always step P t l

/-- Every step of the run starts in a state and with a label that meet `G`. -/
def Along (step : σ → α → Option σ) (G : σ → α → Prop) : σ → List α → Prop
  | _, [] => True
  | s, a :: l => G s a ∧ ∀ t, step s a = some t → Along step G t l

theorem Always.head {P : σ → Prop} {s : σ} {l : List α} (h : Always step P s l) : P s := by
  cases l with
  | nil => exact h
  | cons a l => exact h.1

/-- A condition that follows from another on the valid steps of an invariant holds along
every run along which the other does. -/
theorem along_imp {J : σ → Prop} {G H : σ → α → Prop} {V : α → Prop}
    (hstep : ∀ s a t, V a → J s → step s a = some t → J t)
    (hGH : ∀ s a, V a → J s → G s a → H s a) {s : σ} {l : List α} (hl : ∀ a ∈ l, V a)
    (hs : J s) (h : Along step G s l) : Along step H s l := by
  induction l generalizing s with
  | nil => trivial
  | cons a l ih =>
    have hrest : ∀ b ∈ l, V b := fun b hb => hl b (by simp [hb])
    refine ⟨hGH s a (hl a (by simp)) hs h.1, fun t ht => ?_⟩
    exact ih hrest (hstep s a t (hl a (by simp)) hs ht) (h.2 t ht)

/-- Conditions that agree on the valid steps of an invariant hold along the same runs. -/
theorem along_congr {J : σ → Prop} {G H : σ → α → Prop} {V : α → Prop}
    (hstep : ∀ s a t, V a → J s → step s a = some t → J t)
    (hGH : ∀ s a, V a → J s → (G s a ↔ H s a)) {s : σ} {l : List α} (hl : ∀ a ∈ l, V a)
    (hs : J s) : Along step G s l ↔ Along step H s l :=
  ⟨along_imp hstep (fun s a ha hs => (hGH s a ha hs).mp) hl hs,
    along_imp hstep (fun s a ha hs => (hGH s a ha hs).mpr) hl hs⟩

/-- A run whose steps all meet `G` keeps an invariant of the steps that meet `G`. -/
theorem always_of_along {J P : σ → Prop} {G : σ → α → Prop} {V : α → Prop}
    (hJP : ∀ s, J s → P s)
    (good : ∀ s a t, V a → J s → G s a → step s a = some t → J t) {s : σ} {l : List α}
    (hl : ∀ a ∈ l, V a) (hs : J s) (h : Along step G s l) : Always step P s l := by
  induction l generalizing s with
  | nil => exact hJP s hs
  | cons a l ih =>
    refine ⟨hJP s hs, fun t ht => ?_⟩
    exact ih (fun b hb => hl b (by simp [hb])) (good s a t (hl a (by simp)) hs h.1 ht) (h.2 t ht)

/-- What a run reaches whose steps all meet `G`. -/
theorem run_of_along {J : σ → Prop} {G : σ → α → Prop}
    (good : ∀ s a t, J s → G s a → step s a = some t → J t) {s t : σ} {l : List α} (hs : J s)
    (h : Along step G s l) (ht : run step s l = some t) : J t := by
  induction l generalizing s with
  | nil => exact Option.some.inj ht ▸ hs
  | cons a l ih =>
    obtain ⟨u, hu, hrun⟩ := Option.bind_eq_some_iff.mp ht
    exact ih (good s a u hs h.1 hu) (h.2 u hu) hrun

/-- When moreover every step that misses `G` ends in a state without `P`, the
runs that stay in `P` are exactly the runs whose steps all meet `G`. -/
theorem always_iff_along {J P : σ → Prop} {G : σ → α → Prop} {V : α → Prop}
    (hJP : ∀ s, J s → P s)
    (good : ∀ s a t, V a → J s → G s a → step s a = some t → J t)
    (bad : ∀ s a, V a → J s → ¬ G s a → ∃ t, step s a = some t ∧ ¬ P t) {s : σ} {l : List α}
    (hl : ∀ a ∈ l, V a) (hs : J s) : Always step P s l ↔ Along step G s l := by
  refine ⟨fun h => ?_, always_of_along hJP good hl hs⟩
  induction l generalizing s with
  | nil => trivial
  | cons a l ih =>
    have hG : G s a := by
      by_contra hG
      obtain ⟨t, ht, hP⟩ := bad s a (hl a (by simp)) hs hG
      exact hP (h.2 t ht).head
    refine ⟨hG, fun t ht => ?_⟩
    exact ih (fun b hb => hl b (by simp [hb])) (good s a t (hl a (by simp)) hs hG ht) (h.2 t ht)

end Transition
