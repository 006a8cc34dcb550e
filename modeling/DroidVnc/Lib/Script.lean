import Mathlib.Data.List.Nodup
import Mathlib.Logic.Function.Basic

/-! A script that several workers may run, each from its start. What they do goes into
one trace. As long as only one of them begins, the trace is what it has done, so that
nothing is done twice and whoever comes to the end has done everything. -/

namespace Script

variable {ι α : Type*}

/-- What each worker that has started has left to do, and what all of them have done. -/
structure State (ι α : Type*) where
  rest : ι → Option (List α) := fun _ => none
  trace : List α := []

/-- The trace is a beginning of the script, and one worker at most goes on from there;
the others have yet to begin. -/
def Single (script : List α) (s : State ι α) : Prop :=
  ∃ l, s.trace ++ l = script ∧ (∀ i m, s.rest i = some m → m = script ∨ m = l) ∧
    (s.trace ≠ [] → ∀ i j, s.rest i = some l → s.rest j = some l → i = j)

variable {script : List α} {s : State ι α} {i : ι} {a : α} {l m : List α}

theorem single_nil (script : List α) : Single script ({} : State ι α) :=
  ⟨script, rfl, by simp, by simp⟩

theorem Single.trace_prefix (h : Single script s) : s.trace <+: script :=
  h.imp fun _ hl => hl.1

/-- A script that has been begun with is not what is left of it. -/
theorem rest_ne_script (h : s.trace ++ l = script) (hbegun : s.trace ≠ []) : l ≠ script := by
  rintro rfl
  exact hbegun (List.append_left_eq_self.mp h)

/-- Who has nothing left to do has done everything. -/
theorem Single.trace_eq (h : Single script s) (hdone : s.rest i = some []) :
    s.trace = script := by
  obtain ⟨l, happ, hrest, -⟩ := h
  rcases hrest i [] hdone with rfl | rfl
  · exact (List.append_eq_nil_iff.mp happ).1
  · rw [← happ, List.append_nil]

theorem Single.count_le_one [DecidableEq α] (h : Single script s) (hnodup : script.Nodup) (a : α) :
    s.trace.count a ≤ 1 :=
  List.nodup_iff_count_le_one.mp (hnodup.sublist h.trace_prefix.sublist) a

/-- When anything has been done, the first step has. -/
theorem Single.head_mem_trace (h : Single (a :: l) s) (hbegun : s.trace ≠ []) : a ∈ s.trace := by
  obtain ⟨m, happ, -⟩ := h
  cases htrace : s.trace with
  | nil => exact absurd htrace hbegun
  | cons b t =>
    rw [htrace, List.cons_append] at happ
    rw [(List.cons.inj happ).1]
    exact List.mem_cons_self

/-- A beginning of a script that has come to a step has all that stands before it. -/
theorem prefix_of_mem {t u v : List α} (h : t <+: u ++ a :: v) (ha : a ∈ t) (hu : a ∉ u) :
    u ++ [a] <+: t := by
  have hstep : u ++ [a] <+: u ++ a :: v := ⟨v, by simp⟩
  rcases List.prefix_or_prefix_of_prefix h hstep with hle | hge
  · rcases List.prefix_concat_iff.mp hle with rfl | hshort
    · exact List.prefix_rfl
    · exact absurd (hshort.subset ha) hu
  · exact hge

section Workers

variable [DecidableEq ι]

def State.start (script : List α) (i : ι) (s : State ι α) : State ι α :=
  { s with rest := Function.update s.rest i (some script) }

/-- A worker does step `a`, with `l` left to do. -/
def State.act (i : ι) (a : α) (l : List α) (s : State ι α) : State ι α :=
  { rest := Function.update s.rest i (some l), trace := s.trace ++ [a] }

@[simp] theorem start_rest_self : (s.start script i).rest i = some script :=
  Function.update_self ..

theorem start_rest_of_ne {j : ι} (hj : j ≠ i) : (s.start script i).rest j = s.rest j :=
  Function.update_of_ne hj ..

@[simp] theorem act_rest_self : (s.act i a l).rest i = some l :=
  Function.update_self ..

theorem act_rest_of_ne {j : ι} (hj : j ≠ i) : (s.act i a l).rest j = s.rest j :=
  Function.update_of_ne hj ..

theorem Single.start (h : Single script s) (i : ι) : Single script (s.start script i) := by
  obtain ⟨l, happ, hrest, honly⟩ := h
  refine ⟨l, happ, fun j m hm => ?_, fun hbegun => ?_⟩
  · by_cases hj : j = i
    · subst hj
      rw [start_rest_self, Option.some_inj] at hm
      exact Or.inl hm.symm
    · rw [start_rest_of_ne hj] at hm
      exact hrest j m hm
  · have hne := rest_ne_script happ hbegun
    have hother : ∀ j, (s.start script i).rest j = some l → s.rest j = some l := by
      intro j hj
      by_cases hji : j = i
      · subst hji
        rw [start_rest_self, Option.some_inj] at hj
        exact absurd hj.symm hne
      · rwa [start_rest_of_ne hji] at hj
    intro j k hj hk
    exact honly hbegun j k (hother j hj) (hother k hk)

/-- A worker may go on, and the first may begin. -/
theorem Single.act (h : Single script s) (hi : s.rest i = some (a :: l))
    (hbegin : a :: l = script → s.trace = []) : Single script (s.act i a l) := by
  obtain ⟨m, happ, hrest, honly⟩ := h
  have hm : m = a :: l := by
    rcases hrest i _ hi with hscript | hm
    · rw [hbegin hscript, List.nil_append] at happ
      rw [happ, hscript]
    · exact hm.symm
  subst hm
  have happ' : s.trace ++ [a] ++ l = script := by
    rw [List.append_assoc, List.singleton_append, happ]
  -- the others have yet to begin
  have hothers : ∀ j, j ≠ i → ∀ n, s.rest j = some n → n = script := by
    intro j hj n hn
    rcases hrest j n hn with hscript | rfl
    · exact hscript
    · by_cases hempty : s.trace = []
      · rw [← happ, hempty, List.nil_append]
      · exact absurd (honly hempty j i hn hi) hj
  refine ⟨l, happ', fun j n hn => ?_, fun hbegun j k hj hk => ?_⟩
  · by_cases hji : j = i
    · subst hji
      rw [act_rest_self, Option.some_inj] at hn
      exact Or.inr hn.symm
    · rw [act_rest_of_ne hji] at hn
      exact Or.inl (hothers j hji n hn)
  · have hne : l ≠ script := rest_ne_script (s := s.act i a l) happ' hbegun
    have hself : ∀ j, (s.act i a l).rest j = some l → j = i := by
      intro j hj
      by_contra hji
      rw [act_rest_of_ne hji] at hj
      exact hne (hothers j hji l hj)
    rw [hself j hj, hself k hk]

end Workers

end Script
