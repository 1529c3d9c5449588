import Mathlib.Logic.Basic

namespace Transition

-- A run takes one transition per label, in order. Labels carry everything the
-- environment chooses, so a property of every run is a property of every schedule.
inductive Runs {σ α : Type} (step : σ → α → σ → Prop) : σ → List α → σ → Prop where
  | nil {s : σ} : Runs step s [] s
  | cons {s t u : σ} {a : α} {as : List α} : step s a t → Runs step t as u → Runs step s (a :: as) u

variable {σ α : Type} {step : σ → α → σ → Prop} {s t u : σ} {a : α} {as bs : List α}

theorem Runs.single (one : step s a t) : Runs step s [a] t :=
  .cons one .nil

theorem Runs.append (first : Runs step s as t) (second : Runs step t bs u) :
    Runs step s (as ++ bs) u := by
  induction first with
  | nil => exact second
  | cons one _ ih => exact .cons one (ih second)

theorem Runs.snoc (first : Runs step s as t) (last : step t a u) : Runs step s (as ++ [a]) u :=
  first.append (.single last)

theorem Runs.nil_eq (path : Runs step s [] t) : s = t := by
  cases path; rfl

theorem Runs.mono {step' : σ → α → σ → Prop} (sub : ∀ s a t, step s a t → step' s a t)
    (path : Runs step s as t) : Runs step' s as t := by
  induction path with
  | nil => exact .nil
  | cons one _ ih => exact .cons (sub _ _ _ one) ih

-- The induction rule every invariant of this development goes through.
theorem Runs.invariant {inv : σ → Prop} (preserved : ∀ s a t, inv s → step s a t → inv t)
    (start : inv s) (path : Runs step s as t) : inv t := by
  induction path with
  | nil => exact start
  | cons one _ ih => exact ih (preserved _ _ _ start one)

-- The same rule when only the labels a schedule may use are known to keep the
-- property (the other labels are never taken).
theorem Runs.stable {keep : σ → Prop} {allowed : α → Prop}
    (preserved : ∀ s a t, allowed a → keep s → step s a t → keep t)
    (labels : ∀ a ∈ as, allowed a) (start : keep s) (path : Runs step s as t) : keep t := by
  induction path with
  | nil => exact start
  | cons one _ ih =>
    apply ih (fun b member => labels b (List.mem_cons_of_mem _ member))
    exact preserved _ _ _ (labels _ List.mem_cons_self) start one

def Reachable (step : σ → α → σ → Prop) (init s : σ) : Prop :=
  ∃ labels, Runs step init labels s

theorem Reachable.init (step : σ → α → σ → Prop) (init : σ) : Reachable step init init :=
  ⟨[],.nil⟩

theorem Reachable.next {init : σ} (reached : Reachable step init s) (one : step s a t) :
    Reachable step init t := by
  obtain ⟨labels,path⟩ := reached
  exact ⟨labels ++ [a],path.snoc one⟩

theorem Reachable.invariant {inv : σ → Prop} {init : σ}
    (preserved : ∀ s a t, inv s → step s a t → inv t) (start : inv init)
    (reached : Reachable step init s) : inv s := by
  obtain ⟨labels,path⟩ := reached
  exact path.invariant preserved start

-- Executable runs of a partial, deterministic step function: `none` is a label
-- that is not enabled (or a failure the caller records separately).
def run (f : σ → α → Option σ) : σ → List α → Option σ
  | s,[] => some s
  | s,a :: rest => (f s a).bind (run f · rest)

def Taken (f : σ → α → Option σ) (s : σ) (a : α) (t : σ) : Prop := f s a = some t

@[simp] theorem run_nil (f : σ → α → Option σ) (s : σ) : run f s [] = some s := rfl

theorem run_cons (f : σ → α → Option σ) (s : σ) (a : α) (rest : List α) :
    run f s (a :: rest) = (f s a).bind (run f · rest) := rfl

theorem run_exact {f : σ → α → Option σ} : run f s as = some t ↔ Runs (Taken f) s as t := by
  induction as generalizing s with
  | nil =>
    constructor
    · intro same
      cases Option.some.inj same
      exact .nil
    · intro path
      rw [path.nil_eq]; rfl
  | cons a rest ih =>
    constructor
    · intro ran
      cases first : f s a with
      | none => simp [run_cons,first] at ran
      | some middle =>
        rw [run_cons,first,Option.bind_some] at ran
        exact .cons first (ih.mp ran)
    · intro path
      cases path with
      | cons one rest =>
        rw [run_cons,show f s a = _ from one,Option.bind_some]
        exact ih.mpr rest

end Transition
