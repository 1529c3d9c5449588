import Mathlib.Order.Defs.Unbundled

namespace Frame

variable {σ ε α β : Type}

-- Running a state-and-error computation: a successful run is inverted into its
-- two halves, so proofs peel a do block apart without unfolding the monad.
theorem bind_ok {m : StateT σ (Except ε) α} {f : α → StateT σ (Except ε) β} {s u : σ} {b : β} :
    (m >>= f) s = .ok (b,u) ↔ ∃ a t, m s = .ok (a,t) ∧ f a t = .ok (b,u) := by
  simp only [bind,StateT.bind,Except.bind]
  cases m s with
  | error e => simp
  | ok r => obtain ⟨a,t⟩ := r; simp [and_assoc]

theorem bind_of_ok {m : StateT σ (Except ε) α} {f : α → StateT σ (Except ε) β} {s t : σ} {a : α}
    (first : m s = .ok (a,t)) : (m >>= f) s = f a t := by
  simp only [bind,StateT.bind,Except.bind,first]

theorem bind_of_error {m : StateT σ (Except ε) α} {f : α → StateT σ (Except ε) β} {s : σ} {e : ε}
    (first : m s = .error e) : (m >>= f) s = .error e := by
  simp only [bind,StateT.bind,Except.bind,first]

@[simp] theorem pure_run (a : α) (s : σ) : (pure a : StateT σ (Except ε) α) s = .ok (a,s) := rfl
@[simp] theorem get_run (s : σ) : (get : StateT σ (Except ε) σ) s = .ok (s,s) := rfl
@[simp] theorem set_run (s t : σ) : (set t : StateT σ (Except ε) PUnit) s = .ok (⟨⟩,t) := rfl
@[simp] theorem modify_run (f : σ → σ) (s : σ) :
    (modify f : StateT σ (Except ε) PUnit) s = .ok (⟨⟩,f s) := rfl
@[simp] theorem throw_run (e : ε) (s : σ) : (throw e : StateT σ (Except ε) α) s = .error e := rfl

@[simp] theorem get_bind (f : σ → StateT σ (Except ε) β) (s : σ) : (get >>= f) s = f s s := rfl
@[simp] theorem modify_bind (g : σ → σ) (f : PUnit → StateT σ (Except ε) β) (s : σ) :
    (modify g >>= f) s = f ⟨⟩ (g s) := rfl
@[simp] theorem throw_bind (e : ε) (f : α → StateT σ (Except ε) β) (s : σ) :
    (throw e >>= f) s = .error e := rfl
@[simp] theorem pure_bind_run (a : α) (f : α → StateT σ (Except ε) β) (s : σ) :
    (pure a >>= f) s = f a s := rfl

-- Every successful run of m relates its start and end states by R; a run
-- that throws promises nothing.
def Keeps (R : σ → σ → Prop) (m : StateT σ (Except ε) α) : Prop :=
  ∀ s a t, m s = .ok (a,t) → R s t

-- The two shapes of R this is used with: a property carried forward, and a
-- part of the state left as it was.
def Sustains (Q : σ → Prop) (s t : σ) : Prop := Q s → Q t
def Same (f : σ → β) (s t : σ) : Prop := f t = f s

-- What every successful run of m returns.
def Yields (P : α → Prop) (m : StateT σ (Except ε) α) : Prop :=
  ∀ s a t, m s = .ok (a,t) → P a

instance (Q : σ → Prop) : Std.Refl (Sustains Q) := ⟨fun _ held => held⟩
instance (Q : σ → Prop) : IsTrans σ (Sustains Q) := ⟨fun _ _ _ first second held => second (first held)⟩
instance (f : σ → β) : Std.Refl (Same f) := ⟨fun _ => rfl⟩
instance (f : σ → β) : IsTrans σ (Same f) := ⟨fun _ _ _ first second => Eq.trans second first⟩

section Rules

variable {R : σ → σ → Prop} {m : StateT σ (Except ε) α} {f : α → StateT σ (Except ε) β}

theorem Keeps.pure [Std.Refl R] (a : α) : Keeps R (Pure.pure a : StateT σ (Except ε) α) := by
  intro s b t ran
  cases ran
  exact Std.Refl.refl s

theorem Keeps.get [Std.Refl R] : Keeps R (MonadState.get : StateT σ (Except ε) σ) := by
  intro s b t ran
  cases ran
  exact Std.Refl.refl s

theorem Keeps.modify {g : σ → σ} (moved : ∀ s, R s (g s)) :
    Keeps R (MonadState.modifyGet (fun s => (PUnit.unit,g s)) : StateT σ (Except ε) PUnit) := by
  intro s b t ran
  cases ran
  exact moved s

theorem Keeps.throw (e : ε) : Keeps R (MonadExcept.throw e : StateT σ (Except ε) α) := by
  intro s b t ran
  cases ran

-- A do block's early exit: what follows a throw never runs.
theorem Keeps.throw_bind (e : ε) (f : α → StateT σ (Except ε) β) : Keeps R (MonadExcept.throw e >>= f) := by
  intro s b t ran
  cases ran

theorem Keeps.bind [IsTrans σ R] (first : Keeps R m) (rest : ∀ a, Keeps R (f a)) : Keeps R (m >>= f) := by
  intro s b u ran
  obtain ⟨a,t,one,two⟩ := bind_ok.mp ran
  exact IsTrans.trans _ _ _ (first s a t one) (rest a t b u two)

theorem Keeps.ite {c : Prop} [Decidable c] {m' : StateT σ (Except ε) α} (yes : Keeps R m) (no : Keeps R m') :
    Keeps R (if c then m else m') := by
  split
  · exact yes
  · exact no

theorem Keeps.mono {R' : σ → σ → Prop} (weaker : ∀ s t, R s t → R' s t) (kept : Keeps R m) : Keeps R' m :=
  fun s a t ran => weaker s t (kept s a t ran)

theorem Keeps.map {f : σ → β} {γ : Type} (g : β → γ) (kept : Keeps (Same f) m) : Keeps (Same fun s => g (f s)) m :=
  fun s a t ran => congrArg g (kept s a t ran)

-- A loop over a list, the shape of the C for loops over page slots.
theorem Keeps.forM [Std.Refl R] [IsTrans σ R] {body : α → StateT σ (Except ε) PUnit}
    (each : ∀ a, Keeps R (body a)) : ∀ xs : List α, Keeps R (xs.forM body)
  | [] => Keeps.pure _
  | x :: xs => by
    exact (each x).bind fun _ => Keeps.forM each xs

theorem Keeps.mapM [Std.Refl R] [IsTrans σ R] {body : α → StateT σ (Except ε) β} :
    ∀ xs : List α, (∀ a ∈ xs, Keeps R (body a)) → Keeps R (xs.mapM body)
  | [],_ => Keeps.pure _
  | x :: xs,each => by
    rw [List.mapM_cons]
    exact (each x List.mem_cons_self).bind fun _ =>
      (Keeps.mapM xs fun a mem => each a (List.mem_cons_of_mem _ mem)).bind fun _ => Keeps.pure _

-- A bind whose continuation may use what the first computation returned.
theorem Keeps.bind_yields [IsTrans σ R] {P : α → Prop} (yields : Yields P m) (first : Keeps R m)
    (rest : ∀ a, P a → Keeps R (f a)) : Keeps R (m >>= f) := by
  intro s b u ran
  obtain ⟨a,t,one,two⟩ := bind_ok.mp ran
  exact IsTrans.trans _ _ _ (first s a t one) (rest a (yields s a t one) t b u two)

end Rules

section Results

variable {P : β → Prop} {m : StateT σ (Except ε) α} {f : α → StateT σ (Except ε) β}

theorem Yields.pure {b : β} (holds : P b) : Yields P (Pure.pure b : StateT σ (Except ε) β) := by
  intro s a t ran
  cases ran
  exact holds

theorem Yields.throw (e : ε) : Yields P (MonadExcept.throw e : StateT σ (Except ε) β) := by
  intro s a t ran
  cases ran

theorem Yields.bind (rest : ∀ a, Yields P (f a)) : Yields P (m >>= f) := by
  intro s b u ran
  obtain ⟨a,t,-,two⟩ := bind_ok.mp ran
  exact rest a t b u two

theorem Yields.ite {c : Prop} [Decidable c] {m m' : StateT σ (Except ε) β} (yes : Yields P m) (no : Yields P m') :
    Yields P (if c then m else m') := by
  split
  · exact yes
  · exact no

end Results

end Frame
