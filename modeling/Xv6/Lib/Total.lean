import Xv6.Lib.Frame

namespace Frame

variable {σ ε α β : Type}

-- Total correctness of a state-and-error computation run from s: it returns a
-- result and a state that Q accepts, or fails with an error that E accepts.
-- Nothing else can happen, so a proof of Ends for a model with fuel also shows
-- that the fuel does not run out where E rejects that error.
def Ends (E : ε → Prop) (Q : α → σ → Prop) (m : StateT σ (Except ε) α) (s : σ) : Prop :=
  (∃ a t, m s = .ok (a,t) ∧ Q a t) ∨ ∃ e, m s = .error e ∧ E e

variable {E : ε → Prop} {P P' : α → σ → Prop} {Q : β → σ → Prop} {m : StateT σ (Except ε) α}
  {f : α → StateT σ (Except ε) β} {s t : σ}

theorem Ends.of_ok {a : α} (run : m s = .ok (a,t)) (holds : P a t) : Ends E P m s :=
  .inl ⟨a,t,run,holds⟩

theorem Ends.of_error {e : ε} (run : m s = .error e) (accepted : E e) : Ends E P m s :=
  .inr ⟨e,run,accepted⟩

theorem Ends.pure {a : α} (holds : P a s) : Ends E P (Pure.pure a) s :=
  .of_ok rfl holds

theorem Ends.throw {e : ε} (accepted : E e) : Ends E P (MonadExcept.throw e) s :=
  .of_error rfl accepted

theorem Ends.bind (first : Ends E P m s) (rest : ∀ a t, P a t → Ends E Q (f a) t) : Ends E Q (m >>= f) s := by
  rcases first with ⟨a,t,run,holds⟩ | ⟨e,run,accepted⟩
  · unfold Ends
    rw [bind_of_ok run]
    exact rest a t holds
  · exact .of_error (bind_of_error run) accepted

theorem Ends.throw_bind {e : ε} (accepted : E e) : Ends E Q (MonadExcept.throw e >>= f) s :=
  .of_error (bind_of_error rfl) accepted

-- A step whose run is known: the rest starts where it ends.
theorem Ends.step {a : α} (run : m s = .ok (a,t)) (rest : Ends E Q (f a) t) : Ends E Q (m >>= f) s := by
  unfold Ends
  rw [bind_of_ok run]
  exact rest

theorem Ends.mono (weaker : ∀ a t, P a t → P' a t) (ends : Ends E P m s) : Ends E P' m s := by
  rcases ends with ⟨a,t,run,holds⟩ | ⟨e,run,accepted⟩
  · exact .of_ok run (weaker a t holds)
  · exact .of_error run accepted

theorem Ends.ok {a : α} (ends : Ends E P m s) (run : m s = .ok (a,t)) : P a t := by
  rcases ends with ⟨a',t',run',holds⟩ | ⟨e,run',-⟩
  · rw [run] at run'
    cases run'
    exact holds
  · rw [run] at run'
    cases run'

theorem Ends.error {e : ε} (ends : Ends E P m s) (run : m s = .error e) : E e := by
  rcases ends with ⟨a,t,run',-⟩ | ⟨e',run',accepted⟩
  · rw [run] at run'
    cases run'
  · rw [run] at run'
    cases run'
    exact accepted

end Frame
