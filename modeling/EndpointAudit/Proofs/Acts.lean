import EndpointAudit.Graph

namespace EndpointAudit

variable {σ α β γ : Type}

theorem StateM.run_seq (x : StateM σ α) (f : α → StateM σ β) (w : σ) :
    (x >>= f).run w = (f (x.run w).1).run (x.run w).2 :=
  rfl

theorem Except.error_of_bind {ε : Type} {x : Except ε α} {f : α → Except ε β} {e : ε}
    (h : x >>= f = .error e) : x = .error e ∨ ∃ a, x = .ok a ∧ f a = .error e := by
  cases x with
  | error e' =>
    cases h
    exact .inl rfl
  | ok a => exact .inr ⟨a,rfl,h⟩

theorem Except.error_of_mapError {ε ε' : Type} {x : Except ε α} {f : ε → ε'} {e : ε'}
    (h : x.mapError f = .error e) : ∃ e', e = f e' := by
  cases x with
  | error e' => exact ⟨e',(Except.error.inj h).symm⟩
  | ok a => cases h

namespace Act

theorem run_seq (x : Act σ α) (f : α → Act σ β) (w : σ) :
    (x >>= f).run.run w =
      match x.run.run w with
      | (.ok a,w') => (f a).run.run w'
      | (.error e,w') => (.error e,w') := by
  rw [ExceptT.run_bind,StateM.run_seq]
  rcases x.run.run w with ⟨answer,w'⟩
  cases answer <;> rfl

/-- The action leaves a part of the world as it is, even if it fails, and returns only what it may. -/
def Keeps (part : σ → γ) (P : α → Prop) (x : Act σ α) : Prop :=
  ∀ w, part (x.run.run w).2 = part w ∧ ∀ a, (x.run.run w).1 = .ok a → P a

namespace Keeps

variable {part : σ → γ} {P : α → Prop} {Q : β → Prop}

theorem ofPure {a : α} (h : P a) : Keeps part P (pure a : Act σ α) := by
  intro w
  refine ⟨rfl,?_⟩
  intro b hx
  cases hx
  exact h

theorem ofThrow (e : Error) : Keeps part P (throw e : Act σ α) := by
  intro w
  refine ⟨rfl,?_⟩
  intro b hx
  cases hx

theorem ofExcept {r : Except Error α} (h : ∀ a, r = .ok a → P a) :
    Keeps part P (MonadExcept.ofExcept r : Act σ α) := by
  cases r with
  | error e => exact ofThrow e
  | ok a => exact ofPure (h a rfl)

theorem ofBind {x : Act σ α} {f : α → Act σ β} (h : Keeps part P x)
    (hf : ∀ a, P a → Keeps part Q (f a)) : Keeps part Q (x >>= f) := by
  intro w
  obtain ⟨hp,ha⟩ := h w
  rw [run_seq]
  rcases hx : x.run.run w with ⟨answer,w'⟩
  rw [hx] at hp ha
  cases answer with
  | error e =>
    refine ⟨hp,?_⟩
    intro b hx
    cases hx
  | ok a =>
    obtain ⟨hq,hb⟩ := hf a (ha a rfl) w'
    exact ⟨hq.trans hp,hb⟩

end Keeps

/-- The action fails only with errors of a kind. -/
def FailsWith (P : Error → Prop) (x : Act σ α) : Prop :=
  ∀ w e, (x.run.run w).1 = .error e → P e

namespace FailsWith

variable {P Q : Error → Prop}

theorem imp {x : Act σ α} (h : FailsWith P x) (hi : ∀ e, P e → Q e) : FailsWith Q x :=
  fun w e he => hi e (h w e he)

theorem ofPure (a : α) : FailsWith P (pure a : Act σ α) := by
  intro w e he
  cases he

theorem ofThrow {e : Error} (h : P e) : FailsWith P (throw e : Act σ α) := by
  intro w e' he
  cases he
  exact h

theorem ofExcept {r : Except Error α} (h : ∀ e, r = .error e → P e) :
    FailsWith P (MonadExcept.ofExcept r : Act σ α) := by
  cases r with
  | error e => exact ofThrow (h e rfl)
  | ok a => exact ofPure a

theorem ofBind_ok {x : Act σ α} {f : α → Act σ β} (h : FailsWith P x)
    (hf : ∀ w a, (x.run.run w).1 = .ok a → FailsWith P (f a)) : FailsWith P (x >>= f) := by
  intro w e he
  rw [run_seq] at he
  rcases hx : x.run.run w with ⟨answer,w'⟩
  rw [hx] at he
  cases answer with
  | error e' =>
    cases he
    exact h w e (congrArg Prod.fst hx)
  | ok a => exact hf w a (congrArg Prod.fst hx) w' e he

theorem ofBind {x : Act σ α} {f : α → Act σ β} (h : FailsWith P x) (hf : ∀ a, FailsWith P (f a)) :
    FailsWith P (x >>= f) :=
  h.ofBind_ok fun _ a _ => hf a

end FailsWith

end Act

end EndpointAudit
