import EndpointAudit.Analysis.Task
import Mathlib.Logic.Relation

namespace EndpointAudit.Analysis

namespace Services

variable {s : Services} {w w' : World}

theorem definition_calls {symbol : String} {answer : Except String (Except Error String)}
    (h : s.definition symbol w = (answer,w')) : w'.calls = w.calls :=
  congrArg (·.2.calls) h.symm

theorem answer_calls {i : Nat} {g : Model.Generation} {outcome : Model.Outcome}
    (h : s.answer i g w = (outcome,w')) : w'.calls = w.calls ++ [⟨i,g,outcome⟩] := by
  obtain rfl : (s.answer i g w).1 = outcome := congrArg Prod.fst h
  exact congrArg (·.2.calls) h.symm

theorem answer_files {i : Nat} {g : Model.Generation} {outcome : Model.Outcome}
    (h : s.answer i g w = (outcome,w')) : w'.files = w.files :=
  congrArg (·.2.files) h.symm

theorem log_calls (entry : CallLog.Entry) (w : World) : (s.log entry w).calls = w.calls := by
  unfold log
  split
  · rfl
  · simp only
    split <;> rfl

theorem log_cancelled (entry : CallLog.Entry) (w : World) :
    (s.log entry w).cancelled = w.cancelled := by
  unfold log
  split
  · rfl
  · simp only
    split <;> rfl

end Services

namespace Task

/-- One step of a task that has not ended. A lookup that fails is an answer, and only one that crashes
brings the task down. -/
inductive Steps (s : Services) : Task α → World → Task α → World → Prop
  | read {position next w code} (read : s.code position w = .ok code) :
    Steps s (.readSpan position next) w (next code) w
  | unreadable {position next w e} (read : s.code position w = .error e) :
    Steps s (.readSpan position next) w (.failed e) w
  | found {symbol next w answer w'} (looked : s.definition symbol w = (.ok answer,w')) :
    Steps s (.lookUp symbol next) w (next answer) w'
  | broken {symbol next w message w'} (looked : s.definition symbol w = (.error message,w')) :
    Steps s (.lookUp symbol next) w (.crashed message) w'
  | completed {i g next w text w'} (asked : s.answer i g w = (.completion text,w')) :
    Steps s (.generate i g next) w (next text) w'
  | refused {i g next w e w'} (asked : s.answer i g w = (.failed e,w')) :
    Steps s (.generate i g next) w (.failed e) w'
  | crashed {i g next w message w'} (asked : s.answer i g w = (.crashed message,w')) :
    Steps s (.generate i g next) w (.crashed message) w'
  | noted {entry next w} : Steps s (.note entry next) w next (s.log entry w)

variable {s : Services} {t t' : Task α} {w w' : World}

theorem step_steps (s : Services) (h : t.ending? = none) (w : World) :
    t.Steps s w (t.step s w).1 (t.step s w).2 := by
  cases t with
  | done a | failed e | crashed message => cases h
  | readSpan position next =>
    simp only [step]
    cases hr : s.code position w with
    | ok code => exact .read hr
    | error e => exact .unreadable hr
  | lookUp symbol next =>
    simp only [step]
    rcases hl : s.definition symbol w with ⟨answer,w'⟩
    cases answer with
    | ok answer => exact .found hl
    | error message => exact .broken hl
  | generate i g next =>
    simp only [step]
    rcases ha : s.answer i g w with ⟨outcome,w'⟩
    cases outcome with
    | completion text => exact .completed ha
    | failed e => exact .refused ha
    | crashed message => exact .crashed ha
  | note entry next => exact .noted

theorem Steps.run (h : t.Steps s w t' w') : t.run s w = t'.run s w' := by
  cases h with
  | read h | unreadable h | found h | broken h | completed h | refused h | crashed h =>
    simp only [Task.run,h]
  | noted => rfl

theorem run_ended {ending : Ending α} (h : t.ending? = some ending) (s : Services) (w : World) :
    t.run s w = (ending,w) := by
  cases t <;> cases h <;> rfl

/-- One step, as a relation between a task in a world and what becomes of both. -/
def Next (s : Services) (a b : Task α × World) : Prop :=
  a.1.Steps s a.2 b.1 b.2

theorem run_next (s : Services) (t : Task α) (w : World) :
    ∃ t', Relation.ReflTransGen (Next s) (t,w) (t',(t.run s w).2) ∧
      t'.ending? = some (t.run s w).1 := by
  have hstep {t : Task α} (h : t.ending? = none) {w : World}
      (ih : ∃ t', Relation.ReflTransGen (Next s) ((t.step s w).1,(t.step s w).2)
        (t',((t.step s w).1.run s (t.step s w).2).2) ∧
        t'.ending? = some ((t.step s w).1.run s (t.step s w).2).1) :
      ∃ t', Relation.ReflTransGen (Next s) (t,w) (t',(t.run s w).2) ∧
        t'.ending? = some (t.run s w).1 := by
    have hs := step_steps s h w
    obtain ⟨t',hc,he⟩ := ih
    rw [← hs.run] at hc he
    exact ⟨t',.head hs hc,he⟩
  induction t generalizing w with
  | done a | failed e | crashed message => exact ⟨_,.refl,rfl⟩
  | readSpan position next ih =>
    refine hstep rfl ?_
    simp only [step]
    cases s.code position w with
    | ok code => exact ih code w
    | error e => exact ⟨_,.refl,rfl⟩
  | lookUp symbol next ih =>
    refine hstep rfl ?_
    simp only [step]
    rcases s.definition symbol w with ⟨answer,w'⟩
    cases answer with
    | ok answer => exact ih answer w'
    | error message => exact ⟨_,.refl,rfl⟩
  | generate i g next ih =>
    refine hstep rfl ?_
    simp only [step]
    rcases s.answer i g w with ⟨outcome,w'⟩
    cases outcome with
    | completion text => exact ih text w'
    | failed e | crashed message => exact ⟨_,.refl,rfl⟩
  | note entry next ih =>
    refine hstep rfl ?_
    exact ih (s.log entry w)

/-- What every step keeps holds at the ending. -/
theorem run_keeps {P : Task α → World → Prop}
    (hs : ∀ {t w t' w'}, Steps s t w t' w' → P t w → P t' w') (h : P t w) :
    ∃ t', t'.ending? = some (t.run s w).1 ∧ P t' (t.run s w).2 := by
  obtain ⟨t',hn,he⟩ := run_next s t w
  refine ⟨t',he,?_⟩
  have hk : ∀ {b : Task α × World}, Relation.ReflTransGen (Next s) (t,w) b → P b.1 b.2 := by
    intro b hb
    induction hb with
    | refl => exact h
    | tail _ hn ih => exact hs hn ih
  exact hk hn

end Task

end EndpointAudit.Analysis
