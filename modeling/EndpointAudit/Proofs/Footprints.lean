import EndpointAudit.Proofs.Effects

namespace EndpointAudit

open EndpointAudit.Path FileTree Relation

namespace FileTree

/-- Two trees that differ at and below a location only. -/
structure Inside (S : Location) (t t' : FileTree) : Prop where
  cwd_eq : t'.cwd = t.cwd
  node : ∀ {loc}, ¬ S <+: loc → t'.node? loc = t.node? loc

theorem Inside.refl (S : Location) (t : FileTree) : Inside S t t :=
  ⟨rfl,fun _ => rfl⟩

theorem inside_put {S rel : Location} (hr : S ++ rel ≠ []) (t : FileTree) (n : Node) :
    Inside S t (t.put (S ++ rel) n) := by
  refine ⟨t.put_cwd _ n,?_⟩
  intro loc hl
  rw [node?_put t hr,if_neg]
  rintro rfl
  exact hl (List.prefix_append S rel)

end FileTree

namespace Session

variable {s : Session} {S : Location} {t t' : FileTree}

theorem Puts.inside (h : Puts S t t') : Inside S t t' := by
  cases h with
  | dir free => exact inside_put (by simp) t _
  | file own writable bytes x => exact inside_put writable.ne_nil t _

theorem Logs.inside {number : Nat} {e : Endpoint} {text : String} (h : Logs S number e text t t') :
    Inside S t t' := by
  cases h with
  | entry writable x => exact inside_put writable.ne_nil t _

variable {ran : FileTree → FileTree → Prop} {w w' : World}

end Session

namespace Pipeline

open Session

variable {p : Pipeline} {s : Session} {S : Location} {ran : FileTree → FileTree → Prop}

end Pipeline

namespace Program

open Session Pipeline

variable {around : Surroundings} {st : Settings} {command : CommandLine.Command} {w : World}

/-- How the flow of an analysis ended, if it began. -/
def flow? (around : Surroundings) (st : Settings) (command : CommandLine.Command) (w : World) :
    Option Graph.Ended :=
  match (Pipeline.start st command.name).run.run w with
  | (.error _,_) => none
  | (.ok c,w) =>
    match openLog st c w with
    | (.error _,_) => none
    | (.ok (),w) =>
      if around.handlerFault.isSome then none
      else some (((pipeline around st).execute c).run w).1

/-- How an analysis begins, goes on and ends. -/
inductive Analyzed (around : Surroundings) (st : Settings) (command : CommandLine.Command) (w : World) :
    Outcome → World → Prop
  | unstarted {e w'} (start : (Pipeline.start st command.name).run.run w = (.error e,w')) :
    Analyzed around st command w (failure e) w'
  | unlogged {c w₁ f w'} (start : (Pipeline.start st command.name).run.run w = (.ok c,w₁))
    (log : openLog st c w₁ = (.error f,w')) :
    Analyzed around st command w (failureText f.message) w'
  | unhandled {c w₁ reason w'} (start : (Pipeline.start st command.name).run.run w = (.ok c,w₁))
    (log : openLog st c w₁ = (.ok (),w')) (handler : around.handlerFault = some reason) :
    Analyzed around st command w
      (failure (.config ("Failed to set Ctrl+C signal handler: " ++ reason))) w'
  | flowed {c w₁ w₂} (start : (Pipeline.start st command.name).run.run w = (.ok c,w₁))
    (log : openLog st c w₁ = (.ok (),w₂)) (handler : around.handlerFault = none) :
    Analyzed around st command w
      (endOutcome (c.session.elim "" Session.dir) (((pipeline around st).execute c).run w₂).1)
      (((pipeline around st).execute c).run w₂).2

theorem endOutcome_code (dir : String) (ended : Graph.Ended) :
    ((endOutcome dir ended).code = 0 ↔ ∃ label, ended.outcome = .ok label) ∧
    ((endOutcome dir ended).code = 130 ↔ ended.outcome = .error .interrupted) ∧
    ((endOutcome dir ended).code = 0 ∨ (endOutcome dir ended).code = 130 ∨
      (endOutcome dir ended).code = 1) := by
  unfold endOutcome
  split
  · rename_i label h
    simp [h]
  · rename_i h
    simp [h]
  · rename_i e hne h
    have he : e ≠ .interrupted := by
      rintro rfl
      exact hne rfl
    simp [h,he,failure,failureText]

/-- The exit code tells how the flow ended. -/
theorem Analyzed.code {o : Outcome} {w' : World} (h : Analyzed around st command w o w') :
    (o.code = 0 ↔ ∃ ended label, flow? around st command w = some ended ∧ ended.outcome = .ok label) ∧
    (o.code = 130 ↔ ∃ ended, flow? around st command w = some ended ∧
      ended.outcome = .error .interrupted) ∧
    (o.code = 0 ∨ o.code = 130 ∨ o.code = 1) := by
  have hfailed {o : Outcome} (ho : o.code = 1) (hflow : flow? around st command w = none) :
      (o.code = 0 ↔ ∃ ended label, flow? around st command w = some ended ∧
        ended.outcome = .ok label) ∧
      (o.code = 130 ↔ ∃ ended, flow? around st command w = some ended ∧
        ended.outcome = .error .interrupted) ∧
      (o.code = 0 ∨ o.code = 130 ∨ o.code = 1) := by
    simp [ho,hflow]
  cases h with
  | unstarted start =>
    refine hfailed rfl ?_
    unfold flow?
    rw [start]
  | unlogged start log =>
    refine hfailed rfl ?_
    unfold flow?
    rw [start]
    simp only
    rw [log]
  | unhandled start log handler =>
    refine hfailed rfl ?_
    unfold flow?
    rw [start]
    simp only
    rw [log,handler]
    rfl
  | @flowed c w₁ w₂ start log handler =>
    have hflow : flow? around st command w = some (((pipeline around st).execute c).run w₂).1 := by
      unfold flow?
      rw [start]
      simp only
      rw [log,handler]
      rfl
    rw [hflow]
    generalize (((pipeline around st).execute c).run w₂).1 = ended
    obtain ⟨hok,hinterrupted,hcodes⟩ := endOutcome_code (c.session.elim "" Session.dir) ended
    exact ⟨by simpa using hok,by simpa using hinterrupted,hcodes⟩

/-- A tree with a session in it, at the time stamp of the street. -/
def visited : FileTree where
  entries := [(["b"],.dir),(["b","t"],.dir)]
  cwd := []

end Program

end EndpointAudit
