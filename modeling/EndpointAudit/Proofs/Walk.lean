import EndpointAudit.Proofs.Course
import EndpointAudit.Proofs.Transitions
import Mathlib.Data.List.Chain

namespace EndpointAudit.Graph

variable {σ : Type} {g : Graph σ} {cancelled : StateM σ Bool} {observe : Observer σ}

/-- The second visit comes right after the first: it was completed, an edge leads on for its label,
and the run is not cancelled in between. -/
def Follows (edges : List Edge) (cancelled : StateM σ Bool) (observe : Observer σ)
    (v v' : Visit g) : Prop :=
  ∃ patch label w, v.upshot observe = (.completed patch label,w) ∧
    ⟨v.name,label,v'.name⟩ ∈ edges ∧ cancelled.run w = (false,v'.world) ∧
    v'.context = v.context.apply patch

/-- A run that began in the world `w` stands before a stage in the world `w'`. -/
def Awaits (edges : List Edge) (observe : Observer σ) (w : σ) (visits : List (Visit g)) (w' : σ) :
    Prop :=
  match visits.getLast? with
  | none => w' = w
  | some v => ∃ patch label, v.upshot observe = (.completed patch label,w') ∧
      Leaves edges v.name label

/-- The last visit was completed with a label for which no edge leaves its stage. -/
def EndsWith (edges : List Edge) (observe : Observer σ) (visits : List (Visit g)) (label : String) :
    Prop :=
  ∃ v patch w, visits.getLast? = some v ∧ v.upshot observe = (.completed patch label,w) ∧
    ¬ Leaves edges v.name label

theorem Runs.length_le {left s c w r} (h : Runs g cancelled observe left s c w r) :
    r.visits.length ≤ left := by
  induction h with
  | cancelled polled => simp
  | capped polled => simp
  | failed polled visited => simp
  | unheard polled visited => simp
  | finished polled visited last => simp
  | onward polled visited edge rest ih =>
    simp only [Course.after,List.length_cons]
    omega

theorem Runs.head {left s c w r} (h : Runs g cancelled observe left s c w r) {v : Visit g}
    (hv : v ∈ r.visits.head?) :
    v.stage = s ∧ v.context = c ∧ cancelled.run w = (false,v.world) := by
  cases h with
  | cancelled polled => simp at hv
  | capped polled => simp at hv
  | failed polled visited
  | unheard polled visited
  | finished polled visited last
  | onward polled visited edge rest =>
    obtain rfl : _ = v := by simpa [Course.after] using hv
    exact ⟨rfl,rfl,polled⟩

theorem Runs.follows {stages : List (Stage σ)} {edges : List Edge} {start : Option String}
    {cap : Nat} (hb : Built stages edges start cap g) {left s c w r}
    (h : Runs g cancelled observe left s c w r) :
    r.visits.IsChain (Follows edges cancelled observe) := by
  induction h with
  | cancelled polled => simp
  | capped polled => simp
  | failed polled visited => simp
  | unheard polled visited => simp
  | finished polled visited last => simp
  | onward polled visited edge rest ih =>
    refine List.isChain_cons.mpr ⟨?_,ih⟩
    intro v hv
    obtain ⟨rfl,hc,hp⟩ := rest.head hv
    exact ⟨_,_,_,visited,(hb.next_iff _ _ _).mp edge,hp,hc⟩

theorem note?_eq (v : Visit g) :
    v.note? observe = (((g.stageAt v.stage).run v.context).run.run v.world).1.toOption.map
      fun (patch,label) => ⟨v.number,v.name,label,v.context.apply patch⟩ := by
  unfold Visit.note?
  rw [Visit.merged?_eq]

/-- The observer counts without gaps: only the last visit of a run can go unnoted. -/
theorem Runs.note_numbers {left s c w r} (h : Runs g cancelled observe left s c w r)
    (hl : left ≤ g.cap) :
    (r.notes observe).map Note.number =
      List.range' (g.cap - left + 1) (r.notes observe).length := by
  induction h with
  | cancelled polled => rfl
  | capped polled => rfl
  | failed polled visited =>
    simp [Course.notes,Visit.note?,visited,Upshot.merged?]
  | unheard polled visited
  | finished polled visited last =>
    simp only [Course.notes,List.filterMap_cons,List.filterMap_nil,Visit.note?,visited,
      Upshot.merged?,Option.map_some,List.map_cons,List.map_nil,List.length_singleton,
      List.range'_one,List.cons.injEq,and_true]
    omega
  | @onward left _ _ _ _ _ _ _ _ r polled visited edge rest ih =>
    have hn := ih (by omega)
    have hk : g.cap - (left + 1) + 1 = g.cap - left := by omega
    simp only [Course.notes,Course.after,List.filterMap_cons,Visit.note?,visited,
      Upshot.merged?,Option.map_some,List.map_cons,List.length_cons,List.range'_succ] at hn ⊢
    rw [hk]
    exact congrArg (List.cons _) hn

theorem awaits_cons {edges : List Edge} {v : Visit g} {patch label w w₂ w'}
    {rest : List (Visit g)} (visited : v.upshot observe = (.completed patch label,w₂))
    (hl : Leaves edges v.name label) :
    Awaits edges observe w (v :: rest) w' ↔ Awaits edges observe w₂ rest w' := by
  cases rest with
  | nil =>
    simp only [Awaits,List.getLast?_singleton,List.getLast?_nil,visited]
    constructor
    · intro ⟨_,_,he,_⟩
      cases he
      rfl
    · intro hx
      subst hx
      exact ⟨patch,label,rfl,hl⟩
  | cons v' rest => rfl

theorem endsWith_cons {edges : List Edge} {v : Visit g} {patch label w₂ l}
    {rest : List (Visit g)} (visited : v.upshot observe = (.completed patch label,w₂))
    (hl : Leaves edges v.name label) :
    EndsWith edges observe (v :: rest) l ↔ EndsWith edges observe rest l := by
  cases rest with
  | nil =>
    simp only [EndsWith,List.getLast?_singleton,List.getLast?_nil,reduceCtorEq,false_and,
      exists_false,iff_false,not_exists]
    intro v' patch' w ⟨he,hc,hn⟩
    cases he
    rw [visited] at hc
    cases hc
    exact hn hl
  | cons v' rest => rfl

section Stops

variable {stages : List (Stage σ)} {edges : List Edge} {start : Option String} {cap left : Nat}
  {s : Fin g.stages.length} {c : Context} {w : σ} {r : Course g}

theorem not_awaits_finished (hb : Built stages edges start cap g) {v : Visit g} {patch label w₂ w'}
    (visited : v.upshot observe = (.completed patch label,w₂))
    (last : g.next? v.stage label = none) : ¬ Awaits edges observe w [v] w' := by
  intro ⟨patch',label',hc,hl⟩
  rw [List.getLast_singleton] at hc hl
  rw [visited] at hc
  cases hc
  exact hb.not_leaves last hl

theorem Runs.stop_cancelled_iff (hb : Built stages edges start cap g)
    (h : Runs g cancelled observe left s c w r) :
    r.stop = .cancelled ↔
      ∃ w', Awaits edges observe w r.visits w' ∧ (cancelled.run w').1 = true := by
  induction h with
  | cancelled polled => simp [Awaits,polled]
  | capped polled => simp [Awaits,polled]
  | failed polled visited => simp [Awaits,visited]
  | unheard polled visited => simp [Awaits,visited]
  | finished polled visited last =>
    simp [not_awaits_finished hb visited last]
  | onward polled visited edge rest ih =>
    have hl := (hb.next_isSome_iff _ _).mp (Option.isSome_of_eq_some edge)
    simpa only [Course.after,awaits_cons visited hl] using ih

/-- The cap stops a run only where it stands before a stage with all executions used up; whether it
is cancelled was asked before. -/
theorem Runs.stop_capped_iff (hb : Built stages edges start cap g)
    (h : Runs g cancelled observe left s c w r) :
    r.stop = .capped ↔ r.visits.length = left ∧
      ∃ w', Awaits edges observe w r.visits w' ∧ (cancelled.run w').1 = false := by
  induction h with
  | cancelled polled => simp [Awaits,polled]
  | capped polled => simp [Awaits,polled]
  | failed polled visited => simp [Awaits,visited]
  | unheard polled visited => simp [Awaits,visited]
  | finished polled visited last =>
    simp [not_awaits_finished hb visited last]
  | onward polled visited edge rest ih =>
    have hl := (hb.next_isSome_iff _ _).mp (Option.isSome_of_eq_some edge)
    simpa only [Course.after,List.length_cons,Nat.add_right_cancel_iff,awaits_cons visited hl]
      using ih

theorem Runs.stop_finished_iff (hb : Built stages edges start cap g)
    (h : Runs g cancelled observe left s c w r) (label : String) :
    r.stop = .finished label ↔ EndsWith edges observe r.visits label := by
  induction h with
  | cancelled polled => simp [EndsWith]
  | capped polled => simp [EndsWith]
  | failed polled visited => simp [EndsWith,visited]
  | unheard polled visited => simp [EndsWith,visited]
  | finished polled visited last =>
    have hl := hb.not_leaves last
    simp only [Stop.finished.injEq,EndsWith,List.getLast?_singleton,Option.some.injEq]
    constructor
    · intro hx
      subst hx
      exact ⟨_,_,_,rfl,visited,hl⟩
    · intro hx
      obtain ⟨v,patch,w',rfl,hc,_⟩ := hx
      rw [visited] at hc
      cases hc
      rfl
  | onward polled visited edge rest ih =>
    have hl := (hb.next_isSome_iff _ _).mp (Option.isSome_of_eq_some edge)
    simpa only [Course.after,endsWith_cons visited hl] using ih

end Stops

theorem Stop.outcome_ok_iff {stop : Stop} {cap : Nat} {label : String} :
    stop.outcome cap = .ok label ↔ stop = .finished label := by
  cases stop <;> simp [Stop.outcome]

/-- A part of the world in which nothing but the observer writes, and in which it writes down all that
it is told. -/
structure Ledger (stages : List (Stage σ)) (cancelled : StateM σ Bool) (observe : Observer σ)
    (ledger : σ → List Note) : Prop where
  observed : ∀ number stage label c w,
    ledger ((observe number stage label c).run.run w).2 = ledger w ++ [⟨number,stage,label,c⟩]
  worked : ∀ stage ∈ stages, ∀ c w, ledger ((stage.run c).run.run w).2 = ledger w
  polled : ∀ w, ledger (cancelled.run w).2 = ledger w

theorem Ledger.upshot {ledger : σ → List Note} (k : Ledger g.stages cancelled observe ledger)
    (v : Visit g) :
    ledger (v.upshot observe).2 = ledger v.world ++ (v.note? observe).toList := by
  rw [note?_eq]
  have hw : ledger (((g.stageAt v.stage).run v.context).run.run v.world).2 = ledger v.world :=
    k.worked _ (List.getElem_mem v.stage.isLt) v.context v.world
  unfold Visit.upshot
  rcases hs : ((g.stageAt v.stage).run v.context).run.run v.world with ⟨answer,w⟩
  rw [hs] at hw
  cases answer with
  | error e => simpa [Except.toOption] using hw
  | ok returned =>
    obtain ⟨patch,label⟩ := returned
    have ho := k.observed v.number v.name label (v.context.apply patch) w
    rw [hw] at ho
    simp only
    rcases ht : (observe v.number v.name label (v.context.apply patch)).run.run w with ⟨heard,w'⟩
    rw [ht] at ho
    cases heard <;> exact ho

theorem Ledger.runs {ledger : σ → List Note} (k : Ledger g.stages cancelled observe ledger)
    {left s c w r} (h : Runs g cancelled observe left s c w r) :
    ledger r.world = ledger w ++ r.notes observe := by
  have hp (w : σ) {stop w₁} (polled : cancelled.run w = (stop,w₁)) : ledger w₁ = ledger w := by
    simpa [polled] using k.polled w
  have hu (v : Visit g) {upshot w₂} (visited : v.upshot observe = (upshot,w₂)) :
      ledger w₂ = ledger v.world ++ (v.note? observe).toList := by
    simpa [visited] using k.upshot v
  induction h with
  | cancelled polled
  | capped polled => simpa [Course.notes] using hp _ polled
  | failed polled visited
  | unheard polled visited
  | finished polled visited last =>
    simp only [Course.notes,hu _ visited,hp _ polled,List.filterMap_cons,List.filterMap_nil]
    cases Visit.note? observe _ <;> rfl
  | onward polled visited edge rest ih =>
    simp only [Course.after,Course.notes,List.filterMap_cons] at ih ⊢
    rw [ih,hu _ visited,hp _ polled,List.append_assoc]
    cases Visit.note? observe _ <;> rfl

/-- A run of a built graph walks along its edges from the start, within the cap, and tells the
observer of every stage that does not fail. It ends with the label of the last one if that was
completed and no edge leaves it, at the cap if it would go on with nothing left, and as interrupted if
it would go on but is cancelled by then. -/
theorem run_walks_edges {stages : List (Stage σ)} {edges : List Edge} {start : Option String}
    {m : Nat} (hb : build stages edges start m = .ok g) (cancelled : StateM σ Bool)
    (observe : Observer σ) (c : Context) (w : σ) :
    let r := g.course cancelled observe c w
    (g.run cancelled observe c).run w = (⟨r.stop.outcome m,r.context⟩,r.world) ∧
    r.visits.length ≤ m ∧
    (∀ v ∈ r.visits.head?, start = some v.name ∧ v.context = c) ∧
    r.visits.IsChain (Follows edges cancelled observe) ∧
    (r.notes observe).map Note.number = List.range' 1 (r.notes observe).length ∧
    (∀ v ∈ r.visits, v.note? observe =
      (((g.stageAt v.stage).run v.context).run.run v.world).1.toOption.map
        fun (patch,label) => ⟨v.number,v.name,label,v.context.apply patch⟩) ∧
    (∀ ledger, Ledger g.stages cancelled observe ledger →
      ledger r.world = ledger w ++ r.notes observe) ∧
    (∀ label, r.stop.outcome m = .ok label ↔ EndsWith edges observe r.visits label) ∧
    (r.stop = .capped ↔ r.visits.length = m ∧
      ∃ w', Awaits edges observe w r.visits w' ∧ (cancelled.run w').1 = false) ∧
    (r.stop = .cancelled ↔
      ∃ w', Awaits edges observe w r.visits w' ∧ (cancelled.run w').1 = true) := by
  intro r
  have hg := build_built hb
  have hr : Runs g cancelled observe m g.start c w r := by
    rw [← hg.cap_eq]
    exact course_runs c w
  refine ⟨?_,hr.length_le,?_,hr.follows hg,?_,fun v _ => note?_eq v,fun _ k => k.runs hr,?_,
    hr.stop_capped_iff hg,hr.stop_cancelled_iff hg⟩
  · rw [run_course,Course.ended,hg.cap_eq]
  · intro v hv
    obtain ⟨hs,hc,_⟩ := hr.head hv
    refine ⟨?_,hc⟩
    simpa only [Visit.name,hs] using hg.start_eq
  · have hn := hr.note_numbers (Nat.le_of_eq hg.cap_eq.symm)
    rwa [hg.cap_eq,Nat.sub_self] at hn
  · intro label
    rw [Stop.outcome_ok_iff]
    exact hr.stop_finished_iff hg label

/-- A graph of one stage that does nothing and leads back to itself. -/
def mill (σ : Type) (cap : Nat) : Graph σ where
  stages := [{ name := "turn", run := fun _ => pure ({},defaultLabel) }]
  start := 0
  transitions := [((0,defaultLabel),0)]
  cap

def millEdges : List Edge := [{ source := "turn", target := "turn" }]

/-- The mill stops at its cap, and the observer has counted its turns by then. -/
theorem run_walks_edges_mill :
    let scribe : Observer (List Note) := fun number stage label c =>
      modify (· ++ [⟨number,stage,label,c⟩])
    let r := (mill (List Note) 3).course (pure false) scribe {} []
    build (mill (List Note) 3).stages millEdges (some "turn") 3 = .ok (mill (List Note) 3) ∧
      r.stop = .capped ∧ r.world.map Note.number = [1,2,3] := by
  intro scribe r
  have hb : build (mill (List Note) 3).stages millEdges (some "turn") 3 =
      .ok (mill (List Note) 3) := rfl
  obtain ⟨_,_,_,_,hn,_,hl,_,hc,_⟩ := run_walks_edges hb (pure false) scribe {} []
  have hk : Ledger (mill (List Note) 3).stages (pure false) scribe id := by
    refine ⟨fun _ _ _ _ _ => rfl,?_,fun _ => rfl⟩
    intro stage hs c w
    obtain rfl := List.mem_singleton.mp hs
    rfl
  refine ⟨hb,hc.mpr ⟨rfl,_,⟨_,_,rfl,_,List.mem_singleton_self _,rfl,rfl⟩,rfl⟩,?_⟩
  have hw : r.world = r.notes scribe := hl id hk
  rw [hw,hn]
  rfl

/-- An observer that refuses the last note ends the run with its own failure, although the cap is used
up, an edge leads on and nothing is cancelled. -/
theorem run_refused_note :
    let refuse : Observer Unit := fun _ _ _ _ => throw (.config "observer failed")
    let r := (mill Unit 1).course (pure false) refuse {} ()
    build (mill Unit 1).stages millEdges (some "turn") 1 = .ok (mill Unit 1) ∧
      r.visits.length = 1 ∧
      (∀ v ∈ r.visits, ∃ patch label,
        ((((mill Unit 1).stageAt v.stage).run v.context).run.run v.world).1 = .ok (patch,label) ∧
          Leaves millEdges v.name label) ∧
      ((pure false : StateM Unit Bool).run r.world).1 = false ∧
      ((mill Unit 1).run (pure false) refuse {}).run () =
        (⟨.error (.config "observer failed"),r.context⟩,r.world) := by
  intro refuse r
  refine ⟨rfl,rfl,?_,rfl,rfl⟩
  intro v hv
  obtain rfl := List.mem_singleton.mp hv
  exact ⟨{},defaultLabel,rfl,_,List.mem_singleton_self _,rfl,rfl⟩

end EndpointAudit.Graph
