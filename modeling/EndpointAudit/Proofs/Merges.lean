import EndpointAudit.Proofs.Acts
import EndpointAudit.Proofs.Passes
import EndpointAudit.Proofs.Transitions

namespace EndpointAudit.Graph

variable {σ : Type} {g : Graph σ} {cancelled : StateM σ Bool} {observe : Observer σ}

/-- Three phases succeed, each in the world that the one before it left, and end with a patch. -/
inductive Succeed {Prepared Output : Type} (prepare : Context → Act σ Prepared)
    (execute : Prepared → Act σ Output)
    (finalize : Context → Prepared → Output → Act σ (Patch × String)) (c : Context) (w : σ) :
    Patch → Prop
  | all {prepared w₁ output w₂ patch label w₃}
    (prepares : (prepare c).run.run w = (.ok prepared,w₁))
    (executes : (execute prepared).run.run w₁ = (.ok output,w₂))
    (finalizes : (finalize c prepared output).run.run w₂ = (.ok (patch,label),w₃)) :
    Succeed prepare execute finalize c w patch

/-- The patch that a stage returned, if it did not fail. -/
def Visit.patch? (v : Visit g) : Option Patch :=
  (((g.stageAt v.stage).run v.context).run.run v.world).1.toOption.map Prod.fst

theorem Visit.patch?_eq (observe : Observer σ) (v : Visit g) :
    v.patch? = (v.upshot observe).1.merged?.map Prod.fst := by
  rw [merged?_eq]
  rfl

theorem Visit.patch?_of_upshot {v : Visit g} {upshot : Upshot} {w : σ}
    (h : v.upshot observe = (upshot,w)) : v.patch? = upshot.merged?.map Prod.fst := by
  rw [patch?_eq observe,h]

/-- A stage of three phases returns a patch exactly if all of them succeed. -/
theorem Visit.patch?_phases {v : Visit g} {Prepared Output : Type} {name : String}
    {prepare : Context → Act σ Prepared} {execute : Prepared → Act σ Output}
    {finalize : Context → Prepared → Output → Act σ (Patch × String)}
    (hs : g.stageAt v.stage = .ofPhases name prepare execute finalize) (patch : Patch) :
    v.patch? = some patch ↔ Succeed prepare execute finalize v.context v.world patch := by
  unfold patch?
  rw [hs]
  unfold Stage.ofPhases
  simp only
  constructor
  · intro h
    rw [Act.run_seq] at h
    rcases hp : (prepare v.context).run.run v.world with ⟨answer,w₁⟩
    rw [hp] at h
    cases answer with
    | error e => cases h
    | ok prepared =>
      simp only at h
      rw [Act.run_seq] at h
      rcases he : (execute prepared).run.run w₁ with ⟨answer,w₂⟩
      rw [he] at h
      cases answer with
      | error e => cases h
      | ok output =>
        simp only at h
        rcases hf : (finalize v.context prepared output).run.run w₂ with ⟨answer,w₃⟩
        rw [hf] at h
        cases answer with
        | error e => cases h
        | ok returned =>
          obtain ⟨patch',label⟩ := returned
          obtain rfl : patch' = patch := Option.some.inj h
          exact .all hp he hf
  · intro h
    cases h with
    | all prepares executes finalizes =>
      rw [Act.run_seq,prepares]
      simp only
      rw [Act.run_seq,executes]
      simp only
      rw [finalizes]
      rfl

/-- A context with the patches of visits merged, one after the other. -/
def merged (c : Context) (visits : List (Visit g)) : Context :=
  (visits.filterMap Visit.patch?).foldl Context.apply c

theorem merged_concat (c : Context) (visits : List (Visit g)) (v : Visit g) :
    merged c (visits ++ [v]) = (v.patch?.map (merged c visits).apply).getD (merged c visits) := by
  cases hp : v.patch? <;> simp [merged,hp]

/-- A run from a context stands before a stage: all visits so far were completed and are merged. -/
structure Merged (observe : Observer σ) (c : Context) (past : List (Visit g)) (d : Context) :
    Prop where
  context_eq : d = merged c past
  completed : ∀ v ∈ past, ∃ patch label, (v.upshot observe).1 = .completed patch label

theorem Merged.visit {c d : Context} {past : List (Visit g)} (h : Merged observe c past d)
    {v : Visit g} (hd : v.context = d) {upshot : Upshot} {w : σ}
    (visited : v.upshot observe = (upshot,w)) :
    merged c (past ++ [v]) = ((upshot.merged?.map Prod.fst).map v.context.apply).getD v.context := by
  rw [merged_concat,Visit.patch?_of_upshot visited,hd,h.context_eq]

theorem merged_lasting (c : Context) :
    Lasting g cancelled observe fun past _ d _ => Merged observe c past d where
  polled h := h
  onward := by
    intro past v patch label w next h visited _
    refine ⟨(h.visit rfl visited).symm,?_⟩
    intro v' hm
    rcases List.mem_append.mp hm with hm | hm
    · exact h.completed v' hm
    · obtain rfl := List.mem_singleton.mp hm
      exact ⟨patch,label,by rw [visited]⟩

/-- On any exit, all visits are merged that did not fail. -/
theorem Merged.exits {c : Context} {r : Course g}
    (h : Exits observe (fun past _ d _ => Merged observe c past d) [] r) :
    r.context = merged c r.visits := by
  cases h with
  | cancelled stands | capped stands => exact stands.context_eq
  | failed stood visited
  | unheard stood visited
  | finished stood visited _ => exact (Merged.visit stood rfl visited).symm

theorem error_of_failed {v : Visit g} {e : Error} {w : σ} (h : v.upshot observe = (.failed e,w)) :
    (((g.stageAt v.stage).run v.context).run.run v.world).1 = .error e := by
  unfold Visit.upshot at h
  rcases hr : ((g.stageAt v.stage).run v.context).run.run v.world with ⟨answer,w'⟩
  rw [hr] at h
  cases answer with
  | error e' =>
    obtain ⟨⟨⟩,_⟩ := Prod.mk.inj h
    rfl
  | ok returned =>
    simp only at h
    rcases ho : (observe _ _ _ _).run.run w' with ⟨heard,w''⟩
    rw [ho] at h
    cases heard <;> cases h

theorem error_of_unheard {v : Visit g} {patch : Patch} {label : String} {e : Error} {w : σ}
    (h : v.upshot observe = (.unheard patch label e,w)) :
    ∃ w₁, ((observe v.number v.name label (v.context.apply patch)).run.run w₁).1 = .error e := by
  unfold Visit.upshot at h
  rcases hr : ((g.stageAt v.stage).run v.context).run.run v.world with ⟨answer,w₁⟩
  rw [hr] at h
  cases answer with
  | error e' => cases h
  | ok returned =>
    simp only at h
    rcases ho : (observe _ _ _ _).run.run w₁ with ⟨heard,w₂⟩
    rw [ho] at h
    cases heard with
    | error e' =>
      cases h
      exact ⟨w₁,congrArg Prod.fst ho⟩
    | ok u => cases h

theorem run_of_completed {v : Visit g} {patch : Patch} {label : String} {w : σ}
    (h : v.upshot observe = (.completed patch label,w)) :
    ∃ w₁, ((g.stageAt v.stage).run v.context).run.run v.world = (.ok (patch,label),w₁) ∧
      (observe v.number v.name label (v.context.apply patch)).run.run w₁ = (.ok (),w) := by
  unfold Visit.upshot at h
  rcases hr : ((g.stageAt v.stage).run v.context).run.run v.world with ⟨answer,w₁⟩
  rw [hr] at h
  cases answer with
  | error e => cases h
  | ok returned =>
    simp only at h
    rcases ho : (observe _ _ _ _).run.run w₁ with ⟨heard,w₂⟩
    rw [ho] at h
    cases heard with
    | error e => cases h
    | ok u =>
      cases h
      exact ⟨w₁,rfl,ho⟩

/-- On every exit the context is the first one with the patches merged that stages returned, in the
order of the visits, and so it is before each visit. A stage returns a patch only if all of its phases
succeed. One that fails leaves the context as it was, one that the observer refuses to hear of is
merged all the same, and any other exit leaves the context as the last completed stage made it. -/
theorem run_merges_patches {stages : List (Stage σ)} {edges : List Edge} {start : Option String}
    {m : Nat} (hb : build stages edges start m = .ok g) (cancelled : StateM σ Bool)
    (observe : Observer σ) (c : Context) (w : σ) :
    let r := g.course cancelled observe c w
    (g.run cancelled observe c).run w = (⟨r.stop.outcome m,r.context⟩,r.world) ∧
    r.context = merged c r.visits ∧
    (∀ pre v post, r.visits = pre ++ v :: post → v.context = merged c pre) ∧
    (∀ v ∈ r.visits, ∀ {Prepared Output : Type} (name : String) (prepare : Context → Act σ Prepared)
      (execute : Prepared → Act σ Output)
      (finalize : Context → Prepared → Output → Act σ (Patch × String)),
      g.stageAt v.stage = .ofPhases name prepare execute finalize →
        ∀ patch, v.patch? = some patch ↔
          Succeed prepare execute finalize v.context v.world patch) ∧
    (∀ e, r.stop = .failed e → ∃ pre v, r.visits = pre ++ [v] ∧
      (((g.stageAt v.stage).run v.context).run.run v.world).1 = .error e ∧ r.context = v.context) ∧
    (∀ e, r.stop = .unheard e → ∃ pre v patch, r.visits = pre ++ [v] ∧
      v.patch? = some patch ∧ r.context = v.context.apply patch) ∧
    ((∀ e, r.stop ≠ .failed e ∧ r.stop ≠ .unheard e) → ∀ pre v, r.visits = pre ++ [v] →
      ∃ patch label, (v.upshot observe).1 = .completed patch label ∧
        r.context = v.context.apply patch) := by
  intro r
  have hr : Runs g cancelled observe g.cap g.start c w r := course_runs c w
  have hs : Merged observe c ([] : List (Visit g)) c := ⟨rfl,by simp⟩
  have k : Lasting g cancelled observe fun past _ d _ => Merged observe c past d := merged_lasting c
  have hexit := k.exits hr [] hs
  have hvisit {pre post : List (Visit g)} {v : Visit g} (hv : r.visits = pre ++ v :: post) :
      Merged observe c pre v.context := k.visits hr [] hs hv
  refine ⟨?_,Merged.exits hexit,fun _ _ _ hv => (hvisit hv).context_eq,
    fun v _ _ _ _ _ _ _ hs => Visit.patch?_phases hs,?_,?_,?_⟩
  · rw [run_course,Course.ended,(build_built hb).cap_eq]
  · intro e he
    obtain ⟨pre,v,hv,_,hu,hc⟩ := hexit.of_failed he
    exact ⟨pre,v,hv,error_of_failed hu,hc⟩
  · intro e he
    obtain ⟨pre,v,patch,label,hv,_,hu,hc⟩ := hexit.of_unheard he
    exact ⟨pre,v,patch,hv,Visit.patch?_of_upshot hu,hc⟩
  · intro hstop pre v hv
    have hdone : ∃ patch label, (v.upshot observe).1 = .completed patch label := by
      cases hst : r.stop with
      | failed e => exact absurd hst (hstop e).1
      | unheard e => exact absurd hst (hstop e).2
      | cancelled | capped =>
        obtain ⟨_,hm⟩ := hexit.of_rest (by simp [hst])
        exact hm.completed v (by simp [hv])
      | finished label =>
        obtain ⟨pre',v',patch,hv',_,hu,_⟩ := hexit.of_finished hst
        obtain ⟨_,rfl⟩ := List.append_singleton_inj.mp (hv.symm.trans hv')
        exact ⟨patch,label,by rw [hu]⟩
    obtain ⟨patch,label,hu⟩ := hdone
    refine ⟨patch,label,hu,?_⟩
    rw [Merged.exits hexit,hv,(hvisit hv).visit rfl (Prod.ext hu rfl)]
    rfl

/-- A graph of one stage that counts its turns, and jams when it has counted two. -/
def press (σ : Type) (cap : Nat) : Graph σ where
  stages := [.ofPhases "turn" (fun c => return c.round)
    (fun round => if round = 2 then throw (.config "jammed") else return round + 1)
    (fun _ _ next => return ({ round := some next },defaultLabel))]
  start := 0
  transitions := [((0,defaultLabel),0)]
  cap

/-- The press jams in its third turn, and the context keeps the count of the two before. -/
theorem run_merges_patches_press :
    let r := (press Unit 5).course (pure false) .silent {} ()
    build (press Unit 5).stages [{ source := "turn", target := "turn" }] (some "turn") 5 =
        .ok (press Unit 5) ∧
      r.visits.length = 3 ∧ r.stop = .failed (.config "jammed") ∧
      ∃ v ∈ r.visits.getLast?, r.context = v.context ∧ r.context.round = 2 := by
  intro r
  have hb : build (press Unit 5).stages [{ source := "turn", target := "turn" }] (some "turn") 5 =
      .ok (press Unit 5) := rfl
  obtain ⟨_,hm,_,_,hf,_⟩ := run_merges_patches hb (pure false) .silent {} ()
  obtain ⟨pre,v,hv,_,hc⟩ := hf (.config "jammed") rfl
  refine ⟨hb,rfl,rfl,v,?_,hc,?_⟩
  · rw [hv,List.getLast?_concat]
    rfl
  · rw [hm]
    rfl

end EndpointAudit.Graph
