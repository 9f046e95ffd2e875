import EndpointAudit.Proofs.Closing
import EndpointAudit.Proofs.Consistency
import EndpointAudit.Proofs.Walk

namespace EndpointAudit.Pipeline

open EndpointAudit.Graph Context Stages

variable {p : Pipeline} {g : Graph World} {rounds : Nat} {c : Context} {name next label : String}
  {made : List Model.Call} {patch : Patch}

/-- Before a stage, the round tells how many stages and how many analyses have been executed. -/
inductive Paced (rounds : Nat) (name : String) : Nat → Nat → Nat → Prop
  | detecting (named : name = detectionName) : Paced rounds name 0 0 0
  | extracting (named : name = extractionName) : Paced rounds name 1 0 0
  | analyzing {round} (named : name = analysisName) (le : round ≤ rounds) :
    Paced rounds name (2 * round + 2) round round
  | summarizing {round} (named : name = summaryName) (le : round ≤ rounds) :
    Paced rounds name (2 * round + 3) (round + 1) round

/-- What an execution of a stage adds to the number of analyses. -/
def analysesIn (name : String) : Nat :=
  if name = analysisName then 1 else 0

section Bounds

variable {visited analyses round : Nat}

theorem Paced.round_le (h : Paced rounds name visited analyses round) : round ≤ rounds := by
  cases h with
  | detecting | extracting => exact Nat.zero_le rounds
  | analyzing named le | summarizing named le => exact le

theorem Paced.visited_lt (h : Paced rounds name visited analyses round) :
    visited < 2 * rounds + 4 := by
  cases h <;> omega

theorem Paced.analyses_le (h : Paced rounds name visited analyses round) :
    analyses + analysesIn name ≤ rounds + 1 := by
  cases h with
  | detecting named | extracting named =>
    subst named
    exact Nat.zero_le _
  | analyzing named le =>
    subst named
    exact Nat.succ_le_succ le
  | summarizing named le =>
    subst named
    exact Nat.succ_le_succ le

theorem Paced.summary (h : Paced rounds name visited analyses round) (hn : name = summaryName) :
    visited = 2 * round + 3 ∧ analyses = round + 1 := by
  cases h with
  | detecting named | extracting named | analyzing named le =>
    exact absurd (named.symm.trans hn) (by decide)
  | summarizing named le => exact ⟨rfl,rfl⟩

/-- Each way on takes one execution, and the way back to the analysis a round as well. -/
theorem Paced.onward (h : Paced rounds name visited analyses c.round)
    (ho : Onward rounds c name made patch next) :
    Paced rounds next (visited + 1) (analyses + analysesIn name) (c.apply patch).round := by
  generalize hr : c.round = k at h
  cases ho with
  | detected project =>
    cases h with
    | detecting named =>
      change Paced rounds extractionName 1 0 c.round
      rw [hr]
      exact .extracting rfl
    | extracting named | analyzing named | summarizing named => exact absurd named (by decide)
  | extracted endpoints =>
    cases h with
    | extracting named =>
      change Paced rounds analysisName 2 0 c.round
      rw [hr]
      exact .analyzing rfl (Nat.zero_le rounds)
    | detecting named | analyzing named | summarizing named => exact absurd named (by decide)
  | analyzed answered =>
    cases h with
    | analyzing named le =>
      subst hr
      exact .summarizing rfl le
    | detecting named | extracting named | summarizing named => exact absurd named (by decide)
  | reopened report left =>
    cases h with
    | summarizing named le =>
      subst hr
      exact .analyzing rfl left
    | detecting named | extracting named | analyzing named => exact absurd named (by decide)

end Bounds

/-- The round is counted up only by a summary, and only while rounds are left. -/
theorem Work.counted {k : Nat} (h : Work rounds c name made patch label)
    (hk : patch.round = some k) : k = c.round + 1 ∧ k ≤ rounds := by
  cases h with
  | reopened report left =>
    obtain rfl := Option.some.inj hk
    exact ⟨rfl,left⟩
  | detected | extracted | analyzed | reported => cases hk

theorem Work.round_le (h : Work rounds c name made patch label) (hc : c.round ≤ rounds) :
    (c.apply patch).round ≤ rounds := by
  change patch.round.getD c.round ≤ rounds
  cases hr : patch.round with
  | none => exact hc
  | some k => exact (h.counted hr).2

/-- How many of the visits execute the analysis. -/
def analyses (visits : List (Visit g)) : Nat :=
  visits.countP fun v => v.name = analysisName

theorem analyses_concat (visits : List (Visit g)) (v : Visit g) :
    analyses (visits ++ [v]) = analyses visits + analysesIn v.name := by
  simp [analyses,analysesIn,List.countP_append,List.countP_singleton]

/-- A run keeps pace with the rounds. -/
def InPace (rounds : Nat) (past : List (Visit g)) (s : Fin g.stages.length) (c : Context) : Prop :=
  Paced rounds (g.stageAt s).name past.length (analyses past) c.round

theorem onward_of_visited (hb : Built p.stages edges (some detectionName) p.settings.cap g)
    {v : Visit g} {w : World} {s : Fin g.stages.length}
    (visited : v.upshot snapshot = (.completed patch label,w))
    (edge : g.next? v.stage label = some s) :
    ∃ made, Onward p.settings.rounds v.context v.name made patch (g.stageAt s).name := by
  obtain ⟨made,_,_,hw⟩ := visit_work hb v
  exact ⟨made,(hw patch label (by rw [visited]; rfl)).onward ((hb.next_iff _ _ _).mp edge)⟩

theorem inPace_lasting (hb : Built p.stages edges (some detectionName) p.settings.cap g) :
    Lasting g World.poll snapshot fun past s c _ => InPace p.settings.rounds past s c where
  polled h := h
  onward := by
    intro past v patch label w next h visited edge
    obtain ⟨made,ho⟩ := onward_of_visited hb visited edge
    unfold InPace
    rw [List.length_append,analyses_concat]
    exact Paced.onward h ho

theorem inPace_start (hb : Built p.stages edges (some detectionName) p.settings.cap g)
    (hr : c.round = 0) : InPace p.settings.rounds [] g.start c := by
  unfold InPace
  rw [hr]
  exact .detecting (Option.some.inj hb.start_eq).symm

theorem work_of_patch (hb : Built p.stages edges (some detectionName) p.settings.cap g)
    {v : Visit g} (h : v.patch? = some patch) :
    ∃ made label, Work p.settings.rounds v.context v.name made patch label := by
  rw [Visit.patch?_eq snapshot] at h
  obtain ⟨⟨patch',label⟩,hm,rfl⟩ := Option.map_eq_some_iff.mp h
  obtain ⟨made,_,_,hw⟩ := visit_work hb v
  exact ⟨made,label,hw _ _ hm⟩

/-- On every exit the last visit counts, too. -/
theorem InPace.exits (hb : Built p.stages edges (some detectionName) p.settings.cap g) {r : Course g}
    (h : Exits snapshot (fun past s c _ => InPace p.settings.rounds past s c) [] r) :
    r.visits.length ≤ 2 * p.settings.rounds + 4 ∧ analyses r.visits ≤ p.settings.rounds + 1 ∧
      r.context.round ≤ p.settings.rounds := by
  have longer {visits : List (Visit g)} {v : Visit g}
      (stood : InPace p.settings.rounds ([] ++ visits) v.stage v.context) :
      (visits ++ [v]).length ≤ 2 * p.settings.rounds + 4 ∧
        analyses (visits ++ [v]) ≤ p.settings.rounds + 1 := by
    rw [List.length_append,analyses_concat]
    exact ⟨Paced.visited_lt stood,Paced.analyses_le stood⟩
  have merges {v : Visit g} {upshot : Upshot} {w : World} {patch : Patch}
      (hc : v.context.round ≤ p.settings.rounds) (visited : v.upshot snapshot = (upshot,w))
      (hm : upshot.merged?.map Prod.fst = some patch) :
      (v.context.apply patch).round ≤ p.settings.rounds := by
    obtain ⟨made,label,hw⟩ := work_of_patch hb ((Visit.patch?_of_upshot visited).trans hm)
    exact hw.round_le hc
  cases h with
  | cancelled stands | capped stands =>
    exact ⟨Nat.le_of_lt (Paced.visited_lt stands),Nat.le_of_add_right_le (Paced.analyses_le stands),
      Paced.round_le stands⟩
  | failed stood visited =>
    obtain ⟨hl,ha⟩ := longer stood
    exact ⟨hl,ha,Paced.round_le stood⟩
  | unheard stood visited
  | finished stood visited _ =>
    obtain ⟨hl,ha⟩ := longer stood
    exact ⟨hl,ha,merges (Paced.round_le stood) visited rfl⟩

/-- An execution of the analysis knows an endpoint but comes to no finding about it. -/
structure Barren (i : Nat) (v : Visit g) : Prop where
  known : i < v.context.endpoints.length
  unanswered : ∀ patch, v.patch? = some patch → ∀ f ∈ patch.findings, f.index ≠ i

/-- There is no finding about an endpoint, which is known once it was analyzed. -/
structure Lacks (i : Nat) (name : String) (c : Context) : Prop where
  unfound : ∀ f ∈ c.findings, f.index ≠ i
  known : name = summaryName → i < c.endpoints.length

theorem Lacks.onward {i : Nat} (h : Lacks i name c) (ho : Onward rounds c name made patch next)
    (hn : name = analysisName → i < c.endpoints.length ∧ ∀ f ∈ patch.findings, f.index ≠ i) :
    Lacks i next (c.apply patch) := by
  cases ho with
  | detected project => exact ⟨h.unfound,fun hx => absurd hx (by decide)⟩
  | extracted endpoints =>
    refine ⟨?_,fun hx => absurd hx (by decide)⟩
    intro f hf
    cases hf
  | analyzed answered =>
    obtain ⟨hi,hf⟩ := hn rfl
    refine ⟨?_,fun _ => hi⟩
    intro f hm
    unfold finalizeAnalysis apply at hm
    simp only [Option.isSome_none,Bool.false_eq_true,↓reduceIte] at hm
    split at hm
    · exact h.unfound f hm
    · have hone := List.mem_of_find?_eq_some (mem_mergeFindings.mp hm)
      rcases List.mem_append.mp hone with hm | hm
      · exact h.unfound f hm
      · exact hf f hm
  | reopened report left => exact ⟨h.unfound,fun hx => absurd hx (by decide)⟩

theorem lacks_lasting (hb : Built p.stages edges (some detectionName) p.settings.cap g) (i : Nat) :
    Lasting g World.poll snapshot fun past s c _ =>
      (∀ v ∈ past, v.name = analysisName → Barren i v) → Lacks i (g.stageAt s).name c where
  polled h := h
  onward := by
    intro past v patch label w next h visited edge hall
    obtain ⟨made,ho⟩ := onward_of_visited hb visited edge
    refine (h fun v' hm => hall v' (List.mem_append_left _ hm)).onward ho ?_
    intro hn
    have hv := hall v (by simp) hn
    exact ⟨hv.known,hv.unanswered patch (Visit.patch?_of_upshot visited)⟩

/-- A run that finishes although an endpoint lacks a finding has used up all rounds. -/
theorem length_of_barren (hb : Built p.stages edges (some detectionName) p.settings.cap g)
    {r : Course g} {label : String} {i : Nat}
    (h : Exits snapshot (fun past s c _ => InPace p.settings.rounds past s c ∧
      ((∀ v ∈ past, v.name = analysisName → Barren i v) → Lacks i (g.stageAt s).name c)) [] r)
    (hs : r.stop = .finished label) (hall : ∀ v ∈ r.visits, v.name = analysisName → Barren i v) :
    r.visits.length = 2 * p.settings.rounds + 4 ∧ analyses r.visits = p.settings.rounds + 1 := by
  obtain ⟨_,visits,v,patch,w,hv,⟨hpace,hlacks⟩,hclosed⟩ := finished_closed hb h hs
  have hl := hlacks fun v' hm => hall v' (by rw [hv]; exact List.mem_append_left _ hm)
  have hpending : i ∈ v.context.pending := mem_pending.mpr ⟨hl.known hclosed.named,hl.unfound⟩
  have hround : v.context.round = p.settings.rounds := by
    refine Nat.le_antisymm (Paced.round_le hpace) ?_
    rcases pending_or_round_of_ends hclosed.closes.ended.1 with hp | hr
    · exact absurd hpending (by simp [hp])
    · exact hr
  obtain ⟨hvisited,hanalyses⟩ := Paced.summary hpace hclosed.named
  rw [hround] at hvisited hanalyses
  rw [hv,List.length_append,analyses_concat,hclosed.named]
  exact ⟨congrArg (· + 1) hvisited,hanalyses⟩

/-- However the model and the extractor behave, the analysis is executed at most once more than there
are rounds, all stages together at most twice as often and two times more, and the round never gets
beyond the rounds that are allowed, so a cap of that size is never what stops a run. Nothing smaller
will do: where no analysis comes to a finding about some endpoint, nothing fails and nobody cancels, the
run takes all of these executions, or ends at a smaller cap. -/
theorem execute_rounds (p : Pipeline) {command : String} {c : Context} {w₀ w : World}
    (hs : (start p.settings command).run.run w₀ = (.ok c,w)) {g : Graph World}
    (hg : p.graph = .ok g) :
    let rounds := p.settings.rounds
    let cap := p.settings.cap
    let r := g.course World.poll snapshot c w
    (p.execute c).run w = (⟨r.stop.outcome cap,r.context⟩,r.world) ∧
    analyses r.visits ≤ rounds + 1 ∧ r.visits.length ≤ 2 * rounds + 4 ∧ r.context.round ≤ rounds ∧
    (∀ v ∈ r.visits, v.context.round ≤ rounds ∧
      ∀ patch, v.patch? = some patch → ∀ k, patch.round = some k →
        k = v.context.round + 1 ∧ k ≤ rounds ∧ (rounds < UInt32.size → k < UInt32.size)) ∧
    (2 * rounds + 4 ≤ cap → r.stop ≠ .capped) ∧
    ∀ i, (∀ v ∈ r.visits, v.name = analysisName → Barren i v) → r.stop ≠ .cancelled →
      (∀ e, r.stop ≠ .failed e ∧ r.stop ≠ .unheard e) →
      (cap < 2 * rounds + 4 → r.stop = .capped) ∧
      (2 * rounds + 4 ≤ cap →
        r.visits.length = 2 * rounds + 4 ∧ analyses r.visits = rounds + 1) := by
  intro rounds cap r
  obtain ⟨_,hc⟩ := start_keeps p.settings command w₀
  rw [hs] at hc
  obtain ⟨_,hf,_,hr⟩ := hc c rfl
  have hb := graph_built hg
  have hcap : g.cap = cap := hb.cap_eq
  have hruns : Runs g World.poll snapshot cap g.start c w r := hcap ▸ course_runs c w
  have hpace := inPace_start hb hr
  have hexit := (inPace_lasting hb).exits hruns [] hpace
  have huncapped (hcap : 2 * rounds + 4 ≤ cap) : r.stop ≠ .capped := by
    intro hstop
    obtain ⟨s,hp⟩ := hexit.of_rest (.inr hstop)
    have hlt := Paced.visited_lt hp
    have hlen := ((hruns.stop_capped_iff hb).mp hstop).1
    rw [List.nil_append,hlen] at hlt
    exact Nat.not_lt_of_le hcap hlt
  obtain ⟨hlen,hanalyses,hround⟩ := InPace.exits hb hexit
  refine ⟨execute_course hg c w,hanalyses,hlen,hround,?_,huncapped,?_⟩
  · intro v hv
    obtain ⟨pre,post,hv⟩ := List.append_of_mem hv
    refine ⟨Paced.round_le ((inPace_lasting hb).visits hruns [] hpace hv),?_⟩
    intro patch hp k hk
    obtain ⟨made,label,hw⟩ := work_of_patch hb hp
    obtain ⟨hk,hle⟩ := hw.counted hk
    exact ⟨hk,hle,fun h => Nat.lt_of_le_of_lt hle h⟩
  · intro i hall hcancelled hfailed
    have hlacks : (∀ v ∈ ([] : List (Visit g)), v.name = analysisName → Barren i v) →
        Lacks i (g.stageAt g.start).name c := by
      refine fun _ => ⟨by simp [hf],?_⟩
      intro hn
      rw [← Option.some.inj hb.start_eq] at hn
      exact absurd hn (by decide)
    have hboth := ((inPace_lasting hb).and (lacks_lasting hb i)).exits hruns [] ⟨hpace,hlacks⟩
    have hfinished (label : String) (hst : r.stop = .finished label) :=
      length_of_barren hb hboth hst hall
    cases hst : r.stop with
    | cancelled => exact absurd hst hcancelled
    | failed e => exact absurd hst (hfailed e).1
    | unheard e => exact absurd hst (hfailed e).2
    | capped => exact ⟨fun _ => rfl,fun hcap => absurd hst (huncapped hcap)⟩
    | finished label =>
      refine ⟨fun hcap => ?_,fun _ => hfinished label hst⟩
      have hle := hruns.length_le
      rw [(hfinished label hst).1] at hle
      exact absurd hcap (Nat.not_lt_of_le hle)

/-- An audit of the shop by a model that never answers, with a cap. -/
def muteShop (cap : Nat) : Pipeline :=
  { shop with
    settings := { shop.settings with cap }
    models := { shop.models with answer := fun _ _ => { outcome := .failed (.generation "mute") } } }

/-- The first endpoint never gets a finding, and the run stops at its cap. -/
def stopsBarren (g : Graph World) (r : Course g) : Bool :=
  (match r.stop with
    | .capped => true
    | _ => false) &&
  r.visits.all fun v => v.name != analysisName ||
    (0 < v.context.endpoints.length && v.patch?.all fun patch => patch.findings.isEmpty)

theorem execute_rounds_mute :
    ∃ c w g, (start (muteShop 5).settings "audit").run.run shopWorld = (.ok c,w) ∧
      (muteShop 5).graph = .ok g ∧
      (∀ v ∈ (g.course World.poll snapshot c w).visits, v.name = analysisName → Barren 0 v) ∧
      (muteShop 5).settings.rounds = 1 ∧ (g.course World.poll snapshot c w).stop = .capped := by
  have hpasses : (muteShop 5).passes shopWorld stopsBarren = true := by decide +kernel
  obtain ⟨c,w,g,hs,hg,ht⟩ := run_of_passes hpasses
  obtain ⟨hstop,hvisits⟩ := Bool.and_eq_true_iff.mp ht
  have hcapped : (g.course World.poll snapshot c w).stop = .capped := by
    split at hstop
    · assumption
    · cases hstop
  have hbarren : ∀ v ∈ (g.course World.poll snapshot c w).visits, v.name = analysisName →
      Barren 0 v := by
    intro v hv hn
    have hx := List.all_eq_true.mp hvisits v hv
    rw [hn,bne_self_eq_false,Bool.false_or] at hx
    obtain ⟨hl,hp⟩ := Bool.and_eq_true_iff.mp hx
    refine ⟨of_decide_eq_true hl,?_⟩
    intro patch hpatch f hf
    rw [hpatch] at hp
    rw [List.isEmpty_iff.mp hp] at hf
    cases hf
  obtain ⟨_,_,_,_,_,_,hexact⟩ := execute_rounds (muteShop 5) hs hg
  obtain ⟨hsmall,_⟩ := hexact 0 hbarren (by simp [hcapped]) (by simp [hcapped])
  exact ⟨c,w,g,hs,hg,hbarren,rfl,hsmall (by decide)⟩

end EndpointAudit.Pipeline
