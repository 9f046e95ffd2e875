import EndpointAudit.Proofs.Passes
import EndpointAudit.Proofs.PipelineSteps
import EndpointAudit.Proofs.Tallies

namespace EndpointAudit

namespace Context

structure Consistent (c : Context) : Prop where
  ascending : Ascending c.findings
  found : ∀ f ∈ c.findings, c.endpoints[f.index]? = some f.endpoint ∧
    f.verdict = Completion.verdict f.text
  tallied : ∀ t, c.tally = some t → t = Completion.tally (c.findings.map Finding.text)

theorem consistent_of_empty {c : Context} (hf : c.findings = []) (ht : c.tally = none) :
    c.Consistent := by
  refine ⟨?_,?_,?_⟩
  · rw [hf]
    exact List.Pairwise.nil
  · simp [hf]
  · simp [ht]

/-- The figures of a consistent context count its findings. -/
theorem Consistent.figures {c : Context} (h : c.Consistent) {t : Tally} (ht : c.tally = some t) :
    t.collected = c.findings.length ∧
      t.successes = c.findings.countP fun f => f.verdict = .success := by
  rw [h.tallied t ht]
  refine ⟨by simp [Completion.tally],?_⟩
  simp only [Completion.tally,List.map_map,List.count_eq_countP,List.countP_map]
  refine List.countP_congr ?_
  intro f hf
  simp [(h.found f hf).2]

theorem apply_findings {c : Context} (ha : Ascending c.findings) {patch : Patch}
    (he : patch.endpoints = none) :
    (c.apply patch).findings = mergeFindings c.findings patch.findings := by
  have hkept : (if patch.endpoints.isSome then [] else c.findings) = c.findings := by
    rw [he]
    rfl
  rw [findings_apply (hkept.symm ▸ ha),hkept]

end Context

open Context Stages

/-- New findings are about endpoints that had none. -/
theorem Stages.Answered.index_nodup {c : Context} {findings : List Finding} {made : List Model.Call}
    (h : Answered c findings made) (ha : Ascending c.findings) :
    ((c.findings ++ findings).map Finding.index).Nodup := by
  rw [List.map_append,List.nodup_append]
  refine ⟨ha.index_nodup,h.distinct,?_⟩
  intro i hi j hj he
  obtain ⟨f,hf,rfl⟩ := List.mem_map.mp hi
  obtain ⟨f',hf',rfl⟩ := List.mem_map.mp hj
  exact (mem_pending.mp (h.found f' hf').1).2 f hf he

namespace Pipeline

theorem Work.consistent {rounds : Nat} {c : Context} {name : String} {made : List Model.Call}
    {patch : Patch} {label : String} (h : Work rounds c name made patch label) (hc : c.Consistent) :
    (c.apply patch).Consistent := by
  cases h with
  | detected project => exact ⟨hc.ascending,hc.found,hc.tallied⟩
  | extracted endpoints => exact consistent_of_empty rfl rfl
  | @analyzed findings made answered =>
    have hd := answered.index_nodup hc.ascending
    have hf : (c.apply (finalizeAnalysis c findings)).findings = mergeFindings c.findings findings :=
      apply_findings hc.ascending rfl
    refine ⟨?_,?_,?_⟩
    · rw [hf]
      exact ascending_mergeFindings c.findings findings
    · intro f hm
      rw [hf,mem_mergeFindings_of_nodup hd] at hm
      rcases hm with hm | hm
      · exact hc.found f hm
      · exact (answered.found f hm).2
    · intro t hx
      cases hx
      rw [hf]
      exact Completion.tally_perm ((mergeFindings_perm_append hd).symm.map Finding.text)
  | reported report => exact ⟨hc.ascending,hc.found,hc.tallied⟩
  | reopened report left => exact ⟨hc.ascending,hc.found,hc.tallied⟩

open EndpointAudit.Graph

variable {p : Pipeline} {g : Graph World}

theorem consistent_upkeep (hb : Built p.stages edges (some detectionName) p.settings.cap g) :
    Upkeep g World.poll snapshot
      (fun past _ c _ => c.Consistent ∧ ∀ v ∈ past, ∀ n ∈ v.note? snapshot, n.context.Consistent)
      (fun past c _ => c.Consistent ∧ ∀ v ∈ past, ∀ n ∈ v.note? snapshot, n.context.Consistent) where
  polled h := h
  rests h := h
  fails := by
    intro past v e w ⟨hc,hp⟩ hu
    refine ⟨hc,?_⟩
    intro v' hm n hn
    rcases List.mem_append.mp hm with hm | hm
    · exact hp v' hm n hn
    · obtain rfl := List.mem_singleton.mp hm
      simp [Visit.note?,hu,Upshot.merged?] at hn
  merges := by
    intro past v upshot patch label w ⟨hc,hp⟩ hu hl
    obtain ⟨made,_,_,hw⟩ := visit_work hb v
    have hafter : (v.context.apply patch).Consistent :=
      (hw patch label (by rw [hu]; exact hl)).consistent hc
    have hall : ∀ v' ∈ past ++ [v], ∀ n ∈ v'.note? snapshot, n.context.Consistent := by
      intro v' hm n hn
      rcases List.mem_append.mp hm with hm | hm
      · exact hp v' hm n hn
      · obtain rfl := List.mem_singleton.mp hm
        simp only [Visit.note?,hu,hl,Option.map_some,Option.mem_some_iff] at hn
        rw [← hn]
        exact hafter
    exact ⟨⟨hafter,hall⟩,fun next _ => ⟨hafter,hall⟩⟩

/-- A context that a run shows: it is handed to the observer after a stage, or left behind. -/
def Shows (p : Pipeline) (c : Context) (w : World) (d : Context) : Prop :=
  d = ((p.execute c).run w).1.context ∨
    ∃ g, p.graph = .ok g ∧ ∃ n ∈ (g.course World.poll snapshot c w).notes snapshot, n.context = d

theorem shown_consistent (p : Pipeline) {command : String} {c : Context} {w₀ w : World}
    (hs : (start p.settings command).run.run w₀ = (.ok c,w)) {d : Context} (hd : p.Shows c w d) :
    d.Consistent ∧ ∀ t, d.tally = some t → t.collected = d.findings.length ∧
      t.successes = d.findings.countP fun f => f.verdict = .success := by
  suffices h : d.Consistent from ⟨h,fun t ht => h.figures ht⟩
  obtain ⟨_,hf,ht,_⟩ := (start_keeps p.settings command w₀).2 c (by rw [hs])
  have hc : c.Consistent := consistent_of_empty hf ht
  have hrun {g : Graph World} (hg : p.graph = .ok g) :=
    (consistent_upkeep (graph_built hg)).runs (course_runs c w) [] ⟨hc,by simp⟩
  rcases hd with rfl | ⟨g,hg,n,hn,rfl⟩
  · unfold execute
    cases hg : p.graph with
    | error e => exact hc
    | ok g =>
      simp only
      rw [run_course]
      exact (hrun hg).1
  · obtain ⟨v,hv,hn⟩ := List.mem_filterMap.mp hn
    exact (hrun hg).2 v (by simpa using hv) n hn

/-- A toolchain that extracts one endpoint and finds no definitions. -/
def shopTools : Toolchain where
  language := "Java"
  available _ := .ok ()
  extract _ target t :=
    let list := "[\x7b\"controller_name\":\"Shop\",\"method_name\":\"list\"," ++
      "\"code_pos\":\"Shop.java:L0-L1\",\"req\":\x7b\"method\":\"GET\",\"path\":\"/\"\x7d\x7d]"
    let path := Path.join target "api_extraction.json"
    { answer := .ok {}, files := t.put ((Path.pieces path).drop 1) (.file list.toUTF8 false) }
  lookup _ _ t := { answer := .ok "[]", files := t }

/-- An audit of a shop with one endpoint, by a model that has nothing to say. -/
def shop : Pipeline where
  settings := .ofChoices "/shop" { sessionRoot := some "/s" } {}
  models := { serves := fun _ => .ok (), answer := fun _ _ => { outcome := .completion "\x7b\x7d" } }
  toolchains := [shopTools]

def shopWorld : World where
  files :=
    { entries := [(["shop"],.dir),(["shop","Shop.java"],.file "class Shop\n".toUTF8 false)]
      cwd := [] }
  clock := ⟨"t","T"⟩

theorem shop_starts :
    ∃ c w, (start shop.settings "audit").run.run shopWorld = (.ok c,w) := by
  have hok : ((start shop.settings "audit").run.run shopWorld).1.isOk = true := by decide +kernel
  rcases hs : (start shop.settings "audit").run.run shopWorld with ⟨answer,w⟩
  rw [hs] at hok
  cases answer with
  | error e => cases hok
  | ok c => exact ⟨c,w,rfl⟩

theorem shown_consistent_shop :
    ∃ c w, (start shop.settings "audit").run.run shopWorld = (.ok c,w) ∧
      ((shop.execute c).run w).1.context.Consistent := by
  obtain ⟨c,w,hs⟩ := shop_starts
  exact ⟨c,w,hs,(shown_consistent shop hs (.inl rfl)).1⟩

end Pipeline

end EndpointAudit
