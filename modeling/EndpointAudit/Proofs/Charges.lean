import EndpointAudit.Proofs.Consistency

namespace EndpointAudit.Pipeline

open EndpointAudit.Graph Act Analysis Context Model Stages

/-- The findings of a context are the completions of the calls made for it, each asked for once. -/
structure Settled (c : Context) (made : List Call) : Prop where
  ascending : Ascending c.findings
  never_again : made.Pairwise fun a b => b.index = a.index → a.text? = none
  answered : ∀ i text, (∃ f ∈ c.findings, f.index = i ∧ f.text = text) ↔
    ∃ call ∈ made, call.index = i ∧ call.text? = some text

/-- How often endpoints can have been asked about before a stage. -/
structure Rationed (rounds : Nat) (name : String) (c : Context) (made : List Call) : Prop where
  rounds : c.round ≤ rounds
  opening : name = detectionName ∨ name = extractionName → made = [] ∧ c.round = 0
  analyzing : name = analysisName → ∀ i, (callsAbout i made).length ≤ c.round
  most : ∀ i, (callsAbout i made).length ≤ c.round + 1

variable {rounds : Nat} {c : Context} {made asked : List Call} {name next label : String}
  {patch : Patch}

theorem callsAbout_index_nodup (h : ∀ i, (callsAbout i made).length ≤ 1) :
    (made.map Call.index).Nodup := by
  rw [List.nodup_iff_count_le_one]
  intro i
  rw [List.count_eq_countP,List.countP_map,List.countP_eq_length_filter]
  exact h i

/-- A batch asks only about endpoints that no completion has settled. -/
theorem Settled.pending_unanswered {findings : List Finding} (hs : Settled c made)
    (h : Answered c findings asked) {a b : Call} (ha : a ∈ made) (hb : b ∈ asked)
    (he : b.index = a.index) : a.text? = none := by
  cases ht : a.text? with
  | none => rfl
  | some text =>
    obtain ⟨f,hf,hi,_⟩ := (hs.answered a.index text).mpr ⟨a,ha,rfl,ht⟩
    exact absurd (hi.trans he.symm) ((mem_pending.mp (h.pending b hb)).2 f hf)

theorem Settled.analyzed {findings : List Finding} (hs : Settled c made)
    (h : Answered c findings asked) :
    Settled (c.apply (finalizeAnalysis c findings)) (made ++ asked) := by
  have hd := h.index_nodup hs.ascending
  have hf : (c.apply (finalizeAnalysis c findings)).findings = mergeFindings c.findings findings :=
    apply_findings hs.ascending rfl
  refine ⟨?_,?_,?_⟩
  · rw [hf]
    exact ascending_mergeFindings c.findings findings
  · refine List.pairwise_append.mpr ⟨hs.never_again,?_,?_⟩
    · refine (List.pairwise_map.mp (callsAbout_index_nodup h.once)).imp ?_
      intro a b hne he
      exact absurd he.symm hne
    · intro a ha b hb he
      exact hs.pending_unanswered h ha hb he
  · intro i text
    rw [hf]
    simp only [mem_mergeFindings_of_nodup hd,List.mem_append,or_and_right,exists_or]
    rw [hs.answered i text,h.answered i text]

/-- A new list of endpoints drops findings, but then no call has been made. -/
theorem Settled.work (hs : Settled c made) (hw : Work rounds c name asked patch label)
    (he : name = extractionName → made = []) : Settled (c.apply patch) (made ++ asked) := by
  cases hw with
  | detected project =>
    rw [List.append_nil]
    exact ⟨hs.ascending,hs.never_again,hs.answered⟩
  | extracted endpoints =>
    obtain rfl := he rfl
    exact ⟨List.Pairwise.nil,List.Pairwise.nil,by simp [apply]⟩
  | analyzed answered => exact hs.analyzed answered
  | reported report | reopened report left =>
    rw [List.append_nil]
    exact ⟨hs.ascending,hs.never_again,hs.answered⟩

/-- Only the analysis asks, and at most once about each endpoint. -/
theorem Work.once (hw : Work rounds c name asked patch label) :
    (∀ i, (callsAbout i asked).length ≤ 1) ∧ (name ≠ analysisName → asked = []) := by
  cases hw with
  | analyzed answered => exact ⟨answered.once,fun h => absurd rfl h⟩
  | detected | extracted | reported | reopened => exact ⟨fun _ => Nat.zero_le 1,fun _ => rfl⟩

theorem Rationed.work (hr : Rationed rounds name c made)
    (hw : Work rounds c name asked patch label) :
    ∀ i, (callsAbout i (made ++ asked)).length ≤ rounds + 1 := by
  intro i
  have hround := hr.rounds
  rw [callsAbout_append,List.length_append]
  cases hw with
  | analyzed answered =>
    have := hr.analyzing rfl i
    have := answered.once i
    omega
  | detected | extracted | reported | reopened =>
    have := hr.most i
    simp only [callsAbout,List.filter_nil,List.length_nil]
    unfold callsAbout at this
    omega

/-- The way back to the analysis is paid for by a round. -/
theorem Rationed.onward (hr : Rationed rounds name c made)
    (ho : Onward rounds c name asked patch next) :
    Rationed rounds next (c.apply patch) (made ++ asked) := by
  cases ho with
  | detected project =>
    obtain ⟨rfl,hz⟩ := hr.opening (.inl rfl)
    exact ⟨hr.rounds,fun _ => ⟨rfl,hz⟩,fun _ _ => Nat.zero_le _,fun _ => Nat.zero_le _⟩
  | extracted endpoints =>
    obtain ⟨rfl,hz⟩ := hr.opening (.inr rfl)
    exact ⟨hr.rounds,fun _ => ⟨rfl,hz⟩,fun _ _ => Nat.zero_le _,fun _ => Nat.zero_le _⟩
  | @analyzed findings asked answered =>
    refine ⟨hr.rounds,fun h => absurd h (by decide),fun h => absurd h (by decide),?_⟩
    intro i
    have := hr.analyzing rfl i
    have := answered.once i
    rw [callsAbout_append,List.length_append]
    change _ ≤ c.round + 1
    omega
  | reopened report left =>
    rw [List.append_nil]
    refine ⟨left,fun h => absurd h (by decide),fun _ => hr.most,?_⟩
    intro i
    exact Nat.le_succ_of_le (hr.most i)

variable {p : Pipeline} {g : Graph World}

theorem poll_calls (w : World) : (World.poll.run w).2.calls = w.calls := by
  change (World.poll w).2.calls = w.calls
  unfold World.poll
  cases w.signals <;> rfl

/-- What is known of the calls made since some time when a run ends. -/
def Charged (rounds : Nat) (before : List Call) (c : Context) (w : World) : Prop :=
  ∃ made, w.calls = before ++ made ∧ Settled c made ∧
    ∀ i, (callsAbout i made).length ≤ rounds + 1

/-- The same before a stage. -/
def Charging (rounds : Nat) (before : List Call) (name : String) (c : Context) (w : World) : Prop :=
  ∃ made, w.calls = before ++ made ∧ Settled c made ∧ Rationed rounds name c made

theorem charges_upkeep (hb : Built p.stages edges (some detectionName) p.settings.cap g)
    (before : List Call) :
    Upkeep g World.poll snapshot
      (fun _ s c w => Charging p.settings.rounds before (g.stageAt s).name c w)
      (fun _ c w => Charged p.settings.rounds before c w) where
  polled := by
    intro past s c w ⟨made,hm,h⟩
    exact ⟨made,(poll_calls w).trans hm,h⟩
  rests := by
    intro past s c w ⟨made,hm,hs,hr⟩
    refine ⟨made,hm,hs,?_⟩
    intro i
    exact Nat.le_trans (hr.most i) (Nat.succ_le_succ hr.rounds)
  fails := by
    intro past v e w ⟨made,hm,hs,hr⟩ hu
    obtain ⟨asked,hc,hn,_⟩ := visit_work hb v
    rw [hu] at hc hn
    obtain rfl := hn rfl
    refine ⟨made,by rw [hc,List.append_nil,hm],hs,?_⟩
    intro i
    exact Nat.le_trans (hr.most i) (Nat.succ_le_succ hr.rounds)
  merges := by
    intro past v upshot patch label w ⟨made,hm,hs,hr⟩ hu hl
    obtain ⟨asked,hc,_,hw⟩ := visit_work hb v
    rw [hu] at hc hw
    have hwork := hw patch label hl
    have hcalls : w.calls = before ++ (made ++ asked) := by rw [hc,hm,List.append_assoc]
    have hsettled := hs.work hwork fun he => (hr.opening (.inr he)).1
    refine ⟨⟨made ++ asked,hcalls,hsettled,hr.work hwork⟩,?_⟩
    intro next hn
    exact ⟨made ++ asked,hcalls,hsettled,hr.onward (hwork.onward ((hb.next_iff _ _ _).mp hn))⟩

/-- Before the first stage nothing has been asked. -/
theorem charging_start (rounds : Nat) {name : String} (hn : name = detectionName) {c : Context}
    (hf : c.findings = []) (hr : c.round = 0) (w : World) :
    Charging rounds w.calls name c w := by
  refine ⟨[],(List.append_nil _).symm,⟨?_,List.Pairwise.nil,?_⟩,?_⟩
  · rw [hf]
    exact List.Pairwise.nil
  · simp [hf]
  · refine ⟨by omega,fun _ => ⟨rfl,hr⟩,fun h => ?_,fun _ => Nat.zero_le _⟩
    exact absurd (hn.symm.trans h) (by decide)

theorem execute_charged (p : Pipeline) {c : Context} (hf : c.findings = []) (hr : c.round = 0)
    (w : World) :
    Charged p.settings.rounds w.calls ((p.execute c).run w).1.context ((p.execute c).run w).2 := by
  have hstart {name : String} (hn : name = detectionName) :=
    charging_start p.settings.rounds hn hf hr w
  unfold execute
  cases hg : p.graph with
  | error e =>
    obtain ⟨made,hm,hs,hr⟩ := hstart rfl
    refine ⟨made,hm,hs,?_⟩
    intro i
    exact Nat.le_trans (hr.most i) (Nat.succ_le_succ hr.rounds)
  | ok g =>
    have hb := graph_built hg
    simp only
    rw [run_course]
    have hname := (Option.some.inj hb.start_eq).symm
    exact (charges_upkeep hb w.calls).runs (course_runs c w) [] (hstart hname)

/-- However the model behaves and the run ends: each execution of the analysis asks at most once about
an endpoint, all of them at most as often as there are rounds and once more, never again after a
completion, and the findings that are left are the completions. -/
theorem execute_calls (p : Pipeline) {command : String} {c : Context} {w₀ w : World}
    (hs : (start p.settings command).run.run w₀ = (.ok c,w)) :
    let r := (p.execute c).run w
    ∃ made, r.2.calls = w₀.calls ++ made ∧
      (∀ g, p.graph = .ok g → ∀ v ∈ (g.course World.poll snapshot c w).visits,
        ∃ asked, (v.upshot snapshot).2.calls = v.world.calls ++ asked ∧
          (∀ i, (callsAbout i asked).length ≤ 1) ∧ (v.name ≠ analysisName → asked = [])) ∧
      (∀ i, (callsAbout i made).length ≤ p.settings.rounds + 1) ∧
      (made.Pairwise fun a b => b.index = a.index → a.text? = none) ∧
      ∀ i text, (∃ f ∈ r.1.context.findings, f.index = i ∧ f.text = text) ↔
        ∃ call ∈ made, call.index = i ∧ call.text? = some text := by
  intro r
  obtain ⟨hw,hc⟩ := start_keeps p.settings command w₀
  rw [hs] at hw hc
  obtain ⟨_,hf,_,hr⟩ := hc c rfl
  obtain ⟨made,hm,hsettled,hmost⟩ := execute_charged p hf hr w
  refine ⟨made,by rw [hm,hw],?_,hmost,hsettled.never_again,hsettled.answered⟩
  intro g hg v _
  obtain ⟨asked,ha,hn,hwork⟩ := visit_work (graph_built hg) v
  refine ⟨asked,ha,?_⟩
  cases hl : (v.upshot snapshot).1.merged? with
  | none =>
    obtain rfl := hn hl
    exact ⟨fun _ => Nat.zero_le 1,fun _ => rfl⟩
  | some r => exact (hwork r.1 r.2 hl).once

theorem execute_calls_shop :
    ∃ c w, (start shop.settings "audit").run.run shopWorld = (.ok c,w) ∧
      ∃ made, ((shop.execute c).run w).2.calls = made ∧ ∀ i, (callsAbout i made).length ≤ 2 := by
  obtain ⟨c,w,hs⟩ := shop_starts
  obtain ⟨made,hm,_,hl,_⟩ := execute_calls shop hs
  exact ⟨c,w,hs,made,hm,hl⟩

end EndpointAudit.Pipeline
