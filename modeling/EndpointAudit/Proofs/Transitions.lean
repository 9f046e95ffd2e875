import EndpointAudit.Graph
import Mathlib.Data.List.Nodup

namespace EndpointAudit.Graph

variable {σ : Type} {stages : List (Stage σ)}

theorem repeated_none_nodup {seen names : List String} (h : repeated? seen names = none) :
    names.Nodup ∧ ∀ n ∈ names, n ∉ seen := by
  induction names generalizing seen with
  | nil => simp
  | cons n ns ih =>
    unfold repeated? at h
    split at h
    · cases h
    · rename_i hn
      obtain ⟨hd,hs⟩ := ih h
      refine ⟨List.nodup_cons.mpr ⟨fun hm => hs n hm (by simp),hd⟩,?_⟩
      intro m hm
      rcases List.mem_cons.mp hm with rfl | hm
      · simpa using hn
      · exact fun hc => hs m hm (List.mem_cons_of_mem _ hc)

theorem repeated_of_nodup {seen names : List String} (hd : names.Nodup)
    (hs : ∀ n ∈ names, n ∉ seen) : repeated? seen names = none := by
  induction names generalizing seen with
  | nil => rfl
  | cons n ns ih =>
    obtain ⟨hn,hd⟩ := List.nodup_cons.mp hd
    have hc : seen.contains n = false := by simpa using hs n List.mem_cons_self
    simp only [repeated?,hc,Bool.false_eq_true,↓reduceIte]
    refine ih hd fun m hm hms => ?_
    rcases List.mem_cons.mp hms with rfl | hms
    · exact hn hm
    · exact hs m (List.mem_cons_of_mem _ hm) hms

/-- Where names are distinct, a name stands for the one stage that bears it. -/
theorem lookup_ok_iff (hd : (stages.map Stage.name).Nodup) {name : String} {s : Fin stages.length} :
    lookup stages name = .ok s ↔ stages[s].name = name := by
  have hi : indexOf? stages name = some s ↔ stages[s].name = name := by
    unfold indexOf?
    rw [List.findFinIdx?_eq_some_iff]
    constructor
    · intro h
      simpa using h.1
    · intro h
      refine ⟨by simpa using h,?_⟩
      intro j hj hb
      have hn : stages[j].name = stages[s].name := (by simpa using hb : stages[j].name = name).trans h.symm
      have hlen : s.val < (stages.map Stage.name).length := by simp
      have he := @List.nodup_iff_injective_get.mp hd ⟨j,Nat.lt_trans hj hlen⟩ ⟨s,hlen⟩
        (by simpa using hn)
      exact absurd (Fin.mk.inj he) (Nat.ne_of_lt hj)
  unfold lookup
  cases hf : indexOf? stages name with
  | none =>
    rw [hf] at hi
    simp only [Option.elim_none,reduceCtorEq,false_iff]
    exact fun h => by simpa using hi.mpr h
  | some t =>
    rw [hf] at hi
    simpa using hi

theorem name_mem (s : Fin stages.length) : stages[s].name ∈ stages.map Stage.name :=
  List.mem_map_of_mem (List.getElem_mem s.isLt)

theorem exists_lookup (hd : (stages.map Stage.name).Nodup) {name : String}
    (hm : name ∈ stages.map Stage.name) : ∃ s, lookup stages name = .ok s := by
  obtain ⟨stage,hs,rfl⟩ := List.mem_map.mp hm
  obtain ⟨i,hi,rfl⟩ := List.getElem_of_mem hs
  exact ⟨⟨i,hi⟩,(lookup_ok_iff hd).mpr rfl⟩

/-- An edge of the list between two stages, which it knows by their names. -/
def Joins (stages : List (Stage σ)) (edges : List Edge) (s : Fin stages.length) (label : String)
    (t : Fin stages.length) : Prop :=
  ⟨stages[s].name,label,stages[t].name⟩ ∈ edges

theorem joins_cons (hd : (stages.map Stage.name).Nodup) {e : Edge} {es : List Edge}
    {a b : Fin stages.length} (ha : lookup stages e.source = .ok a)
    (hb : lookup stages e.target = .ok b) (s : Fin stages.length) (label : String)
    (t : Fin stages.length) :
    Joins stages (e :: es) s label t ↔
      (s = a ∧ label = e.label ∧ t = b) ∨ Joins stages es s label t := by
  have hsa : stages[s].name = e.source ↔ s = a := by
    rw [← lookup_ok_iff hd,ha]
    simp [eq_comm]
  have htb : stages[t].name = e.target ↔ t = b := by
    rw [← lookup_ok_iff hd,hb]
    simp [eq_comm]
  obtain ⟨source,l,target⟩ := e
  simp only at hsa htb ⊢
  simp only [Joins,List.mem_cons,Edge.mk.injEq]
  rw [hsa,htb]

/-- Edges join the table one by one: what it held it keeps, and nothing else is added. -/
theorem addEdges_lookup (hd : (stages.map Stage.name).Nodup)
    {table table' : List ((Fin stages.length × String) × Fin stages.length)} {es : List Edge}
    (h : addEdges stages table es = .ok table') (s : Fin stages.length) (label : String)
    (t : Fin stages.length) :
    table'.lookup (s,label) = some t ↔
      table.lookup (s,label) = some t ∨ Joins stages es s label t := by
  induction es generalizing table with
  | nil =>
    cases h
    simp [Joins]
  | cons e es ih =>
    unfold addEdges at h
    cases ha : lookup stages e.source with
    | error f => simp [ha,bind,Except.bind] at h
    | ok a =>
      cases hb : lookup stages e.target with
      | error f => simp [ha,hb,bind,Except.bind] at h
      | ok b =>
        rw [joins_cons hd ha hb]
        simp only [ha,hb,bind,Except.bind] at h
        split at h
        · rename_i hn
          rw [ih h,List.lookup_cons]
          by_cases hk : (s,label) = (a,e.label)
          · obtain ⟨rfl,rfl⟩ := Prod.mk.inj hk
            simp [hn,eq_comm]
          · have hb : ((s,label) == (a,e.label)) = false := by simpa using hk
            simp only [hb]
            have hk' : ¬ (s = a ∧ label = e.label ∧ t = b) := fun h => hk (by rw [h.1,h.2.1])
            simp [hk']
        · rename_i t' ht
          split at h
          · rename_i heq
            subst heq
            rw [ih h]
            constructor
            · intro hx
              rcases hx with h | h
              · exact .inl h
              · exact .inr (.inr h)
            · intro hx
              rcases hx with h | ⟨rfl,rfl,rfl⟩ | h
              · exact .inl h
              · exact .inl ht
              · exact .inr h
          · cases h

theorem addEdges_ends (hd : (stages.map Stage.name).Nodup)
    {table table' : List ((Fin stages.length × String) × Fin stages.length)} {es : List Edge}
    (h : addEdges stages table es = .ok table') :
    ∀ e ∈ es, (∃ s : Fin stages.length, stages[s].name = e.source) ∧
      ∃ t : Fin stages.length, stages[t].name = e.target := by
  induction es generalizing table with
  | nil => simp
  | cons e es ih =>
    unfold addEdges at h
    cases ha : lookup stages e.source with
    | error f => simp [ha,bind,Except.bind] at h
    | ok a =>
      cases hb : lookup stages e.target with
      | error f => simp [ha,hb,bind,Except.bind] at h
      | ok b =>
        have hrest : ∃ between, addEdges stages between es = .ok table' := by
          simp only [ha,hb,bind,Except.bind] at h
          split at h
          · exact ⟨_,h⟩
          · split at h
            · exact ⟨_,h⟩
            · cases h
        obtain ⟨between,hr⟩ := hrest
        intro d hm
        rcases List.mem_cons.mp hm with rfl | hm
        · exact ⟨⟨a,(lookup_ok_iff hd).mp ha⟩,b,(lookup_ok_iff hd).mp hb⟩
        · exact ih hr d hm

/-- Edges are added if they agree with each other and with what the table holds. -/
theorem exists_addEdges (hd : (stages.map Stage.name).Nodup)
    {table : List ((Fin stages.length × String) × Fin stages.length)} {es : List Edge}
    (hj : ∀ e ∈ es, e.source ∈ stages.map Stage.name ∧ e.target ∈ stages.map Stage.name)
    (ha : ∀ e ∈ es, ∀ e' ∈ es, e.source = e'.source → e.label = e'.label → e.target = e'.target)
    (ht : ∀ e ∈ es, ∀ s t : Fin stages.length, stages[s].name = e.source →
      table.lookup (s,e.label) = some t → stages[t].name = e.target) :
    ∃ table', addEdges stages table es = .ok table' := by
  induction es generalizing table with
  | nil => exact ⟨table,rfl⟩
  | cons e es ih =>
    obtain ⟨⟨hsource,htarget⟩,hj⟩ := List.forall_mem_cons.mp hj
    obtain ⟨hte,ht⟩ := List.forall_mem_cons.mp ht
    obtain ⟨a,hlook⟩ := exists_lookup hd hsource
    obtain ⟨b,hlook'⟩ := exists_lookup hd htarget
    have hna := (lookup_ok_iff hd).mp hlook
    have hnb := (lookup_ok_iff hd).mp hlook'
    have hrest : ∀ d ∈ es, ∀ d' ∈ es, d.source = d'.source → d.label = d'.label → d.target = d'.target :=
      fun d hm d' hm' => ha d (List.mem_cons_of_mem _ hm) d' (List.mem_cons_of_mem _ hm')
    simp only [addEdges,hlook,hlook',bind,Except.bind]
    cases hl : table.lookup (a,e.label) with
    | none =>
      refine ih hj hrest ?_
      intro d hm s t hs hlt
      rw [List.lookup_cons] at hlt
      by_cases hk : (s,d.label) = (a,e.label)
      · obtain ⟨rfl,hlabel⟩ := Prod.mk.inj hk
        obtain rfl : b = t := by simpa [hk] using hlt
        exact hnb.trans (ha e List.mem_cons_self d (List.mem_cons_of_mem _ hm) (hna.symm.trans hs)
          hlabel.symm)
      · have hk' : ((s,d.label) == (a,e.label)) = false := by simpa using hk
        rw [hk'] at hlt
        exact ht d hm s t hs hlt
    | some t =>
      obtain rfl : t = b := by
        have hlt := (lookup_ok_iff hd).mpr (hte a t hna hl)
        exact Except.ok.inj (hlt.symm.trans hlook')
      simpa using ih hj hrest ht

/-- A table holds one target for each stage and label, so edges that were added agree. -/
theorem addEdges_agreed (hd : (stages.map Stage.name).Nodup)
    {table table' : List ((Fin stages.length × String) × Fin stages.length)} {es : List Edge}
    (h : addEdges stages table es = .ok table') {e e' : Edge} (hm : e ∈ es) (hm' : e' ∈ es)
    (hs : e.source = e'.source) (hl : e.label = e'.label) : e.target = e'.target := by
  obtain ⟨⟨s,hsource⟩,t,htarget⟩ := addEdges_ends hd h e hm
  obtain ⟨_,t',htarget'⟩ := addEdges_ends hd h e' hm'
  have hheld {d : Edge} {u : Fin stages.length} (hmem : d ∈ es) (hsrc : stages[s].name = d.source)
      (htgt : stages[u].name = d.target) : table'.lookup (s,d.label) = some u := by
    refine (addEdges_lookup hd h s d.label u).mpr (.inr ?_)
    rw [Joins,hsrc,htgt]
    exact hmem
  have ht := hheld hm hsource htarget
  rw [hl,hheld hm' (hsource.trans hs) htarget'] at ht
  rw [← htarget,← htarget',Option.some.inj ht]

/-- A graph is built just if each check is passed. -/
theorem build_eq_ok_iff {edges : List Edge} {start : Option String} {cap : Nat} {g : Graph σ} :
    build stages edges start cap = .ok g ↔
      repeated? [] (stages.map Stage.name) = none ∧
      ∃ name first transitions, start = some name ∧ lookup stages name = .ok first ∧
        addEdges stages [] edges = .ok transitions ∧ cap ≠ 0 ∧
        g = { stages, start := first, transitions, cap } := by
  unfold build
  cases repeated? [] (stages.map Stage.name) with
  | some n => simp [bind,Except.bind]
  | none =>
    cases start with
    | none => simp [bind,Except.bind]
    | some name =>
      cases hl : lookup stages name with
      | error f => simp [hl,bind,Except.bind]
      | ok first =>
        cases addEdges stages [] edges with
        | error f => simp [hl,bind,Except.bind]
        | ok transitions =>
          by_cases hc : cap = 0 <;> simp [hl,hc,bind,Except.bind,eq_comm]

/-- Some edge of the list leaves a stage with a label. -/
def Leaves (edges : List Edge) (name label : String) : Prop :=
  ∃ e ∈ edges, e.source = name ∧ e.label = label

/-- What the edges and the start of a built graph are, said by the names of its stages. -/
structure Built (stages : List (Stage σ)) (edges : List Edge) (start : Option String) (cap : Nat)
    (g : Graph σ) : Prop where
  stages_eq : g.stages = stages
  distinct : (g.stages.map Stage.name).Nodup
  start_eq : start = some (g.stageAt g.start).name
  cap_eq : g.cap = cap
  cap_pos : 0 < cap
  next_iff : ∀ s label t, g.next? s label = some t ↔ Joins g.stages edges s label t
  ends : ∀ e ∈ edges, ∃ t : Fin g.stages.length, (g.stageAt t).name = e.target

theorem build_built {edges : List Edge} {start : Option String} {cap : Nat} {g : Graph σ}
    (h : build stages edges start cap = .ok g) : Built stages edges start cap g := by
  obtain ⟨hr,name,first,table,rfl,hl,ht,hc,rfl⟩ := build_eq_ok_iff.mp h
  have hd := (repeated_none_nodup hr).1
  refine ⟨rfl,hd,?_,rfl,Nat.pos_of_ne_zero hc,?_,fun e he => (addEdges_ends hd ht e he).2⟩
  · exact congrArg some ((lookup_ok_iff hd).mp hl).symm
  · intro s label t
    have hj := addEdges_lookup hd ht s label t
    simpa [next?] using hj

/-- In a built graph every edge ends at a stage, so a run goes on wherever an edge leaves. -/
theorem Built.next_isSome_iff {edges : List Edge} {start : Option String} {cap : Nat} {g : Graph σ}
    (h : Built stages edges start cap g) (s : Fin g.stages.length) (label : String) :
    (g.next? s label).isSome ↔ Leaves edges (g.stageAt s).name label := by
  rw [Option.isSome_iff_exists]
  constructor
  · intro ⟨t,ht⟩
    exact ⟨_,(h.next_iff s label t).mp ht,rfl,rfl⟩
  · intro hx
    obtain ⟨e,he,hs,rfl⟩ := hx
    obtain ⟨t,ht⟩ := h.ends e he
    refine ⟨t,(h.next_iff s e.label t).mpr ?_⟩
    change ⟨(g.stageAt s).name,e.label,(g.stageAt t).name⟩ ∈ edges
    rw [← hs,ht]
    exact he

theorem Built.not_leaves {edges : List Edge} {start : Option String} {cap : Nat} {g : Graph σ}
    (h : Built stages edges start cap g) {s : Fin g.stages.length} {label : String}
    (hn : g.next? s label = none) : ¬ Leaves edges (g.stageAt s).name label := by
  intro hl
  have hs := (h.next_isSome_iff s label).mpr hl
  rw [hn] at hs
  cases hs

end EndpointAudit.Graph
