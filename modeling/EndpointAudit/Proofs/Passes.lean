import EndpointAudit.Proofs.Course

namespace EndpointAudit.Graph

variable {σ : Type} {g : Graph σ} {cancelled : StateM σ Bool} {observe : Observer σ}
  {before : List (Visit g) → Fin g.stages.length → Context → σ → Prop}

/-- What holds each time a run stands before a stage, told of the visits so far. -/
structure Lasting (g : Graph σ) (cancelled : StateM σ Bool) (observe : Observer σ)
    (before : List (Visit g) → Fin g.stages.length → Context → σ → Prop) : Prop where
  polled : ∀ {past s c w}, before past s c w → before past s c (cancelled.run w).2
  onward : ∀ {past} {v : Visit g} {patch label w next}, before past v.stage v.context v.world →
    v.upshot observe = (.completed patch label,w) → g.next? v.stage label = some next →
    before (past ++ [v]) next (v.context.apply patch) w

/-- The exits of a run with some visits behind it, and from where each one is made. -/
inductive Exits (observe : Observer σ)
    (before : List (Visit g) → Fin g.stages.length → Context → σ → Prop) (past : List (Visit g)) :
    Course g → Prop
  | cancelled {visits s c w} (stands : before (past ++ visits) s c w) :
    Exits observe before past ⟨visits,.cancelled,c,w⟩
  | capped {visits s c w} (stands : before (past ++ visits) s c w) :
    Exits observe before past ⟨visits,.capped,c,w⟩
  | failed {visits} {v : Visit g} {e w}
    (stood : before (past ++ visits) v.stage v.context v.world)
    (visited : v.upshot observe = (.failed e,w)) :
    Exits observe before past ⟨visits ++ [v],.failed e,v.context,w⟩
  | unheard {visits} {v : Visit g} {patch label e w}
    (stood : before (past ++ visits) v.stage v.context v.world)
    (visited : v.upshot observe = (.unheard patch label e,w)) :
    Exits observe before past ⟨visits ++ [v],.unheard e,v.context.apply patch,w⟩
  | finished {visits} {v : Visit g} {patch label w}
    (stood : before (past ++ visits) v.stage v.context v.world)
    (visited : v.upshot observe = (.completed patch label,w))
    (last : g.next? v.stage label = none) :
    Exits observe before past ⟨visits ++ [v],.finished label,v.context.apply patch,w⟩

theorem Exits.after {past : List (Visit g)} {v : Visit g} {r : Course g}
    (h : Exits observe before (past ++ [v]) r) : Exits observe before past (r.after v) := by
  have shift {visits s c w} (hb : before (past ++ [v] ++ visits) s c w) :
      before (past ++ (v :: visits)) s c w := by
    simpa using hb
  cases h with
  | cancelled stands => exact .cancelled (shift stands)
  | capped stands => exact .capped (shift stands)
  | failed stood visited => exact .failed (shift stood) visited
  | unheard stood visited => exact .unheard (shift stood) visited
  | finished stood visited last => exact .finished (shift stood) visited last

section Stops

variable {past : List (Visit g)} {r : Course g}

theorem Exits.of_rest (h : Exits observe before past r) (hs : r.stop = .cancelled ∨ r.stop = .capped) :
    ∃ s, before (past ++ r.visits) s r.context r.world := by
  cases h with
  | cancelled stands | capped stands => exact ⟨_,stands⟩
  | failed | unheard | finished => rcases hs with hs | hs <;> cases hs

theorem Exits.of_failed {e : Error} (h : Exits observe before past r) (hs : r.stop = .failed e) :
    ∃ visits v, r.visits = visits ++ [v] ∧ before (past ++ visits) v.stage v.context v.world ∧
      v.upshot observe = (.failed e,r.world) ∧ r.context = v.context := by
  cases h with
  | failed stood visited =>
    cases hs
    exact ⟨_,_,rfl,stood,visited,rfl⟩
  | cancelled | capped | unheard | finished => cases hs

theorem Exits.of_unheard {e : Error} (h : Exits observe before past r) (hs : r.stop = .unheard e) :
    ∃ visits v patch label, r.visits = visits ++ [v] ∧
      before (past ++ visits) v.stage v.context v.world ∧
      v.upshot observe = (.unheard patch label e,r.world) ∧ r.context = v.context.apply patch := by
  cases h with
  | unheard stood visited =>
    cases hs
    exact ⟨_,_,_,_,rfl,stood,visited,rfl⟩
  | cancelled | capped | failed | finished => cases hs

theorem Exits.of_finished {label : String} (h : Exits observe before past r)
    (hs : r.stop = .finished label) :
    ∃ visits v patch, r.visits = visits ++ [v] ∧
      before (past ++ visits) v.stage v.context v.world ∧
      v.upshot observe = (.completed patch label,r.world) ∧ r.context = v.context.apply patch ∧
      g.next? v.stage label = none := by
  cases h with
  | finished stood visited last =>
    cases hs
    exact ⟨_,_,_,rfl,stood,visited,rfl,last⟩
  | cancelled | capped | failed | unheard => cases hs

end Stops

theorem Lasting.and {also : List (Visit g) → Fin g.stages.length → Context → σ → Prop}
    (k : Lasting g cancelled observe before) (k' : Lasting g cancelled observe also) :
    Lasting g cancelled observe fun past s c w => before past s c w ∧ also past s c w where
  polled h := ⟨k.polled h.1,k'.polled h.2⟩
  onward h visited edge := ⟨k.onward h.1 visited edge,k'.onward h.2 visited edge⟩

/-- It holds of the world in which a cancellation was asked for, too. -/
theorem Lasting.held (k : Lasting g cancelled observe before) {past s c w stop w₁}
    (hb : before past s c w) (polled : cancelled.run w = (stop,w₁)) : before past s c w₁ := by
  have hp := k.polled hb
  rwa [polled] at hp

theorem Lasting.exits (k : Lasting g cancelled observe before) {left s c w r}
    (h : Runs g cancelled observe left s c w r) (past : List (Visit g)) (hb : before past s c w) :
    Exits observe before past r := by
  have alone {past s c w} (hb : before past s c w) : before (past ++ []) s c w := by
    rwa [List.append_nil]
  induction h generalizing past with
  | cancelled polled => exact .cancelled (alone (k.held hb polled))
  | capped polled => exact .capped (alone (k.held hb polled))
  | failed polled visited =>
    change Exits observe before past ⟨[] ++ [_],_,_,_⟩
    exact .failed (alone (k.held hb polled)) visited
  | unheard polled visited =>
    change Exits observe before past ⟨[] ++ [_],_,_,_⟩
    exact .unheard (alone (k.held hb polled)) visited
  | finished polled visited last =>
    change Exits observe before past ⟨[] ++ [_],_,_,_⟩
    exact .finished (alone (k.held hb polled)) visited last
  | onward polled visited edge rest ih =>
    exact (ih _ (k.onward (k.held hb polled) visited edge)).after

theorem Lasting.visits (k : Lasting g cancelled observe before) {left s c w r}
    (h : Runs g cancelled observe left s c w r) (past : List (Visit g)) (hb : before past s c w)
    {pre post : List (Visit g)} {v : Visit g} (hv : r.visits = pre ++ v :: post) :
    before (past ++ pre) v.stage v.context v.world := by
  induction h generalizing past pre with
  | cancelled polled => simp at hv
  | capped polled => simp at hv
  | failed polled visited
  | unheard polled visited
  | finished polled visited last =>
    obtain ⟨rfl,hv⟩ := List.append_eq_singleton_iff.mp hv.symm |>.resolve_right (by simp)
    obtain ⟨rfl,_⟩ := List.cons.inj hv
    simpa using k.held hb polled
  | onward polled visited edge rest ih =>
    have hp := k.held hb polled
    cases pre with
    | nil =>
      obtain ⟨rfl,_⟩ := List.cons.inj hv
      simpa using hp
    | cons d pre =>
      obtain ⟨rfl,hr⟩ := List.cons.inj hv
      simpa using ih _ (k.onward hp visited edge) hr

/-- What holds of a run so far, before a stage and at its end. A stage may be reached from any past,
so the two are told what was visited. -/
structure Upkeep (g : Graph σ) (cancelled : StateM σ Bool) (observe : Observer σ)
    (before : List (Visit g) → Fin g.stages.length → Context → σ → Prop)
    (atEnd : List (Visit g) → Context → σ → Prop) : Prop where
  polled : ∀ {past s c w}, before past s c w → before past s c (cancelled.run w).2
  rests : ∀ {past s c w}, before past s c w → atEnd past c w
  fails : ∀ {past} {v : Visit g} {e w}, before past v.stage v.context v.world →
    v.upshot observe = (.failed e,w) → atEnd (past ++ [v]) v.context w
  merges : ∀ {past} {v : Visit g} {upshot patch label w}, before past v.stage v.context v.world →
    v.upshot observe = (upshot,w) → upshot.merged? = some (patch,label) →
    atEnd (past ++ [v]) (v.context.apply patch) w ∧
      ∀ next, g.next? v.stage label = some next → before (past ++ [v]) next (v.context.apply patch) w

theorem Upkeep.lasting {atEnd : List (Visit g) → Context → σ → Prop}
    (k : Upkeep g cancelled observe before atEnd) : Lasting g cancelled observe before where
  polled := k.polled
  onward hb visited edge := (k.merges hb visited rfl).2 _ edge

theorem Upkeep.runs {atEnd : List (Visit g) → Context → σ → Prop}
    (k : Upkeep g cancelled observe before atEnd) {left s c w r}
    (h : Runs g cancelled observe left s c w r) (past : List (Visit g)) (hb : before past s c w) :
    atEnd (past ++ r.visits) r.context r.world := by
  cases k.lasting.exits h past hb with
  | cancelled stands | capped stands => exact k.rests stands
  | failed stood visited =>
    rw [← List.append_assoc]
    exact k.fails stood visited
  | unheard stood visited
  | finished stood visited _ =>
    rw [← List.append_assoc]
    exact (k.merges stood visited rfl).1

/-- A visit begins only in a world in which the run shall not stop. -/
theorem Runs.polled {left s c w r} (h : Runs g cancelled observe left s c w r) {v : Visit g}
    (hv : v ∈ r.visits) : ∃ w₁, cancelled.run w₁ = (false,v.world) := by
  induction h with
  | cancelled polled | capped polled => simp at hv
  | failed polled visited
  | unheard polled visited
  | finished polled visited last =>
    obtain rfl := List.mem_singleton.mp hv
    exact ⟨_,polled⟩
  | onward polled visited edge rest ih =>
    rcases List.mem_cons.mp hv with rfl | hm
    · exact ⟨_,polled⟩
    · exact ih hm

/-- A visit that fails is the last one, and leaves the context as it was. -/
theorem Runs.failed_last {left s c w r} (h : Runs g cancelled observe left s c w r) {v : Visit g}
    (hv : v ∈ r.visits) {e w'} (visited : v.upshot observe = (.failed e,w')) :
    ∃ pre, r = ⟨pre ++ [v],.failed e,v.context,w'⟩ := by
  induction h with
  | cancelled polled | capped polled => simp at hv
  | failed polled visited₀ =>
    obtain rfl := List.mem_singleton.mp hv
    rw [visited₀] at visited
    cases visited
    exact ⟨[],rfl⟩
  | unheard polled visited₀ | finished polled visited₀ last =>
    obtain rfl := List.mem_singleton.mp hv
    rw [visited₀] at visited
    cases visited
  | onward polled visited₀ edge rest ih =>
    rcases List.mem_cons.mp hv with rfl | hm
    · rw [visited₀] at visited
      cases visited
    · obtain ⟨pre,hr⟩ := ih hm
      exact ⟨_ :: pre,by rw [hr]; rfl⟩

/-- A visit that leads on but leaves the run cancelled is the last one, even at the cap. -/
theorem Runs.cancelled_after {left s c w r} (h : Runs g cancelled observe left s c w r) {v : Visit g}
    (hv : v ∈ r.visits) {patch label w' next}
    (visited : v.upshot observe = (.completed patch label,w'))
    (edge : g.next? v.stage label = some next) (stops : (cancelled.run w').1 = true) :
    ∃ pre, r = ⟨pre ++ [v],.cancelled,v.context.apply patch,(cancelled.run w').2⟩ := by
  induction h with
  | cancelled polled => simp at hv
  | capped polled => simp at hv
  | failed polled visited₀ =>
    obtain rfl := List.mem_singleton.mp hv
    rw [visited₀] at visited
    cases visited
  | unheard polled visited₀ =>
    obtain rfl := List.mem_singleton.mp hv
    rw [visited₀] at visited
    cases visited
  | finished polled visited₀ last =>
    obtain rfl := List.mem_singleton.mp hv
    rw [visited₀] at visited
    cases visited
    rw [last] at edge
    cases edge
  | onward polled visited₀ edge₀ rest ih =>
    rcases List.mem_cons.mp hv with rfl | hm
    · rw [visited₀] at visited
      cases visited
      cases rest with
      | cancelled polled' => exact ⟨[],by rw [polled']; rfl⟩
      | capped polled' | failed polled' _ | unheard polled' _ | finished polled' _ _
      | onward polled' _ _ _ =>
        rw [polled'] at stops
        cases stops
    · obtain ⟨pre,hr⟩ := ih hm
      exact ⟨_ :: pre,by rw [hr]; rfl⟩

end EndpointAudit.Graph
