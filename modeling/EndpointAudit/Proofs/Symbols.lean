import EndpointAudit.Endpoint
import EndpointAudit.Proofs.FirstPlaces
import EndpointAudit.Proofs.Trimming
import Mathlib.Data.List.Nodup

namespace EndpointAudit.Endpoint

/-- Where a symbol may stand: as a reference, as the type of the body, or as the type of a parameter. -/
inductive Spot
  | reference (place : Nat)
  | body
  | parameter (name : String)

/-- References come first and parameters last, in the order of their names. -/
def Spot.Before : Spot → Spot → Prop
  | .reference i,.reference j => i < j
  | .reference _,_ => True
  | .body,.parameter _ => True
  | .parameter name,.parameter name' => name < name'
  | _,_ => False

theorem Spot.before_irrefl (p : Spot) : ¬ p.Before p := by
  cases p with
  | reference i => exact Nat.lt_irrefl i
  | body => exact id
  | parameter name => exact String.lt_irrefl name

/-- A text stands at a spot of an endpoint. -/
def Mentions (e : Endpoint) (s : String) : Spot → Prop
  | .reference i => e.references[i]? = some s
  | .body => e.request.body.lookup "type" = some (.text s)
  | .parameter name => (name,s) ∈ e.request.query

/-- The texts that stand in an endpoint, with their spots. -/
def spotted (e : Endpoint) : List (String × Spot) :=
  numbered e.references (fun s i => [(s,.reference i)]) ++
    (e.bodyType?.toList.map fun s => (s,.body)) ++
    e.request.query.map fun m => (m.2,.parameter m.1)

variable {e : Endpoint} {s : String} {p : Spot}

theorem bodyType?_eq_some_iff :
    e.bodyType? = some s ↔ e.request.body.lookup "type" = some (.text s) := by
  unfold bodyType?
  cases e.request.body.lookup "type" with
  | none => simp
  | some v => cases v <;> simp [Json.asText?]

theorem mem_spotted : (s,p) ∈ e.spotted ↔ e.Mentions s p := by
  simp only [spotted,List.mem_append,mem_numbered,List.mem_singleton,List.mem_map,Option.mem_toList,
    bodyType?_eq_some_iff,Prod.mk.injEq]
  cases p <;> simp [Mentions]

/-- Parameters with ascending names stand at ascending spots, and so does all that is before them. -/
theorem spotted_ordered (h : e.request.query.Pairwise fun m m' => m.1 < m'.1) :
    e.spotted.Pairwise fun x y => x.2.Before y.2 := by
  refine List.pairwise_append.mpr ⟨List.pairwise_append.mpr ⟨?_,?_,?_⟩,?_,?_⟩
  · refine numbered_pairwise (fun _ _ => List.pairwise_singleton _ _) ?_
    intro _ _ i j hlt x hx y hy
    rw [List.mem_singleton.mp hx,List.mem_singleton.mp hy]
    exact hlt
  · cases e.bodyType? <;> simp
  · intro x hx y hy
    obtain ⟨i,s,_,hx⟩ := mem_numbered.mp hx
    obtain ⟨t,_,rfl⟩ := List.mem_map.mp hy
    rw [List.mem_singleton.mp hx]
    trivial
  · exact List.pairwise_map.mpr h
  · intro x hx y hy
    obtain ⟨m,_,rfl⟩ := List.mem_map.mp hy
    rcases List.mem_append.mp hx with hx | hx
    · obtain ⟨i,s,_,hx⟩ := mem_numbered.mp hx
      rw [List.mem_singleton.mp hx]
      trivial
    · obtain ⟨t,_,rfl⟩ := List.mem_map.mp hx
      trivial

theorem symbols_eq (e : Endpoint) : e.symbols =
    ((e.spotted.filter fun x => !Text.isBlankText x.1).map Prod.fst).eraseDups := by
  have hall : e.spotted.map Prod.fst =
      e.references ++ e.bodyType?.toList ++ e.request.query.map (·.2) := by
    simp only [spotted,List.map_append,List.map_map]
    rw [map_numbered (f := fun s => [s]) fun _ _ => rfl]
    simp [Function.comp_def]
  rw [symbols,← hall,List.filter_map]
  rfl

theorem isBlankText_eq_false_iff :
    Text.isBlankText s = false ↔ ∃ c ∈ s.toList, Text.isBlank c = false := by
  simp [Text.isBlankText]

theorem mem_symbols :
    s ∈ e.symbols ↔ (∃ c ∈ s.toList, Text.isBlank c = false) ∧ ∃ p, e.Mentions s p := by
  rw [symbols_eq,List.mem_eraseDups,List.mem_map,← isBlankText_eq_false_iff]
  constructor
  · rintro ⟨⟨s,p⟩,hm,rfl⟩
    obtain ⟨hm,hb⟩ := List.mem_filter.mp hm
    exact ⟨by simpa using hb,p,mem_spotted.mp hm⟩
  · rintro ⟨hb,p,hp⟩
    exact ⟨(s,p),List.mem_filter.mpr ⟨mem_spotted.mpr hp,by simpa using hb⟩,rfl⟩

theorem symbols_ordered (h : e.request.query.Pairwise fun m m' => m.1 < m'.1) :
    e.symbols.Pairwise fun s s' => ∃ p, e.Mentions s p ∧ ∀ q, e.Mentions s' q → p.Before q := by
  rw [symbols_eq]
  refine (eraseDups_ordered ((spotted_ordered h).filter _)).imp_of_mem ?_
  intro s s' _ hs' ⟨p,hp,hleast⟩
  rw [← symbols_eq,mem_symbols,← isBlankText_eq_false_iff] at hs'
  refine ⟨p,mem_spotted.mp (List.mem_filter.mp hp).1,?_⟩
  intro q hq
  exact hleast q (List.mem_filter.mpr ⟨mem_spotted.mpr hq,by simpa using hs'.1⟩)

/-- The symbols of an endpoint whose parameters are sorted by name are the texts that are not blank and
stand in it as a reference, as the type of the body or as the type of a parameter. Each of them is there
once, in the order of the spots at which they first stand, and of two that are the same but for the blanks
around them both are there. -/
theorem symbols_exact (h : e.request.query.Pairwise fun m m' => m.1 < m'.1) :
    e.symbols.Nodup ∧
    (∀ s, s ∈ e.symbols ↔ (∃ c ∈ s.toList, Text.isBlank c = false) ∧ ∃ p, e.Mentions s p) ∧
    (e.symbols.Pairwise fun s s' => ∃ p, e.Mentions s p ∧ ∀ q, e.Mentions s' q → p.Before q) ∧
    ∀ s s' p p', e.Mentions s p → e.Mentions s' p' → s ≠ s' → Text.trim s = Text.trim s' →
      Text.trim s ≠ "" → e.symbols.count s = 1 ∧ e.symbols.count s' = 1 := by
  have hnodup : e.symbols.Nodup := by
    refine (symbols_ordered h).imp ?_
    rintro s _ ⟨p,hp,hleast⟩ rfl
    exact p.before_irrefl (hleast p hp)
  refine ⟨hnodup,fun _ => mem_symbols,symbols_ordered h,?_⟩
  intro s s' p p' hp hp' _ htrim hne
  have honce {t : String} {q : Spot} (ht : Text.trim t ≠ "") (hq : e.Mentions t q) :
      e.symbols.count t = 1 := by
    refine List.count_eq_one_of_mem hnodup (mem_symbols.mpr ⟨?_,q,hq⟩)
    rw [← isBlankText_eq_false_iff,Bool.eq_false_iff,Ne,Text.isBlankText_iff]
    intro hblank
    exact ht (by rw [Text.trim,hblank])
  exact ⟨honce hne hp,honce (htrim ▸ hne) hp'⟩

/-- An endpoint in which the three kinds of texts overlap. -/
def cartEndpoint : Endpoint where
  request := {
    query := [("a"," Item"),("b","Cart"),("c","\u00a0")]
    body := [("type",.text "Item")] }
  references := ["Cart","","Stock","Cart"]

theorem symbols_exact_cart :
    (cartEndpoint.request.query.Pairwise fun m m' => m.1 < m'.1) ∧
    cartEndpoint.symbols = ["Cart","Stock","Item"," Item"] ∧
    cartEndpoint.symbols.count "Item" = 1 ∧ cartEndpoint.symbols.count " Item" = 1 := by
  have h : cartEndpoint.request.query.Pairwise fun m m' => m.1 < m'.1 := by decide
  obtain ⟨_,_,_,hblanks⟩ := symbols_exact h
  have hitem : cartEndpoint.Mentions "Item" .body := rfl
  have hspaced : cartEndpoint.Mentions " Item" (.parameter "a") := List.mem_cons_self
  exact ⟨h,by decide,
    hblanks _ _ _ _ hitem hspaced (by decide) (by decide) (by decide)⟩

end EndpointAudit.Endpoint
