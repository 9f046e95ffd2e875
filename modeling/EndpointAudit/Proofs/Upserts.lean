import EndpointAudit.Proofs.Expressions
import EndpointAudit.Proofs.FirstPlaces
import EndpointAudit.Proofs.Selection

namespace EndpointAudit.Model.Table

variable {t : Table} {e f : Entry} {selector : String}

/-- A name keeps the place at which it came in first. -/
theorem names_ofEntries (es : List Entry) :
    (ofEntries es).map Entry.name = (es.map Entry.name).eraseDups := by
  induction es using List.reverseRecOn with
  | nil => rfl
  | append_singleton es e ih =>
    rw [ofEntries_concat,names_upsert,ih,List.map_append,List.map_singleton,eraseDups_concat]
    simp only [List.mem_eraseDups]

/-- A table holds the entries that were put in last under their names, and no others. -/
theorem mem_ofEntries {es : List Entry} : e ∈ ofEntries es ↔ latest es e.name = some e := by
  rw [← find?_ofEntries]
  constructor
  · intro he
    exact find?_of_mem (names_ofEntries_nodup es) he
  · intro he
    exact List.mem_of_find?_eq_some he

theorem latest_append (es es' : List Entry) (name : String) :
    latest (es ++ es') name = (latest es' name).or (latest es name) := by
  rw [latest,List.reverse_append,List.find?_append]
  rfl

/-- A search by name passes over an entry that has been put in, or over the one whose place it took, if it
does not look for their name. -/
theorem find?_upsert_other {q : String → Bool} (hq : q e.name = false) (t : Table) :
    List.find? (fun f => q f.name) (upsert e t) = List.find? (fun f => q f.name) t := by
  induction t with
  | nil => simp [upsert,hq]
  | cons g t ih =>
    unfold upsert
    by_cases hg : g.name = e.name
    · have hskip : q g.name = false := hg ▸ hq
      simp [hg,hq]
    · rw [if_neg hg,List.find?_cons,List.find?_cons,ih]

/-- A selector contains a name, whatever the case of either. -/
def Contains (selector name : String) : Prop :=
  (Text.lower name).toList <:+: (Text.lower selector).toList

theorem contains_iff {name : String} :
    Text.contains (Text.lower selector) (Text.lower name) = true ↔ Contains selector name :=
  Text.splitFirst_isSome_iff

theorem select?_upsert_other (h : ¬ Contains selector e.name) (t : Table) :
    select? (upsert e t) selector = select? t selector := by
  have hother : (Text.lower e.name == Text.lower selector) = false := by
    apply beq_false_of_ne
    intro he
    apply h
    unfold Contains
    exact he ▸ List.infix_rfl
  have hapart : Text.contains (Text.lower selector) (Text.lower e.name) = false :=
    Bool.eq_false_iff.mpr fun hc => h (contains_iff.mp hc)
  have hfirst := find?_upsert_other (q := fun n => Text.lower n == Text.lower selector) hother t
  have hsecond :=
    find?_upsert_other (q := fun n => Text.contains (Text.lower selector) (Text.lower n)) hapart t
  simp only [select?,hfirst,hsecond]

/-- An entry that is spelled like the selector comes before all that the selector only contains. -/
theorem resolve_spelled (hf : f ∈ t) (hs : Text.lower f.name = Text.lower selector) :
    ∃ g ∈ t, resolve t selector = .ok g ∧ Text.lower g.name = Text.lower selector := by
  obtain ⟨g,hg⟩ : ∃ g, List.find? (fun e => Text.lower e.name == Text.lower selector) t = some g :=
    Option.isSome_iff_exists.mp (List.find?_isSome.mpr ⟨f,hf,beq_iff_eq.mpr hs⟩)
  refine ⟨g,List.mem_of_find?_eq_some hg,?_,by simpa using List.find?_some hg⟩
  unfold resolve select?
  simp only [hg,Option.some_or,Option.elim_some]

/-- However many entries have been put into the standard table, it holds each name once, in the order in
which the names came in, with the entry that was put in last under it. A selector resolves as before when
one more entry is put in whose name it does not contain, and it resolves to an entry of its own spelling
where there is one. -/
theorem upserts_ordered (es : List Entry) :
    (upsertAll standard es).map Entry.name = ((standard ++ es).map Entry.name).eraseDups ∧
    ((upsertAll standard es).map Entry.name).Nodup ∧
    (∀ e, e ∈ upsertAll standard es ↔ (latest es e.name).or (latest standard e.name) = some e) ∧
    (∀ selector e, ¬ Contains selector e.name →
      resolve (upsert e (upsertAll standard es)) selector = resolve (upsertAll standard es) selector) ∧
    ∀ selector, ∀ f ∈ upsertAll standard es, Text.lower f.name = Text.lower selector →
      ∃ g ∈ upsertAll standard es, resolve (upsertAll standard es) selector = .ok g ∧
        Text.lower g.name = Text.lower selector := by
  refine ⟨?_,?_,?_,?_,?_⟩
  · rw [upsertAll_standard]
    exact names_ofEntries (standard ++ es)
  · rw [upsertAll_standard]
    exact names_ofEntries_nodup (standard ++ es)
  · intro e
    rw [upsertAll_standard,mem_ofEntries,latest_append]
  · intro selector e h
    rw [resolve,resolve,select?_upsert_other h]
  · intro selector f hf hs
    exact resolve_spelled hf hs

/-- Two models of one's own, of which one takes the place of a standard entry. -/
def codingModels : List Entry :=
  [ownModel "qwen-coder",ownModel "deepseek"]

/-- The selector contains the name of an entry that comes first, and is spelled like the last one. -/
theorem upserts_ordered_coder :
    (upsertAll standard codingModels).map Entry.name = ["qwen","deepseek","qwen-coder"] ∧
      ownModel "deepseek" ∈ upsertAll standard codingModels ∧
      (∃ g, resolve (upsertAll standard codingModels) "QWEN-Coder" = .ok g ∧
        Text.lower g.name = Text.lower "QWEN-Coder") ∧
      ¬ Contains "QWEN-Coder" "llama" ∧
      resolve (upsert (ownModel "llama") (upsertAll standard codingModels)) "QWEN-Coder" =
        resolve (upsertAll standard codingModels) "QWEN-Coder" := by
  have hspelling : Text.lower "qwen-coder" = Text.lower "QWEN-Coder" := by decide +kernel
  have hllama : ¬ Contains "QWEN-Coder" "llama" := by
    rw [← contains_iff]
    decide +kernel
  obtain ⟨hnames,_,hmem,hframe,hspelled⟩ := upserts_ordered codingModels
  have hcoder : ownModel "qwen-coder" ∈ upsertAll standard codingModels := (hmem _).mpr rfl
  obtain ⟨g,_,hg,hlower⟩ := hspelled "QWEN-Coder" (ownModel "qwen-coder") hcoder hspelling
  exact ⟨hnames,(hmem _).mpr rfl,⟨g,hg,hlower⟩,hllama,hframe "QWEN-Coder" (ownModel "llama") hllama⟩

end EndpointAudit.Model.Table
