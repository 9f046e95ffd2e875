import EndpointAudit.Model.Table
import Mathlib.Data.List.Induction
import Mathlib.Data.List.Nodup

namespace EndpointAudit.Model.Table

variable {t : Table} {e f : Entry}

theorem find?_upsert (t : Table) (e : Entry) (name : String) :
    List.find? (fun f => f.name == name) (upsert e t) =
      if e.name = name then some e else List.find? (fun f => f.name == name) t := by
  induction t with
  | nil => by_cases he : e.name = name <;> simp [upsert,he]
  | cons g t ih =>
    unfold upsert
    by_cases hg : g.name = e.name
    · rw [if_pos hg]
      by_cases he : e.name = name <;> simp [hg,he]
    · rw [if_neg hg]
      by_cases hn : g.name = name
      · have he : e.name ≠ name := fun he => hg (hn.trans he.symm)
        simp [hn,he]
      · simp [hn,ih]

theorem names_upsert (t : Table) (e : Entry) :
    (upsert e t).map Entry.name =
      if e.name ∈ t.map Entry.name then t.map Entry.name else t.map Entry.name ++ [e.name] := by
  induction t with
  | nil => simp [upsert]
  | cons g t ih =>
    unfold upsert
    by_cases hg : g.name = e.name
    · simp [hg]
    · have hmem : e.name ∈ (g :: t).map Entry.name ↔ e.name ∈ t.map Entry.name := by
        simp [Ne.symm hg]
      rw [if_neg hg,List.map_cons,ih]
      by_cases hm : e.name ∈ t.map Entry.name
      · rw [if_pos hm,if_pos (hmem.mpr hm)]
        rfl
      · rw [if_neg hm,if_neg (fun h => hm (hmem.mp h))]
        rfl

/-- A table whose entries came in one after the other, beginning with none. -/
def ofEntries (es : List Entry) : Table :=
  upsertAll [] es

theorem ofEntries_concat (es : List Entry) (e : Entry) :
    ofEntries (es ++ [e]) = upsert e (ofEntries es) :=
  List.foldl_append

theorem upsertAll_standard (es : List Entry) :
    upsertAll standard es = ofEntries (standard ++ es) := by
  have hs : ofEntries standard = standard := rfl
  unfold ofEntries upsertAll at hs ⊢
  rw [List.foldl_append,hs]

/-- The entry that was put in last under a name. -/
def latest (es : List Entry) (name : String) : Option Entry :=
  es.reverse.find? fun e => e.name == name

theorem find?_ofEntries (es : List Entry) (name : String) :
    List.find? (fun f => f.name == name) (ofEntries es) = latest es name := by
  induction es using List.reverseRecOn with
  | nil => rfl
  | append_singleton es e ih =>
    rw [ofEntries_concat,find?_upsert,ih]
    unfold latest
    rw [List.reverse_concat]
    by_cases he : e.name = name <;> simp [he]

theorem names_ofEntries_nodup (es : List Entry) : ((ofEntries es).map Entry.name).Nodup := by
  induction es using List.reverseRecOn with
  | nil => exact List.nodup_nil
  | append_singleton es e ih =>
    rw [ofEntries_concat,names_upsert]
    split
    · exact ih
    · rename_i hm
      exact List.nodup_append_comm.mpr (List.nodup_cons.mpr ⟨hm,ih⟩)

/-- Names stand in the table in the order in which they first came in. -/
theorem find?_names_ofEntries (es : List Entry) (q : String → Bool) :
    ((ofEntries es).map Entry.name).find? q = (es.map Entry.name).find? q := by
  induction es using List.reverseRecOn with
  | nil => rfl
  | append_singleton es e ih =>
    rw [ofEntries_concat,names_upsert,List.map_append,List.find?_append,← ih]
    split
    · rename_i hm
      cases hq : q e.name with
      | false => simp [hq]
      | true =>
        obtain ⟨n,hn⟩ := Option.isSome_iff_exists.mp (List.find?_isSome.mpr ⟨e.name,hm,hq⟩)
        rw [hn]
        rfl
    · rw [List.find?_append]
      rfl

theorem find?_of_mem {t : Table} (hd : (t.map Entry.name).Nodup) (hf : f ∈ t) :
    List.find? (fun g => g.name == f.name) t = some f := by
  obtain ⟨g,hg⟩ : ∃ g, List.find? (fun g => g.name == f.name) t = some g :=
    Option.isSome_iff_exists.mp (List.find?_isSome.mpr ⟨f,hf,by simp⟩)
  have hn : g.name = f.name := by simpa using List.find?_some hg
  rw [hg,List.inj_on_of_nodup_map hd (List.mem_of_find?_eq_some hg) hf hn]

/-- The name that came first into a table of those that differ from a given one in case only. -/
def firstSpelling (es : List Entry) (name : String) : Option String :=
  (es.map Entry.name).find? fun n => Text.lower n == Text.lower name

theorem find?_lower_ofEntries (es : List Entry) (name : String) :
    List.find? (fun f => Text.lower f.name == Text.lower name) (ofEntries es) =
      (firstSpelling es name).bind (latest es) := by
  have hm := find?_names_ofEntries es fun n => Text.lower n == Text.lower name
  rw [List.find?_map] at hm
  unfold firstSpelling
  rw [← hm]
  cases hf : List.find? ((fun n => Text.lower n == Text.lower name) ∘ Entry.name) (ofEntries es) with
  | none => exact hf
  | some f =>
    refine hf.trans ?_
    rw [Option.map_some,Option.bind_some,← find?_ofEntries]
    exact (find?_of_mem (names_ofEntries_nodup es) (List.mem_of_find?_eq_some hf)).symm

/-- The name of an entry that was put in last under it selects an entry in every case: the one that was
put in last under that spelling of the name that came first into the table. It is the entry itself exactly
if no other spelling of its name came in before its own. -/
theorem resolve_own_name {es : List Entry} (h : latest es e.name = some e) :
    ∃ f, resolve (upsertAll standard es) e.name = .ok f ∧
      (firstSpelling (standard ++ es) e.name).bind (latest (standard ++ es)) = some f ∧
      (f = e ↔ firstSpelling (standard ++ es) e.name = some e.name) := by
  have he : e ∈ es := List.mem_reverse.mp (List.mem_of_find?_eq_some h)
  have hlast : latest (standard ++ es) e.name = some e := by
    unfold latest at h ⊢
    rw [List.reverse_append,List.find?_append,h]
    rfl
  obtain ⟨n,hn⟩ : ∃ n, firstSpelling (standard ++ es) e.name = some n :=
    Option.isSome_iff_exists.mp (List.find?_isSome.mpr
      ⟨e.name,List.mem_map.mpr ⟨e,List.mem_append_right _ he,rfl⟩,by simp⟩)
  obtain ⟨f,hf⟩ : ∃ f, latest (standard ++ es) n = some f := by
    obtain ⟨g,hg,rfl⟩ := List.mem_map.mp (List.mem_of_find?_eq_some hn)
    exact Option.isSome_iff_exists.mp (List.find?_isSome.mpr ⟨g,List.mem_reverse.mpr hg,by simp⟩)
  have hname : f.name = n := by simpa using List.find?_some hf
  refine ⟨f,?_,by rw [hn]; exact hf,?_⟩
  · unfold resolve select?
    simp only [upsertAll_standard,find?_lower_ofEntries,hn,Option.bind_some,hf,Option.some_or,
      Option.elim_some]
  · rw [hn,Option.some.injEq]
    constructor
    · intro hfe
      rw [← hname,hfe]
    · intro hne
      rw [hne,hlast] at hf
      exact (Option.some.inj hf).symm

/-- A model of one's own under a new name. -/
def ownModel (name : String) : Entry where
  name
  model := "llama3"
  baseUrl := "http://localhost:11434/v1"
  keyVariable := none
  sendTemperature := true

/-- A name that contains a standard one selects its own entry. -/
theorem resolve_own_name_longer :
    latest [ownModel "deepseek",ownModel "deepseek-r1"] "deepseek-r1" =
        some (ownModel "deepseek-r1") ∧
      resolve (upsertAll standard [ownModel "deepseek",ownModel "deepseek-r1"]) "deepseek-r1" =
        .ok (ownModel "deepseek-r1") := by
  have h : latest [ownModel "deepseek",ownModel "deepseek-r1"] (ownModel "deepseek-r1").name =
      some (ownModel "deepseek-r1") := rfl
  obtain ⟨f,hr,_,hf⟩ := resolve_own_name h
  refine ⟨h,hr.trans ?_⟩
  rw [hf.mpr (by decide +kernel)]

/-- An entry whose name a standard one has in another case is never selected. -/
theorem resolve_other_spelling :
    latest [ownModel "Qwen"] "Qwen" = some (ownModel "Qwen") ∧
      resolve (upsertAll standard [ownModel "Qwen"]) "Qwen" ≠ .ok (ownModel "Qwen") ∧
      (resolve (upsertAll standard [ownModel "Qwen"]) "Qwen").toOption.map Entry.name =
        some "qwen" := by
  refine ⟨rfl,?_,?_⟩
  · decide +kernel
  · decide +kernel

end EndpointAudit.Model.Table
