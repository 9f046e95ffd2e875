import EndpointAudit.Detection
import Mathlib.Data.List.Basic

namespace EndpointAudit.Detection

variable {l : String} {found : Found} {entries : List Entry} {e : Entry}

theorem mem_insertMember {α : Type} {key : String} {a : α} {members : List (String × α)} :
    l ∈ (Json.insertMember key a members).map Prod.fst ↔ l = key ∨ l ∈ members.map Prod.fst := by
  induction members with
  | nil => simp [Json.insertMember]
  | cons member members ih =>
    obtain ⟨k,b⟩ := member
    unfold Json.insertMember
    split
    · simp
    · split
      · rename_i hk
        simp [hk]
      · simp only [List.map_cons,List.mem_cons,ih]
        tauto

theorem mem_foldl_addMark {ms : List Mark} :
    l ∈ (ms.foldl (fun f m => addMark m f) found).map Prod.fst ↔
      (∃ m ∈ ms, m.language = l) ∨ l ∈ found.map Prod.fst := by
  induction ms generalizing found with
  | nil => simp
  | cons m ms ih =>
    rw [List.foldl_cons,ih,addMark,mem_insertMember,List.exists_mem_cons_iff,eq_comm,or_left_comm,
      or_assoc]

/-- A language is found exactly if some entry shows one of its marks. -/
theorem mem_languagesOf : l ∈ (languagesOf entries).map Prod.fst ↔
    ∃ e ∈ entries, ∃ m ∈ marks, m.shows e = true ∧ m.language = l := by
  suffices h : ∀ found : Found, l ∈ (entries.foldl addEntry found).map Prod.fst ↔
      (∃ e ∈ entries, ∃ m ∈ marks, m.shows e = true ∧ m.language = l) ∨ l ∈ found.map Prod.fst by
    simpa [languagesOf] using h []
  intro found
  induction entries generalizing found with
  | nil => simp
  | cons e entries ih =>
    rw [List.foldl_cons,ih,addEntry,mem_foldl_addMark,List.exists_mem_cons_iff,or_left_comm,or_assoc]
    simp only [List.mem_filter,and_assoc]

/-- The project counts as one of the found languages, none of which comes before it. -/
theorem kindOf_first (h : found ≠ []) :
    kindOf found ∈ found.map Prod.fst ∧ ∀ l ∈ found.map Prod.fst, priority (kindOf found) ≤ priority l := by
  have hne : found.map Prod.fst ≠ [] := by simpa using h
  have hk : kindOf found = (found.map Prod.fst).minOn priority hne := by
    rw [kindOf,List.minOn?_eq_some_minOn hne]
    rfl
  rw [hk]
  exact ⟨List.minOn_mem,fun l hl => List.apply_minOn_le_of_mem hl⟩

def java : String := "Java"

theorem priority_eq_zero_iff : priority l = 0 ↔ l = java := by
  rw [priority,show marks = ⟨"pom.xml",java,"Maven"⟩ :: marks.tail from rfl,List.findIdx_cons]
  by_cases h : java = l
  · simp [h]
  · simp [beq_false_of_ne h,Ne.symm h]

theorem kindOf_eq_java_iff : kindOf found = java ↔ java ∈ found.map Prod.fst := by
  by_cases h : found = []
  · subst h
    decide
  · obtain ⟨hm,hle⟩ := kindOf_first h
    constructor
    · intro hk
      rwa [hk] at hm
    · intro hj
      have hz : priority (kindOf found) ≤ 0 := priority_eq_zero_iff.mpr rfl ▸ hle java hj
      exact priority_eq_zero_iff.mp (Nat.le_zero.mp hz)

/-- What a project counts as is a language of the marks, or unknown. -/
theorem kindOf_mem (entries : List Entry) :
    kindOf (languagesOf entries) ∈ Project.unknownKind :: marks.map Mark.language := by
  by_cases h : languagesOf entries = []
  · rw [h]
    exact List.mem_cons_self
  · obtain ⟨e,_,m,hm,_,hl⟩ := mem_languagesOf.mp (kindOf_first h).1
    rw [← hl]
    exact List.mem_cons_of_mem _ (List.mem_map_of_mem hm)

/-- The files that the build tools for Java are set up by. -/
def javaBuildFiles : List String :=
  ["pom.xml","build.gradle","build.gradle.kts","settings.gradle"]

/-- An entry that belongs to a Java project: a build file, or a source file. -/
def Entry.CarriesJava (e : Entry) : Prop :=
  e.name ∈ javaBuildFiles ∨ e.regular = true ∧ Path.nameExtension? e.name = some "java"

instance (e : Entry) : Decidable e.CarriesJava :=
  inferInstanceAs (Decidable (_ ∨ _))

theorem dottedExtension?_eq_some_iff {name mark : String} :
    dottedExtension? name = some mark ↔
      mark.toList.head? = some '.' ∧
        Path.nameExtension? name = some (String.ofList mark.toList.tail) := by
  unfold dottedExtension?
  rw [Option.map_eq_some_iff]
  constructor
  · intro ⟨ext,he,hm⟩
    subst hm
    simpa using he
  · intro ⟨hh,he⟩
    refine ⟨_,he,?_⟩
    cases hc : mark.toList with
    | nil =>
      rw [hc] at hh
      cases hh
    | cons c cs =>
      rw [hc] at hh
      obtain rfl := Option.some.inj hh
      rw [← String.toList_inj]
      simp [hc]

theorem Mark.shows_iff {m : Mark} : m.shows e = true ↔ e.name = m.mark ∨
    e.regular = true ∧ m.mark.toList.head? = some '.' ∧
      Path.nameExtension? e.name = some (String.ofList m.mark.toList.tail) := by
  simp only [Mark.shows,Bool.or_eq_true,Bool.and_eq_true,beq_iff_eq,dottedExtension?_eq_some_iff,
    @eq_comm _ m.mark]

/-- The mark of source files is also the name of some entries, which need not be files. -/
theorem shows_java_iff : (∃ m ∈ marks, m.shows e = true ∧ m.language = java) ↔
    e.CarriesJava ∨ e.name = ".java" := by
  have hmarks : marks.filter (·.language == java) =
      [⟨"pom.xml",java,"Maven"⟩,⟨"build.gradle",java,"Gradle"⟩,⟨"build.gradle.kts",java,"Gradle"⟩,
        ⟨"settings.gradle",java,"Gradle"⟩,⟨".java",java,none⟩] := by decide
  have hfilter : (∃ m ∈ marks, m.shows e = true ∧ m.language = java) ↔
      ∃ m ∈ marks.filter (·.language == java), m.shows e = true := by
    simp only [List.mem_filter,beq_iff_eq]
    constructor
    · intro ⟨m,hm,hs,hl⟩
      exact ⟨m,⟨hm,hl⟩,hs⟩
    · intro ⟨m,⟨hm,hl⟩,hs⟩
      exact ⟨m,hm,hs,hl⟩
  rw [hfilter,hmarks]
  simp only [Mark.shows_iff,Entry.CarriesJava,javaBuildFiles,List.mem_cons,List.not_mem_nil,or_false,
    exists_eq_or_imp,String.reduceToList,List.head?_cons,Option.some.injEq,Char.reduceEq,List.tail_cons,
    String.ofList_cons,String.reduceSingleton,String.ofList_nil,String.append_empty,String.reduceAppend,
    false_and,and_false,existsAndEq,true_and]
  tauto

/-- A project counts as Java exactly if its walk meets an entry that shows Java. -/
theorem kindOf_languagesOf_eq_java_iff :
    kindOf (languagesOf entries) = java ↔ ∃ e ∈ entries, e.CarriesJava ∨ e.name = ".java" := by
  rw [kindOf_eq_java_iff,mem_languagesOf]
  simp only [shows_java_iff]

end EndpointAudit.Detection
