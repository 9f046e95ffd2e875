import EndpointAudit.Proofs.Languages
import EndpointAudit.Proofs.SoundTrees
import Mathlib.Data.List.Sort
import Mathlib.Data.String.Basic

namespace EndpointAudit.Detection

section ascending

variable {α : Type} {key k s : String} {a : α} {members : List (String × α)} {ts : List String}

theorem lookup_insertMember : (Json.insertMember key a members).lookup k =
    if k = key then some a else members.lookup k := by
  induction members with
  | nil => by_cases hk : k = key <;> simp [Json.insertMember,List.lookup_cons,beq_eq_decide,hk]
  | cons member members ih =>
    obtain ⟨k',b⟩ := member
    unfold Json.insertMember
    split
    · by_cases hk : k = key <;> simp [List.lookup_cons,beq_eq_decide,hk]
    · split
      · rename_i hkey
        subst hkey
        by_cases hk : k = key <;> simp [List.lookup_cons,beq_eq_decide,hk]
      · rename_i hkey
        rw [List.lookup_cons,ih,List.lookup_cons]
        by_cases hk : k = k'
        · simp [hk,Ne.symm hkey]
        · simp [beq_false_of_ne hk]

/-- A list that ascends by a key is known by its members. -/
theorem eq_of_ascending {β : Type} [Preorder β] {key : α → β} {xs ys : List α}
    (hx : xs.Pairwise fun a b => key a < key b) (hy : ys.Pairwise fun a b => key a < key b)
    (hm : ∀ a, a ∈ xs ↔ a ∈ ys) : xs = ys := by
  have hirrefl : Std.Irrefl fun a b : α => key a < key b := ⟨fun a => lt_irrefl (key a)⟩
  have hanti : Std.Antisymm fun a b : α => key a < key b :=
    ⟨fun a b hlt hgt => absurd hgt (lt_asymm hlt)⟩
  exact List.Pairwise.eq_of_mem_iff hx hy hm

/-- Members in ascending order of their keys. -/
def Ascending (members : List (String × α)) : Prop :=
  members.Pairwise fun m m' => m.1 < m'.1

theorem Ascending.nodup (h : Ascending members) : (members.map Prod.fst).Nodup :=
  List.pairwise_map.mpr (h.imp fun hlt => String.ne_of_lt hlt)

theorem Ascending.insertMember (h : Ascending members) (key : String) (a : α) :
    Ascending (Json.insertMember key a members) := by
  induction members with
  | nil => exact List.pairwise_singleton _ _
  | cons member members ih =>
    obtain ⟨k',b⟩ := member
    obtain ⟨hfirst,hrest⟩ := List.pairwise_cons.mp h
    unfold Json.insertMember
    split
    · rename_i hlt
      refine List.pairwise_cons.mpr ⟨?_,h⟩
      intro m hm
      rcases List.mem_cons.mp hm with rfl | hm
      · exact hlt
      · exact String.lt_trans hlt (hfirst m hm)
    · rename_i hlt
      split
      · rename_i hkey
        subst hkey
        exact List.pairwise_cons.mpr ⟨hfirst,hrest⟩
      · rename_i hkey
        refine List.pairwise_cons.mpr ⟨?_,ih hrest⟩
        intro m hm
        rcases mem_insertMember.mp (List.mem_map_of_mem hm) with he | hold
        · rw [he]
          exact lt_of_le_of_ne (not_lt.mp hlt) (Ne.symm hkey)
        · obtain ⟨m',hm',he⟩ := List.mem_map.mp hold
          rw [← he]
          exact hfirst m' hm'

theorem mem_insertSorted {tool : String} : tool ∈ insertSorted s ts ↔ tool = s ∨ tool ∈ ts := by
  induction ts with
  | nil => simp [insertSorted]
  | cons t ts ih =>
    unfold insertSorted
    split
    · simp
    · split
      · rename_i ht
        simp [ht]
      · rw [List.mem_cons,List.mem_cons,ih,or_left_comm]

theorem sorted_insertSorted (h : ts.Pairwise (· < ·)) (s : String) :
    (insertSorted s ts).Pairwise (· < ·) := by
  induction ts with
  | nil => exact List.pairwise_singleton _ _
  | cons t ts ih =>
    obtain ⟨hfirst,hrest⟩ := List.pairwise_cons.mp h
    unfold insertSorted
    split
    · rename_i hlt
      refine List.pairwise_cons.mpr ⟨?_,h⟩
      intro u hu
      rcases List.mem_cons.mp hu with rfl | hu
      · exact hlt
      · exact String.lt_trans hlt (hfirst u hu)
    · rename_i hlt
      split
      · exact h
      · rename_i ht
        refine List.pairwise_cons.mpr ⟨?_,ih hrest⟩
        intro u hu
        rcases mem_insertSorted.mp hu with rfl | hu
        · exact lt_of_le_of_ne (not_lt.mp hlt) (Ne.symm ht)
        · exact hfirst u hu

end ascending

variable {found found' : Found} {ms ms' : List Mark} {entries entries' : List Entry} {m : Mark}
  {l : String}

/-- The tools that were found for a language. -/
def toolsOf (found : Found) (language : String) : List String :=
  (found.lookup language).getD []

/-- What some marks say, and no more: their languages, each with the tools of its marks, in ascending
order. -/
structure Survey (ms : List Mark) (found : Found) : Prop where
  ascending : Ascending found
  tools_ascending : ∀ l, (toolsOf found l).Pairwise (· < ·)
  language_iff : ∀ l, l ∈ found.map Prod.fst ↔ ∃ m ∈ ms, m.language = l
  tool_iff : ∀ l tool, tool ∈ toolsOf found l ↔ ∃ m ∈ ms, m.language = l ∧ m.tool = some tool

theorem survey_nil : Survey [] [] where
  ascending := List.Pairwise.nil
  tools_ascending _ := List.Pairwise.nil
  language_iff := by simp
  tool_iff := by simp [toolsOf]

theorem toolsOf_addMark : toolsOf (addMark m found) l =
    if l = m.language then m.tool.elim (toolsOf found l) (insertSorted · (toolsOf found l))
    else toolsOf found l := by
  unfold toolsOf addMark
  rw [lookup_insertMember]
  by_cases hl : l = m.language
  · simp [hl]
  · simp [hl]

/-- One more mark adds its language and its tool. -/
theorem Survey.addMark (h : Survey ms found) (m : Mark) :
    Survey (ms ++ [m]) (Detection.addMark m found) where
  ascending := h.ascending.insertMember _ _
  tools_ascending l := by
    rw [toolsOf_addMark]
    split
    · cases m.tool with
      | none => exact h.tools_ascending l
      | some tool => exact sorted_insertSorted (h.tools_ascending l) tool
    · exact h.tools_ascending l
  language_iff l := by
    rw [Detection.addMark,mem_insertMember,h.language_iff]
    simp only [List.mem_append,List.mem_singleton,or_and_right,exists_or,exists_eq_left]
    rw [or_comm,eq_comm]
  tool_iff l tool := by
    rw [toolsOf_addMark]
    simp only [List.mem_append,List.mem_singleton,or_and_right,exists_or,exists_eq_left,
      ← h.tool_iff l tool]
    split
    · rename_i hl
      cases ht : m.tool with
      | none => simp
      | some tool' =>
        rw [Option.elim_some,mem_insertSorted,or_comm,Option.some.injEq,eq_comm (a := tool)]
        simp [hl]
    · rename_i hl
      simp [Ne.symm hl]

theorem survey_foldl (h : Survey ms found) (ms' : List Mark) :
    Survey (ms ++ ms') (ms'.foldl (fun f m => Detection.addMark m f) found) := by
  induction ms' generalizing ms found with
  | nil => rwa [List.append_nil]
  | cons m ms' ih =>
    have hnext := ih (h.addMark m)
    rwa [List.append_assoc] at hnext

/-- The marks that the entries of a walk show, as often as they do. -/
def shownMarks (entries : List Entry) : List Mark :=
  entries.flatMap fun e => marks.filter (·.shows e)

theorem mem_shownMarks : m ∈ shownMarks entries ↔ m ∈ marks ∧ ∃ e ∈ entries, m.shows e = true := by
  simp only [shownMarks,List.mem_flatMap,List.mem_filter]
  constructor
  · intro ⟨e,he,hm,hs⟩
    exact ⟨hm,e,he,hs⟩
  · intro ⟨hm,e,he,hs⟩
    exact ⟨e,he,hm,hs⟩

theorem survey_entries (entries : List Entry) : Survey (shownMarks entries) (languagesOf entries) := by
  have h : ∀ {ms found}, Survey ms found →
      Survey (ms ++ shownMarks entries) (entries.foldl addEntry found) := by
    induction entries with
    | nil =>
      intro ms found hs
      simpa [shownMarks] using hs
    | cons e entries ih =>
      intro ms found hs
      have hnext := ih (survey_foldl hs (marks.filter (·.shows e)))
      rwa [List.append_assoc] at hnext
  exact h survey_nil

theorem Ascending.mem_iff (h : Ascending found) {ts : List String} :
    (l,ts) ∈ found ↔ l ∈ found.map Prod.fst ∧ ts = toolsOf found l := by
  constructor
  · intro hm
    refine ⟨List.mem_map_of_mem hm,?_⟩
    rw [toolsOf,FileTree.lookup_of_mem h.nodup hm]
    rfl
  · rintro ⟨hl,rfl⟩
    obtain ⟨⟨l',ts⟩,hm,rfl⟩ := List.mem_map.mp hl
    rwa [toolsOf,FileTree.lookup_of_mem h.nodup hm]

/-- Marks are surveyed in one way, whatever their order and number. -/
theorem Survey.unique (h : Survey ms found) (h' : Survey ms' found') (hm : ∀ m, m ∈ ms ↔ m ∈ ms') :
    found = found' := by
  have htools (l : String) : toolsOf found l = toolsOf found' l := by
    refine List.Pairwise.eq_of_mem_iff (h.tools_ascending l) (h'.tools_ascending l) ?_
    intro tool
    simp only [h.tool_iff,h'.tool_iff,hm]
  refine eq_of_ascending h.ascending h'.ascending ?_
  rintro ⟨l,ts⟩
  rw [h.ascending.mem_iff,h'.ascending.mem_iff,h.language_iff,h'.language_iff,htools]
  simp only [hm]

/-- Walks on which the same marks show find the same. -/
theorem languagesOf_congr
    (h : ∀ m ∈ marks, (∃ e ∈ entries, m.shows e = true) ↔ ∃ e ∈ entries', m.shows e = true) :
    languagesOf entries = languagesOf entries' := by
  refine (survey_entries entries).unique (survey_entries entries') ?_
  intro m
  rw [mem_shownMarks,mem_shownMarks]
  exact and_congr_right (h m)

/-- The kind of a project is the language of the first mark whose language was found. -/
theorem kindOf_eq_first (h : ∀ l ∈ found.map Prod.fst, ∃ m ∈ marks, m.language = l) :
    kindOf found =
      ((marks.find? fun m => m.language ∈ found.map Prod.fst).map Mark.language).getD
        Project.unknownKind := by
  by_cases hnone : found = []
  · have hfind : (marks.find? fun m => m.language ∈ found.map Prod.fst) = none :=
      List.find?_eq_none.mpr (by simp [hnone])
    rw [hfind,hnone]
    rfl
  obtain ⟨hk,hleast⟩ := kindOf_first hnone
  obtain ⟨m₀,hm₀,hlanguage⟩ := h _ hk
  obtain ⟨m,hm⟩ : ∃ m, (marks.find? fun m => m.language ∈ found.map Prod.fst) = some m :=
    Option.isSome_iff_exists.mp
      (List.find?_isSome.mpr ⟨m₀,hm₀,by rw [hlanguage]; exact decide_eq_true hk⟩)
  obtain ⟨hfound,before,after,hmarks,hbefore⟩ := List.find?_eq_some_iff_append.mp hm
  have hfound : m.language ∈ found.map Prod.fst := of_decide_eq_true hfound
  -- no mark that stands before is of a found language, so these count from here
  have hcount {l : String} (hl : l ∈ found.map Prod.fst) :
      priority l = (m :: after).findIdx (·.language == l) + before.length := by
    rw [priority,hmarks,List.findIdx_append,if_neg]
    intro hlt
    obtain ⟨m',hm',he⟩ := List.findIdx_lt_length.mp hlt
    have habsent : ¬ m'.language ∈ found.map Prod.fst := by simpa using hbefore m' hm'
    exact habsent (eq_of_beq he ▸ hl)
  have hle : priority (kindOf found) ≤ priority m.language := hleast _ hfound
  rw [hcount hk,hcount hfound,List.findIdx_cons,List.findIdx_cons,beq_self_eq_true] at hle
  have hsame : (m.language == kindOf found) = true := by
    cases hx : m.language == kindOf found with
    | true => rfl
    | false => simp [hx] at hle
  rw [hm]
  exact (eq_of_beq hsame).symm

/-- More languages make no kind of lower priority. -/
theorem priority_kindOf_le (h : ∀ l ∈ found.map Prod.fst, l ∈ found'.map Prod.fst) :
    priority (kindOf found') ≤ priority (kindOf found) := by
  by_cases hnone : found = []
  · have hunknown : priority (kindOf found) = marks.length := by
      rw [hnone]
      decide
    rw [hunknown]
    exact List.findIdx_le_length
  · have hk := h _ (kindOf_first hnone).1
    have hsome : found' ≠ [] := by
      intro hx
      rw [hx] at hk
      cases hk
    exact (kindOf_first hsome).2 _ hk

variable {t t' : FileTree} {root : String} {loc : Location} {n : Node} {e : Entry}

theorem mem_descendants {names : Location} :
    (names,n) ∈ t.descendants loc ↔ names ≠ [] ∧ (loc ++ names,n) ∈ t.entries := by
  rw [FileTree.descendants,List.mem_filterMap]
  constructor
  · rintro ⟨⟨l,n'⟩,hm,he⟩
    simp only at he
    split at he
    · rename_i name rest hdrop
      cases he
      rw [Text.eq_append_of_dropPrefix? hdrop] at hm
      exact ⟨List.cons_ne_nil _ _,hm⟩
    · cases he
  · rintro ⟨hne,hm⟩
    obtain ⟨name,rest,rfl⟩ := List.exists_cons_of_ne_nil hne
    exact ⟨_,hm,by simp only [Text.dropPrefix?_append]⟩

theorem find_eq_ok_iff {path : String} :
    t.find path = .ok (loc,n) ↔ t.locate path = .ok (loc,some n) := by
  unfold FileTree.find
  rcases t.locate path with f | ⟨l,_ | n'⟩ <;> simp

/-- The name by which a walk calls the path that it starts from. -/
def rootName (root : String) : String :=
  (Path.fileName? root).getD root

/-- A walk meets its root, if that leads somewhere, and what lies below a directory. -/
theorem mem_walk : e ∈ walk t root ↔
    ∃ spot n loc target, t.locate root false = .ok (spot,some n) ∧
      t.find root = .ok (loc,target) ∧
      (e = ⟨rootName root,n.isFile⟩ ∨ target = .dir ∧ ∃ names n', (names,n') ∈ t.descendants loc ∧
        e = ⟨names.getLastD "",n'.isFile⟩) := by
  unfold walk
  rcases t.locate root false with f | ⟨spot,_ | n⟩
  · simp
  · simp
  · rcases t.find root with f | ⟨loc,target⟩
    · simp
    · cases target <;> simp [rootName,eq_comm]

/-- In a tree with more in it a walk meets whatever it met before. -/
theorem walk_subset (hs : t.Sound) (hg : t.Grows t') (root : String) :
    walk t root ⊆ walk t' root := by
  intro e he
  obtain ⟨spot,n,loc,target,hroot,hfind,hmet⟩ := mem_walk.mp he
  have hfind' : t'.find root = .ok (loc,target) :=
    find_eq_ok_iff.mpr (hg.locate (find_eq_ok_iff.mp hfind))
  refine mem_walk.mpr ⟨spot,n,loc,target,hg.locate hroot,hfind',hmet.imp_right ?_⟩
  rintro ⟨hdir,names,n',hm,hname⟩
  obtain ⟨hne,hentry⟩ := mem_descendants.mp hm
  have hnode := hg.node (hs.node?_of_mem hentry)
  have hlonger : loc ++ names ≠ [] := List.append_ne_nil_of_right_ne_nil loc hne
  exact ⟨hdir,names,n',mem_descendants.mpr ⟨hne,FileTree.mem_entries_of_node? hlonger hnode⟩,hname⟩

/-- The languages that are found are those of the marks that some entry of the walk shows, each with the
tools of its marks, in whatever order the entries are met. The kind of the project is the language of the
first mark whose language was found. In a tree with more in it no language and no tool is lost, and the
kind is not one that stands later among the marks. -/
theorem languages_exact (t : FileTree) (root : String) :
    (∀ entries, entries.Perm (walk t root) →
      languagesOf entries = languages t root ∧ kindOf (languagesOf entries) = kind t root) ∧
    Ascending (languages t root) ∧ (∀ l, (toolsOf (languages t root) l).Pairwise (· < ·)) ∧
    (∀ l, l ∈ (languages t root).map Prod.fst ↔
      ∃ m ∈ marks, (∃ e ∈ walk t root, m.shows e = true) ∧ m.language = l) ∧
    (∀ l tool, tool ∈ toolsOf (languages t root) l ↔
      ∃ m ∈ marks, (∃ e ∈ walk t root, m.shows e = true) ∧ m.language = l ∧ m.tool = some tool) ∧
    kind t root = ((marks.find? fun m => m.language ∈ (languages t root).map Prod.fst).map
      Mark.language).getD Project.unknownKind ∧
    ∀ t', t.Sound → t.Grows t' →
      (∀ l ∈ (languages t root).map Prod.fst, l ∈ (languages t' root).map Prod.fst) ∧
      (∀ l, toolsOf (languages t root) l ⊆ toolsOf (languages t' root) l) ∧
      priority (kind t' root) ≤ priority (kind t root) := by
  have hsurvey (t : FileTree) : Survey (shownMarks (walk t root)) (languages t root) :=
    survey_entries (walk t root)
  have hlanguage (t : FileTree) (l : String) : l ∈ (languages t root).map Prod.fst ↔
      ∃ m ∈ marks, (∃ e ∈ walk t root, m.shows e = true) ∧ m.language = l := by
    simp only [(hsurvey t).language_iff,mem_shownMarks,and_assoc]
  have htool (t : FileTree) (l tool : String) : tool ∈ toolsOf (languages t root) l ↔
      ∃ m ∈ marks, (∃ e ∈ walk t root, m.shows e = true) ∧ m.language = l ∧ m.tool = some tool := by
    simp only [(hsurvey t).tool_iff,mem_shownMarks,and_assoc]
  refine ⟨?_,(hsurvey t).ascending,(hsurvey t).tools_ascending,hlanguage t,htool t,?_,?_⟩
  · intro entries hperm
    have hsame : languagesOf entries = languages t root :=
      languagesOf_congr fun m _ => exists_congr fun e => and_congr_left fun _ => hperm.mem_iff
    exact ⟨hsame,congrArg kindOf hsame⟩
  · refine kindOf_eq_first ?_
    intro l hl
    obtain ⟨m,hm,_,rfl⟩ := (hlanguage t l).mp hl
    exact ⟨m,hm,rfl⟩
  · intro t' hs hg
    have hkept {m : Mark} (hm : ∃ e ∈ walk t root, m.shows e = true) :
        ∃ e ∈ walk t' root, m.shows e = true := by
      obtain ⟨e,he,hshows⟩ := hm
      exact ⟨e,walk_subset hs hg root he,hshows⟩
    have hlanguages : ∀ l ∈ (languages t root).map Prod.fst,
        l ∈ (languages t' root).map Prod.fst := by
      intro l hl
      obtain ⟨m,hm,hshown,rfl⟩ := (hlanguage t l).mp hl
      exact (hlanguage t' _).mpr ⟨m,hm,hkept hshown,rfl⟩
    refine ⟨hlanguages,?_,priority_kindOf_le hlanguages⟩
    intro l tool ht
    obtain ⟨m,hm,hshown,hl,htool'⟩ := (htool t l tool).mp ht
    exact (htool t' l tool).mpr ⟨m,hm,hkept hshown,hl,htool'⟩

/-- A project with marks of two languages. -/
def mixedTree : FileTree where
  entries := [(["shop"],.dir),(["shop","package.json"],.file ⟨#[]⟩ false),
    (["shop","go.mod"],.file ⟨#[]⟩ false)]
  cwd := []

theorem mixedTree_sound : mixedTree.Sound := by
  decide

/-- A third language comes first among the marks, and the others stay. -/
theorem languages_exact_mixed :
    languagesOf (walk mixedTree "/shop").reverse = languages mixedTree "/shop" ∧
      kind mixedTree "/shop" = "JavaScript/TypeScript" ∧
      "Modules" ∈ toolsOf (languages mixedTree "/shop") "Go" ∧
      "Modules" ∈ toolsOf
        (languages (mixedTree.put ["shop","pom.xml"] (.file ⟨#[]⟩ false)) "/shop") "Go" ∧
      priority (kind (mixedTree.put ["shop","pom.xml"] (.file ⟨#[]⟩ false)) "/shop") ≤
        priority "JavaScript/TypeScript" := by
  have hkind : kind mixedTree "/shop" = "JavaScript/TypeScript" := by decide
  have htool : "Modules" ∈ toolsOf (languages mixedTree "/shop") "Go" := by decide
  obtain ⟨horder,_,_,_,_,_,hgrowing⟩ := languages_exact mixedTree "/shop"
  obtain ⟨_,htools,hpriority⟩ := hgrowing (mixedTree.put ["shop","pom.xml"] (.file ⟨#[]⟩ false))
    mixedTree_sound (FileTree.grows_put rfl _)
  refine ⟨(horder _ (List.reverse_perm _)).1,hkind,htool,htools "Go" htool,?_⟩
  rwa [hkind] at hpriority

end EndpointAudit.Detection
