import EndpointAudit.Proofs.PairedWalks
import EndpointAudit.Proofs.Surveys

namespace EndpointAudit

namespace FileTree

variable {t : FileTree} {loc : Location} {path : String}

/-- What stands at the end of a path to a directory is no file, be it a link. -/
theorem locate_unfollowed (h : t.find path = .ok (loc,.dir)) :
    ∃ spot n, t.locate path false = .ok (spot,some n) ∧ n.isFile = false := by
  have hl := Detection.find_eq_ok_iff.mp h
  unfold locate at hl ⊢
  split at hl
  · cases hl
  rename_i hnul
  split at hl
  · cases hl
  rename_i hempty
  split at hl
  · cases hl
  rename_i hshort
  rw [if_neg hnul,if_neg hempty,if_neg hshort]
  obtain ⟨spot,n,hn⟩ := walk_unfollowed hl
  refine ⟨spot,n,hn,?_⟩
  cases n with
  | file bytes x =>
    rw [walk_followed hn] at hl
    cases hl
  | dir | link target => rfl

/-- A regular file stands below a directory, at the end of some names. -/
def FileBelow (t : FileTree) (dir : Location) (names : List String) : Prop :=
  ∃ bytes x, (names,Node.file bytes x) ∈ t.descendants dir

theorem entries_put_free (h : t.node? loc = none) (n : Node) :
    (t.put loc n).entries = t.entries ++ [(loc,n)] := by
  have hne : loc ≠ [] := by
    rintro rfl
    cases h
  have hlookup : t.entries.lookup loc = none := by
    rwa [node?,if_neg (by simpa using hne)] at h
  unfold put
  rw [hlookup]
  rfl

/-- A directory that is made adds no file. -/
theorem fileBelow_put_dir {dir : Location} {names : List String} (h : t.node? loc = none) :
    (t.put loc .dir).FileBelow dir names ↔ t.FileBelow dir names := by
  simp [FileBelow,Detection.mem_descendants,entries_put_free h]

end FileTree

namespace Detection

variable {t t' : FileTree} {root root' : String} {loc loc' : Location} {m : Mark} {e : Entry}

/-- The names of what a walk meets besides regular files. -/
def otherNames (t : FileTree) (root : String) : List String :=
  ((walk t root).filter (!·.regular)).map Entry.name

theorem mem_otherNames {name : String} :
    name ∈ otherNames t root ↔ ⟨name,false⟩ ∈ walk t root := by
  simp only [otherNames,List.mem_map,List.mem_filter,Bool.not_eq_true']
  constructor
  · rintro ⟨⟨name,regular⟩,⟨he,hregular⟩,rfl⟩
    exact hregular ▸ he
  · intro he
    exact ⟨_,⟨he,rfl⟩,rfl⟩

/-- A walk through a directory meets the directory and what lies below it. -/
theorem mem_walk_of_dir (h : t.find root = .ok (loc,.dir)) : e ∈ walk t root ↔
    e = ⟨rootName root,false⟩ ∨
      ∃ names n, (names,n) ∈ t.descendants loc ∧ e = ⟨names.getLastD "",n.isFile⟩ := by
  obtain ⟨spot,n,hroot,hn⟩ := FileTree.locate_unfollowed h
  rw [mem_walk]
  constructor
  · rintro ⟨spot',n',loc',target,hroot',hfind,hmet⟩
    rw [hroot] at hroot'
    cases hroot'
    rw [h] at hfind
    cases hfind
    rw [hn] at hmet
    exact hmet.imp_right And.right
  · intro hmet
    rw [← hn] at hmet
    exact ⟨spot,n,loc,.dir,hroot,h,hmet.imp_right fun hbelow => ⟨rfl,hbelow⟩⟩

/-- The regular files that a walk through a directory meets are those below it. -/
theorem regular_mem_walk (h : t.find root = .ok (loc,.dir)) {name : String} :
    ⟨name,true⟩ ∈ walk t root ↔ ∃ names, t.FileBelow loc names ∧ name = names.getLastD "" := by
  rw [mem_walk_of_dir h]
  constructor
  · rintro (hself | ⟨names,n,hm,he⟩)
    · cases hself
    · obtain ⟨hname,hfile⟩ := Entry.mk.inj he
      cases n with
      | file bytes x => exact ⟨names,⟨bytes,x,hm⟩,hname⟩
      | dir | link target => cases hfile
  · rintro ⟨names,⟨bytes,x,hm⟩,rfl⟩
    exact .inr ⟨names,_,hm,rfl⟩

/-- A mark shows by a regular file below the root, or by the name of something else. -/
theorem shown_iff (h : t.find root = .ok (loc,.dir)) : (∃ e ∈ walk t root, m.shows e = true) ↔
    (∃ names, t.FileBelow loc names ∧ m.shows ⟨names.getLastD "",true⟩ = true) ∨
      m.mark ∈ otherNames t root := by
  constructor
  · rintro ⟨⟨name,regular⟩,he,hshows⟩
    cases regular with
    | true =>
      obtain ⟨names,hfile,rfl⟩ := (regular_mem_walk h).mp he
      exact .inl ⟨names,hfile,hshows⟩
    | false =>
      rcases Mark.shows_iff.mp hshows with hname | ⟨hregular,_⟩
      · refine .inr (mem_otherNames.mpr ?_)
        rwa [← hname]
      · cases hregular
  · rintro (⟨names,hfile,hshows⟩ | hname)
    · exact ⟨_,(regular_mem_walk h).mpr ⟨names,hfile,rfl⟩,hshows⟩
    · exact ⟨_,mem_otherNames.mp hname,Mark.shows_iff.mpr (.inl rfl)⟩

/-- Two projects have the same languages if they have the same files, and if the same marks are names of
something else in them. -/
theorem languages_congr (h : t.find root = .ok (loc,.dir)) (h' : t'.find root' = .ok (loc',.dir))
    (hfiles : ∀ names, t'.FileBelow loc' names ↔ t.FileBelow loc names)
    (hothers : ∀ m ∈ marks, m.mark ∈ otherNames t' root' ↔ m.mark ∈ otherNames t root) :
    languages t' root' = languages t root := by
  refine languagesOf_congr ?_
  intro m hm
  simp only [shown_iff h,shown_iff h',hfiles,hothers m hm]

theorem lastName_of_append {loc spot : Location} {names : List String} {name : String}
    (hne : names ≠ []) (h : loc ++ names = spot ++ [name]) : names.getLastD "" = name := by
  obtain ⟨front,last,rfl⟩ := (List.eq_nil_or_concat names).resolve_left hne
  rw [List.concat_eq_append,← List.append_assoc] at h
  have hlast := List.singleton_inj.mp (List.append_inj' h rfl).2
  simp [hlast]

/-- A directory that is made brings its own name, and no other. -/
theorem otherNames_put_dir (h : t.find root = .ok (loc,.dir)) {spot : Location} {name other : String}
    (hfree : t.node? (spot ++ [name]) = none) (hne : other ≠ name) :
    other ∈ otherNames (t.put (spot ++ [name]) .dir) root ↔ other ∈ otherNames t root := by
  have h' : (t.put (spot ++ [name]) .dir).find root = .ok (loc,.dir) :=
    find_eq_ok_iff.mpr ((FileTree.grows_put hfree .dir).locate (find_eq_ok_iff.mp h))
  simp only [mem_otherNames,mem_walk_of_dir h,mem_walk_of_dir h',mem_descendants,
    FileTree.entries_put_free hfree,List.mem_append,List.mem_singleton]
  apply or_congr_right
  constructor
  · rintro ⟨names,n,⟨hnames,hold | hnew⟩,he⟩
    · exact ⟨names,n,⟨hnames,hold⟩,he⟩
    · have hlast := lastName_of_append hnames (Prod.mk.inj hnew).1
      exact absurd ((Entry.mk.inj he).1.trans hlast) hne
  · rintro ⟨names,n,⟨hnames,hm⟩,he⟩
    exact ⟨names,n,⟨hnames,.inl hm⟩,he⟩

/-- The languages of a project, and so its kind, depend on the regular files below its root and on the
marks that are names of something else, wherever the root is and whatever it is called. A directory that
is made changes nothing, unless a mark is its name. -/
theorem languages_of_files (h : t.find root = .ok (loc,.dir)) :
    (∀ t' root' loc', t'.find root' = .ok (loc',.dir) →
      (∀ names, t'.FileBelow loc' names ↔ t.FileBelow loc names) →
      (∀ m ∈ marks, m.mark ∈ otherNames t' root' ↔ m.mark ∈ otherNames t root) →
      languages t' root' = languages t root ∧ kind t' root' = kind t root) ∧
    ∀ spot name, t.node? (spot ++ [name]) = none → (∀ m ∈ marks, m.mark ≠ name) →
      languages (t.put (spot ++ [name]) .dir) root = languages t root ∧
      kind (t.put (spot ++ [name]) .dir) root = kind t root := by
  constructor
  · intro t' root' loc' h' hfiles hothers
    have hsame := languages_congr h h' hfiles hothers
    exact ⟨hsame,congrArg kindOf hsame⟩
  · intro spot name hfree hname
    have h' : (t.put (spot ++ [name]) .dir).find root = .ok (loc,.dir) :=
      find_eq_ok_iff.mpr ((FileTree.grows_put hfree .dir).locate (find_eq_ok_iff.mp h))
    have hsame := languages_congr h h' (fun names => FileTree.fileBelow_put_dir hfree)
      fun m hm => otherNames_put_dir h hfree (hname m hm)
    exact ⟨hsame,congrArg kindOf hsame⟩

/-- A project of one file, in a directory of the given name. -/
def loneFile (dir file : String) : FileTree where
  entries := [([dir],.dir),([dir,file],.file ⟨#[]⟩ false)]
  cwd := []

theorem fileBelow_loneFile {dir file : String} {names : List String} :
    (loneFile dir file).FileBelow [dir] names ↔ names = [file] := by
  simp only [FileTree.FileBelow,mem_descendants,loneFile,List.mem_cons,List.not_mem_nil,or_false]
  constructor
  · rintro ⟨bytes,x,hnames,hm | hm⟩
    · cases (Prod.mk.inj hm).2
    · exact List.cons.inj (Prod.mk.inj hm).1 |>.2
  · rintro rfl
    exact ⟨_,_,by simp,.inr rfl⟩

/-- A module of Go stays one when it is moved, and when it gets a directory. -/
theorem languages_of_files_moved :
    kind (loneFile "shop" "go.mod") "/shop" = "Go" ∧ kind (loneFile "attic" "go.mod") "/attic" = "Go" ∧
      kind ((loneFile "shop" "go.mod").put ["shop","src"] .dir) "/shop" = "Go" := by
  have hgo : kind (loneFile "shop" "go.mod") "/shop" = "Go" := by decide
  have hdir : (loneFile "shop" "go.mod").find "/shop" = .ok (["shop"],.dir) := by rfl
  have hdir' : (loneFile "attic" "go.mod").find "/attic" = .ok (["attic"],.dir) := by rfl
  have hothers : ∀ m ∈ marks, m.mark ∈ otherNames (loneFile "attic" "go.mod") "/attic" ↔
      m.mark ∈ otherNames (loneFile "shop" "go.mod") "/shop" := by decide
  obtain ⟨hmoved,hmade⟩ := languages_of_files hdir
  have hkind' := (hmoved _ _ _ hdir' (fun names => fileBelow_loneFile.trans fileBelow_loneFile.symm)
    hothers).2
  have hkind'' := (hmade ["shop"] "src" rfl (by decide)).2
  exact ⟨hgo,hkind'.trans hgo,hkind''.trans hgo⟩

/-- A directory that bears the name of a mark shows its language: the root under another name, or an
empty directory in it. -/
theorem languages_of_names :
    (∀ names, (loneFile "artisan" "notes.txt").FileBelow ["artisan"] names ↔
      (loneFile "notes" "notes.txt").FileBelow ["notes"] names) ∧
    (∀ names, ((loneFile "notes" "notes.txt").put ["notes","Makefile"] .dir).FileBelow ["notes"] names ↔
      (loneFile "notes" "notes.txt").FileBelow ["notes"] names) ∧
    languages (loneFile "notes" "notes.txt") "/notes" = [] ∧
    languages (loneFile "artisan" "notes.txt") "/artisan" = [("PHP",["Laravel"])] ∧
    languages ((loneFile "notes" "notes.txt").put ["notes","Makefile"] .dir) "/notes" =
      [("C/C++",["Make"])] := by
  refine ⟨fun names => fileBelow_loneFile.trans fileBelow_loneFile.symm,
    fun names => FileTree.fileBelow_put_dir rfl,?_,?_,?_⟩
  · decide
  · decide
  · decide

end Detection

end EndpointAudit
