import EndpointAudit.Proofs.MadeDirs
import EndpointAudit.Proofs.MovedProjects
import EndpointAudit.Proofs.PathOrder

namespace EndpointAudit

namespace Path

/-- The extension of a name stands behind its last dot, if that dot is not the first character. -/
theorem nameExtension?_eq_some_iff {name ext : String} : nameExtension? name = some ext ↔
    ∃ stem, stem ≠ [] ∧ name.toList = stem ++ '.' :: ext.toList ∧ '.' ∉ ext.toList := by
  unfold nameExtension?
  cases hcut : Text.cutLast (· == '.') name.toList with
  | none =>
    simp only [reduceCtorEq,false_iff,not_exists,not_and]
    intro stem _ hname _
    exact Text.cutLast_eq_none_iff.mp hcut (hname ▸ by simp)
  | some cut =>
    obtain ⟨stem,last⟩ := cut
    obtain ⟨hname,hlast⟩ := Text.cutLast_eq_some_iff.mp hcut
    constructor
    · intro h
      cases stem with
      | nil => cases h
      | cons c stem =>
        cases h
        exact ⟨c :: stem,List.cons_ne_nil _ _,by simpa using hname,by simpa using hlast⟩
    · rintro ⟨stem',hstem,hname',hlast'⟩
      have hsame := Text.cutLast_eq_some_iff.mpr ⟨hname',hlast'⟩
      rw [hcut] at hsame
      obtain ⟨rfl,rfl⟩ := Prod.mk.inj (Option.some.inj hsame)
      obtain ⟨c,stem,rfl⟩ := List.exists_cons_of_ne_nil hstem
      simp

end Path

namespace FileTree

open EndpointAudit.Path

variable {t : FileTree} {loc : Location} {names : List String} {n : Node}

/-- Whatever stands below a place has names that stand for themselves. -/
theorem Sound.plain_below (hs : t.Sound) (hn : t.node? (loc ++ names) = some n) :
    ∀ p ∈ names, Plain p := by
  intro p hp
  obtain ⟨before,after,rfl⟩ := List.append_of_mem hp
  have hprefix : loc ++ before ++ [p] <+: loc ++ (before ++ p :: after) := ⟨after,by simp⟩
  cases hx : t.node? (loc ++ before ++ [p]) with
  | none =>
    rw [hs.none_below hx hprefix] at hn
    cases hn
  | some m => exact (hs.parent hx).1.toPlain

/-- What lies below a directory is met under different names. -/
theorem Sound.nodup_descendants (hs : t.Sound) (loc : Location) :
    ((t.descendants loc).map Prod.fst).Nodup := by
  rw [descendants,List.Nodup,List.pairwise_map,List.pairwise_filterMap]
  refine (List.pairwise_map.mp hs.unique).imp ?_
  rintro ⟨l,n⟩ ⟨l',n'⟩ hne d hd d' hd' he
  simp only at hd hd'
  split at hd
  · rename_i hdrop
    split at hd'
    · rename_i hdrop'
      cases hd
      cases hd'
      refine hne ?_
      rw [Text.eq_append_of_dropPrefix? hdrop,Text.eq_append_of_dropPrefix? hdrop']
      exact congrArg (loc ++ ·) he
    · cases hd'
  · cases hd

end FileTree

namespace Detection

open EndpointAudit.Path

variable {t : FileTree} {root : String} {loc names : Location} {n : Node} {f : SourceFile}
  {met : List (Location × Node)}

/-- None of the names is hidden by a dot at its start. -/
def Visible (names : List String) : Prop :=
  ∀ n ∈ names, n.toList.head? ≠ some '.'

/-- What is known about the source file at some names below the root: a regular file that no hidden name
leads to, and whose own name is a stem with one of the extensions of source files behind it. -/
structure SourceAt (t : FileTree) (root : String) (loc names : Location) (f : SourceFile) : Prop where
  path : f.path = names.foldl join root
  stands : ∃ bytes x, t.node? (loc ++ names) = some (.file bytes x) ∧ f.size = bytes.size
  visible : Visible names
  named : ∃ front stem, names = front ++ [stem ++ f.kind] ∧ stem ≠ ""
  known : f.kind ∈ sourceKinds

/-- A walk below a directory that meets each entry to which no hidden name leads once, as what it is; it
may go into hidden directories or not. -/
structure Visits (t : FileTree) (loc : Location) (met : List (Location × Node)) : Prop where
  once : (met.map Prod.fst).Nodup
  met_iff : ∀ names n, Visible names →
    ((names,n) ∈ met ↔ names ≠ [] ∧ t.node? (loc ++ names) = some n)

/-- The source files among the entries that a walk has met. -/
def gathered (root : String) (met : List (Location × Node)) : List SourceFile :=
  (met.filterMap (sourceBelow? root)).mergeSort fun a b => before a.path b.path

theorem sourceFiles_eq_gathered (h : t.find root = .ok (loc,.dir)) :
    sourceFiles t root = gathered root (t.descendants loc) := by
  rw [sourceFiles,h]
  rfl

theorem any_isHidden : names.any isHidden = false ↔ Visible names := by
  simp [Visible,isHidden]

/-- An extension of source files begins with its only dot. -/
theorem dot_of_known {kind : String} (h : kind ∈ sourceKinds) :
    ∃ ext, kind.toList = '.' :: ext ∧ '.' ∉ ext := by
  have hall : ∀ kind ∈ sourceKinds, kind.toList.head? = some '.' ∧ '.' ∉ kind.toList.tail := by decide
  obtain ⟨hhead,htail⟩ := hall kind h
  obtain ⟨ext,hext⟩ := List.head?_eq_some_iff.mp hhead
  exact ⟨ext,hext,by simpa [hext] using htail⟩

theorem dottedExtension?_known {name kind : String} (h : kind ∈ sourceKinds) :
    dottedExtension? name = some kind ↔ ∃ stem, stem ≠ "" ∧ name = stem ++ kind := by
  obtain ⟨ext,hkind,hext⟩ := dot_of_known h
  rw [dottedExtension?_eq_some_iff,hkind,List.head?_cons,List.tail_cons,nameExtension?_eq_some_iff]
  simp only [String.toList_ofList,true_and]
  constructor
  · rintro ⟨stem,hstem,hname,_⟩
    refine ⟨String.ofList stem,by simpa using hstem,?_⟩
    apply String.toList_injective
    simp [hname,hkind]
  · rintro ⟨stem,hstem,rfl⟩
    exact ⟨stem.toList,by simpa using hstem,by simp [hkind],hext⟩

theorem sourceFile?_eq_some_iff {path name : String} {bytes : ByteArray} :
    sourceFile? path name bytes = some f ↔ f.path = path ∧ f.size = bytes.size ∧
      (∃ stem, stem ≠ "" ∧ name = stem ++ f.kind) ∧ f.kind ∈ sourceKinds := by
  obtain ⟨path',size,kind⟩ := f
  unfold sourceFile?
  constructor
  · intro h
    split at h
    · rename_i ext hext
      split at h
      · rename_i hknown
        cases h
        have hknown := List.contains_iff_mem.mp hknown
        exact ⟨rfl,rfl,(dottedExtension?_known hknown).mp hext,hknown⟩
      · cases h
    · cases h
  · rintro ⟨rfl,rfl,hstem,hknown⟩
    rw [(dottedExtension?_known hknown).mpr hstem]
    simp only [List.contains_iff_mem.mpr hknown,↓reduceIte]

theorem sourceBelow?_eq_some_iff : sourceBelow? root (names,n) = some f ↔
    ∃ bytes x, n = .file bytes x ∧ Visible names ∧
      sourceFile? (names.foldl join root) (names.getLastD "") bytes = some f := by
  unfold sourceBelow?
  cases n with
  | file bytes x =>
    cases hv : names.any isHidden with
    | true =>
      have hhidden : ¬ Visible names := by
        rw [← any_isHidden,hv]
        exact Bool.true_eq_false_eq_False.elim
      simp [hv,hhidden]
    | false => simp [hv,any_isHidden.mp hv]
  | dir | link target => simp

theorem visits_descendants (hs : t.Sound) (loc : Location) : Visits t loc (t.descendants loc) where
  once := hs.nodup_descendants loc
  met_iff names n _ := by
    rw [mem_descendants]
    refine and_congr_right fun hne => ?_
    exact ⟨hs.node?_of_mem,FileTree.mem_entries_of_node? (List.append_ne_nil_of_right_ne_nil loc hne)⟩

/-- The order in which entries are met is no part of it. -/
theorem Visits.perm (hv : Visits t loc met) {met' : List (Location × Node)} (hp : met'.Perm met) :
    Visits t loc met' where
  once := (hp.map _).nodup_iff.mpr hv.once
  met_iff names n hvisible := hp.mem_iff.trans (hv.met_iff names n hvisible)

theorem sourceAt_of_met (hv : Visits t loc met) (hm : (names,n) ∈ met)
    (hf : sourceBelow? root (names,n) = some f) : SourceAt t root loc names f := by
  obtain ⟨bytes,x,rfl,hvisible,hf⟩ := sourceBelow?_eq_some_iff.mp hf
  obtain ⟨hpath,hsize,⟨stem,hstem,hname⟩,hknown⟩ := sourceFile?_eq_some_iff.mp hf
  obtain ⟨hne,hnode⟩ := (hv.met_iff names _ hvisible).mp hm
  refine ⟨hpath,⟨bytes,x,hnode,hsize⟩,hvisible,⟨names.dropLast,stem,?_,hstem⟩,hknown⟩
  obtain ⟨front,last,rfl⟩ := (List.eq_nil_or_concat names).resolve_left hne
  simpa using hname

theorem mem_gathered (hv : Visits t loc met) :
    f ∈ gathered root met ↔ ∃ names, SourceAt t root loc names f := by
  rw [gathered,List.mem_mergeSort,List.mem_filterMap]
  constructor
  · rintro ⟨⟨names,n⟩,hm,hf⟩
    exact ⟨names,sourceAt_of_met hv hm hf⟩
  · rintro ⟨names,hf⟩
    obtain ⟨bytes,x,hnode,hsize⟩ := hf.stands
    obtain ⟨front,stem,hnames,hstem⟩ := hf.named
    refine ⟨(names,.file bytes x),(hv.met_iff names _ hf.visible).mpr ⟨by simp [hnames],hnode⟩,?_⟩
    refine sourceBelow?_eq_some_iff.mpr ⟨bytes,x,rfl,hf.visible,sourceFile?_eq_some_iff.mpr ?_⟩
    exact ⟨hf.path,hsize,⟨stem,hstem,by simp [hnames]⟩,hf.known⟩

theorem SourceAt.plain (hs : t.Sound) (hf : SourceAt t root loc names f) : ∀ p ∈ names, Plain p := by
  obtain ⟨_,_,hnode,_⟩ := hf.stands
  exact hs.plain_below hnode

theorem SourceAt.components_path (hs : t.Sound) (hroot : root ≠ "") (hf : SourceAt t root loc names f) :
    components f.path = components root ++ names := by
  rw [hf.path,components_foldl hroot (hf.plain hs)]

theorem SourceAt.isAbsolute_path (hs : t.Sound) (hf : SourceAt t root loc names f) :
    isAbsolute f.path = isAbsolute root := by
  rw [hf.path,isAbsolute_foldl root fun p hp => (hf.plain hs p hp).proper]

/-- Source files stand under paths of their own, in the order of the names in these. -/
theorem gathered_ascending (hs : t.Sound) (hroot : root ≠ "") (hv : Visits t loc met) :
    (gathered root met).Pairwise fun f g => components f.path < components g.path := by
  have hsorted : (gathered root met).Pairwise fun f g => before f.path g.path = true := by
    refine List.pairwise_mergeSort ?_ ?_ _
    · intro f g k hfg hgk
      exact before_trans hfg hgk
    · intro f g
      exact (Bool.or_eq_true _ _).mpr (before_total f.path g.path)
  have hdistinct : (gathered root met).Pairwise fun f g => components f.path ≠ components g.path := by
    rw [gathered,(List.mergeSort_perm _ _).pairwise_iff Ne.symm,List.pairwise_filterMap]
    refine (List.pairwise_map.mp hv.once).imp_of_mem ?_
    intro e e' he he' hne f hf g hg hsame
    have hf := sourceAt_of_met hv he hf
    have hg := sourceAt_of_met hv he' hg
    rw [hf.components_path hs hroot,hg.components_path hs hroot] at hsame
    exact hne (List.append_cancel_left hsame)
  refine (hsorted.and hdistinct).imp_of_mem ?_
  intro f g hf hg ⟨hbefore,hne⟩
  obtain ⟨names,hf⟩ := (mem_gathered hv).mp hf
  obtain ⟨names',hg⟩ := (mem_gathered hv).mp hg
  rcases before_iff.mp hbefore with ⟨ha,ha'⟩ | ⟨_,hle⟩
  · rw [hf.isAbsolute_path hs] at ha
    rw [hg.isAbsolute_path hs,ha] at ha'
    cases ha'
  · exact lt_of_le_of_ne (not_lt.mp hle) hne

/-- All walks come to the same source files. -/
theorem gathered_congr (hs : t.Sound) (hroot : root ≠ "") (hv : Visits t loc met)
    {met' : List (Location × Node)} (hv' : Visits t loc met') : gathered root met = gathered root met' := by
  refine eq_of_ascending (gathered_ascending hs hroot hv) (gathered_ascending hs hroot hv') ?_
  intro f
  rw [mem_gathered hv,mem_gathered hv']

/-- The source files of a directory, each once and in the order of their names from the root on, are the
regular files to which no hidden name leads and whose names have a known extension behind a stem. A root
may be hidden itself. A walk that meets what is not hidden in any order comes to the same list. -/
theorem sourceFiles_exact (hs : t.Sound) (h : t.find root = .ok (loc,.dir)) :
    (∃ spots : List Location, spots.Pairwise (· < ·) ∧
      (∀ names, names ∈ spots ↔ ∃ f, SourceAt t root loc names f) ∧
      List.Forall₂ (SourceAt t root loc) spots (sourceFiles t root)) ∧
    (sourceFiles t root).Pairwise (fun f g => components f.path < components g.path) ∧
    ∀ met, Visits t loc met → gathered root met = sourceFiles t root := by
  have hroot : root ≠ "" := (FileTree.locate_eq_ok_iff.mp (find_eq_ok_iff.mp h)).1.named
  have hv := visits_descendants hs loc
  have hascending := gathered_ascending hs hroot hv
  have hmem := fun f => @mem_gathered t root loc f _ hv
  rw [sourceFiles_eq_gathered h]
  refine ⟨?_,hascending,fun met hv' => gathered_congr hs hroot hv' hv⟩
  let spot := fun f : SourceFile => (components f.path).drop (components root).length
  have hspot {names : Location} {f : SourceFile} (hf : SourceAt t root loc names f) : spot f = names := by
    simp only [spot,hf.components_path hs hroot,List.drop_left]
  refine ⟨(gathered root (t.descendants loc)).map spot,?_,?_,?_⟩
  · rw [List.pairwise_map]
    refine hascending.imp_of_mem ?_
    intro f g hf hg hlt
    obtain ⟨names,hf⟩ := (hmem f).mp hf
    obtain ⟨names',hg⟩ := (hmem g).mp hg
    rw [hf.components_path hs hroot,hg.components_path hs hroot] at hlt
    rw [hspot hf,hspot hg]
    exact (append_lt_append_iff _ _ _).mp hlt
  · intro names
    rw [List.mem_map]
    constructor
    · rintro ⟨f,hf,rfl⟩
      obtain ⟨names,hf⟩ := (hmem f).mp hf
      exact ⟨f,(hspot hf).symm ▸ hf⟩
    · rintro ⟨f,hf⟩
      exact ⟨f,(hmem f).mpr ⟨names,hf⟩,hspot hf⟩
  · rw [List.forall₂_map_left_iff,List.forall₂_same]
    intro f hf
    obtain ⟨names,hf⟩ := (hmem f).mp hf
    exact (hspot hf).symm ▸ hf

/-- A hidden project with two source files, beside which there are a hidden one, a directory and a link
with names of source files. -/
def hiddenShop : FileTree where
  entries := [([".shop"],.dir),([".shop","src-gen"],.dir),
    ([".shop","src-gen","api.v2.py"],.file ⟨#[]⟩ false),([".shop","lib.kt"],.dir),
    ([".shop","main.go"],.link "src/App.java"),([".shop","src"],.dir),
    ([".shop","src","App.java"],.file ⟨#[10]⟩ false),([".shop","src",".Old.java"],.file ⟨#[]⟩ false)]
  cwd := []

theorem hiddenShop_sound : hiddenShop.Sound := by
  decide

/-- The directory `src` stands before `src-gen`, whatever is met first. -/
theorem sourceFiles_exact_hidden :
    hiddenShop.Sound ∧ hiddenShop.find "/.shop" = .ok ([".shop"],.dir) ∧
      sourceFiles hiddenShop "/.shop" =
        [⟨"/.shop/src/App.java",1,".java"⟩,⟨"/.shop/src-gen/api.v2.py",0,".py"⟩] ∧
      gathered "/.shop" (hiddenShop.descendants [".shop"]).reverse = sourceFiles hiddenShop "/.shop" := by
  have hfind : hiddenShop.find "/.shop" = .ok ([".shop"],.dir) := by rfl
  obtain ⟨_,_,hwalks⟩ := sourceFiles_exact hiddenShop_sound hfind
  have hreverse := (visits_descendants hiddenShop_sound [".shop"]).perm (List.reverse_perm _)
  have hlisted : sourceFiles hiddenShop "/.shop" =
      [⟨"/.shop/src/App.java",1,".java"⟩,⟨"/.shop/src-gen/api.v2.py",0,".py"⟩] := by
    have hfound : (hiddenShop.descendants [".shop"]).filterMap (sourceBelow? "/.shop") =
        [⟨"/.shop/src-gen/api.v2.py",0,".py"⟩,⟨"/.shop/src/App.java",1,".java"⟩] := by decide
    have hbefore : before "/.shop/src-gen/api.v2.py" "/.shop/src/App.java" = false := by decide
    rw [sourceFiles_eq_gathered hfind,gathered,hfound]
    simp [List.mergeSort,hbefore]
  exact ⟨hiddenShop_sound,hfind,hlisted,hwalks _ hreverse⟩

end Detection

end EndpointAudit
