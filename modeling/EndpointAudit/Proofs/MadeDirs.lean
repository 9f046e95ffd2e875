import EndpointAudit.Proofs.Confinement

namespace EndpointAudit

namespace Path

/-- Slashes and dots that are dropped from an end have a slash next to what is kept. -/
theorem dropTrailing_split (cs : List Char) : ∃ dropped, cs = dropped ++ dropTrailing cs ∧
    (dropped = [] ∨ ∃ front, dropped = front ++ ['/']) := by
  induction cs using dropTrailing.induct with
  | case1 cs ih =>
    obtain ⟨dropped,he,rfl | ⟨front,rfl⟩⟩ := ih
    · exact ⟨['/'],by rw [dropTrailing]; exact congrArg _ he,.inr ⟨[],rfl⟩⟩
    · exact ⟨'/' :: (front ++ ['/']),by rw [dropTrailing]; exact congrArg _ he,.inr ⟨'/' :: front,rfl⟩⟩
  | case2 cs ih =>
    obtain ⟨dropped,he,rfl | ⟨front,rfl⟩⟩ := ih
    · exact ⟨['.','/'],by rw [dropTrailing]; exact congrArg (['.','/'] ++ ·) he,.inr ⟨['.'],rfl⟩⟩
    · exact ⟨'.' :: '/' :: (front ++ ['/']),
        by rw [dropTrailing]; exact congrArg (['.','/'] ++ ·) he,.inr ⟨'.' :: '/' :: front,rfl⟩⟩
  | case3 cs hslash hdot =>
    refine ⟨[],?_,.inl rfl⟩
    rw [List.nil_append]
    unfold dropTrailing
    split
    · exact absurd rfl (hslash _)
    · exact absurd rfl (hdot _)
    · rfl

/-- A path goes on behind its parent, unless that has no name. -/
theorem parent_pieces {path up : String} (h : parent? path = some up) :
    (up = "" ∨ up = "/") ∨
      isAbsolute up = isAbsolute path ∧ ∃ rest, pieces path = pieces up ++ rest := by
  unfold parent? at h
  split at h
  · cases h
  simp only at h
  generalize hname : (dropTrailing path.toList.reverse).dropWhile (· != '/') = above at h
  split at h
  · cases h
    exact .inl (.inr rfl)
  rename_i hroot
  cases h
  by_cases hkept : dropTrailing above = []
  · rw [hkept]
    exact .inl (.inl rfl)
  right
  obtain ⟨last,hlast⟩ : ∃ last, path.toList.reverse = last ++ above := by
    obtain ⟨dropped,hd,_⟩ := dropTrailing_split path.toList.reverse
    refine ⟨dropped ++ (dropTrailing path.toList.reverse).takeWhile (· != '/'),?_⟩
    rw [← hname,List.append_assoc,List.takeWhile_append_dropWhile]
    exact hd
  obtain ⟨front,hfront⟩ : ∃ front, above = front ++ ['/'] ++ dropTrailing above := by
    obtain ⟨dropped,hd,rfl | ⟨front,rfl⟩⟩ := dropTrailing_split above
    · -- What a name is cut from begins with a slash, which is dropped.
      rcases above with _ | ⟨c,above⟩
      · exact absurd rfl hkept
      · have hc : c = '/' := by
          have := List.head?_dropWhile_not (· != '/') (dropTrailing path.toList.reverse)
          rw [hname] at this
          simpa using this
        have hl := congrArg List.length hd
        rw [hc,dropTrailing] at hl
        obtain ⟨dropped,hd',_⟩ := dropTrailing_split above
        have hl' := congrArg List.length hd'
        simp only [List.length_append,List.length_cons,List.length_nil] at hl hl'
        omega
    · exact ⟨front,hd⟩
  have hpath : path = String.ofList (dropTrailing above).reverse ++ "/" ++
      String.ofList (last ++ front).reverse := by
    apply String.toList_injective
    rw [hfront] at hlast
    rw [← List.reverse_reverse path.toList,hlast]
    simp
  refine ⟨?_,pieces (String.ofList (last ++ front).reverse),?_⟩
  · conv_rhs => rw [hpath]
    obtain ⟨c,cs,hcs⟩ := List.exists_cons_of_ne_nil (List.reverse_ne_nil_iff.mpr hkept)
    simp [isAbsolute,hcs]
  · conv_lhs => rw [hpath]
    exact pieces_append _ _

end Path

namespace FileTree

open EndpointAudit.Path

variable {t t' t₁ : FileTree} {path up : String} {loc here l : Location} {ps : List String} {links : Nat}

/-- A path that can be looked up at all. -/
structure Usable (path : String) : Prop where
  named : path ≠ ""
  no_nul : '\x00' ∉ path.toList
  short : path.utf8ByteSize ≤ maxPathBytes

theorem locate_eq_ok_iff {followLast : Bool} {r : Location × Option Node} :
    t.locate path followLast = .ok r ↔
      Usable path ∧ t.walk followLast maxLinks (base t.cwd path) (pieces path) = .ok r := by
  constructor
  · intro h
    unfold locate at h
    split at h
    · cases h
    rename_i hnul
    split at h
    · cases h
    rename_i hempty
    split at h
    · cases h
    rename_i hlong
    refine ⟨⟨?_,?_,Nat.le_of_not_lt hlong⟩,h⟩
    · exact fun he => hempty (String.isEmpty_iff.mpr he)
    · exact fun hm => hnul (List.contains_iff_mem.mpr hm)
  · intro ⟨husable,h⟩
    unfold locate
    rw [if_neg,if_neg,if_neg (Nat.not_lt_of_le husable.short)]
    · exact h
    · exact fun hempty => husable.named (String.isEmpty_iff.mp hempty)
    · exact fun hnul => husable.no_nul (List.contains_iff_mem.mp hnul)

theorem walkTo_blank {followLast : Bool}
    {jump : Location → List String → Except IoFault (Location × Option Node)}
    (h : ps.all String.isEmpty = true) :
    t.walkTo followLast jump here ps = .ok (here,t.node? here) := by
  induction ps with
  | nil => rfl
  | cons p ps ih =>
    rw [List.all_cons,Bool.and_eq_true] at h
    rw [walkTo,if_pos (.inl (String.isEmpty_iff.mp h.1))]
    exact ih h.2

/-- A directory that is made where a walk missed something is what the walk leads to. -/
theorem walkTo_put_dir {f : Bool}
    {jump jump' jump'' : Location → List String → Except IoFault (Location × Option Node)}
    (hj : ∀ {here ps}, jump here ps = .ok (loc,none) → jump' here ps = .ok (loc,none) ∧
      jump'' here ps = .ok (loc,some .dir))
    (hn : t.node? loc = none) (h : t.walkTo f jump here ps = .ok (loc,none)) :
    t.walkTo true jump' here ps = .ok (loc,none) ∧
      (t.put loc .dir).walkTo true jump'' here ps = .ok (loc,some .dir) := by
  have hloc : loc ≠ [] := by
    intro he
    rw [he] at hn
    cases hn
  have hput := t.node?_put hloc .dir
  induction ps generalizing here with
  | nil =>
    have hhere : here = loc := (Prod.mk.inj (Except.ok.inj h)).1
    exact ⟨h,by rw [walkTo,hput,if_pos hhere,hhere]⟩
  | cons p ps ih =>
    simp only [walkTo] at h ⊢
    split at h
    · rename_i hblank
      simp only [if_pos hblank]
      exact ih h
    rename_i hblank
    split at h
    · rename_i hup
      simp only [if_neg hblank,if_pos hup]
      exact ih h
    rename_i hup
    split at h
    · cases h
    rename_i hshort
    simp only [if_neg hblank,if_neg hup,if_neg hshort,hput]
    cases hnode : t.node? (here ++ [p]) with
    | none =>
      simp only [hnode] at h
      split at h <;> cases h
      rename_i hrest
      simp only [hrest,↓reduceIte,walkTo_blank hrest,hput,true_and]
    | some node =>
      have hne : here ++ [p] ≠ loc := by
        intro he
        rw [he,hn] at hnode
        cases hnode
      rw [hnode] at h
      rw [if_neg hne]
      cases node with
      | dir => exact ih h
      | file bytes x =>
        simp only at h
        split at h <;> cases h
      | link target =>
        simp only [Bool.not_true,Bool.and_false,Bool.false_eq_true,↓reduceIte] at h ⊢
        split at h
        · cases h
        · exact hj h

theorem walk_put_dir {f : Bool} (h : t.walk f links here ps = .ok (loc,none)) :
    t.walk true links here ps = .ok (loc,none) ∧
      (t.put loc .dir).walk true links here ps = .ok (loc,some .dir) := by
  have hn := (walk_node h).symm
  induction links generalizing here ps with
  | zero => exact walkTo_put_dir (fun hx => by cases hx) hn h
  | succ links ih => exact walkTo_put_dir ih hn h

/-- A directory is made where its path misses something, and that is where the path leads then. -/
theorem makeDir_ok (h : t.makeDir path = .ok t') :
    ∃ loc, t.locate path = .ok (loc,none) ∧ t' = t.put loc .dir ∧
      t'.locate path = .ok (loc,some .dir) := by
  unfold makeDir at h
  split at h
  · cases h
  · rename_i loc hl
    cases h
    obtain ⟨husable,hwalk⟩ := locate_eq_ok_iff.mp hl
    obtain ⟨hmissed,hmade⟩ := walk_put_dir hwalk
    refine ⟨loc,locate_eq_ok_iff.mpr ⟨husable,hmissed⟩,rfl,locate_eq_ok_iff.mpr ⟨husable,?_⟩⟩
    rwa [put_cwd]
  · cases h

/-- What is missed is an entry that its directory could have. -/
theorem Sound.walkTo_absent (hs : t.Sound)
    {jump : Location → List String → Except IoFault (Location × Option Node)}
    (hj : ∀ {here ps}, t.node? here = some .dir → (∀ p ∈ ps, '/' ∉ p.toList) →
      jump here ps = .ok (loc,none) →
      ∃ dir name, loc = dir ++ [name] ∧ EntryName name ∧ t.node? dir = some .dir)
    (hdir : t.node? here = some .dir) (hps : ∀ p ∈ ps, '/' ∉ p.toList)
    (h : t.walkTo true jump here ps = .ok (loc,none)) :
    ∃ dir name, loc = dir ++ [name] ∧ EntryName name ∧ t.node? dir = some .dir := by
  induction ps generalizing here with
  | nil =>
    simp only [walkTo,hdir] at h
    cases h
  | cons p ps ih =>
    have hrest : ∀ q ∈ ps, '/' ∉ q.toList := fun q hq => hps q (List.mem_cons_of_mem _ hq)
    simp only [walkTo] at h
    split at h
    · exact ih hdir hrest h
    rename_i hblank
    split at h
    · exact ih (hs.closed.up hdir) hrest h
    rename_i hup
    split at h
    · cases h
    rename_i hshort
    rw [not_or] at hblank
    cases hnode : t.node? (here ++ [p]) with
    | none =>
      simp only [hnode] at h
      split at h <;> cases h
      exact ⟨here,p,rfl,⟨⟨hblank.1,hblank.2,hup,hps p List.mem_cons_self⟩,Nat.le_of_not_lt hshort⟩,hdir⟩
    | some node =>
      rw [hnode] at h
      cases node with
      | dir => exact ih hnode hrest h
      | file bytes x =>
        simp only at h
        split at h <;> cases h
      | link target =>
        simp only [Bool.not_true,Bool.and_false,Bool.false_eq_true,↓reduceIte] at h
        refine hj ?_ ?_ h
        · split
          · rfl
          · exact hdir
        · intro q hq
          rcases List.mem_append.mp hq with hq | hq
          · exact pieces_slashless hq
          · exact hrest q hq

theorem Sound.walk_absent (hs : t.Sound) (hdir : t.node? here = some .dir)
    (hps : ∀ p ∈ ps, '/' ∉ p.toList) (h : t.walk true links here ps = .ok (loc,none)) :
    ∃ dir name, loc = dir ++ [name] ∧ EntryName name ∧ t.node? dir = some .dir := by
  induction links generalizing here ps with
  | zero => exact hs.walkTo_absent (fun _ _ hx => by cases hx) hdir hps h
  | succ links ih => exact hs.walkTo_absent ih hdir hps h

theorem Sound.base_dir (hs : t.Sound) (path : String) : t.node? (base t.cwd path) = some .dir := by
  unfold base
  split
  · rfl
  · exact hs.inside

theorem Sound.locate_absent (hs : t.Sound) (h : t.locate path = .ok (loc,none)) :
    ∃ dir name, loc = dir ++ [name] ∧ EntryName name ∧ t.node? dir = some .dir :=
  hs.walk_absent (hs.base_dir path) (fun _ => pieces_slashless) (locate_eq_ok_iff.mp h).2

/-- Nothing stands below a location at which there is nothing. -/
theorem Sound.none_below (hs : t.Sound) (hn : t.node? loc = none) (hl : loc <+: l) :
    t.node? l = none := by
  cases hx : t.node? l with
  | none => rfl
  | some n =>
    obtain ⟨names,rfl⟩ := hl
    rcases List.eq_nil_or_concat names with rfl | ⟨names,name,rfl⟩
    · rw [List.append_nil,hn] at hx
      cases hx
    · rw [List.concat_eq_append,← List.append_assoc] at hx
      have hdir := hs.above (hs.parent hx).2 (List.prefix_append loc names)
      rw [hn] at hdir
      cases hdir

/-- Some tree with more directories in it, all of them at certain locations. -/
structure Adds (t t' : FileTree) (P : Location → Prop) : Prop extends t.Grows t' where
  added : ∀ {loc n}, t.node? loc = none → t'.node? loc = some n → n = .dir ∧ P loc

namespace Adds

variable {P Q : Location → Prop}

theorem refl (t : FileTree) (P : Location → Prop) : t.Adds t P :=
  ⟨.refl t,fun hn hx => by rw [hn] at hx; cases hx⟩

theorem trans (h : t.Adds t₁ P) (h' : t₁.Adds t' Q) : t.Adds t' fun loc => P loc ∨ Q loc := by
  refine ⟨h.toGrows.trans h'.toGrows,?_⟩
  intro loc n hn hx
  cases hm : t₁.node? loc with
  | none =>
    obtain ⟨rfl,hq⟩ := h'.added hm hx
    exact ⟨rfl,.inr hq⟩
  | some m =>
    obtain ⟨rfl,hp⟩ := h.added hn hm
    exact ⟨Option.some.inj (hx.symm.trans (h'.node hm)),.inl hp⟩

theorem imp (h : t.Adds t' P)
    (hi : ∀ {loc}, t.node? loc = none → t'.node? loc = some .dir → P loc → Q loc) : t.Adds t' Q := by
  refine ⟨h.toGrows,?_⟩
  intro loc n hn hx
  obtain ⟨rfl,hp⟩ := h.added hn hx
  exact ⟨rfl,hi hn hx hp⟩

/-- At a location that was free there is a directory, or still nothing. -/
theorem free (h : t.Adds t' P) (hn : t.node? loc = none) :
    t'.node? loc = none ∨ t'.node? loc = some .dir := by
  cases hx : t'.node? loc with
  | none => exact .inl rfl
  | some n => exact .inr (congrArg some (h.added hn hx).1)

end Adds

theorem adds_put (hn : t.node? loc = none) : t.Adds (t.put loc .dir) (· = loc) := by
  refine ⟨grows_put hn .dir,?_⟩
  intro l n hfree hx
  have hloc : loc ≠ [] := by
    intro he
    rw [he] at hn
    cases hn
  rw [node?_put t hloc] at hx
  split at hx
  · cases hx
    exact ⟨rfl,‹_›⟩
  · rw [hfree] at hx
    cases hx

/-- A walk from a place that was free, and in which only directories were made, stays there. -/
theorem walkTo_below {P : Location → Prop} (hs : t.Sound) (ha : t.Adds t' P) (hn : t.node? loc = none)
    {jump : Location → List String → Except IoFault (Location × Option Node)} {n : Option Node}
    (hhere : loc <+: here) (hps : ".." ∉ ps) (h : t'.walkTo true jump here ps = .ok (l,n)) :
    loc <+: l := by
  induction ps generalizing here with
  | nil =>
    cases h
    exact hhere
  | cons p ps ih =>
    rw [List.mem_cons,not_or] at hps
    have hnext : loc <+: here ++ [p] := hhere.trans (List.prefix_append here [p])
    simp only [walkTo] at h
    split at h
    · exact ih hhere hps.2 h
    split at h
    · exact absurd ‹_› (Ne.symm hps.1)
    split at h
    · cases h
    rcases ha.free (hs.none_below hn hnext) with hnode | hnode
    · rw [hnode] at h
      simp only at h
      split at h <;> cases h
      exact hnext
    · rw [hnode] at h
      exact ih hnext hps.2 h

theorem walk_below {P : Location → Prop} (hs : t.Sound) (ha : t.Adds t' P) (hn : t.node? loc = none)
    {n : Option Node} (hps : ".." ∉ ps) (h : t'.walk true links loc ps = .ok (l,n)) : loc <+: l := by
  cases links with
  | zero => exact walkTo_below hs ha hn List.prefix_rfl hps h
  | succ links => exact walkTo_below hs ha hn List.prefix_rfl hps h

/-- A first part of a path leads to a directory. -/
def Passes (t : FileTree) (path : String) (loc : Location) : Prop :=
  ∃ first rest, pieces path = first ++ rest ∧
    t.walk true maxLinks (base t.cwd path) first = .ok (loc,some .dir)

theorem Passes.grows (h : t.Passes path loc) (hg : t.Grows t') : t'.Passes path loc := by
  obtain ⟨first,rest,hp,hwalk⟩ := h
  refine ⟨first,rest,hp,?_⟩
  rw [hg.cwd_eq]
  exact hg.walk hwalk

theorem passes_of_locate (h : t.locate path = .ok (loc,some .dir)) : t.Passes path loc :=
  ⟨pieces path,[],(List.append_nil _).symm,(locate_eq_ok_iff.mp h).2⟩

/-- A pair of dots in the path stands only behind directories that are there. -/
def Straight (t : FileTree) (path : String) : Prop :=
  ∀ first rest, pieces path = first ++ rest → ".." ∈ rest →
    ∃ loc, t.walk true maxLinks (base t.cwd path) first = .ok (loc,some .dir)

theorem straight_of_dotless (h : ".." ∉ pieces path) : t.Straight path := by
  intro first rest hp hup
  exact absurd (hp ▸ List.mem_append_right first hup) h

theorem Straight.grows (h : t.Straight path) (hg : t.Grows t') : t'.Straight path := by
  intro first rest hp hup
  obtain ⟨loc,hwalk⟩ := h first rest hp hup
  rw [hg.cwd_eq]
  exact ⟨loc,hg.walk hwalk⟩

/-- A straight path goes on below whatever is new. -/
theorem Straight.below {P : Location → Prop} (h : t.Straight path) (hs : t.Sound) (ha : t.Adds t' P)
    (hn : t.node? loc = none) (hp : t'.Passes path loc) {n : Option Node}
    (hl : t'.locate path = .ok (l,n)) : loc <+: l := by
  obtain ⟨first,rest,hpieces,hfirst⟩ := hp
  have hup : ".." ∉ rest := by
    intro hup
    obtain ⟨loc',hold⟩ := h first rest hpieces hup
    have hboth := ha.walk hold
    rw [← ha.cwd_eq,hfirst] at hboth
    obtain ⟨rfl,_⟩ := Prod.mk.inj (Except.ok.inj hboth)
    rw [← walk_node hold] at hn
    cases hn
  have hwalk := (locate_eq_ok_iff.mp hl).2
  obtain ⟨k,hgo⟩ := walk_onward hfirst
  rw [hpieces,hgo] at hwalk
  exact walk_below hs ha hn hup hwalk

/-- How a path is made a directory: it is made in its parent, which may have to be made before, or it
turns out to be one. -/
inductive Dug (t : FileTree) : String → FileTree → Prop
  | blank {path : String} (blank : path = "") : Dug t path t
  | made {path : String} {t' : FileTree} (made : t.makeDir path = .ok t') : Dug t path t'
  | stands {path : String} (stands : t.isDir path = true) : Dug t path t
  | above {path up : String} {t₁ t' : FileTree} (missing : t.makeDir path = .error .notFound)
    (parent : parent? path = some up) (dug : Dug t up t₁) (made : t₁.makeDir path = .ok t') :
    Dug t path t'
  | along {path up : String} {t₁ : FileTree} (missing : t.makeDir path = .error .notFound)
    (parent : parent? path = some up) (dug : Dug t up t₁) (stands : t₁.isDir path = true) :
    Dug t path t₁

theorem makeDirsWithin_dug {fuel : Nat} (h : t.makeDirsWithin fuel path = .ok t') : t.Dug path t' := by
  induction fuel generalizing path t' with
  | zero => cases h
  | succ fuel ih =>
    simp only [makeDirsWithin] at h
    split at h
    · rename_i hempty
      cases h
      exact .blank (String.isEmpty_iff.mp hempty)
    split at h
    · rename_i hmade
      cases h
      exact .made hmade
    · rename_i hmissing
      split at h
      · cases h
      rename_i up hparent
      split at h
      · cases h
      rename_i t₁ hdug
      split at h
      · rename_i hmade
        cases h
        exact .above hmissing hparent (ih hdug) hmade
      · split at h <;> cases h
        exact .along hmissing hparent (ih hdug) ‹_›
    · split at h <;> cases h
      exact .stands ‹_›

theorem isDir_iff : t.isDir path = true ↔ ∃ loc, t.locate path = .ok (loc,some .dir) := by
  unfold isDir find
  rcases t.locate path with f | ⟨loc,_ | _ | _ | _⟩ <;> simp

/-- Neither the root nor the empty path is ever made. -/
theorem Dug.idle (h : t.Dug path t') (hp : path = "" ∨ path = "/") : t' = t := by
  have hroot : t.locate "/" false = .ok ([],some .dir) :=
    locate_eq_ok_iff.mpr ⟨⟨by decide,by decide,by decide⟩,rfl⟩
  have hnone : parent? "" = none := rfl
  cases h with
  | blank | stands => rfl
  | made made =>
    rcases hp with rfl | rfl
    · cases made
    · rw [makeDir,hroot] at made
      cases made
  | above missing parent _ _
  | along missing parent _ _ =>
    rcases hp with rfl | rfl
    · rw [hnone] at parent
      cases parent
    · rw [makeDir,hroot] at missing
      cases missing

/-- What the parent of a path goes through, the path goes through, too. -/
theorem Passes.of_parent (h : t.Passes up loc) (hup : up ≠ "" ∧ up ≠ "/")
    (hp : parent? path = some up) : t.Passes path loc := by
  obtain ⟨habs,rest',hpieces⟩ := (parent_pieces hp).resolve_left fun hx => hx.elim hup.1 hup.2
  obtain ⟨first,rest,hfirst,hwalk⟩ := h
  refine ⟨first,rest ++ rest',?_,?_⟩
  · rw [hpieces,hfirst,List.append_assoc]
  · rwa [base,← habs]

/-- Where the parent of a path is made, the path goes through all that is made. -/
theorem Adds.of_parent (ha : t.Adds t₁ (t₁.Passes up)) (hd : t.Dug up t₁)
    (hp : parent? path = some up) : t.Adds t₁ (t₁.Passes path) := by
  by_cases hup : up = "" ∨ up = "/"
  · rw [hd.idle hup]
    exact .refl t _
  · rw [not_or] at hup
    exact ha.imp fun _ _ hpasses => hpasses.of_parent hup hp

theorem Sound.makeDir (hs : t.Sound) (h : t.makeDir path = .ok t') :
    t'.Sound ∧ t.Adds t' (t'.Passes path) ∧ ∃ loc, t.node? loc = none ∧
      t'.locate path = .ok (loc,some .dir) := by
  obtain ⟨loc,hmissed,rfl,hmade⟩ := makeDir_ok h
  obtain ⟨dir,name,rfl,hname,hdir⟩ := hs.locate_absent hmissed
  have hfree := (locate_node hmissed).symm
  refine ⟨hs.put hdir hname hfree .dir,(adds_put hfree).imp ?_,_,hfree,hmade⟩
  rintro l _ _ rfl
  exact passes_of_locate hmade

/-- All that is made for a path are directories that it goes through, and it leads to one of them or to
one that was there. -/
theorem Dug.adds (h : t.Dug path t') (hs : t.Sound) :
    t'.Sound ∧ t.Adds t' (t'.Passes path) ∧
      (path ≠ "" → ∃ loc, t'.locate path = .ok (loc,some .dir)) := by
  induction h with
  | blank blank => exact ⟨hs,.refl t _,fun hne => absurd blank hne⟩
  | made made =>
    obtain ⟨hs',ha,loc,_,hl⟩ := hs.makeDir made
    exact ⟨hs',ha,fun _ => ⟨loc,hl⟩⟩
  | stands stands => exact ⟨hs,.refl t _,fun _ => isDir_iff.mp stands⟩
  | above missing parent dug made ih =>
    obtain ⟨hs₁,ha₁,_⟩ := ih
    obtain ⟨hs',ha',loc,_,hl⟩ := hs₁.makeDir made
    refine ⟨hs',((ha₁.of_parent dug parent).trans ha').imp ?_,fun _ => ⟨loc,hl⟩⟩
    intro l _ _ hp
    exact hp.elim (fun hp => hp.grows ha'.toGrows) id
  | along missing parent dug stands ih =>
    obtain ⟨hs₁,ha₁,_⟩ := ih
    exact ⟨hs₁,ha₁.of_parent dug parent,fun _ => isDir_iff.mp stands⟩

/-- A tree that has only the same in it finds no more. -/
theorem Adds.locate_none {P : Location → Prop} (ha : t.Adds t' P)
    (hsame : ∀ l, t.node? l = none → t'.node? l = none) {n : Node}
    (hl : t'.locate path = .ok (loc,some n)) : t.locate path = .ok (loc,some n) := by
  have hback : t'.Grows t := by
    refine ⟨ha.cwd_eq.symm,?_⟩
    intro l m hm
    cases hx : t.node? l with
    | none =>
      rw [hsame l hx] at hm
      cases hm
    | some m' => exact (ha.node hx).symm.trans hm
  exact hback.locate hl

theorem pathExists_of_locate {n : Node} (h : t.locate path = .ok (loc,some n)) :
    t.pathExists path = true := by
  rw [pathExists,find,h]
  rfl

/-- A straight path that led nowhere leads to a new directory once it is made. -/
theorem Dug.fresh (h : t.Dug path t') (hs : t.Sound) (hp : t.Straight path)
    (hx : t.pathExists path = false) (hl : t'.locate path = .ok (loc,some .dir)) :
    t.node? loc = none := by
  have hnew {t₁ : FileTree} (hm : t₁.Sound) (hg : t.Grows t₁) (made : t₁.makeDir path = .ok t') :
      t.node? loc = none := by
    obtain ⟨_,_,loc',hfree,hl'⟩ := hm.makeDir made
    obtain ⟨rfl,_⟩ := Prod.mk.inj (Except.ok.inj (hl'.symm.trans hl))
    cases hn : t.node? loc' with
    | none => rfl
    | some n => exact absurd ((hg.node hn).symm.trans hfree) (by simp)
  cases h with
  | blank blank => exact absurd blank (locate_eq_ok_iff.mp hl).1.named
  | made made => exact hnew hs (.refl t) made
  | stands =>
    rw [pathExists_of_locate hl] at hx
    cases hx
  | above missing parent dug made =>
    obtain ⟨hs₁,ha,_⟩ := dug.adds hs
    exact hnew hs₁ ha.toGrows made
  | along missing parent dug stands =>
    obtain ⟨_,ha,_⟩ := dug.adds hs
    have ha' := ha.of_parent dug parent
    by_cases hsame : ∀ l, t.node? l = none → t'.node? l = none
    · rw [pathExists_of_locate (ha.locate_none hsame hl)] at hx
      cases hx
    · simp only [not_forall,exists_prop] at hsame
      obtain ⟨l,hfree,hmade⟩ := hsame
      obtain ⟨n,hn⟩ := Option.ne_none_iff_exists'.mp hmade
      exact hs.none_below hfree (hp.below hs ha' hfree (ha'.added hfree hn).2 hl)

end FileTree

end EndpointAudit
