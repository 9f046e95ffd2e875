import EndpointAudit.Proofs.SoundTrees
import EndpointAudit.Proofs.SpanTexts
import Mathlib.Data.List.Induction

namespace EndpointAudit

namespace FileTree

open EndpointAudit.Path

/-- A piece of a path that is looked up in a directory. -/
structure Sought (piece : String) : Prop where
  named : piece ≠ ""
  not_here : piece ≠ "."
  not_up : piece ≠ ".."

/-- Where a path starts that stands in a directory. -/
def base (dir : Location) (path : String) : Location :=
  if isAbsolute path then [] else dir

/-- Pieces of a path lead through directories and links from one directory to another. -/
inductive Leads (t : FileTree) : Location → List String → Location → Prop
  | here {dir : Location} : Leads t dir [] dir
  | stay {dir loc : Location} {piece : String} {rest : List String}
    (blank : piece = "" ∨ piece = ".") (go : Leads t dir rest loc) : Leads t dir (piece :: rest) loc
  | up {dir loc : Location} {rest : List String} (go : Leads t dir.dropLast rest loc) :
    Leads t dir (".." :: rest) loc
  | down {dir loc : Location} {name : String} {rest : List String} (sought : Sought name)
    (found : t.node? (dir ++ [name]) = some .dir) (go : Leads t (dir ++ [name]) rest loc) :
    Leads t dir (name :: rest) loc
  | follow {dir loc : Location} {name target : String} {rest : List String} (sought : Sought name)
    (found : t.node? (dir ++ [name]) = some (.link target))
    (go : Leads t (base dir target) (pieces target ++ rest) loc) : Leads t dir (name :: rest) loc

/-- At or below a directory, or a directory above it. -/
def Near (root loc : Location) : Prop :=
  root <+: loc ∨ loc <+: root

/-- Of pieces that are walked from a directory, none is looked up away from `root`. What the links on the
way look up does not count. -/
def StaysNear (t : FileTree) (root dir : Location) (ps : List String) : Prop :=
  ∀ {before after name loc}, ps = before ++ name :: after → Sought name → t.Leads dir before loc →
    Near root (loc ++ [name])

/-- No symbolic link below a directory leads out of it or through other parts of the tree. -/
structure Sealed (t : FileTree) (root : Location) : Prop where
  near : ∀ {dir name target}, root <+: dir → t.node? (dir ++ [name]) = some (.link target) →
    t.StaysNear root (base dir target) (pieces target)
  inside : ∀ {dir name target loc}, root <+: dir → t.node? (dir ++ [name]) = some (.link target) →
    t.Leads (base dir target) (pieces target) loc → root <+: loc

/-- A path leads into a directory, from which so many links may still be followed. -/
def Enters (t : FileTree) (path : String) (links : Nat) (dir : Location) : Prop :=
  ∀ ps, t.walk true maxLinks (base t.cwd path) (pieces path ++ ps) = t.walk true links dir ps

variable {t t' : FileTree} {root dir loc : Location} {name : String} {ps qs : List String}

theorem Leads.split (h : t.Leads dir (ps ++ qs) loc) :
    ∃ mid, t.Leads dir ps mid ∧ t.Leads mid qs loc := by
  generalize he : ps ++ qs = all at h
  induction h generalizing ps with
  | here =>
    obtain ⟨rfl,rfl⟩ := List.append_eq_nil_iff.mp he
    exact ⟨_,.here,.here⟩
  | stay blank go ih =>
    rcases List.append_eq_cons_iff.mp he with ⟨rfl,rfl⟩ | ⟨ps,rfl,rfl⟩
    · exact ⟨_,.here,.stay blank go⟩
    · obtain ⟨mid,hfirst,hrest⟩ := ih rfl
      exact ⟨mid,.stay blank hfirst,hrest⟩
  | up go ih =>
    rcases List.append_eq_cons_iff.mp he with ⟨rfl,rfl⟩ | ⟨ps,rfl,rfl⟩
    · exact ⟨_,.here,.up go⟩
    · obtain ⟨mid,hfirst,hrest⟩ := ih rfl
      exact ⟨mid,.up hfirst,hrest⟩
  | down sought found go ih =>
    rcases List.append_eq_cons_iff.mp he with ⟨rfl,rfl⟩ | ⟨ps,rfl,rfl⟩
    · exact ⟨_,.here,.down sought found go⟩
    · obtain ⟨mid,hfirst,hrest⟩ := ih rfl
      exact ⟨mid,.down sought found hfirst,hrest⟩
  | follow sought found go ih =>
    rcases List.append_eq_cons_iff.mp he with ⟨rfl,rfl⟩ | ⟨ps,rfl,rfl⟩
    · exact ⟨_,.here,.follow sought found go⟩
    · obtain ⟨mid,hfirst,hrest⟩ := ih (List.append_assoc _ _ _)
      exact ⟨mid,.follow sought found hfirst,hrest⟩

/-- In a sealed directory a path without a pair of dots stays inside. -/
theorem Sealed.leads_inside (hs : t.Sealed root) (hdir : root <+: dir) (hps : ".." ∉ ps)
    (h : t.Leads dir ps loc) : root <+: loc := by
  induction ps generalizing dir with
  | nil =>
    cases h
    exact hdir
  | cons p ps ih =>
    rw [List.mem_cons,not_or] at hps
    obtain ⟨hp,hps⟩ := hps
    cases h with
    | stay _ go => exact ih hdir hps go
    | up _ => exact absurd rfl hp
    | down _ _ go => exact ih (hdir.trans (List.prefix_append dir _)) hps go
    | follow _ found go =>
      obtain ⟨mid,hfirst,hrest⟩ := go.split
      exact ih (hs.inside hdir found hfirst) hps hrest

/-- A relative path without a pair of dots is looked up in the directory. -/
theorem Sealed.staysNear (hs : t.Sealed root) (hps : ".." ∉ ps) : t.StaysNear root root ps := by
  intro before after name loc he _ hlead
  rw [he,List.mem_append,not_or] at hps
  have hinside := hs.leads_inside List.prefix_rfl hps.1 hlead
  exact .inl (hinside.trans (List.prefix_append loc _))

theorem Near.up (h : Near root loc) : Near root loc.dropLast := by
  rcases h with ⟨names,rfl⟩ | h
  · rcases List.eq_nil_or_concat names with rfl | ⟨names,name,rfl⟩
    · rw [List.append_nil]
      exact .inr (List.dropLast_prefix root)
    · rw [List.concat_eq_append,← List.append_assoc,List.dropLast_concat]
      exact .inl (List.prefix_append root names)
  · exact .inr ((List.dropLast_prefix loc).trans h)

theorem near_base (h : Near root dir) (path : String) : Near root (base dir path) := by
  unfold base
  split
  · exact .inr List.nil_prefix
  · exact h

namespace StaysNear

theorem stay {piece : String} (h : t.StaysNear root dir (piece :: ps))
    (blank : piece = "" ∨ piece = ".") : t.StaysNear root dir ps := by
  intro before after name loc he sought hlead
  exact h (congrArg (piece :: ·) he) sought (.stay blank hlead)

theorem up (h : t.StaysNear root dir (".." :: ps)) : t.StaysNear root dir.dropLast ps := by
  intro before after name loc he sought hlead
  exact h (congrArg (".." :: ·) he) sought (.up hlead)

theorem down (h : t.StaysNear root dir (name :: ps)) (sought : Sought name)
    (found : t.node? (dir ++ [name]) = some .dir) : t.StaysNear root (dir ++ [name]) ps := by
  intro before after name' loc he sought' hlead
  exact h (congrArg (name :: ·) he) sought' (.down sought found hlead)

/-- Behind a link its target is walked first, and then what follows the link. -/
theorem follow {target : String} (h : t.StaysNear root dir (name :: ps)) (sought : Sought name)
    (found : t.node? (dir ++ [name]) = some (.link target))
    (htarget : t.StaysNear root (base dir target) (pieces target)) :
    t.StaysNear root (base dir target) (pieces target ++ ps) := by
  intro before after name' loc he sought' hlead
  have hrest (more : List String) (hbefore : before = pieces target ++ more)
      (hps : ps = more ++ name' :: after) : Near root (loc ++ [name']) := by
    rw [hbefore] at hlead
    exact h (congrArg (name :: ·) hps) sought' (.follow sought found hlead)
  rcases List.append_eq_append_iff.mp he with ⟨more,hbefore,hps⟩ | ⟨more,hpieces,hafter⟩
  · exact hrest more hbefore hps
  · cases more with
    | nil => exact hrest [] (by simpa using hpieces.symm) (by simpa using hafter.symm)
    | cons m more =>
      obtain ⟨rfl,_⟩ := List.cons.inj hafter
      exact htarget hpieces sought' hlead

end StaysNear

/-- The same end of a walk in two trees, which is not away from `root`. -/
def SameNear (root : Location) (r r' : Except IoFault (Location × Option Node)) : Prop :=
  r = r' ∧ ∀ loc n, r = .ok (loc,n) → Near root loc

theorem sameNear_error (root : Location) (f : IoFault) : SameNear root (.error f) (.error f) :=
  ⟨rfl,fun _ _ h => by cases h⟩

theorem Near.same (h : Near root loc) (n : Option Node) :
    SameNear root (.ok (loc,n)) (.ok (loc,n)) :=
  ⟨rfl,fun _ _ he => by cases he; exact h⟩

/-- Two trees that hold the same at and below a directory, to which no symbolic links lead. -/
structure Shared (t t' : FileTree) (root : Location) : Prop where
  above : ∀ {loc}, loc <+: root → t.node? loc = some .dir ∧ t'.node? loc = some .dir
  below : ∀ names, t.node? (root ++ names) = t'.node? (root ++ names)

theorem Shared.near (h : t.Shared t' root) (hl : Near root loc) : t.node? loc = t'.node? loc := by
  rcases hl with ⟨names,rfl⟩ | hl
  · exact h.below names
  · rw [(h.above hl).1,(h.above hl).2]

/-- Near a shared directory, files and links stand below it only. -/
theorem Shared.inside (h : t.Shared t' root) (hl : Near root (dir ++ [name])) {n : Node}
    (hn : t.node? (dir ++ [name]) = some n) (hne : n ≠ .dir) : root <+: dir := by
  rcases hl with hl | hl
  · rcases List.prefix_concat_iff.mp hl with he | hl
    · rw [← he,(h.above List.prefix_rfl).1] at hn
      exact absurd (Option.some.inj hn).symm hne
    · exact hl
  · rw [(h.above hl).1] at hn
    exact absurd (Option.some.inj hn).symm hne

theorem walkTo_shared (h : t.Shared t' root) (hs : t.Sealed root)
    {jump jump' : Location → List String → Except IoFault (Location × Option Node)}
    (hj : ∀ {dir ps}, Near root dir → t.StaysNear root dir ps →
      SameNear root (jump dir ps) (jump' dir ps))
    (hdir : Near root dir) (hps : t.StaysNear root dir ps) :
    SameNear root (t.walkTo true jump dir ps) (t'.walkTo true jump' dir ps) := by
  induction ps generalizing dir with
  | nil =>
    rw [walkTo,walkTo,h.near hdir]
    exact hdir.same _
  | cons piece rest ih =>
    simp only [walkTo]
    split
    · rename_i hblank
      exact ih hdir (hps.stay hblank)
    rename_i hblank
    split
    · rename_i hup
      subst hup
      exact ih hdir.up hps.up
    rename_i hup
    split
    · exact sameNear_error root _
    have sought : Sought piece := ⟨fun he => hblank (.inl he),fun he => hblank (.inr he),hup⟩
    have hnear : Near root (dir ++ [piece]) := @hps [] rest piece dir rfl sought .here
    rw [← h.near hnear]
    cases hn : t.node? (dir ++ [piece]) with
    | none =>
      simp only
      split
      · exact hnear.same none
      · exact sameNear_error root _
    | some node =>
      cases node with
      | dir => exact ih hnear (hps.down sought hn)
      | file bytes x =>
        simp only
        split
        · exact hnear.same _
        · exact sameNear_error root _
      | link target =>
        have hinside := h.inside hnear hn (by simp)
        simp only [Bool.not_true,Bool.and_false,Bool.false_eq_true,↓reduceIte]
        exact hj (near_base hdir target) (hps.follow sought hn (hs.near hinside hn))

/-- A walk that stays near a shared directory ends alike in both trees. -/
theorem walk_shared (h : t.Shared t' root) (hs : t.Sealed root) (links : Nat)
    (hdir : Near root dir) (hps : t.StaysNear root dir ps) :
    SameNear root (t.walk true links dir ps) (t'.walk true links dir ps) := by
  induction links generalizing dir ps with
  | zero => exact walkTo_shared h hs (fun _ _ => sameNear_error root _) hdir hps
  | succ links ih => exact walkTo_shared h hs ih hdir hps

/-- In sound trees all that stands above a directory is directories. -/
theorem Sound.above (h : t.Sound) (hdir : t.node? dir = some .dir) (hl : loc <+: dir) :
    t.node? loc = some .dir := by
  obtain ⟨names,rfl⟩ := hl
  induction names using List.reverseRecOn with
  | nil => rwa [List.append_nil] at hdir
  | append_singleton names name ih =>
    rw [← List.append_assoc] at hdir
    exact ih (h.parent hdir).2

theorem Sound.shared (h : t.Sound) (h' : t'.Sound) (hdir : t.node? dir = some .dir)
    (hsame : ∀ names, t.node? (dir ++ names) = t'.node? (dir ++ names)) : t.Shared t' dir := by
  have hdir' : t'.node? dir = some .dir := by
    have hroot := hsame []
    rw [List.append_nil,hdir] at hroot
    exact hroot.symm
  exact ⟨fun hl => ⟨h.above hdir hl,h'.above hdir' hl⟩,hsame⟩

/-- What leads to a directory enters it, so in one tree alone entering asks no more than being found. -/
theorem Sound.enters (h : t.Sound) {path : String} (hl : t.locate path = .ok (loc,some .dir)) :
    ∃ links, t.Enters path links loc := by
  have hstart : t.node? (base t.cwd path) = some .dir := by
    unfold base
    split
    · rfl
    · exact h.inside
  have hwalk : t.walk true maxLinks (base t.cwd path) (pieces path) = .ok (loc,some .dir) := by
    unfold locate at hl
    split at hl
    · cases hl
    split at hl
    · cases hl
    split at hl
    · cases hl
    exact hl
  rcases walk_append h.closed maxLinks hstart (pieces path) with ⟨dir,links,_,hgo⟩ | ⟨hdir,_⟩
  · have hend := hgo []
    rw [List.append_nil,hwalk,walk_nothing (.inl rfl)] at hend
    rw [(Prod.mk.inj (Except.ok.inj hend)).1]
    exact ⟨links,hgo⟩
  · exact absurd hwalk (hdir loc)

/-- A path that stays near a shared directory is found alike in both trees. -/
theorem locate_shared (h : t.Shared t' root) (hs : t.Sealed root) {above path : String}
    {links : Nat} (hroot : t.Enters above links root) (hroot' : t'.Enters above links root)
    (hpath : t.StaysNear root (base root path) (pieces path)) :
    SameNear root (t.locate (join above path)) (t'.locate (join above path)) := by
  unfold locate
  split
  · exact sameNear_error root _
  split
  · exact sameNear_error root _
  split
  · exact sameNear_error root _
  cases ha : isAbsolute path with
  | true =>
    have hjoin : join above path = path := by rw [join,if_pos ha]
    rw [base,if_pos ha] at hpath
    rw [hjoin,if_pos ha,if_pos ha]
    exact walk_shared h hs maxLinks (.inr List.nil_prefix) hpath
  | false =>
    rw [base,if_neg (by simp [ha])] at hpath
    have hwalk := walk_shared h hs links (.inl List.prefix_rfl) hpath
    rw [← hroot,← hroot',walk_thinned (thinned_join above ha),walk_thinned (thinned_join above ha),
      base,base,← isAbsolute_join_relative above ha] at hwalk
    exact hwalk

theorem readText_eq_ok_iff {path s : String} : t.readText path = .ok s ↔
    ∃ bytes, t.read path = .ok bytes ∧ String.fromUTF8? bytes = some s := by
  rw [readText,bind_eq_ok_iff]
  refine exists_congr fun bytes => and_congr_right fun _ => ?_
  cases String.fromUTF8? bytes <;> simp

theorem read_of_location {path : String} {bytes : ByteArray} {x : Bool}
    (hl : (t.locate path).toOption.map Prod.fst = some loc)
    (hn : t.node? loc = some (.file bytes x)) : t.read path = .ok bytes := by
  cases hfound : t.locate path with
  | error f =>
    rw [hfound] at hl
    cases hl
  | ok found =>
    obtain ⟨spot,n⟩ := found
    rw [hfound] at hl
    cases hl
    change t.node? spot = _ at hn
    exact read_ok_iff.mpr ⟨spot,x,by rw [hfound,locate_node hfound,hn]⟩

theorem pathExists_of_read {path : String} {bytes : ByteArray} (h : t.read path = .ok bytes) :
    t.pathExists path = true := by
  obtain ⟨loc,x,hl⟩ := read_ok_iff.mp h
  rw [pathExists,find,hl]
  rfl

/-- A file near a shared directory stands below it. -/
theorem Shared.file_below (h : t.Shared t' root) (hl : Near root loc) {bytes : ByteArray} {x : Bool}
    (hn : t.node? loc = some (.file bytes x)) : ∃ names, loc = root ++ names := by
  rcases hl with ⟨names,rfl⟩ | hl
  · exact ⟨names,rfl⟩
  · rw [(h.above hl).1] at hn
    cases hn

end FileTree

namespace CodeSpan

open FileTree

variable {t t' : FileTree} {root position text : String}

theorem extract_congr (h : ∀ s, parse position = .ok s →
    t.locate (Path.join root s.path) = t'.locate (Path.join root s.path)) :
    extract t root position = extract t' root position := by
  unfold extract
  cases hs : parse position with
  | error e => rfl
  | ok s =>
    have hfind : t.find (Path.join root s.path) = t'.find (Path.join root s.path) := by
      rw [find,find,h s hs]
    have hread : t.read (Path.join root s.path) = t'.read (Path.join root s.path) := by
      rw [FileTree.read,FileTree.read,hfind]
    change (if !_ then _ else _) = if !_ then _ else _
    rw [pathExists,pathExists,readText,readText,hfind,hread]

theorem extract_eq_ok_iff : extract t root position = .ok text ↔
    ∃ s bytes whole, parse position = .ok s ∧ t.read (Path.join root s.path) = .ok bytes ∧
      String.fromUTF8? bytes = some whole ∧ text = s.cut whole := by
  constructor
  · intro h
    obtain ⟨s,hs,h⟩ := bind_eq_ok_iff.mp h
    dsimp only at h
    split at h
    · cases h
    · obtain ⟨whole,hwhole,hcut⟩ := bind_eq_ok_iff.mp h
      obtain ⟨bytes,hread,hdecoded⟩ := readText_eq_ok_iff.mp (mapError_eq_ok_iff.mp hwhole)
      cases hcut
      exact ⟨s,bytes,whole,hs,hread,hdecoded,rfl⟩
  · intro ⟨s,bytes,whole,hs,hread,hdecoded,hcut⟩
    have hexists := pathExists_of_read hread
    have htext := readText_eq_ok_iff.mpr ⟨bytes,hread,hdecoded⟩
    refine bind_eq_ok_iff.mpr ⟨s,hs,?_⟩
    simp only [hexists,htext,hcut]
    rfl

/-- No name in the path of a span is looked up outside of the project. -/
def Confined (t : FileTree) (root : Location) (s : CodeSpan) : Prop :=
  t.StaysNear root (base root s.path) (Path.pieces s.path)

/-- A span whose path is relative and has no pair of dots is confined to a sealed project. -/
theorem confined_of_downward {loc : Location} (hs : t.Sealed loc) {s : CodeSpan}
    (hrelative : Path.isAbsolute s.path = false) (hdots : ".." ∉ Path.pieces s.path) :
    s.Confined t loc := by
  rw [Confined,base,if_neg (by simp [hrelative])]
  exact hs.staysNear hdots

/-- Two file trees with the same project, where a path leads to it with so many links left, and of which no
link leads out. They may differ in whatever is not at or below the directory of the project. -/
structure SameProject (t t' : FileTree) (root : String) (loc : Location) (links : Nat) : Prop where
  sound : t.Sound
  sound' : t'.Sound
  enters : t.Enters root links loc
  enters' : t'.Enters root links loc
  is_dir : t.node? loc = some .dir
  same : ∀ names, t.node? (loc ++ names) = t'.node? (loc ++ names)
  closed : t.Sealed loc

/-- The text of a confined span is the same in two file trees that hold the same project. There is one
just if the path of the span leads to a readable file of the project, from which it is cut. -/
theorem extract_confined {loc : Location} {links : Nat} (h : SameProject t t' root loc links)
    (hspan : ∀ s, parse position = .ok s → s.Confined t loc) :
    extract t root position = extract t' root position ∧
    ∀ text, extract t root position = .ok text ↔ ∃ s names bytes executable whole,
      parse position = .ok s ∧
      t.locate (Path.join root s.path) = .ok (loc ++ names,some (.file bytes executable)) ∧
      String.fromUTF8? bytes = some whole ∧ text = s.cut whole := by
  have hshared := h.sound.shared h.sound' h.is_dir h.same
  have hfound (s : CodeSpan) (hs : parse position = .ok s) :=
    locate_shared hshared h.closed h.enters h.enters' (hspan s hs)
  refine ⟨extract_congr fun s hs => (hfound s hs).1,fun text => ?_⟩
  constructor
  · intro htext
    obtain ⟨s,bytes,whole,hs,hread,hdecoded,hcut⟩ := extract_eq_ok_iff.mp htext
    obtain ⟨spot,x,hlocated⟩ := read_ok_iff.mp hread
    have hnear := (hfound s hs).2 _ _ hlocated
    obtain ⟨names,rfl⟩ := hshared.file_below hnear (locate_node hlocated).symm
    exact ⟨s,names,bytes,x,whole,hs,hlocated,hdecoded,hcut⟩
  · rintro ⟨s,names,bytes,x,whole,hs,hlocated,hdecoded,hcut⟩
    have hread := read_ok_iff.mpr ⟨loc ++ names,x,hlocated⟩
    exact extract_eq_ok_iff.mpr ⟨s,bytes,whole,hs,hread,hdecoded,hcut⟩

/-- A project with a link in it, and nothing else. -/
def projectTree : FileTree where
  entries := [(["p"],.dir),(["p","src"],.dir),(["p","src","A.java"],.file "class A\n".toUTF8 false),
    (["p","main"],.link "src")]
  cwd := []

/-- The same project with a file beside it. -/
def neighbourTree : FileTree :=
  { projectTree with entries := projectTree.entries ++ [(["key"],.file "secret\n".toUTF8 false)] }

theorem projectTree_sound : projectTree.Sound := by
  decide

theorem neighbourTree_sound : neighbourTree.Sound := by
  have hfree : projectTree.node? ([] ++ ["key"]) = none := rfl
  exact projectTree_sound.put rfl (by decide) hfree (.file "secret\n".toUTF8 false)

/-- The one link of the project leads to a directory beside it. -/
theorem projectTree_link {dir : Location} {name target : String}
    (h : projectTree.node? (dir ++ [name]) = some (.link target)) :
    base dir target = ["p"] ∧ Path.pieces target = ["src"] := by
  have hentry := mem_entries_of_node? (by simp) h
  have hlink : dir ++ [name] = ["p"] ++ ["main"] ∧ target = "src" := by
    simpa [projectTree] using hentry
  obtain ⟨hloc,rfl⟩ := hlink
  rw [(List.append_inj' hloc rfl).1]
  exact ⟨rfl,Path.pieces_of_slashless (by decide)⟩

theorem projectTree_sealed : projectTree.Sealed ["p"] := by
  refine ⟨?_,?_⟩
  · intro dir name target _ h
    obtain ⟨hbase,hpieces⟩ := projectTree_link h
    rw [hbase,hpieces]
    intro before after name' loc he sought hlead
    cases before with
    | nil =>
      cases hlead
      exact .inl (List.prefix_append _ _)
    | cons p before => simp at he
  · intro dir name target loc _ h hlead
    obtain ⟨hbase,hpieces⟩ := projectTree_link h
    rw [hbase,hpieces] at hlead
    generalize hpiece : "src" = piece at hlead
    cases hlead with
    | stay blank go => exact absurd (hpiece ▸ blank) (by decide)
    | up go => exact absurd hpiece (by decide)
    | down sought found go =>
      cases go
      exact List.prefix_append ["p"] [piece]
    | follow sought found go =>
      subst hpiece
      cases found

theorem projectTree_below (names : List String) :
    projectTree.node? (["p"] ++ names) = neighbourTree.node? (["p"] ++ names) := by
  change projectTree.entries.lookup _ = (projectTree.entries ++ _).lookup _
  rw [List.lookup_append]
  simp [List.lookup_cons]

theorem projectTree_same : SameProject projectTree neighbourTree "p" ["p"] maxLinks where
  sound := projectTree_sound
  sound' := neighbourTree_sound
  enters _ := rfl
  enters' _ := rfl
  is_dir := rfl
  same := projectTree_below
  closed := projectTree_sealed

/-- Behind a link in the project there is a file of the project. -/
theorem extract_confined_main :
    SameProject projectTree neighbourTree "p" ["p"] maxLinks ∧
    (∀ s, parse "main/A.java:L0-L1" = .ok s → s.Confined projectTree ["p"]) ∧
    extract projectTree "p" "main/A.java:L0-L1" = .ok "class A\n" ∧
    extract neighbourTree "p" "main/A.java:L0-L1" = .ok "class A\n" := by
  have hparse : parse "main/A.java:L0-L1" = .ok ⟨"main/A.java",0,1⟩ :=
    @parse_toText ⟨"main/A.java",0,1⟩ (by decide) (by decide) (by decide)
  have hspan (s : CodeSpan) (hs : parse "main/A.java:L0-L1" = .ok s) :
      s.Confined projectTree ["p"] := by
    cases hparse.symm.trans hs
    exact confined_of_downward projectTree_sealed rfl (by decide +kernel)
  have htext : extract projectTree "p" "main/A.java:L0-L1" = .ok "class A\n" := by
    refine extract_eq_ok_iff.mpr ⟨_,"class A\n".toUTF8,"class A\n",hparse,?_,
      dif_pos (String.isValidUTF8 _),by decide +kernel⟩
    have hspot : (projectTree.locate (Path.join "p" "main/A.java")).toOption.map Prod.fst =
        some ["p","src","A.java"] := by decide +kernel
    exact read_of_location hspot rfl
  obtain ⟨hsame,_⟩ := extract_confined projectTree_same hspan
  exact ⟨projectTree_same,hspan,htext,hsame.symm.trans htext⟩

/-- A span whose path leaves the project takes its text from what stands beside it. -/
theorem extract_neighbour :
    SameProject projectTree neighbourTree "p" ["p"] maxLinks ∧
    extract projectTree "p" "../key:L0-L1" = .error (.spanMissing "p/../key") ∧
    extract neighbourTree "p" "../key:L0-L1" = .ok "secret\n" := by
  have hparse : parse "../key:L0-L1" = .ok ⟨"../key",0,1⟩ :=
    @parse_toText ⟨"../key",0,1⟩ (by decide) (by decide) (by decide)
  refine ⟨projectTree_same,?_,?_⟩
  · unfold extract
    rw [hparse]
    rfl
  · refine extract_eq_ok_iff.mpr ⟨_,"secret\n".toUTF8,"secret\n",hparse,?_,
      dif_pos (String.isValidUTF8 _),by decide +kernel⟩
    have hspot : (neighbourTree.locate (Path.join "p" "../key")).toOption.map Prod.fst =
        some ["key"] := by decide +kernel
    exact read_of_location hspot rfl

end CodeSpan

end EndpointAudit
