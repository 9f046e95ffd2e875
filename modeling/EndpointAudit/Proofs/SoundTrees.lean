import EndpointAudit.Proofs.Reads
import EndpointAudit.Proofs.Spelling

namespace EndpointAudit.FileTree

open EndpointAudit.Path

/-- A name that an entry of a directory can have. -/
structure EntryName (name : String) : Prop extends Plain name where
  short : name.utf8ByteSize ≤ maxNameBytes

instance : DecidablePred EntryName := fun name =>
  decidable_of_iff (Plain name ∧ name.utf8ByteSize ≤ maxNameBytes)
    ⟨fun ⟨h₁,h₂⟩ => ⟨h₁,h₂⟩,fun h => ⟨h.toPlain,h.short⟩⟩

structure Sound (t : FileTree) : Prop where
  unique : (t.entries.map Prod.fst).Nodup
  placed : ∀ e ∈ t.entries, ∃ dir name, e.1 = dir ++ [name] ∧ EntryName name ∧
    t.node? dir = some .dir
  inside : t.node? t.cwd = some .dir

variable {t : FileTree} {loc dir : Location} {n : Node} {name : String}

theorem sound_iff : t.Sound ↔ (t.entries.map Prod.fst).Nodup ∧
    (∀ e ∈ t.entries, e.1 ≠ [] ∧ EntryName (e.1.getLastD "") ∧ t.node? e.1.dropLast = some .dir) ∧
    t.node? t.cwd = some .dir := by
  have hplaced {e : Location × Node} : (∃ dir name, e.1 = dir ++ [name] ∧ EntryName name ∧
      t.node? dir = some .dir) ↔
      e.1 ≠ [] ∧ EntryName (e.1.getLastD "") ∧ t.node? e.1.dropLast = some .dir := by
    constructor
    · rintro ⟨dir,name,he,hname,hdir⟩
      simpa [he] using ⟨hname,hdir⟩
    · rintro ⟨hne,hname,hdir⟩
      obtain ⟨dir,name,he⟩ := (List.eq_nil_or_concat e.1).resolve_left hne
      rw [he] at hname hdir
      exact ⟨dir,name,by simpa using he,by simpa using hname,by simpa using hdir⟩
  constructor
  · intro ⟨hunique,hall,hinside⟩
    exact ⟨hunique,fun e he => hplaced.mp (hall e he),hinside⟩
  · intro ⟨hunique,hall,hinside⟩
    exact ⟨hunique,fun e he => hplaced.mpr (hall e he),hinside⟩

instance : (n : Option Node) → Decidable (n = some .dir)
  | some .dir => isTrue rfl
  | some (.file ..) | some (.link _) | none => isFalse nofun

/-- Whether a given tree is sound can be seen from its entries. -/
instance : Decidable t.Sound :=
  decidable_of_iff _ sound_iff.symm

theorem mem_entries_of_node? (hne : loc ≠ []) (h : t.node? loc = some n) :
    (loc,n) ∈ t.entries := by
  rw [node?,if_neg (by simpa using hne)] at h
  obtain ⟨before,after,he,_⟩ := List.lookup_eq_some_iff.mp h
  rw [he]
  exact List.mem_append_right before List.mem_cons_self

theorem lookup_of_mem {α β : Type} [BEq α] [LawfulBEq α] {entries : List (α × β)}
    (hd : (entries.map Prod.fst).Nodup) {k : α} {v : β} (hm : (k,v) ∈ entries) :
    entries.lookup k = some v := by
  induction entries with
  | nil => cases hm
  | cons e entries ih =>
    obtain ⟨k',v'⟩ := e
    obtain ⟨hfirst,hd⟩ := List.nodup_cons.mp hd
    rcases List.mem_cons.mp hm with he | hm
    · cases he
      exact List.lookup_cons_self
    · have hne : (k == k') = false := by
        refine beq_false_of_ne ?_
        intro he
        exact hfirst (he ▸ List.mem_map.mpr ⟨_,hm,rfl⟩)
      rw [List.lookup_cons,hne]
      exact ih hd hm

theorem Sound.node?_of_mem (h : t.Sound) (hm : (loc,n) ∈ t.entries) : t.node? loc = some n := by
  obtain ⟨dir,name,he,_⟩ := h.placed _ hm
  have hne : loc ≠ [] := by
    intro hx
    simp [hx] at he
  rw [node?,if_neg (by simpa using hne)]
  exact lookup_of_mem h.unique hm

theorem Sound.parent (h : t.Sound) (hn : t.node? (dir ++ [name]) = some n) :
    EntryName name ∧ t.node? dir = some .dir := by
  obtain ⟨dir',name',he,hname,hdir⟩ := h.placed _ (mem_entries_of_node? (by simp) hn)
  obtain ⟨rfl,hlast⟩ := List.append_inj' he rfl
  rw [List.singleton_inj.mp hlast]
  exact ⟨hname,hdir⟩

/-- A walk through directories stays in directories. -/
theorem Sound.closed (h : t.Sound) : t.Closed fun loc => t.node? loc = some .dir := by
  refine ⟨rfl,?_,id⟩
  intro loc hloc
  rcases List.eq_nil_or_concat loc with rfl | ⟨dir,name,rfl⟩
  · rfl
  · rw [List.concat_eq_append] at hloc ⊢
    rw [List.dropLast_concat]
    exact (h.parent hloc).2

/-- What an entry adds to the list of a directory. -/
def childOf? (dir : Location) (e : Location × Node) : Option (String × Node) :=
  match e.1.getLast? with
  | some name => if e.1.dropLast = dir then some (name,e.2) else none
  | none => none

theorem childOf?_eq_some_iff {e : Location × Node} {c : String × Node} :
    childOf? dir e = some c ↔ e = (dir ++ [c.1],c.2) := by
  obtain ⟨loc,n⟩ := e
  unfold childOf?
  constructor
  · intro h
    split at h
    · rename_i name hlast
      obtain ⟨dir',rfl⟩ := List.getLast?_eq_some_iff.mp hlast
      rw [List.dropLast_concat] at h
      split at h
      · rename_i hd
        cases h
        rw [← hd]
      · cases h
    · cases h
  · intro h
    cases h
    simp

/-- What a directory lists are the entries that stand in it. -/
theorem mem_children : (name,n) ∈ t.children dir ↔ (dir ++ [name],n) ∈ t.entries := by
  change (name,n) ∈ t.entries.filterMap (childOf? dir) ↔ _
  rw [List.mem_filterMap]
  constructor
  · intro ⟨e,hm,he⟩
    exact childOf?_eq_some_iff.mp he ▸ hm
  · intro hm
    exact ⟨_,hm,childOf?_eq_some_iff.mpr rfl⟩

/-- A directory lists each name once. -/
theorem Sound.nodup_children (h : t.Sound) (dir : Location) :
    ((t.children dir).map Prod.fst).Nodup := by
  change ((t.entries.filterMap (childOf? dir)).map Prod.fst).Nodup
  rw [List.Nodup,List.pairwise_map,List.pairwise_filterMap]
  refine (List.pairwise_map.mp h.unique).imp ?_
  intro e e' hne c hc c' hc' hname
  rw [childOf?_eq_some_iff.mp hc,childOf?_eq_some_iff.mp hc',hname] at hne
  exact hne rfl

/-- Without following a last link a path leads somewhere, too. -/
theorem walkTo_unfollowed
    {jump jump' : Location → List String → Except IoFault (Location × Option Node)}
    (hj : ∀ {here ps loc n}, jump here ps = .ok (loc,some n) →
      ∃ loc' n', jump' here ps = .ok (loc',some n')) {here : Location} {ps : List String}
    (h : t.walkTo true jump here ps = .ok (loc,some n)) :
    ∃ loc' n', t.walkTo false jump' here ps = .ok (loc',some n') := by
  induction ps generalizing here with
  | nil => exact ⟨loc,n,h⟩
  | cons piece rest ih =>
    simp only [walkTo] at h ⊢
    split
    · rename_i hskip
      rw [if_pos hskip] at h
      exact ih h
    rename_i hskip
    rw [if_neg hskip] at h
    split
    · rename_i hup
      rw [if_pos hup] at h
      exact ih h
    rename_i hup
    rw [if_neg hup] at h
    split at h
    · cases h
    rename_i hshort
    rw [if_neg hshort]
    cases hn : t.node? (here ++ [piece]) with
    | none =>
      simp only [hn] at h
      split at h <;> cases h
    | some node =>
      rw [hn] at h
      cases node with
      | dir => exact ih h
      | file bytes x => exact ⟨loc,n,h⟩
      | link target =>
        simp only [Bool.not_true,Bool.and_false,Bool.false_eq_true,↓reduceIte] at h
        simp only
        split
        · exact ⟨_,_,rfl⟩
        · exact hj h

theorem walk_unfollowed {links : Nat} {here : Location} {ps : List String}
    (h : t.walk true links here ps = .ok (loc,some n)) :
    ∃ loc' n', t.walk false links here ps = .ok (loc',some n') := by
  induction links generalizing here ps loc n with
  | zero => exact walkTo_unfollowed (fun hx => by cases hx) h
  | succ links ih => exact walkTo_unfollowed ih h

/-- The first part of a walk that leads somewhere leads to a directory, if names follow. -/
theorem Sound.walk_first (h : t.Sound) {links : Nat} {here : Location} {ps qs : List String}
    (hh : t.node? here = some .dir) (hqs : ∀ q ∈ qs, q ≠ "")
    (hw : t.walk true links here (ps ++ qs) = .ok (loc,some n)) :
    ∃ loc' n', t.walk true links here ps = .ok (loc',some n') := by
  cases qs with
  | nil => exact ⟨loc,n,by rwa [List.append_nil] at hw⟩
  | cons q qs =>
    rcases walk_append h.closed links hh ps with ⟨d,k,hd,hgo⟩ | ⟨_,herror⟩
    · refine ⟨d,.dir,?_⟩
      have := hgo []
      rw [List.append_nil] at this
      rw [this,walk_nothing (.inl rfl),hd]
    · obtain ⟨f,hf⟩ := herror (q :: qs) ⟨q,List.mem_cons_self,hqs q List.mem_cons_self⟩
      rw [hf] at hw
      cases hw

/-- Where a path leads somewhere, something stands at each of its starts. -/
theorem Sound.locate_spell (h : t.Sound) {absolute : Bool} {before after : List String}
    (hne : before ≠ []) (hns : ∀ n ∈ before ++ after, Proper n)
    (hl : t.locate (spell absolute (before ++ after)) = .ok (loc,some n)) :
    ∃ loc' n', t.locate (spell absolute before) false = .ok (loc',some n') := by
  have hbefore : ∀ n ∈ before, Proper n := fun n hn =>
    hns n (List.mem_append_left after hn)
  have hafter : ∀ n ∈ after, Proper n := fun n hn =>
    hns n (List.mem_append_right before hn)
  have hopen := open_spell absolute hne hbefore
  obtain ⟨rest,hr⟩ : ∃ rest, spell absolute (before ++ after) = spell absolute before ++ rest := by
    rw [spell,List.foldl_append]
    exact foldl_join_extends hopen.ne_empty hafter
  have hstart : t.node? (if absolute then [] else t.cwd) = some .dir := by
    cases absolute with
    | true => rfl
    | false => exact h.inside
  unfold locate at hl ⊢
  split at hl
  · cases hl
  rename_i hnul
  split at hl
  · cases hl
  split at hl
  · cases hl
  rename_i hsize
  rw [isAbsolute_spell _ hns,pieces_spell _ (List.append_ne_nil_of_left_ne_nil hne after) hns,
    walk_firstPiece] at hl
  obtain ⟨loc₁,n₁,h₁⟩ := h.walk_first hstart (fun q hq => (hafter q hq).1) hl
  obtain ⟨loc₂,n₂,h₂⟩ := walk_unfollowed h₁
  refine ⟨loc₂,n₂,?_⟩
  rw [if_neg,if_neg (by simpa using hopen.ne_empty),if_neg,isAbsolute_spell _ hbefore,
    pieces_spell _ hne hbefore,walk_firstPiece,h₂]
  · rw [hr,String.utf8ByteSize_append] at hsize
    omega
  · intro hx
    rw [hr,String.toList_append,List.contains_append,hx,Bool.true_or] at hnul
    exact hnul rfl

/-- What the path of a child leads to stands in the directory to which the path above it leads. -/
theorem Sound.child_found (h : t.Sound) {path : String} (hp : path ≠ "") (hn : Plain name)
    (hl : t.locate (join path name) = .ok (loc,some n)) :
    ∃ d m, t.locate path = .ok (d,some .dir) ∧ t.node? (d ++ [name]) = some m := by
  obtain ⟨d,hd,hchild⟩ := locate_child hp hn hl
  obtain ⟨m,hm⟩ : ∃ m, t.node? (d ++ [name]) = some m := by
    rcases hchild with rfl | ⟨target,ht⟩
    · exact ⟨n,(locate_node hl).symm⟩
    · exact ⟨_,ht⟩
  rw [(h.parent hm).2] at hd
  exact ⟨d,m,hd,hm⟩

/-- What is made in a directory, where nothing stood, is in its place. -/
theorem Sound.put (h : t.Sound) (hdir : t.node? dir = some .dir) (hn : EntryName name)
    (hfree : t.node? (dir ++ [name]) = none) (n : Node) : (t.put (dir ++ [name]) n).Sound := by
  have hgrows : t.Grows (t.put (dir ++ [name]) n) := grows_put hfree n
  have hlookup : t.entries.lookup (dir ++ [name]) = none := by
    rwa [node?,if_neg (by simp)] at hfree
  have hentries : (t.put (dir ++ [name]) n).entries = t.entries ++ [(dir ++ [name],n)] := by
    unfold FileTree.put
    rw [hlookup]
    rfl
  refine ⟨?_,?_,?_⟩
  · rw [hentries,List.map_append,List.nodup_append]
    refine ⟨h.unique,by simp,?_⟩
    intro loc hloc loc' hloc' he
    obtain ⟨⟨l,m⟩,hm,rfl⟩ := List.mem_map.mp hloc
    have hnew : l = dir ++ [name] := he.trans (by simpa using hloc')
    have hstands := h.node?_of_mem hm
    rw [hnew,hfree] at hstands
    cases hstands
  · intro e he
    rw [hentries] at he
    rcases List.mem_append.mp he with he | he
    · obtain ⟨dir',name',hloc,hname,hdir'⟩ := h.placed e he
      exact ⟨dir',name',hloc,hname,hgrows.node hdir'⟩
    · rw [List.mem_singleton.mp he]
      exact ⟨dir,name,rfl,hn,hgrows.node hdir⟩
  · rw [hgrows.cwd_eq]
    exact hgrows.node h.inside

/-- A directory that was made is there, with nothing in it. -/
theorem Sound.put_dir (h : t.Sound) (hdir : t.node? dir = some .dir) (hn : EntryName name)
    (hfree : t.node? (dir ++ [name]) = none) :
    (t.put (dir ++ [name]) .dir).Sound ∧
      (t.put (dir ++ [name]) .dir).node? (dir ++ [name]) = some .dir ∧
      ∀ child, (t.put (dir ++ [name]) .dir).node? (dir ++ [name] ++ [child]) = none := by
  refine ⟨h.put hdir hn hfree .dir,?_,?_⟩
  · rw [node?_put t (by simp),if_pos rfl]
  · intro child
    rw [node?_put t (by simp),if_neg (by simp)]
    cases hc : t.node? (dir ++ [name] ++ [child]) with
    | none => rfl
    | some m =>
      rw [(h.parent hc).2] at hfree
      cases hfree

/-- A tree without symbolic links. -/
def Linkless (t : FileTree) : Prop :=
  ∀ loc target, t.node? loc ≠ some (.link target)

theorem linkless_of_entries (h : ∀ e ∈ t.entries, ∀ target, e.2 ≠ .link target) : t.Linkless := by
  intro loc target hn
  by_cases hne : loc = []
  · rw [hne] at hn
    cases hn
  · exact h _ (mem_entries_of_node? hne hn) target rfl

/-- Without links a path leads to where its names say. -/
theorem walkTo_linkless (hl : t.Linkless) {followLast : Bool}
    {jump : Location → List String → Except IoFault (Location × Option Node)} {here : Location}
    {ps : List String} (hps : ∀ p ∈ ps, Plain p) {n : Option Node}
    (h : t.walkTo followLast jump here ps = .ok (loc,n)) : loc = here ++ ps := by
  induction ps generalizing here with
  | nil =>
    cases h
    exact (List.append_nil _).symm
  | cons p ps ih =>
    have hp := hps p List.mem_cons_self
    have hrest : ∀ q ∈ ps, Plain q := fun q hq => hps q (List.mem_cons_of_mem _ hq)
    simp only [walkTo,hp.named,hp.not_here,or_self,hp.not_up,↓reduceIte] at h
    split at h
    · cases h
    cases hn : t.node? (here ++ [p]) with
    | none =>
      simp only [hn] at h
      split at h <;> cases h
      rename_i hall
      cases ps with
      | nil => rfl
      | cons q ps =>
        have hq := (hrest q List.mem_cons_self).named
        simp [hq] at hall
    | some node =>
      rw [hn] at h
      cases node with
      | dir => rw [ih hrest h,List.append_assoc,List.singleton_append]
      | file bytes x =>
        simp only at h
        split at h <;> cases h
        rename_i hempty
        rw [List.isEmpty_iff.mp hempty]
      | link target => exact absurd hn (hl _ target)

theorem walk_linkless (hl : t.Linkless) {followLast : Bool} {links : Nat} {here : Location}
    {ps : List String} (hps : ∀ p ∈ ps, Plain p) {n : Option Node}
    (h : t.walk followLast links here ps = .ok (loc,n)) : loc = here ++ ps := by
  cases links with
  | zero => exact walkTo_linkless hl hps h
  | succ links => exact walkTo_linkless hl hps h

/-- Without links a file is found where the names of its path say. -/
theorem locate_linkless (hl : t.Linkless) {path : String} {rel : List String} (hp : Open path)
    (hnames : ∀ p ∈ names path ++ rel, Plain p) {followLast : Bool} {n : Option Node}
    (h : t.locate (rel.foldl join path) followLast = .ok (loc,n)) :
    loc = (if isAbsolute path then [] else t.cwd) ++ (names path ++ rel) := by
  have hrel : ∀ p ∈ rel, Proper p := fun p hm => (hnames p (List.mem_append_right _ hm)).proper
  have hthin : Thinned (pieces path ++ rel) (names path ++ rel) := by
    obtain ⟨ps,q,hpieces,hq⟩ := hp
    rw [names,hpieces]
    exact (thinned_filter hq).append rel
  unfold locate at h
  split at h
  · cases h
  split at h
  · cases h
  split at h
  · cases h
  rw [isAbsolute_foldl path hrel,hp.pieces_foldl hrel,walk_thinned hthin] at h
  exact walk_linkless hl hnames h

end EndpointAudit.FileTree
