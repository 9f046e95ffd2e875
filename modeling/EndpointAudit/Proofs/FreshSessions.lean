import EndpointAudit.Proofs.LogEntries
import EndpointAudit.Proofs.MadeDirs
import Mathlib.Data.List.Nodup
import Mathlib.Data.List.Perm.Subperm
import Mathlib.Data.Nat.Find

namespace EndpointAudit

namespace Path

variable {above dir name : String}

/-- A text without slashes is a name, if it does not consist of dots. -/
theorem plain_of_mem {c : Char} (hm : c ∈ name.toList) (hc : c ≠ '.') (hs : '/' ∉ name.toList) :
    Plain name := by
  refine ⟨?_,?_,?_,hs⟩ <;> rintro rfl
  · cases hm
  · exact hc (List.mem_singleton.mp hm)
  · rcases List.mem_cons.mp hm with rfl | hm
    · exact hc rfl
    · exact hc (List.mem_singleton.mp hm)

/-- A path that ends with a name. -/
def Named (path : String) : Prop :=
  ∃ above name, Plain name ∧ path = join above name

theorem Named.ne_empty (h : Named dir) : dir ≠ "" := by
  obtain ⟨above,name,hn,rfl⟩ := h
  exact (open_join above hn.proper).ne_empty

theorem named_join (above : String) (hn : Plain name) : Named (join above name) :=
  ⟨above,name,hn,rfl⟩

theorem join_split (above : String) (hn : '/' ∉ name.toList) :
    ∃ front, (join above name).toList = front ++ name.toList := by
  unfold join
  rw [relative_of_slashless hn]
  simp only [Bool.false_eq_true,↓reduceIte]
  split
  · exact ⟨[],rfl⟩
  split
  · exact ⟨above.toList,String.toList_append⟩
  · exact ⟨(above ++ "/").toList,String.toList_append⟩

/-- A name is not dropped from the end of a path. -/
theorem dropTrailing_name (hn : Plain name) (front : List Char) :
    dropTrailing (name.toList.reverse ++ front) = name.toList.reverse ++ front := by
  have hslash : '/' ∉ name.toList.reverse := by simpa using hn.slashless
  have hdot : name.toList.reverse ≠ ['.'] := by
    intro he
    refine hn.not_here (String.toList_injective ?_)
    exact (List.reverse_eq_iff.mp he : name.toList = ['.'].reverse)
  obtain ⟨c,cs,hcs⟩ : ∃ c cs, name.toList.reverse = c :: cs :=
    List.exists_cons_of_ne_nil (by simpa using hn.named)
  rw [hcs,List.mem_cons,not_or] at hslash
  rw [hcs] at hdot ⊢
  unfold dropTrailing
  split
  · rename_i he
    exact absurd (List.cons.inj he).1 (Ne.symm hslash.1)
  · rename_i he
    obtain ⟨rfl,hnext⟩ := List.cons.inj he
    cases cs with
    | nil => exact absurd rfl hdot
    | cons c' cs =>
      have hc : c' = '/' := (List.cons.inj hnext).1
      exact absurd (hc ▸ List.mem_cons_self) hslash.2
  · rfl

theorem join_named (hd : Named dir) {path : String} (hp : isAbsolute path = false) :
    join dir path = dir ++ "/" ++ path := by
  have hempty : dir.isEmpty = false := by simpa using hd.ne_empty
  have hlast : (dir.toList.getLast? == some '/') = false := by
    obtain ⟨above,last,hl,rfl⟩ := hd
    obtain ⟨front,hfront⟩ := join_split above hl.slashless
    have hne : last.toList ≠ [] := by simpa using hl.named
    rw [hfront,List.getLast?_append_of_ne_nil _ hne,List.getLast?_eq_some_getLast hne]
    refine beq_false_of_ne fun he => hl.slashless ?_
    exact Option.some.inj he ▸ List.getLast_mem hne
  unfold join
  rw [hp,hempty,hlast]
  rfl

theorem pieces_child (hd : Named dir) (hn : Plain name) :
    pieces (join dir name) = pieces dir ++ [name] := by
  rw [join_named hd (relative_of_slashless hn.slashless),pieces_append,
    pieces_of_slashless hn.slashless]

theorem components_ne_nil (hp : ∃ ps, pieces dir = ps ++ [name]) (hn : Plain name) :
    (components dir).isEmpty = false := by
  obtain ⟨ps,hp⟩ := hp
  unfold components
  split
  · rfl
  · refine List.isEmpty_eq_false_iff.mpr (List.ne_nil_of_mem (a := name) ?_)
    rw [hp]
    simp [hn.named,hn.not_here]

theorem parent_join (hd : Named dir) (hn : Plain name) : parent? (join dir name) = some dir := by
  have hcomponents : (components (join dir name)).isEmpty = false := by
    refine components_ne_nil ?_ hn
    obtain ⟨ps,_,_,_,hj⟩ := join_slashless hd.ne_empty hn.slashless
    exact ⟨ps,hj⟩
  have hreverse : (join dir name).toList.reverse =
      name.toList.reverse ++ '/' :: dir.toList.reverse := by
    rw [join_named hd (relative_of_slashless hn.slashless)]
    simp
  have hslash : ∀ c ∈ name.toList.reverse, (c != '/') = true := by
    intro c hc
    have hne : c ≠ '/' := by
      rintro rfl
      exact hn.slashless (List.mem_reverse.mp hc)
    simpa using hne
  have hkept : dropTrailing ('/' :: dir.toList.reverse) = dir.toList.reverse := by
    obtain ⟨above,last,hl,rfl⟩ := hd
    obtain ⟨front,hfront⟩ := join_split above hl.slashless
    rw [dropTrailing,hfront,List.reverse_append]
    exact dropTrailing_name hl _
  have hne : dir.toList.reverse.isEmpty = false := by simpa using hd.ne_empty
  unfold parent?
  rw [hcomponents,hreverse,dropTrailing_name hn,List.dropWhile_append_of_pos hslash]
  simp only [List.dropWhile_cons,bne_self_eq_false,Bool.false_eq_true,↓reduceIte,hkept,hne,
    Bool.false_and,List.reverse_reverse,String.ofList_toList]

end Path

namespace FileTree

open EndpointAudit.Path

variable {t t' t₁ : FileTree} {dir name : String} {loc d S : Location}

theorem base_child (hn : Plain name) : base d (join dir name) = base d dir := by
  rw [base,base,isAbsolute_join dir hn.slashless]

theorem Straight.join (h : t.Straight dir) (hn : Plain name) : t.Straight (join dir name) := by
  intro first rest hp hup
  obtain ⟨ps,tail,hdir,hjoin⟩ : ∃ ps tail, pieces dir = ps ++ tail ∧
      pieces (Path.join dir name) = ps ++ [name] := by
    by_cases hd : dir = ""
    · rw [hd,join_empty,pieces_of_slashless hn.slashless]
      exact ⟨[],pieces "",rfl,rfl⟩
    · obtain ⟨ps,tail,hp,_,hj⟩ := join_slashless hd hn.slashless
      exact ⟨ps,tail,hp,hj⟩
  rw [base_child hn]
  rw [hjoin] at hp
  rcases List.eq_nil_or_concat rest with rfl | ⟨rest,last,rfl⟩
  · cases hup
  · rw [List.concat_eq_append,← List.append_assoc] at hp
    obtain ⟨hps,hlast⟩ := List.append_inj' hp rfl
    have hup' : ".." ∈ rest := by
      rw [List.concat_eq_append,List.mem_append] at hup
      refine hup.resolve_right fun hx => ?_
      rw [← hlast] at hx
      exact hn.not_up (List.mem_singleton.mp hx).symm
    refine h first (rest ++ tail) ?_ (List.mem_append_left _ hup')
    rw [hdir,hps,List.append_assoc]

/-- What a directory is made in is there, unless it had to be made before. -/
theorem Dug.child (h : t.Dug (join dir name) t') (hs : t.Sound) (hd : Named dir) (hn : Plain name)
    (hx : t.pathExists dir = false) : ∃ t₁, t.Dug dir t₁ ∧ t₁.Grows t' := by
  have hparent := parent_join hd hn
  have hnot {d : Location} (hl : t.locate dir = .ok (d,some .dir)) : False := by
    rw [pathExists_of_locate hl] at hx
    cases hx
  cases h with
  | blank blank => exact absurd blank (named_join dir hn).ne_empty
  | made made =>
    obtain ⟨loc,hmissed,_,_⟩ := makeDir_ok made
    obtain ⟨d,hl,hchild⟩ := locate_child hd.ne_empty hn hmissed
    have hdir : t.node? d = some .dir := by
      rcases hchild with rfl | ⟨target,ht⟩
      · obtain ⟨d',name',he,_,hdir⟩ := hs.locate_absent hmissed
        rwa [(List.append_inj' he rfl).1]
      · exact (hs.parent ht).2
    rw [hdir] at hl
    exact absurd hl hnot
  | stands stands =>
    obtain ⟨loc,hl⟩ := isDir_iff.mp stands
    obtain ⟨d,_,hl,_⟩ := hs.child_found hd.ne_empty hn hl
    exact absurd hl hnot
  | above missing parent dug made =>
    cases hparent.symm.trans parent
    obtain ⟨loc,hmissed,rfl,_⟩ := makeDir_ok made
    exact ⟨_,dug,grows_put (locate_node hmissed).symm .dir⟩
  | along missing parent dug stands =>
    cases hparent.symm.trans parent
    exact ⟨_,dug,.refl _⟩

/-- Where only directories were made, a name in a new one stands for itself. -/
theorem Adds.locate_child {P : Location → Prop} (ha : t.Adds t' P) (hs : t.Sound)
    (hd : dir ≠ "") (hn : Plain name) {m n : Option Node} (hdir : t'.locate dir = .ok (d,m))
    (hfree : t.node? d = none) (hl : t'.locate (join dir name) = .ok (loc,n)) : loc = d ++ [name] := by
  obtain ⟨d',hd',hchild⟩ := FileTree.locate_child hd hn hl
  obtain ⟨rfl,_⟩ := Prod.mk.inj (Except.ok.inj (hdir.symm.trans hd'))
  rcases hchild with hchild | ⟨target,ht⟩
  · exact hchild
  · rcases ha.free (hs.none_below hfree (List.prefix_append d [name])) with hx | hx <;>
      rw [hx] at ht <;> cases ht

/-- Behind a directory that was missing, a directory in one in it is where the names say. -/
theorem Adds.locate_nested {P : Location → Prop} (ha : t.Adds t' P) (hs : t.Sound) (hd : Named dir)
    {inner : String} (hn : Plain name) (hi : Plain inner) {m n : Option Node}
    (hdir : t'.locate dir = .ok (S,m)) (hfree : t.node? S = none)
    (hl : t'.locate (join (join dir name) inner) = .ok (loc,n)) : loc = S ++ [name,inner] := by
  have hmiddle := (named_join dir hn).ne_empty
  obtain ⟨d,hd',_⟩ := FileTree.locate_child hmiddle hi hl
  have hd₁ : d = S ++ [name] := ha.locate_child hs hd.ne_empty hn hdir hfree hd'
  have hfree' : t.node? d = none := hd₁ ▸ hs.none_below hfree (List.prefix_append S [name])
  rw [ha.locate_child hs hmiddle hi hd' hfree' hl,hd₁,List.append_assoc]
  rfl

theorem exists_locate {path : String} (h : t.pathExists path = true) :
    ∃ loc n, t.locate path = .ok (loc,some n) := by
  unfold pathExists find at h
  rcases hl : t.locate path with f | ⟨loc,_ | n⟩
  · rw [hl] at h
    cases h
  · rw [hl] at h
    cases h
  · exact ⟨loc,n,rfl⟩

/-- All that can be found in a directory are entries of one location. -/
theorem Sound.entries_of (hs : t.Sound) (root : String) : ∃ d, ∀ name, Plain name →
    t.pathExists (join root name) = true → d ++ [name] ∈ t.entries.map Prod.fst := by
  have hentry {d : Location} {name : String} {m : Node} (hm : t.node? (d ++ [name]) = some m) :
      d ++ [name] ∈ t.entries.map Prod.fst :=
    List.mem_map.mpr ⟨_,mem_entries_of_node? (by simp) hm,rfl⟩
  by_cases hroot : root = ""
  · refine ⟨t.cwd,fun name hn hx => ?_⟩
    rw [hroot,join_empty] at hx
    obtain ⟨loc,n,hl⟩ := exists_locate hx
    have hwalk := (locate_eq_ok_iff.mp hl).2
    rw [base,relative_of_slashless hn.slashless,pieces_of_slashless hn.slashless] at hwalk
    rcases walk_plain hn hwalk with rfl | ⟨target,ht⟩
    · exact hentry (locate_node hl).symm
    · exact hentry ht
  · by_cases hleads : ∃ d m, t.locate root = .ok (d,m)
    · obtain ⟨d,m,hd⟩ := hleads
      refine ⟨d,fun name hn hx => ?_⟩
      obtain ⟨loc,n,hl⟩ := exists_locate hx
      obtain ⟨d',m',hd',hm⟩ := hs.child_found hroot hn hl
      obtain ⟨rfl,_⟩ := Prod.mk.inj (Except.ok.inj (hd.symm.trans hd'))
      exact hentry hm
    · refine ⟨[],fun name hn hx => ?_⟩
      obtain ⟨loc,n,hl⟩ := exists_locate hx
      obtain ⟨d,_,hd,_⟩ := hs.child_found hroot hn hl
      exact absurd ⟨d,_,hd⟩ hleads

end FileTree

open EndpointAudit.Path FileTree

namespace Session

variable {t t' : FileTree} {root stamp : String}

theorem candidate_plain (hs : Plain stamp) (k : Nat) : Plain (candidate stamp k) := by
  cases k with
  | zero => exact hs
  | succ k =>
    have hbar : '_' ∈ (candidate stamp (k + 1)).toList := by simp [candidate]
    refine plain_of_mem hbar (by decide) ?_
    intro hm
    simp only [candidate,String.toList_append,List.mem_append] at hm
    rcases hm with (hm | hm) | hm
    · exact hs.slashless hm
    · exact absurd hm (by decide)
    · rw [Nat.toString_eq_ofList_toDigits,String.toList_ofList] at hm
      exact absurd (Nat.isDigit_of_mem_toDigits (by decide) (by decide) hm) (by decide)

theorem candidate_injective (stamp : String) {i j : Nat} (h : candidate stamp i = candidate stamp j) :
    i = j := by
  have hlong (k : Nat) : candidate stamp (k + 1) ≠ stamp := by
    intro he
    have := congrArg (·.toList.length) he
    simp only [candidate,String.toList_append,List.length_append] at this
    have hone : "_".toList.length = 1 := rfl
    omega
  cases i with
  | zero =>
    cases j with
    | zero => rfl
    | succ j => exact absurd h.symm (hlong j)
  | succ i =>
    cases j with
    | zero => exact absurd h (hlong i)
    | succ j =>
      have hlist := congrArg String.toList h
      simp only [candidate,String.toList_append,List.append_assoc] at hlist
      have hdigits := List.append_cancel_left (List.append_cancel_left hlist)
      have hnumber := congrArg (fun ds => Nat.ofDigitChars 10 ds 0) hdigits
      simpa [Nat.toString_eq_ofList_toDigits] using hnumber

/-- Candidates that are all among some names are not more than these. -/
theorem candidates_le {names : List String} {k : Nat} (h : ∀ j < k, candidate stamp j ∈ names) :
    k ≤ names.length := by
  have hnodup : ((List.range k).map (candidate stamp)).Nodup :=
    List.nodup_range.map fun _ _ => candidate_injective stamp
  have hsub : (List.range k).map (candidate stamp) ⊆ names := by
    intro name hname
    obtain ⟨j,hj,rfl⟩ := List.mem_map.mp hname
    exact h j (List.mem_range.mp hj)
  simpa using (List.subperm_of_subset hnodup hsub).length_le

/-- The first candidate that does not exist under a root. -/
structure FirstFree (t : FileTree) (root stamp : String) (k : Nat) : Prop where
  free : t.pathExists (join root (candidate stamp k)) = false
  taken : ∀ j < k, t.pathExists (join root (candidate stamp j)) = true

theorem FirstFree.le_length {k : Nat} (h : FirstFree t root stamp k) (hp : Plain stamp)
    {names : List String}
    (hnames : ∀ name, Plain name → t.pathExists (join root name) = true → name ∈ names) :
    k ≤ names.length :=
  candidates_le fun j hj => hnames _ (candidate_plain hp j) (h.taken j hj)

/-- Only so many names exist under a root as there are entries, so not all candidates do. -/
theorem exists_firstFree (hs : t.Sound) (hp : Plain stamp) (root : String) :
    ∃ k, FirstFree t root stamp k ∧ k ≤ t.entries.length := by
  have hnames : ∀ name, Plain name → t.pathExists (join root name) = true →
      name ∈ t.entries.map fun e => e.1.getLastD "" := by
    obtain ⟨d,hd⟩ := hs.entries_of root
    intro name hn hx
    obtain ⟨e,he,hloc⟩ := List.mem_map.mp (hd name hn hx)
    exact List.mem_map.mpr ⟨e,he,by rw [hloc]; simp⟩
  have hsome : ∃ k, t.pathExists (join root (candidate stamp k)) = false := by
    by_contra hall
    simp only [not_exists,Bool.not_eq_false] at hall
    have hbound := candidates_le fun j (_ : j < t.entries.length + 1) =>
      hnames _ (candidate_plain hp j) (hall j)
    rw [List.length_map] at hbound
    omega
  have hfirst : FirstFree t root stamp (Nat.find hsome) := by
    refine ⟨Nat.find_spec hsome,?_⟩
    intro j hj
    exact Bool.not_eq_false _ ▸ Nat.find_min hsome hj
  exact ⟨_,hfirst,by simpa using hfirst.le_length hp hnames⟩

/-- The search comes to the first free candidate, if it may try so many. -/
theorem FirstFree.freeId_eq {k fuel start : Nat} (h : FirstFree t root stamp k) (hk : start ≤ k)
    (hfuel : k < start + fuel) : freeId t root stamp fuel start = candidate stamp k := by
  induction fuel generalizing start with
  | zero => omega
  | succ fuel ih =>
    rw [freeId]
    rcases Nat.lt_or_eq_of_le hk with hlt | rfl
    · rw [if_pos (h.taken start hlt)]
      exact ih hlt (by omega)
    · rw [h.free]
      rfl

/-- A session is opened under the first free candidate. -/
theorem create_eq (hs : t.Sound) {clock : Clock} (hc : Plain clock.stamp) (root : String) :
    ∃ k, FirstFree t root clock.stamp k ∧ create t root clock =
      openAt t (join root (candidate clock.stamp k)) (candidate clock.stamp k) := by
  obtain ⟨k,hk,hbound⟩ := exists_firstFree hs hc root
  refine ⟨k,hk,?_⟩
  rw [create,hk.freeId_eq (Nat.zero_le k) (by omega)]

/-- A directory has been made for a session, with its layout in it. -/
structure Created (t t' : FileTree) (dir : String) (S : Location) : Prop where
  sound : t'.Sound
  absent : t.pathExists dir = false
  fresh : t.node? S = none
  leads : t'.locate dir = .ok (S,some .dir)
  records : t'.node? (S ++ ["data","API"]) = some .dir
  calls : t'.node? (S ++ ["logs","llm"]) = some .dir
  adds : t.Adds t' fun loc => loc <+: S ++ ["data","API"] ∨ loc <+: S ++ ["logs","llm"]

theorem makeDirs_dug {path : String} (h : makeDirs t path = .ok t') : t.Dug path t' :=
  makeDirsWithin_dug (mapError_eq_ok_iff.mp h)

theorem openAt_created {dir id : String} {s : Session} (h : openAt t dir id = .ok (s,t'))
    (hs : t.Sound) (hd : Named dir) (hp : t.Straight dir) (hx : t.pathExists dir = false) :
    s = ⟨id,dir⟩ ∧ ∃ S, Created t t' dir S := by
  obtain ⟨t₁,h₁,h⟩ := bind_eq_ok_iff.mp h
  obtain ⟨t₂,h₂,h⟩ := bind_eq_ok_iff.mp h
  cases h
  have hdata : Plain "data" := by decide
  have hrecord : Plain "API" := by decide
  have hlogs : Plain "logs" := by decide
  have hcall : Plain "llm" := by decide
  have hmiddle : t.pathExists (join dir "data") = false := by
    by_contra hfound
    obtain ⟨loc,n,hl⟩ := exists_locate (Bool.not_eq_false _ ▸ hfound)
    obtain ⟨d,_,hl,_⟩ := hs.child_found hd.ne_empty hdata hl
    rw [pathExists_of_locate hl] at hx
    cases hx
  have hrecords := makeDirs_dug h₁
  have hcalls := makeDirs_dug h₂
  obtain ⟨tₘ,hdug,hgrows⟩ := hrecords.child hs (named_join dir hdata) hrecord hmiddle
  obtain ⟨t₀,hdug,hgrows'⟩ := hdug.child hs hd hdata hx
  obtain ⟨_,_,hleads⟩ := hdug.adds hs
  obtain ⟨S,hleads⟩ := hleads hd.ne_empty
  have hfresh := hdug.fresh hs hp hx hleads
  obtain ⟨hs₁,ha₁,hl₁⟩ := hrecords.adds hs
  obtain ⟨hs₂,ha₂,hl₂⟩ := hcalls.adds hs₁
  obtain ⟨l₁,hl₁⟩ := hl₁ (named_join _ hrecord).ne_empty
  obtain ⟨l₂,hl₂⟩ := hl₂ (named_join _ hcall).ne_empty
  have hleads₁ := (hgrows'.trans hgrows).locate hleads
  have hleads₂ := ha₂.locate hleads₁
  have ha := ha₁.trans ha₂
  obtain rfl := ha₁.locate_nested hs hd hdata hrecord hleads₁ hfresh hl₁
  obtain rfl := ha.locate_nested hs hd hlogs hcall hleads₂ hfresh hl₂
  have hstraight₁ : t.Straight (join (join dir "data") "API") := (hp.join hdata).join hrecord
  have hstraight₂ : t₁.Straight (join (join dir "logs") "llm") :=
    ((hp.join hlogs).join hcall).grows ha₁.toGrows
  refine ⟨rfl,S,hs₂,hx,hfresh,hleads₂,ha₂.node (locate_node hl₁).symm,(locate_node hl₂).symm,?_⟩
  have hbelow₁ := ha₁.imp fun hfree _ hpasses => hstraight₁.below hs ha₁ hfree hpasses hl₁
  have hbelow₂ := ha₂.imp fun hfree _ hpasses => hstraight₂.below hs₁ ha₂ hfree hpasses hl₂
  exact hbelow₁.trans hbelow₂

/-- A session that is made under a straight root has a directory of its own. -/
theorem create_created {root : String} {clock : Clock} {s : Session}
    (h : create t root clock = .ok (s,t')) (hs : t.Sound) (hc : Plain clock.stamp)
    (hp : t.Straight root) : Named s.dir ∧ ∃ S, Created t t' s.dir S := by
  obtain ⟨k,hk,hcreate⟩ := create_eq hs hc root
  have hid := candidate_plain hc k
  rw [hcreate] at h
  obtain ⟨rfl,hcreated⟩ := openAt_created h hs (named_join root hid) (hp.join hid) hk.free
  exact ⟨named_join root hid,hcreated⟩

end Session

/-- The stamps of clocks can be names. -/
theorem Clock.ofSeconds_plain (seconds : Nat) : Plain (Clock.ofSeconds seconds).stamp := by
  obtain ⟨year,month,day,hour,minute,second,hstamp⟩ : ∃ year month day hour minute second,
      (Clock.ofSeconds seconds).stamp = Text.padded 4 year ++ Text.padded 2 month ++
        Text.padded 2 day ++ "_" ++ Text.padded 2 hour ++ Text.padded 2 minute ++
        Text.padded 2 second :=
    ⟨_,_,_,_,_,_,rfl⟩
  rw [hstamp]
  have hbar : '_' ∈ (Text.padded 4 year ++ Text.padded 2 month ++ Text.padded 2 day ++ "_" ++
      Text.padded 2 hour ++ Text.padded 2 minute ++ Text.padded 2 second).toList := by
    simp
  have hdigits (width n : Nat) : '/' ∉ (Text.padded width n).toList := by
    intro hm
    exact absurd (CallLog.padded_chars width n '/' hm) (by decide)
  refine plain_of_mem hbar (by decide) ?_
  simp only [String.toList_append,List.mem_append,hdigits,or_false,false_or]
  decide

end EndpointAudit
