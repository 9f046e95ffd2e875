import EndpointAudit.Glob
import EndpointAudit.Proofs.PathOrder
import EndpointAudit.Proofs.SoundTrees

namespace EndpointAudit.Glob

open EndpointAudit.Path

/-- A text without the characters that mean something in a pattern. -/
def Literal (s : List Char) : Prop :=
  ∀ c ∈ s, c ≠ '*' ∧ c ≠ '?' ∧ c ≠ '['

instance : DecidablePred Literal := fun s =>
  List.decidableBAll (fun c => c ≠ '*' ∧ c ≠ '?' ∧ c ≠ '[') s

theorem tokensOf?_literal {cs : List Char} (h : Literal cs) : tokensOf? cs = some (cs.map .char) := by
  induction cs with
  | nil => rw [tokensOf?]; rfl
  | cons c cs ih =>
    obtain ⟨hstar,hany,hset⟩ := h c List.mem_cons_self
    have hrest := ih fun d hd => h d (List.mem_cons_of_mem _ hd)
    unfold tokensOf?
    split <;> simp_all

theorem literal?_chars (cs : List Char) : literal? (cs.map .char) = some cs := by
  induction cs with
  | nil => rfl
  | cons c cs ih =>
    unfold literal? at ih ⊢
    rw [List.map_cons,List.mapM_cons,ih]
    rfl

/-- The pattern that a name without wildcards is. -/
def nameOnly (name : String) : NamePattern :=
  .tokens (name.toList.map .char)

theorem namePattern?_literal {name : String} (h : Literal name.toList) :
    namePattern? name = some (nameOnly name) := by
  have hne : name ≠ "**" := by
    intro he
    exact (h '*' (he ▸ by decide)).1 rfl
  rw [namePattern?,if_neg hne,tokensOf?_literal h]
  rfl

/-- The pattern of the names with a given end. -/
def endingTokens (ending : List Char) : List Token :=
  .anySequence :: ending.map .char

theorem matchesTokens_chars (cs name : List Char) :
    matchesTokens (cs.map .char) name = true ↔ name = cs := by
  induction cs generalizing name with
  | nil => simp [matchesTokens]
  | cons c cs ih =>
    cases name with
    | nil => simp [matchesTokens]
    | cons d name => simp [matchesTokens,ih]

theorem matchesTokens_ending (ending name : List Char) :
    matchesTokens (endingTokens ending) name = true ↔ ending <:+ name := by
  rw [endingTokens,matchesTokens]
  induction name with
  | nil => rw [matchesAfterAny,matchesTokens_chars,List.suffix_nil,eq_comm]
  | cons c name ih =>
    rw [matchesAfterAny,Bool.or_eq_true,matchesTokens_chars,ih,List.suffix_cons_iff,eq_comm]

theorem namePattern?_json :
    namePattern? "*.json" = some (.tokens (endingTokens ".json".toList)) := by
  simp [namePattern?,tokensOf?,endingTokens]

variable {t : FileTree} {path : String}

theorem expand_nameOnly (t : FileTree) (path name : String) (rest : List NamePattern) :
    expand t path (nameOnly name :: rest) =
      if present t (join path name) then expand t (join path name) rest else [] := by
  rw [nameOnly,expand,literal?_chars]
  simp only [String.ofList_toList]

/-- Names without wildcards are followed as long as something is there. -/
theorem expand_names (t : FileTree) (path : String) (ns : List String) (rest : List NamePattern) :
    expand t path (ns.map nameOnly ++ rest) = expand t (ns.foldl join path) rest ∨
      expand t path (ns.map nameOnly ++ rest) = [] ∧
        ∃ before after, ns = before ++ after ∧ before ≠ [] ∧
          present t (before.foldl join path) = false := by
  induction ns generalizing path with
  | nil => exact .inl rfl
  | cons n ns ih =>
    rw [List.map_cons,List.cons_append,expand_nameOnly,List.foldl_cons]
    cases hp : present t (join path n) with
    | false => exact .inr ⟨rfl,[n],ns,rfl,List.cons_ne_nil _ _,hp⟩
    | true =>
      rcases ih (join path n) with h | ⟨h,before,after,rfl,_,hb⟩
      · exact .inl h
      · exact .inr ⟨h,n :: before,after,rfl,List.cons_ne_nil _ _,hb⟩

theorem literal?_ending (ending : List Char) : literal? (endingTokens ending) = none := rfl

theorem expand_ending (t : FileTree) (path : String) (ending : List Char) :
    expand t path [.tokens (endingTokens ending)] =
      ((namesIn t path).filter fun n => matchesTokens (endingTokens ending) n.toList).map
        (join path) := by
  have hdots : (if t.isDir path then dotNames (endingTokens ending) else []) = [] := by
    split <;> rfl
  rw [expand,literal?_ending]
  simp only [hdots,List.append_nil]
  induction namesIn t path with
  | nil => rfl
  | cons n ns ih =>
    rw [List.flatMap_cons,ih,List.filter_cons]
    split
    · rw [expand]
      rfl
    · rfl

/-- The names in a directory that have a given end, in ascending order. -/
def ended (t : FileTree) (path : String) (ending : List Char) : List String :=
  ((namesIn t path).filter fun n => matchesTokens (endingTokens ending) n.toList).mergeSort
    fun a b => a ≤ b

theorem literal_names (h : Literal path.toList) : ∀ n ∈ names path, Literal n.toList := by
  intro n hn c hc
  have hslash : c ≠ '/' := by
    intro he
    exact (proper_of_mem_names hn).2 (he ▸ hc)
  exact h c ((mem_names_iff hslash).mpr ⟨n,hn,hc⟩)

theorem mapM_namePattern? {ns : List String} (h : ∀ n ∈ ns, Literal n.toList) :
    ns.mapM namePattern? = some (ns.map nameOnly) := by
  induction ns with
  | nil => rfl
  | cons n ns ih =>
    rw [List.mapM_cons,namePattern?_literal (h n List.mem_cons_self),
      ih fun m hm => h m (List.mem_cons_of_mem _ hm)]
    rfl

theorem patterns?_json (h : Literal path.toList) : patterns? (join path "*.json") =
    some ((names path).map nameOnly ++ [.tokens (endingTokens ".json".toList)]) := by
  change (names (join path "*.json")).mapM namePattern? = _
  rw [names_join path ⟨by decide,by decide⟩,List.mapM_append,mapM_namePattern? (literal_names h),
    List.mapM_cons,namePattern?_json]
  rfl

theorem namesIn_eq_nil_or (t : FileTree) (path : String) : namesIn t path = [] ∨
    ∃ loc, t.locate path = .ok (loc,some .dir) ∧ namesIn t path = (t.children loc).map (·.1) := by
  unfold namesIn FileTree.find
  rcases t.locate path with f | ⟨loc,_ | (⟨b,x⟩ | _ | _)⟩
  · exact .inl rfl
  · exact .inl rfl
  · exact .inl rfl
  · exact .inr ⟨loc,rfl,rfl⟩
  · exact .inl rfl

/-- The last directory of a pattern is looked through, if there is one. -/
theorem expand_respelled (ht : t.Sound) (path : String) (ending : List Char) :
    expand t (if isAbsolute path then "/" else ".")
        ((names path).map nameOnly ++ [.tokens (endingTokens ending)]) =
      ((namesIn t (respelled path)).filter fun n =>
        matchesTokens (endingTokens ending) n.toList).map (join (respelled path)) := by
  rcases expand_names t (if isAbsolute path then "/" else ".") (names path)
    [.tokens (endingTokens ending)] with h | ⟨h,before,after,hsplit,hne,hb⟩
  · rw [h]
    exact expand_ending t (respelled path) ending
  · rcases namesIn_eq_nil_or t (respelled path) with hnone | ⟨loc,hloc,_⟩
    · rw [h,hnone]
      rfl
    · have hns : ∀ n ∈ before ++ after, Proper n := fun n hm =>
        proper_of_mem_names (hsplit ▸ hm)
      rw [respelled,hsplit] at hloc
      obtain ⟨_,_,hl⟩ := ht.locate_spell hne hns hloc
      have hpresent : present t (spell (isAbsolute path) before) = true := by
        rw [present,hl]
      rw [spell,hb] at hpresent
      cases hpresent

theorem mem_namesIn {n : String} : n ∈ namesIn t path ↔
    ∃ loc m, t.locate path = .ok (loc,some .dir) ∧ (loc ++ [n],m) ∈ t.entries := by
  constructor
  · intro hn
    rcases namesIn_eq_nil_or t path with hnil | ⟨loc,hloc,hnames⟩
    · rw [hnil] at hn
      cases hn
    · rw [hnames] at hn
      obtain ⟨⟨_,m⟩,hm,rfl⟩ := List.mem_map.mp hn
      exact ⟨loc,m,hloc,FileTree.mem_children.mp hm⟩
  · intro ⟨loc,m,hloc,hm⟩
    have hnames : namesIn t path = (t.children loc).map (·.1) := by
      unfold namesIn FileTree.find
      rw [hloc]
    rw [hnames]
    exact List.mem_map.mpr ⟨_,FileTree.mem_children.mpr hm,rfl⟩

theorem entryName_of_mem_namesIn (ht : t.Sound) {n : String} (hn : n ∈ namesIn t path) :
    FileTree.EntryName n := by
  obtain ⟨loc,m,_,hm⟩ := mem_namesIn.mp hn
  exact (ht.parent (ht.node?_of_mem hm)).1

theorem nodup_namesIn (ht : t.Sound) (path : String) : (namesIn t path).Nodup := by
  rcases namesIn_eq_nil_or t path with hnil | ⟨loc,_,hnames⟩
  · exact hnil ▸ List.nodup_nil
  · exact hnames ▸ ht.nodup_children loc

/-- What a pattern finds whose only wildcard stands for the start of the last name. -/
theorem paths?_json (ht : t.Sound) (h : Literal path.toList) (hn : names path ≠ []) :
    paths? t (join path "*.json") =
      some ((ended t (respelled path) ".json".toList).map (join (respelled path))) := by
  have hopen := open_spell (isAbsolute path) hn fun _ => proper_of_mem_names
  have hstart : (if (if isAbsolute path then "/" else "").isEmpty then "."
      else if isAbsolute path then "/" else "") = if isAbsolute path then "/" else "." := by
    cases isAbsolute path <;> rfl
  rw [paths?,patterns?_json h,Option.map_some,isAbsolute_join path (by decide)]
  simp only [hstart]
  rw [expand_respelled ht,ended,List.map_mergeSort]
  intro a ha b hb
  exact (before_join hopen.ne_empty (entryName_of_mem_namesIn ht (List.mem_filter.mp ha).1).toPlain
    (entryName_of_mem_namesIn ht (List.mem_filter.mp hb).1).toPlain).symm

theorem mem_ended {n : String} {ending : List Char} :
    n ∈ ended t path ending ↔ n ∈ namesIn t path ∧ ending <:+ n.toList := by
  rw [ended,List.mem_mergeSort,List.mem_filter,matchesTokens_ending]

theorem ended_sorted (ht : t.Sound) (path : String) (ending : List Char) :
    (ended t path ending).Pairwise (· < ·) := by
  have hle : (ended t path ending).Pairwise fun a b => decide (a ≤ b) := by
    refine List.pairwise_mergeSort ?_ ?_ _
    · intro a b c hab hbc
      exact decide_eq_true (String.le_trans (of_decide_eq_true hab) (of_decide_eq_true hbc))
    · intro a b
      simpa using String.le_total a b
  have hne : (ended t path ending).Pairwise (· ≠ ·) :=
    (List.mergeSort_perm _ _).nodup_iff.mpr ((nodup_namesIn ht path).filter _)
  refine (hle.and hne).imp ?_
  intro a b ⟨hab,hne⟩
  refine String.not_le.mp ?_
  intro hba
  exact hne (String.le_antisymm (of_decide_eq_true hab) hba)

end EndpointAudit.Glob
