import EndpointAudit.Proofs.Paths

namespace EndpointAudit

namespace Path

/-- The names between the slashes of a path. -/
def names (path : String) : List String :=
  (pieces path).filter (· != "")

/-- A name between slashes, which may be a dot or two. -/
structure Proper (name : String) : Prop where
  named : name ≠ ""
  slashless : '/' ∉ name.toList

theorem Plain.proper {name : String} (h : Plain name) : Proper name :=
  ⟨h.named,h.slashless⟩

/-- The path that goes through names from the root or from the working directory. -/
def spell (absolute : Bool) (ns : List String) : String :=
  ns.foldl join (if absolute then "/" else ".")

/-- A path put together anew from its names. -/
def respelled (path : String) : String :=
  spell (isAbsolute path) (names path)

variable {path dir name : String} {ns : List String}

/-- A path is a name, or a name with a slash and a path behind it. -/
theorem path_induction {motive : String → Prop}
    (single : ∀ name, '/' ∉ name.toList → motive name)
    (more : ∀ name rest, '/' ∉ name.toList → motive rest → motive (name ++ "/" ++ rest))
    (path : String) : motive path := by
  induction hl : path.toList.length using Nat.strongRecOn generalizing path with
  | _ length ih =>
    by_cases hs : '/' ∈ path.toList
    · obtain ⟨before,after,hsplit,hbefore⟩ := List.eq_append_cons_of_mem hs
      have hpath : path = String.ofList before ++ "/" ++ String.ofList after := by
        apply String.toList_injective
        simpa using hsplit
      rw [hpath]
      refine more _ _ (by simpa using hbefore) (ih after.length ?_ _ (by simp))
      rw [← hl,hsplit,List.length_append,List.length_cons]
      omega
    · exact single path hs

theorem pieces_slashless {piece : String} (h : piece ∈ pieces path) : '/' ∉ piece.toList := by
  induction path using path_induction with
  | single name hn =>
    rw [pieces_of_slashless hn] at h
    rwa [List.mem_singleton.mp h]
  | more name rest hn ih =>
    rw [pieces_append,pieces_of_slashless hn] at h
    rcases List.mem_cons.mp h with rfl | h
    · exact hn
    · exact ih h

theorem proper_of_mem_names {n : String} (h : n ∈ names path) : Proper n := by
  obtain ⟨hp,hne⟩ := List.mem_filter.mp h
  exact ⟨by simpa using hne,pieces_slashless hp⟩

/-- The length of pieces, with one slash for each of them. -/
def weight : List String → Nat
  | [] => 0
  | p :: ps => p.utf8ByteSize + 1 + weight ps

theorem weight_filter (f : String → Bool) (ps : List String) : weight (ps.filter f) ≤ weight ps := by
  induction ps with
  | nil => exact Nat.le_refl _
  | cons p ps ih =>
    rw [List.filter_cons]
    split
    · exact Nat.add_le_add_left ih _
    · exact Nat.le_trans ih (Nat.le_add_left _ _)

theorem weight_pieces (path : String) : weight (pieces path) = path.utf8ByteSize + 1 := by
  induction path using path_induction with
  | single name hn => rw [pieces_of_slashless hn,weight,weight,Nat.add_zero]
  | more name rest hn ih =>
    have hslash : "/".utf8ByteSize = 1 := rfl
    rw [pieces_append,pieces_of_slashless hn,List.singleton_append,weight,ih,
      String.utf8ByteSize_append,String.utf8ByteSize_append]
    omega

/-- A character other than a slash stands in a path just if it stands in one of the pieces. -/
theorem mem_pieces_iff {c : Char} (hc : c ≠ '/') :
    c ∈ path.toList ↔ ∃ piece ∈ pieces path, c ∈ piece.toList := by
  induction path using path_induction with
  | single name hn => simp [pieces_of_slashless hn]
  | more name rest hn ih =>
    rw [pieces_append,pieces_of_slashless hn]
    simp [ih,hc]

theorem mem_names_iff {c : Char} (hc : c ≠ '/') :
    c ∈ path.toList ↔ ∃ n ∈ names path, c ∈ n.toList := by
  rw [mem_pieces_iff hc]
  constructor
  · intro ⟨n,hn,hm⟩
    refine ⟨n,List.mem_filter.mpr ⟨hn,?_⟩,hm⟩
    have : n ≠ "" := by
      intro he
      simp [he] at hm
    simpa using this
  · intro ⟨n,hn,hm⟩
    exact ⟨n,(List.mem_filter.mp hn).1,hm⟩

theorem join_empty (path : String) : join "" path = path := by
  unfold join
  split <;> rfl

/-- A child adds one name to a path. -/
theorem names_join (dir : String) (hn : Proper name) :
    names (join dir name) = names dir ++ [name] := by
  have hone : [name].filter (· != "") = [name] := by simpa using hn.named
  by_cases hd : dir = ""
  · rw [hd,join_empty,names,names,pieces_of_slashless hn.slashless,hone]
    rfl
  · obtain ⟨ps,tail,hp,ht,hj⟩ := join_slashless hd hn.slashless
    have htail : tail.filter (· != "") = [] := by rcases ht with rfl | rfl <;> rfl
    rw [names,names,hj,hp,List.filter_append,List.filter_append,hone,htail,List.append_nil]

theorem isAbsolute_join_relative (dir : String) (hp : isAbsolute path = false) :
    isAbsolute (join dir path) = isAbsolute dir := by
  by_cases hd : dir = ""
  · rw [hd,join_empty,hp]
    rfl
  · have he : dir.isEmpty = false := by simpa using hd
    have hl : dir.toList ≠ [] := by simpa using hd
    unfold join
    simp only [hp,he,Bool.false_eq_true,↓reduceIte]
    split <;> simp [isAbsolute,List.head?_append,List.head?_eq_some_head hl]

theorem isAbsolute_join (dir : String) (hs : '/' ∉ name.toList) :
    isAbsolute (join dir name) = isAbsolute dir :=
  isAbsolute_join_relative dir (relative_of_slashless hs)

/-- A path that a slash does not end. -/
def Open (path : String) : Prop :=
  ∃ ps q, pieces path = ps ++ [q] ∧ q ≠ ""

theorem Open.ne_empty (h : Open path) : path ≠ "" := by
  intro he
  obtain ⟨ps,q,hp,hq⟩ := h
  rw [he,pieces_of_slashless (by decide)] at hp
  cases ps with
  | nil => exact hq (List.singleton_inj.mp hp).symm
  | cons p ps => simp at hp

/-- The pieces of a child of a path that does not end with a slash. -/
theorem Open.pieces_join (h : Open path) (hs : '/' ∉ name.toList) :
    pieces (join path name) = pieces path ++ [name] := by
  obtain ⟨ps,tail,hp,ht,hj⟩ := join_slashless h.ne_empty hs
  obtain ⟨ps',q,hp',hq⟩ := h
  rcases ht with rfl | rfl
  · rw [hj,hp,List.append_nil]
  · rw [hp] at hp'
    exact absurd (List.append_inj_right' hp' rfl) (by simpa using Ne.symm hq)

theorem open_join (dir : String) (hn : Proper name) : Open (join dir name) := by
  by_cases hd : dir = ""
  · rw [hd,join_empty]
    exact ⟨[],name,pieces_of_slashless hn.slashless,hn.named⟩
  · obtain ⟨ps,_,_,_,hj⟩ := join_slashless hd hn.slashless
    exact ⟨ps,name,hj,hn.named⟩

theorem size_join (dir name : String) :
    (join dir name).utf8ByteSize ≤ dir.utf8ByteSize + 1 + name.utf8ByteSize := by
  have hslash : "/".utf8ByteSize = 1 := rfl
  unfold join
  split
  · omega
  split
  · omega
  split
  · rw [String.utf8ByteSize_append]
    omega
  · rw [String.utf8ByteSize_append,String.utf8ByteSize_append]
    omega

theorem Open.pieces_foldl (h : Open path) (hns : ∀ n ∈ ns, Proper n) :
    pieces (ns.foldl Path.join path) = pieces path ++ ns := by
  induction ns generalizing path with
  | nil => rw [List.foldl_nil,List.append_nil]
  | cons n ns ih =>
    have hn := hns n List.mem_cons_self
    rw [List.foldl_cons,ih (open_join path hn) fun n hn => hns n (List.mem_cons_of_mem _ hn),
      h.pieces_join hn.slashless,List.append_assoc,List.singleton_append]

theorem foldl_join_extends (hp : path ≠ "")
    (hns : ∀ n ∈ ns, Proper n) : ∃ rest, ns.foldl join path = path ++ rest := by
  induction ns generalizing path with
  | nil => exact ⟨"",String.append_empty.symm⟩
  | cons n ns ih =>
    obtain ⟨rest,hr⟩ := join_extends hp (hns n List.mem_cons_self).2
    have hne : join path n ≠ "" := by
      rw [hr]
      simp [hp]
    obtain ⟨rest',hr'⟩ := ih hne fun m hm => hns m (List.mem_cons_of_mem _ hm)
    exact ⟨rest ++ rest',by rw [List.foldl_cons,hr',hr,String.append_assoc]⟩

/-- The first piece of a path that is put together: nothing before a slash, or a dot. -/
def firstPiece (absolute : Bool) : String :=
  if absolute then "" else "."

theorem pieces_spell (absolute : Bool) (hne : ns ≠ []) (hns : ∀ n ∈ ns, Proper n) :
    pieces (spell absolute ns) = firstPiece absolute :: ns := by
  cases absolute with
  | true =>
    cases ns with
    | nil => exact absurd rfl hne
    | cons n ns =>
      obtain ⟨hn,hs⟩ := hns n List.mem_cons_self
      have hroot : pieces (join "/" n) = ["",n] := by
        have hjoin : join "/" n = "" ++ "/" ++ n := by
          rw [join,if_neg (by simp [relative_of_slashless hs])]
          rfl
        rw [hjoin,pieces_append,pieces_of_slashless hs]
        rfl
      have hopen : Open (join "/" n) := ⟨[""],n,hroot,hn⟩
      have hfold := hopen.pieces_foldl fun m hm => hns m (List.mem_cons_of_mem _ hm)
      rw [hroot] at hfold
      exact hfold
  | false =>
    have hopen : Open "." := ⟨[],".",rfl,by decide⟩
    exact hopen.pieces_foldl hns

theorem isAbsolute_foldl (path : String) (hns : ∀ n ∈ ns, Proper n) :
    isAbsolute (ns.foldl join path) = isAbsolute path := by
  induction ns generalizing path with
  | nil => rfl
  | cons n ns ih =>
    rw [List.foldl_cons,ih _ fun m hm => hns m (List.mem_cons_of_mem _ hm),
      isAbsolute_join path (hns n List.mem_cons_self).2]

theorem isAbsolute_spell (absolute : Bool) (hns : ∀ n ∈ ns, Proper n) :
    isAbsolute (spell absolute ns) = absolute := by
  rw [spell,isAbsolute_foldl _ hns]
  cases absolute <;> rfl

theorem open_spell (absolute : Bool) (hne : ns ≠ []) (hns : ∀ n ∈ ns, Proper n) :
    Open (spell absolute ns) := by
  refine ⟨firstPiece absolute :: ns.dropLast,ns.getLast hne,?_,(hns _ (List.getLast_mem hne)).1⟩
  rw [pieces_spell absolute hne hns,List.cons_append,List.dropLast_concat_getLast hne]

theorem pieces_respelled (h : names path ≠ []) :
    pieces (respelled path) = firstPiece (isAbsolute path) :: names path :=
  pieces_spell _ h fun _ => proper_of_mem_names

theorem respelled_join (dir : String) (hn : Proper name) :
    respelled (join dir name) = join (respelled dir) name := by
  rw [respelled,spell,names_join dir hn,isAbsolute_join dir hn.slashless,List.foldl_append]
  rfl

/-- A path gets at most a dot and a slash longer. -/
theorem size_respelled (h : names path ≠ []) :
    (respelled path).utf8ByteSize ≤ path.utf8ByteSize + 2 := by
  have hr := weight_pieces (respelled path)
  have hf : (firstPiece (isAbsolute path)).utf8ByteSize ≤ 1 := by
    cases isAbsolute path <;> decide
  have hw : weight (names path) ≤ weight (pieces path) := weight_filter _ _
  rw [pieces_respelled h,weight] at hr
  rw [weight_pieces] at hw
  omega

theorem mem_respelled_iff (h : names path ≠ []) {c : Char} (hc : c ≠ '/' ∧ c ≠ '.') :
    c ∈ (respelled path).toList ↔ c ∈ path.toList := by
  have hf : c ∉ (firstPiece (isAbsolute path)).toList := by
    cases isAbsolute path with
    | true => simp [firstPiece]
    | false => simpa [firstPiece] using hc.2
  rw [mem_pieces_iff hc.1,pieces_respelled h,mem_names_iff hc.1]
  simp [hf]

end Path

namespace FileTree

open EndpointAudit.Path

/-- Pieces from which empty ones are left out, but none at the end. -/
inductive Thinned : List String → List String → Prop
  | nil : Thinned [] []
  | drop {ps qs : List String} (h : Thinned ps qs) (more : ps ≠ []) : Thinned ("" :: ps) qs
  | keep (p : String) {ps qs : List String} (h : Thinned ps qs) : Thinned (p :: ps) (p :: qs)

theorem Thinned.prepend {ps qs : List String} (h : Thinned ps qs) (before : List String) :
    Thinned (before ++ ps) (before ++ qs) := by
  induction before with
  | nil => exact h
  | cons p before ih => exact ih.keep p

theorem thinned_refl (ps : List String) : Thinned ps ps := by
  have hsame := Thinned.nil.prepend ps
  rwa [List.append_nil] at hsame

theorem Thinned.append {ps qs : List String} (h : Thinned ps qs) (after : List String) :
    Thinned (ps ++ after) (qs ++ after) := by
  induction h with
  | nil => exact thinned_refl after
  | drop _ more ih => exact ih.drop (List.append_ne_nil_of_left_ne_nil more after)
  | keep p _ ih => exact ih.keep p

theorem Thinned.isEmpty_eq {ps qs : List String} (h : Thinned ps qs) : ps.isEmpty = qs.isEmpty := by
  induction h with
  | nil => rfl
  | drop _ more ih =>
    rw [← ih]
    exact (List.isEmpty_eq_false_iff.mpr more).symm
  | keep => rfl

theorem Thinned.all_eq {ps qs : List String} (h : Thinned ps qs) :
    ps.all String.isEmpty = qs.all String.isEmpty := by
  induction h with
  | nil => rfl
  | drop _ _ ih => rw [List.all_cons,ih]; rfl
  | keep p _ ih => rw [List.all_cons,List.all_cons,ih]

theorem thinned_filter {ps : List String} {q : String} (hq : q ≠ "") :
    Thinned (ps ++ [q]) ((ps ++ [q]).filter (· != "")) := by
  induction ps with
  | nil =>
    have hone : [q].filter (· != "") = [q] := by simpa using hq
    rw [List.nil_append,hone]
    exact .keep q .nil
  | cons p ps ih =>
    rw [List.cons_append,List.filter_cons]
    split
    · exact ih.keep p
    · rename_i hp
      have hempty : p = "" := by simpa using hp
      rw [hempty]
      exact ih.drop (by simp)

/-- A relative path is walked behind the path that it is joined to. -/
theorem thinned_join (dir : String) {path : String} (hp : isAbsolute path = false) :
    Thinned (pieces dir ++ pieces path) (pieces (join dir path)) := by
  have hdrop : Thinned ("" :: pieces path) (pieces path) :=
    (thinned_refl _).drop (by simp [pieces])
  unfold join
  simp only [hp,Bool.false_eq_true,↓reduceIte]
  split
  · rename_i he
    rw [String.isEmpty_iff.mp he]
    exact hdrop
  split
  · rename_i hs
    obtain ⟨start,hstart⟩ : ∃ start, dir.toList = start ++ ['/'] :=
      List.getLast?_eq_some_iff.mp (beq_iff_eq.mp hs)
    have hdir : dir = String.ofList start ++ "/" ++ "" := by
      apply String.toList_injective
      simpa using hstart
    rw [hdir,pieces_append,String.append_empty,pieces_append,List.append_assoc]
    exact hdrop.prepend _
  · rw [pieces_append]
    exact thinned_refl _

variable {t : FileTree} {path : String} {followLast : Bool}

theorem walkTo_thinned {jump jump' : Location → List String → Except IoFault (Location × Option Node)}
    (hj : ∀ here ps qs, Thinned ps qs → jump here ps = jump' here qs) {ps qs : List String}
    (h : Thinned ps qs) (here : Location) :
    t.walkTo followLast jump here ps = t.walkTo followLast jump' here qs := by
  induction h generalizing here with
  | nil => rfl
  | drop h more ih =>
    rw [walkTo,if_pos (.inl rfl)]
    exact ih here
  | keep p h ih =>
    simp only [walkTo,ih,h.isEmpty_eq,h.all_eq]
    split
    · rfl
    split
    · rfl
    split
    · rfl
    split
    · rfl
    · rfl
    · rfl
    · split
      · rfl
      · exact hj _ _ _ (h.prepend _)

theorem walk_thinned {ps qs : List String} (h : Thinned ps qs) (links : Nat) (here : Location) :
    t.walk followLast links here ps = t.walk followLast links here qs := by
  induction links generalizing here ps qs with
  | zero => exact walkTo_thinned (fun _ _ _ _ => rfl) h here
  | succ links ih => exact walkTo_thinned (fun here _ _ h => ih h here) h here

theorem walk_firstPiece (absolute : Bool) (links : Nat) (here : Location) (ps : List String) :
    t.walk followLast links here (firstPiece absolute :: ps) = t.walk followLast links here ps := by
  have hf : firstPiece absolute = "" ∨ firstPiece absolute = "." := by
    cases absolute with
    | true => exact .inl rfl
    | false => exact .inr rfl
  cases links <;> rw [walk,walkTo,if_pos hf]

/-- A path and its other spelling lead to the same place. -/
theorem locate_respelled (h : Open path) (hs : path.utf8ByteSize + 2 ≤ maxPathBytes) :
    t.locate (respelled path) followLast = t.locate path followLast := by
  have hpath := h.ne_empty
  obtain ⟨ps,q,hp,hq⟩ := h
  have hthin : Thinned (pieces path) (names path) := by
    unfold names
    rw [hp]
    exact thinned_filter hq
  have hn : names path ≠ [] := by
    intro he
    have := hthin.isEmpty_eq
    rw [he,hp] at this
    simp at this
  have hnul : (respelled path).toList.contains '\x00' = path.toList.contains '\x00' := by
    rw [Bool.eq_iff_iff,List.contains_iff_mem,List.contains_iff_mem,
      mem_respelled_iff hn (by decide)]
  have hempty : (respelled path).isEmpty = path.isEmpty := by
    have hrespelled := (open_spell (isAbsolute path) hn fun _ => proper_of_mem_names).ne_empty
    rw [Bool.eq_iff_iff,String.isEmpty_iff,String.isEmpty_iff]
    exact iff_of_false hrespelled hpath
  have hsize := size_respelled hn
  unfold locate
  rw [hnul,hempty,respelled,isAbsolute_spell _ fun _ => proper_of_mem_names,← respelled,pieces_respelled hn,
    walk_firstPiece,walk_thinned hthin,
    if_neg (show ¬ maxPathBytes < (respelled path).utf8ByteSize by omega),
    if_neg (show ¬ maxPathBytes < path.utf8ByteSize by omega)]

end FileTree

end EndpointAudit
