import EndpointAudit.FileTree

namespace EndpointAudit

namespace Path

/-- A name that stands for itself in a path. -/
structure Plain (name : String) : Prop where
  named : name ≠ ""
  not_here : name ≠ "."
  not_up : name ≠ ".."
  slashless : '/' ∉ name.toList

instance : DecidablePred Plain := fun name =>
  decidable_of_iff (name ≠ "" ∧ name ≠ "." ∧ name ≠ ".." ∧ '/' ∉ name.toList)
    ⟨fun ⟨h₁,h₂,h₃,h₄⟩ => ⟨h₁,h₂,h₃,h₄⟩,fun h => ⟨h.named,h.not_here,h.not_up,h.slashless⟩⟩

variable {dir name : String}

theorem relative_of_slashless (h : '/' ∉ name.toList) : isAbsolute name = false := by
  unfold isAbsolute
  cases hl : name.toList with
  | nil => rfl
  | cons c cs =>
    have hc : c ≠ '/' := by
      intro hx
      subst hx
      exact h (hl ▸ List.mem_cons_self)
    simpa using hc

theorem pieces_of_slashless (h : '/' ∉ name.toList) : pieces name = [name] := by
  unfold pieces
  rw [List.splitOn_eq_singleton h]
  simp

theorem pieces_append (before after : String) :
    pieces (before ++ "/" ++ after) = pieces before ++ pieces after := by
  simp [pieces,List.splitOn_append_cons_self]

/-- What a path and the path of a child below it have in common. -/
theorem join_slashless (hd : dir ≠ "") (hn : '/' ∉ name.toList) :
    ∃ ps tail, pieces dir = ps ++ tail ∧ (tail = [] ∨ tail = [""]) ∧
      pieces (join dir name) = ps ++ [name] := by
  have he : dir.isEmpty = false := by simpa using hd
  unfold join
  simp only [relative_of_slashless hn,he,Bool.false_eq_true,↓reduceIte]
  split
  · rename_i hs
    obtain ⟨base,hb⟩ : ∃ base, dir.toList = base ++ ['/'] :=
      List.getLast?_eq_some_iff.mp (beq_iff_eq.mp hs)
    have hdir : dir = String.ofList base ++ "/" ++ "" := by
      apply String.toList_injective
      simpa using hb
    refine ⟨pieces (String.ofList base),[""],?_,.inr rfl,?_⟩
    · rw [hdir,pieces_append]
      rfl
    · rw [hdir,String.append_empty,pieces_append,pieces_of_slashless hn]
  · exact ⟨pieces dir,[],(List.append_nil _).symm,.inl rfl,by
      rw [pieces_append,pieces_of_slashless hn]⟩

theorem join_extends (hd : dir ≠ "") (hn : '/' ∉ name.toList) :
    ∃ rest, join dir name = dir ++ rest := by
  have he : dir.isEmpty = false := by simpa using hd
  unfold join
  simp only [relative_of_slashless hn,he,Bool.false_eq_true,↓reduceIte]
  split
  · exact ⟨name,rfl⟩
  · exact ⟨"/" ++ name,String.append_assoc⟩

end Path

namespace FileTree

open EndpointAudit.Path

variable {t : FileTree}

/-- A kind of location from which a walk does not stray. -/
structure Closed (t : FileTree) (P : Location → Prop) : Prop where
  root : P []
  up : ∀ {loc}, P loc → P loc.dropLast
  down : ∀ {loc name}, t.node? (loc ++ [name]) = some .dir → P (loc ++ [name])

/-- Pieces that follow others are walked from where those lead, or behind a link on the way, unless the
others end at a file, at nothing or with a fault. -/
theorem walkTo_append {P : Location → Prop} (hP : t.Closed P)
    (jump : Location → List String → Except IoFault (Location × Option Node)) {here : Location}
    (hh : P here) (ps : List String) :
    (∃ d, P d ∧ ∀ qs, t.walkTo true jump here (ps ++ qs) = t.walkTo true jump d qs) ∨
    (∃ here' ps', P here' ∧
      ∀ qs, t.walkTo true jump here (ps ++ qs) = jump here' (ps' ++ qs)) ∨
    (∀ d, t.walkTo true jump here ps ≠ .ok (d,some .dir)) ∧
      ∀ qs, (∃ q ∈ qs, q ≠ "") → ∃ f, t.walkTo true jump here (ps ++ qs) = .error f := by
  induction ps generalizing here with
  | nil => exact .inl ⟨here,hh,fun _ => rfl⟩
  | cons piece rest ih =>
    simp only [List.cons_append,walkTo]
    split
    · exact ih hh
    split
    · exact ih (hP.up hh)
    split
    · exact .inr (.inr ⟨(fun _ h => by cases h),fun _ _ => ⟨_,rfl⟩⟩)
    cases hn : t.node? (here ++ [piece]) with
    | none =>
      refine .inr (.inr ⟨?_,?_⟩)
      · intro d h
        simp only at h
        split at h <;> cases h
      · intro qs ⟨q,hq,hn⟩
        have hall : (rest ++ qs).all String.isEmpty = false := by
          rw [List.all_eq_false]
          exact ⟨q,List.mem_append_right rest hq,by simpa using hn⟩
        simp [hall]
    | some node =>
      cases node with
      | dir => exact ih (hP.down hn)
      | file bytes x =>
        refine .inr (.inr ⟨?_,?_⟩)
        · intro d h
          simp only at h
          split at h <;> cases h
        · intro qs ⟨q,hq,_⟩
          have hne : (rest ++ qs).isEmpty = false := by
            rw [List.isEmpty_eq_false_iff]
            exact List.ne_nil_of_mem (List.mem_append_right rest hq)
          simp [hne]
      | link target =>
        refine .inr (.inl ⟨if isAbsolute target then [] else here,Path.pieces target ++ rest,?_,?_⟩)
        · split
          · exact hP.root
          · exact hh
        · intro qs
          simp only [Bool.not_true,Bool.and_false,Bool.false_eq_true,↓reduceIte,List.append_assoc]

theorem walk_append {P : Location → Prop} (hP : t.Closed P) (links : Nat) {here : Location}
    (hh : P here) (ps : List String) :
    (∃ d k, P d ∧ ∀ qs, t.walk true links here (ps ++ qs) = t.walk true k d qs) ∨
    (∀ d, t.walk true links here ps ≠ .ok (d,some .dir)) ∧
      ∀ qs, (∃ q ∈ qs, q ≠ "") → ∃ f, t.walk true links here (ps ++ qs) = .error f := by
  induction links generalizing here ps with
  | zero =>
    rcases walkTo_append hP (fun _ _ => .error .tooManyLinks) hh ps with
      ⟨d,hd,h⟩ | ⟨_,_,_,h⟩ | h
    · exact .inl ⟨d,0,hd,h⟩
    · refine .inr ⟨?_,fun qs _ => ⟨_,h qs⟩⟩
      intro d hd
      have hnone := h []
      rw [List.append_nil] at hnone
      cases hnone.symm.trans hd
    · exact .inr h
  | succ links ih =>
    rcases walkTo_append hP (t.walk true links) hh ps with ⟨d,hd,h⟩ | ⟨here',ps',hh',h⟩ | h
    · exact .inl ⟨d,links + 1,hd,h⟩
    · rcases ih hh' ps' with ⟨d,k,hd,hk⟩ | ⟨hdir,he⟩
      · exact .inl ⟨d,k,hd,fun qs => (h qs).trans (hk qs)⟩
      · refine .inr ⟨?_,?_⟩
        · intro d hd
          have hjump := h []
          rw [List.append_nil,List.append_nil] at hjump
          exact hdir d (hjump.symm.trans hd)
        · intro qs hq
          obtain ⟨f,hf⟩ := he qs hq
          exact ⟨f,(h qs).trans hf⟩
    · exact .inr h

variable {dir name : String} {loc : Location} {n : Option Node}

theorem walk_nothing {tail : List String} (ht : tail = [] ∨ tail = [""]) (links : Nat)
    (here : Location) : t.walk true links here tail = .ok (here,t.node? here) := by
  rcases ht with rfl | rfl <;> cases links <;> simp [walk,walkTo]

/-- Pieces that follow others are walked from the directory that those lead to. -/
theorem walk_onward {links : Nat} {here : Location} {ps : List String}
    (h : t.walk true links here ps = .ok (loc,some .dir)) :
    ∃ k, ∀ qs, t.walk true links here (ps ++ qs) = t.walk true k loc qs := by
  have hanywhere : t.Closed fun _ => True := ⟨trivial,fun _ => trivial,fun _ => trivial⟩
  rcases @walk_append t _ hanywhere links here trivial ps with ⟨d,k,_,hgo⟩ | ⟨hdir,_⟩
  · have hend := hgo []
    rw [List.append_nil,h,walk_nothing (.inl rfl)] at hend
    obtain ⟨rfl,_⟩ := Prod.mk.inj (Except.ok.inj hend)
    exact ⟨k,hgo⟩
  · exact absurd h (hdir loc)

theorem walk_plain (hn : Plain name) {links : Nat} {here : Location}
    (h : t.walk true links here [name] = .ok (loc,n)) :
    loc = here ++ [name] ∨ ∃ target, t.node? (here ++ [name]) = some (.link target) := by
  have step {jump : Location → List String → Except IoFault (Location × Option Node)}
      (h : t.walkTo true jump here [name] = .ok (loc,n)) :
      loc = here ++ [name] ∨ ∃ target, t.node? (here ++ [name]) = some (.link target) := by
    simp only [walkTo,hn.named,hn.not_here,or_self,hn.not_up,↓reduceIte] at h
    split at h
    · cases h
    cases hx : t.node? (here ++ [name]) with
    | none =>
      simp only [hx,List.all_nil,↓reduceIte] at h
      cases h
      exact .inl rfl
    | some node =>
      cases node with
      | dir | file bytes x =>
        simp only [hx,List.isEmpty_nil,↓reduceIte] at h
        cases h
        exact .inl rfl
      | link target => exact .inr ⟨target,rfl⟩
  cases links with
  | zero => exact step h
  | succ links => exact step h

/-- The path of a child leads to the child, unless that is a link. -/
theorem locate_child (hd : dir ≠ "") (hn : Plain name)
    (h : t.locate (join dir name) = .ok (loc,n)) :
    ∃ d, t.locate dir = .ok (d,t.node? d) ∧
      (loc = d ++ [name] ∨ ∃ target, t.node? (d ++ [name]) = some (.link target)) := by
  obtain ⟨rest,hr⟩ := join_extends hd hn.slashless
  obtain ⟨ps,tail,hp,ht,hj⟩ := join_slashless hd hn.slashless
  have hl : dir.toList ≠ [] := by simpa using hd
  have ha : isAbsolute (join dir name) = isAbsolute dir := by
    simp [hr,isAbsolute,List.head?_append,List.head?_eq_some_head hl]
  have hsize : dir.utf8ByteSize ≤ (join dir name).utf8ByteSize := by
    rw [hr,String.utf8ByteSize_append]
    exact Nat.le_add_right _ _
  have hnul : dir.toList.contains '\x00' = true → (join dir name).toList.contains '\x00' = true := by
    intro h
    rw [hr,String.toList_append,List.contains_append,h,Bool.true_or]
  have hdir : dir.isEmpty = false := by simpa using hd
  unfold locate at h ⊢
  split at h
  · cases h
  rename_i hc
  split at h
  · cases h
  split at h
  · cases h
  rename_i hs
  rw [ha,hj] at h
  rw [if_neg (fun h => hc (hnul h)),hdir,if_neg (by decide),if_neg (by omega),hp]
  have hanywhere : t.Closed fun _ => True := ⟨trivial,fun _ => trivial,fun _ => trivial⟩
  rcases @walk_append t _ hanywhere maxLinks (if isAbsolute dir then [] else t.cwd) trivial ps
    with ⟨d,k,_,hw⟩ | ⟨_,he⟩
  · rw [hw] at h
    refine ⟨d,?_,walk_plain hn h⟩
    rw [hw]
    exact walk_nothing ht k d
  · obtain ⟨f,hf⟩ := he [name] ⟨name,List.mem_singleton_self name,hn.named⟩
    rw [hf] at h
    cases h

end FileTree

end EndpointAudit
