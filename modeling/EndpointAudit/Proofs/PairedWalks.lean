import EndpointAudit.Proofs.Writes

namespace EndpointAudit.FileTree

variable {t t' : FileTree} {f f' : Bool}
  {jump jump' : Location → List String → Except IoFault (Location × Option Node)}

/-- The walk from a directory at a piece that is the name of something in it. -/
def enter (t : FileTree) (followLast : Bool)
    (jump : Location → List String → Except IoFault (Location × Option Node)) (here : Location)
    (piece : String) (rest : List String) : Except IoFault (Location × Option Node) :=
  match t.node? (here ++ [piece]) with
  | none => if rest.all String.isEmpty then .ok (here ++ [piece],none) else .error .notFound
  | some .dir => t.walkTo followLast jump (here ++ [piece]) rest
  | some (.file bytes x) =>
    if rest.isEmpty then .ok (here ++ [piece],some (.file bytes x)) else .error .notADirectory
  | some (.link target) =>
    if rest.isEmpty && !followLast then .ok (here ++ [piece],some (.link target))
    else jump (if Path.isAbsolute target then [] else here) (Path.pieces target ++ rest)

theorem walkTo_cons (here : Location) (piece : String) (rest : List String) :
    t.walkTo f jump here (piece :: rest) =
      if piece = "" ∨ piece = "." then t.walkTo f jump here rest
      else if piece = ".." then t.walkTo f jump here.dropLast rest
      else if maxNameBytes < piece.utf8ByteSize then .error .invalidFilename
      else t.enter f jump here piece rest :=
  rfl

/-- Walks are related if their ends are, and if what they do at a name is once the walks behind it are. -/
theorem walkTo_paired
    {R : Except IoFault (Location × Option Node) → Except IoFault (Location × Option Node) → Prop}
    (hend : ∀ here, R (.ok (here,t.node? here)) (.ok (here,t'.node? here)))
    (hfault : ∀ e, R (.error e) (.error e))
    (hname : ∀ here piece rest,
      (∀ here, R (t.walkTo f jump here rest) (t'.walkTo f' jump' here rest)) →
      R (t.enter f jump here piece rest) (t'.enter f' jump' here piece rest))
    (here : Location) (ps : List String) :
    R (t.walkTo f jump here ps) (t'.walkTo f' jump' here ps) := by
  induction ps generalizing here with
  | nil => exact hend here
  | cons piece rest ih =>
    rw [walkTo_cons,walkTo_cons]
    split
    · exact ih here
    split
    · exact ih here.dropLast
    split
    · exact hfault _
    · exact hname here piece rest ih

section shape

/-- Nodes of one kind: two files may hold different things, all else is the same. -/
inductive Likewise : Option Node → Option Node → Prop
  | nothing : Likewise none none
  | file {bytes x bytes' x'} : Likewise (some (.file bytes x)) (some (.file bytes' x'))
  | dir : Likewise (some .dir) (some .dir)
  | link {target} : Likewise (some (.link target)) (some (.link target))

/-- Two trees that differ at most in what their files hold. -/
structure SameShape (t t' : FileTree) : Prop where
  cwd_eq : t'.cwd = t.cwd
  node : ∀ loc, Likewise (t.node? loc) (t'.node? loc)

/-- Two walks with one end, or with one fault. -/
inductive SameEnd : Except IoFault (Location × Option Node) → Except IoFault (Location × Option Node) →
    Prop
  | there {loc n n'} (h : Likewise n n') : SameEnd (.ok (loc,n)) (.ok (loc,n'))
  | fault {e} : SameEnd (.error e) (.error e)

theorem SameShape.walkTo (h : t.SameShape t')
    (hj : ∀ here ps, SameEnd (jump here ps) (jump' here ps)) (here : Location) (ps : List String) :
    SameEnd (t.walkTo f jump here ps) (t'.walkTo f jump' here ps) := by
  refine walkTo_paired (fun here => .there (h.node here)) (fun _ => .fault) ?_ here ps
  intro here piece rest ih
  unfold enter
  have hnode := h.node (here ++ [piece])
  generalize t.node? (here ++ [piece]) = n at hnode ⊢
  generalize t'.node? (here ++ [piece]) = n' at hnode ⊢
  cases hnode with
  | nothing =>
    simp only
    split
    · exact .there .nothing
    · exact .fault
  | file =>
    simp only
    split
    · exact .there .file
    · exact .fault
  | dir => exact ih (here ++ [piece])
  | link =>
    simp only
    split
    · exact .there .link
    · exact hj _ _

theorem SameShape.walk (h : t.SameShape t') (links : Nat) (here : Location) (ps : List String) :
    SameEnd (t.walk f links here ps) (t'.walk f links here ps) := by
  induction links generalizing here ps with
  | zero => exact h.walkTo (fun _ _ => .fault) here ps
  | succ links ih => exact h.walkTo ih here ps

theorem SameShape.locate (h : t.SameShape t') (path : String) (followLast : Bool) :
    SameEnd (t.locate path followLast) (t'.locate path followLast) := by
  unfold FileTree.locate
  rw [h.cwd_eq]
  split
  · exact .fault
  split
  · exact .fault
  split
  · exact .fault
  · exact h.walk _ _ _

theorem SameShape.canonical (h : t.SameShape t') (path : String) :
    t'.canonical path = t.canonical path := by
  have hl := h.locate path true
  unfold FileTree.canonical FileTree.find
  generalize t.locate path = r at hl ⊢
  generalize t'.locate path = r' at hl ⊢
  cases hl with
  | there hn => cases hn <;> rfl
  | fault => rfl

theorem SameShape.isDir (h : t.SameShape t') (path : String) : t'.isDir path = t.isDir path := by
  have hl := h.locate path true
  unfold FileTree.isDir FileTree.find
  generalize t.locate path = r at hl ⊢
  generalize t'.locate path = r' at hl ⊢
  cases hl with
  | there hn => cases hn <;> rfl
  | fault => rfl

/-- A file that is overwritten changes no more than what it holds. -/
theorem sameShape_put (loc : Location) {bytes bytes' : ByteArray} {x x' : Bool}
    (h : t.node? loc = some (.file bytes x)) : t.SameShape (t.put loc (.file bytes' x')) := by
  have hne : loc ≠ [] := by
    rintro rfl
    cases h
  refine ⟨t.put_cwd loc _,?_⟩
  intro l
  rw [node?_put t hne]
  split
  · rename_i hl
    rw [hl,h]
    exact .file
  · rcases t.node? l with _ | (⟨bytes,x⟩ | _ | target)
    · exact .nothing
    · exact .file
    · exact .dir
    · exact .link

end shape

section followed

variable {loc : Location} {bytes : ByteArray} {x : Bool}

/-- A path that leads to a file without a last link to follow leads there in any case. -/
theorem walkTo_followed
    (hj : ∀ {here ps}, jump here ps = .ok (loc,some (.file bytes x)) →
      jump' here ps = .ok (loc,some (.file bytes x))) {here : Location} {ps : List String}
    (h : t.walkTo false jump here ps = .ok (loc,some (.file bytes x))) :
    t.walkTo true jump' here ps = .ok (loc,some (.file bytes x)) := by
  refine walkTo_paired (R := fun r r' => r = .ok (loc,some (.file bytes x)) →
    r' = .ok (loc,some (.file bytes x))) (fun _ => id) (fun _ => nofun) ?_ here ps h
  intro here piece rest ih h
  unfold enter at h ⊢
  cases hn : t.node? (here ++ [piece]) with
  | none =>
    simp only [hn] at h
    split at h <;> cases h
  | some node =>
    rw [hn] at h
    cases node with
    | dir => exact ih _ h
    | file bytes' x' => exact h
    | link target =>
      simp only [Bool.not_false,Bool.and_true,Bool.not_true,Bool.and_false,Bool.false_eq_true,
        ↓reduceIte] at h ⊢
      split at h
      · cases h
      · exact hj h

theorem walk_followed {links : Nat} {here : Location} {ps : List String}
    (h : t.walk false links here ps = .ok (loc,some (.file bytes x))) :
    t.walk true links here ps = .ok (loc,some (.file bytes x)) := by
  induction links generalizing here ps with
  | zero => exact walkTo_followed (fun hx => by cases hx) h
  | succ links ih => exact walkTo_followed ih h

end followed

end EndpointAudit.FileTree
