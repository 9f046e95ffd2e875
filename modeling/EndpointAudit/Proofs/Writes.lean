import EndpointAudit.FileTree

namespace EndpointAudit.FileTree

/-- A file can be written at a location where nothing or a file stands. -/
def Writable (t : FileTree) (loc : Location) : Prop :=
  t.node? loc = none ∨ ∃ bytes x, t.node? loc = some (.file bytes x)

theorem Writable.ne_nil {t : FileTree} {loc : Location} (h : t.Writable loc) : loc ≠ [] := by
  intro hx
  subst hx
  rcases h with h | ⟨bytes,x,h⟩ <;> simp [node?] at h

theorem put_cwd (t : FileTree) (loc : Location) (n : Node) : (t.put loc n).cwd = t.cwd := by
  unfold put
  split <;> rfl

theorem lookup_replace (entries : List (Location × Node)) (loc l : Location) (n : Node) :
    (entries.map fun (l',m) => if l' == loc then (l',n) else (l',m)).lookup l =
      if l = loc then (entries.lookup loc).map fun _ => n else entries.lookup l := by
  induction entries with
  | nil => simp
  | cons entry entries ih =>
    obtain ⟨l',m⟩ := entry
    rw [List.map_cons]
    by_cases he : l' = loc
    · subst he
      simp only [beq_self_eq_true,↓reduceIte,List.lookup_cons,Option.map_some,ih]
      by_cases hl : l = l'
      · simp [hl]
      · have hb : (l == l') = false := by simpa using hl
        simp [hl,hb]
    · have hb : (loc == l') = false := by simpa using Ne.symm he
      simp only [beq_iff_eq,he,↓reduceIte,List.lookup_cons,hb]
      by_cases hl : l = l'
      · subst hl
        simp [he]
      · have hb' : (l == l') = false := by simpa using hl
        simpa only [hb',beq_iff_eq] using ih

theorem node?_put (t : FileTree) {loc : Location} (hl : loc ≠ []) (n : Node) (l : Location) :
    (t.put loc n).node? l = if l = loc then some n else t.node? l := by
  by_cases he : l = []
  · subst he
    simp [node?,hl.symm]
  · simp only [node?,List.isEmpty_iff,he,↓reduceIte,put]
    split
    · rename_i hs
      obtain ⟨m,hm⟩ := Option.isSome_iff_exists.mp hs
      rw [lookup_replace,hm]
      rfl
    · rename_i hs
      have hn : t.entries.lookup loc = none := Option.not_isSome_iff_eq_none.mp hs
      by_cases hloc : l = loc
      · subst hloc
        simp [List.lookup_append,hn]
      · have hb : (l == loc) = false := by simpa using hloc
        simp [List.lookup_append,List.lookup_cons,hb,hloc]

/-- Where a path leads before and after a write at a location. What leads elsewhere is not touched. -/
inductive Alike (loc : Location) : Except IoFault (Location × Option Node) →
    Except IoFault (Location × Option Node) → Prop
  | elsewhere {l n} (apart : l ≠ loc) : Alike loc (.ok (l,n)) (.ok (l,n))
  | there {n n'} : Alike loc (.ok (loc,n)) (.ok (loc,n'))
  /-- A slash may follow the name of what is missing, but not that of a file. -/
  | closed {f} : Alike loc (.ok (loc,none)) (.error f)
  | faults {f f'} : Alike loc (.error f) (.error f')

variable {t : FileTree} {loc : Location}

theorem walkTo_put (h : t.Writable loc) (bytes : ByteArray) (x followLast : Bool)
    {jump jump' : Location → List String → Except IoFault (Location × Option Node)}
    (hj : ∀ here pieces, Alike loc (jump here pieces) (jump' here pieces)) (here : Location)
    (pieces : List String) :
    Alike loc (t.walkTo followLast jump here pieces)
      ((t.put loc (.file bytes x)).walkTo followLast jump' here pieces) := by
  have hn := t.node?_put h.ne_nil (.file bytes x)
  induction pieces generalizing here with
  | nil =>
    simp only [walkTo,hn]
    split
    · rename_i he
      subst he
      exact .there
    · rename_i he
      exact .elsewhere he
  | cons piece rest ih =>
    simp only [walkTo]
    split
    · exact ih here
    split
    · exact ih here.dropLast
    split
    · exact .faults
    simp only [hn]
    by_cases he : here ++ [piece] = loc
    · rw [if_pos he]
      rcases h with h | ⟨old,x',h⟩
      · rw [he,h]
        cases rest with
        | nil => exact .there
        | cons piece' rest =>
          simp only [List.isEmpty_cons,Bool.false_eq_true,↓reduceIte]
          split
          · exact .closed
          · exact .faults
      · rw [he,h]
        simp only
        split
        · exact .there
        · exact .faults
    · rw [if_neg he]
      cases t.node? (here ++ [piece]) with
      | none =>
        simp only
        split
        · exact .elsewhere he
        · exact .faults
      | some node =>
        cases node with
        | dir => exact ih (here ++ [piece])
        | file bytes' x' =>
          simp only
          split
          · exact .elsewhere he
          · exact .faults
        | link target =>
          simp only
          split
          · exact .elsewhere he
          · exact hj _ _

theorem walk_put (h : t.Writable loc) (bytes : ByteArray) (x followLast : Bool) (links : Nat)
    (here : Location) (pieces : List String) :
    Alike loc (t.walk followLast links here pieces)
      ((t.put loc (.file bytes x)).walk followLast links here pieces) := by
  induction links generalizing here pieces with
  | zero => exact walkTo_put h bytes x followLast (fun _ _ => .faults) here pieces
  | succ links ih => exact walkTo_put h bytes x followLast ih here pieces

theorem locate_put (h : t.Writable loc) (bytes : ByteArray) (x : Bool) (path : String)
    (followLast : Bool) :
    Alike loc (t.locate path followLast) ((t.put loc (.file bytes x)).locate path followLast) := by
  unfold locate
  rw [put_cwd]
  split
  · exact .faults
  split
  · exact .faults
  split
  · exact .faults
  exact walk_put h bytes x followLast maxLinks _ _

/-- Whatever a path leads to is the node at its location. -/
theorem walkTo_node {followLast : Bool}
    {jump : Location → List String → Except IoFault (Location × Option Node)}
    (hj : ∀ here pieces loc n, jump here pieces = .ok (loc,n) → n = t.node? loc) {here : Location}
    {pieces : List String} {n : Option Node}
    (h : t.walkTo followLast jump here pieces = .ok (loc,n)) : n = t.node? loc := by
  induction pieces generalizing here with
  | nil =>
    cases h
    rfl
  | cons piece rest ih =>
    simp only [walkTo] at h
    split at h
    · exact ih h
    split at h
    · exact ih h
    split at h
    · cases h
    cases hn : t.node? (here ++ [piece]) with
    | none =>
      simp only [hn] at h
      split at h <;> cases h
      exact hn.symm
    | some node =>
      cases node with
      | dir =>
        simp only [hn] at h
        exact ih h
      | file bytes x =>
        simp only [hn] at h
        split at h <;> cases h
        exact hn.symm
      | link target =>
        simp only [hn] at h
        split at h
        · cases h
          exact hn.symm
        · exact hj _ _ _ _ h

theorem walk_node {followLast : Bool} {links : Nat} {here : Location} {pieces : List String}
    {n : Option Node} (h : t.walk followLast links here pieces = .ok (loc,n)) : n = t.node? loc := by
  induction links generalizing here pieces loc n with
  | zero => exact walkTo_node (fun _ _ _ _ h => by cases h) h
  | succ links ih => exact walkTo_node (fun _ _ _ _ h => ih h) h

theorem locate_node {path : String} {followLast : Bool} {n : Option Node}
    (h : t.locate path followLast = .ok (loc,n)) : n = t.node? loc := by
  unfold locate at h
  split at h
  · cases h
  split at h
  · cases h
  split at h
  · cases h
  exact walk_node h

/-- A write is a put where the path leads, and still leads afterwards. -/
theorem write_put {path : String} {bytes : ByteArray} {t' : FileTree}
    (h : t.write path bytes = .ok t') :
    ∃ loc n x, t.locate path = .ok (loc,n) ∧ t.Writable loc ∧ t' = t.put loc (.file bytes x) ∧
      t'.locate path = .ok (loc,some (.file bytes x)) := by
  unfold write at h
  rcases hl : t.locate path with f | ⟨loc,n⟩
  · rw [hl] at h
    cases h
  · rw [hl] at h
    have hn := locate_node hl
    have back {x : Bool} {l : Location} {m : Option Node} (hw : t.Writable loc)
        (hm : (t.put loc (.file bytes x)).locate path = .ok (l,m)) :
        (t.put loc (.file bytes x)).locate path = .ok (loc,some (.file bytes x)) := by
      have hp := locate_put hw bytes x path true
      rw [hl,hm] at hp
      have hloc : l = loc := by cases hp <;> rfl
      rw [hm,locate_node hm,node?_put t hw.ne_nil,if_pos hloc,hloc]
    cases n with
    | none =>
      simp only at h
      split at h
      · rename_i hok
        cases h
        rcases hm : (t.put loc (.file bytes false)).locate path with f | ⟨l,m⟩
        · rw [hm] at hok
          cases hok
        · exact ⟨loc,none,false,rfl,.inl hn.symm,rfl,hm ▸ back (.inl hn.symm) hm⟩
      · cases h
    | some node =>
      cases node with
      | file old x =>
        cases h
        have hw : t.Writable loc := .inr ⟨old,x,hn.symm⟩
        have hp := locate_put hw bytes x path true
        rw [hl] at hp
        rcases hm : (t.put loc (.file bytes x)).locate path with f | ⟨l,m⟩
        · rw [hm] at hp
          cases hp
        · exact ⟨loc,_,x,rfl,hw,rfl,hm ▸ back hw hm⟩
      | dir | link target => cases h

/-- Two paths that do not lead to the same location. -/
def Apart (t : FileTree) (path path' : String) : Prop :=
  ∀ loc n n', t.locate path = .ok (loc,n) → t.locate path' ≠ .ok (loc,n')

/-- A write moves no path to another location. -/
theorem Apart.write {path path' written : String} {bytes : ByteArray} {t' : FileTree}
    (ha : t.Apart path path') (h : t.write written bytes = .ok t') : t'.Apart path path' := by
  obtain ⟨spot,_,x,_,hw,rfl,_⟩ := write_put h
  have back {path : String} {l : Location} {n : Option Node}
      (h : (t.put spot (.file bytes x)).locate path = .ok (l,n)) :
      ∃ n', t.locate path = .ok (l,n') := by
    have hp := locate_put hw bytes x path true
    rw [h] at hp
    generalize t.locate path = before at hp ⊢
    cases hp with
    | elsewhere apart => exact ⟨_,rfl⟩
    | there => exact ⟨_,rfl⟩
  intro l n n' hl hl'
  obtain ⟨m,hm⟩ := back hl
  obtain ⟨m',hm'⟩ := back hl'
  exact ha l m m' hm hm'

/-- What is apart from a written path is found as before. -/
theorem find_write {path written : String} {bytes : ByteArray} {t' : FileTree}
    (ha : t.Apart path written) (h : t.write written bytes = .ok t') :
    t'.find path = t.find path ∨ ∃ f f', t'.find path = .error f ∧ t.find path = .error f' := by
  obtain ⟨spot,m,x,hm,hw,rfl,_⟩ := write_put h
  have hp := locate_put hw bytes x path true
  unfold find
  generalize hb : t.locate path = before at hp ⊢
  generalize (t.put spot (.file bytes x)).locate path = after at hp ⊢
  cases hp with
  | elsewhere apart => exact .inl rfl
  | there => exact absurd hm (ha _ _ _ hb)
  | closed => exact absurd hm (ha _ _ _ hb)
  | faults => exact .inr ⟨_,_,rfl,rfl⟩

end EndpointAudit.FileTree
