import EndpointAudit.Proofs.Writes
import EndpointAudit.Session

namespace EndpointAudit

namespace FileTree

/-- Some tree with more in it: whatever stood somewhere still does. -/
structure Grows (t t' : FileTree) : Prop where
  cwd_eq : t'.cwd = t.cwd
  node : ∀ {loc n}, t.node? loc = some n → t'.node? loc = some n

variable {t t' t'' : FileTree} {path : String} {bytes : ByteArray} {loc : Location} {n : Node}

theorem Grows.refl (t : FileTree) : t.Grows t :=
  ⟨rfl,id⟩

theorem Grows.trans (h : t.Grows t') (h' : t'.Grows t'') : t.Grows t'' :=
  ⟨h'.cwd_eq.trans h.cwd_eq,fun hn => h'.node (h.node hn)⟩

theorem grows_put (h : t.node? loc = none) (n : Node) : t.Grows (t.put loc n) := by
  refine ⟨t.put_cwd loc n,?_⟩
  intro l m hm
  have hloc : loc ≠ [] := by
    intro hx
    simp [hx,node?] at h
  rw [node?_put t hloc,if_neg]
  · exact hm
  · intro hl
    rw [hl,h] at hm
    cases hm

theorem Grows.walkTo (h : t.Grows t') {followLast : Bool}
    {jump jump' : Location → List String → Except IoFault (Location × Option Node)}
    (hj : ∀ {here pieces loc n}, jump here pieces = .ok (loc,some n) →
      jump' here pieces = .ok (loc,some n)) {here : Location} {pieces : List String}
    (hw : t.walkTo followLast jump here pieces = .ok (loc,some n)) :
    t'.walkTo followLast jump' here pieces = .ok (loc,some n) := by
  induction pieces generalizing here with
  | nil =>
    simp only [FileTree.walkTo,Except.ok.injEq,Prod.mk.injEq] at hw ⊢
    exact ⟨hw.1,h.node hw.2⟩
  | cons piece rest ih =>
    simp only [FileTree.walkTo] at hw ⊢
    split at hw
    · rename_i hhere
      rw [if_pos hhere]
      exact ih hw
    rename_i hhere
    split at hw
    · rename_i hup
      rw [if_neg hhere,if_pos hup]
      exact ih hw
    rename_i hup
    split at hw
    · cases hw
    rename_i hshort
    rw [if_neg hhere,if_neg hup,if_neg hshort]
    cases hn : t.node? (here ++ [piece]) with
    | none =>
      simp only [hn] at hw
      split at hw <;> cases hw
    | some node =>
      rw [hn] at hw
      rw [h.node hn]
      cases node with
      | dir => exact ih hw
      | file bytes x => exact hw
      | link target =>
        simp only at hw ⊢
        split at hw
        · rename_i hlast
          rw [if_pos hlast]
          exact hw
        · rename_i hlast
          rw [if_neg hlast]
          exact hj hw

theorem Grows.walk (h : t.Grows t') {followLast : Bool} {links : Nat} {here : Location}
    {pieces : List String} (hw : t.walk followLast links here pieces = .ok (loc,some n)) :
    t'.walk followLast links here pieces = .ok (loc,some n) := by
  induction links generalizing here pieces loc n with
  | zero => exact h.walkTo (fun hx => by cases hx) hw
  | succ links ih => exact h.walkTo ih hw

theorem Grows.locate (h : t.Grows t') {followLast : Bool}
    (hl : t.locate path followLast = .ok (loc,some n)) :
    t'.locate path followLast = .ok (loc,some n) := by
  unfold FileTree.locate at hl ⊢
  split at hl
  · cases hl
  rename_i hnul
  split at hl
  · cases hl
  rename_i hempty
  split at hl
  · cases hl
  rename_i hshort
  rw [h.cwd_eq,if_neg hnul,if_neg hempty,if_neg hshort]
  exact h.walk hl

theorem read_ok_iff : t.read path = .ok bytes ↔
    ∃ loc x, t.locate path = .ok (loc,some (.file bytes x)) := by
  unfold read find
  rcases t.locate path with f | ⟨loc,_ | (⟨b,x⟩ | _ | _)⟩ <;> simp

theorem Grows.read (h : t.Grows t') (hr : t.read path = .ok bytes) : t'.read path = .ok bytes := by
  obtain ⟨loc,x,hl⟩ := read_ok_iff.mp hr
  exact read_ok_iff.mpr ⟨loc,x,h.locate hl⟩

end FileTree

end EndpointAudit
