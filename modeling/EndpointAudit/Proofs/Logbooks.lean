import EndpointAudit.Proofs.OwnPlaces

namespace EndpointAudit

open EndpointAudit.Path

namespace FileTree

variable {t : FileTree} {dir name : String} {d : Location}

theorem size_above (hd : Named dir) (hn : Plain name) :
    dir.utf8ByteSize ≤ (join dir name).utf8ByteSize := by
  obtain ⟨rest,hr⟩ := join_extends hd.ne_empty hn.slashless
  rw [hr,String.utf8ByteSize_append]
  exact Nat.le_add_right _ _

theorem Usable.child (h : Usable dir) (hd : Named dir) (hn : Plain name) (hnul : '\x00' ∉ name.toList)
    (hs : (join dir name).utf8ByteSize ≤ maxPathBytes) : Usable (join dir name) := by
  refine ⟨(named_join dir hn).ne_empty,?_,hs⟩
  rw [join_named hd (relative_of_slashless hn.slashless)]
  simpa using ⟨h.no_nul,hnul⟩

/-- The path of a child in a directory leads to the child, unless that is a link. -/
theorem locate_into (hd : Named dir) (hn : Plain name) (hu : Usable (join dir name))
    (hs : name.utf8ByteSize ≤ maxNameBytes) (hl : t.locate dir = .ok (d,some .dir))
    (hx : ∀ target, t.node? (d ++ [name]) ≠ some (.link target)) :
    t.locate (join dir name) = .ok (d ++ [name],t.node? (d ++ [name])) := by
  have hstep {jump : Location → List String → Except IoFault (Location × Option Node)} :
      t.walkTo true jump d [name] = .ok (d ++ [name],t.node? (d ++ [name])) := by
    simp only [walkTo,hn.named,hn.not_here,or_self,hn.not_up,↓reduceIte,Nat.not_lt_of_le hs]
    cases hnode : t.node? (d ++ [name]) with
    | none => rfl
    | some node =>
      cases node with
      | dir | file bytes x => rfl
      | link target => exact absurd hnode (hx target)
  obtain ⟨k,hgo⟩ := walk_onward (locate_eq_ok_iff.mp hl).2
  refine locate_eq_ok_iff.mpr ⟨hu,?_⟩
  rw [base_child hn,pieces_child hd hn,hgo]
  cases k with
  | zero => exact hstep
  | succ k => exact hstep

/-- A path that leads anywhere ends with a short name. -/
theorem size_of_locate {loc : Location} {n : Option Node} (hd : Named dir) (hn : Plain name)
    (hl : t.locate dir = .ok (d,some .dir)) (h : t.locate (join dir name) = .ok (loc,n)) :
    name.utf8ByteSize ≤ maxNameBytes := by
  have hwalk := (locate_eq_ok_iff.mp h).2
  have hstep {jump : Location → List String → Except IoFault (Location × Option Node)}
      (h : t.walkTo true jump d [name] = .ok (loc,n)) : name.utf8ByteSize ≤ maxNameBytes := by
    by_contra hlong
    simp only [walkTo,hn.named,hn.not_here,or_self,hn.not_up,↓reduceIte,Nat.lt_of_not_le hlong] at h
    cases h
  obtain ⟨k,hgo⟩ := walk_onward (locate_eq_ok_iff.mp hl).2
  rw [base_child hn,pieces_child hd hn,hgo] at hwalk
  cases k with
  | zero => exact hstep hwalk
  | succ k => exact hstep hwalk

end FileTree

open FileTree

namespace CallLog

theorem ofDigitChars_padded (width n : Nat) :
    Nat.ofDigitChars 10 (Text.padded width n).toList 0 = n := by
  unfold Text.padded
  rw [String.toList_ofList,Nat.ofDigitChars_append,Nat.ofDigitChars_replicate_zero]
  simp

/-- The number of an entry is what its name has before the first bar. -/
theorem fileName_digits (number : Nat) (e : Endpoint) :
    (fileName number e).toList.takeWhile (· != '_') = (Text.padded 4 number).toList := by
  have hbar : ∀ c ∈ (Text.padded 4 number).toList, (c != '_') = true := by
    intro c hc
    have hs := padded_chars 4 number c hc
    rw [bne_iff_ne]
    rintro rfl
    exact absurd hs (by decide)
  simp only [fileName,String.toList_append,List.append_assoc]
  rw [List.takeWhile_append_of_pos hbar]
  simp

/-- An entry can be told by its name from those with other numbers. -/
theorem fileName_number {i j : Nat} {e e' : Endpoint} (h : fileName i e = fileName j e') : i = j := by
  have hdigits : (Text.padded 4 i).toList = (Text.padded 4 j).toList := by
    rw [← fileName_digits i e,h,fileName_digits]
  rw [← ofDigitChars_padded 4 i,hdigits,ofDigitChars_padded]

theorem fileName_no_nul (number : Nat) (e : Endpoint) : '\x00' ∉ (fileName number e).toList := by
  intro hm
  rcases fileName_chars number e _ hm with h | h | h <;> revert h <;> decide

end CallLog

namespace Session

/-- The name and the path of an entry are short enough for a file. -/
structure Fits (s : Session) (number : Nat) (e : Endpoint) : Prop where
  name : (CallLog.fileName number e).utf8ByteSize ≤ maxNameBytes
  path : (join s.callDir (CallLog.fileName number e)).utf8ByteSize ≤ maxPathBytes

/-- The places of the log of calls: its directory, all that is there, and the directory above. -/
def CallPlace (S loc : Location) : Prop :=
  loc = S ++ ["logs"] ∨ S ++ ["logs","llm"] <+: loc

/-- The log of calls holds the given ones, the first as number one: for each of them that fits a file,
and nothing else. -/
structure Logbook (s : Session) (S : Location) (time : String) (noted : List CallLog.Entry)
    (t : FileTree) : Prop where
  above : t.node? (S ++ ["logs"]) = some .dir
  dir : t.node? (S ++ ["logs","llm"]) = some .dir
  holds : ∀ {k e}, noted[k]? = some e → s.Fits (k + 1) e.endpoint →
    ∃ x, t.node? (S ++ ["logs","llm",CallLog.fileName (k + 1) e.endpoint]) =
      some (.file (CallLog.content time e).toUTF8 x)
  only : ∀ {rel n}, rel ≠ [] → t.node? (S ++ ["logs","llm"] ++ rel) = some n →
    ∃ k e, noted[k]? = some e ∧ s.Fits (k + 1) e.endpoint ∧ rel = [CallLog.fileName (k + 1) e.endpoint]

variable {s : Session} {S loc : Location} {t t' : FileTree} {rel : List String} {time : String}
  {noted : List CallLog.Entry} {number : Nat}

theorem callPlace_entry (S : Location) (name : String) : CallPlace S (S ++ ["logs","llm",name]) :=
  .inr ((List.prefix_append_right_inj S).mpr ⟨[name],rfl⟩)

/-- The path of an entry that fits leads to its place. -/
theorem InPlace.locate_entry (h : s.InPlace S t) (hd : Named s.dir)
    (habove : t.node? (S ++ ["logs"]) = some .dir) (hdir : t.node? (S ++ ["logs","llm"]) = some .dir)
    {e : Endpoint} (hf : s.Fits number e) :
    t.locate (join s.callDir (CallLog.fileName number e)) =
      .ok (S ++ ["logs","llm",CallLog.fileName number e],
        t.node? (S ++ ["logs","llm",CallLog.fileName number e])) := by
  have hlogs : Plain "logs" := by decide
  have hllm : Plain "llm" := by decide
  have hname := CallLog.fileName_plain number e
  have hd₁ : Named s.logsDir := named_join s.dir hlogs
  have hd₂ : Named s.callDir := named_join s.logsDir hllm
  have hs₂ := Nat.le_trans (size_above hd₂ hname) hf.path
  have hs₁ := Nat.le_trans (size_above hd₁ hllm) hs₂
  have hu₁ := (locate_eq_ok_iff.mp h.leads).1.child hd hlogs (by decide) hs₁
  have hu₂ := hu₁.child hd₁ hllm (by decide) hs₂
  have hu := hu₂.child hd₂ hname (CallLog.fileName_no_nul number e) hf.path
  have hl₁ : t.locate s.logsDir = .ok (S ++ ["logs"],some .dir) := by
    rw [← habove]
    refine locate_into hd hlogs hu₁ (by decide) h.leads ?_
    rw [habove]
    exact fun target hx => by cases hx
  have hl₂ : t.locate s.callDir = .ok (S ++ ["logs","llm"],some .dir) := by
    have hplace : S ++ ["logs"] ++ ["llm"] = S ++ ["logs","llm"] := List.append_assoc ..
    rw [← hdir,← hplace]
    refine locate_into hd₁ hllm hu₂ (by decide) hl₁ ?_
    rw [hplace,hdir]
    exact fun target hx => by cases hx
  have hplace : S ++ ["logs","llm"] ++ [CallLog.fileName number e] =
      S ++ ["logs","llm",CallLog.fileName number e] := List.append_assoc ..
  rw [← hplace]
  refine locate_into hd₂ hname hu hf.name hl₂ ?_
  rw [hplace]
  exact h.unlinked (.entry number e) List.prefix_rfl

/-- An entry that is written fits. -/
theorem InPlace.fits_of_write (h : s.InPlace S t) (hd : Named s.dir)
    (hdir : t.node? (S ++ ["logs","llm"]) = some .dir) {e : CallLog.Entry} {path : String}
    (hw : CallLog.write t s.callDir time number e = .ok (path,t')) : s.Fits number e.endpoint := by
  have hname := CallLog.fileName_plain number e.endpoint
  have hcall : Named s.callDir := named_join s.logsDir (by decide)
  obtain ⟨loc,n,_,hl,_⟩ := write_put (CallLog.write_ok hw)
  obtain ⟨d,hll,_⟩ := locate_child hcall.ne_empty hname hl
  have hfirst : ["logs","llm"] <+: ["logs","llm",CallLog.fileName number e.endpoint] := ⟨[_],rfl⟩
  obtain rfl := h.location hd (.entry number e.endpoint) hfirst hll
  rw [hdir] at hll
  exact ⟨size_of_locate hcall hname hll hl,(locate_eq_ok_iff.mp hl).1.short⟩

/-- An entry that fits is written. -/
theorem InPlace.write_entry (h : s.InPlace S t) (hd : Named s.dir)
    (habove : t.node? (S ++ ["logs"]) = some .dir) (hdir : t.node? (S ++ ["logs","llm"]) = some .dir)
    {e : CallLog.Entry} (hf : s.Fits number e.endpoint)
    (hfree : t.node? (S ++ ["logs","llm",CallLog.fileName number e.endpoint]) = none) (time : String) :
    ∃ path t', CallLog.write t s.callDir time number e = .ok (path,t') := by
  have hne : S ++ ["logs","llm",CallLog.fileName number e.endpoint] ≠ [] := by simp
  have hw : t.Writable (S ++ ["logs","llm",CallLog.fileName number e.endpoint]) := .inl hfree
  have hl := h.locate_entry hd habove hdir hf
  have hl' := (h.put hw (CallLog.content time e).toUTF8 false).locate_entry hd
    (by rw [node?_put t hne,if_neg (by simp)]; exact habove)
    (by rw [node?_put t hne,if_neg (by simp)]; exact hdir) hf
  have hwritten : t.writeText (join s.callDir (CallLog.fileName number e.endpoint))
      (CallLog.content time e) =
        .ok (t.put (S ++ ["logs","llm",CallLog.fileName number e.endpoint])
          (.file (CallLog.content time e).toUTF8 false)) := by
    unfold FileTree.writeText FileTree.write
    rw [hl,hfree]
    simp only [hl']
    rfl
  unfold CallLog.write
  dsimp only
  rw [hwritten]
  exact ⟨_,_,rfl⟩

namespace Logbook

/-- What happens at other places does not touch the log. -/
theorem congr (h : s.Logbook S time noted t)
    (hx : ∀ {loc}, CallPlace S loc → t'.node? loc = t.node? loc) : s.Logbook S time noted t' where
  above := by
    rw [hx (.inl rfl)]
    exact h.above
  dir := by
    rw [hx (.inr List.prefix_rfl)]
    exact h.dir
  holds hk hf := by
    rw [hx (callPlace_entry S _)]
    exact h.holds hk hf
  only hr hn := by
    rw [hx (.inr (List.prefix_append _ _))] at hn
    exact h.only hr hn

/-- The place of the next entry is free. -/
theorem free (h : s.Logbook S time noted t) (e : Endpoint) :
    t.node? (S ++ ["logs","llm",CallLog.fileName (noted.length + 1) e]) = none := by
  cases hn : t.node? (S ++ ["logs","llm",CallLog.fileName (noted.length + 1) e]) with
  | none => rfl
  | some n =>
    have hplace : S ++ ["logs","llm",CallLog.fileName (noted.length + 1) e] =
        S ++ ["logs","llm"] ++ [CallLog.fileName (noted.length + 1) e] := by simp
    rw [hplace] at hn
    obtain ⟨k,e',hk,_,hname⟩ := h.only (by simp) hn
    have hnumber := CallLog.fileName_number (List.singleton_inj.mp hname)
    obtain ⟨hlt,_⟩ := List.getElem?_eq_some_iff.mp hk
    omega

/-- With the next entry, the log holds one call more. -/
theorem add (h : s.Logbook S time noted t) {e : CallLog.Entry}
    (hentry : s.Fits (noted.length + 1) e.endpoint ∧
        (∃ x, t'.node? (S ++ ["logs","llm",CallLog.fileName (noted.length + 1) e.endpoint]) =
          some (.file (CallLog.content time e).toUTF8 x)) ∨
      ¬ s.Fits (noted.length + 1) e.endpoint ∧
        t'.node? (S ++ ["logs","llm",CallLog.fileName (noted.length + 1) e.endpoint]) = none)
    (hothers : ∀ {loc}, loc ≠ S ++ ["logs","llm",CallLog.fileName (noted.length + 1) e.endpoint] →
      t'.node? loc = t.node? loc) : s.Logbook S time (noted ++ [e]) t' where
  above := by
    rw [hothers (by simp)]
    exact h.above
  dir := by
    rw [hothers (by simp)]
    exact h.dir
  holds := by
    intro k e' hk hf
    by_cases hlt : k < noted.length
    · rw [List.getElem?_append_left hlt] at hk
      rw [hothers]
      · exact h.holds hk hf
      · intro hplace
        have hnames := List.append_cancel_left hplace
        simp only [List.cons.injEq,and_true,true_and] at hnames
        have hnumber := CallLog.fileName_number hnames
        omega
    · obtain ⟨hbound,hlast⟩ := List.getElem?_eq_some_iff.mp hk
      rw [List.length_append,List.length_singleton] at hbound
      obtain rfl : k = noted.length := by omega
      rw [List.getElem_concat_length rfl] at hlast
      subst hlast
      rcases hentry with ⟨_,hwritten⟩ | ⟨hlong,_⟩
      · exact hwritten
      · exact absurd hf hlong
  only := by
    intro rel n hr hn
    by_cases hrel : rel = [CallLog.fileName (noted.length + 1) e.endpoint]
    · refine ⟨noted.length,e,List.getElem?_concat_length,?_,hrel⟩
      rcases hentry with ⟨hf,_⟩ | ⟨_,hnone⟩
      · exact hf
      · rw [hrel,List.append_assoc] at hn
        rw [List.cons_append,List.cons_append,List.nil_append,hnone] at hn
        cases hn
    · rw [hothers] at hn
      · obtain ⟨k,e',hk,hf,hname⟩ := h.only hr hn
        obtain ⟨hlt,_⟩ := List.getElem?_eq_some_iff.mp hk
        exact ⟨k,e',by rw [List.getElem?_append_left hlt]; exact hk,hf,hname⟩
      · intro hplace
        rw [List.append_assoc] at hplace
        exact hrel (by simpa using List.append_cancel_left hplace)

end Logbook

end Session

end EndpointAudit
