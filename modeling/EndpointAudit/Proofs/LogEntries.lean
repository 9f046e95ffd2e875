import EndpointAudit.Analysis.Task
import EndpointAudit.Proofs.Paths
import EndpointAudit.Proofs.Writes

namespace EndpointAudit

open EndpointAudit.Path

namespace CallLog

theorem safeName_chars (name : String) :
    ∀ c ∈ (safeName name).toList, isSafe c = true ∨ c = '_' := by
  have hu : "unnamed".toList.all isSafe = true := by decide
  intro c hc
  unfold safeName at hc
  split at hc
  · exact .inl (List.all_eq_true.mp hu c hc)
  · rw [String.toList_ofList] at hc
    obtain ⟨c',_,rfl⟩ := List.mem_map.mp hc
    split
    · exact .inl ‹_›
    · exact .inr rfl

theorem isSafe_of_isDigit {c : Char} (h : c.isDigit = true) : isSafe c = true := by
  simp only [Char.isDigit,Bool.and_eq_true,decide_eq_true_eq] at h
  have hl : '0' ≤ c := h.1
  have hr : c ≤ '9' := h.2
  simp [isSafe,hl,hr]

theorem padded_digits (width n : Nat) : ∀ c ∈ (Text.padded width n).toList, c.isDigit = true := by
  intro c hc
  simp only [Text.padded,String.toList_ofList,List.mem_append,List.mem_replicate] at hc
  rcases hc with ⟨_,rfl⟩ | hc
  · decide
  · exact Nat.isDigit_of_mem_toDigits (by decide) (by decide) hc

theorem padded_chars (width n : Nat) : ∀ c ∈ (Text.padded width n).toList, isSafe c = true :=
  fun c hc => isSafe_of_isDigit (padded_digits width n c hc)

/-- The name of an entry up to its ending. -/
def stem (number : Nat) (e : Endpoint) : String :=
  Text.padded 4 number ++ "_" ++ safeName e.controller ++ "_" ++ safeName e.handler

theorem fileName_eq (number : Nat) (e : Endpoint) : fileName number e = stem number e ++ ".log" :=
  rfl

theorem stem_chars (number : Nat) (e : Endpoint) :
    ∀ c ∈ (stem number e).toList, isSafe c = true ∨ c = '_' := by
  have hbar {c : Char} (h : c ∈ "_".toList) : c = '_' := List.mem_singleton.mp h
  intro c hc
  simp only [stem,String.toList_append,List.mem_append] at hc
  rcases hc with (((hc | hc) | hc) | hc) | hc
  · exact .inl (padded_chars 4 number c hc)
  · exact .inr (hbar hc)
  · exact safeName_chars _ c hc
  · exact .inr (hbar hc)
  · exact safeName_chars _ c hc

theorem fileName_chars (number : Nat) (e : Endpoint) :
    ∀ c ∈ (fileName number e).toList, isSafe c = true ∨ c = '_' ∨ c = '.' := by
  have hlog : ".log".toList.all (fun c => isSafe c || c == '.') = true := by decide
  intro c hc
  rw [fileName_eq,String.toList_append,List.mem_append] at hc
  rcases hc with hc | hc
  · exact (stem_chars number e c hc).imp_right .inl
  · have hd := List.all_eq_true.mp hlog c hc
    simp only [Bool.or_eq_true,beq_iff_eq] at hd
    exact hd.imp_right .inr

theorem fileName_plain (number : Nat) (e : Endpoint) : Plain (fileName number e) := by
  have hu : '_' ∈ (fileName number e).toList := by simp [fileName]
  refine ⟨?_,?_,?_,?_⟩
  · intro h
    simp [h] at hu
  · intro h
    simp [h] at hu
  · intro h
    simp [h] at hu
  · intro h
    rcases fileName_chars number e '/' h with hs | hs | hs <;> revert hs <;> decide

theorem write_ok {t t' : FileTree} {dir time path : String} {number : Nat} {e : Entry}
    (h : write t dir time number e = .ok (path,t')) :
    t.write (join dir (fileName number e.endpoint)) (content time e).toUTF8 = .ok t' := by
  unfold write at h
  dsimp only at h
  cases hw : t.writeText (join dir (fileName number e.endpoint)) (content time e) with
  | error f =>
    rw [hw] at h
    cases h
  | ok t₁ =>
    rw [hw] at h
    obtain rfl : t₁ = t' := congrArg Prod.snd (Except.ok.inj h)
    exact hw

end CallLog

namespace FileTree

/-- A path that leads elsewhere is apart from the path of a child, unless that is a link. -/
theorem apart_child {t : FileTree} {path dir name : String} (hd : dir ≠ "") (hn : Plain name)
    (hp : ∀ loc n d m, t.locate path = .ok (loc,n) → t.locate dir = .ok (d,m) → loc ≠ d ++ [name])
    (hl : ∀ d m, t.locate dir = .ok (d,m) → ∀ target, t.node? (d ++ [name]) ≠ some (.link target)) :
    t.Apart path (join dir name) := by
  intro loc n n' hloc hchild
  obtain ⟨d,hd,rfl | ⟨target,ht⟩⟩ := locate_child hd hn hchild
  · exact hp _ n d _ hloc hd rfl
  · exact hl d _ hd target ht

end FileTree

/-- Code that is apart from a written path reads as before. -/
theorem CodeSpan.extract_write {t t' : FileTree} {root position written : String} {bytes : ByteArray}
    (ha : ∀ s, parse position = .ok s → t.Apart (join root s.path) written)
    (h : t.write written bytes = .ok t') : extract t' root position = extract t root position := by
  unfold extract
  cases hs : parse position with
  | error e => rfl
  | ok s =>
    have hf := FileTree.find_write (ha s hs) h
    change (if !t'.pathExists (join root s.path) then _ else _) =
      (if !t.pathExists (join root s.path) then _ else _)
    unfold FileTree.readText FileTree.read FileTree.pathExists
    rcases hf with hf | ⟨f,f',hf,hf'⟩
    · rw [hf]
    · rw [hf,hf']
      rfl

/-- What is logged is written as an entry in the directory of the log, if at all. -/
theorem Analysis.Services.log_files (s : Services) (entry : CallLog.Entry) (w : World) :
    (s.log entry w).files = w.files ∨ ∃ dir ∈ s.callDir, ∃ number bytes,
      w.files.write (join dir (CallLog.fileName number entry.endpoint)) bytes =
        .ok (s.log entry w).files := by
  unfold Services.log
  cases hd : s.callDir with
  | none => exact .inl rfl
  | some dir =>
    simp only
    cases hw : CallLog.write w.files dir w.clock.time (w.logged + 1) entry with
    | error e => exact .inl rfl
    | ok r =>
      obtain ⟨path,files⟩ := r
      have hput := CallLog.write_ok hw
      exact .inr ⟨dir,rfl,w.logged + 1,_,hput⟩

end EndpointAudit
