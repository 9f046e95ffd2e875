import EndpointAudit.Program
import EndpointAudit.Proofs.FreshSessions

namespace EndpointAudit

namespace FileTree

/-- A directory that is there is not made. -/
theorem Dug.still {t t' : FileTree} {path : String} {loc : Location} {n : Node} (h : t.Dug path t')
    (hl : t.locate path = .ok (loc,some n)) : t' = t := by
  have hexists : t.makeDir path = .error .alreadyExists := by
    obtain ⟨husable,hwalk⟩ := locate_eq_ok_iff.mp hl
    obtain ⟨loc',n',hlast⟩ := walk_unfollowed hwalk
    rw [makeDir,locate_eq_ok_iff.mpr ⟨husable,hlast⟩]
  cases h with
  | blank | stands => rfl
  | made made =>
    rw [hexists] at made
    cases made
  | above missing _ _ _
  | along missing _ _ _ =>
    rw [hexists] at missing
    cases missing

end FileTree

open EndpointAudit.Path FileTree

namespace Session

/-- The stages after which a snapshot is left. -/
def stageNames : List String :=
  [Stages.detectionName,Stages.extractionName,Stages.analysisName,Stages.summaryName]

/-- The names, below a session, of the files that a run leaves there besides its log of calls. -/
inductive OwnFile : List String → Prop
  | info : OwnFile ["session_info.json"]
  | project : OwnFile [Stages.detectionFile]
  | report : OwnFile [Stages.summaryFile]
  | snapshot (number : Nat) {stage : String} (known : stage ∈ stageNames) :
    OwnFile ["data","node_" ++ Text.padded 3 number ++ "_" ++ stage ++ ".json"]
  | detailed : OwnFile ["logs",Program.detailedLog]

/-- The names, below a session, of all the files that a run leaves there. -/
inductive Own : List String → Prop
  | file {rel : List String} (file : OwnFile rel) : Own rel
  | entry (number : Nat) (e : Endpoint) : Own ["logs","llm",CallLog.fileName number e]

/-- A session stands where its path leads, and no symbolic link stands where its files are or on the way
to them. -/
structure InPlace (s : Session) (S : Location) (t : FileTree) : Prop where
  leads : t.locate s.dir = .ok (S,some .dir)
  unlinked : ∀ {rel first}, Own rel → first <+: rel → ∀ target, t.node? (S ++ first) ≠ some (.link target)

/-- A run makes the directory of its snapshots, or writes one of its files besides the log of calls. -/
inductive Puts (S : Location) : FileTree → FileTree → Prop
  | dir {t : FileTree} (free : t.node? (S ++ ["data"]) = none) : Puts S t (t.put (S ++ ["data"]) .dir)
  | file {t : FileTree} {rel : List String} (own : OwnFile rel) (writable : t.Writable (S ++ rel))
    (bytes : ByteArray) (x : Bool) : Puts S t (t.put (S ++ rel) (.file bytes x))

/-- A run writes an entry of its log of calls. -/
inductive Logs (S : Location) (number : Nat) (e : Endpoint) (text : String) : FileTree → FileTree → Prop
  | entry {t : FileTree} (writable : t.Writable (S ++ ["logs","llm",CallLog.fileName number e]))
    (x : Bool) :
    Logs S number e text t (t.put (S ++ ["logs","llm",CallLog.fileName number e]) (.file text.toUTF8 x))

variable {s : Session} {S loc : Location} {t t' : FileTree} {rel : List String}

theorem stage_plain {stage : String} (h : stage ∈ stageNames) (number : Nat) :
    Plain ("node_" ++ Text.padded 3 number ++ "_" ++ stage ++ ".json") := by
  have hbar : '_' ∈ ("node_" ++ Text.padded 3 number ++ "_" ++ stage ++ ".json").toList := by simp
  refine plain_of_mem hbar (by decide) ?_
  have hstage : '/' ∉ stage.toList := by
    have hall : ∀ name ∈ stageNames, '/' ∉ name.toList := by decide
    exact hall stage h
  have hdigits : '/' ∉ (Text.padded 3 number).toList := by
    intro hm
    exact absurd (CallLog.padded_chars 3 number '/' hm) (by decide)
  simp only [String.toList_append,List.mem_append,hdigits,hstage,or_false]
  decide

theorem Own.plain (h : Own rel) : ∀ n ∈ rel, Plain n := by
  cases h with
  | file file =>
    cases file with
    | info | project | report | detailed => decide
    | snapshot number known =>
      have hdata : Plain "data" := by decide
      simpa using ⟨hdata,stage_plain known number⟩
  | entry number e =>
    have hdirs : Plain "logs" ∧ Plain "llm" := by decide
    simpa using ⟨hdirs.1,hdirs.2,CallLog.fileName_plain number e⟩

/-- The path of one of the places leads there. -/
theorem InPlace.location (h : s.InPlace S t) (hd : Named s.dir) (ho : Own rel) {first : List String}
    (hp : first <+: rel) {n : Option Node} (hl : t.locate (first.foldl join s.dir) = .ok (loc,n)) :
    loc = S ++ first := by
  induction first using List.reverseRecOn generalizing loc n with
  | nil =>
    rw [List.foldl_nil,h.leads] at hl
    cases hl
    exact (List.append_nil S).symm
  | append_singleton first name ih =>
    have hshort : first <+: rel := (List.prefix_append first [name]).trans hp
    have hplain : ∀ n ∈ first ++ [name], Plain n := fun n hn => ho.plain n (hp.subset hn)
    have hdir : first.foldl join s.dir ≠ "" := by
      rcases List.eq_nil_or_concat first with rfl | ⟨front,last,rfl⟩
      · exact hd.ne_empty
      · rw [List.concat_eq_append,List.foldl_append]
        exact (named_join _ (hplain last (by simp))).ne_empty
    rw [List.foldl_append] at hl
    obtain ⟨d,hdir,hchild⟩ := locate_child hdir (hplain name (by simp)) hl
    obtain rfl := ih hshort hdir
    rw [List.append_assoc] at hchild
    exact hchild.resolve_right fun ⟨target,ht⟩ => h.unlinked ho hp target ht

/-- A file that is written anywhere leaves a session in place. -/
theorem InPlace.put (h : s.InPlace S t) (hw : t.Writable loc) (bytes : ByteArray) (x : Bool) :
    s.InPlace S (t.put loc (.file bytes x)) := by
  constructor
  · have halike := locate_put hw bytes x s.dir true
    have hne : S ≠ loc := by
      rintro rfl
      have hdir := locate_node h.leads
      rcases hw with hw | ⟨bytes,x,hw⟩ <;> rw [hw] at hdir <;> cases hdir
    rw [h.leads] at halike
    generalize FileTree.locate _ s.dir = after at halike ⊢
    cases halike with
    | elsewhere apart => rfl
    | there => exact absurd rfl hne
  · intro rel first ho hp target
    rw [node?_put t hw.ne_nil]
    split
    · exact fun hx => by cases hx
    · exact h.unlinked ho hp target

theorem InPlace.logs {number : Nat} {e : Endpoint} {text : String} (h : s.InPlace S t)
    (hl : Logs S number e text t t') : s.InPlace S t' := by
  cases hl with
  | entry writable x => exact h.put writable _ x

/-- A write to one of the places goes there. -/
theorem InPlace.write (h : s.InPlace S t) (hd : Named s.dir) (ho : Own rel) {bytes : ByteArray}
    (hw : t.write (rel.foldl join s.dir) bytes = .ok t') :
    t.Writable (S ++ rel) ∧ ∃ x, t' = t.put (S ++ rel) (.file bytes x) := by
  obtain ⟨loc,n,x,hl,hwritable,rfl,_⟩ := write_put hw
  obtain rfl := h.location hd ho List.prefix_rfl hl
  exact ⟨hwritable,x,rfl⟩

theorem InPlace.puts_of_write (h : s.InPlace S t) (hd : Named s.dir) (ho : OwnFile rel)
    {bytes : ByteArray} (hw : t.write (rel.foldl join s.dir) bytes = .ok t') : Puts S t t' := by
  obtain ⟨hwritable,x,rfl⟩ := h.write hd (.file ho) hw
  exact .file ho hwritable bytes x

open Relation

/-- An entry of the log of calls is written at its place. -/
theorem InPlace.log (h : s.InPlace S t) (hd : Named s.dir) {time path : String} {number : Nat}
    {e : CallLog.Entry} (hw : CallLog.write t s.callDir time number e = .ok (path,t')) :
    Logs S number e.endpoint (CallLog.content time e) t t' := by
  have hwritten := CallLog.write_ok hw
  have hfold : join s.callDir (CallLog.fileName number e.endpoint) =
      ["logs","llm",CallLog.fileName number e.endpoint].foldl join s.dir := by
    simp only [List.foldl_cons,List.foldl_nil,callDir,logsDir]
  rw [hfold] at hwritten
  have hown : Own ["logs","llm",CallLog.fileName number e.endpoint] := .entry number e.endpoint
  obtain ⟨hwritable,x,rfl⟩ := h.write hd hown hwritten
  exact .entry hwritable x

theorem InPlace.openLog (h : s.InPlace S t) (hd : Named s.dir)
    (hw : t.writeText (join s.logsDir Program.detailedLog) "" = .ok t') : Puts S t t' :=
  h.puts_of_write hd .detailed hw

end Session

end EndpointAudit
