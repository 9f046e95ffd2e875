import EndpointAudit.Proofs.Logbooks
import EndpointAudit.Proofs.Moves
import EndpointAudit.Proofs.PathOrder

namespace EndpointAudit

open EndpointAudit.Path Relation

namespace Path

variable {dir name : String}

/-- A name in the empty path stands for itself. -/
theorem components_child (dir : String) (hn : Plain name) :
    components (join dir name) = components dir ++ [name] := by
  by_cases hd : dir = ""
  · have hjoin : join "" name = name := by simp [join]
    have hempty : components "" = [] := by decide
    rw [hd,hjoin,hempty,components_eq (pieces_of_slashless hn.slashless),if_neg hn.not_here]
    simp [hn.named]
  · exact components_join hd hn

/-- The path goes through one name more than that of the directory, and in any tree it leads to what has
that name in the directory, unless a link stands there. -/
structure Child (dir path name : String) : Prop where
  plain : Plain name
  rooted : isAbsolute path = isAbsolute dir
  names : components path = components dir ++ [name]
  leads {t : FileTree} {loc : Location} {n : Option Node} (given : dir ≠ "")
    (found : t.locate path = .ok (loc,n)) : ∃ d, t.locate dir = .ok (d,t.node? d) ∧
      (loc = d ++ [name] ∨ ∃ target, t.node? (d ++ [name]) = some (.link target))

theorem child_join (dir : String) (hn : Plain name) : Child dir (join dir name) name where
  plain := hn
  rooted := isAbsolute_join dir hn.slashless
  names := components_child dir hn
  leads hd := FileTree.locate_child hd hn

end Path

namespace CallLog

/-- A name with a number of at least four digits up to its first bar, then letters, digits, dashes and bars
up to its ending. -/
structure NumberedName (number : Nat) (name : String) : Prop where
  digits : ∀ c ∈ name.toList.takeWhile (· != '_'), c.isDigit
  width : 4 ≤ (name.toList.takeWhile (· != '_')).length
  value : Nat.ofDigitChars 10 (name.toList.takeWhile (· != '_')) 0 = number
  bar : '_' ∈ name.toList
  safe : ∃ stem, name = stem ++ ".log" ∧ ∀ c ∈ stem.toList, c.isAlphanum ∨ c = '-' ∨ c = '_'

/-- A call that has its number and came to write its entry. -/
structure Attempt where
  number : Nat
  entry : Entry
  /-- The path and the files with the entry, or why there is none. -/
  written : Except Error (String × FileTree)

/-- The file that was written, or could not be. -/
def Attempt.path? (a : Attempt) : Option String :=
  match a.written with
  | .ok (path,_) => some path
  | .error (.io path _) => some path
  | .error _ => none

/-- What becomes of a log that many workers have at hand: the calls that drew a number, in the order in
which they did, and the attempts to write their entries. Between drawing and writing others may do the
same, and the files and the time may be anything when an entry comes to be written. -/
inductive Shared (dir : String) : List Entry → List Attempt → Prop
  | fresh : Shared dir [] []
  | draw {drawn attempts} (e : Entry) (before : Shared dir drawn attempts) :
    Shared dir (drawn ++ [e]) attempts
  | write {drawn attempts k e} (before : Shared dir drawn attempts) (drew : drawn[k]? = some e)
    (once : ∀ a ∈ attempts, a.number ≠ k + 1) (t : FileTree) (time : String) :
    Shared dir drawn (attempts ++ [⟨k + 1,e,write t dir time (k + 1) e⟩])

variable {dir name : String} {drawn : List Entry} {attempts : List Attempt} {number : Nat}

theorem isAlphanum_of_isSafe {c : Char} (h : isSafe c = true) : c.isAlphanum = true ∨ c = '-' := by
  have hkinds : c.isAlphanum = (decide ('A' ≤ c ∧ c ≤ 'Z') || ('a' ≤ c && c ≤ 'z') ||
      ('0' ≤ c && c ≤ '9')) := rfl
  simp only [isSafe,Bool.or_eq_true,Bool.and_eq_true,decide_eq_true_eq,beq_iff_eq] at h
  simp only [hkinds,Bool.or_eq_true,Bool.and_eq_true,decide_eq_true_eq]
  rcases h with ((⟨hl,hr⟩ | ⟨hl,hr⟩) | ⟨hl,hr⟩) | h
  · exact .inl (.inl (.inr ⟨hl,hr⟩))
  · exact .inl (.inl (.inl ⟨hl,hr⟩))
  · exact .inl (.inr ⟨hl,hr⟩)
  · exact .inr h

theorem fileName_numbered (number : Nat) (e : Endpoint) : NumberedName number (fileName number e) where
  digits := by
    rw [fileName_digits]
    exact padded_digits 4 number
  width := by
    rw [fileName_digits]
    simp [Text.padded]
    omega
  value := by
    rw [fileName_digits,ofDigitChars_padded]
  bar := by simp [fileName]
  safe := by
    refine ⟨stem number e,fileName_eq number e,?_⟩
    intro c hc
    rcases stem_chars number e c hc with hs | hs
    · exact (isAlphanum_of_isSafe hs).imp_right .inl
    · exact .inr (.inr hs)

/-- The file of an entry is given by its number, whether it can be written or not. -/
theorem path?_write (t : FileTree) (dir time : String) (number : Nat) (e : Entry) :
    (Attempt.mk number e (write t dir time number e)).path? =
      some (join dir (fileName number e.endpoint)) := by
  unfold write
  dsimp only
  cases t.writeText (join dir (fileName number e.endpoint)) (content time e) <;> rfl

/-- Each attempt has the number at which its call drew. -/
theorem Shared.drew (h : Shared dir drawn attempts) : ∀ a ∈ attempts, ∃ k, a.number = k + 1 ∧
    drawn[k]? = some a.entry ∧ a.path? = some (join dir (fileName a.number a.entry.endpoint)) := by
  induction h with
  | fresh => simp
  | draw e before ih =>
    intro a ha
    obtain ⟨k,hn,hk,hp⟩ := ih a ha
    obtain ⟨hlt,_⟩ := List.getElem?_eq_some_iff.mp hk
    exact ⟨k,hn,(List.getElem?_append_left hlt).trans hk,hp⟩
  | write before drew once t time ih =>
    intro a ha
    rcases List.mem_append.mp ha with ha | ha
    · exact ih a ha
    · obtain rfl := List.mem_singleton.mp ha
      exact ⟨_,rfl,drew,path?_write t dir time _ _⟩

/-- No two attempts have the same number. -/
theorem Shared.apart (h : Shared dir drawn attempts) :
    attempts.Pairwise fun a b => a.number ≠ b.number := by
  induction h with
  | fresh => exact .nil
  | draw e before ih => exact ih
  | write before drew once t time ih =>
    refine List.pairwise_append.mpr ⟨ih,List.pairwise_singleton _ _,?_⟩
    intro a ha b hb
    rw [List.mem_singleton.mp hb]
    exact once a ha

/-- Files with different numbers are different, whatever the endpoints are called. -/
theorem number_of_path {i j : Nat} {e e' : Endpoint}
    (h : join dir (fileName i e) = join dir (fileName j e')) : i = j := by
  have hnames := congrArg components h
  rw [components_child dir (fileName_plain i e),components_child dir (fileName_plain j e')] at hnames
  exact fileName_number (List.singleton_inj.mp (List.append_cancel_left hnames))

/-- However the calls to the model draw their numbers and write their entries, no two of them address the
same file. Each one addresses a child of the directory of the log, whose name has safe characters only and
starts with the place of the call among those that drew a number, also if its entry or those of earlier
calls could not be written. -/
theorem addresses_exact (h : Shared dir drawn attempts) :
    (attempts.map Attempt.path?).Nodup ∧
    ∀ a ∈ attempts, ∃ k path name, a.number = k + 1 ∧ drawn[k]? = some a.entry ∧
      a.path? = some path ∧ Child dir path name ∧ NumberedName (k + 1) name := by
  constructor
  · refine List.pairwise_map.mpr (h.apart.imp_of_mem ?_)
    intro a b ha hb hne hpath
    obtain ⟨_,_,_,ha⟩ := h.drew a ha
    obtain ⟨_,_,_,hb⟩ := h.drew b hb
    rw [ha,hb] at hpath
    exact hne (number_of_path (Option.some.inj hpath))
  · intro a ha
    obtain ⟨k,hn,hk,hp⟩ := h.drew a ha
    refine ⟨k,_,_,hn,hk,hp,child_join dir (fileName_plain a.number a.entry.endpoint),?_⟩
    rw [← hn]
    exact fileName_numbered a.number a.entry.endpoint

/-- Any calls can draw their numbers before the first of them writes. -/
theorem shared_drawn (dir : String) (es : List Entry) : Shared dir es [] := by
  induction es using List.reverseRecOn with
  | nil => exact .fresh
  | append_singleton es e ih => exact .draw e ih

/-- A call for a handler whose name is not safe in file names. -/
def unsafeEntry : Entry where
  endpoint := { controller := "User Controller", handler := "../get/{id}_1" }
  systemRole := ""
  prompt := ""
  response := ""

/-- Of many calls for one handler the last one writes first, and fails. -/
theorem addresses_exact_many :
    let t : FileTree := ⟨[],[]⟩
    let last : Attempt := ⟨12345,unsafeEntry,write t "/log" "" 12345 unsafeEntry⟩
    let first : Attempt := ⟨1,unsafeEntry,write t "/log" "" 1 unsafeEntry⟩
    Shared "/log" (.replicate 12345 unsafeEntry) [last,first] ∧
      [last,first].map Attempt.path? =
        [some "/log/12345_User_Controller____get__id__1.log",
          some "/log/0001_User_Controller____get__id__1.log"] ∧
      last.path? ≠ first.path? ∧ last.written.toOption.isNone := by
  intro t last first
  have hdrawn : Shared "/log" (.replicate 12345 unsafeEntry) [] := shared_drawn _ _
  have hget {k : Nat} (hk : k < 12345) :
      (List.replicate 12345 unsafeEntry)[k]? = some unsafeEntry := by
    rw [List.getElem?_replicate,if_pos hk]
  have hlast := hdrawn.write (hget (show 12344 < 12345 by decide)) (by simp) t ""
  have hfirst := hlast.write (hget (show 0 < 12345 by decide)) (by simp) t ""
  obtain ⟨hnodup,_⟩ := addresses_exact hfirst
  refine ⟨hfirst,by decide,?_,by decide⟩
  intro hpath
  exact (List.nodup_cons.mp hnodup).1 (List.mem_singleton.mpr hpath)

end CallLog

namespace Analysis

open CallLog

/-- What a step makes of the log: it is left as it is, or one call is logged. -/
inductive Services.Logs (s : Services) (dir : String) :
    World × List Attempt → World × List Attempt → Prop
  | aside {w w' attempts} (count : w'.logged = w.logged) : Logs s dir (w,attempts) (w',attempts)
  | log {w attempts} (e : Entry) : Logs s dir (w,attempts) (s.log e w,attempts ++
      [⟨w.logged + 1,e,CallLog.write w.files dir w.clock.time (w.logged + 1) e⟩])

variable {s : Services} {dir : String} {drawn : List Entry} {attempts attempts' : List Attempt}
  {w w' : World} {plan : Plan} {mayCancel : Prop}

/-- Every call is counted, whether it can be written or not. -/
theorem Services.log_logged (hd : s.callDir = some dir) (e : Entry) (w : World) :
    (s.log e w).logged = w.logged + 1 := by
  unfold log
  rw [hd]
  simp only
  split <;> rfl

/-- A call that is logged draws the next number and writes its entry at once. -/
theorem Services.Logs.shared (hd : s.callDir = some dir) (h : s.Logs dir (w,attempts) (w',attempts'))
    (hs : Shared dir drawn attempts) (hc : w.logged = drawn.length) :
    ∃ drawn', Shared dir drawn' attempts' ∧ w'.logged = drawn'.length := by
  cases h with
  | aside count => exact ⟨drawn,hs,count.trans hc⟩
  | log e =>
    refine ⟨drawn ++ [e],?_,by rw [Services.log_logged hd,hc,List.length_append,List.length_singleton]⟩
    rw [hc]
    refine (hs.draw e).write List.getElem?_concat_length ?_ w.files w.clock.time
    intro a ha
    obtain ⟨k,hn,hk,_⟩ := hs.drew a ha
    obtain ⟨hlt,_⟩ := List.getElem?_eq_some_iff.mp hk
    omega

theorem Task.Steps.logs {t t' : Task Finding} (h : t.Steps s w t' w') (dir : String)
    (attempts : List Attempt) : ∃ attempts', s.Logs dir (w,attempts) (w',attempts') := by
  cases h with
  | read | unreadable => exact ⟨attempts,.aside rfl⟩
  | found looked | broken looked => exact ⟨attempts,.aside (congrArg (·.2.logged) looked).symm⟩
  | completed asked | refused asked | crashed asked =>
    exact ⟨attempts,.aside (congrArg (·.2.logged) asked).symm⟩
  | noted => exact ⟨_,.log _⟩

theorem Pool.Move.logs {a b : Pool × World} (h : Move plan s mayCancel a b) (dir : String)
    (attempts : List Attempt) :
    ∃ attempts', s.Logs dir (a.2,attempts) (b.2,attempts') := by
  cases h with
  | cancel may => exact ⟨attempts,.aside rfl⟩
  | task change =>
    cases change with
    | start | skip | finish => exact ⟨attempts,.aside rfl⟩
    | step steps => exact steps.logs dir attempts

/-- Whatever turns its tasks take, a batch goes on with the log as many workers would who draw numbers and
write entries, so what is known of such a log is known of that of a run. -/
theorem Pool.run_shared (hd : s.callDir = some dir) (workers : Nat) (jobs : List Job)
    (turns : List Turn) (hs : Shared dir drawn attempts) (hc : w.logged = drawn.length) :
    let w' := (run plan s workers jobs turns w).2
    ∃ drawn' attempts', ReflTransGen (s.Logs dir) (w,attempts) (w',attempts') ∧
      Shared dir drawn' attempts' ∧ w'.logged = drawn'.length := by
  intro w'
  obtain ⟨p,hmoves⟩ : ∃ p, Moves plan s True (ofJobs jobs,w) (p,w') :=
    (run_pool_moves workers jobs turns (fun _ => trivial) w).imp fun _ h => h.1
  have hkeep {b : Pool × World} (hm : Moves plan s True (ofJobs jobs,w) b) :
      ∃ drawn' attempts', ReflTransGen (s.Logs dir) (w,attempts) (b.2,attempts') ∧
        Shared dir drawn' attempts' ∧ b.2.logged = drawn'.length := by
    induction hm with
    | refl => exact ⟨drawn,attempts,.refl,hs,hc⟩
    | tail _ hmove ih =>
      obtain ⟨drawn',attempts',hlogs,hs',hc'⟩ := ih
      obtain ⟨attempts'',hlog⟩ := hmove.logs dir attempts'
      obtain ⟨drawn'',hs'',hc''⟩ := hlog.shared hd hs' hc'
      exact ⟨drawn'',attempts'',hlogs.tail hlog,hs'',hc''⟩
  exact hkeep hmoves

end Analysis

end EndpointAudit
