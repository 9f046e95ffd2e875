import EndpointAudit.Proofs.Flags
import EndpointAudit.Proofs.PairedWalks
import EndpointAudit.Settings.Build

namespace EndpointAudit.Settings

/-- The settings that can be chosen, by the type of their values. -/
inductive Setting : Type → Type
  | sessionRoot : Setting String
  | workers : Setting Nat
  | cap : Setting Nat
  | rounds : Setting Nat
  | verbose : Setting Bool
  | templateDir : Setting (Option String)
  | templateName : Setting String
  | templateSection : Setting (Option String)
  | mode : Setting Prompt.Mode
  | selector : Setting String
  | temperature : Setting Float32
  | systemRole : Setting String
  | timeout : Setting Nat
  | java : Setting (Option String)
  | jar : Setting (Option String)

namespace Setting

variable {α : Type}

/-- What was chosen for a setting. -/
def choice : Setting α → Choices → Option α
  | sessionRoot,c => c.sessionRoot
  | workers,c => c.workers
  | cap,c => c.cap
  | rounds,c => c.rounds
  | verbose,c => c.verbose
  | templateDir,c => c.templateDir.map some
  | templateName,c => c.templateName
  | templateSection,c => c.templateSection.map some
  | mode,c => c.mode
  | selector,c => c.selector
  | temperature,c => c.temperature
  | systemRole,c => c.systemRole
  | timeout,c => c.timeout
  | java,c => c.java.map some
  | jar,c => c.jar.map some

/-- The value of a setting. -/
def value : Setting α → Settings → α
  | sessionRoot,s => s.sessionRoot
  | workers,s => s.workers
  | cap,s => s.cap
  | rounds,s => s.rounds
  | verbose,s => s.verbose
  | templateDir,s => s.templateDir
  | templateName,s => s.templateName
  | templateSection,s => s.templateSection
  | mode,s => s.mode
  | selector,s => s.selector
  | temperature,s => s.temperature
  | systemRole,s => s.systemRole
  | timeout,s => s.timeout
  | java,s => s.java
  | jar,s => s.jar

/-- The value of a setting for which nothing was chosen. -/
def standard : Setting α → α
  | sessionRoot => "logs"
  | workers => 4
  | cap => 32
  | rounds => 1
  | verbose => false
  | templateDir => none
  | templateName => "SA/api_analysis.json"
  | templateSection => none
  | mode => .singlePass
  | selector => "qwen"
  | temperature => 0
  | systemRole => standardRole
  | timeout => 120
  | java => none
  | jar => none

theorem choice_orElse (x : Setting α) (c c' : Choices) :
    x.choice (c.orElse c') = (x.choice c).or (x.choice c') := by
  cases x <;> simp only [choice,Choices.orElse,Option.map_or]

theorem getD_map_some (o : Option α) : (o.map some).getD none = o := by
  cases o <;> rfl

theorem value_ofChoices (x : Setting α) (project : String) (c : Choices) (f : File) :
    x.value (ofChoices project c f) = (x.choice c).getD x.standard := by
  cases x
  case templateDir | templateSection | java | jar => exact (getD_map_some _).symm
  all_goals rfl

end Setting

theorem Choices.ext_settings {c c' : Choices}
    (h : ∀ {α : Type} (x : Setting α), x.choice c = x.choice c') : c = c' := by
  have hinj : Function.Injective (Option.map (some : String → Option String)) :=
    Option.map_injective fun _ _ h => Option.some.inj h
  obtain ⟨⟩ := c
  obtain ⟨⟩ := c'
  simp only [Choices.mk.injEq]
  exact ⟨h .sessionRoot,h .workers,h .cap,h .rounds,h .verbose,hinj (h .templateDir),h .templateName,
    hinj (h .templateSection),h .mode,h .selector,h .temperature,h .systemRole,h .timeout,
    hinj (h .java),hinj (h .jar)⟩

theorem ext_settings {s s' : Settings} (hproject : s.project = s'.project)
    (h : ∀ {α : Type} (x : Setting α), x.value s = x.value s') (hmodels : s.models = s'.models)
    (htokens : s.logTokens = s'.logTokens) : s = s' := by
  obtain ⟨⟩ := s
  obtain ⟨⟩ := s'
  simp only [Settings.mk.injEq]
  exact ⟨hproject,h .sessionRoot,h .workers,h .cap,h .rounds,h .verbose,h .templateDir,
    h .templateName,h .templateSection,h .mode,h .selector,h .temperature,h .systemRole,h .timeout,
    hmodels,htokens,h .java,h .jar⟩

/-- Settings in layers: what was chosen comes first, then the file, then what is standard. The models of
the file come into the standard table, in their order. -/
structure Layered (s : Settings) (c : Choices) (f : File) : Prop where
  chosen : ∀ {α : Type} (x : Setting α) (a : α), x.choice c = some a → x.value s = a
  filed : ∀ {α : Type} (x : Setting α) (a : α), x.choice c = none → x.choice f.choices = some a →
    x.value s = a
  standard : ∀ {α : Type} (x : Setting α), x.choice c = none → x.choice f.choices = none →
    x.value s = x.standard
  models : s.models = Model.Table.standard.upsertAll f.models
  logTokens : s.logTokens = f.logTokens.getD false

theorem layered_ofChoices (project : String) (c : Choices) (f : File) :
    (ofChoices project (c.orElse f.choices) f).Layered c f := by
  refine ⟨?_,?_,?_,rfl,rfl⟩
  · intro α x a hc
    rw [x.value_ofChoices,x.choice_orElse,hc]
    rfl
  · intro α x a hc hf
    rw [x.value_ofChoices,x.choice_orElse,hc,hf]
    rfl
  · intro α x hc hf
    rw [x.value_ofChoices,x.choice_orElse,hc,hf]
    rfl

/-- The layers leave nothing open. -/
theorem Layered.eq_ofChoices {s : Settings} {c : Choices} {f : File} (h : s.Layered c f) :
    s = ofChoices s.project (c.orElse f.choices) f := by
  refine ext_settings rfl ?_ h.models h.logTokens
  intro α x
  rw [x.value_ofChoices,x.choice_orElse]
  cases hc : x.choice c with
  | some a => exact h.chosen x a hc
  | none =>
    cases hf : x.choice f.choices with
    | some a => exact h.filed x a hc hf
    | none => exact h.standard x hc hf

/-- Settings that a run can be made with. -/
structure Fit (s : Settings) : Prop where
  workers : 1 ≤ s.workers
  cap : 1 ≤ s.cap
  temperature : 0 ≤ s.temperature ∧ s.temperature ≤ 2
  timeout : 1 ≤ s.timeout
  selector : ∃ c ∈ s.selector.toList, Text.isBlank c = false
  resolved : ∃ e, s.models.resolve s.selector = .ok e

theorem ite_some_eq_none {α : Type} {p : Prop} [Decidable p] {a : α} {o : Option α} :
    (if p then some a else o) = none ↔ ¬p ∧ o = none := by
  split
  · rename_i hp
    exact ⟨(nomatch ·),fun h => absurd hp h.1⟩
  · rename_i hp
    exact ⟨fun h => ⟨hp,h⟩,fun h => h.2⟩

theorem fault?_eq_none_iff {s : Settings} : s.fault? = none ↔ s.Fit := by
  have hfault : s.fault? = none ↔ s.workers ≠ 0 ∧ s.cap ≠ 0 ∧
      (0 ≤ s.temperature ∧ s.temperature ≤ 2) ∧ s.timeout ≠ 0 ∧
      Text.isBlankText s.selector = false ∧ (Model.Table.select? s.models s.selector).isSome := by
    simp only [fault?,ite_some_eq_none,and_true,Bool.not_eq_true',Bool.not_eq_false,
      Bool.and_eq_true,decide_eq_true_eq,Bool.not_eq_true,Option.isNone_eq_false_iff]
  have hselector : Text.isBlankText s.selector = false ↔
      ∃ c ∈ s.selector.toList, Text.isBlank c = false := by
    simp only [Text.isBlankText,List.all_eq_false,Bool.not_eq_true]
  have hresolved : (Model.Table.select? s.models s.selector).isSome ↔
      ∃ e, s.models.resolve s.selector = .ok e := by
    unfold Model.Table.resolve
    cases Model.Table.select? s.models s.selector <;> simp
  rw [hfault,hselector,hresolved]
  simp only [← Nat.one_le_iff_ne_zero]
  constructor
  · rintro ⟨hworkers,hcap,htemp,htimeout,hsel,hres⟩
    exact ⟨hworkers,hcap,htemp,htimeout,hsel,hres⟩
  · intro h
    exact ⟨h.workers,h.cap,h.temperature,h.timeout,h.selector,h.resolved⟩

theorem check_eq_ok_iff {s s' : Settings} : s.check = .ok s' ↔ s' = s ∧ s.Fit := by
  rw [← fault?_eq_none_iff,check]
  cases s.fault? with
  | none => simp [eq_comm]
  | some e => simp

/-- What the configuration file of a draft says. Without one it says nothing. -/
def Draft.Reads (d : Draft) (t : FileTree) (f : File) : Prop :=
  match d.file with
  | none => f = {}
  | some path => File.load t path = .ok f

theorem Draft.reads_iff {d : Draft} {t : FileTree} {f : File} :
    d.Reads t f ↔ d.file.elim (.ok {}) (File.load t) = .ok f := by
  unfold Draft.Reads
  cases d.file with
  | none => simp [eq_comm]
  | some path => rfl

/-- Settings are made in three steps, once the file is read. -/
theorem build_of_reads {t : FileTree} {d : Draft} {f : File} (h : d.Reads t f) :
    build t d = match d.project with
      | none => .error (.config "project path is required")
      | some project => (resolveProject t project).bind fun path =>
          (ofChoices path (d.choices.orElse f.choices) f).check := by
  unfold build
  rw [Draft.reads_iff.mp h]
  rfl

theorem build_eq_ok_iff {t : FileTree} {d : Draft} {s : Settings} :
    build t d = .ok s ↔ ∃ f project, d.Reads t f ∧ d.project = some project ∧
      resolveProject t project = .ok s.project ∧ s.Layered d.choices f ∧ s.Fit := by
  constructor
  · intro h
    have hread : ∃ f, d.Reads t f := by
      simp only [Draft.reads_iff]
      cases hload : d.file.elim (.ok {}) (File.load t) with
      | ok f => exact ⟨f,rfl⟩
      | error e =>
        simp only [build,hload,bind,Except.bind] at h
        cases h
    obtain ⟨f,hf⟩ := hread
    rw [build_of_reads hf] at h
    split at h
    · cases h
    rename_i project hproject
    cases hpath : resolveProject t project with
    | error e =>
      rw [hpath] at h
      cases h
    | ok path =>
      rw [hpath] at h
      obtain ⟨rfl,hfit⟩ := check_eq_ok_iff.mp h
      exact ⟨f,project,hf,hproject,hpath,layered_ofChoices path d.choices f,hfit⟩
  · rintro ⟨f,project,hf,hproject,hpath,hlayered,hfit⟩
    rw [build_of_reads hf,hproject]
    simp only [hpath,Except.bind]
    rw [← hlayered.eq_ofChoices]
    exact check_eq_ok_iff.mpr ⟨rfl,hfit⟩

/-- Files that differ only in settings that were chosen anyway. -/
structure File.Agree (f f' : File) (c : Choices) : Prop where
  choices : ∀ {α : Type} (x : Setting α), x.choice f.choices = x.choice f'.choices ∨
    (x.choice c).isSome
  models : f.models = f'.models
  logTokens : f.logTokens = f'.logTokens

theorem File.Agree.orElse_eq {f f' : File} {c : Choices} (h : f.Agree f' c) :
    c.orElse f.choices = c.orElse f'.choices := by
  apply Choices.ext_settings
  intro α x
  rw [x.choice_orElse,x.choice_orElse]
  rcases h.choices x with heq | hc
  · rw [heq]
  · rw [Option.or_of_isSome hc,Option.or_of_isSome hc]

theorem resolveProject_eq {t t' : FileTree} (h : t.SameShape t') (project : String) :
    resolveProject t' project = resolveProject t project := by
  simp only [resolveProject,h.canonical,h.isDir]

theorem build_eq_of_agree {t t' : FileTree} {d d' : Draft} {f f' : File} (h : t.SameShape t')
    (hproject : d'.project = d.project) (hchoices : d'.choices = d.choices) (hf : d.Reads t f)
    (hf' : d'.Reads t' f') (hagree : f.Agree f' d.choices) : build t' d' = build t d := by
  have hof : ∀ path, ofChoices path (d.choices.orElse f'.choices) f' =
      ofChoices path (d.choices.orElse f.choices) f := by
    intro path
    rw [← hagree.orElse_eq]
    simp only [ofChoices,hagree.models,hagree.logTokens]
  rw [build_of_reads hf',build_of_reads hf,hproject,hchoices]
  simp only [resolveProject_eq h,hof]

/-- The option of the command line that chooses a setting. -/
def Setting.switch? {α : Type} : Setting α → Option CommandLine.Switch
  | .sessionRoot => some (.value .output)
  | .workers => some (.value .workers)
  | .selector => some (.value .model)
  | .templateDir => some (.value .templates)
  | .verbose => some .verbose
  | _ => none

theorem Setting.switch?_of_choice {i : CommandLine.Invocation} {α : Type} {x : Setting α} {a : α}
    (h : x.choice (Draft.ofInvocation i).choices = some a) :
    ∃ switch, x.switch? = some switch ∧ i.Holds switch := by
  cases x
  case sessionRoot | workers | selector => exact ⟨_,rfl,a,h⟩
  case templateDir =>
    obtain ⟨dir,hdir,_⟩ := Option.map_eq_some_iff.mp h
    exact ⟨_,rfl,dir,hdir⟩
  case verbose =>
    rw [choice,Draft.ofInvocation] at h
    split at h
    · rename_i hon
      exact ⟨_,rfl,hon⟩
    · cases h
  all_goals cases h

/-- An option that is absent from the command line leaves its setting to the file. -/
theorem value_of_not_given {t : FileTree} {args : List String} {i : CommandLine.Invocation} {f : File}
    {s : Settings} (hi : CommandLine.parse args = .ok i) (hf : (Draft.ofInvocation i).Reads t f)
    (hs : build t (.ofInvocation i) = .ok s) {α : Type} (x : Setting α)
    (hx : ∀ switch, x.switch? = some switch → ∀ arg ∈ args, switch ∉ CommandLine.given arg) :
    x.value s = (x.choice f.choices).getD x.standard := by
  have hnone : x.choice (Draft.ofInvocation i).choices = none := by
    rw [Option.eq_none_iff_forall_ne_some]
    intro a ha
    obtain ⟨switch,hswitch,hholds⟩ := Setting.switch?_of_choice ha
    obtain ⟨arg,harg,hgiven⟩ := CommandLine.parse_given hi hholds
    exact hx switch hswitch arg harg hgiven
  obtain ⟨f',_,hf',_,_,hlayered,_⟩ := build_eq_ok_iff.mp hs
  obtain rfl : f' = f := Except.ok.inj ((Draft.reads_iff.mp hf').symm.trans (Draft.reads_iff.mp hf))
  cases hc : x.choice f'.choices with
  | some a => exact hlayered.filed x a hnone hc
  | none => exact hlayered.standard x hnone hc

/-- Settings in layers, for every draft, file and command line. The settings that are made are those that
the layers give, and they are fit for a run; what files say about settings that the draft chooses makes
no difference to them, nor to the error; and an option that is absent from the command line leaves its
setting to the file. -/
theorem build_layered :
    (∀ t d s, build t d = .ok s ↔ ∃ f project, d.Reads t f ∧ d.project = some project ∧
      resolveProject t project = .ok s.project ∧ s.Layered d.choices f ∧ s.Fit) ∧
    (∀ (t t' : FileTree) (d : Draft) (path : Option String) (f f' : File), t.SameShape t' →
      d.Reads t f → { d with file := path }.Reads t' f' → f.Agree f' d.choices →
      build t' { d with file := path } = build t d) ∧
    ∀ t args i f s, CommandLine.parse args = .ok i → (Draft.ofInvocation i).Reads t f →
      build t (.ofInvocation i) = .ok s → ∀ {α : Type} (x : Setting α),
      (∀ switch, x.switch? = some switch → ∀ arg ∈ args, switch ∉ CommandLine.given arg) →
      x.value s = (x.choice f.choices).getD x.standard := by
  refine ⟨fun _ _ _ => build_eq_ok_iff,?_,?_⟩
  · intro t t' d path f f' h hf hf' hagree
    exact build_eq_of_agree h rfl rfl hf hf' hagree
  · intro t args i f s hi hf hs α x hx
    exact value_of_not_given hi hf hs x hx

deriving instance DecidableEq for Choices

deriving instance DecidableEq for File

theorem ok_of_toOption {ε α : Type} {x : Except ε α} {a : α} (h : x.toOption = some a) : x = .ok a := by
  cases x with
  | error e => cases h
  | ok b => exact congrArg Except.ok (Option.some.inj h)

/-- A project directory, and a configuration file that asks for a number of workers and for a verbose
run. -/
def desk (workers : Nat) : FileTree where
  entries := [(["p"],.dir),(["c.json"],
    .file ("\x7b\"workers\": " ++ toString workers ++ ", \"verbose\": true\x7d").toUTF8 false)]
  cwd := []

def deskFile (workers : Nat) : File where
  choices := { workers := some workers, verbose := some true }

def deskInvocation : CommandLine.Invocation where
  project := "/p"
  config := some "/c.json"
  workers := some 2

/-- A number of workers that no run can have does no harm in a file, when the command line has another
one. Whether the run is verbose is left to the file. -/
theorem build_layered_overridden :
    CommandLine.parse ["-p","/p","-c","/c.json","-j","2"] = .ok deskInvocation ∧
      ∃ s, build (desk 0) (.ofInvocation deskInvocation) = .ok s ∧
        build (desk 7) (.ofInvocation deskInvocation) = .ok s ∧ s.workers = 2 ∧ s.verbose = true ∧
        s.Fit := by
  obtain ⟨hmade,hsame,habsent⟩ := build_layered
  have hi : CommandLine.parse ["-p","/p","-c","/c.json","-j","2"] = .ok deskInvocation :=
    ok_of_toOption (by decide +kernel)
  have hidle : (Draft.ofInvocation deskInvocation).Reads (desk 0) (deskFile 0) :=
    ok_of_toOption (x := File.load (desk 0) "/c.json") (by decide +kernel)
  have hbusy : (Draft.ofInvocation deskInvocation).Reads (desk 7) (deskFile 7) :=
    ok_of_toOption (x := File.load (desk 7) "/c.json") (by decide +kernel)
  have hshape : (desk 0).SameShape (desk 7) := FileTree.sameShape_put ["c.json"] rfl
  have hagree : (deskFile 0).Agree (deskFile 7) (Draft.ofInvocation deskInvocation).choices := by
    refine ⟨?_,rfl,rfl⟩
    intro α x
    cases x
    case workers => exact .inr rfl
    all_goals exact .inl rfl
  have hbuilt : (build (desk 0) (.ofInvocation deskInvocation)).toOption.isSome := by
    decide +kernel
  obtain ⟨s,hs⟩ := Option.isSome_iff_exists.mp hbuilt
  have hs := ok_of_toOption hs
  obtain ⟨f,_,_,_,_,hlayered,hfit⟩ := (hmade _ _ _).mp hs
  refine ⟨hi,s,hs,?_,hlayered.chosen .workers 2 rfl,?_,hfit⟩
  · rw [← hs]
    exact hsame _ _ (.ofInvocation deskInvocation) _ _ _ hshape hidle hbusy hagree
  · refine habsent _ _ _ _ s hi hidle hs .verbose ?_
    rintro switch ⟨⟩
    decide +kernel

end EndpointAudit.Settings
