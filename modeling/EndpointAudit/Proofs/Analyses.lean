import EndpointAudit.Analysis.Endpoint
import EndpointAudit.Proofs.Lines
import EndpointAudit.Proofs.TaskSteps

namespace EndpointAudit.Analysis

/-- Lookups that answer or fail, but do not bring down the task. -/
def Services.Answering (s : Services) : Prop :=
  ∀ symbol t, (s.lookup s.root symbol t).crash = none

/-- What is answered to lookups one after the other, each in the files that the one before it left. -/
def Services.answers (s : Services) : List String → World → List (Except Error String)
  | [],_ => []
  | symbol :: symbols,w =>
    (s.lookup s.root symbol w.files).answer :: s.answers symbols (s.definition symbol w).2

/-- The world that these lookups leave. -/
def Services.searched (s : Services) (symbols : List String) (w : World) : World :=
  symbols.foldl (fun w symbol => (s.definition symbol w).2) w

/-- The code that an answer has for its symbol. -/
def offered? : Except Error String → Option String
  | .ok raw =>
    match Definition.candidates raw with
    | .ok (candidate :: _) => some candidate.code
    | _ => none
  | .error _ => none

/-- One block for each symbol whose answer has code for it, in the order of the symbols. -/
def blocks (symbols : List String) (answers : List (Except Error String)) : List String :=
  (symbols.zip answers).filterMap fun (symbol,answer) =>
    (offered? answer).map fun code => "// Definition for " ++ symbol ++ "\n" ++ code ++ "\n"

/-- What the model is asked about an endpoint. -/
def Plan.generation (p : Plan) (e : Endpoint) (code definitions : String) : Model.Generation where
  prompt := p.template.fill (params p e code definitions)
  selector := p.selector
  temperature := p.temperature
  systemRole := p.role

/-- What is noted of a completion. -/
def noteOf (e : Endpoint) (g : Model.Generation) (text : String) : CallLog.Entry where
  endpoint := e
  systemRole := g.systemRole
  prompt := g.prompt
  response := text

/-- What an analysis makes of a completion. -/
def findingOf (index : Nat) (e : Endpoint) (text : String) : Finding where
  index := index
  endpoint := e
  text := text
  verdict := Completion.verdict text

/-- How an analysis ends that is answered by the model. -/
def Services.ending (s : Services) (index : Nat) (e : Endpoint) (g : Model.Generation) :
    Model.Outcome × World → Ending Finding × World
  | (.completion text,w) => (.done (findingOf index e text),s.log (noteOf e g text) w)
  | (.failed err,w) => (.failed err,w)
  | (.crashed message,w) => (.crashed message,w)

theorem resolve_eq_ok_iff {symbol code : String} {answer : Except Error String} :
    Definition.resolve symbol answer = .ok (some code) ↔ offered? answer = some code := by
  cases answer with
  | error e => exact ⟨nofun,nofun⟩
  | ok raw =>
    simp only [Definition.resolve,offered?,bind,Except.bind]
    cases hraw : Definition.candidates raw with
    | error f => simp
    | ok candidates => cases candidates <;> simp

namespace Task

variable {s : Services} {w : World}

theorem run_bind (t : Task α) (f : α → Task β) (s : Services) (w : World) :
    (t >>= f).run s w =
      match t.run s w with
      | (.done a,w) => (f a).run s w
      | (.failed e,w) => (.failed e,w)
      | (.crashed message,w) => (.crashed message,w) := by
  change (t.bind f).run s w = _
  induction t generalizing w with
  | done a | failed e | crashed message => rfl
  | readSpan position next ih =>
    simp only [Task.bind,Task.run]
    cases s.code position w with
    | ok code => exact ih code w
    | error e => rfl
  | lookUp symbol next ih =>
    simp only [Task.bind,Task.run]
    rcases s.definition symbol w with ⟨answer | answer,w'⟩
    · rfl
    · exact ih answer w'
  | generate index g next ih =>
    simp only [Task.bind,Task.run]
    rcases s.answer index g w with ⟨text | e | message,w'⟩
    · exact ih text w'
    · rfl
    · rfl
  | note entry next ih => exact ih (s.log entry w)

theorem run_bind_done {t : Task α} {a : α} {w' : World} (h : t.run s w = (.done a,w'))
    (f : α → Task β) : (t >>= f).run s w = (f a).run s w' := by
  rw [run_bind,h]

end Task

variable {s : Services} {w : World}

theorem Services.Answering.definition_eq (hs : s.Answering) (symbol : String) (w : World) :
    s.definition symbol w =
      (.ok (s.lookup s.root symbol w.files).answer,(s.definition symbol w).2) := by
  refine Prod.ext ?_ rfl
  simp only [Services.definition,hs symbol w.files,Option.elim_none]

theorem blocks_cons (symbol : String) (symbols : List String) (answer : Except Error String)
    (answers : List (Except Error String)) : blocks (symbol :: symbols) (answer :: answers) =
      ((offered? answer).map (definitionBlock symbol)).toList ++ blocks symbols answers := by
  simp only [blocks,List.zip_cons_cons,List.filterMap_cons]
  cases offered? answer with
  | none => rfl
  | some code => rfl

/-- A symbol without code leaves the blocks of the others as they are. -/
theorem run_gather (hs : s.Answering) (symbols : List String) (w : World) :
    (gather symbols).run s w =
      (.done (String.join (blocks symbols (s.answers symbols w))),s.searched symbols w) := by
  induction symbols generalizing w with
  | nil => rfl
  | cons symbol symbols ih =>
    simp only [gather,Task.run]
    rw [hs.definition_eq]
    simp only [Task.run_bind_done (ih _),Services.answers,blocks_cons]
    cases hcode : offered? (s.lookup s.root symbol w.files).answer with
    | some code =>
      rw [resolve_eq_ok_iff.mpr hcode]
      simp only [Option.map_some,Option.toList_some,List.singleton_append,String.join_cons]
      rfl
    | none =>
      cases hresolve : Definition.resolve symbol (s.lookup s.root symbol w.files).answer with
      | error e => rfl
      | ok found =>
        cases found with
        | none => rfl
        | some code =>
          rw [resolve_eq_ok_iff.mp hresolve] at hcode
          cases hcode

theorem searched_calls (symbols : List String) (w : World) :
    (s.searched symbols w).calls = w.calls := by
  induction symbols generalizing w with
  | nil => rfl
  | cons symbol symbols ih => exact ih _

theorem searched_logged (symbols : List String) (w : World) :
    (s.searched symbols w).logged = w.logged := by
  induction symbols generalizing w with
  | nil => rfl
  | cons symbol symbols ih => exact ih _

theorem params_definitions (p : Plan) (e : Endpoint) (code definitions : String) :
    (params p e code definitions).get? "CONTEXT_INFO" = some definitions := by
  simp [params,Prompt.Params.ofList,Prompt.Params.set,Prompt.Params.setEntry,Prompt.Params.get?,
    List.lookup_cons]

section analysis

variable (plan : Plan) (index : Nat) (e : Endpoint)

theorem run_unreadable {err : Error} (h : CodeSpan.extract w.files s.root e.position = .error err) :
    (analyze plan index e).step s w = (.failed err,w) ∧
      (analyze plan index e).run s w = (.failed err,w) := by
  have hread : s.code e.position w = .error err := h
  constructor <;> simp [analyze,prompt,bind,Task.bind,Task.step,Task.run,hread]

/-- Once the code is read, the model is asked, with all that the lookups found. -/
theorem run_readable (hs : s.Answering) {code : String}
    (h : CodeSpan.extract w.files s.root e.position = .ok code) :
    let g := plan.generation e code (String.join (blocks e.symbols (s.answers e.symbols w)))
    (analyze plan index e).run s w =
      s.ending index e g (s.answer index g (s.searched e.symbols w)) := by
  intro g
  have hread : s.code e.position w = .ok code := h
  have hprompt : (prompt plan e).run s w = (.done g.prompt,s.searched e.symbols w) := by
    simp only [prompt,Task.run,hread]
    exact Task.run_bind_done (run_gather hs e.symbols w) _
  have hsame : (⟨g.prompt,plan.selector,plan.temperature,plan.role⟩ : Model.Generation) = g := rfl
  rw [analyze,Task.run_bind_done hprompt,hsame]
  simp only [Task.run]
  rcases s.answer index g (s.searched e.symbols w) with ⟨text | err | message,w'⟩ <;> rfl

/-- An analysis fails just if the code cannot be read, before anything else is done, or if the model fails,
without an entry in the log. Otherwise it is done with the completion, whether or not that can be logged. The
model is asked with the definitions of just those symbols for which there are candidates. -/
theorem analyze_ends (hs : s.Answering) (w : World) :
    let definitions := String.join (blocks e.symbols (s.answers e.symbols w))
    let g (code : String) := plan.generation e code definitions
    let asked (code : String) := s.answer index (g code) (s.searched e.symbols w)
    let ended := (analyze plan index e).run s w
    (∀ err, ended.1 = .failed err ↔ CodeSpan.extract w.files s.root e.position = .error err ∨
      ∃ code, CodeSpan.extract w.files s.root e.position = .ok code ∧
        (asked code).1 = .failed err) ∧
    (∀ f, ended.1 = .done f ↔ ∃ code text,
      CodeSpan.extract w.files s.root e.position = .ok code ∧
        (asked code).1 = .completion text ∧ f = findingOf index e text) ∧
    (∀ err, CodeSpan.extract w.files s.root e.position = .error err →
      (analyze plan index e).step s w = (.failed err,w) ∧ ended.2 = w) ∧
    (∀ code, CodeSpan.extract w.files s.root e.position = .ok code →
      ended.2.calls = w.calls ++ [⟨index,g code,(asked code).1⟩] ∧
      (∀ err, (asked code).1 = .failed err → ended.2 = (asked code).2 ∧
        ended.2.logged = w.logged ∧ ended.2.files = (s.searched e.symbols w).files) ∧
      ∀ text, (asked code).1 = .completion text →
        ended.2 = s.log (noteOf e (g code) text) (asked code).2) ∧
    (∀ code, (g code).prompt = plan.template.fill (params plan e code definitions) ∧
      (params plan e code definitions).get? "CONTEXT_INFO" = some definitions) := by
  intro definitions g asked ended
  have hprompt (code : String) : (g code).prompt = plan.template.fill (params plan e code definitions) ∧
      (params plan e code definitions).get? "CONTEXT_INFO" = some definitions :=
    ⟨rfl,params_definitions plan e code definitions⟩
  cases hread : CodeSpan.extract w.files s.root e.position with
  | error err =>
    obtain ⟨hstep,hrun⟩ := run_unreadable plan index e hread
    have hended : ended = (.failed err,w) := hrun
    simp only [hended,hstep,reduceCtorEq,false_and,exists_false,or_false]
    simp [eq_comm,hprompt]
  | ok code =>
    have hrun : ended = s.ending index e (g code) (asked code) := run_readable plan index e hs hread
    rcases hasked : asked code with ⟨outcome,w'⟩
    have hcalls : w'.calls = w.calls ++ [⟨index,g code,outcome⟩] := by
      rw [Services.answer_calls hasked,searched_calls]
    have hlogged : w'.logged = w.logged := by
      rw [← searched_logged (s := s) e.symbols w]
      exact congrArg (·.2.logged) hasked.symm
    have hfiles : w'.files = (s.searched e.symbols w).files := Services.answer_files hasked
    rw [hasked] at hrun
    cases outcome with
    | completion text => simp [hrun,Services.ending,hasked,hprompt,Services.log_calls,hcalls,eq_comm]
    | failed err => simp [hrun,Services.ending,hasked,hprompt,hcalls,hlogged,hfiles,eq_comm]
    | crashed message => simp [hrun,Services.ending,hasked,hprompt,hcalls]

end analysis

/-- One symbol is known twice, one not at all, one lookup fails, one answer is no list, and one is known. The
log has no place for its files. -/
def patchy : Services where
  root := "p"
  lookup _ symbol t :=
    let answer : Except Error String :=
      if symbol = "User" then .ok "[\x7b\"definition_code\":\"U\"\x7d,\x7b\"definition_code\":\"V\"\x7d]\n"
      else if symbol = "Role" then .ok "[]"
      else if symbol = "Gone" then .error (.lookup symbol "not indexed")
      else if symbol = "Item" then .ok "[\x7b\"definition_code\":\"I\"\x7d]"
      else .ok "[1]"
    { answer, files := t }
  generator _ _ := { outcome := .completion "\x7b\"status\":\"fail\"\x7d" }
  callDir := some "p/A.java"

def ordered : Endpoint where
  position := "A.java:L0-L1"
  references := ["Gone","User","Role","Odd","Item"]

def shown : Plan where
  projectKind := "Java"
  template := { name := "shown", user := "<FUNCTION>|<CONTEXT_INFO>" }
  selector := "m"
  temperature := 0
  systemRole := ""

def quiet : World where
  files := CodeSpan.pageTree
  clock := ⟨"",""⟩

/-- The two symbols that are known are shown, in their order. -/
theorem analyze_ends_patchy : patchy.Answering ∧
    let ended := (analyze shown 7 ordered).run patchy quiet
    ended.1 = .done ⟨7,ordered,"\x7b\"status\":\"fail\"\x7d",.fail⟩ ∧ ended.2.files = quiet.files ∧
      ended.2.calls.map (·.generation.prompt) =
        ["a\r\n|// Definition for User\nU\n// Definition for Item\nI\n"] := by
  have hs : patchy.Answering := fun _ _ => rfl
  have hcode : CodeSpan.extract quiet.files patchy.root ordered.position = .ok "a\r\n" := by
    have htext : CodeSpan.toText ⟨"A.java",0,1⟩ = "A.java:L0-L1" := by decide +kernel
    have hlines : String.ofList (((Text.linesOf "a\r\n\n\rb".toList).drop 0).take (1 - 0)).flatten =
        "a\r\n" := by decide +kernel
    change CodeSpan.extract CodeSpan.pageTree "p" "A.java:L0-L1" = _
    rw [← htext,CodeSpan.extract_toText CodeSpan.pageTree_read (by decide) (by omega) (by omega),hlines]
  have hblocks : blocks ordered.symbols (patchy.answers ordered.symbols quiet) =
      ["// Definition for User\nU\n","// Definition for Item\nI\n"] := by decide +kernel
  have hverdict : Completion.verdict "\x7b\"status\":\"fail\"\x7d" = .fail := by decide +kernel
  obtain ⟨_,hdone,_,hread,hprompt⟩ := analyze_ends shown 7 ordered hs quiet
  obtain ⟨hcalls,_,hended⟩ := hread _ hcode
  rw [hblocks] at hcalls hprompt hdone hended
  refine ⟨hs,(hdone _).mpr ⟨_,_,hcode,rfl,?_⟩,?_,?_⟩
  · rw [findingOf,hverdict]
  · rw [hended _ rfl]
    rfl
  · rw [hcalls]
    exact congrArg (fun p => [p]) ((hprompt _).1.trans (by decide +kernel))

end EndpointAudit.Analysis
