import EndpointAudit.Analysis.Task
import EndpointAudit.Completion
import EndpointAudit.Prompt.Template

namespace EndpointAudit.Analysis

structure Plan where
  projectKind : String
  template : Prompt.Template
  selector : String
  temperature : Float32
  /-- Used where the template has no system prompt. -/
  systemRole : String

def definitionBlock (symbol code : String) : String :=
  "// Definition for " ++ symbol ++ "\n" ++ code ++ "\n"

/-- The definitions of symbols, one block after the other. A symbol without a definition, or whose
lookup fails, adds nothing. -/
def gather : List String → Task String
  | [] => .done ""
  | symbol :: symbols =>
    .lookUp symbol fun answer => do
      let rest ← gather symbols
      match Definition.resolve symbol answer with
      | .ok (some code) => .done (definitionBlock symbol code ++ rest)
      | _ => .done rest

def params (p : Plan) (e : Endpoint) (code definitions : String) : Prompt.Params :=
  Prompt.Params.ofList [("PROJECT_TYPE",p.projectKind),("HTTP_METHOD",e.method),
    ("SRC_NAME",e.request.path),("SRC_LINE",e.position),("FUNCTION",code),
    ("CONTEXT_INFO",definitions)]

def prompt (p : Plan) (e : Endpoint) : Task String :=
  .readSpan e.position fun code => do
    let definitions ← gather e.symbols
    return p.template.fill (params p e code definitions)

def Plan.role (p : Plan) : String :=
  p.template.system.getD p.systemRole

def analyze (p : Plan) (index : Nat) (e : Endpoint) : Task Finding := do
  let prompt ← prompt p e
  let g : Model.Generation :=
    { prompt, selector := p.selector, temperature := p.temperature, systemRole := p.role }
  .generate index g fun text =>
    .note { endpoint := e, systemRole := p.role, prompt, response := text }
      (.done { index, endpoint := e, text, verdict := Completion.verdict text })

end EndpointAudit.Analysis
