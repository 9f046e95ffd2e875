import EndpointAudit.FileTree
import EndpointAudit.Json.Fault

namespace EndpointAudit

inductive Error
  | io (path : String) (fault : IoFault)
  | json (context : String) (fault : Json.Fault)
  | config (reason : String)
  | unknownModel (selector : String)
  | unsupportedProject (kind : String)
  /-- A code position that does not name a file and a range of lines. -/
  | spanFormat (position reason : String)
  | spanMissing (path : String)
  | template (name reason : String)
  | extraction (reason : String)
  | lookup (symbol reason : String)
  | generation (reason : String)
  | graph (reason : String)
  | iterationLimit (cap : Nat)
  | interrupted
deriving DecidableEq, Repr

namespace Error

def faultText : Json.Fault → String
  | .ended => "the input ended too early"
  | .malformed => "the input is not JSON"
  | .mismatched => "the document has another shape"

def message : Error → String
  | .io path fault => "I/O error accessing path '" ++ path ++ "': " ++ fault.message
  | .json context fault => "JSON error in " ++ context ++ ": " ++ faultText fault
  | .config reason => "Invalid configuration: " ++ reason
  | .unknownModel selector => "Unsupported model: " ++ selector
  | .unsupportedProject kind => "Unsupported project type: " ++ kind
  | .spanFormat position reason => "Malformed slice descriptor '" ++ position ++ "': " ++ reason
  | .spanMissing path => "Source file for slice not found: " ++ path
  | .template name reason => "Failed to load prompt template '" ++ name ++ "': " ++ reason
  | .extraction reason => "Extraction failed: " ++ reason
  | .lookup symbol reason => "Definition lookup for '" ++ symbol ++ "' failed: " ++ reason
  | .generation reason => "Text generation failed: " ++ reason
  | .graph reason => "Invalid stage graph: " ++ reason
  | .iterationLimit cap =>
    "Stage graph exceeded the limit of " ++ toString cap ++ " stage executions"
  | .interrupted => "Operation cancelled by user (Ctrl+C)"

/-- Failures of a single lookup, completion or document leave the rest of the run intact. -/
def isFatal : Error → Bool
  | .lookup .. => false
  | .generation _ => false
  | .json .. => false
  | _ => true

end Error

end EndpointAudit
