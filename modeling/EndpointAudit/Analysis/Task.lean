import EndpointAudit.CallLog
import EndpointAudit.Model.Generation
import EndpointAudit.Toolchain
import EndpointAudit.World

namespace EndpointAudit.Analysis

/-- What remains of a task: its end, or a request and what is done with the answer. -/
inductive Task (α : Type)
  | done (a : α)
  | failed (e : Error)
  | crashed (message : String)
  /-- Reads the code at a position; without it the task fails. -/
  | readSpan (position : String) (next : String → Task α)
  /-- Looks up a symbol; a failure is up to the task, and a crash brings it down. -/
  | lookUp (symbol : String) (next : Except Error String → Task α)
  /-- Asks the model about the endpoint at a place of the list; without a completion the task
  fails. -/
  | generate (index : Nat) (g : Model.Generation) (next : String → Task α)
  | note (entry : CallLog.Entry) (next : Task α)

namespace Task

def bind (t : Task α) (f : α → Task β) : Task β :=
  match t with
  | .done a => f a
  | .failed e => .failed e
  | .crashed message => .crashed message
  | .readSpan position next => .readSpan position fun code => (next code).bind f
  | .lookUp symbol next => .lookUp symbol fun answer => (next answer).bind f
  | .generate index g next => .generate index g fun text => (next text).bind f
  | .note entry next => .note entry (next.bind f)

instance : Monad Task where
  pure := .done
  bind := Task.bind

end Task

inductive Ending (α : Type)
  | done (a : α)
  | failed (e : Error)
  | crashed (message : String)

def Ending.result? : Ending α → Option α
  | .done a => some a
  | _ => none

structure Services where
  root : String
  lookup : String → String → FileTree → LookupAnswer
  generator : Model.Generator
  callDir : Option String

namespace Services

def code (s : Services) (position : String) (w : World) : Except Error String :=
  CodeSpan.extract w.files s.root position

/-- The answer of a lookup, or else the message of its crash. -/
def definition (s : Services) (symbol : String) (w : World) :
    Except String (Except Error String) × World :=
  let r := s.lookup s.root symbol w.files
  (r.crash.elim (.ok r.answer) .error,
    { w with files := r.files, cancelled := w.cancelled || r.stops })

/-- The model knows all requests that it had before. -/
def answer (s : Services) (index : Nat) (g : Model.Generation) (w : World) :
    Model.Outcome × World :=
  let r := s.generator (w.calls.map Model.Call.generation) g
  (r.outcome,{
    w with
    calls := w.calls ++ [⟨index,g,r.outcome⟩]
    cancelled := w.cancelled || r.stops })

/-- Every call is counted; one that cannot be written is lost without harm to the task. -/
def log (s : Services) (e : CallLog.Entry) (w : World) : World :=
  match s.callDir with
  | none => w
  | some dir =>
    let w := { w with logged := w.logged + 1 }
    match CallLog.write w.files dir w.clock.time w.logged e with
    | .ok (_,files) => { w with files }
    | .error _ => w

end Services

namespace Task

def step (s : Services) (t : Task α) (w : World) : Task α × World :=
  match t with
  | .done a => (.done a,w)
  | .failed e => (.failed e,w)
  | .crashed message => (.crashed message,w)
  | .readSpan position next =>
    match s.code position w with
    | .ok code => (next code,w)
    | .error e => (.failed e,w)
  | .lookUp symbol next =>
    match s.definition symbol w with
    | (.ok answer,w) => (next answer,w)
    | (.error message,w) => (.crashed message,w)
  | .generate index g next =>
    match s.answer index g w with
    | (.completion text,w) => (next text,w)
    | (.failed e,w) => (.failed e,w)
    | (.crashed message,w) => (.crashed message,w)
  | .note entry next => (next,s.log entry w)

def ending? : Task α → Option (Ending α)
  | .done a => some (.done a)
  | .failed e => some (.failed e)
  | .crashed message => some (.crashed message)
  | _ => none

def run (s : Services) (t : Task α) (w : World) : Ending α × World :=
  match t with
  | .done a => (.done a,w)
  | .failed e => (.failed e,w)
  | .crashed message => (.crashed message,w)
  | .readSpan position next =>
    match s.code position w with
    | .ok code => (next code).run s w
    | .error e => (.failed e,w)
  | .lookUp symbol next =>
    match s.definition symbol w with
    | (.ok answer,w) => (next answer).run s w
    | (.error message,w) => (.crashed message,w)
  | .generate index g next =>
    match s.answer index g w with
    | (.completion text,w) => (next text).run s w
    | (.failed e,w) => (.failed e,w)
    | (.crashed message,w) => (.crashed message,w)
  | .note entry next => next.run s (s.log entry w)

end Task

end EndpointAudit.Analysis
