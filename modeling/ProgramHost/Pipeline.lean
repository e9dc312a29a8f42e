import ProgramHost.Compile.Flight
/-!
# The pipeline

A pipeline compiles and runs programs for its users with one parser, one
compiler and one choice of settings. A call is served to its end, or it is
started, polled and perhaps dropped; calls that were started overlap as they are
polled. The journal of a session holds all that happened; besides it the session
keeps the modules that were compiled and the calls that are not over.
-/

namespace ProgramHost

/-- The collaborators of a pipeline and its settings. They are the same for every call, and the
compiler is known by what it does in the context of each number. -/
structure Pipeline where
  parser : Parser
  compiler : Compiler
  settings : Settings

/-- What can be asked of a pipeline. A compiled module is kept under a name. -/
inductive Call where
  | compile (source name : String)
  | run (name : String)
  | evaluate (source : String)
  deriving DecidableEq, Repr

inductive Result where
  | module
  | value (v : Value)
  | compileError (e : CompileError)
  | runError (e : RunError)
  | evalError (e : EvalError)
  | panic (message : String)
  | noModule
  deriving DecidableEq, Repr

/-- What a compilation is for. -/
inductive Purpose where
  | keep (name : String)
  | evaluate
  deriving DecidableEq, Repr

/-- A call that was started and is not over. Before its first poll nothing has happened for it;
from then on its context is live, until it ends or is dropped. -/
inductive Pending where
  | waiting (sink : String) (c : Call)
  | flying (f : Flight) (p : Purpose)

inductive Step where
  | serve (sink : String) (c : Call)
  | start (sink : String) (id : String) (c : Call)
  | poll (id : String)
  | drop (id : String)
  | look (sink : String)
  deriving DecidableEq, Repr

/-- The answer to a request. A call that is served says how often it was polled. -/
inductive Answer where
  | served (r : Result) (polls : Nat)
  | started
  | pending
  | finished (r : Result)
  | nothing
  | dropped (existed : Bool)
  | contents (ds : List Diagnostic)
  deriving DecidableEq, Repr

/-- The state of a pipeline between requests. What the sinks hold and which contexts are live is
not kept besides the journal but read off it, so they cannot disagree. -/
structure Session where
  journal : Journal
  modules : List (String × Program.Executable)
  pending : List (String × Pending)

namespace Session

def initial : Session := ⟨[], [], []⟩

def nextId (σ : Session) : Nat := σ.journal.created.length

def log (σ : Session) (j : Journal) : Session :=
  { σ with journal := σ.journal ++ j }

def keep (σ : Session) (name : String) (x : Program.Executable) : Session :=
  { σ with modules := (name, x) :: σ.modules }

def pending? (σ : Session) (id : String) : Option Pending :=
  σ.pending.lookup id

def forget (σ : Session) (id : String) : Session :=
  { σ with pending := σ.pending.filter fun p => p.1 != id }

def suspend (σ : Session) (id : String) (p : Pending) : Session :=
  { σ.forget id with pending := (id, p) :: (σ.forget id).pending }

end Session

namespace Pipeline

def runResult : Except RunError Value → Result
  | .ok v => .value v
  | .error e => .runError e

def evalResult : Except RunError Value → Result
  | .ok v => .value v
  | .error e => .evalError (.run e)

/-- Goes on after a compilation: a module is kept or run, as was the purpose. -/
def conclude? (p : Pipeline) (fuel : Nat) (σ : Session) (sink : String) :
    Purpose → Compiled → Option (Result × Session)
  | .keep name, .module x => some (.module, σ.keep name x)
  | .keep _, .error e => some (.compileError e, σ)
  | .evaluate, .module x =>
      (Host.run? fuel p.settings sink x).map fun (j, r) => (evalResult r, σ.log j)
  | .evaluate, .error e => some (.evalError (.compile e), σ)
  | _, .panic message => some (.panic message, σ)

def compileFor? (p : Pipeline) (fuel : Nat) (σ : Session) (sink : String) (source : String)
    (purpose : Purpose) : Option (Result × Nat × Session) :=
  let (j, r, n) := compile p.parser p.compiler p.settings sink σ.nextId source
  (p.conclude? fuel (σ.log j) sink purpose r).map fun (r, σ) => (r, n + 1, σ)

def runKept? (p : Pipeline) (fuel : Nat) (σ : Session) (sink name : String) :
    Option (Result × Session) :=
  match σ.modules.lookup name with
  | none => some (.noModule, σ)
  | some x => (Host.run? fuel p.settings sink x).map fun (j, r) => (runResult r, σ.log j)

def serve? (p : Pipeline) (fuel : Nat) (σ : Session) (sink : String) :
    Call → Option (Result × Nat × Session)
  | .compile source name => p.compileFor? fuel σ sink source (.keep name)
  | .evaluate source => p.compileFor? fuel σ sink source .evaluate
  | .run name => (p.runKept? fuel σ sink name).map fun (r, σ) => (r, 1, σ)

/-- Takes a flight to its next pause or to its end. -/
def fly? (p : Pipeline) (fuel : Nat) (σ : Session) (id : String) (f : Flight)
    (purpose : Purpose) : Option (Answer × Session) :=
  match f.advance f.todo with
  | (j, g, true) => some (.pending, (σ.log j).suspend id (.flying g purpose))
  | (j, g, false) =>
      let (k, r) := g.settle
      (p.conclude? fuel ((σ.forget id).log (j ++ k)) f.sink purpose r).map
        fun (r, σ) => (.finished r, σ)

/-- Starts a compilation that was waiting and takes it to its next pause or to
its end. -/
def launch? (p : Pipeline) (fuel : Nat) (σ : Session) (id sink source : String)
    (purpose : Purpose) : Option (Answer × Session) :=
  match Flight.start p.parser p.compiler p.settings sink σ.nextId source with
  | (j, .ok f) => p.fly? fuel (σ.log j) id f purpose
  | (j, .error e) =>
      (p.conclude? fuel ((σ.forget id).log j) sink purpose (.error e)).map
        fun (r, σ) => (.finished r, σ)

def poll? (p : Pipeline) (fuel : Nat) (σ : Session) (id : String) :
    Option (Answer × Session) :=
  match σ.pending? id with
  | none => some (.nothing, σ)
  | some (.waiting sink (.compile source name)) =>
      p.launch? fuel σ id sink source (.keep name)
  | some (.waiting sink (.evaluate source)) => p.launch? fuel σ id sink source .evaluate
  | some (.waiting sink (.run name)) =>
      (p.runKept? fuel (σ.forget id) sink name).map fun (r, σ) => (.finished r, σ)
  | some (.flying f purpose) => p.fly? fuel σ id f purpose

/-- What happens when a pending call is dropped: a context that is live is
destroyed. -/
def dropEvents : Option Pending → Journal
  | some (.flying f _) => f.destroy
  | _ => []

/-- Answers one request; `none` if a program does not end within the fuel. A name that is started
again drops the call that was pending under it. -/
def step? (p : Pipeline) (fuel : Nat) (σ : Session) : Step → Option (Answer × Session)
  | .serve sink c =>
      (p.serve? fuel σ sink c).map fun (r, polls, σ) => (.served r polls, σ)
  | .start sink id c =>
      some (.started, (σ.log (dropEvents (σ.pending? id))).suspend id (.waiting sink c))
  | .poll id => p.poll? fuel σ id
  | .drop id =>
      some (.dropped (σ.pending? id).isSome, (σ.log (dropEvents (σ.pending? id))).forget id)
  | .look sink => some (.contents (σ.journal.sink sink), σ)

end Pipeline

end ProgramHost
