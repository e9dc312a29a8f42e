import ProgramHost.Compile.Script
/-!
# Compilations under way

A compilation parses the source text, serializes the tree, and then works in a
context of its own: the compiler makes its remarks one by one and may pause
between them. When the work is done the context is destroyed, and only then is
it seen whether any remark was an error; a module is validated only if none was.

A flight is a compilation whose context is live. It can be taken one act
further, be taken to its next pause or to its end, be settled once nothing is
left to do, and be abandoned at any time. Settling and abandoning both destroy
the context.
-/

namespace ProgramHost

/-- One thing that happens in a context. -/
inductive Act where
  | remark (r : Remark)
  | call
  | pause
  deriving DecidableEq, Repr

/-- What a compilation comes to. A panic of the compiler is no error of the compilation: it goes
on to the caller, once the context is destroyed. -/
inductive Compiled where
  | module (x : Program.Executable)
  | error (e : CompileError)
  | panic (message : String)

/-- A compilation whose context is live, with what it has to do yet. The flag says whether any
remark in this context was an error, and it is read only when the context is gone. -/
structure Flight where
  sink : String
  id : Nat
  tree : String
  options : String
  flagged : Bool
  todo : List Act
  product : Product
  onDestroy : List Remark

def Script.acts (s : Script) : List Act :=
  s.onCreate.map .remark ++ .call :: s.early.map .remark ++
    List.replicate s.pauses .pause ++ s.late.map .remark

namespace Flight

def heard (f : Flight) (r : Remark) : Event := .report f.sink r.diagnostic

def hear (f : Flight) (r : Remark) : Flight :=
  { f with flagged := f.flagged || r.isError }

/-- Parses and serializes the source text and creates the context `id`. -/
def start (parser : Parser) (compiler : Compiler) (s : Settings) (sink : String) (id : Nat)
    (source : String) : Journal × Except CompileError Flight :=
  let (ds, tree?) := parser source
  let parsed := .parse source :: ds.map (.report sink)
  match tree? with
  | none => (parsed, .error .unparsed)
  | some tree =>
      match tree.serialize with
      | .error e => (parsed, .error (.unserialized e))
      | .ok text =>
          let script := compiler id
          (parsed ++ [.note (.serialized text.utf8ByteSize), .note .creating, .create id],
            .ok {
              sink := sink
              id := id
              tree := text
              options := s.compileOptions
              flagged := false
              todo := script.acts
              product := script.product
              onDestroy := script.onDestroy })

def actEvents (f : Flight) : Act → Journal
  | .remark r => [f.heard r]
  | .call => [.compile f.id f.tree f.options]
  | .pause => []

def afterAct (f : Flight) : Act → Flight
  | .remark r => f.hear r
  | .call => f
  | .pause => f

/-- Goes on to the next pause: what happens, the flight then, and whether it
pauses there. Otherwise nothing is left to do. -/
def advance (f : Flight) : List Act → Journal × Flight × Bool
  | [] => ([], { f with todo := [] }, false)
  | .pause :: rest => ([], { f with todo := rest }, true)
  | a :: rest =>
      let (j, g) := (f.afterAct a).advance rest
      (f.actEvents a ++ j, g)

/-- Goes on until nothing is left to do: what happens, the flight then, and the
number of pauses on the way. -/
def complete (f : Flight) : List Act → Journal × Flight × Nat
  | [] => ([], { f with todo := [] }, 0)
  | a :: rest =>
      let (j, g, n) := (f.afterAct a).complete rest
      (f.actEvents a ++ j, g, if a = .pause then n + 1 else n)

def afterDestroy (f : Flight) : Flight :=
  f.onDestroy.foldl hear f

def destroy (f : Flight) : Journal :=
  .note .destroying :: f.onDestroy.map f.heard ++ [.destroy f.id]

/-- Destroys the context and sees what the work came to. Remarks that are made during the
destruction count as well: the flag is read after them, and validation comes last. -/
def settle (f : Flight) : Journal × Compiled :=
  match f.product with
  | .panic message => (f.destroy, .panic message)
  | .complaint c => (f.destroy, .error (.backend c))
  | .module b =>
      let produced := f.destroy ++ [.note (.produced b.size?)]
      if f.afterDestroy.flagged then (produced, .error .flagged)
      else
        match Host.accept f.sink b with
        | (j, .ok x) => (produced ++ j, .module x)
        | (j, .error e) => (produced ++ j, .error e)

end Flight

/-- A whole compilation in the context `id`: what happens, what it comes to, and
the number of pauses on the way. -/
def compile (parser : Parser) (compiler : Compiler) (s : Settings) (sink : String) (id : Nat)
    (source : String) : Journal × Compiled × Nat :=
  match Flight.start parser compiler s sink id source with
  | (j, .error e) => (j, .error e, 0)
  | (j, .ok f) =>
      let (k, g, n) := f.complete f.todo
      let (l, r) := g.settle
      (j ++ k ++ l, r, n)

end ProgramHost
