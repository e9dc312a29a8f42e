import ProgramHost.Host
/-!
# Files

The program reads one file. A directory is a list of named files; a path is
followed through it part by part, and leads to a file, to a directory, through a
file as if it were a directory, or nowhere.
-/

namespace ProgramHost.CommandLine

inductive ReadFailure where
  | missing
  | isDirectory
  | notDirectory
  | nameTooLong
  | other (reason : String)
  deriving DecidableEq, Repr

def ReadFailure.message : ReadFailure → String
  | .missing => "No such file or directory (os error 2)"
  | .isDirectory => "Is a directory (os error 21)"
  | .notDirectory => "Not a directory (os error 20)"
  | .nameTooLong => "File name too long (os error 36)"
  | .other reason => reason

/-- A directory without directories inside. -/
abbrev Directory : Type := List (String × Binary)

/-- Where a path has led so far: into the directory, out of it, or to a file. A file is no
directory, so it is the end of every path that goes on. -/
inductive Place where
  | inside
  | outside
  | file (b : Binary)

namespace Directory

def mostNameBytes : Nat := 255

def mostPathBytes : Nat := 4095

def follow (d : Directory) : Place → String → Except ReadFailure Place
  | .file _, _ => .error .notDirectory
  | p, "" => .ok p
  | p, "." => .ok p
  | _, ".." => .ok .outside
  | p, name =>
      if mostNameBytes < name.utf8ByteSize then .error .nameTooLong
      else
        match p, d.lookup name with
        | .inside, some b => .ok (.file b)
        | _, _ => .error .missing

def parts : List Char → List (List Char)
  | [] => [[]]
  | c :: cs =>
      match c, parts cs with
      | '/', ps => [] :: ps
      | c, [] => [[c]]
      | c, p :: ps => (c :: p) :: ps

/-- Reads the file that a path leads to. -/
def read (d : Directory) (path : String) : Except ReadFailure Binary := do
  if mostPathBytes < path.utf8ByteSize then .error .nameTooLong
  else
    let start := if path.toList.head? = some '/' then .outside else .inside
    let names := (parts path.toList).map String.ofList
    match ← names.foldlM d.follow start with
    | .file b => .ok b
    | _ => .error .isDirectory

end Directory

end ProgramHost.CommandLine
