import ProgramHost.Memory.Paged
import ProgramHost.Program.Operands
/-!
# Modules

A module names what it imports, describes its memory and its functions and says
under which names it offers them. A definition is valid if its parts fit
together: what is exported exists, calls find their operands, memory is only used
where there is one, no two exports share a name, and nothing is too large. An
executable is a valid definition.
-/

namespace ProgramHost.Program

inductive ImportType where
  | function (signature : Signature)
  | memory (pages : Nat)
  | global (type : ValueType)
  deriving DecidableEq, Repr

structure Import where
  space : String
  name : String
  type : ImportType
  deriving DecidableEq, Repr

/-- The pages of a memory at first and at most. -/
structure Limits where
  pages : Nat
  most : Option Nat
  deriving DecidableEq, Repr

/-- Bytes that are put into memory before anything runs, in the order of the segments: a later
one writes over an earlier one. -/
structure Segment where
  offset : UInt32
  bytes : List UInt8
  deriving DecidableEq, Repr

structure Function where
  signature : Signature
  body : List Stmt

inductive ExportItem where
  | memory
  | function (i : Nat)
  | imported (i : Nat)
  | global
  deriving DecidableEq, Repr

structure Export where
  name : String
  item : ExportItem
  deriving DecidableEq, Repr

structure Definition where
  imports : List Import
  memory : Option Limits
  hasGlobal : Bool
  segments : List Segment
  functions : List Function
  exports : List Export
  start : Option Nat

def Limits.Valid (l : Limits) : Prop :=
  l.pages ≤ Memory.mostPages ∧
    ∀ n ∈ l.most, l.pages ≤ n ∧ n ≤ Memory.mostPages

namespace ImportType

/-- An imported memory is not too large, and an imported function has not too
many parameters and results. -/
def Valid : ImportType → Prop
  | .function s => s.Valid
  | .memory pages => pages ≤ Memory.mostPages
  | .global _ => True

def isMemory : ImportType → Bool
  | .memory _ => true
  | _ => false

def signature? : ImportType → Option Signature
  | .function s => some s
  | _ => none

/-- How much an import adds to the bulk of a module. -/
def bulk : ImportType → Nat
  | .function s => s.bulk
  | _ => 1

end ImportType

instance (l : Limits) : Decidable l.Valid := by
  unfold Limits.Valid
  infer_instance

instance (t : ImportType) : Decidable t.Valid := by
  cases t <;> unfold ImportType.Valid <;> infer_instance

def mostNameBytes : Nat := 100000

def NameFits (name : String) : Prop := name.utf8ByteSize ≤ mostNameBytes

instance (name : String) : Decidable (NameFits name) := by
  unfold NameFits
  infer_instance

namespace Definition

def empty : Definition := ⟨[], none, false, [], [], [], none⟩

def memories (d : Definition) : Nat :=
  d.imports.countP (fun i => i.type.isMemory) + if d.memory.isSome then 1 else 0

def signature? (d : Definition) : ExportItem → Option Signature
  | .function i => (d.functions[i]?).map Function.signature
  | .imported i => (d.imports[i]?).bind fun i => i.type.signature?
  | _ => none

def Offers (d : Definition) : ExportItem → Prop
  | .memory => 0 < d.memories
  | .function i => i < d.functions.length
  | .imported i => (d.signature? (.imported i)).isSome
  | .global => d.hasGlobal

instance (d : Definition) (e : ExportItem) : Decidable (d.Offers e) := by
  cases e <;> unfold Offers <;> infer_instance

def itemBulk (d : Definition) (e : ExportItem) : Nat :=
  match d.signature? e with
  | some s => s.bulk
  | none => 1

/-- The size of the types of everything that is imported or exported, which a validator bounds.
A function counts for its parameters and results as well, and the module itself for one. -/
def bulk (d : Definition) : Nat :=
  d.exports.foldl (fun n e => n + d.itemBulk e.item)
    (d.imports.foldl (fun n i => n + i.type.bulk) 1)

def scope (d : Definition) (f : Function) : Scope where
  functions := d.functions.map Function.signature
  fault := d.signature? (.imported 0)
  results := f.signature.results

/-- The sizes of a definition are within their bounds. -/
structure Bounded (d : Definition) : Prop where
  memories_le : d.memories ≤ 100
  segments_le : d.segments.length ≤ 100000
  import_names : ∀ i ∈ d.imports, NameFits i.space ∧ NameFits i.name
  export_names : ∀ e ∈ d.exports, NameFits e.name
  bulk_lt : d.bulk < 1000000

theorem bounded_iff (d : Definition) :
    d.Bounded ↔
      d.memories ≤ 100 ∧ d.segments.length ≤ 100000 ∧
        (∀ i ∈ d.imports, NameFits i.space ∧ NameFits i.name) ∧
        (∀ e ∈ d.exports, NameFits e.name) ∧ d.bulk < 1000000 :=
  ⟨fun h => ⟨h.1, h.2, h.3, h.4, h.5⟩, fun ⟨h1, h2, h3, h4, h5⟩ => ⟨h1, h2, h3, h4, h5⟩⟩

instance (d : Definition) : Decidable d.Bounded :=
  decidable_of_iff _ (bounded_iff d).symm

/-- A function has a valid type, uses memory only where there is one, and every
statement of its body finds the operands that it takes. -/
structure Admits (d : Definition) (f : Function) : Prop where
  signature_valid : f.signature.Valid
  memory_pos : bodyUsesMemory f.body → 0 < d.memories
  balanced : Balanced (d.scope f) f.body

theorem admits_iff (d : Definition) (f : Function) :
    d.Admits f ↔
      f.signature.Valid ∧ (bodyUsesMemory f.body → 0 < d.memories) ∧
        Balanced (d.scope f) f.body :=
  ⟨fun h => ⟨h.1, h.2, h.3⟩, fun ⟨h1, h2, h3⟩ => ⟨h1, h2, h3⟩⟩

instance (d : Definition) (f : Function) : Decidable (d.Admits f) :=
  decidable_of_iff _ (admits_iff d f).symm

/-- The parts of a definition fit together: what is exported, called or started is there and has
the right type, memory is used only where there is one, and all sizes are within their bounds. -/
structure Valid (d : Definition) : Prop where
  exports_nodup : (d.exports.map Export.name).Nodup
  exports_offered : ∀ e ∈ d.exports, d.Offers e.item
  imports_valid : ∀ i ∈ d.imports, i.type.Valid
  limits_valid : ∀ l ∈ d.memory, l.Valid
  segments_memory : d.segments ≠ [] → 0 < d.memories
  functions_admitted : ∀ f ∈ d.functions, d.Admits f
  start_plain : ∀ i ∈ d.start, (d.functions[i]?).map Function.signature = some plainSignature
  bounded : d.Bounded

theorem valid_iff (d : Definition) :
    d.Valid ↔
      (d.exports.map Export.name).Nodup ∧ (∀ e ∈ d.exports, d.Offers e.item) ∧
        (∀ i ∈ d.imports, i.type.Valid) ∧ (∀ l ∈ d.memory, l.Valid) ∧
        (d.segments ≠ [] → 0 < d.memories) ∧ (∀ f ∈ d.functions, d.Admits f) ∧
        (∀ i ∈ d.start, (d.functions[i]?).map Function.signature = some plainSignature) ∧
        d.Bounded :=
  ⟨fun h => ⟨h.1, h.2, h.3, h.4, h.5, h.6, h.7, h.8⟩,
    fun ⟨h1, h2, h3, h4, h5, h6, h7, h8⟩ => ⟨h1, h2, h3, h4, h5, h6, h7, h8⟩⟩

instance (d : Definition) : Decidable d.Valid :=
  decidable_of_iff _ (valid_iff d).symm

def lookup? (d : Definition) (name : String) : Option ExportItem :=
  (d.exports.find? fun e => e.name = name).map Export.item

/-- The body of a function; a number without a function has an empty one. -/
def body (d : Definition) (i : Nat) : List Stmt :=
  match d.functions[i]? with
  | some f => f.body
  | none => []

theorem empty_valid : empty.Valid := by decide

end Definition

/-- A valid module, ready to be run any number of times. Validity is part of it, so a run never
meets a module whose parts do not fit together. -/
structure Executable where
  definition : Definition
  valid : definition.Valid

end ProgramHost.Program
