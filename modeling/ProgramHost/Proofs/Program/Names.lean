import Mathlib.Data.List.Nodup
import ProgramHost.Proofs.Program.Endings
/-!
# Names

A module and its host find each other by names, and a run does not look into them: it
only compares them. So other names can be given to everything that is imported and to
everything that is exported, and to the settings along with them, as long as different
names stay different. The run then goes the same way, and only a failure that is about
a name says the new one.

Names have a bound on their length, which new names can exceed. That is the one reason
why a module under new names can be refused.
-/

namespace ProgramHost

open Program

/-- New names for the spaces and the fields of imports and for what is exported.
Different names stay different. -/
structure Renaming where
  space : String → String
  field : String → String
  offered : String → String
  space_injective : Function.Injective space
  field_injective : Function.Injective field
  offered_injective : Function.Injective offered

def Settings.rename (s : Settings) (r : Renaming) : Settings where
  importSpace := r.space s.importSpace
  faultImport := r.field s.faultImport
  entryPoint := r.offered s.entryPoint
  memoryExport := r.offered s.memoryExport
  compileOptions := s.compileOptions

namespace Program

def Import.rename (i : Import) (r : Renaming) : Import :=
  { i with space := r.space i.space, name := r.field i.name }

def Export.rename (e : Export) (r : Renaming) : Export :=
  { e with name := r.offered e.name }

def Definition.rename (d : Definition) (r : Renaming) : Definition :=
  { d with
    imports := d.imports.map fun i => i.rename r
    exports := d.exports.map fun e => e.rename r }

/-- The failure of the same kind under new names. A trap has no name in it. -/
def Failure.rename (e : Failure) (r : Renaming) : Failure :=
  match e with
  | .unknownImport space name => .unknownImport (r.space space) (r.field name)
  | .incompatibleImport space name wanted =>
      .incompatibleImport (r.space space) (r.field name) wanted
  | .segmentTrap t => .segmentTrap t
  | .trap t => .trap t
  | .missingEntry name => .missingEntry (r.offered name)
  | .entryParameters name count => .entryParameters (r.offered name) count
  | .entryResults name count => .entryResults (r.offered name) count
  | .missingMemory name => .missingMemory (r.offered name)

def Stop.rename (e : Stop) (r : Renaming) : Stop :=
  match e with
  | .fault c => .fault c
  | .failure e => .failure (e.rename r)

def Ending.rename (e : Ending) (r : Renaming) : Ending :=
  match e with
  | .value v => .value v
  | .fault c => .fault c
  | .failure e => .failure (e.rename r)

def Definition.NamesFit (d : Definition) : Prop :=
  (∀ i ∈ d.imports, NameFits i.space ∧ NameFits i.name) ∧ ∀ e ∈ d.exports, NameFits e.name

instance (d : Definition) : Decidable d.NamesFit := by
  unfold Definition.NamesFit
  infer_instance

/-! ## A module under new names is valid if the names fit -/

namespace Definition

variable (d : Definition) (r : Renaming)

@[simp] theorem memories_rename : (d.rename r).memories = d.memories := by
  simp only [memories, rename, List.countP_map]
  rfl

@[simp] theorem signature?_rename (item : ExportItem) :
    (d.rename r).signature? item = d.signature? item := by
  cases item with
  | imported i =>
      simp only [signature?, rename, List.getElem?_map]
      cases d.imports[i]? <;> rfl
  | _ => rfl

@[simp] theorem offers_rename (item : ExportItem) :
    (d.rename r).Offers item ↔ d.Offers item := by
  cases item with
  | memory => simp [Offers]
  | imported i => simp [Offers]
  | _ => rfl

@[simp] theorem bulk_rename : (d.rename r).bulk = d.bulk := by
  have hitem (item : ExportItem) : (d.rename r).itemBulk item = d.itemBulk item := by
    simp [itemBulk]
  simp only [bulk, hitem]
  simp [rename, List.foldl_map, Import.rename, Export.rename]

theorem admits_rename (f : Function) : (d.rename r).Admits f ↔ d.Admits f := by
  have hscope : (d.rename r).scope f = d.scope f := by
    simp only [scope, signature?_rename]
    rfl
  simp [admits_iff, hscope]

theorem lookup?_rename (name : String) :
    (d.rename r).lookup? (r.offered name) = d.lookup? name := by
  simp [lookup?, rename, List.find?_map, Function.comp_def, Export.rename,
    r.offered_injective.eq_iff]

variable {d}

/-- Under new names a valid module is valid exactly if the new names fit. -/
theorem Valid.rename_iff (h : d.Valid) : (d.rename r).Valid ↔ (d.rename r).NamesFit := by
  constructor
  · intro hr
    exact ⟨hr.bounded.import_names, hr.bounded.export_names⟩
  · intro hnames
    have hnodup : ((d.rename r).exports.map Export.name).Nodup := by
      have hmap : (d.rename r).exports.map Export.name =
          (d.exports.map Export.name).map r.offered := by
        simp [rename, Function.comp_def, Export.rename]
      rw [hmap]
      exact h.exports_nodup.map r.offered_injective
    have hoffered : ∀ e ∈ (d.rename r).exports, (d.rename r).Offers e.item := by
      intro e he
      obtain ⟨e', he', rfl⟩ := List.mem_map.1 he
      exact (d.offers_rename r e'.item).2 (h.exports_offered e' he')
    have himports : ∀ i ∈ (d.rename r).imports, i.type.Valid := by
      intro i hi
      obtain ⟨i', hi', rfl⟩ := List.mem_map.1 hi
      exact h.imports_valid i' hi'
    exact {
      exports_nodup := hnodup
      exports_offered := hoffered
      imports_valid := himports
      limits_valid := h.limits_valid
      segments_memory := (d.memories_rename r).symm ▸ h.segments_memory
      functions_admitted := fun f hf => (d.admits_rename r f).2 (h.functions_admitted f hf)
      start_plain := h.start_plain
      bounded := {
        memories_le := (d.memories_rename r).symm ▸ h.bounded.memories_le
        segments_le := h.bounded.segments_le
        import_names := hnames.1
        export_names := hnames.2
        bulk_lt := (d.bulk_rename r).symm ▸ h.bounded.bulk_lt } }

end Definition

/-! ## The stages of a run under new names -/

theorem mapError_bind {ε ε' α β : Type} (g : ε → ε') (a : Except ε α)
    (k : α → Except ε β) :
    (a >>= k).mapError g = a.mapError g >>= fun x => (k x).mapError g := by
  cases a <;> rfl

namespace Executable

def rename (x : Executable) (r : Renaming) (h : (x.definition.rename r).NamesFit) :
    Executable :=
  ⟨x.definition.rename r, (x.valid.rename_iff r).2 h⟩

theorem resolve_rename (s : Settings) (r : Renaming) (is : List Import) :
    resolve (s.rename r) (is.map fun i => i.rename r) =
      (resolve s is).mapError fun e => e.rename r := by
  induction is with
  | nil => rfl
  | cons i is ih =>
      have hname : ((i.rename r).space = (s.rename r).importSpace ∧
          (i.rename r).name = (s.rename r).faultImport) ↔
          (i.space = s.importSpace ∧ i.name = s.faultImport) :=
        and_congr r.space_injective.eq_iff r.field_injective.eq_iff
      simp only [List.map_cons, resolve, hname]
      split
      · exact ih
      · rfl

theorem checkTypes_rename (r : Renaming) (is : List Import) :
    checkTypes (is.map fun i => i.rename r) = (checkTypes is).mapError fun e => e.rename r := by
  induction is with
  | nil => rfl
  | cons i is ih =>
      simp only [List.map_cons, checkTypes, Import.rename]
      split
      · exact ih
      · rfl

theorem layOut_rename (r : Renaming) (gs : List Segment) (m : Memory) :
    (layOut gs m).mapError (fun e => e.rename r) = layOut gs m := by
  induction gs generalizing m with
  | nil => rfl
  | cons g gs ih =>
      simp only [layOut]
      cases m.write? g.offset.toNat g.bytes with
      | none => rfl
      | some m' => exact ih m'

variable (x : Executable) (r : Renaming) (h : (x.definition.rename r).NamesFit) (s : Settings)
  (fuel : Nat)

theorem link_rename :
    (x.rename r h).link (s.rename r) = (x.link s).mapError fun e => e.rename r := by
  simp only [link, mapError_bind, layOut_rename, ← resolve_rename, ← checkTypes_rename]
  rfl

/-- A function that is called stops with a fault or a trap, so with no name. -/
theorem invoke_rename (i : Nat) (m : Memory) :
    (x.rename r h).invoke fuel i m =
      (x.invoke fuel i m).map (Except.mapError fun e => e.rename r) := by
  have hbody : (x.rename r h).definition.body = x.definition.body := rfl
  simp only [invoke, hbody]
  cases exec x.definition.body fuel stackDepth (x.definition.body i) ⟨.zero, m⟩ with
  | halted halt => cases halt <;> rfl
  | _ => rfl

theorem instantiate_rename :
    (x.rename r h).instantiate (s.rename r) fuel =
      (x.instantiate s fuel).map (Except.mapError fun e => e.rename r) := by
  have hstart : (x.rename r h).definition.start = x.definition.start := rfl
  simp only [instantiate, runStart, link_rename, hstart]
  cases x.link s with
  | error e => rfl
  | ok m =>
      cases x.definition.start with
      | none => rfl
      | some i => exact x.invoke_rename r h fuel i m

theorem entry_rename (name : String) :
    (x.rename r h).entry (r.offered name) = (x.entry name).mapError fun e => e.rename r := by
  simp only [entry, rename, Definition.lookup?_rename, Definition.signature?_rename]
  cases x.definition.lookup? name with
  | none => rfl
  | some item =>
      dsimp only
      cases x.definition.signature? item with
      | none => rfl
      | some g =>
          dsimp only
          by_cases hparams : g.params = []
          · by_cases hresults : g.results = []
            · simp only [hparams, hresults]
              cases item <;> rfl
            · simp [hparams, hresults, Except.mapError, Failure.rename]
          · simp [hparams, Except.mapError, Failure.rename]

theorem finish_rename (m : Memory) :
    (x.rename r h).finish (s.rename r) m = (x.finish s m).rename r := by
  have hoffers : (x.rename r h).offersMemory (s.rename r).memoryExport =
      x.offersMemory s.memoryExport := by
    simp only [offersMemory, rename, Settings.rename, Definition.lookup?_rename]
  simp only [finish, hoffers]
  split <;> rfl

theorem callEntry_rename (m : Memory) :
    (x.rename r h).callEntry (s.rename r) fuel m =
      (x.callEntry s fuel m).map (Except.mapError fun e => e.rename r) := by
  have hentry := x.entry_rename r h s.entryPoint
  simp only [callEntry]
  rw [show (s.rename r).entryPoint = r.offered s.entryPoint from rfl, hentry]
  cases x.entry s.entryPoint with
  | error e => rfl
  | ok i => exact x.invoke_rename r h fuel i m

theorem Stop.ending_rename (e : Stop) : Stop.ending (e.rename r) = (Stop.ending e).rename r := by
  cases e <;> rfl

/-- A run under new names ends as the run does, and a failure says the new names. -/
theorem run?_rename :
    (x.rename r h).run? (s.rename r) fuel = (x.run? s fuel).map fun e => e.rename r := by
  simp only [run?, instantiate_rename]
  cases x.instantiate s fuel with
  | none => rfl
  | some stage =>
      cases stage with
      | error e => exact congrArg some (Stop.ending_rename r e)
      | ok m =>
          simp only [Option.map_some, Except.mapError, callEntry_rename]
          cases x.callEntry s fuel m with
          | none => rfl
          | some stage =>
              cases stage with
              | error e => exact congrArg some (Stop.ending_rename r e)
              | ok m' => exact congrArg some (x.finish_rename r h s m')

end Executable

/-! ## The options of the compiler are no part of a run -/

namespace Executable

theorem resolve_options (s : Settings) (options : String) (is : List Import) :
    resolve { s with compileOptions := options } is = resolve s is := by
  induction is with
  | nil => rfl
  | cons i is ih => simp only [resolve, ih]

theorem run?_options (x : Executable) (s : Settings) (options : String) (fuel : Nat) :
    x.run? { s with compileOptions := options } fuel = x.run? s fuel := by
  simp only [run?, instantiate, link, callEntry, finish, resolve_options]

end Executable

def Failure.IsTrap : Failure → Prop
  | .segmentTrap _ => True
  | .trap _ => True
  | _ => False

theorem Failure.IsTrap.rename_eq {e : Failure} (h : e.IsTrap) (r : Renaming) :
    e.rename r = e := by
  cases e with
  | segmentTrap t => rfl
  | trap t => rfl
  | _ => exact h.elim

theorem Failure.sources_rename (e : Failure) (r : Renaming) :
    (e.rename r).sources = e.sources := by
  cases e <;> rfl

/-- Only an ending that is about a name says the new one. -/
theorem Ending.rename_eq {e : Ending} {r : Renaming}
    (h : ∀ f, e.result = .error (.failed f) → f.IsTrap) : e.rename r = e := by
  cases e with
  | value v => rfl
  | fault c => rfl
  | failure f => exact congrArg Ending.failure ((h f rfl).rename_eq r)

end Program

namespace Host

theorem validate_defined_eq_ok_iff (d : Definition) (x : Executable) :
    validate (.defined d) = .ok x ↔ x.definition = d := by
  unfold validate Binary.definition?
  constructor
  · intro h
    dsimp only at h
    split at h
    · cases h
      rfl
    · cases h
  · rintro rfl
    exact dif_pos x.valid

end Host

/-- Names are only names. Under new names a module is accepted exactly if they fit, and
then it runs as it did before, whatever the options of the compiler are: to the same value
or the same fault or trap, with the same events. Where the failure is about a name, the
new one is said in its place. -/
theorem run_blind_to_names (x : Executable) (r : Renaming) :
    ((∃ x', Host.validate (.defined (x.definition.rename r)) = .ok x') ↔
        (x.definition.rename r).NamesFit) ∧
      (∀ (s : Settings) (options : String) (fuel : Nat) (sink : String),
        Host.run? fuel { s with compileOptions := options } sink x = Host.run? fuel s sink x) ∧
      ∀ x', Host.validate (.defined (x.definition.rename r)) = .ok x' →
        ∀ (s : Settings) (options : String) (fuel : Nat) (sink : String),
          (Host.run? fuel { s.rename r with compileOptions := options } sink x' = none ↔
              Host.run? fuel s sink x = none) ∧
            ∀ j q, Host.run? fuel s sink x = some (j, q) →
              ∃ j' q',
                Host.run? fuel { s.rename r with compileOptions := options } sink x' =
                    some (j', q') ∧
                  ((∀ e, q = .error (.failed e) → e.IsTrap) → j' = j ∧ q' = q) ∧
                  ∀ e, q = .error (.failed e) →
                    q' = .error (.failed (e.rename r)) ∧
                      (e.rename r).sources = e.sources ∧
                      j' = [.note (.failed (e.rename r).description),
                        .report sink (.ofFailure (e.rename r).description)] := by
  refine ⟨?accepted, ?options, ?runs⟩
  case accepted =>
    simp only [Host.validate_defined_eq_ok_iff]
    constructor
    · rintro ⟨x', hx'⟩
      exact (x.valid.rename_iff r).1 (hx' ▸ x'.valid)
    · intro h
      exact ⟨x.rename r h, rfl⟩
  case options =>
    intro s options fuel sink
    rw [Host.run?, Host.run?, Executable.run?_options]
  case runs =>
    intro x' hx' s options fuel sink
    have hdefinition := (Host.validate_defined_eq_ok_iff _ _).1 hx'
    have hfit := (x.valid.rename_iff r).1 (hdefinition ▸ x'.valid)
    obtain rfl : x' = x.rename r hfit := by
      cases x'
      cases hdefinition
      rfl
    simp only [Host.run?, Executable.run?_options, Executable.run?_rename]
    refine ⟨by simp, ?_⟩
    intro j q h
    obtain ⟨ending, hrun, heq⟩ := Option.map_eq_some_iff.1 h
    obtain ⟨rfl, rfl⟩ := Prod.mk.inj heq
    refine ⟨(ending.rename r).events sink, (ending.rename r).result, by rw [hrun]; rfl,
      fun htrap => ?_, fun e he => ?_⟩
    · rw [Ending.rename_eq htrap]
      exact ⟨rfl, rfl⟩
    · cases ending with
      | value v => cases he
      | fault c => cases he
      | failure e' =>
          cases he
          exact ⟨rfl, e.sources_rename r, rfl⟩

/-- Names with the version of an interface in them. -/
def versioned : Renaming where
  space n := "v2:" ++ n
  field n := n ++ "_v2"
  offered n := "v2:" ++ n
  space_injective _ _ h := (String.append_right_inj _).1 h
  field_injective _ _ h := (String.append_left_inj _).1 h
  offered_injective _ _ h := (String.append_right_inj _).1 h

/-- A module under new names faults as before, and says the new name of an entry point that
it does not have. -/
theorem faulting_versioned :
    ∃ x' j, Host.validate (.defined (faulting.rename versioned)) = .ok x' ∧
      Host.run? 10 {} "main" ⟨faulting, faulting_valid⟩ = some (j, .error .faulted) ∧
      Host.run? 10 ⟨"v2:env", "fault_v2", "v2:main", "v2:memory", "-O2"⟩ "main" x' =
        some (j, .error .faulted) ∧
      Host.run? 10 ⟨"v2:env", "fault_v2", "v2:start", "v2:memory", "-O2"⟩ "main" x' =
        some ([.note (.failed "failed to find function export `v2:start`"),
            .report "main" (.ofFailure "failed to find function export `v2:start`")],
          .error (.failed (.missingEntry "v2:start"))) := by
  obtain ⟨haccepted, -, hruns⟩ := run_blind_to_names ⟨faulting, faulting_valid⟩ versioned
  obtain ⟨x', hx'⟩ := haccepted.2 (by decide)
  obtain ⟨j, hj⟩ : ∃ j,
      Host.run? 10 {} "main" ⟨faulting, faulting_valid⟩ = some (j, .error .faulted) := ⟨_, rfl⟩
  obtain ⟨j₁, q₁, h₁, hsame, -⟩ := (hruns x' hx' {} "-O2" 10 "main").2 j _ hj
  obtain ⟨j₂, q₂, h₂, -, hnamed⟩ :=
    (hruns x' hx' { entryPoint := "start" } "-O2" 10 "main").2 _ _ rfl
  obtain ⟨rfl, rfl⟩ := hsame fun e he => by cases he
  obtain ⟨rfl, -, rfl⟩ := hnamed _ rfl
  exact ⟨x', _, hx', hj, h₁, h₂⟩

def padding : String := String.ofList (List.replicate mostNameBytes 'a')

theorem utf8ByteSize_padding : padding.utf8ByteSize = mostNameBytes := by
  unfold padding
  generalize mostNameBytes = n
  induction n with
  | zero => rfl
  | succ n ih =>
      rw [List.replicate_succ, String.ofList_cons, String.utf8ByteSize_append,
        String.utf8ByteSize_singleton, ih]
      exact Nat.add_comm 1 n

theorem not_nameFits_padding_append {name : String} (h : 0 < name.utf8ByteSize) :
    ¬ NameFits (padding ++ name) := by
  unfold NameFits
  rw [String.utf8ByteSize_append, utf8ByteSize_padding]
  exact Nat.not_le_of_lt (Nat.lt_add_of_pos_right h)

/-- Names of exports that are too long, unless they were empty. -/
def lengthened : Renaming where
  space n := n
  field n := n
  offered n := padding ++ n
  space_injective _ _ h := h
  field_injective _ _ h := h
  offered_injective _ _ h := (String.append_right_inj _).1 h

/-- Under names that are too long a module is refused. -/
theorem refused_under_long_names :
    ¬ ∀ (x : Executable) (r : Renaming),
      ∃ x', Host.validate (.defined (x.definition.rename r)) = .ok x' := by
  intro h
  obtain ⟨x', hx'⟩ := h ⟨faulting, faulting_valid⟩ lengthened
  have hvalid := x'.valid
  rw [(Host.validate_defined_eq_ok_iff _ _).1 hx'] at hvalid
  have hmain : (⟨"main", .function 0⟩ : Export) ∈ faulting.exports := by decide
  have hfits := hvalid.bounded.export_names _ (List.mem_map_of_mem hmain)
  have hname : ((⟨"main", .function 0⟩ : Export).rename lengthened).name = padding ++ "main" :=
    rfl
  rw [hname] at hfits
  exact not_nameFits_padding_append (by decide) hfits

end ProgramHost
