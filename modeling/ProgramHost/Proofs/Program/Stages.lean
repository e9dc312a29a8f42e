import ProgramHost.Proofs.Memory.Blocks
import ProgramHost.Proofs.Program.Endings
/-!
# The order of the stages

A run stops at the first stage that does not succeed, and each stage reads its own part of
the settings: linking the names of the import, the entry point its name, and the last one
the name of the memory. So what is set for a later stage is not seen by a run that stops
before it.

Code is run only by calls of functions. `x.runBy call s` is a run in which the functions
are called by `call`, and `x.Asks s fuel i m` says that the run calls the function `i`
with the memory `m`: the start function of a module that is linked, or the entry point
when the start function has returned. Any `call` that answers these calls in the same way
gives the same run.
-/

namespace ProgramHost.Program

namespace Definition

open Executable (initialMemory)

structure Linkable (d : Definition) (s : Settings) : Prop where
  resolved : ∀ i ∈ d.imports, i.space = s.importSpace ∧ i.name = s.faultImport
  typed : ∀ i ∈ d.imports, i.type = .function faultSignature
  inside : ∀ g ∈ d.segments, g.offset.toNat + g.bytes.length ≤ (initialMemory d).size

/-- The first thing that keeps the module from being linked: an import of another name,
then one of another type, then a segment that does not fit. -/
inductive Unlinked (d : Definition) (s : Settings) : Failure → Prop
  | unknownImport {before after : List Import} {i : Import} :
      d.imports = before ++ i :: after →
        (∀ j ∈ before, j.space = s.importSpace ∧ j.name = s.faultImport) →
          ¬ (i.space = s.importSpace ∧ i.name = s.faultImport) →
            Unlinked d s (.unknownImport i.space i.name)
  | incompatibleImport {before after : List Import} {i : Import} :
      (∀ j ∈ d.imports, j.space = s.importSpace ∧ j.name = s.faultImport) →
        d.imports = before ++ i :: after →
          (∀ j ∈ before, j.type = .function faultSignature) →
            i.type ≠ .function faultSignature →
              Unlinked d s (.incompatibleImport i.space i.name i.type)
  | segment {g : Segment} :
      (∀ j ∈ d.imports, j.space = s.importSpace ∧ j.name = s.faultImport) →
        (∀ j ∈ d.imports, j.type = .function faultSignature) →
          g ∈ d.segments → (initialMemory d).size < g.offset.toNat + g.bytes.length →
            Unlinked d s (.segmentTrap .outOfBounds)

end Definition

namespace Executable

variable {x : Executable} {s s' : Settings} {fuel : Nat} {m : Memory}

/-! ## Linking -/

theorem check_cases {check : List Import → Except Failure Unit} {Good : Import → Prop}
    [DecidablePred Good] {failure : Import → Failure} (hnil : check [] = .ok ())
    (hcons : ∀ i is, check (i :: is) = if Good i then check is else .error (failure i))
    (is : List Import) :
    (check is = .ok () ∧ ∀ i ∈ is, Good i) ∨
      ∃ before i after, is = before ++ i :: after ∧ (∀ j ∈ before, Good j) ∧ ¬ Good i ∧
        check is = .error (failure i) := by
  induction is with
  | nil => exact .inl ⟨hnil, by simp⟩
  | cons i is ih =>
      by_cases hi : Good i
      · rw [hcons, if_pos hi]
        rcases ih with ⟨hok, his⟩ | ⟨before, j, after, rfl, hbefore, hj, herror⟩
        · exact .inl ⟨hok, List.forall_mem_cons.2 ⟨hi, his⟩⟩
        · exact .inr ⟨i :: before, j, after, rfl, List.forall_mem_cons.2 ⟨hi, hbefore⟩, hj, herror⟩
      · exact .inr ⟨[], i, is, rfl, by simp, hi, by rw [hcons, if_neg hi]⟩

theorem resolve_cases (s : Settings) (is : List Import) :
    (resolve s is = .ok () ∧ ∀ i ∈ is, i.space = s.importSpace ∧ i.name = s.faultImport) ∨
      ∃ before i after, is = before ++ i :: after ∧
        (∀ j ∈ before, j.space = s.importSpace ∧ j.name = s.faultImport) ∧
          ¬ (i.space = s.importSpace ∧ i.name = s.faultImport) ∧
            resolve s is = .error (.unknownImport i.space i.name) :=
  check_cases rfl (fun _ _ => rfl) is

theorem checkTypes_cases (is : List Import) :
    (checkTypes is = .ok () ∧ ∀ i ∈ is, i.type = .function faultSignature) ∨
      ∃ before i after, is = before ++ i :: after ∧
        (∀ j ∈ before, j.type = .function faultSignature) ∧
          ¬ i.type = .function faultSignature ∧
            checkTypes is = .error (.incompatibleImport i.space i.name i.type) :=
  check_cases rfl (fun _ _ => rfl) is

theorem layOut_cases (gs : List Segment) (m : Memory) :
    ((∃ m', layOut gs m = .ok m') ∧
        ∀ g ∈ gs, g.offset.toNat + g.bytes.length ≤ m.size) ∨
      ∃ g ∈ gs, m.size < g.offset.toNat + g.bytes.length ∧
        layOut gs m = .error (.segmentTrap .outOfBounds) := by
  induction gs generalizing m with
  | nil => exact .inl ⟨⟨m, rfl⟩, by simp⟩
  | cons g gs ih =>
      by_cases hg : g.offset.toNat + g.bytes.length ≤ m.size
      · -- A segment that is laid out leaves the size as it is.
        have hstop : Block.stop ⟨g.offset.toNat, g.bytes⟩ ≤ m.size := hg
        have hwrite : m.write? g.offset.toNat g.bytes = some (m.put ⟨g.offset.toNat, g.bytes⟩) :=
          Memory.write?_eq_put hstop
        rw [layOut, hwrite]
        rcases ih (m.put ⟨g.offset.toNat, g.bytes⟩) with ⟨hok, hgs⟩ | ⟨g', hmem, hg', herror⟩
        · exact .inl ⟨hok, List.forall_mem_cons.2 ⟨hg, hgs⟩⟩
        · exact .inr ⟨g', List.mem_cons_of_mem g hmem, hg', herror⟩
      · have hwrite : m.write? g.offset.toNat g.bytes = none := if_neg hg
        exact .inr ⟨g, List.mem_cons_self, Nat.lt_of_not_le hg, by rw [layOut, hwrite]⟩

/-- A module is linked, or the first thing that keeps it from being linked is its
failure. -/
theorem link_cases (x : Executable) (s : Settings) :
    (x.definition.Linkable s ∧ ∃ m, x.link s = .ok m) ∨
      ∃ e, x.definition.Unlinked s e ∧ x.link s = .error e := by
  rcases resolve_cases s x.definition.imports with
    ⟨hok, hresolved⟩ | ⟨before, i, after, himports, hbefore, hi, herror⟩
  · rcases checkTypes_cases x.definition.imports with
      ⟨hok', htyped⟩ | ⟨before, i, after, himports, hbefore, hi, herror⟩
    · have hlink : x.link s = layOut x.definition.segments (initialMemory x.definition) := by
        rw [link, hok, hok']
        rfl
      rw [hlink]
      rcases layOut_cases x.definition.segments (initialMemory x.definition) with
        ⟨hok, hinside⟩ | ⟨g, hmem, hg, herror⟩
      · exact .inl ⟨⟨hresolved, htyped, hinside⟩, hok⟩
      · exact .inr ⟨_, .segment hresolved htyped hmem hg, herror⟩
    · refine .inr ⟨_, .incompatibleImport hresolved himports hbefore hi, ?_⟩
      rw [link, hok, herror]
      rfl
  · refine .inr ⟨_, .unknownImport himports hbefore hi, ?_⟩
    rw [link, herror]
    rfl

theorem linkable_of_link (h : x.link s = .ok m) : x.definition.Linkable s := by
  rcases x.link_cases s with ⟨hlinkable, -⟩ | ⟨e, -, herror⟩
  · exact hlinkable
  · rw [herror] at h
    cases h

theorem exists_link_error (h : ¬ x.definition.Linkable s) :
    ∃ e, x.definition.Unlinked s e ∧ x.link s = .error e :=
  (x.link_cases s).resolve_left fun hlinkable => h hlinkable.1

/-! ## The functions that are called -/

theorem entry_eq_ok_iff (x : Executable) (name : String) (i : Nat) :
    x.entry name = .ok i ↔
      x.definition.lookup? name = some (.function i) ∧
        x.definition.signature? (.function i) = some plainSignature := by
  constructor
  · intro h
    unfold entry at h
    cases hlookup : x.definition.lookup? name with
    | none =>
        rw [hlookup] at h
        cases h
    | some item =>
        rw [hlookup] at h
        simp only at h
        split at h
        · cases h
        · next g hsignature =>
            split at h
            · cases h
            · next hparams =>
                split at h
                · cases h
                · next hresults =>
                    obtain ⟨params, results⟩ := g
                    obtain rfl : params = [] := Decidable.not_not.1 hparams
                    obtain rfl : results = [] := Decidable.not_not.1 hresults
                    cases item with
                    | function k =>
                        cases h
                        exact ⟨rfl, hsignature⟩
                    | memory => cases h
                    | imported k => cases h
                    | global => cases h
  · rintro ⟨hlookup, hsignature⟩
    simp [entry, hlookup, hsignature, plainSignature]

/-- The run calls a function with a memory. -/
inductive Asks (x : Executable) (s : Settings) (fuel : Nat) : Nat → Memory → Prop
  | start {i : Nat} {m : Memory} :
      x.link s = .ok m → x.definition.start = some i → Asks x s fuel i m
  | entry {i : Nat} {m : Memory} :
      x.instantiate s fuel = some (.ok m) →
        x.definition.lookup? s.entryPoint = some (.function i) →
          x.definition.signature? (.function i) = some plainSignature → Asks x s fuel i m

def runBy (x : Executable) (call : Nat → Memory → Option (Except Stop Memory)) (s : Settings) :
    Option Ending :=
  match x.link s with
  | .error e => some (.failure e)
  | .ok m =>
      match x.definition.start.elim (some (.ok m)) fun i => call i m with
      | none => none
      | some (.error e) => some (Stop.ending e)
      | some (.ok m) =>
          match x.entry s.entryPoint with
          | .error e => some (.failure e)
          | .ok i =>
              match call i m with
              | none => none
              | some (.error e) => some (Stop.ending e)
              | some (.ok m) => some (x.finish s m)

theorem Asks.linkable {i : Nat} (h : x.Asks s fuel i m) : x.definition.Linkable s := by
  cases h with
  | start hlink => exact linkable_of_link hlink
  | entry hinstance =>
      obtain ⟨m₀, hlink, -⟩ := exists_link_of_instantiate hinstance
      exact linkable_of_link hlink

/-- A run calls nothing but what it asks for. -/
theorem runBy_eq_run? {call : Nat → Memory → Option (Except Stop Memory)}
    (h : ∀ i m, x.Asks s fuel i m → call i m = x.invoke fuel i m) :
    x.runBy call s = x.run? s fuel := by
  unfold runBy run?
  cases hlink : x.link s with
  | error e =>
      rw [instantiate, hlink]
      rfl
  | ok m =>
      have hinstance : x.definition.start.elim (some (.ok m)) (fun i => call i m) =
          x.instantiate s fuel := by
        rw [instantiate, hlink]
        simp only [runStart]
        cases hstart : x.definition.start with
        | none => rfl
        | some i => exact h i m (.start hlink hstart)
      simp only [hinstance]
      cases hready : x.instantiate s fuel with
      | none => rfl
      | some r =>
          cases r with
          | error e => rfl
          | ok m' =>
              simp only [callEntry]
              cases hentry : x.entry s.entryPoint with
              | error e => rfl
              | ok i =>
                  obtain ⟨hlookup, hplain⟩ := (x.entry_eq_ok_iff s.entryPoint i).1 hentry
                  have hcall := h i m' (.entry hready hlookup hplain)
                  cases hleft : x.invoke fuel i m' with
                  | none => simp only [hcall, hleft]
                  | some r => cases r <;> simp only [hcall, hleft]

/-- If a module is not linked, no function of it has a part in the run. -/
theorem exists_runBy_failure (h : ¬ x.definition.Linkable s) :
    ∃ e, x.definition.Unlinked s e ∧ ∀ call, x.runBy call s = some (.failure e) := by
  obtain ⟨e, hunlinked, hlink⟩ := exists_link_error h
  refine ⟨e, hunlinked, fun call => ?_⟩
  rw [runBy, hlink]

/-! ## Other settings -/

theorem resolve_congr (hspace : s'.importSpace = s.importSpace)
    (hname : s'.faultImport = s.faultImport) (is : List Import) : resolve s' is = resolve s is := by
  induction is with
  | nil => rfl
  | cons i is ih => rw [resolve, resolve, hspace, hname, ih]

theorem instantiate_congr (hspace : s'.importSpace = s.importSpace)
    (hname : s'.faultImport = s.faultImport) (fuel : Nat) :
    x.instantiate s' fuel = x.instantiate s fuel := by
  have hlink : x.link s' = x.link s := by rw [link, link, resolve_congr hspace hname]
  rw [instantiate, instantiate, hlink]

end Executable

end ProgramHost.Program

namespace ProgramHost

open Program

namespace Host

section

variable (x : Executable) (fuel : Nat) (sink : String)

def EndsInStop (e : Stop) (s : Settings) : Prop :=
  Host.run? fuel s sink x =
    some ((Executable.Stop.ending e).events sink, (Executable.Stop.ending e).result)

/-- The run ends with the value in the memory, or with the failure to find the memory by
its name. -/
structure EndsInMemory (m : Memory) (s : Settings) : Prop where
  found : x.definition.lookup? s.memoryExport = some .memory →
    Host.run? fuel s sink x =
      some ([.note (.decoded (Value.decode m.image))], .ok (Value.decode m.image))
  missing : x.definition.lookup? s.memoryExport ≠ some .memory →
    Host.run? fuel s sink x =
      some ((Ending.failure (.missingMemory s.memoryExport)).events sink,
        .error (.failed (.missingMemory s.memoryExport)))

end

variable {x : Executable} {s s' : Settings} {fuel : Nat} {sink : String} {m m' : Memory}

theorem endsInStop_of_instantiate {e : Stop} (h : x.instantiate s fuel = some (.error e)) :
    EndsInStop x fuel sink e s := by
  rw [EndsInStop, Host.run?, (x.run?_eq_some_iff s fuel _).2 (.stopped h)]
  rfl

theorem endsInStop_of_callEntry {e : Stop} (hinstance : x.instantiate s fuel = some (.ok m))
    (h : x.callEntry s fuel m = some (.error e)) : EndsInStop x fuel sink e s := by
  rw [EndsInStop, Host.run?, Executable.run?, hinstance]
  simp only [h]
  rfl

theorem endsInMemory_of_callEntry (hinstance : x.instantiate s fuel = some (.ok m))
    (h : x.callEntry s fuel m = some (.ok m')) : EndsInMemory x fuel sink m' s := by
  have hrun : x.run? s fuel = some (x.finish s m') := by
    rw [Executable.run?, hinstance]
    simp only [h]
  constructor
  · intro hfound
    have hoffers : x.offersMemory s.memoryExport = true := decide_eq_true hfound
    rw [Host.run?, hrun, Executable.finish, if_pos hoffers]
    rfl
  · intro hmissing
    have hoffers : ¬ x.offersMemory s.memoryExport = true :=
      fun hoffers => hmissing (of_decide_eq_true hoffers)
    rw [Host.run?, hrun, Executable.finish, if_neg hoffers]
    rfl

theorem run?_eq_none_iff (x : Executable) (s : Settings) (fuel : Nat) (sink : String) :
    Host.run? fuel s sink x = none ↔
      x.instantiate s fuel = none ∨
        ∃ m, x.instantiate s fuel = some (.ok m) ∧ x.callEntry s fuel m = none := by
  rw [Host.run?, Option.map_eq_none_iff, Executable.run?]
  cases x.instantiate s fuel with
  | none => simp
  | some r =>
      cases r with
      | error e => simp
      | ok m =>
          cases hcall : x.callEntry s fuel m with
          | none => simp [hcall]
          | some r => cases r <;> simp [hcall]

/-- The first stage that does not succeed decides how a run ends, and the settings for the
later ones are not seen. No function is called unless all imports and all segments are
found good, and the entry point is called when the start function has returned and the
entry point was found, with the right type. -/
theorem earliest_failing_stage_decides (hspace : s'.importSpace = s.importSpace)
    (hname : s'.faultImport = s.faultImport) :
    x.instantiate s' fuel = x.instantiate s fuel ∧
      (∀ e, x.instantiate s fuel = some (.error e) →
        EndsInStop x fuel sink e s ∧ EndsInStop x fuel sink e s') ∧
      (¬ x.definition.Linkable s →
        ∃ e, x.definition.Unlinked s e ∧ EndsInStop x fuel sink (.failure e) s ∧
          x.calls s fuel = [] ∧ ∀ call, x.runBy call s = some (.failure e)) ∧
      (∀ i m, x.Asks s fuel i m → x.definition.Linkable s) ∧
      (∀ call, (∀ i m, x.Asks s fuel i m → call i m = x.invoke fuel i m) →
        x.runBy call s = x.run? s fuel) ∧
      (s'.entryPoint = s.entryPoint →
        (Host.run? fuel s' sink x = none ↔ Host.run? fuel s sink x = none) ∧
          ∀ m, x.instantiate s fuel = some (.ok m) →
            (∀ e, x.callEntry s fuel m = some (.error e) →
              EndsInStop x fuel sink e s ∧ EndsInStop x fuel sink e s') ∧
            ∀ m', x.callEntry s fuel m = some (.ok m') →
              EndsInMemory x fuel sink m' s ∧ EndsInMemory x fuel sink m' s') := by
  have hinstance : x.instantiate s' fuel = x.instantiate s fuel :=
    Executable.instantiate_congr hspace hname fuel
  refine ⟨hinstance, fun e he => ?_, fun hunlinked => ?_, fun i m hasks => hasks.linkable,
    fun call hcall => Executable.runBy_eq_run? hcall, fun hentry => ?_⟩
  · exact ⟨endsInStop_of_instantiate he, endsInStop_of_instantiate (hinstance.trans he)⟩
  · obtain ⟨e, hfirst, hrun⟩ := Executable.exists_runBy_failure hunlinked
    have hends : x.run? s fuel = some (.failure e) :=
      (Executable.runBy_eq_run? fun _ _ _ => rfl).symm.trans (hrun _)
    refine ⟨e, hfirst, ?_, ((x.run?_eq_some_iff s fuel _).1 hends).calls_eq, hrun⟩
    rw [EndsInStop, Host.run?, hends]
    rfl
  · have hcallEntry (m : Memory) : x.callEntry s' fuel m = x.callEntry s fuel m := by
      rw [Executable.callEntry, Executable.callEntry, hentry]
    refine ⟨?_, fun m hm => ⟨fun e he => ?_, fun m' hm' => ?_⟩⟩
    · simp only [run?_eq_none_iff, hinstance, hcallEntry]
    · exact ⟨endsInStop_of_callEntry hm he,
        endsInStop_of_callEntry (hinstance.trans hm) ((hcallEntry m).trans he)⟩
    · exact ⟨endsInMemory_of_callEntry hm hm',
        endsInMemory_of_callEntry (hinstance.trans hm) ((hcallEntry m).trans hm')⟩

end Host

/-- A module whose start function faults, and whose entry point would trap. -/
def faultingStart : Definition where
  imports := [⟨"env", "fault", .function faultSignature⟩]
  memory := some ⟨1, none⟩
  hasGlobal := false
  segments := [⟨65533, [1, 2, 3]⟩]
  functions := [⟨plainSignature,
      [.act (.fault (.const 5) (.const 0) (.const 0) (.const 2) (.const 9))]⟩,
    ⟨plainSignature, [.act .unreachable]⟩]
  exports := [⟨"memory", .memory⟩, ⟨"main", .function 1⟩]
  start := some 0

theorem faultingStart_valid : faultingStart.Valid := by decide

/-- That neither the entry point nor the memory has the name in the settings is not seen after
a fault in the start function, and the name of the memory is not seen after one in the entry
point. -/
theorem faulting_hides_later_stages :
    (Host.EndsInStop ⟨faultingStart, faultingStart_valid⟩ 10 "main" (.fault ⟨5, 0, 0, 2, 9⟩) {} ∧
      Host.EndsInStop ⟨faultingStart, faultingStart_valid⟩ 10 "main" (.fault ⟨5, 0, 0, 2, 9⟩)
        { entryPoint := "absent", memoryExport := "absent", compileOptions := "-O2" }) ∧
    (Host.EndsInStop ⟨faulting, faulting_valid⟩ 10 "main" (.fault ⟨0x17, 0, 0, 3, 7⟩) {} ∧
      Host.EndsInStop ⟨faulting, faulting_valid⟩ 10 "main" (.fault ⟨0x17, 0, 0, 3, 7⟩)
        { memoryExport := "absent", compileOptions := "-O2" }) := by
  refine ⟨?_, ?_⟩
  · have hstages := @Host.earliest_failing_stage_decides ⟨faultingStart, faultingStart_valid⟩ {}
      { entryPoint := "absent", memoryExport := "absent", compileOptions := "-O2" } 10 "main"
      rfl rfl
    exact hstages.2.1 _ rfl
  · have hstages := @Host.earliest_failing_stage_decides ⟨faulting, faulting_valid⟩ {}
      { memoryExport := "absent", compileOptions := "-O2" } 10 "main" rfl rfl
    exact (hstages.2.2.2.2.2 rfl).2 _ rfl |>.1 _ rfl

end ProgramHost
