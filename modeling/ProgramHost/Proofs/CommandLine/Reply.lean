import ProgramHost.Proofs.CommandLine.Options
import ProgramHost.Proofs.Program.Endings
import ProgramHost.Proofs.Value.Render
import ProgramHost.CommandLine.Reply
/-!
# What a command line tells

A request from the command line ends in one of two ways: with a value and nothing to
report, or without a value and with one error to report. `Account` has one case for each
way to get there. The reply is made of the result and of the diagnostics alone, once as a
document and once for reading, so both forms and the exit code say the same.
-/

namespace ProgramHost

/-! ## The document of a request -/

theorem Value.toJson_sorted_ne_null (v : Value) : v.toJson.sorted ≠ .null := by
  cases v <;> simp [Value.toJson, Value.tagged, Value.taggedWith, Json.sorted]

theorem Position.proper_toJson (p : Position) : p.toJson.Proper :=
  .object (List.forall_mem_cons.2 ⟨Json.proper_nat _,
    List.forall_mem_singleton.2 (Json.proper_nat _)⟩)

theorem Location.proper_toJson (l : Location) : l.toJson.Proper :=
  .object (List.forall_mem_cons.2 ⟨l.start.proper_toJson,
    List.forall_mem_singleton.2 l.stop.proper_toJson⟩)

theorem Diagnostic.proper_toJson (d : Diagnostic) : d.toJson.Proper := by
  refine .object ?_
  simp only [List.forall_mem_cons]
  exact ⟨.string _, .string _, d.location.proper_toJson, .string _, .string _,
    List.forall_mem_nil _⟩

namespace CommandLine

open Program

theorem proper_document (ds : List Diagnostic) (r : Except EvalError Value) :
    (document ds r).Proper := by
  refine .object (List.forall_mem_cons.2 ⟨?_, List.forall_mem_singleton.2 ?_⟩)
  · cases r with
    | ok v => exact v.proper_toJson
    | error e => exact .null
  · exact .array (List.forall_mem_map.2 fun d _ => d.proper_toJson)

theorem sorted_document (ds : List Diagnostic) (r : Except EvalError Value) :
    (document ds r).sorted =
      .object [("diagnostics", .array (ds.map fun d => d.toJson.sorted)),
        ("value", match r with
          | .ok v => v.toJson.sorted
          | .error _ => .null)] := by
  have horder : ("diagnostics" : String) < "value" := by decide
  have hitems : Json.sortedItems (ds.map Diagnostic.toJson) =
      ds.map fun d => d.toJson.sorted := by
    rw [Json.sortedItems_eq_map, List.map_map]
    rfl
  cases r <;>
    simp only [document, Json.sorted, Json.sortedFields, Json.sortFields_cons,
      Json.sortFields_nil, Json.insertField, horder, if_true, hitems]

/-! ## How a request ends -/

/-- How a request ends, with its result and the diagnostics that are reported: none beside a
value, and otherwise a single one that is an error. A module that was refused has no
place to report. -/
inductive Account (fuel : Nat) (s : Settings) (b : Binary) :
    Except EvalError Value → List Diagnostic → Prop
  | value {x : Executable} {v : Value} :
      Host.validate b = .ok x → x.run? s fuel = some (.value v) → Account fuel s b (.ok v) []
  | refused {message : String} {d : Diagnostic} :
      Host.validate b = .error message → d.kind = .syntactic → d.severity = .error →
        d.location = ⟨⟨0, 0⟩, ⟨0, 0⟩⟩ → Account fuel s b (.error (.compile .invalid)) [d]
  | failed {x : Executable} {e : Ending} {q : RunError} {d : Diagnostic} :
      Host.validate b = .ok x → x.run? s fuel = some e → e.result = .error q →
        d.kind = .runtime → d.severity = .error → Account fuel s b (.error (.run q)) [d]

theorem Account.ofExecutes {fuel : Nat} {s : Settings} {sink : String} {b : Binary}
    {j : Journal} {r : Except EvalError Value} (h : Host.Executes fuel s sink b j r) :
    Account fuel s b r (j.sink sink) := by
  cases h with
  | refused hv =>
      simpa [Journal.sink_cons, Event.reported?] using Account.refused hv rfl rfl rfl
  | @ran x e hv hrun =>
      have hsink : Journal.sink (.note .validated :: e.events sink) sink =
          e.diagnostic?.toList := by
        simp [Journal.sink_cons, Event.reported?, Ending.sink_events]
      rw [hsink]
      cases e with
      | value v => exact .value hv hrun
      | fault c => exact .failed hv hrun rfl rfl rfl
      | failure e => exact .failed hv hrun rfl rfl rfl

/-- There is a value exactly if the module is valid and its run gives one. -/
theorem Account.exists_ok_iff {fuel : Nat} {s : Settings} {b : Binary}
    {r : Except EvalError Value} {ds : List Diagnostic} (h : Account fuel s b r ds) :
    (∃ v, r = .ok v) ↔ ∃ x v, Host.validate b = .ok x ∧ x.run? s fuel = some (.value v) := by
  cases h with
  | @value x v hv hrun => exact iff_of_true ⟨v, rfl⟩ ⟨x, v, hv, hrun⟩
  | refused hv =>
      refine iff_of_false (by simp) ?_
      rintro ⟨x, v, hv', -⟩
      cases hv.symm.trans hv'
  | failed hv hrun hresult =>
      refine iff_of_false (by simp) ?_
      rintro ⟨x, v, hv', hrun'⟩
      cases hv.symm.trans hv'
      cases hrun.symm.trans hrun'
      cases hresult

/-- A reply tells the result and the diagnostics of a request: as a document, or the line of
the value alone, or the printed form of the diagnostic alone. It is never empty. -/
structure Reply.Tells (R : Reply) (json colour : Bool) (r : Except EvalError Value)
    (ds : List Diagnostic) : Prop where
  exit_eq_zero_iff : R.exit = 0 ↔ ∃ v, r = .ok v
  exit_eq_one_iff : R.exit = 1 ↔ ∃ e, r = .error e
  err_eq : R.err = ""
  document : json = true → ∃ (w j : Json),
    j = .object [("diagnostics", .array (ds.map fun d => d.toJson.sorted)), ("value", w)] ∧
      R.out = j.compact ++ "\n" ∧ Json.IsTextOf j.compact j ∧
      (w = .null ↔ R.exit = 1) ∧ ∀ v, r = .ok v → w = v.toJson.sorted
  value : json = false → ∀ v, r = .ok v → R.out = String.ofList v.display ++ "\n"
  diagnostic : json = false → ∀ d, ds = [d] → d.Prints colour R.out
  ne_empty : R.out ≠ ""

theorem Account.exists_eq_singleton {fuel : Nat} {s : Settings} {b : Binary} {q : EvalError}
    {ds : List Diagnostic} (h : Account fuel s b (.error q) ds) : ∃ d, ds = [d] := by
  cases h with
  | @refused _ d => exact ⟨d, rfl⟩
  | @failed _ _ _ d => exact ⟨d, rfl⟩

/-- Without a value the diagnostic is printed and no line follows. -/
theorem Account.prints {fuel : Nat} {s : Settings} {b : Binary} {r : Except EvalError Value}
    {d : Diagnostic} (h : Account fuel s b r [d]) (colour : Bool) :
    d.Prints colour (plainText colour [d] r) := by
  rw [Diagnostic.prints_iff]
  cases h <;> simp [plainText, valueText, String.join]

theorem Account.reply_tells {fuel : Nat} {s : Settings} {b : Binary}
    {r : Except EvalError Value} {ds : List Diagnostic} (h : Account fuel s b r ds)
    (json colour : Bool) : (reply json colour ds r).Tells json colour r ds where
  exit_eq_zero_iff := by cases r <;> simp [reply, exitCode]
  exit_eq_one_iff := by cases r <;> simp [reply, exitCode]
  err_eq := rfl
  document := by
    rintro rfl
    refine ⟨_, _, sorted_document ds r, rfl, (proper_document ds r).sorted.isTextOf_compact,
      ?_, ?_⟩
    · cases r with
      | ok v => exact iff_of_false v.toJson_sorted_ne_null (by simp [reply, exitCode])
      | error e => exact iff_of_true rfl rfl
    · rintro v rfl
      rfl
  value := by
    rintro rfl v rfl
    cases h
    simp [reply, plainText, valueText, String.join]
  diagnostic := by
    rintro rfl d rfl
    exact h.prints colour
  ne_empty := by
    cases json with
    | true => simp [reply, documentText]
    | false =>
        cases r with
        | ok v => simp [reply, plainText, valueText]
        | error q =>
            obtain ⟨d, rfl⟩ := h.exists_eq_singleton
            exact (h.prints colour).ne_empty

theorem respond?_tells {fuel : Nat} {arguments : List String} {o : Options} {b : Binary}
    {j : Journal} {r : Except EvalError Value} {read : String → Except ReadFailure Binary}
    (hexecute : Host.execute? fuel o.settings sinkName b = some (j, r))
    (hparse : Options.parse arguments = .ok o) (hread : read o.path = .ok b)
    (e : Environment) :
    ∃ R, respond? fuel arguments e read = some R ∧
      R.Tells o.json e.coloursReport r (j.sink sinkName) := by
  have haccount := Account.ofExecutes
    ((Host.execute?_eq_some_iff fuel o.settings sinkName b j r).1 hexecute)
  refine ⟨_, ?_, haccount.reply_tells o.json e.coloursReport⟩
  simp only [respond?, hparse, hread, serve?, hexecute, Option.map_some]

/-- A module whose run ends, if it gets as far as a run, comes to one result with its
diagnostics. Every command line that asks for that module with those settings tells just
these, with the same exit code with and without the flag for a document. -/
theorem command_line_tells_how_request_ends {fuel : Nat} {s : Settings} {b : Binary}
    (hends : ∀ x, Host.validate b = .ok x → ∃ e, x.run? s fuel = some e) :
    ∃ j r, Host.execute? fuel s sinkName b = some (j, r) ∧
      Account fuel s b r (j.sink sinkName) ∧
      ((∃ v, r = .ok v) ↔ ∃ x v, Host.validate b = .ok x ∧ x.run? s fuel = some (.value v)) ∧
      ∀ (arguments : List String) (o : Options) (e : Environment)
        (read : String → Except ReadFailure Binary),
        Options.parse arguments = .ok o → o.settings = s → read o.path = .ok b →
          ∃ R, respond? fuel arguments e read = some R ∧
            R.Tells o.json e.coloursReport r (j.sink sinkName) ∧
            (o.json = false → ∃ R', respond? fuel ("--json" :: arguments) e read = some R' ∧
              R'.exit = R.exit ∧ R'.Tells true e.coloursReport r (j.sink sinkName)) := by
  obtain ⟨⟨j, r⟩, hexecute⟩ : ∃ q, Host.execute? fuel s sinkName b = some q := by
    rw [← Option.ne_none_iff_exists']
    intro hnone
    obtain ⟨x, hv, hrun⟩ := (Host.execute?_eq_none_iff fuel s sinkName b).1 hnone
    obtain ⟨e, he⟩ := hends x hv
    cases hrun.symm.trans he
  have haccount := Account.ofExecutes
    ((Host.execute?_eq_some_iff fuel s sinkName b j r).1 hexecute)
  refine ⟨j, r, hexecute, haccount, haccount.exists_ok_iff, ?_⟩
  rintro arguments o e read hparse rfl hread
  obtain ⟨R, hR, htells⟩ := respond?_tells hexecute hparse hread e
  refine ⟨R, hR, htells, fun hjson => ?_⟩
  obtain ⟨R', hR', htells'⟩ := respond?_tells (o := { o with json := true }) hexecute
    (Options.parse_json_cons hparse hjson) hread e
  refine ⟨R', hR', ?_, htells'⟩
  cases r with
  | ok v =>
      rw [htells.exit_eq_zero_iff.2 ⟨v, rfl⟩, htells'.exit_eq_zero_iff.2 ⟨v, rfl⟩]
  | error q =>
      rw [htells.exit_eq_one_iff.2 ⟨q, rfl⟩, htells'.exit_eq_one_iff.2 ⟨q, rfl⟩]

/-- The faulting module, asked for by name where colours are forced: one diagnostic is
printed in colour, and the document goes with the same exit code. -/
theorem fault_is_told :
    ∃ R R' : Reply,
      respond? 10 ["m.wat"] ⟨some "1", none⟩ (fun _ => .ok (.defined faulting)) = some R ∧
      respond? 10 ["--json", "m.wat"] ⟨some "1", none⟩ (fun _ => .ok (.defined faulting)) =
        some R' ∧
      R.out = "\n\x1b[1;31m• Error:\x1b[0m Conditional given a non-boolean condition\n\n" ++
        "  The condition of an if or while must evaluate to a boolean.\n  at 3:7\n\n" ∧
      R.exit = 1 ∧ R'.exit = 1 := by
  obtain ⟨j, r, hexecute, -, -, htold⟩ := @command_line_tells_how_request_ends
    10 {} (.defined faulting) (fun x hx => by cases hx; exact ⟨_, rfl⟩)
  obtain ⟨R, hR, htells, hjson⟩ := htold ["m.wat"] ⟨"m.wat", {}, false⟩ ⟨some "1", none⟩
    (fun _ => .ok (.defined faulting)) rfl rfl rfl
  obtain ⟨R', hR', hexit, -⟩ := hjson rfl
  cases hexecute
  have hone := htells.exit_eq_one_iff.2 ⟨_, rfl⟩
  have hout := Diagnostic.prints_iff.1 (htells.diagnostic rfl _ rfl)
  exact ⟨R, R', hR, hR', hout.trans (by decide +kernel), hone, hexit.trans hone⟩

end CommandLine

end ProgramHost
