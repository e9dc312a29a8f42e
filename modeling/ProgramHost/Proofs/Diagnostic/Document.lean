import ProgramHost.Proofs.CommandLine.Reply
import ProgramHost.Proofs.Json.Fields
/-!
# Diagnostics are read back from their documents

`Diagnostic.ofJson?` reads a diagnostic out of a document by the names of the fields, so it
does not matter in what order they stand. Whatever the two texts of a diagnostic hold, its
document is read back as the diagnostic, alone as well as in the list of the document that
answers a request.
-/

namespace ProgramHost

open Json

def Kind.ofKey? (key : String) : Option Kind :=
  [syntactic, runtime].find? fun k => k.key = key

def Severity.ofKey? (key : String) : Option Severity :=
  [warning, error].find? fun s => s.key = key

def Position.ofJson? (j : Json) : Option Position :=
  return ⟨← (← j.field? "line").word?, ← (← j.field? "column").word?⟩

def Location.ofJson? (j : Json) : Option Location :=
  return ⟨← Position.ofJson? (← j.field? "start"), ← Position.ofJson? (← j.field? "end")⟩

def Diagnostic.ofJson? (j : Json) : Option Diagnostic :=
  return {
    kind := ← Kind.ofKey? (← (← j.field? "kind").string?)
    severity := ← Severity.ofKey? (← (← j.field? "severity").string?)
    location := ← Location.ofJson? (← j.field? "location")
    explain := ← (← j.field? "explain").string?
    elaborate := ← (← j.field? "elaborate").string? }

def Diagnostic.listOfJson? (j : Json) : Option (List Diagnostic) :=
  j.items?.bind fun js => js.mapM ofJson?

theorem Kind.ofKey?_key (k : Kind) : ofKey? k.key = some k := by
  cases k <;> decide

theorem Severity.ofKey?_key (s : Severity) : ofKey? s.key = some s := by
  cases s <;> decide

/-! ## Reading either form -/

variable {j : Json}

theorem Position.ofJson?_eq {p : Position} (h : Form p.toJson j) : ofJson? j = some p := by
  have hnodup : p.toJson.names.Nodup := by simp [toJson, names]
  have hline : j.field? "line" = some (.nat p.line.toNat) :=
    h.field?_eq hnodup rfl (sorted_nat _)
  have hcolumn : j.field? "column" = some (.nat p.column.toNat) :=
    h.field?_eq hnodup rfl (sorted_nat _)
  simp only [ofJson?, hline, hcolumn, word?_nat, Option.bind_eq_bind, Option.bind_some]
  rfl

theorem Location.ofJson?_eq {l : Location} (h : Form l.toJson j) : ofJson? j = some l := by
  have hnodup : l.toJson.names.Nodup := by simp [toJson, names]
  obtain ⟨start, hstart, hstart'⟩ := @Form.exists_field? _ _ _ "start" h hnodup rfl
  obtain ⟨stop, hstop, hstop'⟩ := @Form.exists_field? _ _ _ "end" h hnodup rfl
  simp only [ofJson?, hstart, hstop, Position.ofJson?_eq hstart', Position.ofJson?_eq hstop',
    Option.bind_eq_bind, Option.bind_some]
  rfl

namespace Diagnostic

theorem nodup_names_toJson (d : Diagnostic) : d.toJson.names.Nodup := by
  simp [toJson, names]

/-- A diagnostic is read back from either form of its document. -/
theorem ofJson?_eq {d : Diagnostic} (h : Form d.toJson j) : ofJson? j = some d := by
  have hkind : j.field? "kind" = some (.string d.kind.key) :=
    h.field?_eq d.nodup_names_toJson rfl rfl
  have hseverity : j.field? "severity" = some (.string d.severity.key) :=
    h.field?_eq d.nodup_names_toJson rfl rfl
  have hexplain : j.field? "explain" = some (.string d.explain) :=
    h.field?_eq d.nodup_names_toJson rfl rfl
  have helaborate : j.field? "elaborate" = some (.string d.elaborate) :=
    h.field?_eq d.nodup_names_toJson rfl rfl
  obtain ⟨location, hlocation, hform⟩ :=
    @Form.exists_field? _ _ _ "location" h d.nodup_names_toJson rfl
  simp only [ofJson?, hkind, hseverity, hlocation, hexplain, helaborate, Location.ofJson?_eq hform,
    string?, Kind.ofKey?_key, Severity.ofKey?_key, Option.bind_eq_bind, Option.bind_some]
  rfl

theorem listOfJson?_array {ds : List Diagnostic} {form : Diagnostic → Json}
    (h : ∀ d, Form d.toJson (form d)) : listOfJson? (.array (ds.map form)) = some ds := by
  change (ds.map form).mapM ofJson? = some ds
  induction ds with
  | nil => rfl
  | cons d ds ih =>
      rw [List.map_cons, List.mapM_cons, ofJson?_eq (h d), ih]
      rfl

theorem names_toJson (d : Diagnostic) :
    d.toJson.names = ["kind", "severity", "location", "explain", "elaborate"] := rfl

theorem names_sorted_toJson (d : Diagnostic) :
    d.toJson.sorted.names = ["elaborate", "explain", "kind", "location", "severity"] := by
  have hexplain : ("elaborate" : String) < "explain" := by decide
  have hlocation : ("elaborate" : String) < "location" ∧ ("explain" : String) < "location" := by
    decide
  have hseverity : ("elaborate" : String) < "severity" ∧ ("explain" : String) < "severity" ∧
      ("location" : String) < "severity" := by decide
  have hkind : ("elaborate" : String) < "kind" ∧ ("explain" : String) < "kind" ∧
      ¬ ("location" : String) < "kind" := by decide
  simp only [toJson, Json.sorted, sortedFields, sortFields_cons, sortFields_nil, insertField,
    hexplain, hlocation, hseverity, hkind, if_true, if_false, names, List.map_cons, List.map_nil]

/-! ## Reading the texts -/

theorem conveys_compact (d : Diagnostic) : Conveys ofJson? d.toJson.compact d :=
  d.proper_toJson.conveys_compact (ofJson?_eq (.inl rfl))

theorem conveys_compact_sorted (d : Diagnostic) : Conveys ofJson? d.toJson.sorted.compact d :=
  d.proper_toJson.sorted.conveys_compact (ofJson?_eq (.inr rfl))

theorem conveys_compact_list (ds : List Diagnostic) :
    Conveys listOfJson? (Json.array (ds.map fun d => d.toJson.sorted)).compact ds := by
  have hproper : (Json.array (ds.map fun d => d.toJson.sorted)).Proper :=
    .array (List.forall_mem_map.2 fun d _ => d.proper_toJson.sorted)
  exact hproper.conveys_compact (listOfJson?_array fun _ => .inr rfl)

end Diagnostic

namespace CommandLine

def diagnosticsOfJson? (j : Json) : Option (List Diagnostic) :=
  (j.field? "diagnostics").bind Diagnostic.listOfJson?

theorem diagnosticsOfJson?_sorted (ds : List Diagnostic) (r : Except EvalError Value) :
    diagnosticsOfJson? (document ds r).sorted = some ds := by
  have hnodup : (document ds r).names.Nodup := by simp [document, names]
  have hfield : (document ds r).field? "diagnostics" =
      some (.array (ds.map Diagnostic.toJson)) := rfl
  have hitems : (Json.array (ds.map Diagnostic.toJson)).sorted =
      .array (ds.map fun d => d.toJson.sorted) := by
    rw [Json.sorted, sortedItems_eq_map, List.map_map]
    rfl
  rw [diagnosticsOfJson?, field?_sorted hnodup, hfield, Option.map_some, hitems]
  exact Diagnostic.listOfJson?_array fun _ => .inr rfl

theorem compact_answer (js : List Json) (w : Json) :
    (Json.object [("diagnostics", .array js), ("value", w)]).compact =
      "\x7b\"diagnostics\":" ++ (Json.array js).compact ++ ",\"value\":" ++ w.compact ++
        "\x7d" := by
  rw [← String.toList_inj]
  simp [Json.compact, Json.text, Json.moreFields, Json.quoted, Json.escape]

theorem exists_compact_document_eq (ds : List Diagnostic) (r : Except EvalError Value) :
    ∃ value, (document ds r).sorted.compact = "\x7b\"diagnostics\":" ++
      (Json.array (ds.map fun d => d.toJson.sorted)).compact ++ ",\"value\":" ++ value ++
        "\x7d" :=
  ⟨_, (congrArg Json.compact (sorted_document ds r)).trans (compact_answer _ _)⟩

end CommandLine

/-- Whatever the texts of diagnostics hold, their documents have the grammar and no control
characters, and are read back as the diagnostics, in order: one by one, in the list inside
the document that answers a request, and in that document. So diagnostics are equal if their
documents are, in either order of the fields. -/
theorem diagnostics_are_conveyed_by_documents (ds : List Diagnostic)
    (r : Except EvalError Value) (colour : Bool) :
    (∀ d : Diagnostic, Conveys Diagnostic.ofJson? d.toJson.compact d ∧
        d.toJson.names = ["kind", "severity", "location", "explain", "elaborate"]) ∧
      (∃ list value body : String,
        (CommandLine.reply true colour ds r).out = body ++ "\n" ∧
        body = "\x7b\"diagnostics\":" ++ list ++ ",\"value\":" ++ value ++ "\x7d" ∧
        list = (Json.array (ds.map fun d => d.toJson.sorted)).compact ∧
        Conveys Diagnostic.listOfJson? list ds ∧
        Conveys CommandLine.diagnosticsOfJson? body ds) ∧
      (∀ d : Diagnostic,
        d.toJson.sorted.names = ["elaborate", "explain", "kind", "location", "severity"]) ∧
      (∀ d d' : Diagnostic, d.toJson.compact = d'.toJson.compact ↔ d = d') ∧
      ∀ d d' : Diagnostic, d.toJson.sorted.compact = d'.toJson.sorted.compact ↔ d = d' := by
  refine ⟨fun d => ⟨d.conveys_compact, d.names_toJson⟩, ?_, Diagnostic.names_sorted_toJson,
    fun d d' => ⟨fun h => ?_, fun h => h ▸ rfl⟩, fun d d' => ⟨fun h => ?_, fun h => h ▸ rfl⟩⟩
  · obtain ⟨value, hvalue⟩ := CommandLine.exists_compact_document_eq ds r
    have hanswer : Conveys CommandLine.diagnosticsOfJson?
        (CommandLine.document ds r).sorted.compact ds :=
      (CommandLine.proper_document ds r).sorted.conveys_compact
        (CommandLine.diagnosticsOfJson?_sorted ds r)
    refine ⟨_, value, (CommandLine.document ds r).sorted.compact, ?out, hvalue, rfl,
      Diagnostic.conveys_compact_list ds, hanswer⟩
    rw [CommandLine.reply, if_pos rfl, CommandLine.documentText]
  · have hother := d'.conveys_compact
    rw [← h] at hother
    exact d.conveys_compact.unique hother
  · have hother := d'.conveys_compact_sorted
    rw [← h] at hother
    exact d.conveys_compact_sorted.unique hother

end ProgramHost
