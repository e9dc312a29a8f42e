import ProgramHost.Proofs.Compile.Flight
/-!
# The outcome of a compilation

A module needs five things in a row: a tree, a document of the tree, bytes from
the compiler, a compiler without an error to report, and a host that takes the
bytes. `Outcome` says what a compilation comes to by the first of them that is
missing, and every compilation comes to exactly this.
-/

namespace ProgramHost

open Program

/-- What a compilation comes to, by the first of its conditions that fails. Each case has the
conditions before it as hypotheses, so no two cases can hold at once. -/
inductive Outcome (parser : Parser) (script : Script) (source : String) : Compiled → Prop
  | unparsed : (parser source).2 = none → Outcome parser script source (.error .unparsed)
  | unserialized {tree : Tree} {e : TreeError} :
      (parser source).2 = some tree → tree.serialize = .error e →
        Outcome parser script source (.error (.unserialized e))
  | panic {text message : String} :
      parser.Serializes source text → script.product = .panic message →
        Outcome parser script source (.panic message)
  | backend {text : String} {c : Complaint} :
      parser.Serializes source text → script.product = .complaint c →
        Outcome parser script source (.error (.backend c))
  | flagged {text : String} {b : Binary} :
      parser.Serializes source text → script.product = .module b → script.flagged = true →
        Outcome parser script source (.error .flagged)
  | invalid {text : String} {b : Binary} {message : String} :
      parser.Serializes source text → script.product = .module b → script.flagged = false →
        Host.validate b = .error message → Outcome parser script source (.error .invalid)
  | module {text : String} {b : Binary} {x : Executable} :
      parser.Serializes source text → script.product = .module b → script.flagged = false →
        Host.validate b = .ok x → Outcome parser script source (.module x)

theorem outcome_compile (parser : Parser) (compiler : Compiler) (s : Settings) (sink : String)
    (id : Nat) (source : String) :
    Outcome parser (compiler id) source (compile parser compiler s sink id source).2.1 := by
  rw [compile_eq]
  cases htree : (parser source).2 with
  | none =>
      rw [(parser.document_eq_unparsed_iff source).2 htree]
      exact .unparsed htree
  | some tree =>
      cases htext : tree.serialize with
      | error e =>
          rw [(parser.document_eq_unserialized_iff source e).2 ⟨tree, htree, htext⟩]
          exact .unserialized htree htext
      | ok text =>
          have hs : parser.Serializes source text := ⟨tree, htree, htext⟩
          rw [(parser.document_eq_ok_iff source text).2 hs]
          simp only [Script.verdict]
          cases hp : (compiler id).product with
          | panic message => exact .panic hs hp
          | complaint c => exact .backend hs hp
          | module b =>
              cases hf : (compiler id).flagged with
              | true => exact .flagged hs hp hf
              | false =>
                  cases hv : Host.validate b with
                  | error message => simpa [hv] using Outcome.invalid hs hp hf hv
                  | ok x => simpa [hv] using Outcome.module hs hp hf hv

theorem Outcome.eq_result {parser : Parser} {compiler : Compiler} {id : Nat} {source : String}
    {r : Compiled} (h : Outcome parser (compiler id) source r) (s : Settings) (sink : String) :
    (compile parser compiler s sink id source).2.1 = r := by
  rw [compile_eq]
  cases h with
  | unparsed htree => rw [(parser.document_eq_unparsed_iff source).2 htree]
  | unserialized htree htext =>
      rw [(parser.document_eq_unserialized_iff source _).2 ⟨_, htree, htext⟩]
  | panic hs hp => simp [(parser.document_eq_ok_iff source _).2 hs, Script.verdict, hp]
  | backend hs hp => simp [(parser.document_eq_ok_iff source _).2 hs, Script.verdict, hp]
  | flagged hs hp hf =>
      simp [(parser.document_eq_ok_iff source _).2 hs, Script.verdict, hp, hf]
  | invalid hs hp hf hv =>
      simp [(parser.document_eq_ok_iff source _).2 hs, Script.verdict, hp, hf, hv]
  | module hs hp hf hv =>
      simp [(parser.document_eq_ok_iff source _).2 hs, Script.verdict, hp, hf, hv]

theorem compile_result_eq_iff (parser : Parser) (compiler : Compiler) (s : Settings)
    (sink : String) (id : Nat) (source : String) (r : Compiled) :
    (compile parser compiler s sink id source).2.1 = r ↔
      Outcome parser (compiler id) source r := by
  constructor
  · intro h
    rw [← h]
    exact outcome_compile parser compiler s sink id source
  · intro h
    exact h.eq_result s sink

/-! Each outcome, read as the conditions that hold before it. -/

section

variable (parser : Parser) (script : Script) (source : String)

theorem outcome_unparsed_iff :
    Outcome parser script source (.error .unparsed) ↔ (parser source).2 = none := by
  constructor
  · rintro (h | _)
    exact h
  · exact .unparsed

theorem outcome_unserialized_iff (e : TreeError) :
    Outcome parser script source (.error (.unserialized e)) ↔
      ∃ tree, (parser source).2 = some tree ∧ tree.serialize = .error e := by
  constructor
  · rintro (_ | ⟨htree, htext⟩)
    exact ⟨_, htree, htext⟩
  · rintro ⟨tree, htree, htext⟩
    exact .unserialized htree htext

theorem outcome_panic_iff (message : String) :
    Outcome parser script source (.panic message) ↔
      ∃ text, parser.Serializes source text ∧ script.product = .panic message := by
  constructor
  · rintro (_ | _ | ⟨hs, hp⟩)
    exact ⟨_, hs, hp⟩
  · rintro ⟨text, hs, hp⟩
    exact .panic hs hp

theorem outcome_backend_iff (c : Complaint) :
    Outcome parser script source (.error (.backend c)) ↔
      ∃ text, parser.Serializes source text ∧ script.product = .complaint c := by
  constructor
  · rintro (_ | _ | _ | ⟨hs, hp⟩)
    exact ⟨_, hs, hp⟩
  · rintro ⟨text, hs, hp⟩
    exact .backend hs hp

theorem outcome_flagged_iff :
    Outcome parser script source (.error .flagged) ↔
      ∃ text b, parser.Serializes source text ∧ script.product = .module b ∧
        ∃ q ∈ script.remarks, 4 ≤ q.severityCode := by
  rw [← Script.flagged_iff]
  constructor
  · rintro (_ | _ | _ | _ | ⟨hs, hp, hf⟩)
    exact ⟨_, _, hs, hp, hf⟩
  · rintro ⟨text, b, hs, hp, hf⟩
    exact .flagged hs hp hf

theorem outcome_invalid_iff :
    Outcome parser script source (.error .invalid) ↔
      ∃ text b message, parser.Serializes source text ∧ script.product = .module b ∧
        (∀ q ∈ script.remarks, q.severityCode < 4) ∧ Host.validate b = .error message := by
  rw [← Script.flagged_eq_false_iff]
  constructor
  · rintro (_ | _ | _ | _ | _ | ⟨hs, hp, hf, hv⟩)
    exact ⟨_, _, _, hs, hp, hf, hv⟩
  · rintro ⟨text, b, message, hs, hp, hf, hv⟩
    exact .invalid hs hp hf hv

theorem outcome_module_iff (x : Executable) :
    Outcome parser script source (.module x) ↔
      ∃ text b, parser.Serializes source text ∧ script.product = .module b ∧
        (∀ q ∈ script.remarks, q.severityCode < 4) ∧ Host.validate b = .ok x := by
  rw [← Script.flagged_eq_false_iff]
  constructor
  · rintro (_ | _ | _ | _ | _ | _ | ⟨hs, hp, hf, hv⟩)
    exact ⟨_, _, hs, hp, hf, hv⟩
  · rintro ⟨text, b, hs, hp, hf, hv⟩
    exact .module hs hp hf hv

end

/-- The records of the host are those of the bytes that it is given, and it is given
none beside a remark that is an error. -/
theorem validations_compile (parser : Parser) (compiler : Compiler) (s : Settings)
    (sink : String) (id : Nat) (source : String) :
    Journal.validations (compile parser compiler s sink id source).1 =
      match parser.document source, (compiler id).product with
      | .ok _, .module b =>
          if (compiler id).flagged then [] else Journal.notes (Host.accept sink b).1
      | _, _ => [] := by
  rw [Journal.validations, notes_compile]
  cases parser.document source with
  | error e => rfl
  | ok text =>
      rw [Script.notes_aftermath]
      cases (compiler id).product with
      | panic message => rfl
      | complaint c => rfl
      | module b =>
          cases (compiler id).flagged with
          | true => rfl
          | false =>
              simp only [Host.notes_accept]
              cases Host.validate b <;> rfl

theorem validations_compile_cases (parser : Parser) (compiler : Compiler) (s : Settings)
    (sink : String) (id : Nat) (source : String) :
    ((∃ text b, parser.Serializes source text ∧ (compiler id).product = .module b ∧
          (compiler id).flagged = false) ∧
        ∃ n, Journal.validations (compile parser compiler s sink id source).1 = [n]) ∨
      ((¬ ∃ text b, parser.Serializes source text ∧ (compiler id).product = .module b ∧
          (compiler id).flagged = false) ∧
        Journal.validations (compile parser compiler s sink id source).1 = []) := by
  rw [validations_compile]
  simp only [← Parser.document_eq_ok_iff]
  cases parser.document source with
  | error e => simp
  | ok text =>
      cases (compiler id).product with
      | panic message => simp
      | complaint c => simp
      | module b =>
          cases (compiler id).flagged with
          | true => simp
          | false =>
              simp only [Host.notes_accept]
              cases Host.validate b <;> simp

/-- A compilation gives a module only if the source text has a tree, the tree has a
document, the compiler gives bytes for it, no remark is an error and the host takes
the bytes; of the conditions that fail the first one is the reason. -/
theorem compile_decided_by_first_failure (parser : Parser) (compiler : Compiler)
    (s : Settings) (sink : String) (id : Nat) (source : String) :
    ∃ j r n, compile parser compiler s sink id source = (j, r, n) ∧
      (∀ x, r = .module x ↔
        ∃ text b, parser.Serializes source text ∧ (compiler id).product = .module b ∧
          (∀ q ∈ (compiler id).remarks, q.severityCode < 4) ∧ Host.validate b = .ok x) ∧
      (r = .error .unparsed ↔ (parser source).2 = none) ∧
      (∀ e, r = .error (.unserialized e) ↔
        ∃ tree, (parser source).2 = some tree ∧ tree.serialize = .error e) ∧
      (∀ message, r = .panic message ↔
        ∃ text, parser.Serializes source text ∧ (compiler id).product = .panic message) ∧
      (∀ c, (r = .error (.backend c) ↔
          ∃ text, parser.Serializes source text ∧ (compiler id).product = .complaint c) ∧
        (CompileError.backend c).complaint = c) ∧
      (r = .error .flagged ↔
        ∃ text b, parser.Serializes source text ∧ (compiler id).product = .module b ∧
          ∃ q ∈ (compiler id).remarks, 4 ≤ q.severityCode) ∧
      (r = .error .invalid ↔
        ∃ text b message, parser.Serializes source text ∧
          (compiler id).product = .module b ∧
          (∀ q ∈ (compiler id).remarks, q.severityCode < 4) ∧
          Host.validate b = .error message) ∧
      (∀ text, parser.Serializes source text →
        Journal.requests j = [(text, s.compileOptions)]) ∧
      ((∀ text, ¬ parser.Serializes source text) → Journal.requests j = []) ∧
      (Journal.validations j ≠ [] ↔
        ∃ text b, parser.Serializes source text ∧ (compiler id).product = .module b ∧
          ∀ q ∈ (compiler id).remarks, q.severityCode < 4) ∧
      (Journal.validations j).length ≤ 1 := by
  have hr := compile_result_eq_iff parser compiler s sink id source
  have hasked := requests_compile parser compiler s sink id source
  have hgiven := validations_compile_cases parser compiler s sink id source
  simp only [Script.flagged_eq_false_iff] at hgiven
  generalize compile parser compiler s sink id source = o at hr hasked hgiven
  obtain ⟨j, r, n⟩ := o
  refine ⟨j, r, n, rfl, fun x => (hr _).trans (outcome_module_iff _ _ _ x),
    (hr _).trans (outcome_unparsed_iff _ _ _),
    fun e => (hr _).trans (outcome_unserialized_iff _ _ _ e),
    fun message => (hr _).trans (outcome_panic_iff _ _ _ message),
    fun c => ⟨(hr _).trans (outcome_backend_iff _ _ _ c), rfl⟩,
    (hr _).trans (outcome_flagged_iff _ _ _),
    (hr _).trans (outcome_invalid_iff _ _ _), ?asked, ?unasked, ?given, ?once⟩
  case asked =>
    intro text hs
    rw [hasked, (parser.document_eq_ok_iff source text).2 hs]
  case unasked =>
    intro hs
    rw [hasked]
    cases hd : parser.document source with
    | error e => rfl
    | ok text => exact absurd ((parser.document_eq_ok_iff source text).1 hd) (hs text)
  case given =>
    rcases hgiven with ⟨hs, n, hn⟩ | ⟨hs, hn⟩
    · rw [hn]
      exact iff_of_true (List.cons_ne_nil n []) hs
    · rw [hn]
      exact iff_of_false (fun h => h rfl) hs
  case once =>
    rcases hgiven with ⟨-, n, hn⟩ | ⟨-, hn⟩ <;> simp [hn]

end ProgramHost
