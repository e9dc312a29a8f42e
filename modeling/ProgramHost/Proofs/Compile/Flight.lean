import ProgramHost.Compile.Flight
import ProgramHost.Proofs.Host
/-!
# A compilation in closed form

A compilation is decided by the document of the tree and by the script of the
context: what happens is the parsing, the whole life of the context and what comes
after it, and the result is the verdict of the script. The flight that carries the
work along is opened here only; all else goes through `compile_eq` and through
what each part of a compilation is in the views of the journal.
-/

namespace ProgramHost

open Program

namespace Parser

def document (parser : Parser) (source : String) : Except CompileError String :=
  match (parser source).2 with
  | none => .error .unparsed
  | some tree =>
      match tree.serialize with
      | .ok text => .ok text
      | .error e => .error (.unserialized e)

def events (parser : Parser) (sink source : String) : Journal :=
  .parse source :: Journal.reports sink (parser source).1

def prologue (parser : Parser) (sink source text : String) : Journal :=
  parser.events sink source ++ [.note (.serialized text.utf8ByteSize), .note .creating]

/-- The source text has a tree, and the tree has the document `text`. -/
def Serializes (parser : Parser) (source text : String) : Prop :=
  ∃ tree, (parser source).2 = some tree ∧ tree.serialize = .ok text

theorem document_eq_ok_iff (parser : Parser) (source text : String) :
    parser.document source = .ok text ↔ parser.Serializes source text := by
  unfold document Serializes
  cases (parser source).2 with
  | none => simp
  | some tree => cases h : tree.serialize <;> simp [h]

theorem Serializes.unique {parser : Parser} {source text text' : String}
    (h : parser.Serializes source text) (h' : parser.Serializes source text') :
    text = text' := by
  rw [← document_eq_ok_iff] at h h'
  exact Except.ok.inj (h.symm.trans h')

theorem document_eq_unparsed_iff (parser : Parser) (source : String) :
    parser.document source = .error .unparsed ↔ (parser source).2 = none := by
  unfold document
  cases (parser source).2 with
  | none => simp
  | some tree => cases h : tree.serialize <;> simp [h]

theorem document_eq_unserialized_iff (parser : Parser) (source : String) (e : TreeError) :
    parser.document source = .error (.unserialized e) ↔
      ∃ tree, (parser source).2 = some tree ∧ tree.serialize = .error e := by
  unfold document
  cases (parser source).2 with
  | none => simp
  | some tree => cases h : tree.serialize <;> simp [h]

end Parser

namespace Script

def remarks (s : Script) : List Remark :=
  s.onCreate ++ s.early ++ s.late ++ s.onDestroy

def flagged (s : Script) : Bool := s.remarks.any Remark.isError

def told (sink : String) (rs : List Remark) : Journal :=
  Journal.reports sink (rs.map Remark.diagnostic)

/-- The life of a context from its creation to its destruction. -/
def life (s : Script) (sink : String) (id : Nat) (tree options : String) : Journal :=
  .create id :: told sink s.onCreate ++
    .compile id tree options :: told sink (s.early ++ s.late) ++
    .note .destroying :: told sink s.onDestroy ++ [.destroy id]

def verdict (s : Script) : Compiled :=
  match s.product with
  | .panic message => .panic message
  | .complaint c => .error (.backend c)
  | .module b =>
      if s.flagged then .error .flagged
      else
        match Host.validate b with
        | .ok x => .module x
        | .error _ => .error .invalid

/-- What happens after the life of a context. -/
def aftermath (s : Script) (sink : String) : Journal :=
  match s.product with
  | .module b =>
      .note (.produced b.size?) :: if s.flagged then [] else (Host.accept sink b).1
  | _ => []

theorem told_append (sink : String) (rs qs : List Remark) :
    told sink (rs ++ qs) = told sink rs ++ told sink qs := by
  simp [told, Journal.reports]

end Script

theorem Remark.isError_iff (r : Remark) : r.isError = true ↔ 4 ≤ r.severityCode := by
  simp [Remark.isError, Diagnostic.isError, Remark.diagnostic, Diagnostic.ofCompiler,
    Severity.ofCode_eq_error_iff, Severity.errorCode]

namespace Script

theorem flagged_iff (s : Script) :
    s.flagged = true ↔ ∃ r ∈ s.remarks, 4 ≤ r.severityCode := by
  simp [flagged, Remark.isError_iff]

theorem flagged_eq_false_iff (s : Script) :
    s.flagged = false ↔ ∀ r ∈ s.remarks, r.severityCode < 4 := by
  rw [← Bool.not_eq_true, flagged_iff]
  simp

end Script

def Act.isError : Act → Bool
  | .remark r => r.isError
  | _ => false

namespace Flight

theorem actEvents_afterAct (f : Flight) (a b : Act) :
    (f.afterAct a).actEvents b = f.actEvents b := by
  cases a <;> cases b <;> rfl

/-- A flight is completed act by act: what happens, the flag that is set and the
pauses that are met are those of the acts. -/
theorem complete_eq (f : Flight) (acts : List Act) :
    f.complete acts =
      (acts.flatMap f.actEvents,
        { f with flagged := f.flagged || acts.any Act.isError, todo := [] },
        acts.count .pause) := by
  induction acts generalizing f with
  | nil => simp [complete]
  | cons a rest ih =>
      have hevents : (f.afterAct a).actEvents = f.actEvents :=
        funext fun b => actEvents_afterAct f a b
      rw [complete, ih (f := f.afterAct a), hevents]
      cases a <;> simp [afterAct, hear, Act.isError, Bool.or_assoc]

theorem afterDestroy_eq (f : Flight) :
    f.afterDestroy = { f with flagged := f.flagged || f.onDestroy.any Remark.isError } := by
  suffices h : ∀ rs : List Remark,
      rs.foldl hear f = { f with flagged := f.flagged || rs.any Remark.isError } from
    h f.onDestroy
  intro rs
  induction rs generalizing f with
  | nil => simp
  | cons r rs ih => simp [ih, hear, Bool.or_assoc]

/-- Parsing and serializing give the reason why there is no document, or the
flight of a context that was just created. -/
theorem start_eq (parser : Parser) (compiler : Compiler) (s : Settings) (sink : String)
    (id : Nat) (source : String) :
    start parser compiler s sink id source =
      match parser.document source with
      | .error e => (parser.events sink source, .error e)
      | .ok text =>
          (parser.prologue sink source text ++ [.create id],
            .ok {
              sink := sink
              id := id
              tree := text
              options := s.compileOptions
              flagged := false
              todo := (compiler id).acts
              product := (compiler id).product
              onDestroy := (compiler id).onDestroy }) := by
  simp only [start, Parser.document, Parser.prologue, Parser.events, Journal.reports]
  cases (parser source).2 with
  | none => rfl
  | some tree => cases h : tree.serialize <;> simp [h]

/-- A flight is settled with its context destroyed first. The flag is read only
then, so the remarks that are made in the meantime count. -/
theorem settle_eq (f : Flight) (s : Script) (hproduct : f.product = s.product)
    (hflagged : (f.flagged || f.onDestroy.any Remark.isError) = s.flagged) :
    f.settle = (f.destroy ++ s.aftermath f.sink, s.verdict) := by
  rw [settle, hproduct, afterDestroy_eq, hflagged, Script.aftermath, Script.verdict]
  cases s.product with
  | panic message => simp
  | complaint c => simp
  | module b =>
      cases hflag : s.flagged with
      | true => simp
      | false =>
          simp only [Host.accept]
          cases Host.validate b <;> simp

end Flight

namespace Script

/-- The acts of a script, and then the destruction, are the life of a context that
was just created. -/
theorem create_acts_destroy (s : Script) (f : Flight) (h : f.onDestroy = s.onDestroy) :
    .create f.id :: s.acts.flatMap f.actEvents ++ f.destroy =
      s.life f.sink f.id f.tree f.options := by
  have hremark : ∀ rs : List Remark,
      (rs.map Act.remark).flatMap f.actEvents = told f.sink rs := by
    intro rs
    induction rs with
    | nil => rfl
    | cons r rs ih => simpa [Flight.actEvents, Flight.heard, told, Journal.reports] using ih
  have hpause : ∀ n, (List.replicate n Act.pause).flatMap f.actEvents = [] := by
    intro n
    simp [Flight.actEvents]
  have hheard : f.onDestroy.map f.heard = told f.sink s.onDestroy := by
    rw [h, told, Journal.reports, List.map_map]
    rfl
  simp only [acts, List.flatMap_append, List.flatMap_cons, hremark, hpause, Flight.destroy,
    hheard, life, told_append]
  simp [Flight.actEvents]

theorem any_isError_acts (s : Script) :
    (s.acts.any Act.isError || s.onDestroy.any Remark.isError) = s.flagged := by
  have hremark : ∀ rs : List Remark,
      (rs.map Act.remark).any Act.isError = rs.any Remark.isError := by
    intro rs
    rw [List.any_map]
    rfl
  have hpause : ∀ n, (List.replicate n Act.pause).any Act.isError = false := by
    intro n
    simp [List.any_replicate, Act.isError]
  simp only [acts, flagged, remarks, List.any_append, List.any_cons, hremark, hpause]
  simp [Act.isError, Bool.or_assoc]

theorem count_pause_acts (s : Script) : s.acts.count .pause = s.pauses := by
  have hremark : ∀ rs : List Remark, (rs.map Act.remark).count .pause = 0 := by
    intro rs
    simp [List.count_eq_zero]
  simp [acts, List.count_append, hremark]

end Script

/-- A whole compilation. Without a document nothing but the parsing happens. With
a document the context lives its life, and what comes after it is decided by the
script. -/
theorem compile_eq (parser : Parser) (compiler : Compiler) (s : Settings) (sink : String)
    (id : Nat) (source : String) :
    compile parser compiler s sink id source =
      match parser.document source with
      | .error e => (parser.events sink source, .error e, 0)
      | .ok text =>
          (parser.prologue sink source text ++
              (compiler id).life sink id text s.compileOptions ++ (compiler id).aftermath sink,
            (compiler id).verdict,
            (compiler id).pauses) := by
  rw [compile, Flight.start_eq]
  cases parser.document source with
  | error e => rfl
  | ok text =>
      simp only [Flight.complete_eq, Bool.false_or]
      rw [Flight.settle_eq _ (compiler id) rfl (Script.any_isError_acts (compiler id)),
        Script.count_pause_acts]
      refine Prod.ext ?_ rfl
      have hlife := Script.create_acts_destroy (compiler id)
        ⟨sink, id, text, s.compileOptions, false, (compiler id).acts, (compiler id).product,
          (compiler id).onDestroy⟩ rfl
      rw [← hlife]
      simp only [List.append_assoc, List.cons_append, List.nil_append]
      rfl

/-! Each part of a compilation is seen in the views of the journal. -/

namespace Parser

variable (parser : Parser) (sink source : String)

@[simp] theorem uses_events : (parser.events sink source).uses = [] := by
  simp [events, Journal.uses_cons, Event.context?]

@[simp] theorem requests_events : (parser.events sink source).requests = [] := by
  simp [events, Journal.requests_cons, Event.request?]

@[simp] theorem notes_events : (parser.events sink source).notes = [] := by
  simp [events, Journal.notes_cons, Event.note?]

theorem sink_events (name : String) :
    (parser.events sink source).sink name = if sink = name then (parser source).1 else [] := by
  simp [events, Journal.sink_cons, Event.reported?, Journal.sink_reports]

variable (text : String)

@[simp] theorem uses_prologue : (parser.prologue sink source text).uses = [] := by
  simp [prologue, Journal.uses_append, Journal.uses_cons, Event.context?]

@[simp] theorem requests_prologue : (parser.prologue sink source text).requests = [] := by
  simp [prologue, Journal.requests_append, Journal.requests_cons, Event.request?]

theorem notes_prologue :
    (parser.prologue sink source text).notes =
      [.serialized text.utf8ByteSize, .creating] := by
  simp [prologue, Journal.notes_append, Journal.notes_cons, Event.note?]

theorem sink_prologue (name : String) :
    (parser.prologue sink source text).sink name =
      if sink = name then (parser source).1 else [] := by
  simp [prologue, Journal.sink_append, Journal.sink_cons, Event.reported?, sink_events]

end Parser

namespace Script

variable (s : Script) (sink : String) (id : Nat) (tree options : String)

@[simp] theorem uses_told (rs : List Remark) : (told sink rs).uses = [] :=
  Journal.uses_reports sink _

@[simp] theorem requests_told (rs : List Remark) : (told sink rs).requests = [] :=
  Journal.requests_reports sink _

@[simp] theorem notes_told (rs : List Remark) : (told sink rs).notes = [] :=
  Journal.notes_reports sink _

theorem uses_life :
    (s.life sink id tree options).uses =
      [.create id, .compile id tree options, .destroy id] := by
  simp [life, Journal.uses_append, Journal.uses_cons, Event.context?]

theorem requests_life : (s.life sink id tree options).requests = [(tree, options)] := by
  simp [life, Journal.requests_append, Journal.requests_cons, Event.request?]

theorem notes_life : (s.life sink id tree options).notes = [.destroying] := by
  simp [life, Journal.notes_append, Journal.notes_cons, Event.note?]

theorem sink_life (name : String) :
    (s.life sink id tree options).sink name =
      if sink = name then s.remarks.map Remark.diagnostic else [] := by
  by_cases h : sink = name
  · simp [life, told, remarks, Journal.sink_append, Journal.sink_cons, Event.reported?,
      Journal.sink_reports, h]
  · simp [life, told, Journal.sink_append, Journal.sink_cons, Event.reported?,
      Journal.sink_reports, h]

theorem notes_aftermath :
    (s.aftermath sink).notes =
      match s.product with
      | .module b =>
          .produced b.size? :: if s.flagged then [] else Journal.notes (Host.accept sink b).1
      | _ => [] := by
  unfold aftermath
  cases s.product with
  | panic message => rfl
  | complaint c => rfl
  | module b => cases s.flagged <;> simp [Journal.notes_cons, Event.note?]

theorem sink_aftermath (name : String) :
    (s.aftermath sink).sink name =
      match s.product with
      | .module b => if s.flagged then [] else Journal.sink (Host.accept sink b).1 name
      | _ => [] := by
  unfold aftermath
  cases s.product with
  | panic message => rfl
  | complaint c => rfl
  | module b => cases s.flagged <;> simp [Journal.sink_cons, Event.reported?]

@[simp] theorem uses_aftermath : (s.aftermath sink).uses = [] := by
  unfold aftermath
  cases s.product with
  | panic message => rfl
  | complaint c => rfl
  | module b => cases s.flagged <;> simp [Journal.uses_cons, Event.context?, Host.uses_accept]

@[simp] theorem requests_aftermath : (s.aftermath sink).requests = [] := by
  unfold aftermath
  cases s.product with
  | panic message => rfl
  | complaint c => rfl
  | module b =>
      cases s.flagged <;> simp [Journal.requests_cons, Event.request?, Host.requests_accept]

end Script

/-! The views of a whole compilation. -/

section

variable (parser : Parser) (compiler : Compiler) (s : Settings) (sink : String) (id : Nat)
  (source : String)

/-- The compiler is asked once if there is a document, for it and with the options
of the settings. -/
theorem requests_compile :
    Journal.requests (compile parser compiler s sink id source).1 =
      match parser.document source with
      | .error _ => []
      | .ok text => [(text, s.compileOptions)] := by
  rw [compile_eq]
  cases parser.document source with
  | error e => simp
  | ok text =>
      simp [Journal.requests_append, Script.requests_life]

theorem notes_compile :
    Journal.notes (compile parser compiler s sink id source).1 =
      match parser.document source with
      | .error _ => []
      | .ok text =>
          [.serialized text.utf8ByteSize, .creating, .destroying] ++
            ((compiler id).aftermath sink).notes := by
  rw [compile_eq]
  cases parser.document source with
  | error e => simp
  | ok text =>
      simp [Journal.notes_append, Parser.notes_prologue, Script.notes_life]

/-- The sink gets what the parser reports, then the remarks, then what comes after
them. -/
theorem sink_compile (name : String) :
    Journal.sink (compile parser compiler s sink id source).1 name =
      (if sink = name then (parser source).1 else []) ++
        match parser.document source with
        | .error _ => []
        | .ok _ =>
            (if sink = name then (compiler id).remarks.map Remark.diagnostic else []) ++
              ((compiler id).aftermath sink).sink name := by
  rw [compile_eq]
  cases parser.document source with
  | error e => simp [Parser.sink_events]
  | ok text =>
      simp [Journal.sink_append, Parser.sink_prologue, Script.sink_life]

end

end ProgramHost
