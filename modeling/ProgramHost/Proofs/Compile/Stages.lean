import ProgramHost.Pipeline
import ProgramHost.Proofs.Compile.Flight
/-!
# A compilation move by move

A call that compiles goes through stages: it waits, works in its context, has its
module validated, and is over; before that it can be abandoned. `Request.Moves` are the
moves from one stage to the next, with what happens meanwhile: a call is started, does
one act, is settled, is validated or is abandoned.

`Request.Runs` are moves of one call in a row. A flight that is advanced to its next
pause, is completed or is settled does nothing but such moves.
-/

namespace ProgramHost

open Program

/-- A source text to be compiled, and the sink that is told of it. Nothing else of a call matters
until its module is there. -/
structure Request where
  sink : String
  source : String
  deriving DecidableEq, Repr

/-- How far a call has come. While it works it holds on to something, be it the flight
of its context or the number of the context. -/
inductive Stage (κ : Type) where
  | waiting
  | working (k : κ)
  | validating (b : Binary)
  | ended (o : Compiled)
  | abandoned

namespace Stage

variable {κ μ : Type}

def map (g : κ → μ) : Stage κ → Stage μ
  | waiting => waiting
  | working k => working (g k)
  | validating b => validating b
  | ended o => ended o
  | abandoned => abandoned

def isWorking : Stage κ → Bool
  | working _ => true
  | _ => false

def isOpen : Stage κ → Bool
  | ended _ => false
  | abandoned => false
  | _ => true

@[simp] theorem isWorking_map (g : κ → μ) (s : Stage κ) :
    (s.map g).isWorking = s.isWorking := by
  cases s <;> rfl

def leave : Stage Flight → Journal
  | working f => f.destroy
  | _ => []

def ofStart : Except CompileError Flight → Stage Flight
  | .ok f => working f
  | .error e => ended (.error e)

def ofLanding : Except Compiled Binary → Stage Flight
  | .ok b => validating b
  | .error o => ended o

end Stage

def Compiled.ofAccepted : Except CompileError Executable → Compiled
  | .ok x => .module x
  | .error e => .error e

/-- Destroys the context and sees what the work came to: there is a module to be
validated, or the call is over. -/
def Flight.land (f : Flight) : Journal × Except Compiled Binary :=
  match f.product with
  | .panic message => (f.destroy, .error (.panic message))
  | .complaint c => (f.destroy, .error (.error (.backend c)))
  | .module b =>
      (f.destroy ++ [.note (.produced b.size?)],
        if f.afterDestroy.flagged then .error (.error .flagged) else .ok b)

/-- To settle a flight is to land it and then to validate what it brought. -/
theorem Flight.settle_eq_land (f : Flight) :
    f.settle =
      match f.land with
      | (j, .error o) => (j, o)
      | (j, .ok b) => (j ++ (Host.accept f.sink b).1, .ofAccepted (Host.accept f.sink b).2) := by
  unfold settle land
  cases f.product with
  | panic message => rfl
  | complaint c => rfl
  | module b =>
      cases hflagged : f.afterDestroy.flagged with
      | true => simp
      | false =>
          simp only [Bool.false_eq_true, if_false]
          cases Host.accept f.sink b with
          | mk j r => cases r <;> rfl

theorem Flight.exists_land_eq (f : Flight) :
    ∃ k, f.land.1 = f.destroy ++ k ∧ Journal.uses k = [] := by
  unfold land
  cases f.product with
  | panic message => exact ⟨[], (List.append_nil _).symm, rfl⟩
  | complaint c => exact ⟨[], (List.append_nil _).symm, rfl⟩
  | module b => exact ⟨_, rfl, rfl⟩

namespace Flight

theorem destroy_eq (f : Flight) :
    f.destroy =
      .note .destroying :: Journal.reports f.sink (f.onDestroy.map Remark.diagnostic) ++
        [.destroy f.id] := by
  simp [destroy, heard, Journal.reports, Function.comp_def]

end Flight

namespace Request

/-- One move of a call from stage to stage, with what happens meanwhile. A context that
is created has the number `id`. -/
inductive Moves (p : Pipeline) (q : Request) (id : Nat) :
    Stage Flight → Journal → Stage Flight → Prop
  | start {j : Journal} {r : Except CompileError Flight} :
      Flight.start p.parser p.compiler p.settings q.sink id q.source = (j, r) →
        Moves p q id .waiting j (.ofStart r)
  | act {f : Flight} {a : Act} {rest : List Act} : f.todo = a :: rest →
      Moves p q id (.working f) (f.actEvents a) (.working { f.afterAct a with todo := rest })
  | settle {f : Flight} {j : Journal} {r : Except Compiled Binary} :
      f.todo = [] → f.land = (j, r) → Moves p q id (.working f) j (.ofLanding r)
  | validate {b : Binary} {j : Journal} {r : Except CompileError Executable} :
      Host.accept q.sink b = (j, r) →
        Moves p q id (.validating b) j (.ended (.ofAccepted r))
  | abandon {s : Stage Flight} : s.isOpen → Moves p q id s s.leave .abandoned

theorem Moves.eq_of_create_mem {p : Pipeline} {q : Request} {id id' : Nat} {s t : Stage Flight}
    {j : Journal} (h : q.Moves p id s j t) (hmem : .create id' ∈ j) : id' = id := by
  have hdestroy : ∀ f : Flight, Event.create id' ∉ f.destroy := by
    simp [Flight.destroy_eq, Journal.reports]
  cases h with
  | start hstart =>
      rw [Flight.start_eq] at hstart
      cases hd : p.parser.document q.source with
      | error e =>
          rw [hd] at hstart
          cases hstart
          simp [Parser.events, Journal.reports] at hmem
      | ok text =>
          rw [hd] at hstart
          cases hstart
          simpa [Parser.prologue, Parser.events, Journal.reports] using hmem
  | @act f a rest htodo => cases a <;> simp [Flight.actEvents, Flight.heard] at hmem
  | @settle f j r htodo hland =>
      obtain ⟨k, hk, huses⟩ := f.exists_land_eq
      obtain rfl : j = f.destroy ++ k := by rw [← hk, hland]
      rw [List.mem_append, or_iff_right (hdestroy f)] at hmem
      have huse := Journal.mem_uses.2 ⟨hmem, rfl⟩
      rw [huses] at huse
      cases huse
  | @validate b j r haccept =>
      unfold Host.accept at haccept
      cases hv : Host.validate b <;> rw [hv] at haccept <;> cases haccept <;> simp at hmem
  | abandon hopen =>
      cases s with
      | working f => exact absurd hmem (hdestroy f)
      | _ => cases hmem

theorem Moves.destroy_mem {p : Pipeline} {q : Request} {id : Nat} {f : Flight}
    {t : Stage Flight} {j : Journal} (h : q.Moves p id (.working f) j t) :
    t.map Flight.id = .working f.id ∨ .destroy f.id ∈ j := by
  have hdestroy : Event.destroy f.id ∈ f.destroy := by simp [Flight.destroy]
  cases h with
  | @act _ a rest htodo => exact .inl (by cases a <;> rfl)
  | settle htodo hland =>
      obtain ⟨k, hk, -⟩ := f.exists_land_eq
      obtain rfl : j = f.destroy ++ k := by rw [← hk, hland]
      exact .inr (List.mem_append_left _ hdestroy)
  | abandon hopen => exact .inr hdestroy

theorem Moves.renumber {p : Pipeline} {q : Request} {id id' : Nat} {s t : Stage Flight}
    {j : Journal} (h : q.Moves p id s j t) (hid : s = .waiting → id = id') :
    q.Moves p id' s j t := by
  cases h with
  | start hstart => exact hid rfl ▸ .start hstart
  | act htodo => exact .act htodo
  | settle htodo hland => exact .settle htodo hland
  | validate haccept => exact .validate haccept
  | abandon hopen => exact .abandon hopen

theorem Moves.ne_waiting {p : Pipeline} {q : Request} {id : Nat} {s t : Stage Flight}
    {j : Journal} (h : q.Moves p id s j t) : t ≠ .waiting := by
  cases h with
  | @start j r hstart => cases r <;> simp [Stage.ofStart]
  | @settle f j r htodo hland => cases r <;> simp [Stage.ofLanding]
  | _ => simp

/-- Moves of a call in a row, with what happens meanwhile. -/
inductive Runs (p : Pipeline) (q : Request) (id : Nat) :
    Stage Flight → Journal → Stage Flight → Prop
  | rest (s : Stage Flight) : Runs p q id s [] s
  | move {s t u : Stage Flight} {j k : Journal} :
      q.Moves p id s j t → Runs p q id t k u → Runs p q id s (j ++ k) u

variable {p : Pipeline} {q : Request} {id : Nat} {s t u : Stage Flight} {j k : Journal}

theorem Moves.runs (h : q.Moves p id s j t) : q.Runs p id s j t := by
  have hruns := Runs.move h (.rest t)
  rwa [List.append_nil] at hruns

theorem Runs.trans (h : q.Runs p id s j t) (h' : q.Runs p id t k u) :
    q.Runs p id s (j ++ k) u := by
  induction h with
  | rest s => exact h'
  | move hmove _ ih =>
      rw [List.append_assoc]
      exact .move hmove (ih h')

end Request

namespace Flight

variable (p : Pipeline) (q : Request) (id : Nat)

theorem afterAct_todo (f : Flight) (a : Act) (todo rest : List Act) :
    { ({ f with todo := todo } : Flight).afterAct a with todo := rest } =
      { f.afterAct a with todo := rest } := by
  cases a <;> rfl

theorem act_moves (f : Flight) (a : Act) (rest : List Act) :
    q.Moves p id (.working { f with todo := a :: rest }) (f.actEvents a)
      (.working { f.afterAct a with todo := rest }) := by
  have hact := @Request.Moves.act p q id { f with todo := a :: rest } a rest rfl
  rwa [afterAct_todo] at hact

theorem advance_runs (f : Flight) (acts : List Act) :
    q.Runs p id (.working { f with todo := acts }) (f.advance acts).1
      (.working (f.advance acts).2.1) := by
  induction acts generalizing f with
  | nil => exact .rest _
  | cons a rest ih =>
      have hmove := f.act_moves p q id a rest
      cases a with
      | pause => exact hmove.runs
      | call => exact .move hmove (ih _)
      | remark r => exact .move hmove (ih _)

theorem todo_advance {f : Flight} {acts : List Act} (h : (f.advance acts).2.2 = false) :
    (f.advance acts).2.1.todo = [] := by
  induction acts generalizing f with
  | nil => rfl
  | cons a rest ih =>
      cases a with
      | pause => cases h
      | call => exact ih h
      | remark r => exact ih h

theorem complete_runs (f : Flight) (acts : List Act) :
    q.Runs p id (.working { f with todo := acts }) (f.complete acts).1
      (.working (f.complete acts).2.1) := by
  induction acts generalizing f with
  | nil => exact .rest _
  | cons a rest ih => exact .move (f.act_moves p q id a rest) (ih _)

variable {p q id}

theorem settle_runs {f : Flight} (htodo : f.todo = []) (hsink : f.sink = q.sink) :
    q.Runs p id (.working f) f.settle.1 (.ended f.settle.2) := by
  rw [settle_eq_land]
  cases hland : f.land with
  | mk j r =>
      have hsettle := @Request.Moves.settle p q id f j r htodo hland
      cases r with
      | error o => exact hsettle.runs
      | ok b => exact .move hsettle (Request.Moves.validate (by rw [hsink])).runs

end Flight

end ProgramHost
