import Mathlib.Data.List.Forall2
import ProgramHost.Proofs.Host
import ProgramHost.Proofs.Program.FaultCalls
import ProgramHost.Proofs.Program.Fuel
/-!
# What follows a fault

A fault halts the execution that reports it, so the statements after it in its list
are not reached. `BodySameToFault ss ss'` compares two bodies without them: list by
list the statements are the same, until both lists come to the same fault, and after
that they may be any. The relation goes down into branches and loops.

Two such bodies are followed in the same way and with the same fuel. The halt is
passed on by everything that is open at the time, by lists, branches, loops and
calls, so modules made of such bodies cannot be told apart by a run.
-/

namespace ProgramHost.Program

mutual

/-- The statements differ at most in what follows a fault inside them. -/
inductive Stmt.SameToFault : Stmt → Stmt → Prop
  | act (a : Action) : Stmt.SameToFault (.act a) (.act a)
  | call (i : Nat) : Stmt.SameToFault (.call i) (.call i)
  | branch (x : Expr) {yes yes' no no' : List Stmt} :
      BodySameToFault yes yes' → BodySameToFault no no' →
        Stmt.SameToFault (.branch x yes no) (.branch x yes' no')
  | loop (x : Expr) {body body' : List Stmt} :
      BodySameToFault body body' → Stmt.SameToFault (.loop x body) (.loop x body')
  | leave : Stmt.SameToFault .leave .leave

/-- The lists of statements differ at most in what follows a fault, in them or in a
list inside them. -/
inductive BodySameToFault : List Stmt → List Stmt → Prop
  | nil : BodySameToFault [] []
  | cons {s s' : Stmt} {rest rest' : List Stmt} :
      s.SameToFault s' → BodySameToFault rest rest' →
        BodySameToFault (s :: rest) (s' :: rest')
  | fault (a b c d e : Expr) (rest rest' : List Stmt) :
      BodySameToFault (.act (.fault a b c d e) :: rest) (.act (.fault a b c d e) :: rest')

end

structure Function.SameToFault (g g' : Function) : Prop where
  signature_eq : g'.signature = g.signature
  body : BodySameToFault g.body g'.body

/-- The modules differ at most in statements that follow a fault. All else is the same, down to
the names and the segments, and so are the numbers of the functions. -/
structure Definition.SameToFault (d d' : Definition) : Prop where
  imports_eq : d'.imports = d.imports
  memory_eq : d'.memory = d.memory
  hasGlobal_eq : d'.hasGlobal = d.hasGlobal
  segments_eq : d'.segments = d.segments
  functions : List.Forall₂ Function.SameToFault d.functions d'.functions
  exports_eq : d'.exports = d.exports
  start_eq : d'.start = d.start

/-- A fault halts its execution, also when one of its words traps. -/
theorem Action.exists_halt_of_fault (a b c d e : Expr) (f : Frame) :
    ∃ h, (Action.fault a b c d e).run f = .error h := by
  rw [Action.run_fault]
  cases f.faultWords a b c d e with
  | ok words => exact ⟨.fault words, rfl⟩
  | error h => exact ⟨h, rfl⟩

theorem exec_eq_of_sameToFault {code code' : Nat → List Stmt}
    (hcode : ∀ i, BodySameToFault (code i) (code' i)) (fuel depth : Nat) {ss ss' : List Stmt}
    (h : BodySameToFault ss ss') (f : Frame) :
    exec code' fuel depth ss' f = exec code fuel depth ss f := by
  -- A loop comes back to itself and a call goes on elsewhere, so the induction is on the
  -- fuel, with both lists free.
  induction fuel generalizing depth ss ss' f with
  | zero => rfl
  | succ fuel ih =>
      cases h with
      | nil => rfl
      | fault a b c d e rest rest' =>
          obtain ⟨halt, hrun⟩ := Action.exists_halt_of_fault a b c d e f
          simp only [exec, hrun]
      | cons hs hrest =>
          have hthen (depth : Nat) := funext (ih depth hrest)
          cases hs with
          | act a =>
              simp only [exec]
              cases a.run f with
              | ok f' => exact ih depth hrest f'
              | error halt => rfl
          | call i =>
              cases depth with
              | zero => rfl
              | succ below => simp only [exec, ih below (hcode i), hthen]
          | branch x hyes hno =>
              simp only [exec]
              cases f.word x with
              | ok p =>
                  by_cases hp : p.1 = 0
                  · simp only [if_pos hp, ih depth hno, hthen]
                  · simp only [if_neg hp, ih depth hyes, hthen]
              | error halt => rfl
          | loop x hbody =>
              have hagain := funext (ih depth (.cons (.loop x hbody) hrest))
              simp only [exec]
              cases f.word x with
              | ok p => simp only [ih depth hbody, ih depth hrest, hagain]
              | error halt => rfl
          | leave => rfl

theorem getElem?_of_sameToFault {gs gs' : List Function}
    (h : List.Forall₂ Function.SameToFault gs gs') (i : Nat) :
    (gs[i]? = none ∧ gs'[i]? = none) ∨
      ∃ g g', gs[i]? = some g ∧ gs'[i]? = some g' ∧ g.SameToFault g' := by
  induction h generalizing i with
  | nil => exact .inl ⟨rfl, rfl⟩
  | cons hg _ ih =>
      cases i with
      | zero => exact .inr ⟨_, _, rfl, rfl, hg⟩
      | succ i => exact ih i

namespace Definition.SameToFault

variable {d d' : Definition}

theorem body (h : d.SameToFault d') (i : Nat) : BodySameToFault (d.body i) (d'.body i) := by
  unfold Definition.body
  rcases getElem?_of_sameToFault h.functions i with ⟨hg, hg'⟩ | ⟨g, g', hg, hg', hbody⟩
  · rw [hg, hg']
    exact .nil
  · rw [hg, hg']
    exact hbody.body

theorem signature?_eq (h : d.SameToFault d') (item : ExportItem) :
    d'.signature? item = d.signature? item := by
  cases item with
  | memory => rfl
  | function i =>
      simp only [Definition.signature?]
      rcases getElem?_of_sameToFault h.functions i with ⟨hg, hg'⟩ | ⟨g, g', hg, hg', hbody⟩
      · rw [hg, hg']
      · rw [hg, hg', Option.map_some, Option.map_some, hbody.signature_eq]
  | imported i => simp only [Definition.signature?, h.imports_eq]
  | global => rfl

theorem lookup?_eq (h : d.SameToFault d') (name : String) :
    d'.lookup? name = d.lookup? name := by
  rw [Definition.lookup?, Definition.lookup?, h.exports_eq]

end Definition.SameToFault

namespace Executable

variable {x x' : Executable}

theorem link_eq_of_sameToFault (h : x.definition.SameToFault x'.definition) (s : Settings) :
    x'.link s = x.link s := by
  simp only [link, initialMemory, h.imports_eq, h.segments_eq, h.memory_eq]

theorem invoke_eq_of_sameToFault (h : x.definition.SameToFault x'.definition)
    (fuel i : Nat) (m : Memory) : x'.invoke fuel i m = x.invoke fuel i m := by
  rw [invoke, invoke, exec_eq_of_sameToFault h.body fuel stackDepth (h.body i)]

theorem instantiate_eq_of_sameToFault (h : x.definition.SameToFault x'.definition)
    (s : Settings) (fuel : Nat) : x'.instantiate s fuel = x.instantiate s fuel := by
  simp only [instantiate, runStart, link_eq_of_sameToFault h, h.start_eq,
    invoke_eq_of_sameToFault h]

theorem entry_eq_of_sameToFault (h : x.definition.SameToFault x'.definition) (name : String) :
    x'.entry name = x.entry name := by
  simp only [entry, h.lookup?_eq, h.signature?_eq]

theorem finish_eq_of_sameToFault (h : x.definition.SameToFault x'.definition) (s : Settings)
    (m : Memory) : x'.finish s m = x.finish s m := by
  have hoffers : x'.offersMemory s.memoryExport = x.offersMemory s.memoryExport := by
    rw [offersMemory, offersMemory, h.lookup?_eq]
  rw [finish, finish, hoffers]

theorem run?_eq_of_sameToFault (h : x.definition.SameToFault x'.definition) (s : Settings)
    (fuel : Nat) : x'.run? s fuel = x.run? s fuel := by
  simp only [run?, callEntry, instantiate_eq_of_sameToFault h, entry_eq_of_sameToFault h,
    invoke_eq_of_sameToFault h, finish_eq_of_sameToFault h]

theorem Ends.invoke_ne_ok_of_fault {s : Settings} {fuel : Nat} {c : FaultCall}
    (h : x.Ends s fuel (.fault c)) {m m' : Memory} {i : Nat}
    (hstart : x.instantiate s fuel = some (.ok m)) (hentry : x.entry s.entryPoint = .ok i) :
    x.invoke fuel i m ≠ some (.ok m') := by
  intro hcall
  have hvalue := h.unique (.returned hstart hentry hcall)
  unfold finish at hvalue
  split at hvalue <;> cases hvalue

end Executable

end Program

open Program

/-- What follows a fault has no effect. Two modules that differ in nothing else have the
same runs, with the same events and results; and a run that has called the fault import
ends with the fault, and nothing is read from memory. -/
theorem run_blind_to_what_follows_fault {x x' : Executable}
    (h : x.definition.SameToFault x'.definition) (s : Settings) (sink : String) (fuel : Nat) :
    Host.run? fuel s sink x' = Host.run? fuel s sink x ∧
      ∀ j r, Host.run? fuel s sink x = some (j, r) → x.calls s fuel ≠ [] →
        r = .error .faulted ∧ (∀ v, .decoded v ∉ j.notes) ∧
          ∀ m i m', x.instantiate s fuel = some (.ok m) → x.entry s.entryPoint = .ok i →
            x.invoke fuel i m ≠ some (.ok m') := by
  constructor
  · rw [Host.run?, Host.run?, Executable.run?_eq_of_sameToFault h]
  · intro j r hrun hcalls
    obtain ⟨ending, hended, heq⟩ := Option.map_eq_some_iff.1 hrun
    obtain ⟨rfl, rfl⟩ := Prod.mk.inj heq
    have hends := (x.run?_eq_some_iff s fuel ending).1 hended
    rw [hends.calls_eq] at hcalls
    cases ending with
    | value v => exact absurd rfl hcalls
    | failure e => exact absurd rfl hcalls
    | fault c =>
        refine ⟨rfl, fun v hv => ?_, fun m i m' => hends.invoke_ne_ok_of_fault⟩
        rw [Ending.notes_events] at hv
        cases List.mem_singleton.1 hv

/-- A module that reports a fault in the second turn of a loop, in a function that its
entry point calls, and goes on there with the given statements. -/
def faultThen (rest : List Stmt) : Definition where
  imports := [⟨"env", "fault", .function faultSignature⟩]
  memory := some ⟨16, none⟩
  hasGlobal := false
  segments := []
  functions := [⟨plainSignature, [.call 1]⟩,
    ⟨plainSignature, [.loop (.const 1)
      [.branch (.slot (Fin.last 3))
          (.act (.fault (.const 1) (.const 0) (.const 0) (.const 3) (.const 7)) :: rest) [],
        .act (.set (Fin.last 3) (.const 1))]]⟩]
  exports := [⟨"memory", .memory⟩, ⟨"main", .function 0⟩]
  start := none

theorem faultThen_sameToFault (rest rest' : List Stmt) :
    (faultThen rest).SameToFault (faultThen rest') where
  imports_eq := rfl
  memory_eq := rfl
  hasGlobal_eq := rfl
  segments_eq := rfl
  functions := by
    refine .cons ⟨rfl, .cons (.call 1) .nil⟩ (.cons ⟨rfl, .cons (.loop _ ?_) .nil⟩ .nil)
    exact .cons (.branch _ (.fault _ _ _ _ _ rest rest') .nil) (.cons (.act _) .nil)
  exports_eq := rfl
  start_eq := rfl

/-- A loop without end, a store and a second fault. -/
def unseen : List Stmt :=
  [.loop (.const 1) [], .act (.store (.const 1048564) (.const 1)),
    .act (.fault (.const 0) (.const 0) (.const 0) (.const 9) (.const 9))]

theorem faultThen_nil_valid : (faultThen []).Valid := by decide

theorem faultThen_unseen_valid : (faultThen unseen).Valid := by decide

theorem faultThen_runs_alike :
    ∃ j r, Host.run? 10 {} "main" ⟨faultThen unseen, faultThen_unseen_valid⟩ = some (j, r) ∧
      Host.run? 10 {} "main" ⟨faultThen [], faultThen_nil_valid⟩ = some (j, r) ∧
      r = .error .faulted := by
  obtain ⟨hsame, hblind⟩ := @run_blind_to_what_follows_fault ⟨faultThen [], faultThen_nil_valid⟩
    ⟨faultThen unseen, faultThen_unseen_valid⟩ (faultThen_sameToFault [] unseen) {} "main" 10
  obtain ⟨j, r, h⟩ : ∃ j r,
      Host.run? 10 {} "main" ⟨faultThen [], faultThen_nil_valid⟩ = some (j, r) := ⟨_, _, rfl⟩
  have hcalls : Executable.calls ⟨faultThen [], faultThen_nil_valid⟩ {} 10 ≠ [] := by decide
  obtain ⟨hr, -, -⟩ := hblind j r h hcalls
  exact ⟨j, r, hsame.trans h, h, hr⟩

end ProgramHost
