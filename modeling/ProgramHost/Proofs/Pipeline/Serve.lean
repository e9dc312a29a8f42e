import ProgramHost.Pipeline
import ProgramHost.Proofs.Compile.Outcome
/-!
# Serving a call

`Served p σ sink c r j` says that a session `σ` serves the call `c` with the result
`r`, and that `j` is what happens meanwhile. It has one case for each way in which a
call can go. `serve?` is opened here once; what is true of every served call follows
by the cases of `Served`.

`Reaches p ts σ` says that the requests `ts`, answered one after the other, lead from
the first session to `σ`. An invariant of single requests is one of histories.
-/

namespace ProgramHost

open Program

def Call.source? : Call → Option String
  | .compile source _ => some source
  | .evaluate source => some source
  | .run _ => none

def Call.purpose? : Call → Option Purpose
  | .compile _ name => some (.keep name)
  | .evaluate _ => some .evaluate
  | .run _ => none

/-- How a call goes on after its compilation, with what happens then. -/
inductive Concludes (s : Settings) (sink : String) : Purpose → Compiled → Result → Journal → Prop
  | kept {name : String} {x : Executable} :
      Concludes s sink (.keep name) (.module x) .module []
  | refused {name : String} {e : CompileError} :
      Concludes s sink (.keep name) (.error e) (.compileError e) []
  | ran {fuel : Nat} {x : Executable} {k : Journal} {q : Except RunError Value} :
      Host.run? fuel s sink x = some (k, q) →
        Concludes s sink .evaluate (.module x) (Pipeline.evalResult q) k
  | unevaluated {e : CompileError} :
      Concludes s sink .evaluate (.error e) (.evalError (.compile e)) []
  | panicked {purpose : Purpose} {message : String} :
      Concludes s sink purpose (.panic message) (.panic message) []

/-- How a call is served, with what happens meanwhile: a module that was kept is run or missing,
or a source text is compiled in the next context and the compilation concludes. -/
inductive Served (p : Pipeline) (σ : Session) (sink : String) : Call → Result → Journal → Prop
  | compiled {c : Call} {source : String} {purpose : Purpose} {r : Result} {k : Journal} :
      c.source? = some source → c.purpose? = some purpose →
        Concludes p.settings sink purpose
          (compile p.parser p.compiler p.settings sink σ.nextId source).2.1 r k →
        Served p σ sink c r
          ((compile p.parser p.compiler p.settings sink σ.nextId source).1 ++ k)
  | ran {name : String} {fuel : Nat} {x : Executable} {k : Journal} {q : Except RunError Value} :
      σ.modules.lookup name = some x → Host.run? fuel p.settings sink x = some (k, q) →
        Served p σ sink (.run name) (Pipeline.runResult q) k
  | missing {name : String} :
      σ.modules.lookup name = none → Served p σ sink (.run name) .noModule []

namespace Pipeline

variable {p : Pipeline} {fuel : Nat} {σ τ : Session} {sink : String} {r : Result}

theorem conclude?_concludes {purpose : Purpose} {o : Compiled}
    (h : p.conclude? fuel σ sink purpose o = some (r, τ)) :
    ∃ k, Concludes p.settings sink purpose o r k ∧ τ.journal = σ.journal ++ k := by
  cases purpose with
  | keep name =>
      cases o with
      | module x =>
          obtain ⟨rfl, rfl⟩ := Prod.mk.inj (Option.some.inj h)
          exact ⟨[], .kept, (List.append_nil _).symm⟩
      | error e =>
          obtain ⟨rfl, rfl⟩ := Prod.mk.inj (Option.some.inj h)
          exact ⟨[], .refused, (List.append_nil _).symm⟩
      | panic message =>
          obtain ⟨rfl, rfl⟩ := Prod.mk.inj (Option.some.inj h)
          exact ⟨[], .panicked, (List.append_nil _).symm⟩
  | evaluate =>
      cases o with
      | module x =>
          obtain ⟨⟨k, q⟩, hrun, hq⟩ := Option.map_eq_some_iff.1 h
          obtain ⟨rfl, rfl⟩ := Prod.mk.inj hq
          exact ⟨k, .ran hrun, rfl⟩
      | error e =>
          obtain ⟨rfl, rfl⟩ := Prod.mk.inj (Option.some.inj h)
          exact ⟨[], .unevaluated, (List.append_nil _).symm⟩
      | panic message =>
          obtain ⟨rfl, rfl⟩ := Prod.mk.inj (Option.some.inj h)
          exact ⟨[], .panicked, (List.append_nil _).symm⟩

theorem compileFor?_eq (p : Pipeline) (fuel : Nat) (σ : Session) (sink source : String)
    (purpose : Purpose) :
    p.compileFor? fuel σ sink source purpose =
      (p.conclude? fuel
          (σ.log (compile p.parser p.compiler p.settings sink σ.nextId source).1) sink purpose
          (compile p.parser p.compiler p.settings sink σ.nextId source).2.1).map fun q =>
        (q.1, (compile p.parser p.compiler p.settings sink σ.nextId source).2.2 + 1, q.2) :=
  rfl

theorem compileFor?_served {c : Call} {source : String} {purpose : Purpose} {n : Nat}
    (hsource : c.source? = some source) (hpurpose : c.purpose? = some purpose)
    (h : p.compileFor? fuel σ sink source purpose = some (r, n, τ)) :
    ∃ j, Served p σ sink c r j ∧ τ.journal = σ.journal ++ j := by
  rw [compileFor?_eq] at h
  obtain ⟨⟨q, υ⟩, hconclude, hq⟩ := Option.map_eq_some_iff.1 h
  obtain ⟨rfl, -, rfl⟩ : q = r ∧ _ ∧ υ = τ := by simpa using hq
  obtain ⟨k, hk, hjournal⟩ := conclude?_concludes hconclude
  refine ⟨_, .compiled hsource hpurpose hk, ?_⟩
  rw [hjournal, Session.log, List.append_assoc]

/-- A call that is served is served in one of the ways of `Served`. -/
theorem serve?_served {c : Call} {n : Nat} (h : p.serve? fuel σ sink c = some (r, n, τ)) :
    ∃ j, Served p σ sink c r j ∧ τ.journal = σ.journal ++ j := by
  cases c with
  | compile source name => exact compileFor?_served rfl rfl h
  | evaluate source => exact compileFor?_served rfl rfl h
  | run name =>
      obtain ⟨⟨q, υ⟩, hrun, hq⟩ := Option.map_eq_some_iff.1 h
      obtain ⟨rfl, -, rfl⟩ : q = r ∧ _ ∧ υ = τ := by simpa using hq
      unfold runKept? at hrun
      cases hlookup : σ.modules.lookup name with
      | none =>
          rw [hlookup] at hrun
          obtain ⟨rfl, rfl⟩ := Prod.mk.inj (Option.some.inj hrun)
          exact ⟨[], .missing hlookup, (List.append_nil _).symm⟩
      | some x =>
          rw [hlookup] at hrun
          obtain ⟨⟨k, q⟩, hended, hq⟩ := Option.map_eq_some_iff.1 hrun
          obtain ⟨rfl, rfl⟩ := Prod.mk.inj hq
          exact ⟨k, .ran hlookup hended, rfl⟩

theorem step?_serve_served {c : Call} {a : Answer}
    (h : p.step? fuel σ (.serve sink c) = some (a, τ)) :
    ∃ r n j, a = .served r n ∧ Served p σ sink c r j ∧ τ.journal = σ.journal ++ j := by
  obtain ⟨⟨r, n, υ⟩, hserve, ha⟩ := Option.map_eq_some_iff.1 h
  obtain ⟨rfl, rfl⟩ := Prod.mk.inj ha
  obtain ⟨j, hj, hjournal⟩ := serve?_served hserve
  exact ⟨r, n, j, rfl, hj, hjournal⟩

theorem serve?_compile_isSome (p : Pipeline) (fuel : Nat) (σ : Session)
    (sink source name : String) :
    (p.serve? fuel σ sink (.compile source name)).isSome := by
  simp only [serve?, compileFor?, Option.isSome_map]
  cases (compile p.parser p.compiler p.settings sink σ.nextId source).2.1 <;> rfl

/-- The requests that were answered so far, the latest one last, and the session that they led to.
Each may have had its own fuel. -/
inductive Reaches (p : Pipeline) : List Step → Session → Prop
  | start : Reaches p [] .initial
  | step (ts : List Step) (fuel : Nat) {t : Step} {σ τ : Session} {a : Answer} :
      Reaches p ts σ → p.step? fuel σ t = some (a, τ) → Reaches p (ts ++ [t]) τ

/-- What holds at first and is kept by every admitted request holds after every
history of such requests. -/
theorem Reaches.invariant {P : Session → Prop} {Q : Step → Prop} (hinitial : P .initial)
    (hstep : ∀ {fuel σ t a τ}, Q t → P σ → p.step? fuel σ t = some (a, τ) → P τ)
    {ts : List Step} (h : p.Reaches ts σ) (hts : ∀ t ∈ ts, Q t) : P σ := by
  induction h with
  | start => exact hinitial
  | step ts fuel _ ht ih =>
      refine hstep (hts _ (by simp)) (ih fun t hmem => hts t ?_) ht
      exact List.mem_append_left _ hmem

end Pipeline

end ProgramHost
