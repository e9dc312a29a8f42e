import ProgramHost.Proofs.Program.Run
/-!
# The calls of the fault import

An execution says how it ends, not what it asks of the host on its way. Here the
calls of the fault import are collected along an execution: through branches and
loops, through the functions that are called, and over the start function and the
entry point of a run. That there is never more than one of them, and that a run
ends in a fault exactly if there is one, is then something to prove, since the
halt that a fault causes has to come through everything that is open at the time.
-/

namespace ProgramHost.Program

/-! ## The call that an action makes -/

def Frame.faultWords (f : Frame) (a b c d e : Expr) : Except Halt FaultCall := do
  let (code, f) ← f.word a
  let (detail, f) ← f.word b
  let (file, f) ← f.word c
  let (line, f) ← f.word d
  let (column, _) ← f.word e
  return ⟨code, detail, file, line, column⟩

/-- The call of the fault import that an action makes. There is none if one of the
words traps. -/
def Action.faultCall? (f : Frame) : Action → Option FaultCall
  | .fault a b c d e => (f.faultWords a b c d e).toOption
  | _ => none

/-- A computation that is halted by nothing but traps. -/
def OnlyTraps {α : Type} (r : Except Halt α) : Prop :=
  ∀ c, r ≠ .error (.fault c)

theorem OnlyTraps.ok {α : Type} (a : α) : OnlyTraps (.ok a) := by
  intro c h
  cases h

theorem OnlyTraps.trap {α : Type} (t : Trap) : OnlyTraps (.error (.trap t) : Except Halt α) := by
  intro c h
  cases h

theorem OnlyTraps.exists_trap {α : Type} {r : Except Halt α} {h : Halt} (hr : OnlyTraps r)
    (hh : r = .error h) : ∃ t, h = .trap t := by
  cases h with
  | fault c => exact absurd hh (hr c)
  | trap t => exact ⟨t, rfl⟩

theorem OnlyTraps.bind {α β : Type} {r : Except Halt α} {k : α → Except Halt β}
    (hr : OnlyTraps r) (hk : ∀ a, OnlyTraps (k a)) : OnlyTraps (r >>= k) := by
  intro c h
  cases r with
  | ok a => exact hk a c h
  | error e =>
      have he : e = .fault c := Except.error.inj h
      exact hr c (congrArg Except.error he)

theorem Frame.word_onlyTraps (f : Frame) (x : Expr) : OnlyTraps (f.word x) := by
  intro c h
  unfold Frame.word at h
  split at h <;> cases h

theorem Frame.real_onlyTraps (f : Frame) (x : RealExpr) : OnlyTraps (f.real x) := by
  intro c h
  unfold Frame.real at h
  split at h <;> cases h

theorem Frame.put_onlyTraps (f : Frame) (m : Option Memory) : OnlyTraps (f.put m) := by
  intro c h
  cases m <;> cases h

theorem Frame.faultWords_onlyTraps (f : Frame) (a b c d e : Expr) :
    OnlyTraps (f.faultWords a b c d e) := by
  refine (f.word_onlyTraps a).bind fun p => ?_
  refine (p.2.word_onlyTraps b).bind fun p => ?_
  refine (p.2.word_onlyTraps c).bind fun p => ?_
  refine (p.2.word_onlyTraps d).bind fun p => ?_
  refine (p.2.word_onlyTraps e).bind fun p => ?_
  exact .ok _

theorem Action.run_fault (f : Frame) (a b c d e : Expr) :
    (Action.fault a b c d e).run f =
      f.faultWords a b c d e >>= fun words => .error (.fault words) := by
  simp only [Action.run, Frame.faultWords, bind_assoc, pure_bind]

theorem Action.run_eq_fault_iff (f : Frame) (a : Action) (c : FaultCall) :
    a.run f = .error (.fault c) ↔ a.faultCall? f = some c := by
  have hnone {r : Except Halt Frame} (hr : OnlyTraps r) :
      r = .error (.fault c) ↔ none = some c :=
    ⟨fun h => absurd h (hr c), fun h => by cases h⟩
  cases a with
  | store a x =>
      refine hnone ((f.word_onlyTraps a).bind fun p => ?_)
      exact (p.2.word_onlyTraps x).bind fun q => q.2.put_onlyTraps _
  | store8 a x =>
      refine hnone ((f.word_onlyTraps a).bind fun p => ?_)
      exact (p.2.word_onlyTraps x).bind fun q => q.2.put_onlyTraps _
  | storeReal a x =>
      refine hnone ((f.word_onlyTraps a).bind fun p => ?_)
      exact (p.2.real_onlyTraps x).bind fun q => q.2.put_onlyTraps _
  | fill a b n =>
      refine hnone ((f.word_onlyTraps a).bind fun p => ?_)
      refine (p.2.word_onlyTraps b).bind fun q => ?_
      exact (q.2.word_onlyTraps n).bind fun r => r.2.put_onlyTraps _
  | copy a b n =>
      refine hnone ((f.word_onlyTraps a).bind fun p => ?_)
      refine (p.2.word_onlyTraps b).bind fun q => ?_
      exact (q.2.word_onlyTraps n).bind fun r => r.2.put_onlyTraps _
  | set i x => exact hnone ((f.word_onlyTraps x).bind fun _ => .ok _)
  | drop x => exact hnone ((f.word_onlyTraps x).bind fun _ => .ok _)
  | unreachable => exact hnone (.trap .unreachable)
  | fault a b c' d e =>
      rw [Action.run_fault, Action.faultCall?]
      have htraps := f.faultWords_onlyTraps a b c' d e
      cases hwords : f.faultWords a b c' d e with
      | ok words =>
          constructor
          · intro h
            exact congrArg some (Halt.fault.inj (Except.error.inj h))
          · intro h
            obtain rfl : words = c := Option.some.inj h
            rfl
      | error halt =>
          constructor
          · intro h
            obtain rfl : halt = .fault c := Except.error.inj h
            exact absurd hwords (htraps c)
          · intro h
            cases h

theorem Action.faultCall?_eq_none {f : Frame} {a : Action} (h : OnlyTraps (a.run f)) :
    a.faultCall? f = none := by
  rw [Option.eq_none_iff_forall_ne_some]
  intro c hc
  exact h c ((a.run_eq_fault_iff f c).2 hc)

/-! ## The calls along an execution -/

namespace Completion

def fault? : Completion → Option FaultCall
  | .halted (.fault c) => some c
  | _ => none

def next? : Completion → Option Frame
  | .next f => some f
  | _ => none

def returned? : Completion → Option Memory
  | .next f => some f.memory
  | .left f => some f.memory
  | _ => none

theorem fault?_andThen (c : Completion) (k : Frame → Completion) :
    (c.andThen k).fault?.toList =
      c.fault?.toList ++ c.next?.elim [] fun f => (k f).fault?.toList := by
  cases c with
  | next f => rfl
  | left f => rfl
  | halted h => cases h <;> rfl
  | unfinished => rfl

theorem fault?_afterCall (c : Completion) (k : Memory → Completion) :
    (c.afterCall k).fault?.toList =
      c.fault?.toList ++ c.returned?.elim [] fun m => (k m).fault?.toList := by
  cases c with
  | next f => rfl
  | left f => rfl
  | halted h => cases h <;> rfl
  | unfinished => rfl

end Completion

/-- The calls of the fault import while a list of statements is followed, in their
order. -/
def faultCalls (code : Nat → List Stmt) : Nat → Nat → List Stmt → Frame → List FaultCall
  | 0, _, _, _ => []
  | _ + 1, _, [], _ => []
  | fuel + 1, depth, s :: rest, f =>
      match s with
      | .act a =>
          (a.faultCall? f).toList ++
            (a.run f).toOption.elim [] (faultCalls code fuel depth rest)
      | .call i =>
          match depth with
          | 0 => []
          | below + 1 =>
              faultCalls code fuel below (code i) { f with slots := .zero } ++
                (exec code fuel below (code i) { f with slots := .zero }).returned?.elim []
                  fun m => faultCalls code fuel depth rest { f with memory := m }
      | .branch x yes no =>
          match f.word x with
          | .ok (v, f) =>
              faultCalls code fuel depth (if v = 0 then no else yes) f ++
                (exec code fuel depth (if v = 0 then no else yes) f).next?.elim []
                  (faultCalls code fuel depth rest)
          | .error _ => []
      | .loop x body =>
          match f.word x with
          | .ok (v, f) =>
              if v = 0 then faultCalls code fuel depth rest f
              else
                faultCalls code fuel depth body f ++
                  (exec code fuel depth body f).next?.elim []
                    (faultCalls code fuel depth (s :: rest))
          | .error _ => []
      | .leave => []

/-- The only call that an execution makes is the fault that halts it. -/
theorem faultCalls_eq (code : Nat → List Stmt) (fuel depth : Nat) (ss : List Stmt) (f : Frame) :
    faultCalls code fuel depth ss f = (exec code fuel depth ss f).fault?.toList := by
  -- Only the fuel decreases at every recursive call: a loop comes back to itself, and
  -- a call goes on with the body of another function.
  induction fuel generalizing depth ss f with
  | zero => rfl
  | succ fuel ih =>
      have hrest (depth : Nat) (ss : List Stmt) : faultCalls code fuel depth ss =
          fun f => (exec code fuel depth ss f).fault?.toList := funext (ih depth ss)
      cases ss with
      | nil => rfl
      | cons s rest =>
          cases s with
          | act a =>
              simp only [faultCalls, exec]
              cases hrun : a.run f with
              | ok f' =>
                  have hnone : a.faultCall? f = none :=
                    Action.faultCall?_eq_none (hrun ▸ OnlyTraps.ok f')
                  rw [hnone]
                  exact ih depth rest f'
              | error h =>
                  cases h with
                  | fault c =>
                      rw [(a.run_eq_fault_iff f c).1 hrun]
                      rfl
                  | trap t =>
                      have hnone : a.faultCall? f = none :=
                        Action.faultCall?_eq_none (hrun ▸ OnlyTraps.trap t)
                      rw [hnone]
                      rfl
          | call i =>
              cases depth with
              | zero => rfl
              | succ below => simp only [faultCalls, exec, ih, Completion.fault?_afterCall]
          | branch x yes no =>
              simp only [faultCalls, exec]
              cases hx : f.word x with
              | ok p => simp only [hrest, Completion.fault?_andThen]
              | error h =>
                  obtain ⟨t, rfl⟩ := (f.word_onlyTraps x).exists_trap hx
                  rfl
          | loop x body =>
              simp only [faultCalls, exec]
              cases hx : f.word x with
              | ok p =>
                  by_cases hp : p.1 = 0
                  · simp only [if_pos hp, ih]
                  · simp only [if_neg hp, hrest, Completion.fault?_andThen]
              | error h =>
                  obtain ⟨t, rfl⟩ := (f.word_onlyTraps x).exists_trap hx
                  rfl
          | leave => rfl

/-! ## The calls of a run -/

def Stop.fault? : Stop → Option FaultCall
  | .fault c => some c
  | .failure _ => none

def Ending.fault? : Ending → Option FaultCall
  | .fault c => some c
  | _ => none

namespace Executable

def callsIn (x : Executable) (fuel i : Nat) (m : Memory) : List FaultCall :=
  faultCalls x.definition.body fuel stackDepth (x.definition.body i) ⟨.zero, m⟩

def startCalls (x : Executable) (s : Settings) (fuel : Nat) : List FaultCall :=
  match x.link s, x.definition.start with
  | .ok m, some i => x.callsIn fuel i m
  | _, _ => []

def entryCalls (x : Executable) (s : Settings) (fuel : Nat) : List FaultCall :=
  match x.instantiate s fuel, x.entry s.entryPoint with
  | some (.ok m), .ok i => x.callsIn fuel i m
  | _, _ => []

def calls (x : Executable) (s : Settings) (fuel : Nat) : List FaultCall :=
  x.startCalls s fuel ++ x.entryCalls s fuel

def stageFault? : Option (Except Stop Memory) → Option FaultCall
  | some (.error e) => e.fault?
  | _ => none

theorem callsIn_eq (x : Executable) (fuel i : Nat) (m : Memory) :
    x.callsIn fuel i m = (stageFault? (x.invoke fuel i m)).toList := by
  rw [callsIn, faultCalls_eq, invoke]
  cases exec x.definition.body fuel stackDepth (x.definition.body i) ⟨.zero, m⟩ with
  | next f => rfl
  | left f => rfl
  | halted h => cases h <;> rfl
  | unfinished => rfl

theorem startCalls_eq (x : Executable) (s : Settings) (fuel : Nat) :
    x.startCalls s fuel = (stageFault? (x.instantiate s fuel)).toList := by
  unfold startCalls instantiate runStart
  cases x.link s with
  | error e => rfl
  | ok m =>
      cases x.definition.start with
      | none => rfl
      | some i => exact x.callsIn_eq fuel i m

/-- A run that ends calls the fault import once if it ends with a fault, and never if
it ends in another way. -/
theorem Ends.calls_eq {x : Executable} {s : Settings} {fuel : Nat} {e : Ending}
    (h : x.Ends s fuel e) : x.calls s fuel = e.fault?.toList := by
  rw [calls, startCalls_eq]
  cases h with
  | @stopped stop hstart =>
      have hcalls : x.entryCalls s fuel = [] := by rw [entryCalls, hstart]
      rw [hstart, hcalls, List.append_nil]
      cases stop <;> rfl
  | unentered hstart hentry =>
      have hcalls : x.entryCalls s fuel = [] := by rw [entryCalls, hstart, hentry]
      rw [hstart, hcalls]
      rfl
  | @halted m i stop hstart hentry hcall =>
      have hcalls : x.entryCalls s fuel = x.callsIn fuel i m := by
        rw [entryCalls, hstart, hentry]
      rw [hstart, hcalls, callsIn_eq, hcall]
      cases stop <;> rfl
  | @returned m m' i hstart hentry hcall =>
      have hcalls : x.entryCalls s fuel = x.callsIn fuel i m := by
        rw [entryCalls, hstart, hentry]
      rw [hstart, hcalls, callsIn_eq, hcall]
      unfold finish
      split <;> rfl

end Executable

end ProgramHost.Program
