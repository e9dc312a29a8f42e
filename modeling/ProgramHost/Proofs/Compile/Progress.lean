import ProgramHost.Proofs.Compile.Stages
/-!
# What has happened for a call

`Progress p q s j` says that a call is in stage `s` when the events `j` have happened
for it, with the stage and the events in closed form. Every move keeps it, so it holds
after every run. What a call came to, what it reported, what its flag says and how it
used its context are read off the closed form.
-/

namespace ProgramHost

open Program

theorem Script.verdict_eq_ofAccepted {s : Script} {b : Binary} (hproduct : s.product = .module b)
    (hflag : s.flagged = false) (sink : String) :
    s.verdict = .ofAccepted (Host.accept sink b).2 := by
  simp only [verdict, hproduct, hflag, Host.accept, Bool.false_eq_true, if_false]
  cases Host.validate b <;> rfl

theorem Script.aftermath_eq_accept {s : Script} {b : Binary} (hproduct : s.product = .module b)
    (hflag : s.flagged = false) (sink : String) :
    s.aftermath sink = .note (.produced b.size?) :: (Host.accept sink b).1 := by
  simp [aftermath, hproduct, hflag]

namespace Pipeline

variable (p : Pipeline) (q : Request) (id : Nat) (text : String)

def flight (done todo : List Act) : Flight where
  sink := q.sink
  id := id
  tree := text
  options := p.settings.compileOptions
  flagged := done.any Act.isError
  todo := todo
  product := (p.compiler id).product
  onDestroy := (p.compiler id).onDestroy

/-- What has happened for a call when the acts `done` are behind it. -/
def worked (done : List Act) : Journal :=
  p.parser.prologue q.sink q.source text ++
    .create id :: done.flatMap (p.flight q id text [] []).actEvents

/-- What has happened for a call when its context is gone. -/
def lived : Journal :=
  p.parser.prologue q.sink q.source text ++
    (p.compiler id).life q.sink id text p.settings.compileOptions

theorem worked_append_actEvents (done todo : List Act) (a : Act) :
    p.worked q id text done ++ (p.flight q id text done todo).actEvents a =
      p.worked q id text (done ++ [a]) := by
  simp only [worked, List.flatMap_append, List.flatMap_singleton, List.append_assoc,
    List.cons_append]
  rfl

theorem flight_afterAct (done rest : List Act) (a : Act) :
    { (p.flight q id text done (a :: rest)).afterAct a with todo := rest } =
      p.flight q id text (done ++ [a]) rest := by
  cases a <;> simp [flight, Flight.afterAct, Flight.hear, Act.isError]

theorem worked_append_destroy {done todo : List Act} (h : (p.compiler id).acts = done) :
    p.worked q id text done ++ (p.flight q id text done todo).destroy = p.lived q id text := by
  have hlife := Script.create_acts_destroy (p.compiler id) (p.flight q id text done todo) rfl
  rw [h] at hlife
  rw [worked, lived, List.append_assoc]
  exact congrArg _ hlife

theorem flagged_afterDestroy_flight {done todo : List Act} (h : (p.compiler id).acts = done) :
    (p.flight q id text done todo).afterDestroy.flagged = (p.compiler id).flagged := by
  rw [Flight.afterDestroy_eq, ← Script.any_isError_acts, h]
  rfl

end Pipeline

/-- A call is in a stage, and the events are what has happened for it. While it works they are
those of the acts behind it, in their order, and the acts before it are still to be done. -/
inductive Progress (p : Pipeline) (q : Request) : Stage Flight → Journal → Prop
  | waiting : Progress p q .waiting []
  | refused {e : CompileError} : p.parser.document q.source = .error e →
      Progress p q (.ended (.error e)) (p.parser.events q.sink q.source)
  | working {id : Nat} {text : String} {done todo : List Act} :
      p.parser.Serializes q.source text → (p.compiler id).acts = done ++ todo →
        Progress p q (.working (p.flight q id text done todo)) (p.worked q id text done)
  | validating {id : Nat} {text : String} {b : Binary} :
      p.parser.Serializes q.source text → (p.compiler id).product = .module b →
        (p.compiler id).flagged = false →
        Progress p q (.validating b) (p.lived q id text ++ [.note (.produced b.size?)])
  | ended {id : Nat} {text : String} : p.parser.Serializes q.source text →
      Progress p q (.ended (p.compiler id).verdict)
        (p.lived q id text ++ (p.compiler id).aftermath q.sink)
  | abandoned {s : Stage Flight} {j : Journal} : Progress p q s j → s.isOpen →
      Progress p q .abandoned (j ++ s.leave)

namespace Progress

variable {p : Pipeline} {q : Request} {id : Nat} {s t : Stage Flight} {j k : Journal}

theorem start {r : Except CompileError Flight}
    (h : Flight.start p.parser p.compiler p.settings q.sink id q.source = (j, r)) :
    Progress p q (.ofStart r) j := by
  rw [Flight.start_eq] at h
  cases hd : p.parser.document q.source with
  | error e =>
      rw [hd] at h
      cases h
      exact .refused hd
  | ok text =>
      rw [hd] at h
      cases h
      exact @working p q id text [] _ ((p.parser.document_eq_ok_iff q.source text).1 hd) rfl

theorem act {f : Flight} {a : Act} {rest : List Act} (h : Progress p q (.working f) j)
    (htodo : f.todo = a :: rest) :
    Progress p q (.working { f.afterAct a with todo := rest }) (j ++ f.actEvents a) := by
  cases h with
  | @working id text done todo hs hacts =>
      obtain rfl : todo = a :: rest := htodo
      rw [p.flight_afterAct q id text done rest a, p.worked_append_actEvents]
      exact .working hs (by rw [hacts, List.append_assoc, List.singleton_append])

/-- Once nothing is left to do the context has lived its life, and the flag is that of the
whole script. -/
theorem settle {f : Flight} {r : Except Compiled Binary} (h : Progress p q (.working f) j)
    (htodo : f.todo = []) (hland : f.land = (k, r)) :
    Progress p q (.ofLanding r) (j ++ k) := by
  cases h with
  | @working id text done todo hs hacts =>
      obtain rfl : todo = [] := htodo
      rw [List.append_nil] at hacts
      have hended := @ended p q id text hs
      have hlived := @Pipeline.worked_append_destroy p q id text done [] hacts
      have hflagged := @Pipeline.flagged_afterDestroy_flight p q id text done [] hacts
      have hproduct : (p.flight q id text done []).product = (p.compiler id).product := rfl
      unfold Flight.land at hland
      rw [hproduct, hflagged] at hland
      rw [Script.verdict, Script.aftermath] at hended
      cases hp : (p.compiler id).product with
      | panic message =>
          rw [hp] at hland hended
          cases hland
          rw [hlived]
          simpa [Stage.ofLanding] using hended
      | complaint c =>
          rw [hp] at hland hended
          cases hland
          rw [hlived]
          simpa [Stage.ofLanding] using hended
      | module b =>
          rw [hp] at hland hended
          cases hland
          rw [← List.append_assoc, hlived]
          cases hflag : (p.compiler id).flagged with
          | true => simpa [Stage.ofLanding, hflag] using hended
          | false => exact .validating hs hp hflag

theorem validate {b : Binary} {r : Except CompileError Executable}
    (h : Progress p q (.validating b) j) (haccept : Host.accept q.sink b = (k, r)) :
    Progress p q (.ended (.ofAccepted r)) (j ++ k) := by
  cases h with
  | @validating id text b hs hproduct hflag =>
      have hended := @ended p q id text hs
      rw [Script.verdict_eq_ofAccepted hproduct hflag q.sink,
        Script.aftermath_eq_accept hproduct hflag, haccept] at hended
      simpa using hended

theorem move (h : Progress p q s j) (hmove : q.Moves p id s k t) : Progress p q t (j ++ k) := by
  cases hmove with
  | start hstart =>
      cases h
      exact start hstart
  | act htodo => exact h.act htodo
  | settle htodo hland => exact h.settle htodo hland
  | validate haccept => exact h.validate haccept
  | abandon hopen => exact .abandoned h hopen

end Progress

/-! ## What a call has reported, and its context -/

def Act.diagnostic? : Act → Option Diagnostic
  | .remark r => some r.diagnostic
  | _ => none

theorem Act.any_isError (as : List Act) :
    as.any Act.isError = (as.filterMap Act.diagnostic?).any Diagnostic.isError := by
  rw [List.any_filterMap]
  congr 1
  ext1 a
  cases a <;> rfl

namespace Flight

theorem sink_flatMap_actEvents (f : Flight) (as : List Act) (name : String) :
    Journal.sink (as.flatMap f.actEvents) name =
      if f.sink = name then as.filterMap Act.diagnostic? else [] := by
  induction as with
  | nil => simp
  | cons a as ih =>
      rw [List.flatMap_cons, Journal.sink_append, ih]
      cases a <;> by_cases h : f.sink = name <;>
        simp [actEvents, heard, Act.diagnostic?, Journal.sink_cons, Event.reported?,
          List.filterMap_cons, h]

theorem uses_flatMap_actEvents (f : Flight) (as : List Act) :
    Journal.uses (as.flatMap f.actEvents) =
      List.replicate (as.count .call) (.compile f.id f.tree f.options) := by
  induction as with
  | nil => rfl
  | cons a as ih =>
      rw [List.flatMap_cons, Journal.uses_append, ih]
      cases a <;> simp [actEvents, heard, Journal.uses_cons, Event.context?,
        List.replicate_succ]

theorem sink_destroy (f : Flight) (name : String) :
    f.destroy.sink name =
      if f.sink = name then f.onDestroy.map Remark.diagnostic else [] := by
  simp [destroy_eq, Journal.sink_append, Journal.sink_cons, Event.reported?,
    Journal.sink_reports]

theorem uses_destroy (f : Flight) : f.destroy.uses = [.destroy f.id] := by
  simp [destroy_eq, Journal.uses_append, Journal.uses_cons, Event.context?]

end Flight

theorem Script.sink_aftermath_of_ne (s : Script) {sink name : String} (h : sink ≠ name) :
    (s.aftermath sink).sink name = [] := by
  rw [sink_aftermath]
  cases s.product with
  | panic message => rfl
  | complaint c => rfl
  | module b => cases hv : Host.validate b <;> simp [Host.sink_accept, hv, h]

theorem Script.count_call_acts (s : Script) : s.acts.count .call = 1 := by
  have hremark : ∀ rs : List Remark, (rs.map Act.remark).count .call = 0 := by
    intro rs
    simp [List.count_eq_zero]
  simp [acts, List.count_append, hremark, List.count_replicate]

/-- The uses of one context: it is created and compiled in at most once, and then it is
gone or is not gone yet. -/
inductive Stay (id : Nat) : Bool → Journal → Prop
  | created : Stay id false [.create id]
  | used {tree options : String} : Stay id false [.create id, .compile id tree options]
  | unused : Stay id true [.create id, .destroy id]
  | left {tree options : String} :
      Stay id true [.create id, .compile id tree options, .destroy id]

namespace Stay

variable {id : Nat} {gone : Bool} {j : Journal}

theorem append_leave {s : Stage Flight} (h : Stay id (!s.isWorking) j)
    (hid : ∀ f, s = .working f → f.id = id) : Stay id true (j ++ s.leave.uses) := by
  cases s with
  | working f =>
      rw [Stage.leave, Flight.uses_destroy, hid f rfl]
      cases h with
      | created => exact .unused
      | used => exact .left
  | _ => simpa [Stage.leave, Stage.isWorking] using h

theorem create_mem (h : Stay id gone j) : .create id ∈ j := by
  cases h <;> exact List.mem_cons_self

theorem context?_eq (h : Stay id gone j) {e : Event} (he : e ∈ j) : e.context? = some id := by
  cases h <;> simp only [List.mem_cons, List.not_mem_nil, or_false] at he
  case created => rw [he]; rfl
  case used => obtain rfl | rfl := he <;> rfl
  case unused => obtain rfl | rfl := he <;> rfl
  case left => obtain rfl | rfl | rfl := he <;> rfl

end Stay

namespace Pipeline

variable (p : Pipeline) (q : Request) (id : Nat) (text : String)

theorem sink_worked (done : List Act) (name : String) :
    (p.worked q id text done).sink name =
      if q.sink = name then (p.parser q.source).1 ++ done.filterMap Act.diagnostic? else [] := by
  rw [worked, Journal.sink_append, Parser.sink_prologue, Journal.sink_cons,
    Flight.sink_flatMap_actEvents]
  by_cases h : q.sink = name <;> simp [flight, Event.reported?, h]

theorem sink_lived (name : String) :
    (p.lived q id text).sink name =
      if q.sink = name then
        (p.parser q.source).1 ++ (p.compiler id).remarks.map Remark.diagnostic
      else [] := by
  rw [lived, Journal.sink_append, Parser.sink_prologue, Script.sink_life]
  by_cases h : q.sink = name <;> simp [h]

theorem uses_worked (done : List Act) :
    (p.worked q id text done).uses =
      .create id ::
        List.replicate (done.count .call) (.compile id text p.settings.compileOptions) := by
  rw [worked, Journal.uses_append, Parser.uses_prologue, Journal.uses_cons,
    Flight.uses_flatMap_actEvents]
  rfl

theorem uses_lived :
    (p.lived q id text).uses =
      [.create id, .compile id text p.settings.compileOptions, .destroy id] := by
  rw [lived, Journal.uses_append, Parser.uses_prologue, Script.uses_life, List.nil_append]

theorem stay_worked {done todo : List Act} (h : (p.compiler id).acts = done ++ todo) :
    Stay id false (p.worked q id text done).uses := by
  have hcount : done.count .call + todo.count .call = 1 := by
    rw [← List.count_append, ← h, Script.count_call_acts]
  rw [uses_worked]
  -- the one call of the script is behind, or it is still to come
  rcases Nat.le_one_iff_eq_zero_or_eq_one.1 (hcount ▸ Nat.le_add_right _ _) with hd | hd
  · rw [hd]
    exact .created
  · rw [hd]
    exact .used

theorem stay_lived : Stay id true (p.lived q id text).uses := by
  rw [uses_lived]
  exact .left

end Pipeline

namespace Progress

variable {p : Pipeline} {q : Request} {s : Stage Flight} {j : Journal}

theorem sink_of_working {f : Flight} (h : Progress p q (.working f) j) : f.sink = q.sink := by
  cases h
  rfl

theorem sink_eq_nil (h : Progress p q s j) {name : String} (hname : q.sink ≠ name) :
    j.sink name = [] := by
  induction h with
  | waiting => rfl
  | refused hd => rw [Parser.sink_events, if_neg hname]
  | working hs hacts => rw [Pipeline.sink_worked, if_neg hname]
  | validating hs hproduct hflag =>
      rw [Journal.sink_append, Pipeline.sink_lived, if_neg hname]
      rfl
  | ended hs =>
      rw [Journal.sink_append, Pipeline.sink_lived, if_neg hname,
        Script.sink_aftermath_of_ne _ hname, List.nil_append]
  | @abandoned s j h hopen ih =>
      rw [Journal.sink_append, ih, List.nil_append]
      cases s with
      | working f => rw [Stage.leave, Flight.sink_destroy, h.sink_of_working, if_neg hname]
      | _ => rfl

/-- The flag of a call says whether a diagnostic that its own context reported is an
error. -/
theorem flagged_eq {f : Flight} (h : Progress p q (.working f) j) :
    f.flagged = ((j.sink q.sink).drop (p.parser q.source).1.length).any Diagnostic.isError := by
  cases h with
  | @working id text done todo hs hacts =>
      rw [Pipeline.sink_worked, if_pos rfl, List.drop_left, ← Act.any_isError]
      rfl

/-- What a call came to and what it has reported are those of a whole compilation by
itself, in a context of any number, if the compiler does there what it did here. -/
theorem exists_compile_eq {o : Compiled} {script : Script} (h : Progress p q (.ended o) j)
    (hscript : ∀ id, .create id ∈ j → p.compiler id = script) (n : Nat) :
    ∃ k polls, compile p.parser (fun _ => script) p.settings q.sink n q.source = (k, o, polls) ∧
      j.sink q.sink = k.sink q.sink := by
  rw [compile_eq]
  cases h with
  | refused hd =>
      rw [hd]
      exact ⟨_, _, rfl, rfl⟩
  | @ended id text hs =>
      obtain rfl : p.compiler id = script :=
        hscript id (by simp [Pipeline.lived, Script.life])
      rw [(p.parser.document_eq_ok_iff q.source text).2 hs]
      refine ⟨_, _, rfl, ?_⟩
      simp only [Journal.sink_append, Pipeline.sink_lived, Parser.sink_prologue,
        Script.sink_life, if_pos]

theorem create_mem {f : Flight} (h : Progress p q (.working f) j) : .create f.id ∈ j := by
  cases h
  simp [Pipeline.worked, Pipeline.flight]

/-- A call uses no context, or it uses one and leaves it as soon as it no longer works. -/
theorem uses_cases (h : Progress p q s j) :
    j.uses = [] ∨ ∃ id, Stay id (!s.isWorking) j.uses ∧ ∀ f, s = .working f → f.id = id := by
  induction h with
  | waiting => exact .inl rfl
  | refused hd => exact .inl (Parser.uses_events ..)
  | working hs hacts =>
      refine .inr ⟨_, Pipeline.stay_worked p q _ _ hacts, ?_⟩
      rintro f ⟨⟩
      rfl
  | @validating id text b hs hproduct hflag =>
      refine .inr ⟨id, ?_, nofun⟩
      rw [Journal.uses_append, Journal.uses_cons]
      exact (List.append_nil _).symm ▸ p.stay_lived q id text
  | @ended id text hs =>
      refine .inr ⟨id, ?_, nofun⟩
      rw [Journal.uses_append, Script.uses_aftermath, List.append_nil]
      exact p.stay_lived q id text
  | @abandoned s j h hopen ih =>
      rw [Journal.uses_append]
      obtain hnone | ⟨id, hstay, hid⟩ := ih
      · cases s with
        | working f =>
            -- a call that works has created its context
            have hmem := Journal.mem_uses.2 ⟨h.create_mem, rfl⟩
            rw [hnone] at hmem
            cases hmem
        | _ => exact .inl (by rw [hnone]; rfl)
      · exact .inr ⟨id, hstay.append_leave hid, nofun⟩

theorem stay (h : Progress p q s j) {e : Event} {id : Nat} (he : e ∈ j)
    (hid : e.context? = some id) :
    .create id ∈ j ∧ Stay id (!s.isWorking) (j.filter fun e => e.context? = some id) := by
  have huse : e ∈ j.uses := Journal.mem_uses.2 ⟨he, by rw [hid]; rfl⟩
  obtain hnone | ⟨id', hstay, -⟩ := h.uses_cases
  · rw [hnone] at huse
    cases huse
  · obtain rfl : id' = id := Option.some.inj ((hstay.context?_eq huse).symm.trans hid)
    refine ⟨(Journal.mem_uses.1 hstay.create_mem).1, ?_⟩
    -- all uses are of this one context, so to pick its uses is to pick all of them
    have hfilter : j.filter (fun e => e.context? = some id') = j.uses := by
      refine List.filter_congr fun e he => ?_
      cases hc : e.context? with
      | none => rfl
      | some k =>
          have hk := hstay.context?_eq (Journal.mem_uses.2 ⟨he, by rw [hc]; rfl⟩)
          simpa [hc] using hk
    rwa [hfilter]

end Progress

/-! ## Runs -/

theorem Request.Runs.progress {p : Pipeline} {q : Request} {id : Nat} {s t : Stage Flight}
    {j k : Journal} (hprogress : Progress p q s j) (h : q.Runs p id s k t) :
    Progress p q t (j ++ k) := by
  induction h generalizing j with
  | rest s => rwa [List.append_nil]
  | move hmove _ ih =>
      rw [← List.append_assoc]
      exact ih (hprogress.move hmove)

/-- A whole compilation is a run. -/
theorem compile_runs (p : Pipeline) (q : Request) (id : Nat) :
    q.Runs p id .waiting (compile p.parser p.compiler p.settings q.sink id q.source).1
      (.ended (compile p.parser p.compiler p.settings q.sink id q.source).2.1) := by
  have hprogress := @Progress.start p q id
  have hmove := @Request.Moves.start p q id
  unfold compile
  cases hstart : Flight.start p.parser p.compiler p.settings q.sink id q.source with
  | mk j r =>
      cases r with
      | error e => exact (hmove hstart).runs
      | ok f =>
          have hcomplete := f.complete_runs p q id f.todo
          have hworked := hcomplete.progress (hprogress hstart)
          have hsettle := @Flight.settle_runs p q id (f.complete f.todo).2.1
            (by rw [Flight.complete_eq]) hworked.sink_of_working
          exact ((hmove hstart).runs.trans hcomplete).trans hsettle

end ProgramHost
