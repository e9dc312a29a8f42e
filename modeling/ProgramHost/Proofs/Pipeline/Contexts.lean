import Mathlib.Data.List.Induction
import ProgramHost.Proofs.Pipeline.Serve
/-!
# Contexts over a history

A session serves its calls one after the other. `Orderly p trees j` is the invariant
of its journal: the uses of contexts are, number by number, a creation, one
compilation and the destruction, and the whole life of each context stands in the
journal in one piece. A served call adds one life at the end or none, however it
goes, so the invariant holds after every history, and then no context is live.
-/

namespace ProgramHost

open Program

/-- The uses of the contexts `0`, `1`, … in turn, each for one of the trees. -/
def turns (options : String) (trees : List String) : Journal :=
  trees.zipIdx.flatMap fun t => [.create t.2, .compile t.2 t.1 options, .destroy t.2]

theorem turns_append_singleton (options : String) (trees : List String) (tree : String) :
    turns options (trees ++ [tree]) =
      turns options trees ++
        [.create trees.length, .compile trees.length tree options, .destroy trees.length] := by
  simp [turns, List.zipIdx_append]

theorem filterMap_turns (options : String) (trees : List String) (view : Event → Option Nat)
    (hview : ∀ id tree,
      [Event.create id, .compile id tree options, .destroy id].filterMap view = [id]) :
    (turns options trees).filterMap view = List.range trees.length := by
  induction trees using List.reverseRecOn with
  | nil => rfl
  | append_singleton trees tree ih =>
      rw [turns_append_singleton, List.filterMap_append, ih, hview, List.length_append,
        List.length_singleton, List.range_succ]

/-- Contexts are used in turn, and the life of each stands in one piece. The trees are those that
the compiler was given, so the number of a context is that of its tree. -/
structure Orderly (p : Pipeline) (trees : List String) (j : Journal) : Prop where
  uses_eq : j.uses = turns p.settings.compileOptions trees
  lived : ∀ (id : Nat) (h : id < trees.length), ∃ sink before after,
    j = before ++ (p.compiler id).life sink id trees[id] p.settings.compileOptions ++ after

namespace Orderly

variable {p : Pipeline} {trees : List String} {j : Journal}

theorem nil (p : Pipeline) : Orderly p [] [] where
  uses_eq := rfl
  lived := fun _ h => absurd h (Nat.not_lt_zero _)

theorem created_eq (h : Orderly p trees j) : j.created = List.range trees.length := by
  rw [← Journal.created_uses, h.uses_eq]
  exact filterMap_turns _ _ _ fun _ _ => rfl

theorem destroyed_eq (h : Orderly p trees j) : j.destroyed = List.range trees.length := by
  rw [← Journal.destroyed_uses, h.uses_eq]
  exact filterMap_turns _ _ _ fun _ _ => rfl

theorem live_eq_nil (h : Orderly p trees j) : j.live = [] := by
  rw [Journal.live, h.created_eq, h.destroyed_eq, List.filter_eq_nil_iff]
  intro id hid
  simpa using hid

theorem append_quiet (h : Orderly p trees j) {k : Journal} (hk : k.uses = []) :
    Orderly p trees (j ++ k) where
  uses_eq := by rw [Journal.uses_append, hk, List.append_nil, h.uses_eq]
  lived := by
    intro id hid
    obtain ⟨sink, before, after, hj⟩ := h.lived id hid
    exact ⟨sink, before, after ++ k, by rw [← List.append_assoc, ← hj]⟩

theorem append_life (h : Orderly p trees j) (sink tree : String) :
    Orderly p (trees ++ [tree])
      (j ++ (p.compiler trees.length).life sink trees.length tree
        p.settings.compileOptions) where
  uses_eq := by
    rw [Journal.uses_append, h.uses_eq, Script.uses_life, turns_append_singleton]
  lived := by
    intro id hid
    rcases Nat.lt_or_ge id trees.length with hlt | hge
    · obtain ⟨sink', before, after, hj⟩ := h.lived id hlt
      refine ⟨sink', before, after ++ (p.compiler trees.length).life sink trees.length tree
        p.settings.compileOptions, ?_⟩
      rw [← List.append_assoc, List.getElem_append_left hlt, ← hj]
    · have hid' : id = trees.length := by
        rw [List.length_append, List.length_singleton] at hid
        omega
      subst hid'
      exact ⟨sink, j, [], by simp⟩

end Orderly

/-! A run uses no context, and a compilation uses the next one or none. -/

theorem Concludes.uses_eq_nil {s : Settings} {sink : String} {purpose : Purpose}
    {o : Compiled} {r : Result} {k : Journal} (h : Concludes s sink purpose o r k) :
    k.uses = [] := by
  cases h with
  | ran hrun => exact Host.uses_run? hrun
  | _ => rfl

/-- The context of a call: none without a document; otherwise one, whose life begins
after the parsing and before which nothing was produced, validated or run. -/
inductive Visits (p : Pipeline) (sink : String) (id : Nat) (c : Call) (j : Journal) : Prop
  | none : (∀ source text, c.source? = some source → ¬ p.parser.Serializes source text) →
      j.uses = [] → Visits p sink id c j
  | one {source text : String} {after : Journal} :
      c.source? = some source → p.parser.Serializes source text → after.uses = [] →
        j = p.parser.prologue sink source text ++
          (p.compiler id).life sink id text p.settings.compileOptions ++ after →
        Visits p sink id c j

theorem Served.visits {p : Pipeline} {σ : Session} {sink : String} {c : Call} {r : Result}
    {j : Journal} (h : Served p σ sink c r j) : Visits p sink σ.nextId c j := by
  cases h with
  | @compiled _ source purpose _ k hsource hpurpose hk =>
      have hquiet := hk.uses_eq_nil
      rw [compile_eq]
      cases hd : p.parser.document source with
      | error e =>
          refine .none ?_ ?_
          · intro source' text hsource' hs
            obtain rfl : source = source' := Option.some.inj (hsource.symm.trans hsource')
            rw [(p.parser.document_eq_ok_iff source text).2 hs] at hd
            cases hd
          · rw [Journal.uses_append, Parser.uses_events, hquiet, List.append_nil]
      | ok text =>
          refine .one hsource ((p.parser.document_eq_ok_iff source text).1 hd) ?_
            (List.append_assoc _ _ _)
          rw [Journal.uses_append, Script.uses_aftermath, hquiet, List.append_nil]
  | ran hlookup hrun => exact .none (fun _ _ h => by cases h) (Host.uses_run? hrun)
  | missing hlookup => exact .none (fun _ _ h => by cases h) rfl

/-- A served call keeps the order. -/
theorem Orderly.append_served {p : Pipeline} {trees : List String} {σ : Session}
    (h : Orderly p trees σ.journal) {sink : String} {c : Call} {r : Result} {j : Journal}
    (hj : Served p σ sink c r j) : ∃ trees', Orderly p trees' (σ.journal ++ j) := by
  have hid : σ.nextId = trees.length := by
    rw [Session.nextId, h.created_eq, List.length_range]
  cases hj.visits with
  | none _ hquiet => exact ⟨trees, h.append_quiet hquiet⟩
  | @one source text after _ _ hafter hj =>
      have hparsed := p.parser.uses_prologue sink source text
      refine ⟨trees ++ [text], ?_⟩
      rw [hj, hid, ← List.append_assoc, ← List.append_assoc]
      exact ((h.append_quiet hparsed).append_life sink text).append_quiet hafter

/-- After a history of served calls contexts were used in turn. -/
theorem Pipeline.Reaches.orderly {p : Pipeline} {ts : List Step} {σ : Session}
    (h : p.Reaches ts σ) (hserve : ∀ t ∈ ts, ∃ sink c, t = .serve sink c) :
    ∃ trees, Orderly p trees σ.journal := by
  refine h.invariant (P := fun σ => ∃ trees, Orderly p trees σ.journal) ⟨[], .nil p⟩ ?_ hserve
  rintro fuel σ t a τ ⟨sink, c, rfl⟩ ⟨trees, hσ⟩ ht
  obtain ⟨r, n, j, -, hj, hjournal⟩ := Pipeline.step?_serve_served ht
  rw [hjournal]
  exact hσ.append_served hj

/-- Contexts are numbered as they are created, and each is created, compiles once and
is destroyed before the next one is created, with all its remarks in between. A call
has a context exactly if its source text has a document, and the context is gone
before anything is produced, validated or run and before the call is over, whether
it gives a module, fails or panics. -/
theorem every_context_has_one_life (p : Pipeline) {ts : List Step} {σ : Session}
    (h : p.Reaches ts σ) (hserve : ∀ t ∈ ts, ∃ sink c, t = .serve sink c) :
    ∃ trees : List String,
      σ.journal.created = List.range trees.length ∧
      σ.journal.live = [] ∧
      σ.journal.uses = trees.zipIdx.flatMap (fun t =>
        [.create t.2, .compile t.2 t.1 p.settings.compileOptions, .destroy t.2]) ∧
      (∀ (id : Nat) (hid : id < trees.length), ∃ sink before after,
        σ.journal = before ++
          (p.compiler id).life sink id trees[id] p.settings.compileOptions ++ after) ∧
      ∀ fuel sink c a τ, p.step? fuel σ (.serve sink c) = some (a, τ) →
        ∃ j, τ.journal = σ.journal ++ j ∧ τ.journal.live = [] ∧
          ((∀ source text, c.source? = some source → ¬ p.parser.Serializes source text) →
            Journal.uses j = []) ∧
          ∀ source text, c.source? = some source → p.parser.Serializes source text →
            ∃ before after,
              j = before ++ (p.compiler trees.length).life sink trees.length text
                p.settings.compileOptions ++ after ∧
              Journal.uses before = [] ∧ Journal.uses after = [] ∧
              Journal.notes before = [.serialized text.utf8ByteSize, .creating] := by
  obtain ⟨trees, hσ⟩ := h.orderly hserve
  refine ⟨trees, hσ.created_eq, hσ.live_eq_nil, hσ.uses_eq, hσ.lived, ?_⟩
  intro fuel sink c a τ ht
  obtain ⟨r, n, j, -, hj, hjournal⟩ := Pipeline.step?_serve_served ht
  have hid : σ.nextId = trees.length := by
    rw [Session.nextId, hσ.created_eq, List.length_range]
  refine ⟨j, hjournal, ?_, ?_, ?_⟩
  · obtain ⟨trees', hτ⟩ := hσ.append_served hj
    rw [← hjournal] at hτ
    exact hτ.live_eq_nil
  · intro hno
    cases hj.visits with
    | none _ hquiet => exact hquiet
    | one hsource hs _ _ => exact absurd hs (hno _ _ hsource)
  · intro source text hsource hs
    cases hj.visits with
    | none hno _ => exact absurd hs (hno source text hsource)
    | @one source' text' after hsource' hs' hafter hlife =>
        obtain rfl : source' = source := Option.some.inj (hsource'.symm.trans hsource)
        obtain rfl : text' = text := hs'.unique hs
        rw [hid] at hlife
        exact ⟨_, after, hlife, Parser.uses_prologue .., hafter, Parser.notes_prologue ..⟩

/-- A pipeline whose compiler panics at first, fails then and gives modules later. -/
def troubled : Pipeline where
  parser := .ofTable [⟨2, "odd name", 1, 1⟩] []
  compiler := fun
    | 0 => ⟨[⟨0, "begun", 1, 1⟩], [⟨4, "lost", 2, 7⟩], 1, [], .panic "down", [⟨1, "left", 3, 3⟩]⟩
    | 1 => ⟨[], [], 0, [⟨3, "slow", 1, 2⟩], .complaint ⟨"full", ["no room"]⟩, []⟩
    | _ => ⟨[], [⟨2, "unused", 1, 4⟩], 2, [], .module (.defined .empty), []⟩
  settings := {}

/-- Calls of which some have no context, some lose theirs and one leaves a module. -/
def troubledSteps : List Step :=
  [.serve "main" (.compile "let x" "m"), .serve "main" (.compile "@unparseable" "m"),
    .serve "main" (.evaluate "x"), .serve "log" (.compile "1" "m"), .serve "log" (.run "m")]

theorem troubled_contexts :
    ∃ σ, troubled.Reaches troubledSteps σ ∧ (∀ t ∈ troubledSteps, ∃ sink c, t = .serve sink c) ∧
      σ.journal.created = [0, 1, 2] ∧ σ.journal.live = [] := by
  have h : troubled.Reaches troubledSteps _ :=
    .step [_, _, _, _] 1
      (.step [_, _, _] 0 (.step [_, _] 0 (.step [_] 0 (.step [] 0 .start rfl) rfl) rfl) rfl) rfl
  have hserve : ∀ t ∈ troubledSteps, ∃ sink c, t = .serve sink c := by
    simp [troubledSteps]
  obtain ⟨trees, -, hlive, -⟩ := every_context_has_one_life troubled h hserve
  exact ⟨_, h, hserve, rfl, hlive⟩

end ProgramHost
