import ProgramHost.Proofs.Pipeline.Overlap
import ProgramHost.Proofs.Pipeline.Serve
/-!
# Calls that are polled

A session whose calls are started, polled and dropped lets them overlap from pause to
pause. Every such session is an overlap of its calls by the names under which they were
started: the journal is the same, a call that is pending is in the stage that the session
keeps for it, and a call that is not pending any more is over or abandoned.
-/

namespace ProgramHost

namespace Session

variable (σ : Session) (j : Journal) {id id' : String} (w : Pending)

@[simp] theorem pending?_log : (σ.log j).pending? id = σ.pending? id := rfl

theorem pending?_forget_self : (σ.forget id).pending? id = none := by
  rw [pending?, forget, List.lookup_eq_none_iff]
  intro x hx
  exact bne_comm.trans (List.mem_filter.1 hx).2

theorem pending?_forget_of_ne (h : id' ≠ id) : (σ.forget id).pending? id' = σ.pending? id' := by
  simp only [pending?, forget]
  induction σ.pending with
  | nil => rfl
  | cons x xs ih =>
      obtain ⟨k, v⟩ := x
      by_cases hk : k = id
      · simp [hk, List.lookup_cons, beq_false_of_ne h, ih]
      · simp [hk, List.lookup_cons, ih]

theorem pending?_suspend_self : (σ.suspend id w).pending? id = some w := by
  simp [pending?, suspend]

theorem pending?_suspend_of_ne (h : id' ≠ id) :
    (σ.suspend id w).pending? id' = σ.pending? id' := by
  rw [← pending?_forget_of_ne σ h]
  simp [pending?, suspend, List.lookup_cons, beq_false_of_ne h]

end Session

/-- A request that starts the call of its name, polls a call, drops one or looks at a sink. -/
inductive Step.Concerns (q : String → Request) : Step → Prop
  | start {id name : String} :
      Concerns q (.start (q id).sink id (.compile (q id).source name))
  | poll {id : String} : Concerns q (.poll id)
  | drop {id : String} : Concerns q (.drop id)
  | look {sink : String} : Concerns q (.look sink)

def Step.started? : Step → Option String
  | .start _ id _ => some id
  | _ => none

def Compiled.result : Compiled → Result
  | .module _ => .module
  | .error e => .compileError e
  | .panic message => .panic message

theorem Pipeline.conclude?_keep {p : Pipeline} {fuel : Nat} {σ τ : Session} {sink key : String}
    {o : Compiled} {r : Result} (h : p.conclude? fuel σ sink (.keep key) o = some (r, τ)) :
    r = o.result ∧ τ.journal = σ.journal ∧ ∀ id, τ.pending? id = σ.pending? id := by
  cases o <;> cases h <;> exact ⟨rfl, rfl, fun _ => rfl⟩

def Step.addressed? : Step → Option String
  | .poll id => some id
  | .drop id => some id
  | _ => none

namespace Overlap

section

variable {p : Pipeline} {q : String → Request} {S T : Overlap String} {σ τ : Session}
  {name : String} {w : Option Pending}

/-- Where a call stands, by what a session keeps under its name. -/
inductive Stands (q : String → Request) (S : Overlap String) (name : String) :
    Option Pending → Prop
  | waiting {key : String} : S.Sees name .waiting →
      Stands q S name (some (.waiting (q name).sink (.compile (q name).source key)))
  | flying {f : Flight} {key : String} : S.Sees name (.working f) →
      Stands q S name (some (.flying f (.keep key)))
  | closed {s : Stage Flight} : S.Sees name s → s.isOpen = false → Stands q S name none

theorem Stands.mono (h : Stands q S name w) (hsees : ∀ s, S.Sees name s → T.Sees name s) :
    Stands q T name w := by
  cases h with
  | waiting hs => exact .waiting (hsees _ hs)
  | flying hs => exact .flying (hsees _ hs)
  | closed hs hopen => exact .closed (hsees _ hs) hopen

/-- What an answer tells of a call: it pauses in its context, it is over with that result,
or it was abandoned. -/
inductive Tells (S : Overlap String) (name : String) : Answer → Prop
  | pending {f : Flight} : S.Sees name (.working f) → Tells S name .pending
  | finished {o : Compiled} : S.Sees name (.ended o) → Tells S name (.finished o.result)
  | dropped : S.Sees name .abandoned → Tells S name (.dropped true)

/-- A session is the overlap of the calls that were started. It holds under each name what the
call of that name has come to, and its journal is that of the overlap. -/
structure Mirrors (q : String → Request) (started : List String) (σ : Session)
    (S : Overlap String) : Prop where
  journal_eq : σ.journal = S.journal
  fresh : ∀ name, name ∉ started → S.Sees name .waiting ∧ σ.pending? name = none
  stands : ∀ name ∈ started, Stands q S name (σ.pending? name)

/-- The call of one name is taken further in the session and in the overlap, as the answer
tells, and the other calls are left alone. -/
structure Carries (q : String → Request) (name : String) (σ τ : Session)
    (S T : Overlap String) (a : Answer) : Prop where
  journal_eq : τ.journal = T.journal
  tells : Tells T name a
  stands : Stands q T name (τ.pending? name)
  pending : ∀ name', name' ≠ name → τ.pending? name' = σ.pending? name'
  sees : ∀ name', name' ≠ name → ∀ s, S.Sees name' s → T.Sees name' s

theorem Mirrors.carry {started : List String} (h : Mirrors q started σ S)
    (hname : name ∈ started) {a : Answer} (hcarries : Carries q name σ τ S T a) :
    Mirrors q started τ T where
  journal_eq := hcarries.journal_eq
  fresh := by
    intro name' hname'
    have hne : name' ≠ name := fun heq => hname' (heq ▸ hname)
    obtain ⟨hsees, hpending⟩ := h.fresh name' hname'
    exact ⟨hcarries.sees name' hne _ hsees, (hcarries.pending name' hne).trans hpending⟩
  stands := by
    intro name' hname'
    by_cases hne : name' = name
    · rw [hne]
      exact hcarries.stands
    · rw [hcarries.pending name' hne]
      exact (h.stands name' hname').mono (hcarries.sees name' hne)

theorem carries_of_conclude? {fuel : Nat} {j : Journal} {sink key : String} {o : Compiled}
    {r : Result} (hjournal : σ.journal ++ j = T.journal) (hsees : T.Sees name (.ended o))
    (hothers : ∀ name', name' ≠ name → ∀ s, S.Sees name' s → T.Sees name' s)
    (hconclude : p.conclude? fuel ((σ.forget name).log j) sink (.keep key) o = some (r, τ)) :
    Carries q name σ τ S T (.finished r) := by
  obtain ⟨rfl, hτ, hpending⟩ := Pipeline.conclude?_keep hconclude
  refine ⟨hτ.trans hjournal, .finished hsees, ?_, fun name' hne => ?_, hothers⟩
  · rw [hpending, Session.pending?_log, Session.pending?_forget_self]
    exact .closed hsees rfl
  · rw [hpending, Session.pending?_log, Session.pending?_forget_of_ne σ hne]

theorem carries_of_fly? {fuel : Nat} {f : Flight} {key : String} {a : Answer}
    (h : Reachable p q [] S) (hjournal : σ.journal = S.journal)
    (hsees : S.Sees name (.working f))
    (hfly : p.fly? fuel σ name f (.keep key) = some (a, τ)) :
    ∃ T, Reachable p q [] T ∧ Carries q name σ τ S T a := by
  obtain ⟨T, hT, hseesT, hjournalT, hothers⟩ :=
    h.runs hsees (f.advance_runs p (q name) 0 f.todo) (by simp)
  unfold Pipeline.fly? at hfly
  rcases hadvance : f.advance f.todo with ⟨j, g, paused⟩
  rw [hadvance] at hfly hseesT hjournalT
  cases paused with
  | true =>
      cases hfly
      refine ⟨T, hT, ?_, .pending hseesT, ?_, ?_, hothers⟩
      · rw [hjournalT, ← hjournal]
        rfl
      · rw [Session.pending?_suspend_self]
        exact .flying hseesT
      · exact fun name' hne => Session.pending?_suspend_of_ne _ _ hne
  | false =>
      obtain ⟨⟨r, υ⟩, hconclude, heq⟩ := Option.map_eq_some_iff.1 hfly
      obtain ⟨rfl, rfl⟩ := Prod.mk.inj heq
      have hgtodo : g.todo = [] := by
        have htodo := @Flight.todo_advance f f.todo (by rw [hadvance])
        rwa [hadvance] at htodo
      have hgsink := (hT.separate.progress hseesT).sink_of_working
      obtain ⟨U, hU, hseesU, hjournalU, hothersU⟩ :=
        hT.runs hseesT (@Flight.settle_runs p (q name) 0 g hgtodo hgsink) (by simp)
      have hjournalσ : σ.journal ++ (j ++ g.settle.1) = U.journal := by
        rw [hjournalU, hjournalT, ← hjournal, List.append_assoc]
      exact ⟨U, hU, carries_of_conclude? hjournalσ hseesU
        (fun name' hne s hs => hothersU name' hne s (hothers name' hne s hs)) hconclude⟩

theorem carries_of_launch? {fuel : Nat} {key : String} {a : Answer} (h : Reachable p q [] S)
    (hjournal : σ.journal = S.journal) (hsees : S.Sees name .waiting)
    (hlaunch : p.launch? fuel σ name (q name).sink (q name).source (.keep key) = some (a, τ)) :
    ∃ T, Reachable p q [] T ∧ Carries q name σ τ S T a := by
  have hid : σ.nextId = S.nextId [] := by
    rw [Session.nextId, hjournal]
    rfl
  unfold Pipeline.launch? at hlaunch
  rcases hstart : Flight.start p.parser p.compiler p.settings (q name).sink σ.nextId
    (q name).source with ⟨j, r⟩
  rw [hstart] at hlaunch
  obtain ⟨T, hT, hseesT, hjournalT, hothers⟩ :=
    h.runs hsees (Request.Moves.start hstart).runs fun _ => hid
  have hjournalσ : σ.journal ++ j = T.journal := by rw [hjournalT, ← hjournal]
  cases r with
  | ok f =>
      obtain ⟨U, hU, hcarries⟩ := @carries_of_fly? p q T (σ.log j) τ name fuel f key a hT
        hjournalσ hseesT hlaunch
      exact ⟨U, hU, hcarries.journal_eq, hcarries.tells, hcarries.stands, hcarries.pending,
        fun name' hne s hs => hcarries.sees name' hne s (hothers name' hne s hs)⟩
  | error e =>
      obtain ⟨⟨r, υ⟩, hconclude, heq⟩ := Option.map_eq_some_iff.1 hlaunch
      obtain ⟨rfl, rfl⟩ := Prod.mk.inj heq
      exact ⟨T, hT, carries_of_conclude? hjournalσ hseesT hothers hconclude⟩

theorem carries_of_poll? {fuel : Nat} {a : Answer} {w : Pending} (h : Reachable p q [] S)
    (hjournal : σ.journal = S.journal) (hw : σ.pending? name = some w)
    (hstands : Stands q S name (some w)) (hpoll : p.poll? fuel σ name = some (a, τ)) :
    ∃ T, Reachable p q [] T ∧ Carries q name σ τ S T a := by
  unfold Pipeline.poll? at hpoll
  rw [hw] at hpoll
  cases hstands with
  | waiting hsees => exact carries_of_launch? h hjournal hsees hpoll
  | flying hsees => exact carries_of_fly? h hjournal hsees hpoll

theorem carries_of_drop {w : Pending} (h : Reachable p q [] S) (hjournal : σ.journal = S.journal)
    (hstands : Stands q S name (some w)) :
    ∃ T, Reachable p q [] T ∧
      Carries q name σ ((σ.log (Pipeline.dropEvents (some w))).forget name) S T
        (.dropped true) := by
  obtain ⟨s, hsees, hopen, hleave⟩ : ∃ s, S.Sees name s ∧ s.isOpen ∧
      s.leave = Pipeline.dropEvents (some w) := by
    cases hstands with
    | waiting hsees => exact ⟨_, hsees, rfl, rfl⟩
    | flying hsees => exact ⟨_, hsees, rfl, rfl⟩
  obtain ⟨T, hT, hseesT, hjournalT, hothers⟩ :=
    h.runs hsees (Request.Moves.abandon hopen).runs fun _ => rfl
  refine ⟨T, hT, ?_, .dropped hseesT, ?_, fun name' hne => ?_, hothers⟩
  · rw [hjournalT, hleave, ← hjournal]
    rfl
  · rw [Session.pending?_forget_self]
    exact .closed hseesT rfl
  · rw [Session.pending?_forget_of_ne _ hne, Session.pending?_log]

theorem Mirrors.of_same {started : List String} (h : Mirrors q started σ S)
    (hjournal : τ.journal = σ.journal) (hpending : ∀ id, τ.pending? id = σ.pending? id) :
    Mirrors q started τ S where
  journal_eq := hjournal.trans h.journal_eq
  fresh := by
    intro name hname
    rw [hpending]
    exact h.fresh name hname
  stands := by
    intro name hname
    rw [hpending]
    exact h.stands name hname

theorem Mirrors.mem_started {started : List String} {w : Pending} (h : Mirrors q started σ S)
    (hw : σ.pending? name = some w) : name ∈ started := by
  by_contra hname
  rw [(h.fresh name hname).2] at hw
  cases hw

theorem Mirrors.start {started : List String} {key : String} (h : Mirrors q started σ S)
    (hname : name ∉ started) :
    Mirrors q (started ++ [name])
      ((σ.log (Pipeline.dropEvents (σ.pending? name))).suspend name
        (.waiting (q name).sink (.compile (q name).source key))) S := by
  obtain ⟨hsees, hnone⟩ := h.fresh name hname
  rw [hnone]
  refine ⟨?_, ?_, ?_⟩
  · rw [← h.journal_eq]
    exact List.append_nil _
  · intro name' hname'
    rw [List.mem_append, List.mem_singleton, not_or] at hname'
    rw [Session.pending?_suspend_of_ne _ _ hname'.2]
    exact h.fresh name' hname'.1
  · intro name' hname'
    by_cases hne : name' = name
    · rw [hne, Session.pending?_suspend_self]
      exact .waiting hsees
    · rw [Session.pending?_suspend_of_ne _ _ hne]
      refine h.stands name' ?_
      simpa [hne] using hname'

/-- Whatever is asked of a session, it stays an overlap of its calls, and what it answers
about a pending call is true of the call. -/
theorem Mirrors.step {started : List String} {fuel : Nat} {t : Step} {a : Answer}
    (h : Mirrors q started σ S) (hS : Reachable p q [] S) (ht : t.Concerns q)
    (hfresh : ∀ name ∈ t.started?, name ∉ started) (hstep : p.step? fuel σ t = some (a, τ)) :
    ∃ T, Reachable p q [] T ∧ Mirrors q (started ++ t.started?.toList) τ T ∧
      ∀ name w, t.addressed? = some name → σ.pending? name = some w → Tells T name a := by
  have hnil : t.started? = none → started ++ t.started?.toList = started := by
    intro hnone
    rw [hnone, Option.toList_none, List.append_nil]
  cases ht with
  | @start name key =>
      cases hstep
      exact ⟨S, hS, h.start (hfresh name rfl), fun _ _ hname => by cases hname⟩
  | @poll name =>
      rw [hnil rfl]
      cases hw : σ.pending? name with
      | none =>
          have hsame : p.poll? fuel σ name = some (.nothing, σ) := by rw [Pipeline.poll?, hw]
          cases hsame.symm.trans hstep
          refine ⟨S, hS, h, fun name' w hname hw' => ?_⟩
          obtain rfl := Option.some.inj hname
          cases hw.symm.trans hw'
      | some w =>
          have hmem := h.mem_started hw
          obtain ⟨T, hT, hcarries⟩ := carries_of_poll? hS h.journal_eq hw
            (hw ▸ h.stands name hmem) hstep
          refine ⟨T, hT, h.carry hmem hcarries, fun name' _ hname _ => ?_⟩
          obtain rfl := Option.some.inj hname
          exact hcarries.tells
  | @drop name =>
      rw [hnil rfl]
      cases hstep
      cases hw : σ.pending? name with
      | none =>
          refine ⟨S, hS, h.of_same (List.append_nil _) fun name' => ?_,
            fun name' w hname hw' => ?_⟩
          · by_cases hne : name' = name
            · rw [hne, Session.pending?_forget_self, hw]
            · exact Session.pending?_forget_of_ne _ hne
          · obtain rfl := Option.some.inj hname
            cases hw.symm.trans hw'
      | some w =>
          have hmem := h.mem_started hw
          obtain ⟨T, hT, hcarries⟩ := carries_of_drop hS h.journal_eq (hw ▸ h.stands name hmem)
          refine ⟨T, hT, h.carry hmem hcarries, fun name' _ hname _ => ?_⟩
          obtain rfl := Option.some.inj hname
          exact hcarries.tells
  | look =>
      rw [hnil rfl]
      cases hstep
      exact ⟨S, hS, h.of_same rfl fun _ => rfl, fun _ _ hname => by cases hname⟩

end

end Overlap

open Overlap in
/-- A session in which every call is started once is an overlap of its calls: what has
happened is the same, and so is what is left to be done. -/
theorem Pipeline.Reaches.overlaps {p : Pipeline} {q : String → Request} {ts : List Step}
    {σ : Session} (h : p.Reaches ts σ) (hts : ∀ t ∈ ts, t.Concerns q)
    (honce : (ts.filterMap Step.started?).Nodup) :
    ∃ S, Overlap.Reachable p q [] S ∧ Mirrors q (ts.filterMap Step.started?) σ S := by
  induction h with
  | start =>
      refine ⟨.initial, .initial, rfl, fun name _ => ⟨⟨rfl, by simp⟩, rfl⟩, ?_⟩
      intro name hname
      cases hname
  | @step ts fuel t σ τ a _ hstep ih =>
      have hlast : [t].filterMap Step.started? = t.started?.toList := by
        cases ht : t.started? <;> simp [ht]
      rw [List.filterMap_append, hlast] at honce ⊢
      obtain ⟨hbefore, -, hnew⟩ := List.nodup_append.1 honce
      obtain ⟨S, hS, hmirrors⟩ := ih (fun t ht => hts t (List.mem_append_left _ ht)) hbefore
      obtain ⟨T, hT, hmirrorsT, -⟩ := hmirrors.step hS (hts t (by simp))
        (fun name hname hmem => hnew name hmem name (Option.mem_toList.2 hname) rfl) hstep
      exact ⟨T, hT, hmirrorsT⟩

end ProgramHost
