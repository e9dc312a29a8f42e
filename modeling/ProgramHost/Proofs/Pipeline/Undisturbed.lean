import ProgramHost.Proofs.Pipeline.Overlap
/-!
# Calls do not disturb each other

However calls overlap, each comes to what it comes to by itself: the same result and the
same diagnostics in its sink. Its flag tells of its own errors, its context is used by it
alone, and the context is destroyed in the move with which the call stops working.
-/

namespace ProgramHost

open Program

namespace Overlap

variable {ι : Type} [DecidableEq ι] {p : Pipeline} {q : ι → Request} {past : Journal}
  {S T : Overlap ι} {c : ι} {id : Nat}

/-- A call is as it would be without the others: what it came to, what its sink holds, how its
context was used and when it was left are those of the call by itself. -/
structure Undisturbed (p : Pipeline) (q : ι → Request) (past : Journal) (S : Overlap ι)
    (c : ι) : Prop where
  /-- A call that is over came to what a compilation by itself comes to, and its sink got
  the same diagnostics, if the compiler does there what it did in the context of the call. -/
  outcome : ∀ o script, S.stage c = .ended o →
    (∀ id, (c, .create id) ∈ S.history → p.compiler id = script) →
    ∀ n, ∃ k polls,
      compile p.parser (fun _ => script) p.settings (q c).sink n (q c).source = (k, o, polls) ∧
        S.journal.sink (q c).sink = k.sink (q c).sink
  /-- What is reported to the sink of the call is what was reported for the call. -/
  reports : ∀ c' name d, (c', .report name d) ∈ S.history → (name = (q c).sink ↔ c' = c)
  /-- The flag in the context of a call tells of the errors that the compiler reported to
  the sink of the call. -/
  flag : ∀ id, S.stage c = .working id → ∃ f, S.contexts id = some f ∧
    f.flagged = ((S.journal.sink (q c).sink).drop (p.parser (q c).source).1.length).any
      Diagnostic.isError
  /-- A context of the call is used by the call only. It is live as long as the call works,
  and then it is destroyed and not used any more. -/
  context : ∀ id, (c, .create id) ∈ S.history →
    ∃ uses, Stay id (!(S.stage c).isWorking) uses ∧
      S.history.filter (fun x => x.2.context? = some id) = uses.map (Prod.mk c) ∧
      ((S.contexts id).isSome ↔ S.stage c = .working id)
  /-- The context is destroyed for the call in the move with which the call stops working,
  be it that it was settled or that it was abandoned. -/
  departure : ∀ T id, Moves p q past S T → S.stage c = .working id → T.stage c ≠ .working id →
    ∃ js, T.history = S.history ++ js ∧ (c, .destroy id) ∈ js

/-- A call destroys its context in the move with which it leaves it. -/
theorem exists_destroy_mem (hmove : Moves p q past S T)
    (hS : S.stage c = .working id) (hT : T.stage c ≠ .working id) :
    ∃ js, T.history = S.history ++ js ∧ (c, .destroy id) ∈ js := by
  cases hmove with
  | @call c' s t j hsees hmove =>
      refine ⟨_, rfl, ?_⟩
      obtain rfl : c' = c := by
        by_contra hne
        exact hT ((Function.update_of_ne (Ne.symm hne) _ _).trans hS)
      obtain ⟨f, rfl, rfl⟩ := Stage.exists_of_map_eq_working (hsees.1.symm.trans hS)
      rcases hmove.destroy_mem with hstay | hdestroy
      · exact absurd (sees_after.1.trans hstay) hT
      · exact List.mem_map.2 ⟨_, hdestroy, rfl⟩

end Overlap

open Overlap in
/-- Calls with sinks of their own are undisturbed, whatever moves they make in whatever order
and whatever happened before. -/
theorem overlapping_calls_are_undisturbed {ι : Type} [DecidableEq ι] {p : Pipeline}
    {q : ι → Request} (hsinks : Function.Injective fun c => (q c).sink) {past : Journal}
    {S : Overlap ι} (h : Reachable p q past S) (c : ι) : Undisturbed p q past S c := by
  have hS := h.separate
  obtain ⟨s, hsees, hprogress⟩ := hS.seen c
  have hworking : (S.stage c).isWorking = s.isWorking := by
    rw [hsees.1, Stage.isWorking_map]
  refine ⟨?_, ?_, ?_, ?_, fun T id hmove hid hleft => exists_destroy_mem hmove hid hleft⟩
  · intro o script ho hscript n
    obtain rfl := Stage.eq_ended_of_map_eq (hsees.1.symm.trans ho)
    obtain ⟨k, polls, hcompile, hsink⟩ := hprogress.exists_compile_eq
      (fun id hid => hscript id (mem_own.1 hid)) n
    exact ⟨k, polls, hcompile, (hS.sink_journal hsinks c).trans hsink⟩
  · intro c' name d hmem
    rw [hS.sink_eq_of_report hmem]
    exact hsinks.eq_iff
  · intro id hid
    obtain ⟨f, rfl, rfl⟩ := Stage.exists_of_map_eq_working (hsees.1.symm.trans hid)
    refine ⟨f, hsees.2 f rfl, ?_⟩
    rw [hS.sink_journal hsinks c]
    exact hprogress.flagged_eq
  · intro id hcreate
    obtain ⟨-, hstay⟩ := hprogress.stay (mem_own.2 hcreate) rfl
    exact ⟨_, hworking ▸ hstay, hS.filter_context hcreate, hS.isSome_contexts_iff hcreate⟩

/-- A pipeline whose compiler finds an error at first, nothing then, and later pauses. -/
def crowd : Pipeline where
  parser := .ofTable [⟨2, "odd name", 1, 1⟩] []
  compiler := fun
    | 0 => ⟨[], [⟨4, "lost", 2, 7⟩], 0, [], .module (.defined .empty), []⟩
    | 1 => ⟨[], [], 0, [⟨2, "unused", 1, 4⟩], .module (.defined .empty), []⟩
    | _ => ⟨[], [], 1, [], .complaint ⟨"full", []⟩, [⟨4, "left", 3, 3⟩]⟩
  settings := {}

def crowdRequest (name : String) : Request := ⟨name, "x"⟩

def crowdFlight (name : String) (id n : Nat) : Flight :=
  crowd.flight (crowdRequest name) id "\x7b\"source\":\"x\"\x7d"
    ((crowd.compiler id).acts.take n) ((crowd.compiler id).acts.drop n)

open Overlap in
/-- Three calls move in turn: one is flagged, one gives a module between the moves of the
others, and one is abandoned while it pauses. -/
theorem crowd_overlaps :
    ∃ S : Overlap String, Reachable crowd crowdRequest [] S ∧
      S.stage "a" = .ended (.error .flagged) ∧
      S.stage "b" = .ended (.module ⟨.empty, Definition.empty_valid⟩) ∧ S.stage "c" = .abandoned ∧
      (S.own "a").created = [0] ∧ (S.own "b").created = [1] ∧ (S.own "c").created = [2] := by
  have h₁ := (@Reachable.initial String _ crowd crowdRequest []).move
    (.call "a" (.waiting rfl) (.start rfl))
  have h₂ := h₁.move (.call "b" (.waiting rfl) (.start rfl))
  have h₃ := h₂.move (.call "a" (.working (f := crowdFlight "a" 0 0) rfl rfl) (.act rfl))
  have h₄ := h₃.move (.call "b" (.working (f := crowdFlight "b" 1 0) rfl rfl) (.act rfl))
  have h₅ := h₄.move (.call "c" (.waiting rfl) (.start rfl))
  have h₆ := h₅.move (.call "b" (.working (f := crowdFlight "b" 1 1) rfl rfl) (.act rfl))
  have h₇ := h₆.move (.call "a" (.working (f := crowdFlight "a" 0 1) rfl rfl) (.act rfl))
  have h₈ := h₇.move (.call "c" (.working (f := crowdFlight "c" 2 0) rfl rfl) (.act rfl))
  have h₉ := h₈.move (.call "b" (.working (f := crowdFlight "b" 1 2) rfl rfl) (.settle rfl rfl))
  have h₁₀ := h₉.move (.call "c" (.working (f := crowdFlight "c" 2 1) rfl rfl) (.act rfl))
  have h₁₁ := h₁₀.move (.call "a" (.working (f := crowdFlight "a" 0 2) rfl rfl) (.settle rfl rfl))
  have h₁₂ := h₁₁.move (.call "c" (.working (f := crowdFlight "c" 2 2) rfl rfl) (.abandon rfl))
  have h₁₃ := h₁₂.move (.call "b" (.validating rfl) (.validate rfl))
  exact ⟨_, h₁₃, rfl, rfl, rfl, rfl, rfl, rfl⟩

open Overlap in
theorem crowd_is_undisturbed :
    ∃ S : Overlap String, Reachable crowd crowdRequest [] S ∧
      (∃ k polls, compile crowd.parser (fun _ => crowd.compiler 0) crowd.settings "a" 7 "x" =
          (k, .error .flagged, polls) ∧ S.journal.sink "a" = k.sink "a") ∧
      (∃ k polls, compile crowd.parser (fun _ => crowd.compiler 1) crowd.settings "b" 7 "x" =
          (k, .module ⟨.empty, Definition.empty_valid⟩, polls) ∧ S.journal.sink "b" = k.sink "b") ∧
      ∃ uses, Stay 2 true uses ∧
        S.history.filter (fun x => x.2.context? = some 2) = uses.map (Prod.mk "c") := by
  obtain ⟨S, hS, ha, hb, hc, hida, hidb, hidc⟩ := crowd_overlaps
  have hid : ∀ {name : String} {id n : Nat}, (S.own name).created = [n] →
      (name, .create id) ∈ S.history → id = n := by
    intro name id n hcreated hmem
    have hmem := Journal.mem_created.2 (mem_own.2 hmem)
    rw [hcreated] at hmem
    exact List.mem_singleton.1 hmem
  have hundisturbed := overlapping_calls_are_undisturbed (fun _ _ h => h) hS
  refine ⟨S, hS, ?_, ?_, ?_⟩
  · exact (hundisturbed "a").outcome _ _ ha (fun id h => by rw [hid hida h]) 7
  · exact (hundisturbed "b").outcome _ _ hb (fun id h => by rw [hid hidb h]) 7
  · have hmem : (("c", .create 2) : String × Event) ∈ S.history :=
      mem_own.1 (Journal.mem_created.1 (by rw [hidc]; exact List.mem_singleton_self 2))
    obtain ⟨uses, hstay, huses, -⟩ := (hundisturbed "c").context 2 hmem
    rw [hc] at hstay
    exact ⟨uses, hstay, huses⟩

end ProgramHost
