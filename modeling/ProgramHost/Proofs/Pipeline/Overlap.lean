import Mathlib.Data.List.Basic
import Mathlib.Logic.Function.Basic
import ProgramHost.Proofs.Compile.Progress
/-!
# Calls that overlap

Calls that compile share one parser, one compiler and one journal. `Overlap.Moves` lets
any of them make its next move at any time: the call finds its context among the live
contexts of the compiler by the number that it holds on to, and a new context gets the
next number of the journal. No call waits for another one.

`Separate` is the invariant of all calls at once: each finds a context of its own, with
exactly what has happened for it, and no two calls ever had a context in common. So a
move of one call changes nothing for another, and what holds of a call by itself holds
of it however the calls overlap.
-/

namespace ProgramHost

open Program

/-- Calls that overlap: the stage of each, the live contexts of the compiler by their
numbers, and all that has happened, each event with the call for which it happened. -/
structure Overlap (ι : Type) where
  stage : ι → Stage Nat
  contexts : Nat → Option Flight
  history : List (ι × Event)

namespace Stage

def release (contexts : Nat → Option Flight) : Stage Flight → Nat → Option Flight
  | working f => Function.update contexts f.id none
  | _ => contexts

def claim (contexts : Nat → Option Flight) : Stage Flight → Nat → Option Flight
  | working f => Function.update contexts f.id (some f)
  | _ => contexts

theorem release_of_forall_ne (contexts : Nat → Option Flight) {s : Stage Flight} {id : Nat}
    (h : ∀ f, s = working f → id ≠ f.id) : s.release contexts id = contexts id := by
  cases s with
  | working f => exact Function.update_of_ne (h f rfl) _ _
  | _ => rfl

theorem claim_of_forall_ne (contexts : Nat → Option Flight) {s : Stage Flight} {id : Nat}
    (h : ∀ f, s = working f → id ≠ f.id) : s.claim contexts id = contexts id := by
  cases s with
  | working f => exact Function.update_of_ne (h f rfl) _ _
  | _ => rfl

theorem exists_of_map_eq_working {s : Stage Flight} {id : Nat}
    (h : s.map Flight.id = working id) : ∃ f, s = working f ∧ f.id = id := by
  cases s with
  | working f => exact ⟨f, rfl, working.inj h⟩
  | _ => cases h

theorem eq_ended_of_map_eq {s : Stage Flight} {o : Compiled}
    (h : s.map Flight.id = ended o) : s = ended o := by
  cases s <;> cases h
  rfl

theorem eq_or_exists_of_map_id_eq {s t : Stage Flight} (h : s.map Flight.id = t.map Flight.id) :
    s = t ∨ ∃ f g, s = working f ∧ t = working g ∧ f.id = g.id := by
  cases s <;> cases t <;> simp_all [map]

end Stage

namespace Overlap

variable {ι : Type}

def initial : Overlap ι := ⟨fun _ => .waiting, fun _ => none, []⟩

def journal (S : Overlap ι) : Journal := S.history.map Prod.snd

def nextId (past : Journal) (S : Overlap ι) : Nat :=
  (Journal.created (past ++ S.journal)).length

/-- A call is in a stage, and while it works its flight is the one that is found in its context.
The flight is looked up by number, as the compiler does it; that every call finds its own
is to be proved. -/
def Sees (S : Overlap ι) (c : ι) (s : Stage Flight) : Prop :=
  S.stage c = s.map Flight.id ∧ ∀ f, s = .working f → S.contexts f.id = some f

theorem Sees.waiting {S : Overlap ι} {c : ι} (h : S.stage c = .waiting) : S.Sees c .waiting :=
  ⟨h, nofun⟩

theorem Sees.working {S : Overlap ι} {c : ι} {f : Flight} (hstage : S.stage c = .working f.id)
    (hcontext : S.contexts f.id = some f) : S.Sees c (.working f) := by
  refine ⟨hstage, ?_⟩
  rintro g ⟨⟩
  exact hcontext

theorem Sees.validating {S : Overlap ι} {c : ι} {b : Binary}
    (h : S.stage c = .validating b) : S.Sees c (.validating b) :=
  ⟨h, nofun⟩

theorem Sees.unique {S : Overlap ι} {c : ι} {s t : Stage Flight} (h : S.Sees c s)
    (h' : S.Sees c t) : s = t := by
  obtain rfl | ⟨f, g, rfl, rfl, hid⟩ := Stage.eq_or_exists_of_map_id_eq (h.1.symm.trans h'.1)
  · rfl
  · have hf := h.2 f rfl
    rw [hid, h'.2 g rfl] at hf
    cases hf
    rfl

variable [DecidableEq ι]

def own (S : Overlap ι) (c : ι) : Journal :=
  (S.history.filter fun x => x.1 = c).map Prod.snd

/-- The overlap after a call has gone from one stage to another. -/
def after (S : Overlap ι) (c : ι) (s t : Stage Flight) (j : Journal) : Overlap ι where
  stage := Function.update S.stage c (t.map Flight.id)
  contexts := t.claim (s.release S.contexts)
  history := S.history ++ j.map (Prod.mk c)

inductive Moves (p : Pipeline) (q : ι → Request) (past : Journal) :
    Overlap ι → Overlap ι → Prop
  | call {S : Overlap ι} (c : ι) {s t : Stage Flight} {j : Journal} : S.Sees c s →
      (q c).Moves p (S.nextId past) s j t → Moves p q past S (S.after c s t j)

/-- What the calls come to by any moves in any order. A move is one act in a context, so between
two acts of a call any number of acts of the others can stand. -/
inductive Reachable (p : Pipeline) (q : ι → Request) (past : Journal) : Overlap ι → Prop
  | initial : Reachable p q past .initial
  | move {S T : Overlap ι} : Reachable p q past S → Moves p q past S T →
      Reachable p q past T

/-- Every call finds its own context with what has happened for it, no context ever
belonged to two calls, and every live context belongs to a call that works. -/
structure Separate (p : Pipeline) (q : ι → Request) (past : Journal) (S : Overlap ι) :
    Prop where
  seen : ∀ c, ∃ s, S.Sees c s ∧ Progress p (q c) s (S.own c)
  below : ∀ c id, (c, .create id) ∈ S.history → id < S.nextId past
  apart : ∀ c c' id, (c, .create id) ∈ S.history → (c', .create id) ∈ S.history → c = c'
  claimed : ∀ id f, S.contexts id = some f → ∃ c, S.stage c = .working id

section

variable {S : Overlap ι} {c c' : ι} {s t : Stage Flight} {j : Journal}

@[simp] theorem mem_own {e : Event} : e ∈ S.own c ↔ (c, e) ∈ S.history := by
  simp [own]

theorem own_after : (S.after c s t j).own c = S.own c ++ j := by
  simp [own, after, List.filter_map, Function.comp_def]

theorem own_after_of_ne (h : c' ≠ c) : (S.after c s t j).own c' = S.own c' := by
  simp [own, after, List.filter_map, Function.comp_def, h.symm]

theorem sees_after : (S.after c s t j).Sees c t := by
  refine ⟨Function.update_self .., ?_⟩
  rintro f rfl
  exact Function.update_self ..

theorem journal_after : (S.after c s t j).journal = S.journal ++ j := by
  simp [journal, after, Function.comp_def]

theorem nextId_after (past : Journal) :
    (S.after c s t j).nextId past = S.nextId past + j.created.length := by
  simp [nextId, journal_after, Journal.created_append, Nat.add_assoc]

end

namespace Separate

variable {p : Pipeline} {q : ι → Request} {past : Journal} {S : Overlap ι} {c c' : ι}
  {s t : Stage Flight} {j : Journal}

theorem initial (p : Pipeline) (q : ι → Request) (past : Journal) :
    Separate p q past (.initial : Overlap ι) where
  seen := fun c => ⟨.waiting, ⟨rfl, by simp⟩, .waiting⟩
  below := by simp [Overlap.initial]
  apart := by simp [Overlap.initial]
  claimed := by simp [Overlap.initial]

theorem progress (h : Separate p q past S) (hsees : S.Sees c s) :
    Progress p (q c) s (S.own c) := by
  obtain ⟨t, ht, hprogress⟩ := h.seen c
  exact hsees.unique ht ▸ hprogress

theorem create_mem (h : Separate p q past S) {f : Flight} (hsees : S.Sees c (.working f)) :
    (c, .create f.id) ∈ S.history :=
  mem_own.1 (h.progress hsees).create_mem

theorem id_ne (h : Separate p q past S) {f f' : Flight} (hsees : S.Sees c (.working f))
    (hsees' : S.Sees c' (.working f')) (hc : c' ≠ c) : f'.id ≠ f.id := by
  intro hid
  have hmem' := h.create_mem hsees'
  rw [hid] at hmem'
  exact hc (h.apart _ _ _ hmem' (h.create_mem hsees))

/-! What a move of one call does to the parts of the invariant. -/

theorem below_after (h : Separate p q past S) (hmove : (q c).Moves p (S.nextId past) s j t)
    {id : Nat} (hmem : (c', .create id) ∈ (S.after c s t j).history) :
    id < (S.after c s t j).nextId past := by
  rw [nextId_after]
  rcases List.mem_append.1 hmem with hold | hnew
  · exact Nat.lt_add_right _ (h.below c' id hold)
  · obtain ⟨e, he, heq⟩ := List.mem_map.1 hnew
    cases heq
    rw [hmove.eq_of_create_mem he]
    exact Nat.lt_add_of_pos_right (List.length_pos_of_mem (Journal.mem_created.2 he))

theorem apart_after (h : Separate p q past S) (hmove : (q c).Moves p (S.nextId past) s j t)
    {c₁ c₂ : ι} {id : Nat} (h₁ : (c₁, .create id) ∈ (S.after c s t j).history)
    (h₂ : (c₂, .create id) ∈ (S.after c s t j).history) : c₁ = c₂ := by
  -- what is new is the next number, and all that was there before is below it
  have hnew : ∀ c', (c', Event.create id) ∈ j.map (Prod.mk c) →
      c' = c ∧ id = S.nextId past := by
    intro c' hmem
    obtain ⟨e, he, heq⟩ := List.mem_map.1 hmem
    cases heq
    exact ⟨rfl, hmove.eq_of_create_mem he⟩
  rcases List.mem_append.1 h₁ with hold₁ | hnew₁
  · rcases List.mem_append.1 h₂ with hold₂ | hnew₂
    · exact h.apart c₁ c₂ id hold₁ hold₂
    · exact absurd (hnew c₂ hnew₂).2 (Nat.ne_of_lt (h.below c₁ id hold₁))
  · rcases List.mem_append.1 h₂ with hold₂ | hnew₂
    · exact absurd (hnew c₁ hnew₁).2 (Nat.ne_of_lt (h.below c₂ id hold₂))
    · exact (hnew c₁ hnew₁).1.trans (hnew c₂ hnew₂).1.symm

theorem progress_after (h : Separate p q past S) (hsees : S.Sees c s)
    (hmove : (q c).Moves p (S.nextId past) s j t) :
    Progress p (q c) t ((S.after c s t j).own c) := by
  rw [own_after]
  exact (h.progress hsees).move hmove

theorem sees_after_of_ne (h : Separate p q past S) (hsees : S.Sees c s)
    (hmove : (q c).Moves p (S.nextId past) s j t) (hc : c' ≠ c) {s' : Stage Flight}
    (hsees' : S.Sees c' s') : (S.after c s t j).Sees c' s' := by
  refine ⟨(Function.update_of_ne hc _ _).trans hsees'.1, ?_⟩
  rintro f' rfl
  -- neither the context that is released nor the one that is claimed is that of `c'`
  have hrelease : ∀ f, s = .working f → f'.id ≠ f.id := by
    rintro f rfl
    exact h.id_ne hsees hsees' hc
  have hclaim : ∀ g, t = .working g → f'.id ≠ g.id := by
    rintro g rfl hid
    have hmem := mem_own.1 (h.progress_after hsees hmove).create_mem
    have hmem' : (c', .create f'.id) ∈ (S.after c s (.working g) j).history :=
      List.mem_append_left _ (h.create_mem hsees')
    rw [hid] at hmem'
    exact hc (h.apart_after hmove hmem' hmem)
  exact (Stage.claim_of_forall_ne _ hclaim).trans
    ((Stage.release_of_forall_ne _ hrelease).trans (hsees'.2 f' rfl))

theorem claimed_after (h : Separate p q past S) (hsees : S.Sees c s) {id : Nat} {f : Flight}
    (hid : (S.after c s t j).contexts id = some f) :
    ∃ c', (S.after c s t j).stage c' = .working id := by
  by_cases hclaim : ∃ g, t = .working g ∧ id = g.id
  · obtain ⟨g, rfl, rfl⟩ := hclaim
    exact ⟨c, Function.update_self ..⟩
  · have hid : t.claim (s.release S.contexts) id = some f := hid
    rw [Stage.claim_of_forall_ne _ fun g ht hg => hclaim ⟨g, ht, hg⟩] at hid
    have hrelease : ∀ g, s = .working g → id ≠ g.id := by
      rintro g rfl rfl
      rw [Stage.release, Function.update_self] at hid
      cases hid
    rw [Stage.release_of_forall_ne _ hrelease] at hid
    obtain ⟨c', hc'⟩ := h.claimed id f hid
    have hne : c' ≠ c := by
      rintro rfl
      obtain ⟨g, rfl, hg⟩ := Stage.exists_of_map_eq_working (hsees.1.symm.trans hc')
      exact hrelease g rfl hg.symm
    exact ⟨c', (Function.update_of_ne hne _ _).trans hc'⟩

/-- A move of any call keeps all calls apart. -/
theorem move {T : Overlap ι} (h : Separate p q past S) (hmove : Moves p q past S T) :
    Separate p q past T := by
  cases hmove with
  | @call c s t j hsees hmove =>
      refine ⟨fun c' => ?_, fun _ _ hmem => h.below_after hmove hmem,
        fun _ _ _ => h.apart_after hmove, fun _ _ hid => h.claimed_after hsees hid⟩
      by_cases hc : c' = c
      · obtain rfl := hc
        exact ⟨t, sees_after, h.progress_after hsees hmove⟩
      · obtain ⟨s', hsees', hprogress⟩ := h.seen c'
        refine ⟨s', h.sees_after_of_ne hsees hmove hc hsees', ?_⟩
        rwa [own_after_of_ne hc]

end Separate

section

variable {p : Pipeline} {q : ι → Request} {past : Journal} {S : Overlap ι} {c : ι}
  {s t : Stage Flight} {j : Journal} {id : Nat}

theorem Reachable.separate (h : Reachable p q past S) : Separate p q past S := by
  induction h with
  | initial => exact .initial p q past
  | move _ hmove ih => exact ih.move hmove

/-- Some moves of one call in a row, which the other calls do not see. -/
theorem Reachable.runs (h : Reachable p q past S) (hsees : S.Sees c s)
    (hruns : (q c).Runs p id s j t) (hid : s = .waiting → id = S.nextId past) :
    ∃ T, Reachable p q past T ∧ T.Sees c t ∧ T.journal = S.journal ++ j ∧
      ∀ c', c' ≠ c → ∀ s', S.Sees c' s' → T.Sees c' s' := by
  induction hruns generalizing S with
  | rest s => exact ⟨S, h, hsees, (List.append_nil _).symm, fun _ _ _ hs => hs⟩
  | @move s t u j k hmove hruns ih =>
      have hmove' := hmove.renumber hid
      obtain ⟨T, hT, hseesT, hjournal, hothers⟩ := ih (h.move (.call c hsees hmove'))
        sees_after fun ht => absurd ht hmove.ne_waiting
      refine ⟨T, hT, hseesT, ?_, fun c' hc s' hs' => ?_⟩
      · rw [hjournal, journal_after, List.append_assoc]
      · exact hothers c' hc s' (h.separate.sees_after_of_ne hsees hmove' hc hs')

end

/-! ## What is read off the invariant -/

namespace Separate

variable {p : Pipeline} {q : ι → Request} {past : Journal} {S : Overlap ι} {c c' : ι}

theorem sink_eq_of_report (h : Separate p q past S) {name : String} {d : Diagnostic}
    (hmem : (c, .report name d) ∈ S.history) : name = (q c).sink := by
  obtain ⟨s, -, hprogress⟩ := h.seen c
  have hd : d ∈ (S.own c).sink name := Journal.mem_sink.2 (mem_own.2 hmem)
  by_contra hne
  rw [hprogress.sink_eq_nil (Ne.symm hne)] at hd
  cases hd

theorem sink_journal (h : Separate p q past S)
    (hsinks : Function.Injective fun c => (q c).sink) (c : ι) :
    S.journal.sink (q c).sink = (S.own c).sink (q c).sink := by
  simp only [Journal.sink, journal, own, List.filterMap_map, List.filterMap_filter]
  refine List.filterMap_congr ?_
  rintro ⟨c', e⟩ hmem
  by_cases hc : c' = c
  · simp [hc]
  · have hnone : e.reported? (q c).sink = none := by
      cases e with
      | report name d =>
          have hname : name ≠ (q c).sink := by
            rintro rfl
            exact hc (hsinks (h.sink_eq_of_report hmem)).symm
          simp [Event.reported?, hname]
      | _ => rfl
    simp [hc, hnone]

theorem eq_of_context (h : Separate p q past S) {id : Nat} {e : Event}
    (hcreate : (c, .create id) ∈ S.history) (hmem : (c', e) ∈ S.history)
    (hid : e.context? = some id) : c' = c := by
  obtain ⟨s, -, hprogress⟩ := h.seen c'
  exact h.apart _ _ _ (mem_own.1 (hprogress.stay (mem_own.2 hmem) hid).1) hcreate

/-- The uses of a context by all calls are those by the call that created it. -/
theorem filter_context (h : Separate p q past S) {id : Nat}
    (hcreate : (c, .create id) ∈ S.history) :
    S.history.filter (fun x => x.2.context? = some id) =
      ((S.own c).filter fun e => e.context? = some id).map (Prod.mk c) := by
  have hown : ∀ x ∈ S.history, x.2.context? = some id → x.1 = c := fun x hx hid =>
    h.eq_of_context hcreate hx hid
  rw [own, List.filter_map, List.map_map, List.filter_filter]
  have hsame : S.history.filter (fun x => x.2.context? = some id) =
      S.history.filter fun x => decide (x.2.context? = some id) && decide (x.1 = c) := by
    refine List.filter_congr fun x hx => ?_
    by_cases hid : x.2.context? = some id <;> simp [hid, hown x hx]
  rw [hsame]
  refine (List.map_id' _).symm.trans (List.map_congr_left fun x hx => ?_)
  have hc : x.1 = c := by
    have hboth := (List.mem_filter.1 hx).2
    rw [Bool.and_eq_true, decide_eq_true_eq, decide_eq_true_eq] at hboth
    exact hboth.2
  rw [← hc]
  rfl

/-- The context of a call is live exactly as long as the call works. -/
theorem isSome_contexts_iff (h : Separate p q past S) {id : Nat}
    (hcreate : (c, .create id) ∈ S.history) :
    (S.contexts id).isSome ↔ S.stage c = .working id := by
  constructor
  · intro hlive
    obtain ⟨f, hf⟩ := Option.isSome_iff_exists.1 hlive
    obtain ⟨c', hc'⟩ := h.claimed id f hf
    obtain ⟨s, hsees, -⟩ := h.seen c'
    obtain ⟨g, rfl, rfl⟩ := Stage.exists_of_map_eq_working (hsees.1.symm.trans hc')
    rwa [h.apart c' c g.id (h.create_mem hsees) hcreate] at hc'
  · intro hworking
    obtain ⟨s, hsees, -⟩ := h.seen c
    obtain ⟨g, rfl, rfl⟩ := Stage.exists_of_map_eq_working (hsees.1.symm.trans hworking)
    rw [hsees.2 g rfl]
    rfl

end Separate

end Overlap

end ProgramHost
