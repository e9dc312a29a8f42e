import ProgramHost.Journal
/-!
# Views of the journal

A journal is read through its views: what a sink holds, which records were made,
and which events use a context. Each view is a filter of the events, so it splits
an appended journal, and what a collaborator reports in a row is seen in one sink
only.

`uses j` keeps the events that create a context, compile in it or destroy it. The
created, the destroyed and the live contexts are all views of the uses.
-/

namespace ProgramHost

namespace Event

def context? : Event → Option Nat
  | .create id => some id
  | .compile id _ _ => some id
  | .destroy id => some id
  | _ => none

def request? : Event → Option (String × String)
  | .compile _ tree options => some (tree, options)
  | _ => none

end Event

namespace Journal

def reports (sink : String) (ds : List Diagnostic) : Journal :=
  ds.map (.report sink)

/-- The events that use a context. -/
def uses (j : Journal) : Journal :=
  j.filter fun e => e.context?.isSome

def requests (j : Journal) : List (String × String) :=
  j.filterMap Event.request?

/-- The records of the host that validates a module. -/
def validations (j : Journal) : List Note :=
  j.notes.filter fun n => n.target = "host"

@[simp] theorem sink_nil (name : String) : sink [] name = [] := rfl

@[simp] theorem notes_nil : notes [] = [] := rfl

@[simp] theorem uses_nil : uses [] = [] := rfl

@[simp] theorem requests_nil : requests [] = [] := rfl

theorem sink_cons (e : Event) (j : Journal) (name : String) :
    sink (e :: j) name = (e.reported? name).toList ++ j.sink name := by
  cases h : e.reported? name <;> simp [sink, h]

theorem notes_cons (e : Event) (j : Journal) :
    notes (e :: j) = e.note?.toList ++ j.notes := by
  cases h : e.note? <;> simp [notes, h]

theorem uses_cons (e : Event) (j : Journal) :
    uses (e :: j) = (if e.context?.isSome then [e] else []) ++ j.uses := by
  cases h : e.context? <;> simp [uses, h]

theorem requests_cons (e : Event) (j : Journal) :
    requests (e :: j) = e.request?.toList ++ j.requests := by
  cases h : e.request? <;> simp [requests, h]

theorem uses_append (j k : Journal) : uses (j ++ k) = j.uses ++ k.uses := by
  simp [uses]

theorem requests_append (j k : Journal) :
    requests (j ++ k) = j.requests ++ k.requests := by
  simp [requests]

theorem mem_uses {j : Journal} {e : Event} : e ∈ j.uses ↔ e ∈ j ∧ e.context?.isSome := by
  simp [uses]

theorem mem_sink {j : Journal} {name : String} {d : Diagnostic} :
    d ∈ j.sink name ↔ .report name d ∈ j := by
  simp only [sink, List.mem_filterMap]
  constructor
  · rintro ⟨e, he, hd⟩
    cases e <;> simp_all [Event.reported?]
  · exact fun h => ⟨_, h, by simp [Event.reported?]⟩

theorem mem_created {j : Journal} {id : Nat} : id ∈ j.created ↔ .create id ∈ j := by
  simp only [created, List.mem_filterMap]
  constructor
  · rintro ⟨e, he, hid⟩
    cases e <;> simp_all [Event.created?]
  · exact fun h => ⟨_, h, rfl⟩

theorem sink_reports (sink name : String) (ds : List Diagnostic) :
    (reports sink ds).sink name = if sink = name then ds else [] := by
  by_cases h : sink = name
  · simp [reports, Journal.sink, List.filterMap_map, Function.comp_def, Event.reported?, h]
  · simp [reports, Journal.sink, List.filterMap_map, Function.comp_def, Event.reported?, h]

@[simp] theorem notes_reports (sink : String) (ds : List Diagnostic) :
    (reports sink ds).notes = [] := by
  simp [reports, notes, Event.note?]

@[simp] theorem uses_reports (sink : String) (ds : List Diagnostic) :
    (reports sink ds).uses = [] := by
  simp [reports, uses, Event.context?]

@[simp] theorem requests_reports (sink : String) (ds : List Diagnostic) :
    (reports sink ds).requests = [] := by
  simp [reports, requests, Event.request?]

theorem created_uses (j : Journal) : j.uses.created = j.created := by
  rw [created, uses, List.filterMap_filter, created]
  congr 1
  ext1 e
  cases e <;> rfl

theorem destroyed_uses (j : Journal) : j.uses.destroyed = j.destroyed := by
  rw [destroyed, uses, List.filterMap_filter, destroyed]
  congr 1
  ext1 e
  cases e <;> rfl

end Journal

end ProgramHost
