import ProgramHost.CommandLine.Options
/-!
# The flag in front of other arguments

The flag that asks for a document is read apart from all other arguments. Reading any of
them gives the same with the flag raised before, so a command line without the flag asks
for the same as one with the flag in front of it, but for the document.

`Unmoved f` says that raising the flag goes through the reading `f`. If the flag is
raised already, then raising it changes nothing, so such a reading does not lower it.
-/

namespace ProgramHost.CommandLine

namespace Reading

def raise (r : Reading) : Reading := { r with json := true }

theorem raise_eq_self {r : Reading} (h : r.json = true) : r.raise = r := by
  obtain ⟨values, json, path, unsettled, trailing⟩ := r
  obtain rfl : json = true := h
  rfl

/-- The flag can be raised before the reading or after it. -/
def Unmoved (f : Reading → Except Exit Reading) : Prop :=
  ∀ r, f r.raise = (f r).map raise

namespace Unmoved

variable {f g : Reading → Except Exit Reading}

theorem bind (hf : Unmoved f) (hg : Unmoved g) : Unmoved fun r => f r >>= g := by
  intro r
  dsimp only
  rw [hf r]
  cases f r with
  | error e => rfl
  | ok s => exact hg s

theorem error (e : Exit) : Unmoved fun _ => .error e := fun _ => rfl

theorem eq_ok (hf : Unmoved f) {r s : Reading} (h : f r = .ok s) : f r.raise = .ok s.raise := by
  rw [hf r, h]
  rfl

theorem json_eq (hf : Unmoved f) {r s : Reading} (h : f r = .ok s) (hr : r.json = true) :
    s.json = true := by
  have hraise := hf.eq_ok h
  rw [raise_eq_self hr, h] at hraise
  rw [Except.ok.inj hraise]
  rfl

end Unmoved

theorem setValue_unmoved (o : Setting) (value : String) : Unmoved fun r => r.setValue o value := by
  intro r
  by_cases hrepeated : (r.values.lookup o).isSome
  · simp [setValue, raise, hrepeated, Except.map]
  · simp [setValue, raise, hrepeated, Except.map]

theorem settle_unmoved : Unmoved settle := by
  intro r
  obtain ⟨values, json, path, unsettled, trailing⟩ := r
  cases unsettled with
  | none => rfl
  | some u =>
      cases u with
      | option o value =>
          cases value with
          | none => rfl
          | some value => exact setValue_unmoved o value ⟨values, json, path, none, trailing⟩
      | path p =>
          by_cases hempty : p = ""
          · subst hempty
            rfl
          · simp [settle, raise, Except.map]

theorem readPath_unmoved (argument : String) : Unmoved fun r => r.readPath argument := by
  intro r
  have hpath : r.raise.hasPath = r.hasPath := rfl
  simp only [readPath, hpath]
  split
  · rfl
  · exact settle_unmoved.bind (fun _ => rfl) r

theorem readOption_unmoved (o : Setting) (value : Option String) :
    Unmoved fun r => r.readOption o value := by
  refine settle_unmoved.bind ?_
  cases value with
  | none => exact fun _ => rfl
  | some value => exact setValue_unmoved o value

theorem exitWith_unmoved (e : Exit) : Unmoved fun r => r.exitWith e :=
  settle_unmoved.bind (.error e)

theorem readShort_unmoved (c : Char) : Unmoved fun r => r.readShort c := by
  intro r
  simp only [readShort]
  split
  · exact exitWith_unmoved _ r
  · split
    · exact exitWith_unmoved _ r
    · rfl

theorem readPlain_unmoved (argument : String) : Unmoved fun r => r.readPlain argument := by
  intro r
  have hunsettled : r.raise.unsettled = r.unsettled := rfl
  simp only [readPlain, hunsettled]
  split
  · rfl
  · exact readPath_unmoved argument r

theorem json_of_readJson {r s : Reading} (h : r.readJson = .ok s) : s.json = true := by
  unfold readJson at h
  cases hr : r.settle with
  | error e =>
      rw [hr] at h
      cases h
  | ok t =>
      rw [hr] at h
      dsimp only [bind, Except.bind] at h
      split at h
      · cases h
      · cases h
        rfl

theorem readLong_unmoved_or (name : String) (value : Option String) :
    (Unmoved fun r => r.readLong name value) ∨ (fun r => r.readLong name value) = readJson := by
  unfold readLong
  cases Setting.ofKey? name with
  | some o => exact .inl (readOption_unmoved o value)
  | none =>
      dsimp only
      by_cases hjson : name = "json"
      · cases value with
        | some value => exact .inl (by simpa [hjson] using Unmoved.error _)
        | none => exact .inr (by simp [hjson])
      · by_cases hknown : name = "help" ∨ name = "version"
        · cases value with
          | some value => exact .inl (by simpa [hknown] using Unmoved.error _)
          | none => exact .inl (by simpa [hjson, hknown] using exitWith_unmoved _)
        · exact .inl (by simpa [hjson, hknown] using Unmoved.error _)

/-- The reading that an argument calls for does not look at the flag, or it is that of the
flag. -/
theorem exists_read_eq (r : Reading) (argument : String) :
    ∃ f, r.read argument = f r ∧ r.raise.read argument = f r.raise ∧
      (Unmoved f ∨ f = readJson) := by
  have htrailing : r.raise.trailing = r.trailing := rfl
  unfold read
  rw [htrailing]
  split
  · exact ⟨_, rfl, rfl, .inl (readPath_unmoved argument)⟩
  · split
    · exact ⟨fun r => .ok { r with trailing := true }, rfl, rfl, .inl fun _ => rfl⟩
    · exact ⟨_, rfl, rfl, readLong_unmoved_or _ _⟩
    · exact ⟨_, rfl, rfl, .inl (readShort_unmoved _)⟩
    · exact ⟨_, rfl, rfl, .inl (readPlain_unmoved argument)⟩

theorem json_of_read {r s : Reading} {argument : String} (h : r.read argument = .ok s)
    (hr : r.json = true) : s.json = true := by
  obtain ⟨f, hf, -, hunmoved | rfl⟩ := r.exists_read_eq argument
  · exact hunmoved.json_eq (hf.symm.trans h) hr
  · exact json_of_readJson (hf.symm.trans h)

/-- An argument that leaves the flag as it is is read in the same way with the flag raised. -/
theorem read_raise {r s : Reading} {argument : String} (h : r.read argument = .ok s)
    (hs : s.json = false) : r.raise.read argument = .ok s.raise := by
  obtain ⟨f, hf, hraise, hunmoved | rfl⟩ := r.exists_read_eq argument
  · exact hraise.trans (hunmoved.eq_ok (hf.symm.trans h))
  · rw [json_of_readJson (hf.symm.trans h)] at hs
    cases hs

theorem json_of_foldlM_read {arguments : List String} {r s : Reading}
    (h : arguments.foldlM read r = .ok s) (hr : r.json = true) : s.json = true := by
  induction arguments generalizing r with
  | nil =>
      cases h
      exact hr
  | cons argument arguments ih =>
      rw [List.foldlM_cons] at h
      cases hread : r.read argument with
      | error e =>
          rw [hread] at h
          cases h
      | ok t =>
          rw [hread] at h
          exact ih h (json_of_read hread hr)

theorem foldlM_read_raise {arguments : List String} {r s : Reading}
    (h : arguments.foldlM read r = .ok s) (hs : s.json = false) :
    arguments.foldlM read r.raise = .ok s.raise := by
  induction arguments generalizing r with
  | nil =>
      cases h
      rfl
  | cons argument arguments ih =>
      rw [List.foldlM_cons] at h ⊢
      cases hread : r.read argument with
      | error e =>
          rw [hread] at h
          cases h
      | ok t =>
          rw [hread] at h
          have ht : t.json = false := by
            rw [← Bool.not_eq_true]
            intro ht
            rw [json_of_foldlM_read h ht] at hs
            cases hs
          rw [read_raise hread ht]
          exact ih h

theorem json_of_setValue {r s : Reading} {o : Setting} {value : String}
    (h : r.setValue o value = .ok s) : s.json = r.json := by
  unfold setValue at h
  split at h <;> cases h
  rfl

theorem json_of_settle {r s : Reading} (h : r.settle = .ok s) : s.json = r.json := by
  unfold settle at h
  split at h
  · cases h
    rfl
  · cases h
  · exact json_of_setValue (r := { r with unsettled := none }) h
  · cases h
  · cases h
    rfl

theorem finish_raise {r : Reading} {o : Options} (h : r.finish = .ok o) :
    o.json = r.json ∧ r.raise.finish = .ok { o with json := true } := by
  unfold finish at h ⊢
  rw [settle_unmoved r]
  cases hsettle : r.settle with
  | error e =>
      rw [hsettle] at h
      cases h
  | ok s =>
      rw [hsettle] at h
      have hpath : s.raise.path = s.path := rfl
      dsimp only [bind, Except.bind, Except.map] at h ⊢
      rw [hpath]
      cases hs : s.path with
      | none =>
          rw [hs] at h
          cases h
      | some path =>
          rw [hs] at h
          cases h
          exact ⟨json_of_settle hsettle, rfl⟩

end Reading

/-- The flag in front of a command line without it asks for the same, but as a document. -/
theorem Options.parse_json_cons {arguments : List String} {o : Options}
    (h : Options.parse arguments = .ok o) (ho : o.json = false) :
    Options.parse ("--json" :: arguments) = .ok { o with json := true } := by
  unfold parse at h ⊢
  have hflag : Reading.initial.read "--json" = .ok Reading.initial.raise := rfl
  rw [List.foldlM_cons, hflag]
  cases hread : arguments.foldlM Reading.read .initial with
  | error e =>
      rw [hread] at h
      cases h
  | ok r =>
      rw [hread] at h
      obtain ⟨hjson, hfinish⟩ := Reading.finish_raise h
      have hraise := Reading.foldlM_read_raise hread (hjson.symm.trans ho)
      exact (congrArg (· >>= Reading.finish) hraise).trans hfinish

end ProgramHost.CommandLine
