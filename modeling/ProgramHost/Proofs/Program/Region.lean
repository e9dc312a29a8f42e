import ProgramHost.Proofs.Program.Growth
import ProgramHost.Proofs.Program.Stages
import ProgramHost.Proofs.Value.Decode
/-!
# The value region after a run

A memory is made of whole pages, and 16 of them end where the value region ends. So the
region is inside or the tag is already outside, and nothing ends between the two. With the
region inside, `Tagged m t v` says what a memory with the tag `t` stands for: only behind a
pointer there are reads that can be outside, and none of them is taken for a read of the
region.

The memory that a run leaves has at least the pages that were declared, however it was
written and grown on the way.
-/

namespace ProgramHost

namespace Value

open Image

/-- A pointer leads to a text, or to a read that is outside. -/
inductive PointsTo (m : Image) (p : UInt32) : Value → Prop
  | lengthOutside : m.size < p.toNat + 4 → PointsTo m p (.outOfBounds p.toNat 4)
  | textOutside {n : UInt32} : m.HoldsWord p.toNat n → m.size < p.toNat + 4 + n.toNat →
      PointsTo m p (.outOfBounds (p.toNat + 4) n.toNat)
  | text {n : UInt32} {bs : List UInt8} : m.HoldsWord p.toNat n → bs.length = n.toNat →
      m.Holds (p.toNat + 4) bs → PointsTo m p (.text (String.ofList (Text.Utf8.decode bs)))

/-- What a memory stands for if it has the whole region, with the tag in it. Then neither the tag
nor the data can be outside, and only what a pointer leads to can be. -/
inductive Tagged (m : Image) : UInt32 → Value → Prop
  | unassigned : Tagged m 0 .unassigned
  | undefined : Tagged m 1 .undefined
  | number {bits : UInt64} : m.Holds 1048568 (LittleEndian.bytes 8 bits.toNat) →
      Tagged m 2 (.number bits)
  | boolean {bs : List UInt8} : bs.length = 4 → m.Holds 1048568 bs →
      Tagged m 3 (.boolean (decide (∃ b ∈ bs, b ≠ 0)))
  | pointer {p : UInt32} {v : Value} : m.HoldsWord 1048568 p → PointsTo m p v → Tagged m 4 v
  | function : Tagged m 5 .function
  | invalidTag {t : UInt32} : 5 < t → Tagged m t (.invalidTag t)

variable {m : Image} {v : Value} {t : UInt32}

theorem exists_tagged (hm : regionEnd ≤ m.size) (h : Decodes m v) :
    ∃ t, m.HoldsWord 1048564 t ∧ Tagged m t v := by
  unfold regionEnd at hm
  cases h with
  | tagOutside hout => omega
  | unassigned ht => exact ⟨_, ht, .unassigned⟩
  | undefined ht => exact ⟨_, ht, .undefined⟩
  | numberOutside _ hout => omega
  | number ht hbits => exact ⟨_, ht, .number hbits⟩
  | booleanOutside _ hout => omega
  | boolean ht hlen hbs => exact ⟨_, ht, .boolean hlen hbs⟩
  | pointerOutside _ hout => omega
  | lengthOutside ht hp hout => exact ⟨_, ht, .pointer hp (.lengthOutside hout)⟩
  | textOutside ht hp hn hout => exact ⟨_, ht, .pointer hp (.textOutside hn hout)⟩
  | text ht hp hn hlen hbs => exact ⟨_, ht, .pointer hp (.text hn hlen hbs)⟩
  | function ht => exact ⟨_, ht, .function⟩
  | invalidTag ht hlt => exact ⟨_, ht, .invalidTag hlt⟩

/-- Only a pointer leads outside of a memory that has the whole region. -/
theorem Tagged.exists_pointer {offset len : Nat} (h : Tagged m t (.outOfBounds offset len)) :
    t = 4 ∧ m.size < offset + len ∧ ∃ p : UInt32, m.HoldsWord 1048568 p ∧
      ((offset, len) = (p.toNat, 4) ∨
        ∃ n : UInt32, m.HoldsWord p.toNat n ∧ (offset, len) = (p.toNat + 4, n.toNat)) := by
  cases h with
  | pointer hp hpoints =>
      cases hpoints with
      | lengthOutside hout => exact ⟨rfl, hout, _, hp, .inl rfl⟩
      | textOutside hn hout => exact ⟨rfl, hout, _, hp, .inr ⟨_, hn, rfl⟩⟩

theorem Tagged.ne_tag (hm : regionEnd ≤ m.size) (h : Tagged m t v) :
    v ≠ .outOfBounds 1048564 4 := by
  rintro rfl
  have hout := h.exists_pointer.2.1
  unfold regionEnd at hm
  omega

/-- A read behind a pointer is not at the data. If the pointer leads to the data, then the
length before it is the tag, and four bytes of data are inside. -/
theorem Tagged.ne_data (hm : regionEnd ≤ m.size) (ht : m.HoldsWord 1048564 t)
    (h : Tagged m t v) (len : Nat) : v ≠ .outOfBounds 1048568 len := by
  rintro rfl
  unfold regionEnd at hm
  obtain ⟨rfl, hout, p, -, heq | ⟨n, hn, heq⟩⟩ := h.exists_pointer
  · obtain ⟨-, rfl⟩ := Prod.mk.inj heq
    omega
  · obtain ⟨hp, rfl⟩ := Prod.mk.inj heq
    have hlength : p.toNat = 1048564 := by omega
    rw [hlength] at hn
    obtain rfl : n = 4 := holdsWord_unique hn ht
    have hfour : (4 : UInt32).toNat = 4 := rfl
    omega

end Value

namespace Program.Executable

variable {x : Executable} {s : Settings} {fuel : Nat} {v : Value}

theorem exists_limits (hlinkable : x.definition.Linkable s) {name : String}
    (h : x.definition.lookup? name = some .memory) : ∃ l, x.definition.memory = some l := by
  obtain ⟨e, hfind, hitem⟩ := Option.map_eq_some_iff.1 h
  have hoffers := x.valid.exports_offered e (List.mem_of_find?_eq_some hfind)
  rw [hitem] at hoffers
  -- The memory is not one of the imports, which are all functions.
  have himports : x.definition.imports.countP (fun i => i.type.isMemory) = 0 := by
    rw [List.countP_eq_zero]
    intro i hi
    rw [hlinkable.typed i hi]
    exact Bool.false_ne_true
  cases hmemory : x.definition.memory with
  | some l => exact ⟨l, rfl⟩
  | none =>
      have hpos : 0 < x.definition.memories := hoffers
      rw [Definition.memories, himports, hmemory] at hpos
      cases hpos

/-- A value is decoded from a memory that was declared, with as many pages as declared or
with more. -/
theorem Ends.exists_grown (h : x.Ends s fuel (.value v)) :
    ∃ l m₀ i m, x.definition.memory = some l ∧ x.instantiate s fuel = some (.ok m₀) ∧
      x.entry s.entryPoint = .ok i ∧ x.invoke fuel i m₀ = some (.ok m) ∧
      l.pages ≤ m.pages ∧ v = Value.decode m.image := by
  obtain ⟨m₀, i, m, hinstance, hentry, hcall, hmemory, hv⟩ := h.exists_returned
  obtain ⟨m₁, hlink, -⟩ := exists_link_of_instantiate hinstance
  obtain ⟨l, hl⟩ := exists_limits (linkable_of_link hlink) hmemory
  have hgrows := (instantiate_grows hinstance).trans (invoke_grows hcall)
  have hpages := hgrows.le_pages
  rw [initialMemory, hl] at hpages
  exact ⟨l, m₀, i, m, hl, hinstance, hentry, hcall, hpages, hv⟩

end Program.Executable

open Program

/-- A value is decoded from whole pages, at least as many as were declared. The tag is
outside exactly if they are less than 16, and nothing is outside at the data. All else that
is outside lies behind a pointer. With 16 pages, declared or grown to, the tag and its data
are read. -/
theorem Host.outside_only_behind_pointer {x : Executable} {s : Settings} {fuel : Nat}
    {sink : String} {j : Journal} {v : Value} (h : Host.run? fuel s sink x = some (j, .ok v)) :
    ∃ l m₀ i m, x.definition.memory = some l ∧ x.instantiate s fuel = some (.ok m₀) ∧
      x.entry s.entryPoint = .ok i ∧ x.invoke fuel i m₀ = some (.ok m) ∧
      v = Value.decode m.image ∧ m.image.size = m.pages * 65536 ∧ l.pages ≤ m.pages ∧
      (v = .outOfBounds 1048564 4 ↔ m.image.size < 16 * 65536) ∧
      (∀ len, v ≠ .outOfBounds 1048568 len) ∧
      (∀ offset len, v = .outOfBounds offset len → (offset, len) ≠ (1048564, 4) →
        m.image.HoldsWord 1048564 4 ∧ m.image.size < offset + len ∧
          ∃ p : UInt32, m.image.HoldsWord 1048568 p ∧
            ((offset, len) = (p.toNat, 4) ∨
              ∃ n : UInt32, m.image.HoldsWord p.toNat n ∧
                (offset, len) = (p.toNat + 4, n.toNat))) ∧
      (16 ≤ l.pages ∨ 16 ≤ m.pages →
        ∃ t, m.image.HoldsWord 1048564 t ∧ Value.Tagged m.image t v) := by
  obtain ⟨ending, hrun, hending⟩ := Option.map_eq_some_iff.1 h
  obtain ⟨-, hresult⟩ := Prod.mk.inj hending
  obtain rfl : ending = .value v := by
    cases ending <;> cases hresult
    rfl
  obtain ⟨l, m₀, i, m, hl, hinstance, hentry, hcall, hpages, hv⟩ :=
    ((x.run?_eq_some_iff s fuel _).1 hrun).exists_grown
  refine ⟨l, m₀, i, m, hl, hinstance, hentry, hcall, hv, rfl, hpages, ?_⟩
  have hsize : m.image.size = m.pages * 65536 := rfl
  have hdecodes : Value.Decodes m.image v := (Value.decode_eq_iff m.image v).1 hv.symm
  by_cases hm : Value.regionEnd ≤ m.image.size
  · obtain ⟨t, ht, htagged⟩ := Value.exists_tagged hm hdecodes
    refine ⟨?_, htagged.ne_data hm ht, ?_, fun _ => ⟨t, ht, htagged⟩⟩
    · unfold Value.regionEnd at hm
      exact ⟨fun htag => absurd htag (htagged.ne_tag hm), fun hlt => by omega⟩
    · rintro offset len rfl -
      obtain ⟨rfl, hpointer⟩ := htagged.exists_pointer
      exact ⟨ht, hpointer⟩
  · -- The pages end before the region, so they end before the tag.
    unfold Value.regionEnd at hm
    obtain rfl : v = .outOfBounds 1048564 4 :=
      hv.trans ((Value.decode_eq_iff m.image _).2 (.tagOutside (by omega)))
    refine ⟨⟨fun _ => by omega, fun _ => rfl⟩, fun len heq => ?_, fun offset len heq hne => ?_,
      fun hlarge => by omega⟩
    · cases heq
    · cases heq
      exact absurd rfl hne

/-- A module that declares 15 pages and grows to 16. It is refused a page more, and leaves
a pointer to the last bytes that have an address. -/
def stretching : Definition where
  imports := [⟨"env", "fault", .function faultSignature⟩]
  memory := some ⟨15, some 16⟩
  hasGlobal := false
  segments := []
  functions := [⟨plainSignature, [.act (.drop (.grow (.const 1))), .act (.drop (.grow (.const 1))),
    .act (.store (.const 1048564) (.const 4)),
    .act (.store (.const 1048568) (.const 0xFFFFFFFE))]⟩]
  exports := [⟨"memory", .memory⟩, ⟨"main", .function 0⟩]
  start := none

theorem stretching_valid : stretching.Valid := by decide

/-- The run of the module ends behind the pointer, with the whole region inside. -/
theorem stretching_ends_behind_pointer :
    (∃ j, Host.run? 10 {} "main" ⟨stretching, stretching_valid⟩ =
      some (j, .ok (.outOfBounds 4294967294 4))) ∧
    ∃ m₀ m, Executable.instantiate ⟨stretching, stretching_valid⟩ {} 10 = some (.ok m₀) ∧
      Executable.invoke ⟨stretching, stretching_valid⟩ 10 0 m₀ = some (.ok m) ∧
      m.image.HoldsWord 1048564 4 ∧ 16 * 65536 ≤ m.image.size ∧ m.image.size < 4294967298 := by
  obtain ⟨j, hrun⟩ : ∃ j, Host.run? 10 {} "main" ⟨stretching, stretching_valid⟩ =
    some (j, .ok (.outOfBounds 4294967294 4)) := ⟨_, rfl⟩
  obtain ⟨l, m₀, i, m, -, hinstance, hentry, hcall, -, -, -, hregion, -, hpointer, -⟩ :=
    Host.outside_only_behind_pointer hrun
  obtain rfl : 0 = i := Except.ok.inj hentry
  obtain ⟨htag, hout, -⟩ := hpointer 4294967294 4 rfl (by simp)
  have hsize : ¬ m.image.size < 16 * 65536 := fun hlt => by simpa using hregion.2 hlt
  exact ⟨⟨j, hrun⟩, m₀, m, hinstance, hcall, htag, Nat.le_of_not_lt hsize, hout⟩

end ProgramHost
