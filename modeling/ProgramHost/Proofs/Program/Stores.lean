import ProgramHost.Proofs.Host
import ProgramHost.Proofs.Program.Fuel
import ProgramHost.Proofs.Program.Growth
import ProgramHost.Proofs.Value.Encode
/-!
# A value that is stored is returned

A store evaluates its operands, which can make the memory grow, and then writes a block.
`f.Writes as bs` says that the stores `as` write the blocks `bs` one after the other when
they are run from `f` on. If these blocks leave the same behind as an encoding of a
value, then none of the stores traps, and the run returns the value, whatever was in the
memory before.
-/

namespace ProgramHost.Program

def Frame.write (f : Frame) (b : Block) : Frame := { f with memory := f.memory.put b }

@[simp] theorem Frame.memory_write (f : Frame) (b : Block) :
    (f.write b).memory = f.memory.put b := rfl

/-- What a store writes in the frame `f`, and the frame when its operands are evaluated. -/
inductive Action.Puts (f : Frame) : Action → Block → Frame → Prop
  | store {a x : Expr} {p w : UInt32} {f₁ f₂ : Frame} :
      f.word a = .ok (p, f₁) → f₁.word x = .ok (w, f₂) →
        Puts f (.store a x) ⟨p.toNat, LittleEndian.bytes 4 w.toNat⟩ f₂
  | store8 {a x : Expr} {p w : UInt32} {f₁ f₂ : Frame} :
      f.word a = .ok (p, f₁) → f₁.word x = .ok (w, f₂) →
        Puts f (.store8 a x) ⟨p.toNat, LittleEndian.bytes 1 w.toNat⟩ f₂
  | storeReal {a : Expr} {x : RealExpr} {p : UInt32} {bits : UInt64} {f₁ f₂ : Frame} :
      f.word a = .ok (p, f₁) → f₁.real x = .ok (bits, f₂) →
        Puts f (.storeReal a x) ⟨p.toNat, LittleEndian.bytes 8 bits.toNat⟩ f₂

namespace Action.Puts

variable {f f₁ : Frame} {a : Action} {b : Block}

theorem memory_extends (h : a.Puts f b f₁) : f.memory.Extends f₁.memory := by
  cases h with
  | store ha hx => exact (Frame.word_extends ha).trans (Frame.word_extends hx)
  | store8 ha hx => exact (Frame.word_extends ha).trans (Frame.word_extends hx)
  | storeReal ha hx => exact (Frame.word_extends ha).trans (Frame.real_extends hx)

theorem bytes_ne_nil (h : a.Puts f b f₁) : b.bytes ≠ [] := by
  cases h <;> exact List.cons_ne_nil _ _

theorem run_eq (h : a.Puts f b f₁) (hb : b.stop ≤ f₁.memory.size) :
    a.run f = .ok (f₁.write b) := by
  have hput := Memory.write?_eq_put hb
  cases h with
  | store ha hx =>
      refine (bind_eq_of_eq_ok ha _).trans ?_
      exact (bind_eq_of_eq_ok hx _).trans (congrArg f₁.put hput)
  | store8 ha hx =>
      refine (bind_eq_of_eq_ok ha _).trans ?_
      exact (bind_eq_of_eq_ok hx _).trans (congrArg f₁.put hput)
  | storeReal ha hx =>
      refine (bind_eq_of_eq_ok ha _).trans ?_
      exact (bind_eq_of_eq_ok hx _).trans (congrArg f₁.put hput)

end Action.Puts

/-- The blocks that stores write when they are run one after the other. -/
inductive Frame.Writes : Frame → List Action → List Block → Prop
  | nil (f : Frame) : Writes f [] []
  | cons {f f₁ : Frame} {a : Action} {b : Block} {as : List Action} {bs : List Block} :
      a.Puts f b f₁ → (f₁.write b).Writes as bs → Writes f (a :: as) (b :: bs)

theorem exec_act_cons (code : Nat → List Stmt) (fuel depth : Nat) {a : Action}
    {f f' : Frame} (h : a.run f = .ok f') (rest : List Stmt) :
    exec code (fuel + 1) depth (.act a :: rest) f = exec code fuel depth rest f' := by
  simp only [exec, h]

namespace Frame.Writes

variable {f : Frame} {as : List Action} {bs : List Block}

theorem bytes_ne_nil (h : f.Writes as bs) : ∀ b ∈ bs, b.bytes ≠ [] := by
  induction h with
  | nil f => simp
  | cons hput _ ih => exact List.forall_mem_cons.2 ⟨hput.bytes_ne_nil, ih⟩

/-- Stores whose blocks lie inside fall through, and what they write is read. -/
theorem exists_exec (h : f.Writes as bs) (hf : f.memory.Fits)
    (hbs : ∀ b ∈ bs, b.stop ≤ f.memory.size) (code : Nat → List Stmt) (depth : Nat) :
    ∃ f', exec code (as.length + 1) depth (as.map .act) f = .next f' ∧
      f.memory.Grows f'.memory ∧
      ∀ i < f.memory.size,
        f'.memory.image.get? i = (Block.written bs i).or (f.memory.image.get? i) := by
  -- The blocks lie inside the first memory. Every later one is at least as large, so each
  -- store finds its block inside the memory that its operands leave.
  induction h with
  | nil f => exact ⟨f, rfl, .refl _, fun i _ => by rw [Block.written_nil, Option.none_or]⟩
  | @cons f f₁ a b as bs hput _ ih =>
      have hext := hput.memory_extends
      have hf₁ : f₁.memory.Fits := hext.toGrows.fits hf
      have hgrows : f.memory.Grows (f₁.write b).memory :=
        hext.toGrows.trans (Memory.grows_put f₁.memory b)
      obtain ⟨hb, hbs⟩ := List.forall_mem_cons.1 hbs
      have hb₁ : b.stop ≤ f₁.memory.size := Nat.le_trans hb hext.size_le
      obtain ⟨f', hexec, hgrows', hget⟩ :=
        ih (hgrows.fits hf) fun c hc => Nat.le_trans (hbs c hc) hgrows.size_le
      refine ⟨f', ?_, hgrows.trans hgrows', fun i hi => ?_⟩
      · exact (exec_act_cons code _ depth (hput.run_eq hb₁) _).trans hexec
      · have hi₁ : i < f₁.memory.image.size := Nat.lt_of_lt_of_le hi hext.size_le
        rw [hget i (Nat.lt_of_lt_of_le hi hgrows.size_le), Frame.memory_write,
          Memory.image_put hf₁ hb₁, Image.get?_put f₁.memory.image b hi₁, hext.get?_eq hi,
          Block.written_cons, Option.or_assoc]

end Frame.Writes

/-- The stores write what an encoding of the value leaves behind, and nothing else. -/
def Frame.Stores (f : Frame) (as : List Action) (v : Value) : Prop :=
  ∃ bs cs, f.Writes as bs ∧ Value.Encoded f.memory.size v cs ∧
    ∀ i, Block.written bs i = Block.written cs i

/-- Stores that write a value fall through, and the memory stands for the value. -/
theorem Frame.Stores.exists_exec {f : Frame} {as : List Action} {v : Value}
    (h : f.Stores as v) (hf : f.memory.Fits) (hpages : 16 ≤ f.memory.pages)
    (code : Nat → List Stmt) (depth : Nat) :
    ∃ f', exec code (as.length + 1) depth (as.map .act) f = .next f' ∧
      Value.decode f'.memory.image = v := by
  obtain ⟨bs, cs, hwrites, hencoded, hsame⟩ := h
  have hsize : 1048576 ≤ f.memory.size := Nat.mul_le_mul_right Memory.pageSize hpages
  have hcs := hencoded.stop_le hsize
  have hbs : ∀ b ∈ bs, b.stop ≤ f.memory.size := fun b hb =>
    Block.stop_le_of_written_eq hsame hcs hb (hwrites.bytes_ne_nil b hb)
  obtain ⟨f', hexec, hgrows, hget⟩ := hwrites.exists_exec hf hbs code depth
  refine ⟨f', hexec, ?_⟩
  have hread : ∀ i w, Block.written cs i = some w → f'.memory.image.get? i = some w := by
    intro i w hw
    obtain ⟨c, hc, -, hlt⟩ := (Block.isSome_written_iff cs i).1 (by rw [hw]; rfl)
    rw [hget i (Nat.lt_of_lt_of_le hlt (hcs c hc)), hsame, hw, Option.some_or]
  have hholds : ∀ c ∈ cs, f'.memory.image.Holds c.address c.bytes := fun c hc =>
    Image.holds_of_written hencoded.pairwise_apart hc
      (Nat.le_trans (hcs c hc) hgrows.size_le) hread
  exact (hencoded.decodes hholds).decode_eq

namespace Executable

variable {x : Executable} {s : Settings} {fuel fuel' : Nat} {m : Memory} {f : Frame}

/-- The memory of every frame that the entry point comes to fits. -/
theorem fits_of_exec (hinstance : x.instantiate s fuel = some (.ok m)) {slots : Slots}
    {depth : Nat} {ss : List Stmt}
    (hexec : exec x.definition.body fuel' depth ss ⟨slots, m⟩ = .next f) : f.memory.Fits := by
  have hgrows := exec_growsFrom x.definition.body fuel' depth ss ⟨slots, m⟩
  rw [hexec] at hgrows
  exact ((instantiate_grows hinstance).trans hgrows).fits x.initialMemory_fits

theorem invoke_eq_of_next {i : Nat}
    (h : exec x.definition.body fuel stackDepth (x.definition.body i) ⟨.zero, m⟩ = .next f) :
    x.invoke fuel i m = some (.ok f.memory) := by
  rw [invoke, h]

end Executable

end ProgramHost.Program

namespace ProgramHost

open Program

/-- If the entry point of an instance falls through its statements with 16 pages or more
and comes to stores that write a value, then the run returns the value and reports
nothing. -/
theorem Host.run_returns_stored_value {x : Executable} {s : Settings} {fuel fuel' i : Nat}
    {m : Memory} {f : Frame} {body : List Stmt} {stores : List Action} {v : Value}
    (hinstance : x.instantiate s fuel = some (.ok m))
    (hentry : x.entry s.entryPoint = .ok i)
    (hmemory : x.definition.lookup? s.memoryExport = some .memory)
    (hbody : x.definition.body i = body ++ stores.map .act)
    (hfalls : exec x.definition.body fuel' stackDepth body ⟨.zero, m⟩ = .next f)
    (hpages : 16 ≤ f.memory.pages) (hstores : f.Stores stores v) :
    ∃ least, ∀ fuel, least ≤ fuel → ∀ sink,
      Host.run? fuel s sink x = some ([.note (.decoded v)], .ok v) ∧
        ∀ k name, Journal.sink (k ++ [.note (.decoded v)]) name = Journal.sink k name := by
  have hfits := Executable.fits_of_exec hinstance hfalls
  obtain ⟨f', hexec, hdecode⟩ := hstores.exists_exec hfits hpages x.definition.body stackDepth
  have hwhole := exec_append hfalls (by rw [hexec]; simp)
  rw [← hbody, hexec] at hwhole
  have hcall := Executable.invoke_eq_of_next hwhole
  refine ⟨max fuel (fuel' + (stores.length + 1)), fun more hmore sink => ⟨?_, fun k name => ?_⟩⟩
  · have hends := Executable.Ends.returned
      (Executable.instantiate_mono (Nat.le_trans (Nat.le_max_left _ _) hmore) hinstance) hentry
      (Executable.invoke_mono (Nat.le_trans (Nat.le_max_right _ _) hmore) hcall)
    have hoffers : x.offersMemory s.memoryExport = true := decide_eq_true hmemory
    rw [Executable.finish, if_pos hoffers, hdecode, ← Executable.run?_eq_some_iff] at hends
    rw [Host.run?, hends]
    rfl
  · rw [Journal.sink_append]
    exact List.append_nil _

def growAndSpoil : List Stmt :=
  [.act (.drop (.grow (.const 2))), .act (.set (Fin.last 3) (.const 1048572)),
    .act (.fill (.const 1048560) (.const 0xFF) (.const 40))]

def textStores : List Action :=
  [.store (.const 1048564) (.const 4), .store (.const 1048568) (.slot (Fin.last 3)),
    .store (.slot (Fin.last 3)) (.const 4),
    .store (.binary .add (.slot (Fin.last 3)) (.const 4)) (.const 0x21A9C36E)]

/-- A module whose memory is too small for a value at first, and is filled by its start
function. -/
def growing : Definition where
  imports := [⟨"env", "fault", .function faultSignature⟩]
  memory := some ⟨15, some 17⟩
  hasGlobal := false
  segments := [⟨64, [1, 2, 3]⟩]
  functions := [⟨plainSignature, growAndSpoil ++ textStores.map .act⟩,
    ⟨plainSignature, [.act (.fill (.const 0) (.const 0xAA) (.const 983040))]⟩]
  exports := [⟨"memory", .memory⟩, ⟨"main", .function 0⟩]
  start := some 1

theorem growing_valid : growing.Valid := by decide

theorem textStores_written (i : Nat) :
    Block.written
        [.word 1048564 4, .word 1048568 1048572, .word 1048572 4, .word 1048576 0x21A9C36E] i =
      Block.written
        [.word 1048564 4, .word 1048568 1048572,
          ⟨1048572, LittleEndian.bytes 4 4 ++ Text.Utf8.encode "né!".toList⟩] i := by
  have hsplit : Block.written [.word 1048572 4, .word 1048576 0x21A9C36E] i =
      Block.written [⟨1048572, LittleEndian.bytes 4 4 ++ Text.Utf8.encode "né!".toList⟩] i :=
    Block.written_split 1048572 (LittleEndian.bytes 4 4) (LittleEndian.bytes 4 0x21A9C36E) [] i
  exact congrArg (fun w => (w.or ((Block.word 1048568 1048572).get? i)).or
    ((Block.word 1048564 4).get? i)) hsplit

theorem growing_returns_text :
    ∃ least, ∀ fuel, least ≤ fuel → ∀ sink,
      Host.run? fuel {} sink ⟨growing, growing_valid⟩ =
        some ([.note (.decoded (.text "né!"))], .ok (.text "né!")) := by
  have htext := @Value.Encoded.text 1114112 "né!" 1048572 4 rfl (by decide) (by decide)
  obtain ⟨least, h⟩ := @Host.run_returns_stored_value ⟨growing, growing_valid⟩ {} 10 10 0 _ _
    growAndSpoil textStores (.text "né!") rfl rfl rfl rfl rfl (by decide)
    ⟨_, _, .cons (.store rfl rfl) (.cons (.store rfl rfl) (.cons (.store rfl rfl)
      (.cons (.store rfl rfl) (.nil _)))), htext, textStores_written⟩
  exact ⟨least, fun fuel hfuel sink => (h fuel hfuel sink).1⟩

end ProgramHost
