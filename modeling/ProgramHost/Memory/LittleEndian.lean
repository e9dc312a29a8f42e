/-!
# Numbers in memory

A number is stored with its least significant byte first.
-/

namespace ProgramHost.LittleEndian

def value : List UInt8 → Nat
  | [] => 0
  | b :: bs => b.toNat + 256 * value bs

def span : Nat → Nat
  | 0 => 1
  | width + 1 => 256 * span width

def bytes : Nat → Nat → List UInt8
  | 0, _ => []
  | width + 1, n => UInt8.ofNat n :: bytes width (n / 256)

@[simp] theorem value_nil : value [] = 0 := rfl

theorem value_cons (b : UInt8) (bs : List UInt8) :
    value (b :: bs) = b.toNat + 256 * value bs := rfl

theorem span_succ (width : Nat) : span (width + 1) = 256 * span width := rfl

@[simp] theorem length_bytes (width n : Nat) : (bytes width n).length = width := by
  induction width generalizing n with
  | zero => rfl
  | succ width ih => simp [bytes, ih]

theorem value_bytes (width n : Nat) : value (bytes width n) = n % span width := by
  induction width generalizing n with
  | zero => simp [bytes, span, Nat.mod_one]
  | succ width ih => rw [bytes, value_cons, ih, UInt8.toNat_ofNat', span_succ, Nat.mod_mul]

theorem value_lt (bs : List UInt8) : value bs < span bs.length := by
  induction bs with
  | nil => simp [span]
  | cons b bs ih =>
      have hb := b.toNat_lt
      rw [value_cons, List.length_cons, span_succ]
      omega

theorem bytes_value (bs : List UInt8) : bytes bs.length (value bs) = bs := by
  induction bs with
  | nil => rfl
  | cons b bs ih =>
      have hb := b.toNat_lt
      have hlow : UInt8.ofNat (b.toNat + 256 * value bs) = b := by
        rw [← UInt8.toNat_inj, UInt8.toNat_ofNat']
        omega
      have hrest : (b.toNat + 256 * value bs) / 256 = value bs := by omega
      rw [List.length_cons, value_cons, bytes, hlow, hrest, ih]

/-- A number is zero exactly if all its bytes are. -/
theorem value_eq_zero_iff (bs : List UInt8) : value bs = 0 ↔ ∀ b ∈ bs, b = 0 := by
  induction bs with
  | nil => simp
  | cons b bs ih =>
      have hb : b.toNat = 0 ↔ b = 0 := by
        rw [← UInt8.toNat_inj]
        rfl
      rw [value_cons, List.forall_mem_cons, ← ih, ← hb]
      omega

end ProgramHost.LittleEndian
