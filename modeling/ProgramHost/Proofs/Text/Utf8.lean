import ProgramHost.Text.Utf8
/-!
# Reading what was written in UTF-8

A character is written with one to four bytes. The first of them opens a position of
the reader whose bounds let in the second one, the others complete the character, and
the reader is between two sequences again. So what is written is read as it was.
-/

namespace ProgramHost.Text.Utf8

theorem step_inside_succ (missing value : Nat) {low high b : Nat} (h : low ≤ b ∧ b ≤ high) :
    step (.inside (missing + 1) low high value) b =
      ([], .inside missing 0x80 0xBF (value * 64 + (b - 0x80))) := by
  rw [step, if_pos h]

theorem step_inside_zero (value : Nat) {low high b : Nat} (h : low ≤ b ∧ b ≤ high) :
    step (.inside 0 low high value) b =
      ([Char.ofNat (value * 64 + (b - 0x80))], .between) := by
  rw [step, if_pos h]

theorem readFrom_inside_succ (missing value : Nat) {low high x : Nat} (hx : x < 64)
    (h : low ≤ x + 128 ∧ x + 128 ≤ high) (bs : List UInt8) :
    readFrom (.inside (missing + 1) low high value) (UInt8.ofNat (x + 128) :: bs) =
      readFrom (.inside missing 0x80 0xBF (value * 64 + x)) bs := by
  have hb : (UInt8.ofNat (x + 128)).toNat = x + 128 :=
    UInt8.toNat_ofNat_of_lt' (show _ < 256 by omega)
  rw [readFrom_cons, hb, step_inside_succ missing value h, Nat.add_sub_cancel]
  rfl

theorem readFrom_inside_zero (value : Nat) {low high x : Nat} (hx : x < 64)
    (h : low ≤ x + 128 ∧ x + 128 ≤ high) (bs : List UInt8) :
    readFrom (.inside 0 low high value) (UInt8.ofNat (x + 128) :: bs) =
      Char.ofNat (value * 64 + x) :: readFrom .between bs := by
  have hb : (UInt8.ofNat (x + 128)).toNat = x + 128 :=
    UInt8.toNat_ofNat_of_lt' (show _ < 256 by omega)
  rw [readFrom_cons, hb, step_inside_zero value h, Nat.add_sub_cancel]
  rfl

theorem tail_bounds {x : Nat} (hx : x < 64) : 0x80 ≤ x + 128 ∧ x + 128 ≤ 0xBF := by
  omega

theorem readFrom_between_of_first {b : Nat} {s : State} (hb : b < 256) (h : first b = ([], s))
    (bs : List UInt8) :
    readFrom .between (UInt8.ofNat b :: bs) = readFrom s bs := by
  have hbyte : (UInt8.ofNat b).toNat = b := UInt8.toNat_ofNat_of_lt' hb
  rw [readFrom_cons, hbyte, step, h]
  rfl

theorem first_two {n : Nat} (hlow : 2 ≤ n) (hhigh : n < 32) :
    first (n + 192) = ([], .inside 0 0x80 0xBF n) := by
  unfold first
  rw [if_neg (by omega), if_neg (by omega), if_pos (by omega)]
  simp

/-- The first of three bytes bounds the second one, so that neither an over-long form
nor a surrogate goes on. -/
theorem first_three {v : Nat} (hlow : 0x800 ≤ v) (hhigh : v < 0x10000)
    (hvalid : v < 0xD800 ∨ 0xDFFF < v) :
    ∃ low high, first (v / 4096 + 224) = ([], .inside 1 low high (v / 4096)) ∧
      low ≤ v / 64 % 64 + 128 ∧ v / 64 % 64 + 128 ≤ high := by
  unfold first
  rw [if_neg (by omega), if_neg (by omega), if_neg (by omega)]
  by_cases h0 : v / 4096 = 0
  · refine ⟨0xA0, 0xBF, ?_, by omega, by omega⟩
    rw [if_pos (by omega), h0]
  by_cases h13 : v / 4096 = 13
  · refine ⟨0x80, 0x9F, ?_, by omega, by omega⟩
    rw [if_neg (by omega), if_pos (by omega), h13]
  · refine ⟨0x80, 0xBF, ?_, by omega, by omega⟩
    rw [if_neg (by omega), if_neg (by omega), if_pos (by omega)]
    simp

/-- The first of four bytes bounds the second one, so that neither an over-long form
nor a value above the last code point goes on. -/
theorem first_four {v : Nat} (hlow : 0x10000 ≤ v) (hhigh : v < 0x110000) :
    ∃ low high, first (v / 262144 + 240) = ([], .inside 2 low high (v / 262144)) ∧
      low ≤ v / 4096 % 64 + 128 ∧ v / 4096 % 64 + 128 ≤ high := by
  unfold first
  rw [if_neg (by omega), if_neg (by omega), if_neg (by omega), if_neg (by omega),
    if_neg (by omega), if_neg (by omega)]
  by_cases h0 : v / 262144 = 0
  · refine ⟨0x90, 0xBF, ?_, by omega, by omega⟩
    rw [if_pos (by omega), h0]
  by_cases h4 : v / 262144 = 4
  · refine ⟨0x80, 0x8F, ?_, by omega, by omega⟩
    rw [if_neg (by omega), if_neg (by omega), if_pos (by omega), h4]
  · refine ⟨0x80, 0xBF, ?_, by omega, by omega⟩
    rw [if_neg (by omega), if_pos (by omega)]
    simp

section

variable {v : Nat} (bs : List UInt8)

theorem readFrom_one (h : v ≤ 0x7F) :
    readFrom .between (UInt8.ofNat v :: bs) = Char.ofNat v :: readFrom .between bs := by
  have hb : (UInt8.ofNat v).toNat = v := UInt8.toNat_ofNat_of_lt' (show v < 256 by omega)
  have hfirst : first v = ([Char.ofNat v], .between) := by
    rw [first, if_pos (by omega)]
  rw [readFrom_cons, hb, step, hfirst]
  rfl

theorem readFrom_two (hlow : 0x7F < v) (hhigh : v ≤ 0x7FF) :
    readFrom .between (UInt8.ofNat (v / 64 % 32 + 192) :: UInt8.ofNat (v % 64 + 128) :: bs) =
      Char.ofNat v :: readFrom .between bs := by
  have hfirst := first_two (n := v / 64 % 32) (by omega) (by omega)
  have hv : v / 64 % 32 * 64 + v % 64 = v := by omega
  rw [readFrom_between_of_first (by omega) hfirst,
    readFrom_inside_zero _ (by omega) (tail_bounds (by omega)), hv]

theorem readFrom_three (hlow : 0x7FF < v) (hhigh : v ≤ 0xFFFF)
    (hvalid : v < 0xD800 ∨ 0xDFFF < v) :
    readFrom .between (UInt8.ofNat (v / 4096 % 16 + 224) ::
        UInt8.ofNat (v / 64 % 64 + 128) :: UInt8.ofNat (v % 64 + 128) :: bs) =
      Char.ofNat v :: readFrom .between bs := by
  obtain ⟨low, high, hfirst, hbounds⟩ := first_three (v := v) (by omega) (by omega) hvalid
  have hlead : v / 4096 % 16 = v / 4096 := by omega
  have hv : (v / 4096 * 64 + v / 64 % 64) * 64 + v % 64 = v := by omega
  rw [hlead, readFrom_between_of_first (by omega) hfirst,
    readFrom_inside_succ _ _ (by omega) hbounds,
    readFrom_inside_zero _ (by omega) (tail_bounds (by omega)), hv]

theorem readFrom_four (hlow : 0xFFFF < v) (hhigh : v < 0x110000) :
    readFrom .between (UInt8.ofNat (v / 262144 % 8 + 240) ::
        UInt8.ofNat (v / 4096 % 64 + 128) :: UInt8.ofNat (v / 64 % 64 + 128) ::
          UInt8.ofNat (v % 64 + 128) :: bs) =
      Char.ofNat v :: readFrom .between bs := by
  obtain ⟨low, high, hfirst, hbounds⟩ := first_four (v := v) (by omega) hhigh
  have hlead : v / 262144 % 8 = v / 262144 := by omega
  have hv : ((v / 262144 * 64 + v / 4096 % 64) * 64 + v / 64 % 64) * 64 + v % 64 = v := by
    omega
  rw [hlead, readFrom_between_of_first (by omega) hfirst,
    readFrom_inside_succ _ _ (by omega) hbounds,
    readFrom_inside_succ _ _ (by omega) (tail_bounds (by omega)),
    readFrom_inside_zero _ (by omega) (tail_bounds (by omega)), hv]

end

/-- The bytes of a character are read as the character. -/
theorem readFrom_encodeChar (c : Char) (bs : List UInt8) :
    readFrom .between (String.utf8EncodeChar c ++ bs) = c :: readFrom .between bs := by
  have hvalid : c.val.toNat < 0xD800 ∨ 0xDFFF < c.val.toNat ∧ c.val.toNat < 0x110000 := c.valid
  have hc : Char.ofNat c.val.toNat = c := Char.ofNat_toNat c
  unfold String.utf8EncodeChar
  simp only
  generalize c.val.toNat = v at hvalid hc
  obtain rfl := hc
  by_cases hone : v ≤ 0x7F
  · rw [if_pos hone]
    exact readFrom_one bs hone
  by_cases htwo : v ≤ 0x7FF
  · rw [if_neg hone, if_pos htwo]
    exact readFrom_two bs (Nat.lt_of_not_le hone) htwo
  by_cases hthree : v ≤ 0xFFFF
  · rw [if_neg hone, if_neg htwo, if_pos hthree]
    exact readFrom_three bs (Nat.lt_of_not_le htwo) hthree (hvalid.imp_right And.left)
  · rw [if_neg hone, if_neg htwo, if_neg hthree]
    have hhigh : v < 0x110000 := by omega
    exact readFrom_four bs (Nat.lt_of_not_le hthree) hhigh

/-- A text that is written and followed by other bytes is read first. -/
theorem decode_encode_append (cs : List Char) (bs : List UInt8) :
    decode (encode cs ++ bs) = cs ++ decode bs := by
  induction cs with
  | nil => rfl
  | cons c cs ih =>
      rw [encode_cons, List.append_assoc, decode, readFrom_encodeChar, List.cons_append]
      exact congrArg (c :: ·) ih

theorem decode_encode (cs : List Char) : decode (encode cs) = cs := by
  have h := decode_encode_append cs []
  rwa [List.append_nil, decode_nil, List.append_nil] at h

end ProgramHost.Text.Utf8
