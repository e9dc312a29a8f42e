import ProgramHost.Proofs.Numeral.Rounding
import ProgramHost.Proofs.Numeral.Ties
import ProgramHost.Proofs.Value.Encode
import ProgramHost.Value.Render
/-!
# The texts of a number

A finite number is written twice: without an exponent on the line for reading, and as a
document has numbers. Each of the two texts denotes a number that rounds to the bits and to
no others, so neither loses any of them. But the two need not denote the same number: where
two shortest decimals are equally near, the line has the upper one and the document the even
one.
-/

namespace ProgramHost

namespace Numeral

theorem proper_ofDyadic (l : Layout) (negative : Bool) (x : Dyadic) :
    (ofDyadic l negative x).Proper :=
  Scientific.proper_numeral (x.proper_shortest l.tie) l negative

theorem negative_ofDyadic (l : Layout) (negative : Bool) (x : Dyadic) :
    (ofDyadic l negative x).negative = negative :=
  Scientific.negative_numeral _ l negative

theorem magnitude_ofDyadic (l : Layout) (negative : Bool) (x : Dyadic) :
    (ofDyadic l negative x).magnitude = (x.shortest l.tie).magnitude :=
  Scientific.magnitude_numeral (x.proper_shortest l.tie) l negative

theorem exponent_plain (negative : Bool) (x : Dyadic) :
    (ofDyadic .plain negative x).exponent = none :=
  (Scientific.exponent_numeral_eq_none_iff _ .plain negative).2 rfl

theorem Scientific.isPositional_document64_iff {s : Scientific} (h : s.Proper) :
    Layout.document64.isPositional s.exponent = true ↔
      s.magnitude = 0 ∨ 10 ^ (-5 : Int) ≤ s.magnitude ∧ s.magnitude < 10 ^ (16 : Int) := by
  have hten : (1 : ℚ) < 10 := by norm_num
  have hpositional : ∀ e, Layout.document64.isPositional e = true ↔ -5 ≤ e ∧ e < 16 := by
    simp [Layout.isPositional, Layout.document64]
  rw [hpositional]
  cases h with
  | zero =>
      refine iff_of_true ⟨by decide, by decide⟩ (.inl ?_)
      simp [magnitude, Radix.ofDigits, Digit.zero]
  | @nonzero d ds e hd =>
      obtain ⟨hlow, hhigh⟩ := @zpow_exponent_le d ds e hd
      have hpos : (0 : ℚ) < 10 ^ e := by positivity
      constructor
      · rintro ⟨hfrom, hto⟩
        exact .inr ⟨(zpow_le_zpow_right₀ hten.le hfrom).trans hlow,
          hhigh.trans_le (zpow_le_zpow_right₀ hten.le hto)⟩
      · rintro (hzero | ⟨hfrom, hto⟩)
        · exact absurd hzero (hpos.trans_le hlow).ne'
        · have hfrom' := (zpow_lt_zpow_iff_right₀ hten).1 (hfrom.trans_lt hhigh)
          have hto' := (zpow_lt_zpow_iff_right₀ hten).1 (hlow.trans_lt hto)
          exact ⟨Int.lt_add_one_iff.1 hfrom', hto'⟩

theorem exponent_document64 (negative : Bool) (x : Dyadic) :
    (ofDyadic .document64 negative x).exponent = none ↔
      (ofDyadic .document64 negative x).magnitude = 0 ∨
        10 ^ (-5 : Int) ≤ (ofDyadic .document64 negative x).magnitude ∧
          (ofDyadic .document64 negative x).magnitude < 10 ^ (16 : Int) := by
  rw [magnitude_ofDyadic, ofDyadic, Scientific.exponent_numeral_eq_none_iff]
  exact Scientific.isPositional_document64_iff (x.proper_shortest _)

/-- Whatever the layout, the literal of a finite datum rounds to its bits and to no others. -/
theorem rounds_ofDyadic_iff {f : Format} (hf : f.Regular) (l : Layout) {bits bits' : Nat}
    {negative : Bool} {x : Dyadic} (hbits : bits < 2 * (f.fractions * f.exponents))
    (hbits' : bits' < 2 * (f.fractions * f.exponents))
    (hdatum : f.datum bits = .finite negative x) :
    f.Rounds (ofDyadic l negative x).negative (ofDyadic l negative x).magnitude bits' ↔
      bits' = bits := by
  rw [negative_ofDyadic, magnitude_ofDyadic]
  exact Format.rounds_iff hf hbits hbits' hdatum (x.admits_shortest l.tie)

theorem toNat_lt_binary64 (bits : UInt64) :
    bits.toNat < 2 * (Format.binary64.fractions * Format.binary64.exponents) := by
  have hspan : 2 * (Format.binary64.fractions * Format.binary64.exponents) = 2 ^ 64 := by
    simp [Format.fractions, Format.exponents, Format.binary64]
  rw [hspan]
  exact bits.toNat_lt

theorem eq_of_ofDyadic_eq (l : Layout) {a b : UInt64} {s t : Bool} {x y : Dyadic}
    (ha : Format.binary64.datum a.toNat = .finite s x)
    (hb : Format.binary64.datum b.toNat = .finite t y)
    (h : ofDyadic l s x = ofDyadic l t y) : a = b := by
  have hrounds := (rounds_ofDyadic_iff Format.regular_binary64 l (toNat_lt_binary64 a)
    (toNat_lt_binary64 a) ha).2 rfl
  rw [h] at hrounds
  exact UInt64.toNat_inj.1 ((rounds_ofDyadic_iff Format.regular_binary64 l
    (toNat_lt_binary64 b) (toNat_lt_binary64 a) hb).1 hrounds)

end Numeral

namespace Value

open Numeral

theorem display_number {bits : UInt64} {negative : Bool} {x : Numeral.Dyadic}
    (h : Format.binary64.datum bits.toNat = .finite negative x) :
    (number bits).display = (ofDyadic .plain negative x).text := by
  unfold display plainText
  simp only [h]

theorem numberJson_eq {bits : UInt64} {negative : Bool} {x : Numeral.Dyadic}
    (h : Format.binary64.datum bits.toNat = .finite negative x) :
    numberJson bits = .number (ofDyadic .document64 negative x) := by
  rw [numberJson, ofBits?, h]

theorem compact_toJson_number {bits : UInt64} {negative : Bool} {x : Numeral.Dyadic}
    (h : Format.binary64.datum bits.toNat = .finite negative x) :
    (number bits).toJson.compact = "\x7b\"type\":\"number\",\"value\":" ++
      String.ofList (ofDyadic .document64 negative x).text ++ "\x7d" := by
  rw [toJson, numberJson_eq h, ← String.toList_inj]
  simp [taggedWith, Json.compact, Json.text, Json.moreFields, Json.quoted, Json.escape]

/-- The two texts denote the same number, but not at a tie of the search for the fewest
digits. -/
theorem magnitude_plain_eq_iff (negative : Bool) (x : Numeral.Dyadic) :
    (ofDyadic .plain negative x).magnitude = (ofDyadic .document64 negative x).magnitude ↔
      ¬ ∃ k e, x.TiesAt k e := by
  rw [magnitude_ofDyadic, magnitude_ofDyadic]
  exact x.shortest_eq_iff

theorem magnitudes_of_tiesAt (negative : Bool) {x : Numeral.Dyadic} {k : Nat} {e : Int}
    (h : x.TiesAt k e) :
    (ofDyadic .document64 negative x).magnitude = k * 10 ^ e ∧
      (ofDyadic .plain negative x).magnitude = (k + 1) * 10 ^ e := by
  rw [magnitude_ofDyadic, magnitude_ofDyadic]
  exact ⟨h.magnitude_shortest_even, h.magnitude_shortest_up⟩

/-- A finite number that a memory holds is given out twice. The line never has an exponent,
and the document has one exactly for what is too small or too great for it. Both texts are
numbers as documents have them, with the sign of the number, and each rounds to its bits and
to no others. They denote the same number, unless the number lies in the middle of two
neighbouring decimals that could both be shown: there the line has the upper one and the
document the even one. -/
theorem number_reads_back_from_both_texts {m : Image} {bits : UInt64} {negative : Bool}
    {x : Numeral.Dyadic} (htag : m.HoldsWord 1048564 2)
    (hdata : m.Holds 1048568 (LittleEndian.bytes 8 bits.toNat))
    (hfinite : Format.binary64.datum bits.toNat = .finite negative x) :
    ∃ line document : Numeral,
      (decode m).display = line.text ∧
      (decode m).toJson.compact =
        "\x7b\"type\":\"number\",\"value\":" ++ String.ofList document.text ++ "\x7d" ∧
      Written line.text line ∧ Written document.text document ∧
      line.exponent = none ∧
      (document.exponent = none ↔ document.magnitude = 0 ∨
        10 ^ (-5 : Int) ≤ document.magnitude ∧ document.magnitude < 10 ^ (16 : Int)) ∧
      line.negative = negative ∧ document.negative = negative ∧
      (∀ bits' : UInt64,
        Format.binary64.Rounds line.negative line.magnitude bits'.toNat ↔ bits' = bits) ∧
      (∀ bits' : UInt64,
        Format.binary64.Rounds document.negative document.magnitude bits'.toNat ↔
          bits' = bits) ∧
      (line.magnitude = document.magnitude ↔ ¬ ∃ k e, x.TiesAt k e) ∧
      ∀ (k : Nat) (e : Int), x.TiesAt k e →
        k % 2 = 0 ∧ x.toRat = (k + 1 / 2) * 10 ^ e ∧
          document.magnitude = k * 10 ^ e ∧ line.magnitude = (k + 1) * 10 ^ e := by
  have hrounds : ∀ (l : Layout) (bits' : UInt64),
      Format.binary64.Rounds (ofDyadic l negative x).negative (ofDyadic l negative x).magnitude
        bits'.toNat ↔ bits' = bits := fun l bits' =>
    (rounds_ofDyadic_iff Format.regular_binary64 l (toNat_lt_binary64 bits)
      (toNat_lt_binary64 bits') hfinite).trans UInt64.toNat_inj
  rw [(Decodes.number htag hdata).decode_eq]
  exact ⟨ofDyadic .plain negative x, ofDyadic .document64 negative x,
    display_number hfinite, compact_toJson_number hfinite,
    (proper_ofDyadic .plain negative x).written_text,
    (proper_ofDyadic .document64 negative x).written_text,
    exponent_plain negative x, exponent_document64 negative x,
    negative_ofDyadic .plain negative x, negative_ofDyadic .document64 negative x,
    hrounds .plain, hrounds .document64, magnitude_plain_eq_iff negative x,
    fun k e h => ⟨h.even, h.middle, magnitudes_of_tiesAt negative h⟩⟩

def numberMemory (bits : UInt64) : Image :=
  (Image.zeros 1048576).putAll
    [.word 1048564 2, ⟨1048568, LittleEndian.bytes 8 bits.toNat⟩]

theorem numberMemory_holds (bits : UInt64) :
    (numberMemory bits).HoldsWord 1048564 2 ∧
      (numberMemory bits).Holds 1048568 (LittleEndian.bytes 8 bits.toNat) := by
  have hencoded := @Encoded.number 1048576 bits
  have hholds : ∀ b ∈ [Block.word 1048564 2, ⟨1048568, LittleEndian.bytes 8 bits.toNat⟩],
      (numberMemory bits).Holds b.address b.bytes := fun _ =>
    Image.holds_putAll hencoded.pairwise_apart (hencoded.stop_le le_rfl)
  simp only [List.forall_mem_cons] at hholds
  exact ⟨hholds.1, hholds.2.1⟩

/-- The least number below zero: one digit, at the three hundred and twenty-fourth place. -/
theorem least_number_reads_back :
    Format.binary64.datum 0x8000000000000001 = .finite true ⟨1, -1074, false⟩ ∧
      ∃ line document : Numeral,
        (decode (numberMemory 0x8000000000000001)).display = line.text ∧
        (decode (numberMemory 0x8000000000000001)).toJson.compact =
          "\x7b\"type\":\"number\",\"value\":" ++ String.ofList document.text ++ "\x7d" ∧
        line.exponent = none ∧ line.negative = true ∧ document.negative = true ∧
        Format.binary64.Rounds line.negative line.magnitude 0x8000000000000001 ∧
        ¬ Format.binary64.Rounds document.negative document.magnitude 0x0000000000000001 := by
  have hdatum : Format.binary64.datum 0x8000000000000001 = .finite true ⟨1, -1074, false⟩ := by
    decide
  obtain ⟨htag, hdata⟩ := numberMemory_holds 0x8000000000000001
  obtain ⟨line, document, hline, hdocument, -, -, hexponent, -, hneg, hneg', hback, hback', -⟩ :=
    number_reads_back_from_both_texts htag hdata hdatum
  exact ⟨hdatum, line, document, hline, hdocument, hexponent, hneg, hneg',
    (hback 0x8000000000000001).2 rfl, fun h => absurd ((hback' 1).1 h) (by decide)⟩

/-- The number `2^-25` has eighteen digits and lies in the middle of two decimals with
seventeen. The line shows the upper one and the document the lower one. -/
theorem texts_of_middle_number_differ :
    (decode (numberMemory 0x3E60000000000000)).display = "0.000000029802322387695313".toList ∧
      (decode (numberMemory 0x3E60000000000000)).toJson.compact =
        "\x7b\"type\":\"number\",\"value\":2.9802322387695312e-8\x7d" ∧
      ∃ line document : Numeral,
        Written "0.000000029802322387695313".toList line ∧
        Written "2.9802322387695312e-8".toList document ∧
        line.magnitude ≠ document.magnitude := by
  have hdatum : Format.binary64.datum (0x3E60000000000000 : UInt64).toNat =
      .finite false ⟨0x10000000000000, -77, true⟩ := by decide
  have hup : Dyadic.shortest .up ⟨0x10000000000000, -77, true⟩ =
      ⟨[2, 9, 8, 0, 2, 3, 2, 2, 3, 8, 7, 6, 9, 5, 3, 1, 3], -8⟩ := by decide +kernel
  have heven : Dyadic.shortest .even ⟨0x10000000000000, -77, true⟩ =
      ⟨[2, 9, 8, 0, 2, 3, 2, 2, 3, 8, 7, 6, 9, 5, 3, 1, 2], -8⟩ := by decide +kernel
  have hline : ofDyadic .plain false ⟨0x10000000000000, -77, true⟩ =
      ⟨false, [0], [0, 0, 0, 0, 0, 0, 0, 2, 9, 8, 0, 2, 3, 2, 2, 3, 8, 7, 6, 9, 5, 3, 1, 3],
        none⟩ := by
    change Scientific.numeral (Dyadic.shortest .up _) _ _ = _
    rw [hup]
    rfl
  have hdocument : ofDyadic .document64 false ⟨0x10000000000000, -77, true⟩ =
      ⟨false, [2], [9, 8, 0, 2, 3, 2, 2, 3, 8, 7, 6, 9, 5, 3, 1, 2], some (-8)⟩ := by
    change Scientific.numeral (Dyadic.shortest .even _) _ _ = _
    rw [heven]
    rfl
  have hproper := proper_ofDyadic .plain false ⟨0x10000000000000, -77, true⟩
  have hproper' := proper_ofDyadic .document64 false ⟨0x10000000000000, -77, true⟩
  obtain ⟨htag, hdata⟩ := numberMemory_holds 0x3E60000000000000
  have hdecode : decode (numberMemory 0x3E60000000000000) = .number 0x3E60000000000000 :=
    (Decodes.number htag hdata).decode_eq
  rw [hdecode, display_number hdatum, compact_toJson_number hdatum]
  rw [hline] at hproper ⊢
  rw [hdocument] at hproper' ⊢
  refine ⟨rfl, rfl, _, _, hproper.written_text, hproper'.written_text, fun heq => ?_⟩
  have hdigits : (29802322387695313 : ℚ) * 10 ^ (-24 : Int) =
      29802322387695312 * 10 ^ (-24 : Int) := heq
  norm_num at hdigits

end Value

end ProgramHost
