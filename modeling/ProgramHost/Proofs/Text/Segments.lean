import ProgramHost.Proofs.Text.Utf8
/-!
# The segments of a byte sequence

A byte sequence that is read as a text falls into segments, from left to right. Where the
bytes begin with the well-formed sequence of a character, this sequence is the segment
and gives the character. Elsewhere the segment is ill formed: it is the longest beginning
of a well-formed sequence that is found there, or a single byte if there is none, and it
gives one replacement character. `Segmented bs ss` says that `ss` are the segments of
`bs`. There is one such list for all bytes, and the reader gives its characters.

The well-formed sequences are those that characters are written with. So there is none
for a surrogate or beyond the last code point, and only the shortest one for a character.
-/

namespace ProgramHost.Text.Utf8

/-- Some of the bytes that are read, and the character that they give: that of a well-formed
sequence, or the replacement. -/
structure Segment where
  bytes : List UInt8
  char : Char

/-- The first bytes of a well-formed sequence, at least one and not all of them. -/
def Beginning (p : List UInt8) : Prop :=
  p ≠ [] ∧ ∃ c, p <+: String.utf8EncodeChar c ∧ p ≠ String.utf8EncodeChar c

inductive Front (bs : List UInt8) : Segment → Prop
  | character {c : Char} : String.utf8EncodeChar c <+: bs →
      Front bs ⟨String.utf8EncodeChar c, c⟩
  | beginning {p : List UInt8} : (∀ c, ¬ String.utf8EncodeChar c <+: bs) →
      Beginning p → p <+: bs → (∀ q, Beginning q → q <+: bs → q.length ≤ p.length) →
        Front bs ⟨p, replacement⟩
  | byte {b : UInt8} : (∀ c, ¬ String.utf8EncodeChar c <+: bs) →
      (∀ q, Beginning q → ¬ q <+: bs) → [b] <+: bs → Front bs ⟨[b], replacement⟩

/-- The segments of the bytes, from the first byte to the last. Each is as long as can be: it is a
well-formed sequence, the longest beginning of one, or a single byte. -/
inductive Segmented : List UInt8 → List Segment → Prop
  | nil : Segmented [] []
  | cons {bs rest : List UInt8} {s : Segment} {ss : List Segment} :
      Front bs s → bs = s.bytes ++ rest → Segmented rest ss → Segmented bs (s :: ss)

/-! ## What the reader leaves -/

variable {bs p q : List UInt8} {c d : Char} {s s' : Segment} {ss ss' : List Segment}

theorem decode_encodeChar (c : Char) : decode (String.utf8EncodeChar c) = [c] := by
  have h := readFrom_encodeChar c []
  rwa [List.append_nil, readFrom_nil] at h

/-- The first byte of a sequence that goes on: how many bytes are missing after the next
one, and the bounds of that one. -/
inductive Opens (b : Nat) : Nat → Nat → Nat → Prop
  | two : 0xC2 ≤ b ∧ b < 0xE0 → Opens b 0 0x80 0xBF
  | three {low high : Nat} : 0xE0 ≤ b ∧ b < 0xF0 → 0x80 ≤ low ∧ low ≤ high ∧ high ≤ 0xBF →
      (b = 0xE0 → 0xA0 ≤ low) → (b = 0xED → high ≤ 0x9F) → Opens b 1 low high
  | four {low high : Nat} : 0xF0 ≤ b ∧ b < 0xF5 → 0x80 ≤ low ∧ low ≤ high ∧ high ≤ 0xBF →
      (b = 0xF0 → 0x90 ≤ low) → (b = 0xF4 → high ≤ 0x8F) → Opens b 2 low high

theorem Opens.bounds {b missing low high : Nat} (h : Opens b missing low high) :
    0x80 ≤ low ∧ low ≤ high ∧ high ≤ 0xBF := by
  cases h with
  | two => decide
  | three _ hbounds => exact hbounds
  | four _ hbounds => exact hbounds

/-- A byte at the start of a sequence is a character, is no such byte, or opens a
sequence. -/
theorem first_cases (b : Nat) :
    (b < 0x80 ∧ first b = ([Char.ofNat b], .between)) ∨
      first b = ([replacement], .between) ∨
        ∃ missing low high value,
          first b = ([], .inside missing low high value) ∧ Opens b missing low high := by
  unfold first
  by_cases hone : b < 0x80
  · exact .inl ⟨hone, if_pos hone⟩
  rw [if_neg hone]
  by_cases hnone : b < 0xC2
  · exact .inr (.inl (if_pos hnone))
  rw [if_neg hnone]
  by_cases htwo : b < 0xE0
  · exact .inr (.inr ⟨_, _, _, _, if_pos htwo, .two (by omega)⟩)
  rw [if_neg htwo]
  by_cases he0 : b = 0xE0
  · exact .inr (.inr ⟨_, _, _, _, if_pos he0, .three (by omega) (by decide) (by omega) (by omega)⟩)
  rw [if_neg he0]
  by_cases hed : b = 0xED
  · exact .inr (.inr ⟨_, _, _, _, if_pos hed, .three (by omega) (by decide) (by omega) (by omega)⟩)
  rw [if_neg hed]
  by_cases hthree : b < 0xF0
  · exact .inr (.inr ⟨_, _, _, _, if_pos hthree,
      .three (by omega) (by decide) (by omega) (by omega)⟩)
  rw [if_neg hthree]
  by_cases hf0 : b = 0xF0
  · exact .inr (.inr ⟨_, _, _, _, if_pos hf0, .four (by omega) (by decide) (by omega) (by omega)⟩)
  rw [if_neg hf0]
  by_cases hfour : b < 0xF4
  · exact .inr (.inr ⟨_, _, _, _, if_pos hfour, .four (by omega) (by decide) (by omega) (by omega)⟩)
  rw [if_neg hfour]
  by_cases hf4 : b = 0xF4
  · exact .inr (.inr ⟨_, _, _, _, if_pos hf4, .four (by omega) (by decide) (by omega) (by omega)⟩)
  · exact .inr (.inl (if_neg hf4))

theorem step_inside_of_not (missing value : Nat) {low high b : Nat}
    (h : ¬ (low ≤ b ∧ b ≤ high)) :
    step (.inside missing low high value) b = (replacement :: (first b).1, (first b).2) := by
  cases missing with
  | zero => rw [step, if_neg h]
  | succ missing => rw [step, if_neg h]

theorem step_ne_between {t : State} {b : Nat} (h : (step t b).1 = []) :
    (step t b).2 ≠ .between := by
  cases t with
  | between =>
      rw [step] at h ⊢
      rcases first_cases b with ⟨-, hb⟩ | hb | ⟨missing, low, high, value, hb, -⟩
      · rw [hb] at h
        cases h
      · rw [hb] at h
        cases h
      · rw [hb]
        exact State.noConfusion
  | inside missing low high value =>
      by_cases hb : low ≤ b ∧ b ≤ high
      · cases missing with
        | zero => simp [step_inside_zero value hb] at h
        | succ missing => simp [step_inside_succ missing value hb]
      · simp [step_inside_of_not missing value hb] at h

theorem readFrom_ne_nil {t : State} (h : t ≠ .between ∨ bs ≠ []) : readFrom t bs ≠ [] := by
  induction bs generalizing t with
  | nil =>
      cases t with
      | between => simp at h
      | inside missing low high value => exact List.cons_ne_nil _ _
  | cons b bs ih =>
      rw [readFrom_cons]
      intro hnil
      obtain ⟨hout, hrest⟩ := List.append_eq_nil_iff.1 hnil
      exact ih (.inl (step_ne_between hout)) hrest

theorem decode_eq_nil_iff : decode bs = [] ↔ bs = [] := by
  constructor
  · intro h
    cases bs with
    | nil => rfl
    | cons b bs => exact absurd h (readFrom_ne_nil (.inr (List.cons_ne_nil b bs)))
  · rintro rfl
    rfl

theorem readFrom_inside_cons_of_not (missing value : Nat) {low high : Nat} {b : UInt8}
    (h : ¬ (low ≤ b.toNat ∧ b.toNat ≤ high)) (bs : List UInt8) :
    readFrom (.inside missing low high value) (b :: bs) = replacement :: decode (b :: bs) := by
  rw [readFrom_cons, step_inside_of_not missing value h]
  rfl

/-! ## There is one segment at the front -/

/-- No well-formed sequence begins another one. -/
theorem eq_of_prefix_encodeChar (h : String.utf8EncodeChar c <+: String.utf8EncodeChar d) :
    c = d := by
  obtain ⟨t, ht⟩ := h
  have hread := congrArg decode ht
  rw [decode_encodeChar, decode, readFrom_encodeChar] at hread
  exact (List.cons.inj hread).1

theorem Beginning.not_prefix_of_encodeChar (h : Beginning p) (c : Char) :
    ¬ String.utf8EncodeChar c <+: p := by
  obtain ⟨-, d, hp, hne⟩ := h
  intro hc
  obtain rfl := eq_of_prefix_encodeChar (hc.trans hp)
  exact hne (hp.eq_of_length_le hc.length_le)

namespace Front

theorem bytes_ne_nil (h : Front bs s) : s.bytes ≠ [] := by
  cases h with
  | @character c hc => exact String.utf8EncodeChar_ne_nil
  | beginning _ hp => exact hp.1
  | byte => exact List.cons_ne_nil _ _

theorem unique (h : Front bs s) (h' : Front bs s') : s = s' := by
  cases h with
  | @character c hc =>
      cases h' with
      | @character d hd =>
          have hcd : c = d := (List.prefix_or_prefix_of_prefix hc hd).elim
            eq_of_prefix_encodeChar fun h => (eq_of_prefix_encodeChar h).symm
          rw [hcd]
      | beginning hnone => exact absurd hc (hnone c)
      | byte hnone => exact absurd hc (hnone c)
  | @beginning p hnone hp hbegins hmost =>
      cases h' with
      | @character d hd => exact absurd hd (hnone d)
      | @beginning q _ hq hbegins' hmost' =>
          have hpq := List.prefix_of_prefix_length_le hbegins hbegins' (hmost' p hp hbegins)
          rw [hpq.eq_of_length_le (hmost q hq hbegins')]
      | byte _ hnone' => exact absurd hbegins (hnone' p hp)
  | @byte b hnone hnone' hb =>
      cases h' with
      | @character d hd => exact absurd hd (hnone d)
      | @beginning q _ hq hbegins' => exact absurd hbegins' (hnone' q hq)
      | @byte b' _ _ hb' =>
          have hbb := List.prefix_of_prefix_length_le hb hb' (Nat.le_refl 1)
          rw [hbb.eq_of_length rfl]

end Front

namespace Segmented

theorem unique (h : Segmented bs ss) (h' : Segmented bs ss') : ss = ss' := by
  induction h generalizing ss' with
  | nil =>
      cases h' with
      | nil => rfl
      | cons hfront hbs => exact absurd (List.append_eq_nil_iff.1 hbs.symm).1 hfront.bytes_ne_nil
  | cons hfront hbs _ ih =>
      cases h' with
      | nil => exact absurd (List.append_eq_nil_iff.1 hbs.symm).1 hfront.bytes_ne_nil
      | cons hfront' hbs' hrest' =>
          obtain rfl := hfront.unique hfront'
          obtain rfl := List.append_cancel_left (hbs.symm.trans hbs')
          rw [ih hrest']

theorem flatMap_bytes (h : Segmented bs ss) : ss.flatMap Segment.bytes = bs := by
  induction h with
  | nil => rfl
  | cons _ hbs _ ih => rw [List.flatMap_cons, ih, hbs]

end Segmented

/-! ## What goes on within the bounds is well formed -/

def Continues (b : UInt8) : Prop := 0x80 ≤ b.toNat ∧ b.toNat ≤ 0xBF

theorem toNat_val_ofNat {v : Nat} (h : v < 0xD800 ∨ 0xDFFF < v ∧ v < 0x110000) :
    (Char.ofNat v).val.toNat = v := by
  rw [Char.ofNat, dif_pos h]
  rfl

theorem exists_encodeChar_two {b y : UInt8} (hb : 0xC2 ≤ b.toNat ∧ b.toNat < 0xE0)
    (hy : Continues y) : ∃ c, [b, y] = String.utf8EncodeChar c := by
  unfold Continues at hy
  obtain ⟨v, hv⟩ : ∃ v, v = (b.toNat - 192) * 64 + (y.toNat - 128) := ⟨_, rfl⟩
  have hlead : v / 64 % 32 + 192 = b.toNat := by omega
  have hlast : v % 64 + 128 = y.toNat := by omega
  refine ⟨Char.ofNat v, ?_⟩
  rw [String.utf8EncodeChar, toNat_val_ofNat (.inl (by omega)), if_neg (by omega),
    if_pos (by omega), hlead, hlast, UInt8.ofNat_toNat, UInt8.ofNat_toNat]

/-- Of three bytes the second one is bounded below after `0xE0`, so that the form is the
shortest one, and above after `0xED`, so that the character is no surrogate. -/
theorem exists_encodeChar_three {b y z : UInt8} (hb : 0xE0 ≤ b.toNat ∧ b.toNat < 0xF0)
    (hy : Continues y) (hz : Continues z) (hlow : b.toNat = 0xE0 → 0xA0 ≤ y.toNat)
    (hhigh : b.toNat = 0xED → y.toNat ≤ 0x9F) : ∃ c, [b, y, z] = String.utf8EncodeChar c := by
  unfold Continues at hy hz
  obtain ⟨v, hv⟩ : ∃ v, v = (b.toNat - 224) * 4096 + (y.toNat - 128) * 64 + (z.toNat - 128) :=
    ⟨_, rfl⟩
  have hlead : v / 4096 % 16 + 224 = b.toNat := by omega
  have hsecond : v / 64 % 64 + 128 = y.toNat := by omega
  have hlast : v % 64 + 128 = z.toNat := by omega
  refine ⟨Char.ofNat v, ?_⟩
  rw [String.utf8EncodeChar, toNat_val_ofNat (by omega), if_neg (by omega), if_neg (by omega),
    if_pos (by omega), hlead, hsecond, hlast, UInt8.ofNat_toNat, UInt8.ofNat_toNat,
    UInt8.ofNat_toNat]

/-- Of four bytes the second one is bounded below after `0xF0`, so that the form is the
shortest one, and above after `0xF4`, where the code points end. -/
theorem exists_encodeChar_four {b y z w : UInt8} (hb : 0xF0 ≤ b.toNat ∧ b.toNat < 0xF5)
    (hy : Continues y) (hz : Continues z) (hw : Continues w)
    (hlow : b.toNat = 0xF0 → 0x90 ≤ y.toNat) (hhigh : b.toNat = 0xF4 → y.toNat ≤ 0x8F) :
    ∃ c, [b, y, z, w] = String.utf8EncodeChar c := by
  unfold Continues at hy hz hw
  obtain ⟨v, hv⟩ : ∃ v, v = (b.toNat - 240) * 262144 + (y.toNat - 128) * 4096 +
      (z.toNat - 128) * 64 + (w.toNat - 128) := ⟨_, rfl⟩
  have hlead : v / 262144 % 8 + 240 = b.toNat := by omega
  have hsecond : v / 4096 % 64 + 128 = y.toNat := by omega
  have hthird : v / 64 % 64 + 128 = z.toNat := by omega
  have hlast : v % 64 + 128 = w.toNat := by omega
  refine ⟨Char.ofNat v, ?_⟩
  rw [String.utf8EncodeChar, toNat_val_ofNat (by omega), if_neg (by omega), if_neg (by omega),
    if_neg (by omega), hlead, hsecond, hthird, hlast, UInt8.ofNat_toNat, UInt8.ofNat_toNat,
    UInt8.ofNat_toNat, UInt8.ofNat_toNat]

/-- Bytes that complete a sequence of which `missing + 1` bytes are to come, the next one
between `low` and `high`. -/
inductive Completes : Nat → Nat → Nat → List UInt8 → Prop
  | last {low high : Nat} {b : UInt8} : low ≤ b.toNat ∧ b.toNat ≤ high →
      Completes 0 low high [b]
  | next {missing low high : Nat} {b : UInt8} {t : List UInt8} :
      low ≤ b.toNat ∧ b.toNat ≤ high → Completes missing 0x80 0xBF t →
        Completes (missing + 1) low high (b :: t)

/-- What lies within the bounds of its positions completes the sequence of a character. -/
theorem Opens.exists_encodeChar {b : UInt8} {missing low high : Nat} {t : List UInt8}
    (h : Opens b.toNat missing low high) (ht : Completes missing low high t) :
    ∃ c, b :: t = String.utf8EncodeChar c := by
  cases h with
  | two hb =>
      cases ht with
      | last hy => exact exists_encodeChar_two hb hy
  | three hb hbounds hleast hmost =>
      cases ht with
      | next hy ht =>
          cases ht with
          | last hz =>
              exact exists_encodeChar_three hb ⟨by omega, by omega⟩ hz (by omega) (by omega)
  | four hb hbounds hleast hmost =>
      cases ht with
      | next hy ht =>
          cases ht with
          | next hz ht =>
              cases ht with
              | last hw =>
                  exact exists_encodeChar_four hb ⟨by omega, by omega⟩ hz hw (by omega) (by omega)

/-! ## What is read is the segment at the front -/

/-- The reader is inside a sequence that begins with the bytes `p`. It has given nothing
for them, and what lies within the bounds completes the sequence of a character. -/
structure Inside (p : List UInt8) (missing low high value : Nat) : Prop where
  ne_nil : p ≠ []
  low_le_high : low ≤ high
  high_le : high ≤ 0xBF
  read : ∀ bs, decode (p ++ bs) = readFrom (.inside missing low high value) bs
  completes : ∀ t, Completes missing low high t → ∃ c, p ++ t = String.utf8EncodeChar c

namespace Inside

variable {missing low high value : Nat} {b : UInt8}

theorem of_first (h : first b.toNat = ([], .inside missing low high value))
    (hopens : Opens b.toNat missing low high) : Inside [b] missing low high value where
  ne_nil := List.cons_ne_nil _ _
  low_le_high := hopens.bounds.2.1
  high_le := hopens.bounds.2.2
  read bs := by
    rw [List.singleton_append, decode, readFrom_cons, step, h]
    rfl
  completes _ ht := hopens.exists_encodeChar ht

theorem next (h : Inside p (missing + 1) low high value)
    (hb : low ≤ b.toNat ∧ b.toNat ≤ high) :
    Inside (p ++ [b]) missing 0x80 0xBF (value * 64 + (b.toNat - 0x80)) where
  ne_nil := List.append_ne_nil_of_right_ne_nil p (List.cons_ne_nil _ _)
  low_le_high := by decide
  high_le := Nat.le_refl _
  read bs := by
    rw [List.append_assoc, List.singleton_append, h.read, readFrom_cons,
      step_inside_succ missing value hb]
    rfl
  completes t ht := by
    rw [List.append_assoc]
    exact h.completes _ (.next hb ht)

theorem exists_completes (missing : Nat) (hle : low ≤ high) (hhigh : high ≤ 0xBF) :
    ∃ t, t ≠ [] ∧ Completes missing low high t := by
  have within {low high : Nat} (hle : low ≤ high) (hhigh : high ≤ 0xBF) :
      low ≤ (UInt8.ofNat low).toNat ∧ (UInt8.ofNat low).toNat ≤ high := by
    rw [UInt8.toNat_ofNat_of_lt' (show low < 256 by omega)]
    exact ⟨Nat.le_refl low, hle⟩
  induction missing generalizing low high with
  | zero => exact ⟨[.ofNat low], List.cons_ne_nil _ _, .last (within hle hhigh)⟩
  | succ missing ih =>
      obtain ⟨t, -, ht⟩ := @ih 0x80 0xBF (by decide) (by decide)
      exact ⟨.ofNat low :: t, List.cons_ne_nil _ _, .next (within hle hhigh) ht⟩

theorem beginning (h : Inside p missing low high value) : Beginning p := by
  obtain ⟨t, hne, ht⟩ := exists_completes missing h.low_le_high h.high_le
  obtain ⟨c, hc⟩ := h.completes t ht
  refine ⟨h.ne_nil, c, ⟨t, hc⟩, fun hp => hne ?_⟩
  exact List.append_cancel_left (hc.trans (hp.symm.trans (List.append_nil p).symm))

theorem prefix_of_not_within (h : Inside p missing low high value)
    (hb : ¬ (low ≤ b.toNat ∧ b.toNat ≤ high)) (hq : q <+: p ++ b :: bs)
    (hc : q <+: String.utf8EncodeChar c) : q <+: p := by
  have hpb : p ++ [b] <+: p ++ b :: bs := ⟨bs, by simp⟩
  have hnot : ¬ p ++ [b] <+: String.utf8EncodeChar c := by
    rintro ⟨t, ht⟩
    -- The reader gives one character for the whole sequence, but two at least if it has to
    -- close what was begun before the byte.
    have hread := congrArg decode ht
    rw [List.append_assoc, List.singleton_append, h.read, decode_encodeChar,
      readFrom_inside_cons_of_not missing value hb] at hread
    exact List.cons_ne_nil b t (decode_eq_nil_iff.1 (List.cons.inj hread).2)
  rcases List.prefix_or_prefix_of_prefix hq hpb with h | h
  · rcases List.prefix_concat_iff.1 h with rfl | h
    · exact absurd hc hnot
    · exact h
  · exact absurd (h.trans hc) hnot

/-- What was begun is the segment if the bytes end or if the next one is outside of the
bounds. -/
theorem front_of_not (h : Inside p missing low high value)
    (hbs : ∀ b ∈ bs.head?, ¬ (low ≤ b.toNat ∧ b.toNat ≤ high)) :
    Front (p ++ bs) ⟨p, replacement⟩ ∧ decode (p ++ bs) = replacement :: decode bs := by
  have hlongest : ∀ q c, q <+: p ++ bs → q <+: String.utf8EncodeChar c → q <+: p := by
    intro q c hq hc
    cases bs with
    | nil => rwa [List.append_nil] at hq
    | cons b bs => exact h.prefix_of_not_within (hbs b rfl) hq hc
  refine ⟨.beginning ?none h.beginning (List.prefix_append p bs) ?longest, ?decoded⟩
  case none =>
    intro c hc
    exact h.beginning.not_prefix_of_encodeChar c (hlongest _ c hc List.prefix_rfl)
  case longest =>
    rintro q ⟨-, c, hc, -⟩ hq
    exact (hlongest q c hq hc).length_le
  case decoded =>
    rw [h.read]
    cases bs with
    | nil => rfl
    | cons b bs => exact readFrom_inside_cons_of_not missing value (hbs b rfl) bs

end Inside

/-- The bytes begin with a segment, whose character is read first. -/
def ReadsFront (bs : List UInt8) : Prop :=
  ∃ s rest, Front bs s ∧ bs = s.bytes ++ rest ∧ decode bs = s.char :: decode rest

theorem Inside.readsFront_of_not {missing low high value : Nat}
    (h : Inside p missing low high value)
    (hbs : ∀ b ∈ bs.head?, ¬ (low ≤ b.toNat ∧ b.toNat ≤ high)) : ReadsFront (p ++ bs) :=
  ⟨⟨p, replacement⟩, bs, (h.front_of_not hbs).1, rfl, (h.front_of_not hbs).2⟩

theorem head_within_or (low high : Nat) (bs : List UInt8) :
    (∃ b rest, bs = b :: rest ∧ low ≤ b.toNat ∧ b.toNat ≤ high) ∨
      ∀ b ∈ bs.head?, ¬ (low ≤ b.toNat ∧ b.toNat ≤ high) := by
  cases bs with
  | nil => exact .inr fun b hb => nomatch hb
  | cons b rest =>
      by_cases hb : low ≤ b.toNat ∧ b.toNat ≤ high
      · exact .inl ⟨b, rest, rfl, hb⟩
      · exact .inr fun b' hb' => by obtain rfl := Option.some.inj hb'; exact hb

theorem readsFront_of_encodeChar (c : Char) (bs : List UInt8) :
    ReadsFront (String.utf8EncodeChar c ++ bs) :=
  ⟨⟨_, c⟩, bs, .character (List.prefix_append _ bs), rfl, readFrom_encodeChar c bs⟩

theorem Inside.readsFront {missing low high value : Nat}
    (h : Inside p missing low high value) (bs : List UInt8) : ReadsFront (p ++ bs) := by
  -- Byte by byte, until the sequence is complete or a byte is outside of the bounds.
  induction missing generalizing p low high value bs with
  | zero =>
      rcases head_within_or low high bs with ⟨b, rest, rfl, hb⟩ | hbs
      · obtain ⟨c, hc⟩ := h.completes [b] (.last hb)
        rw [List.append_cons, hc]
        exact readsFront_of_encodeChar c rest
      · exact h.readsFront_of_not hbs
  | succ missing ih =>
      rcases head_within_or low high bs with ⟨b, rest, rfl, hb⟩ | hbs
      · rw [List.append_cons]
        exact ih (h.next hb) rest
      · exact h.readsFront_of_not hbs

theorem readsFront_of_first {b : UInt8} (h : first b.toNat = ([replacement], .between))
    (bs : List UInt8) : ReadsFront (b :: bs) := by
  have hread (bs : List UInt8) : decode (b :: bs) = replacement :: decode bs := by
    rw [decode, readFrom_cons, step, h]
    rfl
  have hnone (c : Char) : ¬ [b] <+: String.utf8EncodeChar c := by
    rintro ⟨t, ht⟩
    have hchar := congrArg decode ht
    rw [List.singleton_append, hread, decode_encodeChar] at hchar
    obtain ⟨rfl, hnil⟩ := List.cons.inj hchar
    obtain rfl := decode_eq_nil_iff.1 hnil
    exact absurd (congrArg List.length ht) (show ¬ 1 = 3 by decide)
  have hbyte {q : List UInt8} (hne : q ≠ []) (hq : q <+: b :: bs) : [b] <+: q := by
    have hone : [b] <+: b :: bs := ⟨bs, rfl⟩
    exact List.prefix_of_prefix_length_le hone hq (List.length_pos_iff.2 hne)
  refine ⟨⟨[b], replacement⟩, bs, .byte (fun c hc => ?_) ?_ ⟨bs, rfl⟩, rfl, hread bs⟩
  · exact hnone c (hbyte String.utf8EncodeChar_ne_nil hc)
  · rintro q ⟨hne, c, hc, -⟩ hq
    exact hnone c ((hbyte hne hq).trans hc)

theorem readsFront (hbs : bs ≠ []) : ReadsFront bs := by
  obtain ⟨b, bs, rfl⟩ := List.exists_cons_of_ne_nil hbs
  rcases first_cases b.toNat with ⟨hlt, -⟩ | h | ⟨missing, low, high, value, h, hopens⟩
  · have hone : [b] = String.utf8EncodeChar (Char.ofNat b.toNat) := by
      rw [String.utf8EncodeChar, toNat_val_ofNat (.inl (by omega)), if_pos (by omega),
        UInt8.ofNat_toNat]
    have hfront := readsFront_of_encodeChar (Char.ofNat b.toNat) bs
    rwa [← hone] at hfront
  · exact readsFront_of_first h bs
  · exact (Inside.of_first h hopens).readsFront bs

/-- The reader gives the characters of the segments. -/
theorem exists_segmented (bs : List UInt8) :
    ∃ ss, Segmented bs ss ∧ decode bs = ss.map Segment.char := by
  induction hlen : bs.length using Nat.strongRecOn generalizing bs with
  | ind n ih =>
      by_cases hbs : bs = []
      · subst hbs
        exact ⟨[], .nil, rfl⟩
      · obtain ⟨s, rest, hfront, happend, hread⟩ := readsFront hbs
        have hpos : 0 < s.bytes.length := List.length_pos_iff.2 hfront.bytes_ne_nil
        have hlt : rest.length < n := by
          rw [← hlen, happend, List.length_append]
          omega
        obtain ⟨ss, hss, hrest⟩ := ih rest.length hlt rest rfl
        exact ⟨s :: ss, .cons hfront happend hss, by rw [hread, hrest, List.map_cons]⟩

/-! ## Reading two parts -/

namespace State

/-- What the next byte is compared with lets in only bytes from inside of a sequence. -/
def Bounded : State → Prop
  | .between => True
  | .inside _ low high _ => 0x80 ≤ low ∧ high ≤ 0xBF

theorem bounded_first (b : Nat) : (first b).2.Bounded := by
  rcases first_cases b with ⟨-, h⟩ | h | ⟨missing, low, high, value, h, hopens⟩
  · rw [h]
    trivial
  · rw [h]
    trivial
  · rw [h]
    exact ⟨hopens.bounds.1, hopens.bounds.2.2⟩

theorem Bounded.step {t : State} (ht : t.Bounded) (b : Nat) : (step t b).2.Bounded := by
  cases t with
  | between => exact bounded_first b
  | inside missing low high value =>
      by_cases hb : low ≤ b ∧ b ≤ high
      · cases missing with
        | zero =>
            rw [step_inside_zero value hb]
            trivial
        | succ missing =>
            rw [step_inside_succ missing value hb]
            exact ⟨Nat.le_refl _, Nat.le_refl _⟩
      · rw [step_inside_of_not missing value hb]
        exact bounded_first b

end State

/-- Bytes that do not go on with a sequence are read on their own. -/
theorem readFrom_append {t : State} (ht : t.Bounded) (as : List UInt8)
    (hbs : ∀ b ∈ bs.head?, ¬ Continues b) :
    readFrom t (as ++ bs) = readFrom t as ++ decode bs := by
  induction as generalizing t with
  | nil =>
      cases t with
      | between => rfl
      | inside missing low high value =>
          cases bs with
          | nil => rfl
          | cons b bs =>
              have hb : ¬ (low ≤ b.toNat ∧ b.toNat ≤ high) := fun hb =>
                hbs b rfl ⟨Nat.le_trans ht.1 hb.1, Nat.le_trans hb.2 ht.2⟩
              exact readFrom_inside_cons_of_not missing value hb bs
  | cons a as ih =>
      rw [List.cons_append, readFrom_cons, readFrom_cons, ih (ht.step a.toNat), List.append_assoc]

theorem decode_append (as : List UInt8) (hbs : ∀ b ∈ bs.head?, ¬ Continues b) :
    decode (as ++ bs) = decode as ++ decode bs :=
  readFrom_append (t := .between) trivial as hbs

/-- What is read is written again exactly if it was the writing of some characters. -/
theorem encode_decode_eq_iff (bs : List UInt8) :
    encode (decode bs) = bs ↔ bs.toByteArray.IsValidUTF8 := by
  constructor
  · intro h
    exact ⟨decode bs, by rw [List.utf8Encode, ← encode, h]⟩
  · rintro ⟨cs, hcs⟩
    have hbs : bs = encode cs := List.toByteArray_inj.1 hcs
    rw [hbs, decode_encode]

end ProgramHost.Text.Utf8
