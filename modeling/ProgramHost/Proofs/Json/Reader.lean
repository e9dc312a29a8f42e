import ProgramHost.Proofs.Json.Grammar
/-!
# Reading documents

`parse?` reads a text as a value, by recursive descent: the first character says what kind of
value comes, and the fuel bounds how deep values nest. Every text that the grammar has is read
as the value that it is. So a text is one value at most.
-/

namespace ProgramHost.Json

open Numeral

/-! ## The reader -/

def skipBlanks (cs : List Char) : List Char := cs.dropWhile isBlank

def readUnit? : List Char → Option (Nat × List Char)
  | a :: b :: c :: d :: cs =>
      ([a, b, c, d].mapM Radix.hexDigit?).map fun ds => (Radix.ofDigits ds, cs)
  | _ => none

def readLow? (high : Nat) : List Char → Option (Char × List Char)
  | '\\' :: 'u' :: cs => do
      let (low, cs) ← readUnit? cs
      if IsLow low then some (joined high low, cs) else none
  | _ => none

def readCodePoint? (cs : List Char) : Option (Char × List Char) := do
  let (n, cs) ← readUnit? cs
  if IsHigh n then readLow? n cs
  else if IsLow n then none
  else some (Char.ofNat n, cs)

def readEscape? : List Char → Option (Char × List Char)
  | [] => none
  | e :: cs =>
      if e = 'u' then readCodePoint? cs
      else (shortEscapes.lookup e).map fun c => (c, cs)

/-- One character of a string; no control character and no quote stands for itself. -/
def readChar? : List Char → Option (Char × List Char)
  | [] => none
  | c :: cs =>
      if c = '\\' then readEscape? cs
      else if c = '"' ∨ c.toNat < 0x20 then none
      else some (c, cs)

def readString? (cs : List Char) : Option (String × List Char) :=
  (Text.readQuoted? readChar? cs).map fun (ds, rest) => (String.ofList ds, rest)

def readWord? (word : List Char) (j : Json) (cs : List Char) : Option (Json × List Char) :=
  if word <+: cs then some (j, cs.drop word.length) else none

def readScalar? (cs : List Char) : Option (Json × List Char) :=
  readWord? ['n', 'u', 'l', 'l'] .null cs <|>
    readWord? (boolText true) (.bool true) cs <|>
    readWord? (boolText false) (.bool false) cs <|>
    (Numeral.read? cs).map fun (n, rest) => (.number n, rest)

section

variable {α : Type} (close : Char) (read? : List Char → Option (α × List Char))

/-- Parts with commas between them up to the closing bracket, at most `fuel` of them. -/
def readParts? : Nat → List Char → Option (List α × List Char)
  | 0, _ => none
  | fuel + 1, cs => do
      let (x, cs) ← read? cs
      match cs with
      | [] => none
      | c :: cs =>
          if c = close then some ([x], cs)
          else if c = ',' then (readParts? fuel cs).map fun (xs, rest) => (x :: xs, rest)
          else none

def readBracketed? (cs : List Char) : Option (List α × List Char) :=
  match skipBlanks cs with
  | [] => none
  | c :: rest => if c = close then some ([], rest) else readParts? close read? cs.length cs

end

def readElement? (read? : List Char → Option (Json × List Char)) (cs : List Char) :
    Option (Json × List Char) :=
  (read? (skipBlanks cs)).map fun (j, rest) => (j, skipBlanks rest)

def readField? (read? : List Char → Option (Json × List Char)) (cs : List Char) :
    Option ((String × Json) × List Char) := do
  let (k, cs) ← readString? (skipBlanks cs)
  match skipBlanks cs with
  | ':' :: cs => (readElement? read? cs).map fun (j, rest) => ((k, j), rest)
  | _ => none

/-- A value of at most `fuel` values nested in each other, and the rest. The readers of the items
and of the fields are given this reader with less fuel, so the recursion is on the fuel. -/
def readValue? : Nat → List Char → Option (Json × List Char)
  | 0, _ => none
  | fuel + 1, cs =>
      match cs with
      | '"' :: _ => (readString? cs).map fun (s, rest) => (.string s, rest)
      | '[' :: cs =>
          (readBracketed? ']' (readElement? (readValue? fuel)) cs).map fun (js, rest) =>
            (.array js, rest)
      | '\x7b' :: cs =>
          (readBracketed? '\x7d' (readField? (readValue? fuel)) cs).map fun (fs, rest) =>
            (.object fs, rest)
      | cs => readScalar? cs

/-- The value that a text is as a whole. -/
def parse? (text : String) : Option Json :=
  match readElement? (readValue? text.toList.length) text.toList with
  | some (j, []) => some j
  | _ => none

/-! ## Strings -/

theorem readUnit?_append {us : List Char} {n : Nat} (h : WrittenUnit us n) (rest : List Char) :
    readUnit? (us ++ rest) = some (n, rest) := by
  obtain ⟨hds⟩ := h
  exact congrArg (Option.map _) hds

theorem readCodePoint?_unit {us : List Char} {n : Nat} (h : WrittenUnit us n) (hhigh : ¬ IsHigh n)
    (hlow : ¬ IsLow n) (rest : List Char) :
    readCodePoint? (us ++ rest) = some (Char.ofNat n, rest) := by
  simp only [readCodePoint?, readUnit?_append h, Option.bind_eq_bind, Option.bind_some,
    if_neg hhigh, if_neg hlow]

theorem readCodePoint?_halves {us vs : List Char} {high low : Nat} (h : WrittenUnit us high)
    (h' : WrittenUnit vs low) (hhigh : IsHigh high) (hlow : IsLow low) (rest : List Char) :
    readCodePoint? (us ++ ('\\' :: 'u' :: (vs ++ rest))) = some (joined high low, rest) := by
  simp only [readCodePoint?, readUnit?_append h, readLow?, readUnit?_append h',
    Option.bind_eq_bind, Option.bind_some, if_pos hhigh, if_pos hlow]

theorem readChar?_append {w : List Char} {c : Char} (h : WrittenChar w c) (rest : List Char) :
    readChar? (w ++ rest) = some (c, rest) := by
  cases h with
  | plain hquote hslash hc =>
      have hplain : ¬ (c = '"' ∨ c.toNat < 0x20) := not_or.2 ⟨hquote, Nat.not_lt.2 hc⟩
      simp only [List.singleton_append, readChar?, if_neg hslash, if_neg hplain]
  | @short e c hlookup =>
      have hu : e ≠ 'u' := by
        rintro rfl
        cases hlookup
      simp only [List.cons_append, List.nil_append, readChar?, if_true, readEscape?, if_neg hu,
        hlookup, Option.map_some]
  | unit hunit hhigh hlow => exact readCodePoint?_unit hunit hhigh hlow rest
  | halves hunit hunit' hhigh hlow =>
      simp only [List.cons_append, List.append_assoc]
      exact readCodePoint?_halves hunit hunit' hhigh hlow rest

theorem WrittenChar.exists_eq_cons {w : List Char} {c : Char} (h : WrittenChar w c) :
    ∃ d ds, w = d :: ds ∧ d ≠ '"' := by
  cases h with
  | plain hquote => exact ⟨_, _, rfl, hquote⟩
  | short => exact ⟨_, _, rfl, by decide⟩
  | unit => exact ⟨_, _, rfl, by decide⟩
  | halves => exact ⟨_, _, rfl, by decide⟩

theorem readString?_append {cs : List Char} {s : String} (h : WrittenString cs s)
    (rest : List Char) : readString? (cs ++ rest) = some (s, rest) := by
  obtain @⟨ws, s, hws⟩ := h
  have hread := Text.readQuoted?_append hws WrittenChar.exists_eq_cons readChar?_append rest
  rw [readString?, List.cons_append, List.append_assoc, List.singleton_append, hread,
    Option.map_some]
  exact congrArg (fun t => some (t, rest)) String.ofList_toList

/-! ## Blanks -/

def EndsBlanks (cs : List Char) : Prop := ∀ c ∈ cs.head?, isBlank c = false

theorem endsBlanks_cons {c : Char} (h : isBlank c = false) (cs : List Char) :
    EndsBlanks (c :: cs) := by
  rintro c ⟨⟩
  exact h

theorem skipBlanks_append {bs : List Char} (h : Blank bs) (cs : List Char) :
    skipBlanks (bs ++ cs) = skipBlanks cs :=
  List.dropWhile_append_of_pos h

theorem skipBlanks_eq_self {cs : List Char} (h : EndsBlanks cs) : skipBlanks cs = cs := by
  cases cs with
  | nil => rfl
  | cons c cs => exact List.dropWhile_cons_of_neg (by simp [h c rfl])

theorem skipBlanks_append_of_ends {bs cs : List Char} (h : Blank bs) (hcs : EndsBlanks cs) :
    skipBlanks (bs ++ cs) = cs := by
  rw [skipBlanks_append h, skipBlanks_eq_self hcs]

theorem endsLiteral_blank_append {bs cs : List Char} (h : Blank bs) (hcs : EndsLiteral cs) :
    EndsLiteral (bs ++ cs) := by
  cases bs with
  | nil => exact hcs
  | cons b bs =>
      rintro c ⟨⟩
      have hb := h b List.mem_cons_self
      simp only [isBlank, Bool.or_eq_true, decide_eq_true_eq] at hb
      rcases hb with ((rfl | rfl) | rfl) | rfl <;> decide

/-! ## Values -/

/-- What comes after a value: nothing, a comma or a closing bracket. -/
def EndsValue (cs : List Char) : Prop := ∀ c ∈ cs.head?, c = ',' ∨ c = ']' ∨ c = '\x7d'

theorem EndsValue.endsLiteral {cs : List Char} (h : EndsValue cs) : EndsLiteral cs := by
  intro c hc
  rcases h c hc with rfl | rfl | rfl <;> decide

theorem EndsValue.endsBlanks {cs : List Char} (h : EndsValue cs) : EndsBlanks cs := by
  intro c hc
  rcases h c hc with rfl | rfl | rfl <;> decide

theorem endsValue_cons {c : Char} (h : c = ',' ∨ c = ']' ∨ c = '\x7d') (cs : List Char) :
    EndsValue (c :: cs) := by
  rintro c ⟨⟩
  exact h

theorem endsValue_nil : EndsValue [] := by
  rintro c ⟨⟩

def BeginsNumber (c : Char) : Prop := c = '-' ∨ ∃ d, Radix.digit? c = some d

theorem BeginsNumber.ne {c d : Char} (h : BeginsNumber c) (hd : Radix.digit? d = none)
    (hminus : d ≠ '-') : c ≠ d := by
  rintro rfl
  rcases h with rfl | ⟨e, he⟩
  · exact hminus rfl
  · cases hd.symm.trans he

theorem BeginsNumber.isBlank_eq_false {c : Char} (h : BeginsNumber c) : isBlank c = false := by
  simp only [isBlank, Bool.or_eq_false_iff, decide_eq_false_iff_not]
  exact ⟨⟨⟨h.ne rfl (by decide), h.ne rfl (by decide)⟩, h.ne rfl (by decide)⟩,
    h.ne rfl (by decide)⟩

theorem Written.exists_eq_cons {cs : List Char} {j : Json} (h : Written cs j) :
    ∃ c ds, cs = c :: ds ∧ isBlank c = false ∧ c ≠ ']' := by
  cases h with
  | null => exact ⟨_, _, rfl, by decide, by decide⟩
  | bool b => cases b <;> exact ⟨_, _, rfl, by decide, by decide⟩
  | number hn =>
      obtain ⟨c, ds, hcs, hc⟩ := hn.exists_eq_cons
      exact ⟨c, ds, hcs, BeginsNumber.isBlank_eq_false hc,
        BeginsNumber.ne (d := ']') hc rfl (by decide)⟩
  | string hs =>
      cases hs
      exact ⟨_, _, rfl, by decide, by decide⟩
  | emptyArray => exact ⟨_, _, rfl, by decide, by decide⟩
  | array => exact ⟨_, _, rfl, by decide, by decide⟩
  | emptyObject => exact ⟨_, _, rfl, by decide, by decide⟩
  | object => exact ⟨_, _, rfl, by decide, by decide⟩

theorem Written.endsBlanks_append {cs : List Char} {j : Json} (h : Written cs j)
    (rest : List Char) : EndsBlanks (cs ++ rest) := by
  obtain ⟨c, ds, rfl, hc, -⟩ := h.exists_eq_cons
  exact endsBlanks_cons hc _

theorem WrittenString.endsBlanks_append {cs : List Char} {s : String} (h : WrittenString cs s)
    (rest : List Char) : EndsBlanks (cs ++ rest) := by
  cases h
  exact endsBlanks_cons (by decide) _

theorem readWord?_append (word : List Char) (j : Json) (rest : List Char) :
    readWord? word j (word ++ rest) = some (j, rest) := by
  rw [readWord?, if_pos (List.prefix_append word rest), List.drop_left]

theorem BeginsNumber.readWord?_eq_none {c d : Char} (h : BeginsNumber c)
    (hd : Radix.digit? d = none) (hminus : d ≠ '-') (word : List Char) (j : Json)
    (cs : List Char) : readWord? (d :: word) j (c :: cs) = none := by
  rw [readWord?, if_neg]
  rintro ⟨t, ht⟩
  exact h.ne hd hminus (List.cons.inj ht).1.symm

theorem readScalar?_number {cs : List Char} {n : Numeral} (h : Numeral.Written cs n)
    {rest : List Char} (hrest : EndsLiteral rest) :
    readScalar? (cs ++ rest) = some (.number n, rest) := by
  have hread := h.read?_append hrest
  obtain ⟨c, ds, rfl, hc⟩ := h.exists_eq_cons
  have hword : ∀ {d : Char}, Radix.digit? d = none → d ≠ '-' → ∀ (word : List Char) (j : Json),
      readWord? (d :: word) j (c :: (ds ++ rest)) = none := fun hd hminus word j =>
    BeginsNumber.readWord?_eq_none hc hd hminus word j (ds ++ rest)
  have hn := @hword 'n' rfl (by decide)
  have ht := @hword 't' rfl (by decide)
  have hf := @hword 'f' rfl (by decide)
  rw [List.cons_append] at hread ⊢
  simp only [readScalar?, boolText, hn, ht, hf, hread]
  rfl

/-! ## Parts between brackets -/

section

variable {α : Type} {part : List Char → α → Prop} {read? : List Char → Option (α × List Char)}
  {close : Char} {cs : List Char} {xs : List α}

theorem Separated.length_le (h : Separated part cs xs) : xs.length ≤ cs.length + 1 := by
  induction h with
  | one => simp
  | more _ _ ih =>
      simp only [List.length_cons, List.length_append]
      omega

/-- If each part is read, then all of them are, up to the closing bracket. -/
theorem readParts?_append (h : Separated part cs xs) (hclose : close = ']' ∨ close = '\x7d')
    (hread : ∀ {ds x rest}, part ds x → ds.length ≤ cs.length → EndsValue rest →
      read? (ds ++ rest) = some (x, rest)) (rest : List Char) {fuel : Nat}
    (hfuel : xs.length ≤ fuel) :
    readParts? close read? fuel (cs ++ close :: rest) = some (xs, rest) := by
  have hcomma : ',' ≠ close := by
    rcases hclose with rfl | rfl <;> decide
  induction h generalizing fuel with
  | one hx =>
      obtain ⟨fuel, rfl⟩ := Nat.exists_eq_succ_of_ne_zero (Nat.ne_zero_of_lt hfuel)
      have hfirst := hread hx le_rfl (endsValue_cons (.inr hclose) rest)
      simp only [readParts?, hfirst, Option.bind_eq_bind, Option.bind_some, if_true]
  | @more cs ds x xs hx hxs ih =>
      obtain ⟨fuel, rfl⟩ := Nat.exists_eq_succ_of_ne_zero (Nat.ne_zero_of_lt hfuel)
      have hle : cs.length ≤ (cs ++ ',' :: ds).length ∧ ds.length ≤ (cs ++ ',' :: ds).length := by
        simp only [List.length_append, List.length_cons]
        omega
      have hfirst := hread hx hle.1 (endsValue_cons (.inl rfl) (ds ++ close :: rest))
      have hothers := ih (fun h hlen => hread h (hlen.trans hle.2)) (Nat.le_of_succ_le_succ hfuel)
      rw [List.append_assoc, List.cons_append]
      simp only [readParts?, hfirst, Option.bind_eq_bind, Option.bind_some, if_neg hcomma,
        if_true, hothers, Option.map_some]

theorem readBracketed?_blank {bs : List Char} (h : Blank bs) (hclose : isBlank close = false)
    (rest : List Char) : readBracketed? close read? (bs ++ close :: rest) = some ([], rest) := by
  rw [readBracketed?, skipBlanks_append_of_ends h (endsBlanks_cons hclose rest)]
  exact if_pos rfl

theorem readBracketed?_append (h : Separated part cs xs) (hclose : close = ']' ∨ close = '\x7d')
    (hbegin : ∀ {ds x}, part ds x → ∀ rest, ∃ c t, skipBlanks (ds ++ rest) = c :: t ∧ c ≠ close)
    (hread : ∀ {ds x rest}, part ds x → ds.length ≤ cs.length → EndsValue rest →
      read? (ds ++ rest) = some (x, rest)) (rest : List Char) :
    readBracketed? close read? (cs ++ close :: rest) = some (xs, rest) := by
  have hfirst : ∃ c t, skipBlanks (cs ++ close :: rest) = c :: t ∧ c ≠ close := by
    cases h with
    | one hx => exact hbegin hx _
    | more hx =>
        rw [List.append_assoc]
        exact hbegin hx _
  obtain ⟨c, t, hskip, hc⟩ := hfirst
  have hfuel : xs.length ≤ (cs ++ close :: rest).length := by
    have hlen := h.length_le
    simp only [List.length_append, List.length_cons]
    omega
  rw [readBracketed?, hskip]
  exact (if_neg hc).trans (readParts?_append h hclose hread rest hfuel)

end

/-! ## Elements and fields -/

section

variable {read? : List Char → Option (Json × List Char)} {cs : List Char} {rest : List Char}

theorem readElement?_append {j : Json} (h : WrittenElement cs j)
    (hread : ∀ {ds x rest}, Written ds x → ds.length ≤ cs.length → EndsLiteral rest →
      read? (ds ++ rest) = some (x, rest)) (hrest : EndsValue rest) :
    readElement? read? (cs ++ rest) = some (j, rest) := by
  obtain @⟨bs, ds, bs', j, hbs, hds, hbs'⟩ := h
  have hlen : ds.length ≤ (bs ++ (ds ++ bs')).length := by
    simp only [List.length_append]
    omega
  have hvalue := hread hds hlen (endsLiteral_blank_append hbs' hrest.endsLiteral)
  rw [readElement?, List.append_assoc, List.append_assoc,
    skipBlanks_append_of_ends hbs (hds.endsBlanks_append _), hvalue, Option.map_some]
  exact congrArg (fun t => some (j, t)) (skipBlanks_append_of_ends hbs' hrest.endsBlanks)

theorem readField?_append {f : String × Json} (h : WrittenField cs f)
    (hread : ∀ {ds x rest}, Written ds x → ds.length ≤ cs.length → EndsLiteral rest →
      read? (ds ++ rest) = some (x, rest)) (hrest : EndsValue rest) :
    readField? read? (cs ++ rest) = some (f, rest) := by
  obtain @⟨bs, ks, bs', ds, k, j, hbs, hks, hbs', hds⟩ := h
  have hlen : ds.length ≤ (bs ++ (ks ++ (bs' ++ ':' :: ds))).length := by
    simp only [List.length_append, List.length_cons]
    omega
  have hvalue := readElement?_append hds (fun h hle => hread h (hle.trans hlen)) hrest
  simp only [List.append_assoc, List.cons_append, readField?,
    skipBlanks_append_of_ends hbs (hks.endsBlanks_append _), readString?_append hks,
    Option.bind_eq_bind, Option.bind_some,
    skipBlanks_append_of_ends hbs' (endsBlanks_cons (c := ':') (by decide) _), hvalue,
    Option.map_some]

theorem WrittenElement.exists_skipBlanks {j : Json} (h : WrittenElement cs j)
    (rest : List Char) : ∃ c t, skipBlanks (cs ++ rest) = c :: t ∧ c ≠ ']' := by
  obtain @⟨bs, ds, bs', j, hbs, hds, -⟩ := h
  obtain ⟨c, t, rfl, hc, hne⟩ := hds.exists_eq_cons
  rw [List.append_assoc, List.append_assoc, skipBlanks_append hbs]
  exact ⟨c, _, skipBlanks_eq_self (endsBlanks_cons hc _), hne⟩

theorem WrittenField.exists_skipBlanks {f : String × Json} (h : WrittenField cs f)
    (rest : List Char) : ∃ c t, skipBlanks (cs ++ rest) = c :: t ∧ c ≠ '\x7d' := by
  obtain @⟨bs, ks, bs', ds, k, j, hbs, hks, -, -⟩ := h
  cases hks
  rw [List.append_assoc, List.append_assoc, skipBlanks_append hbs]
  exact ⟨'"', _, skipBlanks_eq_self (endsBlanks_cons (by decide) _), by decide⟩

end

/-! ## The whole text -/

/-- A value is read with as much fuel as it has characters: each bracket takes one. -/
theorem readValue?_append {fuel : Nat} {cs : List Char} {j : Json} {rest : List Char}
    (h : Written cs j) (hfuel : cs.length ≤ fuel) (hrest : EndsLiteral rest) :
    readValue? fuel (cs ++ rest) = some (j, rest) := by
  induction fuel generalizing cs j rest with
  | zero =>
      obtain ⟨c, ds, rfl, -⟩ := h.exists_eq_cons
      simp at hfuel
  | succ fuel ih =>
      have hinner : ∀ {open' close : Char} {ds : List Char},
          (open' :: (ds ++ [close])).length ≤ fuel + 1 → ds.length ≤ fuel := by
        intro open' close ds hle
        simp only [List.length_cons, List.length_append, List.length_nil] at hle
        omega
      cases h with
      | null => exact congrArg (· <|> _) (readWord?_append _ .null rest)
      | bool b => cases b <;> rfl
      | number hn =>
          obtain ⟨c, ds, rfl, hc⟩ := hn.exists_eq_cons
          rw [List.cons_append, readValue?]
          · exact readScalar?_number hn hrest
          · intro t heq
            exact BeginsNumber.ne hc rfl (by decide) (List.cons.inj heq).1
          · intro t heq
            exact BeginsNumber.ne hc rfl (by decide) (List.cons.inj heq).1
          · intro t heq
            exact BeginsNumber.ne hc rfl (by decide) (List.cons.inj heq).1
      | string hs =>
          have hstring := readString?_append hs rest
          cases hs
          rw [List.cons_append] at hstring ⊢
          rw [readValue?, hstring]
          rfl
      | emptyArray hbs =>
          rw [List.cons_append, readValue?, List.append_assoc, List.singleton_append,
            readBracketed?_blank hbs (by decide)]
          rfl
      | array hjs =>
          have hparts := readBracketed?_append hjs (.inl rfl) (fun h => h.exists_skipBlanks)
            (fun h hle hends => readElement?_append h
              (fun h' hle' => ih h' (hle'.trans (hle.trans (hinner hfuel)))) hends) rest
          rw [List.cons_append, readValue?, List.append_assoc, List.singleton_append, hparts]
          rfl
      | emptyObject hbs =>
          rw [List.cons_append, readValue?, List.append_assoc, List.singleton_append,
            readBracketed?_blank hbs (by decide)]
          rfl
      | object hfs =>
          have hparts := readBracketed?_append hfs (.inr rfl) (fun h => h.exists_skipBlanks)
            (fun h hle hends => readField?_append h
              (fun h' hle' => ih h' (hle'.trans (hle.trans (hinner hfuel)))) hends) rest
          rw [List.cons_append, readValue?, List.append_assoc, List.singleton_append, hparts]
          rfl

/-- Every text that the grammar has is read as its value. -/
theorem WrittenElement.parse?_eq {text : String} {j : Json}
    (h : WrittenElement text.toList j) : parse? text = some j := by
  have hread := readElement?_append h
    (fun h' hle => @readValue?_append text.toList.length _ _ _ h' hle) endsValue_nil
  rw [List.append_nil] at hread
  rw [parse?, hread]

/-- Blanks around all parts, and a character in two halves. -/
example : (parse? " [ \"\\uD83D\\ude00\" ,\n1.5E+2 ] ").isSome = true := by decide +kernel

/-- Half a character is none. -/
example : (parse? "\"\\uD83D\"").isSome = false := by decide +kernel

end ProgramHost.Json
