import CallFlow.Number.Reading

/-! Numbers in a text: a number is split off in the form in which it is written, and nothing else
is. -/

namespace CallFlow.Number

variable {ds rest : List Char}

/-- A text does not begin with a digit. -/
def StopsDigits (rest : List Char) : Prop := ∀ c ∈ rest.head?, isDigit c = false

theorem takeWhile_isDigit_append (digits : ∀ c ∈ ds, isDigit c = true)
    (stops : StopsDigits rest) : (ds ++ rest).takeWhile isDigit = ds := by
  rw [List.takeWhile_append_of_pos digits]
  cases rest with
  | nil => simp
  | cons c rest => simp [stops c rfl]

theorem dropWhile_isDigit_append (digits : ∀ c ∈ ds, isDigit c = true)
    (stops : StopsDigits rest) : (ds ++ rest).dropWhile isDigit = rest := by
  rw [List.dropWhile_append_of_pos digits]
  cases rest with
  | nil => rfl
  | cons c rest => simp [stops c rfl]

theorem isDigit_of_mem_takeWhile (s : List Char) : ∀ c ∈ s.takeWhile isDigit, isDigit c = true :=
  fun _ member => List.all_eq_true.mp List.all_takeWhile _ member

theorem notMem_head?_of_digits (nonempty : ds ≠ []) (digits : ∀ c ∈ ds, isDigit c = true) {c : Char}
    (other : isDigit c = false) : c ∉ (ds ++ rest).head? := by
  cases ds with
  | nil => exact absurd rfl nonempty
  | cons d ds =>
      intro first
      obtain rfl : d = c := by simpa using first
      rw [digits d List.mem_cons_self] at other
      cases other

/-- What marks a power of ten, with the sign of the power. -/
def IsMark (mark : List Char) : Prop :=
  ∃ c, (c = 'e' ∨ c = 'E') ∧ (mark = [c, '-'] ∨ mark = [c, '+'] ∨ mark = [c])

/-- The parts of a number stand for one that may be written. -/
structure Written.Formed (w : Written) : Prop where
  nonempty : w.whole ≠ []
  whole : ∀ c ∈ w.whole, isDigit c = true
  zero : w.whole.head? = some '0' → w.whole.length = 1
  fraction : ∀ c ∈ w.fraction, isDigit c = true
  power : ∀ mark ds, w.power = some (mark, ds) → IsMark mark ∧ ds ≠ [] ∧ ∀ c ∈ ds, isDigit c = true

/-- A point with the digits after it, or nothing. -/
def pointed (fraction : List Char) : List Char :=
  if fraction.isEmpty then [] else '.' :: fraction

/-- A power of ten with its mark, or nothing. -/
def scaled : Option (List Char × List Char) → List Char
  | none => []
  | some (mark, ds) => mark ++ ds

theorem Written.chars_eq (w : Written) :
    w.chars = (if w.negative then ['-'] else []) ++
      (w.whole ++ (pointed w.fraction ++ scaled w.power)) := by
  simp only [chars, pointed, List.append_assoc]
  cases w.power <;> rfl

/-- A text does not go on with a number. -/
def Ends (rest : List Char) : Prop :=
  ∀ c ∈ rest.head?, isDigit c = false ∧ c ≠ '.' ∧ c ≠ 'e' ∧ c ≠ 'E'

theorem Ends.stops (ends : Ends rest) : StopsDigits rest := fun c first => (ends c first).1

theorem ends_nil : Ends [] := fun _ first => nomatch first

theorem splitSign_append (negative : Bool) (stops : '-' ∉ rest.head?) :
    splitSign ((if negative then ['-'] else []) ++ rest) = (negative, rest) := by
  cases negative with
  | true => rfl
  | false =>
      cases rest with
      | nil => rfl
      | cons c rest =>
          have other : c ≠ '-' := fun same => stops (by simp [same])
          simp [splitSign, other]

theorem splitFraction?_append (digits : ∀ c ∈ ds, isDigit c = true) (stops : StopsDigits rest)
    (plain : '.' ∉ rest.head?) : splitFraction? (pointed ds ++ rest) = some (ds, rest) := by
  cases ds with
  | nil =>
      cases rest with
      | nil => rfl
      | cons c rest =>
          have other : c ≠ '.' := fun same => plain (by simp [same])
          simp [pointed, splitFraction?, other]
  | cons d ds =>
      have taken := takeWhile_isDigit_append digits stops
      have dropped := dropWhile_isDigit_append digits stops
      simp only [List.cons_append] at taken dropped
      simp [pointed, splitFraction?, taken, dropped]

theorem splitMark_append {c : Char} {mark : List Char} (minus : '-' ∉ rest.head?)
    (plus : '+' ∉ rest.head?) (spelled : mark = [c, '-'] ∨ mark = [c, '+'] ∨ mark = [c]) :
    ∃ signed, mark = c :: signed ∧ splitMark c (signed ++ rest) = (mark, rest) := by
  rcases spelled with rfl | rfl | rfl
  · exact ⟨['-'], rfl, rfl⟩
  · exact ⟨['+'], rfl, rfl⟩
  · refine ⟨[], rfl, ?_⟩
    cases rest with
    | nil => rfl
    | cons d rest =>
        have noMinus : d ≠ '-' := fun same => minus (by simp [same])
        have noPlus : d ≠ '+' := fun same => plus (by simp [same])
        simp [splitMark, noMinus, noPlus]

theorem splitPower?_append {mark : List Char} (marks : IsMark mark) (nonempty : ds ≠ [])
    (digits : ∀ c ∈ ds, isDigit c = true) (stops : StopsDigits rest) :
    splitPower? (mark ++ (ds ++ rest)) = some (some (mark, ds), rest) := by
  obtain ⟨c, letter, spelled⟩ := marks
  have minus : '-' ∉ (ds ++ rest).head? := notMem_head?_of_digits nonempty digits (by decide)
  have plus : '+' ∉ (ds ++ rest).head? := notMem_head?_of_digits nonempty digits (by decide)
  obtain ⟨signed, rfl, split⟩ := splitMark_append minus plus spelled
  simp only [List.cons_append, splitPower?, if_pos letter, split,
    takeWhile_isDigit_append digits stops, dropWhile_isDigit_append digits stops,
    List.isEmpty_iff, if_neg nonempty]

/-- The power of ten of a number is split off, and no digit or point comes before it. -/
theorem Written.Formed.split_scaled {w : Written} (formed : w.Formed) (ends : Ends rest) :
    splitPower? (scaled w.power ++ rest) = some (w.power, rest) ∧
      StopsDigits (scaled w.power ++ rest) ∧ '.' ∉ (scaled w.power ++ rest).head? := by
  cases here : w.power with
  | none =>
      refine ⟨?_, ends.stops, fun dot => (ends _ dot).2.1 rfl⟩
      cases rest with
      | nil => rfl
      | cons c rest =>
          obtain ⟨-, -, small, large⟩ := ends c rfl
          simp [scaled, splitPower?, small, large]
  | some power =>
      obtain ⟨mark, ds⟩ := power
      obtain ⟨marks, nonempty, digits⟩ := formed.power mark ds here
      have first : ∃ c, (c = 'e' ∨ c = 'E') ∧
          (scaled (some (mark, ds)) ++ rest).head? = some c := by
        obtain ⟨c, letter, spelled⟩ := marks
        refine ⟨c, letter, ?_⟩
        rcases spelled with rfl | rfl | rfl <;> rfl
      obtain ⟨c, letter, first⟩ := first
      refine ⟨?_, fun d other => ?_, fun dot => ?_⟩
      · rw [show scaled (some (mark, ds)) = mark ++ ds from rfl, List.append_assoc]
        exact splitPower?_append marks nonempty digits ends.stops
      · rw [first] at other
        obtain rfl : c = d := by simpa using other
        rcases letter with rfl | rfl <;> decide
      · rw [first] at dot
        obtain rfl : c = '.' := by simpa using dot
        revert letter
        decide

theorem stops_pointed (fraction : List Char) (stops : StopsDigits rest) :
    StopsDigits (pointed fraction ++ rest) := by
  cases fraction with
  | nil => exact stops
  | cons d ds =>
      rintro c first
      obtain rfl : '.' = c := by simpa [pointed] using first
      decide

theorem isEmpty_or_zero_eq_false_iff :
    (ds.isEmpty || (ds.head? == some '0' && ds.length != 1)) = false ↔
      ds ≠ [] ∧ (ds.head? = some '0' → ds.length = 1) := by
  simp [bne]

/-- In front of a text that does not go on with a number, the parts of one are split off. -/
theorem split?_chars {w : Written} (formed : w.Formed) (ends : Ends rest) :
    split? (w.chars ++ rest) = some (w, rest) := by
  obtain ⟨power, stops, plain⟩ := formed.split_scaled ends
  have fraction := splitFraction?_append formed.fraction stops plain
  have whole : StopsDigits (pointed w.fraction ++ (scaled w.power ++ rest)) :=
    stops_pointed w.fraction stops
  have first : '-' ∉ (w.whole ++ (pointed w.fraction ++ (scaled w.power ++ rest))).head? :=
    notMem_head?_of_digits formed.nonempty formed.whole (by decide)
  unfold split?
  rw [Written.chars_eq]
  simp only [List.append_assoc, splitSign_append w.negative first,
    takeWhile_isDigit_append formed.whole whole, dropWhile_isDigit_append formed.whole whole,
    isEmpty_or_zero_eq_false_iff.mpr ⟨formed.nonempty, formed.zero⟩, fraction, power,
    Bool.false_eq_true, if_false]

theorem splitSign_eq (s : List Char) :
    (if (splitSign s).1 then ['-'] else []) ++ (splitSign s).2 = s := by
  unfold splitSign
  split <;> rfl

theorem digits_of_splitFraction? {s : List Char} (split : splitFraction? s = some (ds, rest)) :
    (∀ c ∈ ds, isDigit c = true) ∧ pointed ds ++ rest = s := by
  unfold splitFraction? at split
  split at split
  · rename_i r
    split at split
    · cases split
    · rename_i some
      cases split
      refine ⟨isDigit_of_mem_takeWhile r, ?_⟩
      rw [pointed, if_neg some, List.cons_append, List.takeWhile_append_dropWhile]
  · cases split
    exact ⟨fun _ member => (nomatch member), rfl⟩

theorem splitMark_eq (c : Char) (s : List Char) :
    (c = 'e' ∨ c = 'E' → IsMark (splitMark c s).1) ∧
      (splitMark c s).1 ++ (splitMark c s).2 = c :: s := by
  unfold splitMark
  split
  · exact ⟨fun letter => ⟨c, letter, .inl rfl⟩, rfl⟩
  · exact ⟨fun letter => ⟨c, letter, .inr (.inl rfl)⟩, rfl⟩
  · exact ⟨fun letter => ⟨c, letter, .inr (.inr rfl)⟩, rfl⟩

theorem power_of_splitPower? {s : List Char} {power : Option (List Char × List Char)}
    (split : splitPower? s = some (power, rest)) :
    (∀ mark ds, power = some (mark, ds) → IsMark mark ∧ ds ≠ [] ∧ ∀ c ∈ ds, isDigit c = true) ∧
      scaled power ++ rest = s := by
  unfold splitPower? at split
  split at split
  · cases split
    exact ⟨fun _ _ none => (nomatch none), rfl⟩
  · rename_i c r
    split at split
    · rename_i letter
      dsimp only at split
      split at split
      · cases split
      · rename_i some
        cases split
        obtain ⟨marks, same⟩ := splitMark_eq c r
        refine ⟨?_, ?_⟩
        · rintro mark ds same
          cases same
          exact ⟨marks letter, fun none => some (by simp [none]), isDigit_of_mem_takeWhile _⟩
        · rw [scaled, List.append_assoc, List.takeWhile_append_dropWhile, same]
    · cases split
      exact ⟨fun _ _ none => (nomatch none), rfl⟩

/-- What is split off is a number, and all that was there. -/
theorem formed_of_split? {s : List Char} {w : Written} (split : split? s = some (w, rest)) :
    w.Formed ∧ s = w.chars ++ rest := by
  unfold split? at split
  dsimp only at split
  split at split
  · cases split
  rename_i accepted
  split at split
  · cases split
  rename_i fraction afterPoint fractioned
  split at split
  · cases split
  rename_i power after powered
  cases split
  obtain ⟨digits, point⟩ := digits_of_splitFraction? fractioned
  obtain ⟨powers, scale⟩ := power_of_splitPower? powered
  obtain ⟨nonempty, zero⟩ := isEmpty_or_zero_eq_false_iff.mp (Bool.eq_false_iff.mpr accepted)
  refine ⟨⟨nonempty, isDigit_of_mem_takeWhile _, zero, digits, powers⟩, ?_⟩
  rw [Written.chars_eq]
  simp only [List.append_assoc]
  rw [scale, point, List.takeWhile_append_dropWhile, splitSign_eq]

/-- A number that is all of a text is split off in front of another one. -/
theorem split?_append {s : List Char} {w : Written} (whole : split? s = some (w, []))
    (ends : Ends rest) : s = w.chars ∧ split? (s ++ rest) = some (w, rest) := by
  obtain ⟨formed, same⟩ := formed_of_split? whole
  rw [List.append_nil] at same
  exact ⟨same, same ▸ split?_chars formed ends⟩

theorem head?_of_split? {s : List Char} {w : Written} (split : split? s = some (w, rest)) :
    ∃ c, s.head? = some c ∧ (isDigit c = true ∨ c = '-') := by
  obtain ⟨formed, rfl⟩ := formed_of_split? split
  rw [Written.chars_eq]
  cases w.negative with
  | true => exact ⟨'-', rfl, .inr rfl⟩
  | false =>
      obtain ⟨c, ds, here⟩ := List.exists_cons_of_ne_nil formed.nonempty
      rw [here]
      exact ⟨c, rfl, .inl (formed.whole c (here ▸ List.mem_cons_self))⟩

theorem exists_split?_of_read? {text : String} {x : Binary64} (reads : read? text = some x) :
    ∃ w, split? text.toList = some (w, []) := by
  unfold read? at reads
  split at reads
  · rename_i w here
    exact ⟨w, here⟩
  · cases reads

theorem digitValue_digitChar {n : Nat} (below : n < 10) : digitValue n.digitChar = n :=
  Nat.toNat_digitChar_sub_48_of_lt_ten below

theorem valueOfDigits_append_singleton (ds : List Char) (c : Char) :
    valueOfDigits (ds ++ [c]) = valueOfDigits ds * 10 + digitValue c := by
  simp [valueOfDigits]

theorem isDigit_eq (c : Char) : isDigit c = c.isDigit := by
  rw [Bool.eq_iff_iff]
  simp [isDigit, Char.isDigit, Char.le_def]

theorem isDigit_of_mem_toDigits (n : Nat) : ∀ c ∈ Nat.toDigits 10 n, isDigit c = true :=
  fun c member => isDigit_eq c ▸ Nat.isDigit_of_mem_toDigits (by decide) (by decide) member

theorem valueOfDigits_toDigits (n : Nat) : valueOfDigits (Nat.toDigits 10 n) = n := by
  induction n using Nat.strongRecOn with
  | ind n ih =>
      by_cases small : n < 10
      · rw [Nat.toDigits_of_lt_base small]
        simp [valueOfDigits, digitValue_digitChar small]
      · have last : n % 10 < 10 := Nat.mod_lt n (by omega)
        rw [Nat.toDigits_of_base_le (by omega) (by omega), valueOfDigits_append_singleton,
          ih (n / 10) (by omega), digitValue_digitChar last]
        omega

/-- Only the digits of zero begin with a zero. -/
theorem eq_zero_of_head?_toDigits {n : Nat} (zero : (Nat.toDigits 10 n).head? = some '0') :
    n = 0 := by
  induction n using Nat.strongRecOn with
  | ind n ih =>
      by_cases small : n < 10
      · rw [Nat.toDigits_of_lt_base small] at zero
        simpa using zero
      · rw [Nat.toDigits_of_base_le (by omega) (by omega)] at zero
        obtain ⟨d, ds, here⟩ : ∃ d ds, Nat.toDigits 10 (n / 10) = d :: ds :=
          List.exists_cons_of_ne_nil Nat.toDigits_ne_nil
        have tens : n / 10 = 0 := ih (n / 10) (by omega) (by rw [here] at zero ⊢; exact zero)
        omega

theorem length_of_head?_toDigits {n : Nat} (zero : (Nat.toDigits 10 n).head? = some '0') :
    (Nat.toDigits 10 n).length = 1 := by
  obtain rfl := eq_zero_of_head?_toDigits zero
  rfl

/-- The digits of a natural number are read as that number. -/
theorem natural?_toString {bound n : Nat} (below : n < bound) :
    natural? bound (toString n) = some n := by
  have accepted : ((Nat.toDigits 10 n).isEmpty || !(Nat.toDigits 10 n).all isDigit ||
      ((Nat.toDigits 10 n).head? == some '0' && (Nat.toDigits 10 n).length != 1)) = false := by
    rw [List.all_eq_true.mpr (isDigit_of_mem_toDigits n), Bool.not_true, Bool.or_false]
    exact isEmpty_or_zero_eq_false_iff.mpr ⟨Nat.toDigits_ne_nil, length_of_head?_toDigits⟩
  simp only [natural?, Nat.toString_eq_ofList_toDigits, String.toList_ofList, accepted,
    valueOfDigits_toDigits, Bool.false_eq_true, if_false, if_pos below]

theorem exists_split?_toString (n : Nat) : ∃ w, split? (toString n).toList = some (w, []) := by
  let w : Written := ⟨false, Nat.toDigits 10 n, [], none⟩
  have formed : w.Formed :=
    { nonempty := Nat.toDigits_ne_nil
      whole := isDigit_of_mem_toDigits n
      zero := length_of_head?_toDigits
      fraction := fun _ member => nomatch member
      power := fun _ _ none => nomatch none }
  have same : w.chars = (toString n).toList := by
    simp [w, Written.chars]
  have split := split?_chars formed ends_nil
  rw [List.append_nil, same] at split
  exact ⟨w, split⟩

end CallFlow.Number
