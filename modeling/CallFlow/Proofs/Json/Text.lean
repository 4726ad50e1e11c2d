import Mathlib.Tactic.SplitIfs
import CallFlow.Json.Reader
import CallFlow.Json.Writer
import CallFlow.Proofs.Json.Numeral

/-! Values in a text: the text of a value is read as that value, if its leaves are spelled as JSON
spells them. -/

namespace CallFlow.Json

section Strings

variable {c : Char} {cs rest done : List Char}

theorem hex4?_control :
    ∀ n < 0x20, hex4? '0' '0' (hexDigit (n / 16)) (hexDigit (n % 16)) = some n := by
  decide

/-- How the character of a string is spelled: by a letter behind a backslash, by its code, or as it
is. -/
inductive Spells : Char → List Char → Prop
  | letter {c l : Char} : namedEscape? l = some c → Spells c ['\\', l]
  | code {c : Char} : c.toNat < 0x20 →
      Spells c ['\\', 'u', '0', '0', hexDigit (c.toNat / 16), hexDigit (c.toNat % 16)]
  | plain {c : Char} : c ≠ '"' → c ≠ '\\' → ¬ c.toNat < 0x20 → Spells c [c]

theorem toNat_injective {c d : Char} (same : c.toNat = d.toNat) : c = d :=
  Char.ext (UInt32.toNat_inj.mp same)

theorem spells_escapeChar (c : Char) : Spells c (escapeChar c) := by
  unfold escapeChar
  split_ifs with quote backslash line ret tab backspace feed control
  · subst quote
    exact .letter rfl
  · subst backslash
    exact .letter rfl
  · subst line
    exact .letter rfl
  · subst ret
    exact .letter rfl
  · subst tab
    exact .letter rfl
  · obtain rfl : c = '\x08' := toNat_injective backspace
    exact .letter rfl
  · obtain rfl : c = '\x0c' := toNat_injective feed
    exact .letter rfl
  · exact .code control
  · exact .plain quote backslash control

/-- No letter behind a backslash announces a code. -/
theorem ne_u_of_namedEscape? {l : Char} (named : namedEscape? l = some c) : l ≠ 'u' := by
  rintro rfl
  cases named

theorem Spells.stringBody {written : List Char} (spells : Spells c written)
    (done rest : List Char) :
    stringBody done (written ++ rest) = stringBody (written.reverse ++ done) rest := by
  cases spells with
  | letter named =>
      simp [Json.stringBody, ne_u_of_namedEscape? named, named]
  | code control =>
      simp [Json.stringBody, hex4?_control _ control]
  | plain quote backslash control =>
      simp [Json.stringBody, backslash, control]

theorem Spells.unescapeFrom {written : List Char} (spells : Spells c written)
    (done rest : List Char) :
    unescapeFrom done (written ++ rest) = unescapeFrom (c :: done) rest := by
  cases spells with
  | letter named =>
      simp [Json.unescapeFrom, ne_u_of_namedEscape? named, named]
  | code control =>
      have trailing : isTrailing c.toNat = false := by
        simp only [isTrailing, Bool.and_eq_false_iff, decide_eq_false_iff_not]
        omega
      have leading : isLeading c.toNat = false := by
        simp only [isLeading, Bool.and_eq_false_iff, decide_eq_false_iff_not]
        omega
      simp [Json.unescapeFrom, hex4?_control _ control, trailing, leading]
  | plain quote backslash control =>
      simp [Json.unescapeFrom, backslash]

/-- The characters between the quotes are those up to the closing quote. -/
theorem stringBody_escape (done cs rest : List Char) :
    stringBody done (escape cs ++ '"' :: rest) = some (done.reverse ++ escape cs, rest) := by
  induction cs generalizing done with
  | nil => simp [escape, stringBody]
  | cons c cs ih =>
      have here := (spells_escapeChar c).stringBody done (escape cs ++ '"' :: rest)
      simp only [escape, List.flatMap_cons, List.append_assoc] at here ih ⊢
      rw [here, ih]
      simp

/-- The characters between the quotes stand for the text that they were made of. -/
theorem unescape?_escape (cs : List Char) : unescape? (escape cs) = some cs := by
  have from_ : ∀ done, unescapeFrom done (escape cs) = some (done.reverse ++ cs) := by
    induction cs with
    | nil => simp [escape, unescapeFrom]
    | cons c cs ih =>
        intro done
        have here := (spells_escapeChar c).unescapeFrom done (escape cs)
        simp only [escape, List.flatMap_cons] at here ih ⊢
        rw [here, ih]
        simp
  exact from_ []

end Strings

mutual

/-- The numbers of a value are numbers, and its strings and names are spelled as JSON spells
them. -/
def Spelled : Json → Prop
  | .null | .bool _ => True
  | .number written => ∃ w, Number.split? written.toList = some (w, [])
  | .string written => ∃ cs, written.toList = escape cs
  | .array items => AllSpelled items
  | .object members => MembersSpelled members

def AllSpelled : List Json → Prop
  | [] => True
  | j :: rest => j.Spelled ∧ AllSpelled rest

def MembersSpelled : List (String × Json) → Prop
  | [] => True
  | (name, j) :: rest => (∃ cs, name.toList = escape cs) ∧ j.Spelled ∧ MembersSpelled rest

end

section Values

variable {j : Json} {rest : List Char} {fuel : Nat}

theorem skipBlanks_cons {c : Char} (s : List Char) (solid : isBlank c = false) :
    skipBlanks (c :: s) = c :: s := by
  simp [skipBlanks, solid]

/-- No blank comes before a text that begins with something else. -/
theorem skipBlanks_append {c : Char} {s s' : List Char} (head : s = c :: s')
    (solid : isBlank c = false) (r : List Char) : skipBlanks (s ++ r) = s ++ r := by
  rw [head]
  exact skipBlanks_cons (s' ++ r) solid

/-- No character that a number begins with means anything else. -/
theorem ne_of_isDigit {c d : Char} (begins : Number.isDigit c = true ∨ c = '-')
    (other : Number.isDigit d = false ∧ d ≠ '-') : c ≠ d := by
  rintro rfl
  exact begins.elim (fun digit => absurd digit (by simp [other.1])) other.2

theorem isBlank_of_isDigit {c : Char} (begins : Number.isDigit c = true ∨ c = '-') :
    isBlank c = false := by
  have space := ne_of_isDigit begins (by decide : Number.isDigit ' ' = false ∧ ' ' ≠ '-')
  have tab := ne_of_isDigit begins (by decide : Number.isDigit '\t' = false ∧ '\t' ≠ '-')
  have line := ne_of_isDigit begins (by decide : Number.isDigit '\n' = false ∧ '\n' ≠ '-')
  have ret := ne_of_isDigit begins (by decide : Number.isDigit '\r' = false ∧ '\r' ≠ '-')
  simp [isBlank, space, tab, line, ret]

theorem escapeChar_of_isDigit {c : Char} (digit : Number.isDigit c = true) :
    escapeChar c = [c] := by
  have low : 48 ≤ c.toNat :=
    UInt32.le_iff_toNat_le.mp (of_decide_eq_true (Bool.and_eq_true_iff.mp digit).1)
  have letter {d : Char} (other : Number.isDigit d = false ∧ d ≠ '-') : c ≠ d :=
    ne_of_isDigit (.inl digit) other
  have backspace : c.toNat ≠ 8 := by omega
  have feed : c.toNat ≠ 12 := by omega
  have plain : ¬ c.toNat < 0x20 := by omega
  simp [escapeChar, letter (d := '"') (by decide), letter (d := '\\') (by decide),
    letter (d := '\n') (by decide), letter (d := '\r') (by decide), letter (d := '\t') (by decide),
    backspace, feed, plain]

/-- Digits are spelled as they are. -/
theorem escape_of_isDigit {cs : List Char} (digits : ∀ c ∈ cs, Number.isDigit c = true) :
    escape cs = cs := by
  induction cs with
  | nil => rfl
  | cons c cs ih =>
      have here := escapeChar_of_isDigit (digits c List.mem_cons_self)
      have later := ih fun d member => digits d (List.mem_cons_of_mem c member)
      rw [escape] at later ⊢
      rw [List.flatMap_cons, here, later]
      rfl

/-- A value begins with a character that is no blank and does not close an array. -/
theorem Spelled.head (spelled : j.Spelled) :
    ∃ c s, j.chars = c :: s ∧ isBlank c = false ∧ c ≠ ']' := by
  cases j with
  | null => exact ⟨_, _, rfl, by decide, by decide⟩
  | bool b => cases b <;> exact ⟨_, _, rfl, by decide, by decide⟩
  | string written => exact ⟨_, _, rfl, by decide, by decide⟩
  | array items => exact ⟨_, _, rfl, by decide, by decide⟩
  | object members => exact ⟨_, _, rfl, by decide, by decide⟩
  | number written =>
      obtain ⟨w, split⟩ := spelled
      obtain ⟨c, first, begins⟩ := Number.head?_of_split? split
      obtain ⟨s, same⟩ := List.head?_eq_some_iff.mp first
      exact ⟨c, s, same, isBlank_of_isDigit begins, ne_of_isDigit begins (by decide)⟩

theorem Spelled.length_pos (spelled : j.Spelled) : 0 < j.chars.length := by
  obtain ⟨c, s, same, -⟩ := spelled.head
  rw [same]
  exact Nat.zero_lt_succ _

theorem ends_cons {c : Char} (s : List Char)
    (other : Number.isDigit c = false ∧ c ≠ '.' ∧ c ≠ 'e' ∧ c ≠ 'E') : Number.Ends (c :: s) := by
  rintro d first
  obtain rfl : c = d := by simpa using first
  exact other

/-- With some fuel the texts of values are read, and of the items and members that are left of
one. -/
structure Reads (fuel : Nat) : Prop where
  value : ∀ {j rest}, Spelled j → Number.Ends rest → 2 * j.chars.length ≤ fuel →
    Json.value fuel (j.chars ++ rest) = some (j, rest)
  items : ∀ {j js done rest}, AllSpelled (j :: js) →
    2 * (separated (itemChars (j :: js))).length + 1 ≤ fuel →
    Json.items fuel done (separated (itemChars (j :: js)) ++ ']' :: rest) =
      some (Json.array (done.reverse ++ j :: js), rest)
  members : ∀ {m ms done rest}, MembersSpelled (m :: ms) →
    2 * (separated (memberChars (m :: ms))).length + 1 ≤ fuel →
    Json.members fuel done (separated (memberChars (m :: ms)) ++ '\x7d' :: rest) =
      some (Json.object (done.reverse ++ m :: ms), rest)

theorem value_number (written : String) {w : Number.Written}
    (split : Number.split? written.toList = some (w, [])) (ends : Number.Ends rest) :
    Json.value (fuel + 1) (written.toList ++ rest) = some (.number written, rest) := by
  obtain ⟨same, again⟩ := Number.split?_append split ends
  obtain ⟨c, first, begins⟩ := Number.head?_of_split? split
  obtain ⟨s, here⟩ := List.head?_eq_some_iff.mp first
  have quote : c ≠ '"' := ne_of_isDigit begins (by decide)
  have bracket : c ≠ '[' := ne_of_isDigit begins (by decide)
  have brace : c ≠ '\x7b' := ne_of_isDigit begins (by decide)
  have true_ : c ≠ 't' := ne_of_isDigit begins (by decide)
  have false_ : c ≠ 'f' := ne_of_isDigit begins (by decide)
  have null : c ≠ 'n' := ne_of_isDigit begins (by decide)
  rw [here, List.cons_append] at again ⊢
  simp [Json.value, again, ← same]

theorem value_string {written : String} {cs : List Char} (escaped : written.toList = escape cs) :
    Json.value (fuel + 1) ((Json.string written).chars ++ rest) = some (.string written, rest) := by
  have body := stringBody_escape [] cs rest
  rw [← escaped, List.reverse_nil, List.nil_append] at body
  simp [chars, Json.value, body]

theorem separated_itemChars (j j' : Json) (js : List Json) :
    separated (itemChars (j :: j' :: js)) =
      j.chars ++ ',' :: separated (itemChars (j' :: js)) := rfl

theorem exists_separated_itemChars {js : List Json} (spelled : AllSpelled (j :: js)) :
    ∃ c s, separated (itemChars (j :: js)) = c :: s ∧ isBlank c = false ∧ c ≠ ']' := by
  obtain ⟨c, s, head, solid, other⟩ := spelled.1.head
  cases js with
  | nil => exact ⟨c, s, head, solid, other⟩
  | cons j' js =>
      rw [separated_itemChars, head]
      exact ⟨c, _, rfl, solid, other⟩

/-- After an item comes the closing bracket, or a comma and the other items. -/
theorem Reads.items_succ (reads : Reads fuel) {js done : List Json} (spelled : AllSpelled (j :: js))
    (enough : 2 * (separated (itemChars (j :: js))).length + 1 ≤ fuel + 1) :
    Json.items (fuel + 1) done (separated (itemChars (j :: js)) ++ ']' :: rest) =
      some (.array (done.reverse ++ j :: js), rest) := by
  obtain ⟨first, others⟩ := spelled
  cases js with
  | nil =>
      have bound : 2 * j.chars.length ≤ fuel := Nat.le_of_succ_le_succ enough
      have closes : Number.Ends (']' :: rest) := ends_cons rest (by decide)
      have closing := skipBlanks_cons rest (by decide : isBlank ']' = false)
      simp only [itemChars, separated, Json.items, reads.value first closes bound, closing]
      simp
  | cons j' js =>
      obtain ⟨c, s, head, solid, -⟩ := exists_separated_itemChars others
      rw [separated_itemChars, List.length_append, List.length_cons] at enough
      have more : Number.Ends (',' :: (separated (itemChars (j' :: js)) ++ ']' :: rest)) :=
        ends_cons _ (by decide)
      have comma := skipBlanks_cons (separated (itemChars (j' :: js)) ++ ']' :: rest)
        (by decide : isBlank ',' = false)
      have next := skipBlanks_append head solid (']' :: rest)
      have later : Json.items fuel (j :: done) (separated (itemChars (j' :: js)) ++ ']' :: rest) =
          some (.array ((j :: done).reverse ++ j' :: js), rest) := reads.items others (by omega)
      rw [separated_itemChars, List.append_assoc, List.cons_append]
      simp only [Json.items, reads.value first more (by omega), comma, next, later]
      simp

theorem Reads.array (reads : Reads fuel) {js : List Json} (spelled : AllSpelled js)
    (enough : 2 * (Json.array js).chars.length ≤ fuel + 1) :
    Json.value (fuel + 1) ((Json.array js).chars ++ rest) = some (.array js, rest) := by
  cases js with
  | nil =>
      have closing := skipBlanks_cons rest (by decide : isBlank ']' = false)
      simp [chars, itemChars, separated, Json.value, closing]
  | cons j js =>
      obtain ⟨c, s, head, solid, other⟩ := exists_separated_itemChars spelled
      have bound : 2 * (separated (itemChars (j :: js))).length + 1 ≤ fuel := by
        simp only [chars, List.length_append, List.length_cons, List.length_nil] at enough
        omega
      have first : skipBlanks (separated (itemChars (j :: js)) ++ ']' :: rest) =
          c :: (s ++ ']' :: rest) := by
        rw [head]
        exact skipBlanks_cons _ solid
      have read : Json.items fuel [] (separated (itemChars (j :: js)) ++ ']' :: rest) =
          some (.array ([].reverse ++ j :: js), rest) := reads.items spelled bound
      rw [head, List.cons_append] at read
      simp [chars, Json.value, first, other, read]

theorem separated_memberChars (m m' : String × Json) (ms : List (String × Json)) :
    separated (memberChars (m :: m' :: ms)) =
      '"' :: m.1.toList ++ '"' :: ':' :: m.2.chars ++ ',' :: separated (memberChars (m' :: ms)) :=
  rfl

theorem exists_separated_memberChars (m : String × Json) (ms : List (String × Json)) :
    ∃ s, separated (memberChars (m :: ms)) = '"' :: s := by
  cases ms with
  | nil => exact ⟨_, rfl⟩
  | cons m' ms => exact ⟨_, rfl⟩

/-- After a member comes the closing brace, or a comma and the other members. -/
theorem Reads.members_succ (reads : Reads fuel) {m : String × Json} {ms done : List (String × Json)}
    (spelled : MembersSpelled (m :: ms))
    (enough : 2 * (separated (memberChars (m :: ms))).length + 1 ≤ fuel + 1) :
    Json.members (fuel + 1) done (separated (memberChars (m :: ms)) ++ '\x7d' :: rest) =
      some (.object (done.reverse ++ m :: ms), rest) := by
  obtain ⟨name, j⟩ := m
  obtain ⟨⟨cs, escaped⟩, first, others⟩ := spelled
  obtain ⟨c, s, head, solid, -⟩ := first.head
  have body (r : List Char) :
      stringBody [] (name.toList ++ '"' :: r) = some (name.toList, r) := by
    rw [escaped, stringBody_escape]
    rfl
  have colon (r : List Char) : skipBlanks (':' :: r) = ':' :: r := skipBlanks_cons r (by decide)
  have value := skipBlanks_append head solid
  cases ms with
  | nil =>
      have bound : 2 * j.chars.length ≤ fuel := by
        simp only [memberChars, separated, List.length_append, List.length_cons] at enough
        omega
      have closes : Number.Ends ('\x7d' :: rest) := ends_cons rest (by decide)
      have closing := skipBlanks_cons rest (by decide : isBlank '\x7d' = false)
      simp [memberChars, separated, Json.members, body, colon, value,
        reads.value first closes bound, closing]
  | cons m' ms =>
      obtain ⟨s', head'⟩ := exists_separated_memberChars m' ms
      rw [separated_memberChars] at enough
      simp only [List.length_append, List.length_cons] at enough
      have more : Number.Ends (',' :: (separated (memberChars (m' :: ms)) ++ '\x7d' :: rest)) :=
        ends_cons _ (by decide)
      have comma := skipBlanks_cons (separated (memberChars (m' :: ms)) ++ '\x7d' :: rest)
        (by decide : isBlank ',' = false)
      have next := skipBlanks_append head' (by decide) ('\x7d' :: rest)
      have later : Json.members fuel ((name, j) :: done)
          (separated (memberChars (m' :: ms)) ++ '\x7d' :: rest) =
          some (.object (((name, j) :: done).reverse ++ m' :: ms), rest) :=
        reads.members others (by omega)
      rw [separated_memberChars]
      simp only [List.append_assoc, List.cons_append, Json.members, body, colon, value,
        reads.value first more (by omega), comma, next, String.ofList_toList, later]
      simp

theorem Reads.object (reads : Reads fuel) {ms : List (String × Json)} (spelled : MembersSpelled ms)
    (enough : 2 * (Json.object ms).chars.length ≤ fuel + 1) :
    Json.value (fuel + 1) ((Json.object ms).chars ++ rest) = some (.object ms, rest) := by
  cases ms with
  | nil =>
      have closing := skipBlanks_cons rest (by decide : isBlank '\x7d' = false)
      simp [chars, memberChars, separated, Json.value, closing]
  | cons m ms =>
      obtain ⟨s, head⟩ := exists_separated_memberChars m ms
      have bound : 2 * (separated (memberChars (m :: ms))).length + 1 ≤ fuel := by
        simp only [chars, List.length_append, List.length_cons, List.length_nil] at enough
        omega
      have first : skipBlanks (separated (memberChars (m :: ms)) ++ '\x7d' :: rest) =
          '"' :: (s ++ '\x7d' :: rest) := by
        rw [head]
        exact skipBlanks_cons _ (by decide)
      have read : Json.members fuel [] (separated (memberChars (m :: ms)) ++ '\x7d' :: rest) =
          some (.object ([].reverse ++ m :: ms), rest) := reads.members spelled bound
      rw [head, List.cons_append] at read
      simp [chars, Json.value, first, read]

theorem Reads.value_succ (reads : Reads fuel) (spelled : j.Spelled) (ends : Number.Ends rest)
    (enough : 2 * j.chars.length ≤ fuel + 1) :
    Json.value (fuel + 1) (j.chars ++ rest) = some (j, rest) := by
  cases j with
  | null => simp [chars, Json.value, afterWord?]
  | bool b => cases b <;> simp [chars, Json.value, afterWord?]
  | number written =>
      obtain ⟨w, split⟩ := spelled
      exact value_number written split ends
  | string written =>
      obtain ⟨cs, escaped⟩ := spelled
      exact value_string escaped
  | array js => exact reads.array spelled enough
  | object ms => exact reads.object spelled enough

theorem reads (fuel : Nat) : Reads fuel := by
  -- on the fuel, since the reader passes it to values, items and members alike
  induction fuel with
  | zero =>
      refine ⟨fun spelled _ enough => ?_, fun _ enough => ?_, fun _ enough => ?_⟩
      · have := spelled.length_pos
        omega
      · omega
      · omega
  | succ fuel ih => exact ⟨ih.value_succ, ih.items_succ, ih.members_succ⟩

/-- The text of a value is read as that value. -/
theorem parse?_render (spelled : j.Spelled) : parse? j.render = some j := by
  obtain ⟨c, s, head, solid, -⟩ := spelled.head
  have start := skipBlanks_append head solid []
  have read : Json.value (2 * j.chars.length + 2) (j.chars ++ []) = some (j, []) :=
    (reads _).value spelled Number.ends_nil (by omega)
  have none : skipBlanks [] = [] := rfl
  rw [List.append_nil] at start read
  simp [parse?, render, start, read, none]

end Values

end CallFlow.Json
