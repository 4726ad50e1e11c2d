import Mathlib.Data.List.TakeWhile
import CallFlow.Yaml.Reader

/-! The tokens of plain lines: a word, a colon, and a second word or a deeper mapping. A line adds
the tokens of its words to whatever was read by then, so that a text is read by putting its lines
together. -/

namespace CallFlow.Yaml

/-- A word made of the characters of names, without a hyphen in front. -/
structure IsWord (w : List Char) : Prop where
  nonempty : w ≠ []
  names : ∀ c ∈ w, isNameChar c = true
  head : w.head? ≠ some '-'

theorem isWord_iff {w : List Char} :
    IsWord w ↔ w ≠ [] ∧ w.all isNameChar = true ∧ w.head? ≠ some '-' :=
  ⟨fun word => ⟨word.nonempty, List.all_eq_true.mpr word.names, word.head⟩,
    fun ⟨filled, names, head⟩ => ⟨filled, List.all_eq_true.mp names, head⟩⟩

instance (w : List Char) : Decidable (IsWord w) := decidable_of_iff _ isWord_iff.symm

/-- What may stand at the start of a line behind its spaces: nothing, or a word. -/
def Opens (r : List Char) : Prop := ∀ x ∈ r.head?, isNameChar x = true

theorem ne_of_isNameChar {x y : Char} (name : isNameChar x = true) (sign : isNameChar y = false) :
    x ≠ y := by
  rintro rfl
  rw [name] at sign
  cases sign

theorem isGap_of_isNameChar {x : Char} (name : isNameChar x = true) : isGap x = false := by
  simp [isGap, isBlank, ne_of_isNameChar name (y := ' ') (by decide),
    ne_of_isNameChar name (y := '\t') (by decide), ne_of_isNameChar name (y := '\n') (by decide)]

namespace Cursor

variable {r w : List Char} {i l c : Nat}

theorem drop_append (line : '\n' ∉ w) :
    (Cursor.mk (w ++ r) i l c).drop w.length = ⟨r, i + w.length, l, c + w.length⟩ := by
  induction w generalizing i c with
  | nil => rfl
  | cons x w ih =>
      have other : x ≠ '\n' := fun same => line (same ▸ List.mem_cons_self)
      have rest : '\n' ∉ w := fun member => line (List.mem_cons_of_mem x member)
      rw [List.length_cons, drop, next, List.cons_append]
      simp only [other, if_false]
      rw [ih rest]
      congr 1 <;> omega

theorem span_append {kind : Char → Bool} (all : ∀ x ∈ w, kind x = true)
    (other : ∀ x ∈ r.head?, kind x = false) :
    (Cursor.mk (w ++ r) i l c).span kind = (w, (Cursor.mk (w ++ r) i l c).drop w.length) := by
  have taken : (w ++ r).takeWhile kind = w := by
    rw [List.takeWhile_append_of_pos all]
    cases r with
    | nil => simp
    | cons x r => simp [other x rfl]
  simp only [span, taken]

theorem skipSpace_space (fuel : Nat) (keyAllowed : Bool) :
    (Cursor.mk (' ' :: r) i l c).skipSpace false (fuel + 1) keyAllowed =
      (Cursor.mk r (i + 1) l (c + 1)).skipSpace false fuel keyAllowed := rfl

theorem skipSpace_ending (fuel : Nat) (keyAllowed : Bool) :
    (Cursor.mk ('\n' :: r) i l c).skipSpace false (fuel + 1) keyAllowed =
      (Cursor.mk r (i + 1) (l + 1) 0).skipSpace false fuel true := by
  cases keyAllowed <;> rfl

theorem skipSpace_spaces (fuel n : Nat) (keyAllowed : Bool) :
    (Cursor.mk (List.replicate n ' ' ++ r) i l c).skipSpace false (fuel + n) keyAllowed =
      (Cursor.mk r (i + n) l (c + n)).skipSpace false fuel keyAllowed := by
  induction n generalizing i c with
  | zero => rfl
  | succ n ih =>
      rw [← Nat.add_assoc, List.replicate_succ, List.cons_append, skipSpace_space, ih]
      congr 2 <;> omega

theorem skipSpace_of_opens (opens : Opens r) (fuel : Nat) (keyAllowed : Bool) :
    (Cursor.mk r i l c).skipSpace false fuel keyAllowed = (keyAllowed, Cursor.mk r i l c) := by
  cases fuel with
  | zero => rfl
  | succ fuel =>
      cases r with
      | nil => rfl
      | cons x r =>
          have name := opens x rfl
          simp [skipSpace, ne_of_isNameChar name (y := '\n') (by decide),
            ne_of_isNameChar name (y := ' ') (by decide),
            ne_of_isNameChar name (y := '\t') (by decide),
            ne_of_isNameChar name (y := '\ufeff') (by decide),
            ne_of_isNameChar name (y := '#') (by decide)]

theorem span_line (opens : Opens r) (n : Nat) :
    (Cursor.mk ('\n' :: (List.replicate n ' ' ++ r)) i l c).span isGap =
      ('\n' :: List.replicate n ' ', Cursor.mk r (i + 1 + n) (l + 1) n) := by
  have gaps : ∀ x ∈ '\n' :: List.replicate n ' ', isGap x = true := by
    intro x member
    rcases List.mem_cons.mp member with rfl | space
    · rfl
    · rw [List.eq_of_mem_replicate space]
      rfl
  have taken := span_append (i := i) (l := l) (c := c) gaps
    fun x first => isGap_of_isNameChar (opens x first)
  have spaces : '\n' ∉ List.replicate n ' ' := fun member =>
    absurd (List.eq_of_mem_replicate member) (by decide)
  have after := drop_append (r := r) (i := i + 1) (l := l + 1) (c := 0) spaces
  rw [List.length_replicate, Nat.zero_add] at after
  rw [List.cons_append] at taken
  rw [taken, List.length_cons, List.length_replicate]
  exact congrArg _ after

theorem skipSpace_margin (opens : Opens r) (n : Nat) (keyAllowed : Bool) :
    (Cursor.mk (List.replicate n ' ' ++ r) i l c).skipSpace false (List.replicate n ' ' ++ r).length
        keyAllowed = (keyAllowed, Cursor.mk r (i + n) l (c + n)) := by
  have room : (List.replicate n ' ' ++ r).length = r.length + n := by
    simp [Nat.add_comm]
  rw [room, skipSpace_spaces, skipSpace_of_opens opens]

end Cursor

section Words

variable {r w : List Char} {i l c : Nat}

theorem plainWord?_append (names : ∀ x ∈ w, isNameChar x = true)
    (stops : plainWord? false r = some []) : plainWord? false (w ++ r) = some w := by
  induction w with
  | nil => exact stops
  | cons x w ih =>
      have name := names x List.mem_cons_self
      have rest := ih fun y member => names y (List.mem_cons_of_mem x member)
      simp [plainWord?, isGap_of_isNameChar name, ne_of_isNameChar name (y := ':') (by decide),
        rest]

theorem IsWord.exists_cons (word : IsWord w) :
    ∃ x v, w = x :: v ∧ isNameChar x = true ∧ x ≠ '-' := by
  cases w with
  | nil => exact absurd rfl word.nonempty
  | cons x v =>
      exact ⟨x, v, rfl, word.names x List.mem_cons_self, fun same => word.head (congrArg some same)⟩

theorem IsWord.opens (word : IsWord w) (r : List Char) : Opens (w ++ r) := by
  obtain ⟨x, v, rfl, name, -⟩ := word.exists_cons
  intro y first
  cases first
  exact name

theorem IsWord.notMem_ending (word : IsWord w) : '\n' ∉ w :=
  fun member => ne_of_isNameChar (word.names _ member) (by decide) rfl

theorem tabInMargin_spaces (margin k n : Nat) :
    tabInMargin margin (some k) (List.replicate n ' ') = false := by
  induction n generalizing k with
  | zero => rfl
  | succ n ih => simp [List.replicate_succ, tabInMargin, ih]

/-- A word before a colon is read as a scalar that ends in its line. -/
theorem plain?_key (word : IsWord w) (blank : startsBlank r = true) (margin : Nat) :
    plain? false margin ⟨w ++ ':' :: r, i, l, c⟩ =
      some (w, false, ⟨':' :: r, i + w.length, l, c + w.length⟩) := by
  have stops : plainWord? false (':' :: r) = some [] := by
    simp [plainWord?, isGap, isBlank, blank]
  have nothing : (Cursor.mk (':' :: r) (i + w.length) l (c + w.length)).span isGap =
      ([], ⟨':' :: r, i + w.length, l, c + w.length⟩) :=
    Cursor.span_append (w := []) (fun x member => nomatch member) (by simp [isGap, isBlank])
  unfold plain? plainRest?
  simp only [plainWord?_append word.names stops]
  cases w with
  | nil => exact absurd rfl word.nonempty
  | cons x w =>
      simp only [Cursor.drop_append word.notMem_ending, nothing]
      simp [tabInMargin, foldGap]

/-- A word at the end of its line is read as a scalar, up to the word that the next line starts with
left of the margin. -/
theorem plain?_value (word : IsWord w) (opens : Opens r) {n margin : Nat} (left : n < margin) :
    plain? false margin ⟨w ++ '\n' :: (List.replicate n ' ' ++ r), i, l, c⟩ =
      some (w, true, ⟨r, i + w.length + 1 + n, l + 1, n⟩) := by
  have stops : plainWord? false ('\n' :: (List.replicate n ' ' ++ r)) = some [] := rfl
  have gap : (Cursor.mk ('\n' :: (List.replicate n ' ' ++ r)) (i + w.length) l
      (c + w.length)).span isGap =
        ('\n' :: List.replicate n ' ', ⟨r, i + w.length + 1 + n, l + 1, n⟩) :=
    Cursor.span_line opens n
  have spaces : tabInMargin margin none ('\n' :: List.replicate n ' ') = false :=
    tabInMargin_spaces margin 0 n
  unfold plain? plainRest?
  simp only [plainWord?_append word.names stops]
  cases w with
  | nil => exact absurd rfl word.nonempty
  | cons x w =>
      simp only [Cursor.drop_append word.notMem_ending, gap, spaces]
      simp [foldGap, left]

end Words

namespace Layout

/-- A layout outside of braces, where nothing that was read could still be a key. -/
def place (rest : List Char) (i l c : Nat) (tokens : List Token) (indents : List Nat)
    (keyAllowed : Bool) : Layout :=
  { cursor := ⟨rest, i, l, c⟩, tokens, indents, keyAllowed }

/-- One layout is read as another one is, with so many tokens less. -/
def GoesOn (n : Nat) (l l' : Layout) : Prop := ∀ fuel, l.run? (fuel + n) = l'.run? fuel

theorem GoesOn.trans {m n : Nat} {l l' l'' : Layout} (first : GoesOn m l l')
    (second : GoesOn n l' l'') : GoesOn (n + m) l l'' :=
  fun fuel => (Nat.add_assoc fuel n m ▸ first (fuel + n)).trans (second fuel)

theorem goesOn_token {l l' l'' : Layout} {x : Char} {r : List Char} (there : l.advance? = some l')
    (rest : l'.cursor.rest = x :: r) (token : l'.token? x r = some l'') : GoesOn 1 l l'' := by
  intro fuel
  rw [run?.eq_def]
  simp only [there, rest, token]

theorem run?_end {l l' : Layout} (there : l.advance? = some l') (rest : l'.cursor.rest = [])
    (fuel : Nat) : l.run? (fuel + 1) = l'.endAll?.map (·.tokens) := by
  rw [run?.eq_def]
  simp only [there, rest]

theorem goesOn_of_advance?_eq {l l' : Layout} (same : l.advance? = l'.advance?) :
    GoesOn 0 l l' := by
  intro fuel
  cases fuel with
  | zero => rfl
  | succ fuel =>
      rw [Nat.add_zero, run?.eq_def, same, ← run?.eq_def]

theorem unindent_eq_self {l : Layout} {stays : Nat → Bool}
    (inside : ∀ m ∈ l.indents.head?, stays m = true) : l.unindent stays = l := by
  unfold unindent
  split
  · rfl
  · cases l with
    | mk cursor tokens indents key outerKeys keyAllowed =>
        cases indents with
        | nil => simp
        | cons m ms => simp [inside m rfl]

theorem advance?_eq_some {l : Layout} {keyAllowed : Bool} {c : Cursor} (outside : l.outerKeys = [])
    (skipped : l.cursor.skipSpace false l.cursor.rest.length l.keyAllowed = (keyAllowed, c))
    (pending : stillPending? c l.key = some l.key) (inside : ∀ m ∈ l.indents.head?, m ≤ c.column) :
    l.advance? = some { l with cursor := c, keyAllowed } := by
  have flow : l.inFlow = false := by simp [inFlow, outside]
  have stays : ∀ m ∈ l.indents.head?, decide (m ≤ c.column) = true :=
    fun m first => decide_eq_true (inside m first)
  unfold advance?
  simp only [flow, skipped, pending, outside]
  exact congrArg some (unindent_eq_self stays)

section Steps

variable {r w : List Char} {ts : List Token} {ms : List Nat} {i l c : Nat} {keyAllowed : Bool}

/-- Where a word starts, a scalar without quotes is read. -/
theorem token?_word {L : Layout} {x : Char} (outside : L.outerKeys = [])
    (name : isNameChar x = true) (head : x ≠ '-') (rest : L.cursor.rest = x :: r) :
    L.token? x r = L.plainScalar? := by
  have flow : L.inFlow = false := by simp [inFlow, outside]
  have other {y : Char} (sign : isNameChar y = false) : (x = y) = False :=
    eq_false (ne_of_isNameChar name sign)
  have starts : startsPlain false (x :: r) = true := by
    simp (disch := decide) [startsPlain, head, isGap_of_isNameChar name, flowSigns, other]
  unfold token?
  simp (disch := decide) [Cursor.isMark, rest, flow, starts, head, other]

theorem token?_colon {L : Layout} (blank : startsBlank r = true) (rest : L.cursor.rest = ':' :: r) :
    L.token? ':' r = L.colon? := by
  unfold token?
  simp [Cursor.isMark, rest, blank]

/-- The mappings that are open behind a key, and the tokens that start the one it opens. -/
def opened (c : Nat) (ms : List Nat) : List Nat := if ms.head? = some c then ms else c :: ms

/-- The token before the first key of a mapping. -/
def openingTokens (c : Nat) (ms : List Nat) : List Token :=
  if ms.head? = some c then [] else [.blockStart]

theorem indent_place {k : Nat} (inside : ∀ m ∈ ms.head?, m ≤ k) (before behind : List Token) :
    (place r i l c (before ++ behind) ms keyAllowed).indent k before.length =
      place r i l c (before ++ openingTokens k ms ++ behind) (opened k ms) keyAllowed := by
  have flow : (place r i l c (before ++ behind) ms keyAllowed).inFlow = false := rfl
  unfold indent
  rw [flow]
  cases ms with
  | nil => simp [margin, place, opened, openingTokens]
  | cons m ms =>
      rcases Nat.eq_or_lt_of_le (inside m rfl) with rfl | deeper
      · have shallow : ¬ m + 1 ≤ m := Nat.not_succ_le_self m
        simp only [margin, place, opened, openingTokens, shallow]
        simp
      · simp [margin, place, opened, openingTokens, Nat.succ_le_of_lt deeper, Nat.ne_of_lt deeper]

/-- The layout between a word and the colon behind it. -/
def beforeColon (w r : List Char) (i l c : Nat) (ts : List Token) (ms : List Nat) : Layout :=
  { place (':' :: r) (i + w.length) l (c + w.length) (ts ++ [.scalar (String.ofList w) .plain]) ms
      false with
    key := some (place (w ++ ':' :: r) i l c ts ms true).keyHere }

theorem plainScalar?_key (word : IsWord w) (blank : startsBlank r = true) :
    (place (w ++ ':' :: r) i l c ts ms true).plainScalar? = some (beforeColon w r i l c ts ms) := by
  have read := plain?_key (i := i) (l := l) (c := c) word blank
    (place (w ++ ':' :: r) i l c ts ms true).margin
  unfold plainScalar?
  simp only [saveKey?, dropKey?, place, margin, inFlow] at read ⊢
  simp [read, beforeColon, place, push]

theorem colon?_beforeColon (inside : ∀ m ∈ ms.head?, m ≤ c) :
    (beforeColon w r i l c ts ms).colon? =
      some (place r (i + w.length + 1) l (c + w.length + 1)
        (ts ++ openingTokens c ms ++ [.key, .scalar (String.ofList w) .plain, .value]) (opened c ms)
        false) := by
  let scalar : Token := .scalar (String.ofList w) .plain
  have start :
      (place (':' :: r) (i + w.length) l (c + w.length) (ts ++ [.key, scalar]) ms false).indent c
        ts.length = place (':' :: r) (i + w.length) l (c + w.length)
        (ts ++ openingTokens c ms ++ [.key, scalar]) (opened c ms) false :=
    indent_place inside ts [.key, scalar]
  have taken : (ts ++ [scalar]).take ts.length ++ Token.key :: (ts ++ [scalar]).drop ts.length =
      ts ++ [.key, scalar] := by
    simp
  change (fun L : Layout => some (L.push .value L.cursor.next)) ((place (':' :: r) (i + w.length) l
    (c + w.length) ((ts ++ [scalar]).take ts.length ++ Token.key :: (ts ++ [scalar]).drop ts.length)
    ms false).indent c ts.length) = _
  rw [taken, start]
  simp [push, place, Cursor.next, scalar]

/-- A word before a colon and the colon: the word is a key, the first one of a mapping if it is
deeper than the mapping around it. -/
theorem goesOn_key (word : IsWord w) (short : w.length ≤ 1024) (blank : startsBlank r = true)
    (inside : ∀ m ∈ ms.head?, m ≤ c) :
    GoesOn 2 (place (w ++ ':' :: r) i l c ts ms true)
      (place r (i + w.length + 1) l (c + w.length + 1)
        (ts ++ openingTokens c ms ++ [.key, .scalar (String.ofList w) .plain, .value]) (opened c ms)
        false) := by
  obtain ⟨x, v, split, name, head⟩ := word.exists_cons
  have first : (place (w ++ ':' :: r) i l c ts ms true).advance? =
      some (place (w ++ ':' :: r) i l c ts ms true) :=
    advance?_eq_some rfl (Cursor.skipSpace_of_opens (word.opens _) _ _) rfl inside
  have token : (place (w ++ ':' :: r) i l c ts ms true).token? x (v ++ ':' :: r) =
      some (beforeColon w r i l c ts ms) :=
    (token?_word rfl name head (by simp [place, split])).trans (plainScalar?_key word blank)
  have second : (beforeColon w r i l c ts ms).advance? = some (beforeColon w r i l c ts ms) := by
    refine advance?_eq_some rfl rfl ?_ fun m member =>
      Nat.le_trans (inside m member) (Nat.le_add_right _ _)
    simp [stillPending?, beforeColon, keyHere, place]
    omega
  exact (goesOn_token first (by simp [place, split]) token).trans
    (goesOn_token second rfl ((token?_colon blank rfl).trans (colon?_beforeColon inside)))

/-- A word behind a colon at the end of a line. -/
theorem goesOn_value (word : IsWord w) (opens : Opens r) {n m : Nat} (left : n ≤ m)
    (inside : m ≤ c) :
    GoesOn 1 (place (' ' :: (w ++ '\n' :: (List.replicate n ' ' ++ r))) i l c ts (m :: ms) false)
      (place r (i + 1 + w.length + 1 + n) (l + 1) n (ts ++ [.scalar (String.ofList w) .plain])
        (m :: ms) true) := by
  obtain ⟨x, v, split, name, head⟩ := word.exists_cons
  have there : (place (' ' :: (w ++ '\n' :: (List.replicate n ' ' ++ r))) i l c ts (m :: ms)
      false).advance? = some (place (w ++ '\n' :: (List.replicate n ' ' ++ r)) (i + 1) l (c + 1) ts
        (m :: ms) false) :=
    advance?_eq_some rfl
      ((Cursor.skipSpace_space _ _).trans (Cursor.skipSpace_of_opens (word.opens _) _ _)) rfl
      fun k first => by cases first; exact Nat.le_succ_of_le inside
  have read := plain?_value (i := i + 1) (l := l) (c := c + 1) word opens (Nat.lt_succ_of_le left)
  have token : (place (w ++ '\n' :: (List.replicate n ' ' ++ r)) (i + 1) l (c + 1) ts (m :: ms)
      false).plainScalar? = some (place r (i + 1 + w.length + 1 + n) (l + 1) n
        (ts ++ [.scalar (String.ofList w) .plain]) (m :: ms) true) := by
    simp only [plainScalar?, saveKey?, place, margin, inFlow]
    simp [read, push]
  have rest : (place (w ++ '\n' :: (List.replicate n ' ' ++ r)) (i + 1) l (c + 1) ts (m :: ms)
      false).cursor.rest = x :: (v ++ '\n' :: (List.replicate n ' ' ++ r)) := by
    simp [place, split]
  exact goesOn_token there rest ((token?_word rfl name head rest).trans token)

/-- At the start of a line it does not matter whether its spaces have been passed over. -/
theorem goesOn_margin (opens : Opens r) (n : Nat) :
    GoesOn 0 (place r (i + n) l (c + n) ts ms keyAllowed)
      (place (List.replicate n ' ' ++ r) i l c ts ms keyAllowed) := by
  refine goesOn_of_advance?_eq ?_
  unfold advance?
  simp only [place, inFlow, Cursor.skipSpace_margin opens, Cursor.skipSpace_of_opens opens,
    List.isEmpty_nil, Bool.not_true]

/-- At the end of a line nothing is read. -/
theorem goesOn_ending :
    GoesOn 0 (place ('\n' :: r) i l c ts ms keyAllowed) (place r (i + 1) (l + 1) 0 ts ms true) := by
  refine goesOn_of_advance?_eq ?_
  unfold advance?
  simp only [place, inFlow, List.isEmpty_nil, Bool.not_true, List.length_cons,
    Cursor.skipSpace_ending]

theorem exists_opened_eq (c : Nat) (ms : List Nat) : ∃ outer, opened c ms = c :: outer := by
  cases ms with
  | nil => exact ⟨[], rfl⟩
  | cons m ms =>
      by_cases same : m = c
      · exact ⟨ms, by simp [opened, same]⟩
      · exact ⟨m :: ms, by simp [opened, same]⟩

end Steps

/-- A layout is read to the end of the text with these tokens, whatever fuel there is that suffices
for the text. -/
def Reads (L : Layout) (out : List Token) : Prop :=
  ∀ fuel, L.cursor.rest.length < fuel → L.run? fuel = some out

theorem GoesOn.reads {n : Nat} {L L' : Layout} {out : List Token} (goes : GoesOn n L L')
    (shorter : L'.cursor.rest.length + n ≤ L.cursor.rest.length) (read : L'.Reads out) :
    L.Reads out := by
  intro fuel room
  obtain ⟨fuel, rfl⟩ := Nat.exists_eq_add_of_le' (show n ≤ fuel by omega)
  rw [goes fuel]
  exact read fuel (by omega)

/-- The start of a line with no further than so many spaces in front of a word or the end. -/
def Margined (m : Nat) (text : List Char) : Prop :=
  ∃ n r, n ≤ m ∧ Opens r ∧ text = List.replicate n ' ' ++ r

/-- From the start of a line on, wherever the line is, the text adds tokens to those before it. -/
def LineReads (text : List Char) (ts : List Token) (ms : List Nat) (out : List Token) : Prop :=
  ∀ i l, (place text i l 0 ts ms true).Reads out

section Texts

variable {rest k v : List Char} {ts out : List Token} {ms : List Nat} {m : Nat}

theorem lineReads_nil : LineReads [] ts ms (ts ++ ms.map fun _ => .blockEnd) := by
  intro i l fuel room
  obtain ⟨fuel, rfl⟩ := Nat.exists_eq_add_of_le' (show 1 ≤ fuel from room)
  have there : (place [] i l 0 ts ms true).advance? =
      some ((place [] i l 0 ts ms true).unindent (· ≤ 0)) := rfl
  let deeper : Nat → Bool := fun column => !decide (column ≤ 0)
  have others : (ms.dropWhile deeper).takeWhile (fun _ => true) = ms.dropWhile deeper :=
    List.takeWhile_eq_self_iff.mpr fun _ _ => rfl
  refine (run?_end there rfl fuel).trans ?_
  change some (ts ++ (ms.takeWhile deeper).map (fun _ => Token.blockEnd) ++
    ((ms.dropWhile deeper).takeWhile fun _ => true).map fun _ => Token.blockEnd) = _
  rw [others, List.append_assoc, ← List.map_append, List.takeWhile_append_dropWhile]

/-- The spaces, the key and the colon of a line. -/
theorem reads_key {r : List Char} (key : IsWord k) (short : k.length ≤ 1024)
    (blank : startsBlank r = true) (inside : ∀ j ∈ ms.head?, j ≤ m)
    (read : ∀ i l c, m ≤ c → (place r i l c
      (ts ++ openingTokens m ms ++ [.key, .scalar (String.ofList k) .plain, .value]) (opened m ms)
      false).Reads out) :
    LineReads (List.replicate m ' ' ++ (k ++ ':' :: r)) ts ms out := by
  intro i l
  have start : GoesOn 0 (place (List.replicate m ' ' ++ (k ++ ':' :: r)) i l 0 ts ms true)
      (place (k ++ ':' :: r) (i + m) l (0 + m) ts ms true) :=
    fun fuel => (goesOn_margin (key.opens _) m fuel).symm
  have filled : 0 < k.length := List.length_pos_iff.mpr key.nonempty
  rw [Nat.zero_add] at start
  exact (start.trans (goesOn_key key short blank inside)).reads (by simp [place]; omega)
    (read _ _ _ (by omega))

/-- A line with a key and a word. -/
theorem lineReads_entry (key : IsWord k) (short : k.length ≤ 1024) (value : IsWord v)
    (margined : Margined m rest) (inside : ∀ j ∈ ms.head?, j ≤ m)
    (read : LineReads rest
      (ts ++ openingTokens m ms ++
        [.key, .scalar (String.ofList k) .plain, .value, .scalar (String.ofList v) .plain])
      (opened m ms) out) :
    LineReads (List.replicate m ' ' ++ (k ++ ':' :: ' ' :: (v ++ '\n' :: rest))) ts ms out := by
  refine reads_key key short rfl inside fun i l c deep => ?_
  obtain ⟨outer, own⟩ := exists_opened_eq m ms
  obtain ⟨n, r, left, opens, rfl⟩ := margined
  rw [own] at read ⊢
  have margin (i l : Nat) (ts : List Token) : GoesOn 0 (place r (i + n) l n ts (m :: outer) true)
      (place (List.replicate n ' ' ++ r) i l 0 ts (m :: outer) true) := by
    simpa using goesOn_margin (c := 0) opens n
  refine ((goesOn_value value opens left deep).trans (margin _ _ _)).reads
    (by simp [place]; omega) ?_
  simpa using read _ _

/-- A line with a key alone. -/
theorem lineReads_header (key : IsWord k) (short : k.length ≤ 1024)
    (inside : ∀ j ∈ ms.head?, j ≤ m)
    (read : LineReads rest
      (ts ++ openingTokens m ms ++ [.key, .scalar (String.ofList k) .plain, .value])
      (opened m ms) out) :
    LineReads (List.replicate m ' ' ++ (k ++ ':' :: '\n' :: rest)) ts ms out :=
  reads_key key short rfl inside fun i l _ _ =>
    goesOn_ending.reads (Nat.le_succ _) (read (i + 1) (l + 1))

/-- Lines with a key and a word each, behind so many spaces, before the text `rest`. -/
def linesText (m : Nat) (rest : List Char) : List (List Char × List Char) → List Char
  | [] => rest
  | (k, v) :: es => List.replicate m ' ' ++ (k ++ ':' :: ' ' :: (v ++ '\n' :: linesText m rest es))

def lineTokens (es : List (List Char × List Char)) : List Token :=
  es.flatMap fun e =>
    [.key, .scalar (String.ofList e.1) .plain, .value, .scalar (String.ofList e.2) .plain]

/-- Whether both sides of a line are words, of which a key is short enough. -/
def AreWords (e : List Char × List Char) : Prop := IsWord e.1 ∧ e.1.length ≤ 1024 ∧ IsWord e.2

theorem margined_linesText {es : List (List Char × List Char)} (words : ∀ e ∈ es, AreWords e)
    (margined : Margined m rest) : Margined m (linesText m rest es) := by
  cases es with
  | nil => exact margined
  | cons e es => exact ⟨m, _, Nat.le_refl m, (words e List.mem_cons_self).1.opens _, rfl⟩

/-- The lines of a mapping that has been opened. -/
theorem lineReads_lines {es : List (List Char × List Char)} (words : ∀ e ∈ es, AreWords e)
    (margined : Margined m rest) (read : LineReads rest (ts ++ lineTokens es) (m :: ms) out) :
    LineReads (linesText m rest es) ts (m :: ms) out := by
  induction es generalizing ts with
  | nil => simpa [linesText, lineTokens] using read
  | cons e es ih =>
      obtain ⟨key, short, value⟩ := words e List.mem_cons_self
      have others : ∀ e ∈ es, AreWords e := fun e member => words e (List.mem_cons_of_mem _ member)
      have inside : ∀ j ∈ (m :: ms).head?, j ≤ m := by
        intro j first
        cases first
        exact Nat.le_refl m
      refine lineReads_entry key short value (margined_linesText others margined) inside ?_
      have stays : opened m (m :: ms) = m :: ms := by simp [opened]
      rw [stays]
      refine ih others ?_
      simpa [lineTokens, openingTokens] using read

/-- The lines of a mapping that the first one opens. -/
theorem lineReads_mapping {es : List (List Char × List Char)} (filled : es ≠ [])
    (words : ∀ e ∈ es, AreWords e) (margined : Margined m rest) (deeper : ∀ j ∈ ms.head?, j < m)
    (read : LineReads rest (ts ++ .blockStart :: lineTokens es) (m :: ms) out) :
    LineReads (linesText m rest es) ts ms out := by
  cases es with
  | nil => exact absurd rfl filled
  | cons e es =>
      obtain ⟨key, short, value⟩ := words e List.mem_cons_self
      have others : ∀ e ∈ es, AreWords e := fun e member => words e (List.mem_cons_of_mem _ member)
      have inside : ∀ j ∈ ms.head?, j ≤ m := fun j first => Nat.le_of_lt (deeper j first)
      have new : ms.head? ≠ some m := fun same => Nat.lt_irrefl m (deeper m same)
      refine lineReads_entry key short value (margined_linesText others margined) inside ?_
      have opens : opened m ms = m :: ms := by simp [opened, new]
      rw [opens]
      refine lineReads_lines others margined ?_
      simpa [lineTokens, openingTokens, new] using read

end Texts

end Layout

/-- The text of a mapping of words with one key, the last one, that has a deeper mapping of
words. -/
def sectionText (m : Nat) (top : List (List Char × List Char)) (k : List Char)
    (inner : List (List Char × List Char)) : List Char :=
  Layout.linesText 0 (k ++ ':' :: '\n' :: Layout.linesText m [] inner) top

def sectionTokens (top : List (List Char × List Char)) (k : List Char)
    (inner : List (List Char × List Char)) : List Token :=
  .blockStart :: (Layout.lineTokens top ++ .key :: .scalar (String.ofList k) .plain :: .value ::
    .blockStart :: (Layout.lineTokens inner ++ [.blockEnd, .blockEnd]))

theorem tokens?_sectionText {m : Nat} {top inner : List (List Char × List Char)} {k : List Char}
    (deeper : 0 < m) (filledTop : top ≠ []) (filled : inner ≠ [])
    (topWords : ∀ e ∈ top, Layout.AreWords e) (key : IsWord k) (short : k.length ≤ 1024)
    (words : ∀ e ∈ inner, Layout.AreWords e) :
    tokens? (sectionText m top k inner) = some (sectionTokens top k inner) := by
  have ends : Layout.Margined m [] := ⟨0, [], Nat.zero_le m, nofun, rfl⟩
  have header : Layout.Margined 0 (k ++ ':' :: '\n' :: Layout.linesText m [] inner) :=
    ⟨0, _, Nat.le_refl 0, key.opens _, rfl⟩
  have read : Layout.LineReads (sectionText m top k inner) [] [] (sectionTokens top k inner) := by
    refine Layout.lineReads_mapping filledTop topWords header nofun ?_
    refine Layout.lineReads_header (m := 0) key short (fun j first => by cases first; rfl) ?_
    refine Layout.lineReads_mapping filled words ends
      (fun j first => by cases first; exact deeper) ?_
    let before : List Token := .blockStart :: (Layout.lineTokens top ++
      .key :: .scalar (String.ofList k) .plain :: .value :: .blockStart :: Layout.lineTokens inner)
    have closed : Layout.LineReads [] before [m, 0] (before ++ [.blockEnd, .blockEnd]) :=
      Layout.lineReads_nil
    simpa [sectionTokens, before, Layout.openingTokens, Layout.opened] using closed
  exact read 0 0 _ (Nat.lt_succ_self _)

end CallFlow.Yaml
