import CallFlow.Proofs.Yaml.Layout

/-! The values of plain lines: a mapping of words is read as the mapping of the scalars that they
spell. -/

namespace CallFlow.Yaml

/-- A word as a value. -/
def word (w : List Char) : Yaml := .scalar (String.ofList w) .plain none

def lineEntries (es : List (List Char × List Char)) : List (Yaml × Yaml) :=
  es.map fun e => (word e.1, word e.2)

section Nodes

variable {p : Preamble} {a : AnchorNames} {ts : List Token} {done : List (Yaml × Yaml)}

theorem node?_scalar (fuel : Nat) (w : List Char) :
    node? p (fuel + 1) false a (.scalar (String.ofList w) .plain :: ts) = some (word w, a, ts) := by
  simp [node?, properties?, AnchorNames.name?, withAnchor, word]

theorem part?_scalar (fuel : Nat) (isKey : Bool) (w : List Char) :
    part? p (fuel + 2) false isKey a (.scalar (String.ofList w) .plain :: ts) =
      some (word w, a, ts) := by
  rw [part?, node?_scalar]
  rfl

theorem blockEntries?_blockEnd (fuel : Nat) :
    blockEntries? p (fuel + 1) a done (.blockEnd :: ts) = some (.mapping done.reverse, a, ts) := by
  rw [blockEntries?]
  simp

/-- An entry whose key is a word is added to those before it. -/
theorem blockEntries?_entry {rest : List Token} {y : Yaml} {fuel : Nat} (w : List Char)
    (starts : endsPart false false ts = false)
    (read : node? p (fuel + 1) false a ts = some (y, a, rest)) :
    blockEntries? p (fuel + 4) a done (.key :: .scalar (String.ofList w) .plain :: .value :: ts) =
      blockEntries? p (fuel + 3) a ((word w, y) :: done) rest := by
  have value : value? p (fuel + 3) false a (.value :: ts) = some (y, a, rest) := by
    rw [value?, part?, starts]
    exact read
  rw [blockEntries?, part?_scalar]
  simp only [value]

theorem blockEntries?_lines (es : List (List Char × List Char)) (fuel : Nat) :
    blockEntries? p (fuel + 3 + es.length) a done (Layout.lineTokens es ++ ts) =
      blockEntries? p (fuel + 3) a ((lineEntries es).reverse ++ done) ts := by
  induction es generalizing done with
  | nil => rfl
  | cons e es ih =>
      have value : node? p (fuel + es.length + 1) false a
          (.scalar (String.ofList e.2) .plain :: (Layout.lineTokens es ++ ts)) =
            some (word e.2, a, Layout.lineTokens es ++ ts) :=
        node?_scalar (fuel + es.length) e.2
      have room : fuel + 3 + (e :: es).length = fuel + es.length + 4 := by
        simp
        omega
      have left : fuel + es.length + 3 = fuel + 3 + es.length := by omega
      rw [room]
      refine (blockEntries?_entry e.1 rfl value).trans ?_
      rw [left, ih]
      simp [lineEntries, word]

theorem node?_blockStart {fuel : Nat} {y : Yaml} {rest : List Token}
    (read : blockEntries? p fuel a [] ts = some (y, a, rest)) :
    node? p (fuel + 1) false a (.blockStart :: ts) = some (y, a, rest) := by
  simp [node?, properties?, AnchorNames.name?, read, withAnchor]

theorem node?_lines (es : List (List Char × List Char)) (fuel : Nat) :
    node? p (fuel + es.length + 4) false a
        (.blockStart :: (Layout.lineTokens es ++ .blockEnd :: ts)) =
      some (.mapping (lineEntries es), a, ts) := by
  have room : fuel + es.length + 3 = fuel + 3 + es.length := by omega
  refine node?_blockStart ?_
  rw [room, blockEntries?_lines, blockEntries?_blockEnd]
  simp

end Nodes

theorem length_lineTokens (es : List (List Char × List Char)) :
    (Layout.lineTokens es).length = 4 * es.length := by
  induction es with
  | nil => rfl
  | cons e es ih =>
      rw [Layout.lineTokens, List.flatMap_cons, List.length_append]
      change 4 + (Layout.lineTokens es).length = _
      rw [ih, List.length_cons]
      omega

/-- The value of a mapping of words whose last key has a deeper mapping of words. -/
def sectionValue (top : List (List Char × List Char)) (k : List Char)
    (inner : List (List Char × List Char)) : Yaml :=
  .mapping (lineEntries top ++ [(word k, .mapping (lineEntries inner))])

theorem ofTokens?_sectionTokens (top : List (List Char × List Char)) (k : List Char)
    (inner : List (List Char × List Char)) :
    ofTokens? (sectionTokens top k inner) = some (sectionValue top k inner) := by
  let deeper : List Token := .blockStart :: (Layout.lineTokens inner ++ [.blockEnd, .blockEnd])
  let behind : List Token :=
    Layout.lineTokens top ++ .key :: .scalar (String.ofList k) .plain :: .value :: deeper
  -- Every entry takes a step of the mapping and a few within it, and has four tokens.
  obtain ⟨fuel, room⟩ :
      ∃ fuel, 3 * behind.length + 6 = fuel + inner.length + 4 + 3 + top.length + 1 := by
    refine ⟨11 * top.length + 11 * inner.length + 16, ?_⟩
    simp [behind, deeper, length_lineTokens]
    omega
  have last : node? {} (fuel + inner.length + 4) false {} deeper =
      some (.mapping (lineEntries inner), {}, [.blockEnd]) :=
    node?_lines inner fuel
  have entries : blockEntries? {} (fuel + inner.length + 4 + 3 + top.length) {} [] behind =
      some (sectionValue top k inner, {}, []) := by
    rw [blockEntries?_lines, blockEntries?_entry k rfl last, blockEntries?_blockEnd]
    simp [sectionValue]
  have root : root? {} false (sectionTokens top k inner) = some (sectionValue top k inner, []) := by
    have node := node?_blockStart entries
    rw [← room] at node
    simp only [root?, sectionTokens]
    rw [node]
    rfl
  have preamble : Preamble.read? {} (sectionTokens top k inner) =
      some ({}, sectionTokens top k inner) := rfl
  unfold ofTokens?
  rw [preamble]
  simp only [sectionTokens] at root ⊢
  simp [Preamble.isEmpty, root]

/-- The characters of plain lines. -/
def IsLineChar (x : Char) : Prop := isNameChar x = true ∨ x = ':' ∨ x = ' ' ∨ x = '\n'

theorem isAllowed_of_isNameChar {x : Char} (name : isNameChar x = true) : isAllowed x = true := by
  have range : 0x20 ≤ x.toNat ∧ x.toNat ≤ 0x7e := by
    simp only [isNameChar, Bool.or_eq_true, Bool.and_eq_true, decide_eq_true_eq, Char.le_def,
      UInt32.le_iff_toNat_le] at name
    rcases name with (((digit | lower) | upper) | rfl) | rfl
    · exact ⟨Nat.le_trans (by decide) digit.1, Nat.le_trans digit.2 (by decide)⟩
    · exact ⟨Nat.le_trans (by decide) lower.1, Nat.le_trans lower.2 (by decide)⟩
    · exact ⟨Nat.le_trans (by decide) upper.1, Nat.le_trans upper.2 (by decide)⟩
    all_goals decide
  simp [isAllowed, range]

theorem IsLineChar.isAllowed {x : Char} (plain : IsLineChar x) : isAllowed x = true := by
  rcases plain with name | rfl | rfl | rfl
  · exact isAllowed_of_isNameChar name
  all_goals rfl

theorem IsLineChar.unified {x : Char} (plain : IsLineChar x) :
    (if isBreak x then '\n' else x) = x := by
  rcases plain with name | rfl | rfl | rfl
  · have other {y : Char} (sign : isNameChar y = false) : (x = y) = False :=
      eq_false (ne_of_isNameChar name sign)
    simp (disch := decide) [isBreak, other]
  all_goals rfl

theorem unifyBreaks_eq_self {s : List Char} (plain : ∀ x ∈ s, IsLineChar x) :
    unifyBreaks s = s := by
  fun_induction unifyBreaks s with
  | case1 => rfl
  | case2 r =>
      have first := plain '\r' List.mem_cons_self
      simp [IsLineChar, isNameChar] at first
  | case3 c r _ ih =>
      rw [ih fun x here => plain x (List.mem_cons_of_mem c here),
        (plain c List.mem_cons_self).unified]

theorem isLineChar_linesText {m : Nat} {rest : List Char} {es : List (List Char × List Char)}
    (words : ∀ e ∈ es, Layout.AreWords e) (others : ∀ x ∈ rest, IsLineChar x) :
    ∀ x ∈ Layout.linesText m rest es, IsLineChar x := by
  induction es with
  | nil => exact others
  | cons e es ih =>
      obtain ⟨key, -, value⟩ := words e List.mem_cons_self
      have later := ih fun e member => words e (List.mem_cons_of_mem _ member)
      intro x here
      simp only [Layout.linesText, List.mem_append, List.mem_cons] at here
      rcases here with space | inKey | rfl | rfl | inValue | rfl | inRest
      · exact .inr (.inr (.inl (List.eq_of_mem_replicate space)))
      · exact .inl (key.names x inKey)
      · exact .inr (.inl rfl)
      · exact .inr (.inr (.inl rfl))
      · exact .inl (value.names x inValue)
      · exact .inr (.inr (.inr rfl))
      · exact later x inRest

/-- The document of a file with a mapping of words, the last key of which has a deeper mapping of
words. -/
theorem parse?_sectionText {m : Nat} {top inner : List (List Char × List Char)} {k : List Char}
    {s : String} (text : s.toList = sectionText m top k inner) (deeper : 0 < m)
    (filledTop : top ≠ []) (filled : inner ≠ []) (topWords : ∀ e ∈ top, Layout.AreWords e)
    (key : IsWord k) (short : k.length ≤ 1024) (words : ∀ e ∈ inner, Layout.AreWords e) :
    parse? s = some (.ofRoot (sectionValue top k inner)) := by
  have plain : ∀ x ∈ sectionText m top k inner, IsLineChar x := by
    refine isLineChar_linesText topWords fun x here => ?_
    simp only [List.mem_append, List.mem_cons] at here
    rcases here with inKey | rfl | rfl | inRest
    · exact .inl (key.names x inKey)
    · exact .inr (.inl rfl)
    · exact .inr (.inr (.inr rfl))
    · exact isLineChar_linesText words (fun y none => absurd none List.not_mem_nil) x inRest
  have allowed : (sectionText m top k inner).all isAllowed = true :=
    List.all_eq_true.mpr fun x here => (plain x here).isAllowed
  rw [parse?, text, allowed, unifyBreaks_eq_self plain,
    tokens?_sectionText deeper filledTop filled topWords key short words]
  simp [ofTokens?_sectionTokens]

end CallFlow.Yaml
