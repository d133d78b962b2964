import FileGrants.Proofs.Json.Tokens

/-!
Contract: written values are read back.

Owns:
- which values can be written, and the tokens that they have;
- that both written forms of a value are cut into these tokens;
- that the value is read from them, and so from either written form.

Does not own: which records values stand for.

The two written forms differ in blanks alone. What is shown of a written item, that it is cut
into its tokens in front of whatever ends a number, holds with a line break before it as well,
and so one argument on items with commas between them serves arrays and objects of both forms.
-/

namespace FileGrants.Json

/-! ## Tokens of values -/

/-- Whether a value can be written and read back: nothing in it is unreadable, and its numbers
are integers. -/
inductive IsWritable : Json → Prop where
  | null : IsWritable .null
  | bool (value : Bool) : IsWritable (.bool value)
  | integer (negative : Bool) (magnitude : Nat) :
      IsWritable (.number (.integer negative magnitude))
  | string (value : String) : IsWritable (.string value)
  | array {items : List Json} (writable : ∀ item ∈ items, IsWritable item) :
      IsWritable (.array items)
  | object {members : List (String × Json)}
      (writable : ∀ member ∈ members, IsWritable member.2) :
      IsWritable (.object members)

mutual

/-- The tokens of a value. -/
def tokensOf : Json → List Token
  | .null => [.null]
  | .bool value => [.bool value]
  | .number value => [.number value]
  | .string value => [.text value]
  | .array items => .openBracket :: [.comma].intercalate (itemTokens items) ++ [.closeBracket]
  | .object members => .openBrace :: [.comma].intercalate (memberTokens members) ++ [.closeBrace]
  | .unreadable => [.null]

/-- The tokens of the items of an array, without the commas between them. -/
def itemTokens : List Json → List (List Token)
  | [] => []
  | item :: rest => tokensOf item :: itemTokens rest

/-- The tokens of the pairs of an object, without the commas between them. -/
def memberTokens : List (String × Json) → List (List Token)
  | [] => []
  | (key, value) :: rest => (.text key :: .colon :: tokensOf value) :: memberTokens rest

end

/-! ## Written forms -/

/-- Whether a text is cut into tokens in front of everything that ends a number. -/
def IsCutInto (text : List Char) (written : List Token) : Prop :=
  ∀ ⦃rest : List Char⦄ ⦃tokens : List Token⦄,
    EndsNumber rest → Lexes rest tokens → Lexes (text ++ rest) (written ++ tokens)

theorem EndsNumber.cons
    {c : Char}
    (ends : c.isDigit = false ∧ c ∉ ['.', 'e', 'E'])
    (rest : List Char) :
    EndsNumber (c :: rest) := by
  intro first isFirst
  obtain rfl := Option.some.inj isFirst
  exact ends

theorem EndsNumber.newLine (level : Nat) (text : List Char) : EndsNumber (newLine level ++ text) :=
  .cons (by decide) _

theorem Lexes.newLine
    (level : Nat)
    {text : List Char}
    {tokens : List Token}
    (later : Lexes text tokens) :
    Lexes (newLine level ++ text) tokens := by
  refine .blank (by decide) ?_
  induction 2 * level with
  | zero => exact later
  | succ width inductionHypothesis => exact .blank (by decide) inductionHypothesis

section Pieces

variable {text : List Char} {written : List Token}

theorem IsCutInto.afterBlank
    (cut : IsCutInto text written)
    {c : Char}
    (isBlank : isSpace c = true) :
    IsCutInto (c :: text) written :=
  fun _ _ ends later => .blank isBlank (cut ends later)

theorem IsCutInto.afterNewLine (cut : IsCutInto text written) (level : Nat) :
    IsCutInto (Json.newLine level ++ text) written := by
  intro rest tokens ends later
  rw [List.append_assoc]
  exact .newLine level (cut ends later)

theorem IsCutInto.member (cut : IsCutInto text written) (key : String) :
    IsCutInto (quote key ++ ':' :: text) (.text key :: .colon :: written) := by
  intro rest tokens ends later
  rw [List.append_assoc]
  exact .quote key (.mark (by decide) (cut ends later))

end Pieces

section Items

variable
  {Item : Type}
  {write : Item → List Char}
  {tokens : Item → List Token}
  {items : List Item}

/-- Items that are cut into their tokens are so with commas between them. -/
theorem isCutInto_intercalate
    (cuts : ∀ item ∈ items, IsCutInto (write item) (tokens item)) :
    IsCutInto ([','].intercalate (items.map write)) ([.comma].intercalate (items.map tokens)) := by
  intro rest more ends later
  induction items with
  | nil => exact later
  | cons item others inductionHypothesis =>
      have cut := cuts item (by simp)
      have othersCut := inductionHypothesis fun other member => cuts other (by simp [member])
      cases others with
      | nil => simpa using cut ends later
      | cons next others =>
          simp only [List.map_cons, List.intercalate_cons_cons, List.append_assoc,
            List.singleton_append] at othersCut ⊢
          exact cut (.cons (by decide) _) (.mark (by decide) othersCut)

/-- What writes items one after the other with commas between them. -/
theorem eq_intercalate
    {writeAll : List Item → List Char}
    (writesNone : writeAll [] = [])
    (writesOne : ∀ item, writeAll [item] = write item)
    (writesMore : ∀ item next rest,
      writeAll (item :: next :: rest) = write item ++ ',' :: writeAll (next :: rest))
    (items : List Item) :
    writeAll items = [','].intercalate (items.map write) := by
  induction items with
  | nil => exact writesNone
  | cons item rest inductionHypothesis =>
      cases rest with
      | nil => simp [writesOne]
      | cons next rest =>
          rw [writesMore, inductionHypothesis]
          simp

end Items

theorem compactItems_eq (items : List Json) :
    compactItems items = [','].intercalate (items.map compact) :=
  eq_intercalate rfl (fun _ => by rw [compactItems]) (fun _ _ _ => by rw [compactItems]) items

theorem compactMembers_eq (members : List (String × Json)) :
    compactMembers members =
      [','].intercalate (members.map fun member => quote member.1 ++ ':' :: compact member.2) :=
  eq_intercalate rfl (fun _ => by rw [compactMembers]) (fun _ _ _ => by rw [compactMembers]) members

theorem laidOutItems_eq (level : Nat) (items : List Json) :
    laidOutItems level items =
      [','].intercalate (items.map fun item => newLine level ++ laidOut level item) :=
  eq_intercalate rfl (fun _ => by rw [laidOutItems]) (fun _ _ _ => by rw [laidOutItems]) items

theorem laidOutMembers_eq (level : Nat) (members : List (String × Json)) :
    laidOutMembers level members =
      [','].intercalate (members.map fun member =>
        newLine level ++ quote member.1 ++ ':' :: ' ' :: laidOut level member.2) :=
  eq_intercalate rfl (fun _ => by rw [laidOutMembers]) (fun _ _ _ => by rw [laidOutMembers]) members

theorem itemTokens_eq_map (items : List Json) : itemTokens items = items.map tokensOf := by
  induction items with
  | nil => rfl
  | cons item rest inductionHypothesis => rw [itemTokens, inductionHypothesis, List.map_cons]

theorem memberTokens_eq_map (members : List (String × Json)) :
    memberTokens members =
      members.map fun member => .text member.1 :: .colon :: tokensOf member.2 := by
  induction members with
  | nil => rfl
  | cons member rest inductionHypothesis =>
      rw [memberTokens, inductionHypothesis, List.map_cons]

theorem isCutInto_integer (negative : Bool) (magnitude : Nat) :
    IsCutInto (Number.integer negative magnitude).written [.number (.integer negative magnitude)] :=
  fun _ _ ends later => .integer negative magnitude ends later

/-- What is cut into tokens is so between an opening and a closing mark, the closing one on the
same line or on another one. -/
theorem IsCutInto.bracketed
    {text between : List Char}
    {written : List Token}
    (cut : IsCutInto text written)
    (opening closing : Char × Token)
    (opens : opening ∈ [('[', .openBracket), ('{', .openBrace)])
    (closes : closing ∈ [(']', .closeBracket), ('}', .closeBrace)])
    (apart : between = [] ∨ ∃ level, between = Json.newLine level) :
    IsCutInto (opening.1 :: text ++ between ++ [closing.1])
      (opening.2 :: written ++ [closing.2]) := by
  intro rest tokens ends later
  have isMark : (opening.1, opening.2) ∈ marks ∧ (closing.1, closing.2) ∈ marks := by
    simp only [List.mem_cons, List.not_mem_nil, or_false] at opens closes
    rcases opens with rfl | rfl <;> rcases closes with rfl | rfl <;> decide
  have closed : Lexes (closing.1 :: rest) (closing.2 :: tokens) := .mark isMark.2 later
  have endsClosed : EndsNumber (closing.1 :: rest) := by
    simp only [List.mem_cons, List.not_mem_nil, or_false] at closes
    rcases closes with rfl | rfl <;> exact .cons (by decide) _
  simp only [List.cons_append, List.append_assoc, List.nil_append]
  refine .mark isMark.1 ?_
  rcases apart with rfl | ⟨level, rfl⟩
  · exact cut endsClosed closed
  · exact cut (.newLine level _) (.newLine level closed)

/-- The compact form of a value is cut into its tokens. -/
theorem isCutInto_compact {value : Json} (writable : IsWritable value) :
    IsCutInto (compact value) (tokensOf value) := by
  induction writable with
  | null => exact fun _ _ _ later => .null later
  | bool value => exact fun _ _ _ later => .bool value later
  | integer negative magnitude => exact isCutInto_integer negative magnitude
  | string value => exact fun _ _ _ later => .quote value later
  | @array items _ inductionHypothesis =>
      have cut : IsCutInto (compactItems items) ([.comma].intercalate (itemTokens items)) := by
        rw [compactItems_eq, itemTokens_eq_map]
        exact isCutInto_intercalate inductionHypothesis
      simpa [compact, tokensOf] using
        cut.bracketed ('[', .openBracket) (']', .closeBracket) (by simp) (by simp) (Or.inl rfl)
  | @object members _ inductionHypothesis =>
      have cut : IsCutInto (compactMembers members)
          ([.comma].intercalate (memberTokens members)) := by
        rw [compactMembers_eq, memberTokens_eq_map]
        exact isCutInto_intercalate fun member stands =>
          (inductionHypothesis member stands).member member.1
      simpa [compact, tokensOf] using
        cut.bracketed ('{', .openBrace) ('}', .closeBrace) (by simp) (by simp) (Or.inl rfl)

/-- The laid-out form of a value is cut into its tokens, at whatever level it stands. -/
theorem isCutInto_laidOut {value : Json} (writable : IsWritable value) (level : Nat) :
    IsCutInto (laidOut level value) (tokensOf value) := by
  induction writable generalizing level with
  | null => exact fun _ _ _ later => .null later
  | bool value =>
      cases value with
      | true => exact fun _ _ _ later => .bool true later
      | false => exact fun _ _ _ later => .bool false later
  | integer negative magnitude => exact isCutInto_integer negative magnitude
  | string value => exact fun _ _ _ later => .quote value later
  | @array items _ inductionHypothesis =>
      cases items with
      | nil => exact fun _ _ _ later => .mark (by decide) (.mark (by decide) later)
      | cons item rest =>
          have cut : IsCutInto (laidOutItems (level + 1) (item :: rest))
              ([.comma].intercalate (itemTokens (item :: rest))) := by
            rw [laidOutItems_eq, itemTokens_eq_map]
            exact isCutInto_intercalate fun item stands =>
              (inductionHypothesis item stands (level + 1)).afterNewLine (level + 1)
          simpa [laidOut, tokensOf] using cut.bracketed ('[', .openBracket) (']', .closeBracket)
            (by simp) (by simp) (Or.inr ⟨level, rfl⟩)
  | @object members _ inductionHypothesis =>
      cases members with
      | nil => exact fun _ _ _ later => .mark (by decide) (.mark (by decide) later)
      | cons member rest =>
          have cut : IsCutInto (laidOutMembers (level + 1) (member :: rest))
              ([.comma].intercalate (memberTokens (member :: rest))) := by
            rw [laidOutMembers_eq, memberTokens_eq_map]
            refine isCutInto_intercalate fun member stands => ?_
            rw [List.append_assoc]
            exact (((inductionHypothesis member stands (level + 1)).afterBlank (by decide)).member
              member.1).afterNewLine (level + 1)
          simpa [laidOut, tokensOf] using cut.bracketed ('{', .openBrace) ('}', .closeBrace)
            (by simp) (by simp) (Or.inr ⟨level, rfl⟩)

/-! ## Reading the tokens -/

/-- Whether a value is read from tokens, whatever follows them. Two steps for each token are
enough. -/
def IsReadAs (written : List Token) (value : Json) : Prop :=
  ∀ (rest : List Token) (steps : Nat), 2 * written.length ≤ steps →
    parseValue steps (written ++ rest) = some (value, rest)

theorem parseValue_openBracket
    {steps : Nat}
    {tokens after : List Token}
    {items : List Json}
    (reads : parseItems steps tokens = some (items, after)) :
    parseValue (steps + 1) (.openBracket :: tokens) = some (.array items, after) := by
  -- Tokens that begin with the closing bracket hold no item.
  have notEmpty : ∀ rest, tokens ≠ .closeBracket :: rest := by
    rintro rest rfl
    cases steps with
    | zero => cases reads
    | succ steps => cases steps <;> simp [parseItems, parseValue] at reads
  rw [parseValue, reads]
  · rfl
  · exact fun rest same => notEmpty rest same

theorem parseValue_openBrace
    {steps : Nat}
    {tokens after : List Token}
    {pairs : List (Option String × Json)}
    (reads : parsePairs steps tokens = some (pairs, after)) :
    parseValue (steps + 1) (.openBrace :: tokens) = some (ofPairs pairs, after) := by
  -- Tokens that begin with the closing brace hold no pair.
  have notEmpty : ∀ rest, tokens ≠ .closeBrace :: rest := by
    rintro rest rfl
    cases steps <;> simp [parsePairs] at reads
  rw [parseValue, reads]
  · rfl
  · exact fun rest same => notEmpty rest same

theorem parseItems_intercalate
    {items : List Json}
    (nonempty : items ≠ [])
    (reads : ∀ item ∈ items, IsReadAs (tokensOf item) item)
    (rest : List Token)
    (steps : Nat)
    (enough : 2 * ([Token.comma].intercalate (items.map tokensOf)).length + 1 ≤ steps) :
    parseItems steps ([.comma].intercalate (items.map tokensOf) ++ .closeBracket :: rest) =
      some (items, rest) := by
  induction items generalizing steps with
  | nil => exact absurd rfl nonempty
  | cons item others inductionHypothesis =>
      obtain ⟨steps, rfl⟩ := Nat.exists_eq_add_of_le' (Nat.le_trans (Nat.le_add_left 1 _) enough)
      have readsItem := reads item (by simp)
      cases others with
      | nil =>
          simp only [List.map_cons, List.map_nil, List.intercalate_singleton] at enough ⊢
          rw [parseItems, readsItem _ steps (by omega)]
      | cons next others =>
          have readsOthers := inductionHypothesis (by simp)
            fun other member => reads other (by simp [member])
          simp only [List.map_cons, List.intercalate_cons_cons, List.append_assoc,
            List.cons_append, List.nil_append, List.length_append, List.length_cons]
            at enough readsOthers ⊢
          rw [parseItems, readsItem _ steps (by omega)]
          simp only [readsOthers steps (by omega), Option.map_some]

theorem parsePairs_intercalate
    {members : List (String × Json)}
    (nonempty : members ≠ [])
    (reads : ∀ member ∈ members, IsReadAs (tokensOf member.2) member.2)
    (rest : List Token)
    (steps : Nat)
    (enough : 2 * ([Token.comma].intercalate (memberTokens members)).length ≤ steps) :
    parsePairs steps ([.comma].intercalate (memberTokens members) ++ .closeBrace :: rest) =
      some (members.map fun member => (some member.1, member.2), rest) := by
  rw [memberTokens_eq_map] at enough ⊢
  induction members generalizing steps with
  | nil => exact absurd rfl nonempty
  | cons member others inductionHypothesis =>
      obtain ⟨key, value⟩ := member
      have readsValue : IsReadAs (tokensOf value) value := reads (key, value) (by simp)
      cases others with
      | nil =>
          simp only [List.map_cons, List.map_nil, List.intercalate_singleton, List.length_cons,
            List.cons_append] at enough ⊢
          obtain ⟨steps, rfl⟩ := Nat.exists_eq_add_of_le' (Nat.le_trans (by omega : 2 ≤ _) enough)
          rw [parsePairs, parsePairValue, readsValue _ steps (by omega)]
      | cons next others =>
          have readsOthers := inductionHypothesis (by simp)
            fun other member => reads other (by simp [member])
          simp only [List.map_cons, List.intercalate_cons_cons, List.append_assoc,
            List.cons_append, List.nil_append, List.length_append, List.length_cons]
            at enough readsOthers ⊢
          obtain ⟨steps, rfl⟩ := Nat.exists_eq_add_of_le' (Nat.le_trans (by omega : 2 ≤ _) enough)
          rw [parsePairs, parsePairValue, readsValue _ steps (by omega)]
          simp only [readsOthers steps (by omega), Option.map_some]

theorem ofPairs_map_some (members : List (String × Json)) :
    ofPairs (members.map fun member => (some member.1, member.2)) = .object members := by
  have kept : (members.map fun member => (some member.1, member.2)).mapM
      (fun pair : Option String × Json => pair.1.map fun key => (key, pair.2)) = some members := by
    induction members with
    | nil => rfl
    | cons member rest inductionHypothesis =>
        rw [List.map_cons, List.mapM_cons, inductionHypothesis]
        rfl
  rw [ofPairs, kept]

/-- What is one token is read in one step. -/
theorem isReadAs_singleton
    {token : Token}
    {value : Json}
    (reads : ∀ rest steps, parseValue (steps + 1) (token :: rest) = some (value, rest)) :
    IsReadAs [token] value := by
  intro rest steps enough
  obtain ⟨steps, rfl⟩ := Nat.exists_eq_add_of_le' (Nat.le_trans (by simp : 1 ≤ _) enough)
  exact reads rest steps

/-- A value is read from its tokens. -/
theorem isReadAs_tokensOf {value : Json} (writable : IsWritable value) :
    IsReadAs (tokensOf value) value := by
  induction writable with
  | null => exact isReadAs_singleton fun _ _ => by rw [parseValue]
  | bool value => exact isReadAs_singleton fun _ _ => by rw [parseValue]
  | integer negative magnitude => exact isReadAs_singleton fun _ _ => by rw [parseValue]
  | string value => exact isReadAs_singleton fun _ _ => by rw [parseValue]
  | @array items _ inductionHypothesis =>
      intro rest steps enough
      simp only [tokensOf, itemTokens_eq_map, List.cons_append, List.append_assoc,
        List.nil_append, List.length_cons, List.length_append, List.length_nil] at enough ⊢
      obtain ⟨steps, rfl⟩ := Nat.exists_eq_add_of_le' (Nat.le_trans (by omega : 1 ≤ _) enough)
      by_cases empty : items = []
      · subst empty
        rw [List.map_nil, List.intercalate_nil, List.nil_append, parseValue]
      · exact parseValue_openBracket
          (parseItems_intercalate empty inductionHypothesis rest steps (by omega))
  | @object members _ inductionHypothesis =>
      intro rest steps enough
      simp only [tokensOf, List.cons_append, List.append_assoc,
        List.nil_append, List.length_cons, List.length_append, List.length_nil] at enough ⊢
      obtain ⟨steps, rfl⟩ := Nat.exists_eq_add_of_le' (Nat.le_trans (by omega : 1 ≤ _) enough)
      by_cases empty : members = []
      · subst empty
        rw [memberTokens, List.intercalate_nil, List.nil_append, parseValue]
      · rw [parseValue_openBrace
          (parsePairs_intercalate empty inductionHypothesis rest steps (by omega)),
          ofPairs_map_some]

/-! ## Both together -/

/-- What is cut into the tokens of a value is read as the value. -/
theorem parse?_of_isCutInto
    {text : List Char}
    {value : Json}
    (writable : IsWritable value)
    (cut : IsCutInto text (tokensOf value)) :
    parse? (String.ofList text) = some value := by
  have tokens : tokens? text = some (tokensOf value) := by
    have lexes := @cut [] [] nofun .done
    rw [List.append_nil, List.append_nil] at lexes
    exact lexes.tokens?_eq
  have reads := isReadAs_tokensOf writable [] (2 * (tokensOf value).length + 1) (Nat.le_succ _)
  rw [List.append_nil] at reads
  rw [parse?, String.toList_ofList, tokens]
  simp only [reads]

/-- **Written values are read back.** A value that can be written is read from its compact
form, and from its laid-out form. -/
theorem parse?_written {value : Json} (writable : IsWritable value) :
    parse? value.toCompact = some value ∧ parse? value.toLaidOut = some value :=
  ⟨parse?_of_isCutInto writable (isCutInto_compact writable),
    parse?_of_isCutInto writable (isCutInto_laidOut writable 0)⟩

end FileGrants.Json
