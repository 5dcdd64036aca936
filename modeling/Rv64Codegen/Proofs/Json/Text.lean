import Rv64Codegen.Json.Parser
import Rv64Codegen.Json.Printer

namespace Rv64Codegen.Json

/-!
# Reading what has been written

Every JSON value is read back from its text, whatever stands behind it.  The only
thing that could go wrong is a number that is continued by the characters behind
it, so these have to end a number.  One call of the reader for every character is
more than enough, and this is what bounds the depth of the calls.
-/

/-!
## Strings
-/

/-- A part of a string that stands for one character, which may be numbered if it is small. -/
def Piece.Names (piece : Piece) (c : Char) : Prop :=
  piece = .char c ∨ (piece = .unit c.toNat ∧ c.toNat < 0x20)

theorem hexValue?_hexDigit :
    ∀ n < 16, Text.hexValue? (Text.hexDigit n) = some n := by
  decide

/-- The digits of a small code unit. -/
theorem unitValue?_hexDigit
    {code : Nat}
    (small : code < 0x20) :
    unitValue? '0' '0' (Text.hexDigit (code / 16)) (Text.hexDigit (code % 16)) =
      some code := by
  have zero : Text.hexValue? '0' = some 0 := by decide
  have high := hexValue?_hexDigit (code / 16) (by omega)
  have low := hexValue?_hexDigit (code % 16) (by omega)
  simp only [unitValue?, zero, high, low, Option.bind_eq_bind, Option.bind_some,
    Option.pure_def, Option.some.injEq]
  omega

/-- A character that is written as itself is read as itself. -/
theorem readPieces_cons
    {c : Char}
    (notQuote : c ≠ '"')
    (notBackslash : c ≠ '\\')
    (notControl : ¬ c.toNat < 0x20)
    {rest behind : List Char}
    {pieces : List Piece}
    (reads : readPieces rest = some (pieces, behind)) :
    readPieces (c :: rest) = some (.char c :: pieces, behind) := by
  simp [readPieces, notBackslash, notControl, reads]

/-- A character is read back as one part of a string. -/
theorem readPieces_escapeChar (c : Char) :
    ∃ piece : Piece,
      piece.Names c ∧
        ∀ (rest behind : List Char) (pieces : List Piece),
          readPieces rest = some (pieces, behind) →
            readPieces (escapeChar c ++ rest) = some (piece :: pieces, behind) := by
  unfold escapeChar
  split
  case h_8 notQuote notBackslash _ _ _ _ _ =>
    split
    · rename_i small
      refine ⟨.unit c.toNat, Or.inr ⟨rfl, small⟩, ?_⟩
      intro rest behind pieces reads
      simp [readPieces, unitValue?_hexDigit small, reads]
    · rename_i large
      refine ⟨.char c, Or.inl rfl, ?_⟩
      intro rest behind pieces reads
      exact readPieces_cons notQuote notBackslash large reads
  all_goals
    refine ⟨.char _, Or.inl rfl, ?_⟩
    intro rest behind pieces reads
    simp [readPieces, shortEscape?, reads]

/-- A small code unit is no half of a pair, so it stands for itself. -/
theorem decodePieces_cons
    {piece : Piece}
    {c : Char}
    (names : piece.Names c)
    {pieces : List Piece}
    {characters : List Char}
    (decodes : decodePieces pieces = some characters) :
    decodePieces (piece :: pieces) = some (c :: characters) := by
  rcases names with rfl | ⟨rfl, small⟩
  · simp [decodePieces, decodes]
  · have notLeading : isLeading c.toNat = false := by
      simp only [isLeading, Bool.and_eq_false_iff, decide_eq_false_iff_not]
      omega
    have notTrailing : isTrailing c.toNat = false := by
      simp only [isTrailing, Bool.and_eq_false_iff, decide_eq_false_iff_not]
      omega
    have same : Char.ofNat c.toNat = c := Char.ofNat_toNat c
    -- Only a unit that is followed by another one could be half of a pair.
    unfold decodePieces
    split
    · contradiction
    · rename_i heads
      cases heads
    · rename_i heads
      cases heads
      simp [notLeading, notTrailing, same, decodes]
    · rename_i heads
      cases heads
      simp [notLeading, notTrailing, same, decodes]

/-- The characters of a string are read back up to its closing quotation mark. -/
theorem readPieces_flatMap_escapeChar
    (characters rest : List Char) :
    ∃ pieces,
      readPieces (characters.flatMap escapeChar ++ '"' :: rest) = some (pieces, rest) ∧
        decodePieces pieces = some characters := by
  induction characters with
  | nil =>
      exact ⟨[], by simp [readPieces], rfl⟩
  | cons c characters inductionHypothesis =>
      obtain ⟨pieces, reads, decodes⟩ := inductionHypothesis
      obtain ⟨piece, names, readsFirst⟩ := readPieces_escapeChar c
      refine ⟨piece :: pieces, ?_, decodePieces_cons names decodes⟩
      rw [List.flatMap_cons, List.append_assoc]
      exact readsFirst _ _ _ reads

/-- A string behind its opening quotation mark. -/
theorem readString_quote
    (text : String)
    (rest : List Char) :
    ∃ quoted,
      quote text ++ rest = '"' :: quoted ∧ readString quoted = some (some text, rest) := by
  obtain ⟨pieces, reads, decodes⟩ := readPieces_flatMap_escapeChar text.toList rest
  refine ⟨text.toList.flatMap escapeChar ++ '"' :: rest, by simp [quote], ?_⟩
  simp [readString, reads, decodes]

/-!
## Numbers
-/

/-- The characters behind a number do not continue it. -/
def EndsNumber (rest : List Char) : Prop :=
  ∀ c ∈ rest.head?, c.isDigit = false ∧ c ≠ '.' ∧ c ≠ 'e' ∧ c ≠ 'E'

namespace EndsNumber

variable
  {rest : List Char}

theorem takeWhile_isDigit (ends : EndsNumber rest) :
    rest.takeWhile Char.isDigit = [] := by
  cases rest with
  | nil =>
      rfl
  | cons c rest =>
      simp [(ends c rfl).1]

theorem dropWhile_isDigit (ends : EndsNumber rest) :
    rest.dropWhile Char.isDigit = rest := by
  cases rest with
  | nil =>
      rfl
  | cons c rest =>
      simp [(ends c rfl).1]

theorem skipFraction_eq (ends : EndsNumber rest) :
    skipFraction rest = some (false, rest) := by
  unfold skipFraction
  split
  · exact absurd rfl (ends '.' rfl).2.1
  · rfl

theorem skipExponent_eq (ends : EndsNumber rest) :
    skipExponent rest = some (false, rest) := by
  unfold skipExponent
  split
  · exact absurd rfl (ends 'e' rfl).2.2.1
  · exact absurd rfl (ends 'E' rfl).2.2.2
  · rfl

end EndsNumber

theorem digitsValue_toDigits (n : Nat) :
    digitsValue (Nat.toDigits 10 n) = n := by
  have sameFold (digits : List Char) : digitsValue digits = Nat.ofDigitChars 10 digits 0 := by
    unfold digitsValue Nat.ofDigitChars
    congr 1
    funext value digit
    rw [Nat.mul_comm]
    rfl
  rw [sameFold, Nat.ofDigitChars_toDigits (by decide) (by decide)]

/-- A number other than zero does not start with zero. -/
theorem exists_toDigits_eq_cons
    {n : Nat}
    (positive : 0 < n) :
    ∃ digit digits, Nat.toDigits 10 n = digit :: digits ∧ digit ≠ '0' := by
  induction n using Nat.strongRecOn with
  | ind n inductionHypothesis =>
      by_cases small : n < 10
      · refine ⟨n.digitChar, [], Nat.toDigits_of_lt_base small, ?_⟩
        have nonzero : ∀ m < 10, 0 < m → m.digitChar ≠ '0' := by decide
        exact nonzero n small positive
      · obtain ⟨digit, digits, isCons, nonzero⟩ :=
          inductionHypothesis (n / 10) (by omega) (by omega)
        refine ⟨digit, digits ++ [(n % 10).digitChar], ?_, nonzero⟩
        rw [Nat.toDigits_of_base_le (by decide) (by omega), isCons, List.cons_append]

/-- All digits of a number are read, and no more. -/
theorem readWhole_toDigits
    (n : Nat)
    {rest : List Char}
    (ends : EndsNumber rest) :
    readWhole (Nat.toDigits 10 n ++ rest) = some (Nat.toDigits 10 n, rest) := by
  by_cases isZero : n = 0
  · subst isZero
    rfl
  · obtain ⟨digit, digits, isCons, nonzero⟩ :=
      exists_toDigits_eq_cons (Nat.pos_of_ne_zero isZero)
    have areDigits : ∀ c ∈ digit :: digits, c.isDigit = true := by
      rw [← isCons]
      intro c member
      exact Nat.isDigit_of_mem_toDigits (by decide) (by decide) member
    have taken : (digit :: digits ++ rest).takeWhile Char.isDigit = digit :: digits := by
      rw [List.takeWhile_append_of_pos areDigits, ends.takeWhile_isDigit, List.append_nil]
    have dropped : (digit :: digits ++ rest).dropWhile Char.isDigit = rest := by
      rw [List.dropWhile_append_of_pos areDigits, ends.dropWhile_isDigit]
    rw [isCons]
    unfold readWhole
    split
    · rename_i startsWithZero
      cases startsWithZero
      exact absurd rfl nonzero
    · rw [taken, dropped]

/-- A number without fraction and exponent. -/
theorem readUnsigned_toDigits
    (negative : Bool)
    (n : Nat)
    {rest : List Char}
    (ends : EndsNumber rest) :
    readUnsigned negative (Nat.toDigits 10 n ++ rest) =
      if negative && n == 0 then some (.fraction, rest)
      else if negative then some (.integer (-n), rest)
      else some (.integer n, rest) := by
  simp only [readUnsigned, readWhole_toDigits n ends, ends.skipFraction_eq,
    ends.skipExponent_eq, digitsValue_toDigits, Option.bind_eq_bind, Option.bind_some,
    Bool.false_or, Option.pure_def]

/-- The digits of a number start with a digit. -/
theorem exists_toDigits_eq_digit (n : Nat) :
    ∃ digit digits, Nat.toDigits 10 n = digit :: digits ∧ digit.isDigit = true := by
  cases isCons : Nat.toDigits 10 n with
  | nil =>
      exact absurd isCons Nat.toDigits_ne_nil
  | cons digit digits =>
      refine ⟨digit, digits, rfl, ?_⟩
      have member : digit ∈ Nat.toDigits 10 n := by simp [isCons]
      exact Nat.isDigit_of_mem_toDigits (by decide) (by decide) member

/-- The first character of an integer. -/
theorem exists_toString_eq_cons (value : Int) :
    ∃ c characters,
      (toString value).toList = c :: characters ∧ (c.isDigit = true ∨ c = '-') := by
  rw [Int.toString_eq_repr]
  cases value with
  | ofNat n =>
      obtain ⟨digit, digits, isCons, isDigit⟩ := exists_toDigits_eq_digit n
      exact ⟨digit, digits, Nat.toList_repr.trans isCons, Or.inl isDigit⟩
  | negSucc n =>
      exact ⟨'-', n.succ.repr.toList, by simp [Int.repr], Or.inr rfl⟩

/-- The digits of an integer, behind a sign if it is negative. -/
theorem readNumber_toString
    (value : Int)
    {rest : List Char}
    (ends : EndsNumber rest) :
    readNumber ((toString value).toList ++ rest) = some (.integer value, rest) := by
  rw [Int.toString_eq_repr]
  cases value with
  | ofNat n =>
      show readNumber (n.repr.toList ++ rest) = _
      rw [Nat.toList_repr]
      have reads := readUnsigned_toDigits false n ends
      obtain ⟨digit, digits, isCons, isDigit⟩ := exists_toDigits_eq_digit n
      rw [isCons] at reads ⊢
      unfold readNumber
      split
      · rename_i signed
        cases signed
        exact absurd isDigit (by decide)
      · exact reads
  | negSucc n =>
      show readNumber (("-" ++ n.succ.repr).toList ++ rest) = _
      rw [String.toList_append, Nat.toList_repr]
      exact readUnsigned_toDigits true (n + 1) ends

/-- A number with a fraction. -/
theorem readNumber_fraction
    {rest : List Char}
    (ends : EndsNumber rest) :
    readNumber ('0' :: '.' :: '0' :: rest) = some (.fraction, rest) := by
  have zero : Char.isDigit '0' = true := by decide
  simp [readNumber, readUnsigned, readWhole, skipFraction, skipDigits, zero,
    ends.dropWhile_isDigit, ends.skipExponent_eq]

/-!
## Values
-/

theorem skipBlanks_cons
    {c : Char}
    (notBlank : isBlank c = false)
    (rest : List Char) :
    skipBlanks (c :: rest) = c :: rest := by
  simp [skipBlanks, notBlank]

/-- A character that starts a number is no other sign. -/
theorem ne_of_startsNumber
    {c sign : Char}
    (starts : c.isDigit = true ∨ c = '-')
    (noStart : sign.isDigit = false ∧ sign ≠ '-') :
    c ≠ sign := by
  rintro rfl
  rcases starts with isDigit | isMinus
  · exact Bool.noConfusion (isDigit.symm.trans noStart.1)
  · exact noStart.2 isMinus

theorem isBlank_of_startsNumber
    {c : Char}
    (starts : c.isDigit = true ∨ c = '-') :
    isBlank c = false := by
  have space := ne_of_startsNumber starts (show _ ∧ ' ' ≠ '-' by decide)
  have line := ne_of_startsNumber starts (show _ ∧ '\n' ≠ '-' by decide)
  have tab := ne_of_startsNumber starts (show _ ∧ '\t' ≠ '-' by decide)
  have carriage := ne_of_startsNumber starts (show _ ∧ '\r' ≠ '-' by decide)
  simp [isBlank, space, line, tab, carriage]

/-- What starts like a number is read as one. -/
theorem readValue_eq_readNumber
    {c : Char}
    (starts : c.isDigit = true ∨ c = '-')
    (depth : Nat)
    (rest : List Char) :
    readValue (depth + 1) (c :: rest) = readNumber (c :: rest) := by
  rw [readValue, skipBlanks_cons (isBlank_of_startsNumber starts)]
  split
  case h_7 =>
    rfl
  all_goals
    rename_i word
    cases word
    exact absurd rfl (ne_of_startsNumber starts (by decide))

/-- A value starts with a character that is neither blank nor a closing bracket. -/
theorem exists_render_eq_cons (value : Json) :
    ∃ c characters,
      value.render = c :: characters ∧ isBlank c = false ∧ c ≠ ']' := by
  cases value with
  | integer value =>
      obtain ⟨c, characters, isCons, starts⟩ := exists_toString_eq_cons value
      refine ⟨c, characters, ?_, isBlank_of_startsNumber starts,
        ne_of_startsNumber starts (by decide)⟩
      rw [render, isCons]
  | bool value =>
      cases value <;> simp [render, isBlank]
  | null | fraction | string | unreadable | array | object =>
      simp [render, quote, isBlank]

/-- Half a pair alone names no text. -/
theorem readString_unreadable (rest : List Char) :
    ∃ quoted,
      render .unreadable ++ rest = '"' :: quoted ∧ readString quoted = some (none, rest) := by
  have half : unitValue? 'd' '8' '0' '0' = some 0xd800 := by decide
  refine ⟨_, by rw [render]; rfl, ?_⟩
  simp [readString, readPieces, half, decodePieces, isLeading]

/-- The name of a member, with a colon and the value behind it. -/
theorem readString_renderMember
    (member : Option String × Json)
    (rest : List Char) :
    ∃ quoted,
      renderMember member ++ rest = '"' :: quoted ∧
        readString quoted = some (member.1, ':' :: (member.2.render ++ rest)) := by
  obtain ⟨_ | name, value⟩ := member
  · rw [renderMember, List.append_assoc]
    exact readString_unreadable _
  · rw [renderMember, List.append_assoc]
    exact readString_quote name _

theorem endsNumber_cons
    {c : Char}
    (notDigit : c.isDigit = false)
    (notPoint : c ≠ '.' ∧ c ≠ 'e' ∧ c ≠ 'E')
    (rest : List Char) :
    EndsNumber (c :: rest) := by
  intro first isFirst
  cases isFirst
  exact ⟨notDigit, notPoint⟩

/-!
## Items and members

The following lemmas say how a value, its items and its members are put together from
what the calls one level below have read.
-/

section

variable
  {depth : Nat}
  {rest : List Char}

theorem renderItems_cons_cons
    (item next : Json)
    (others : List Json) :
    renderItems (item :: next :: others) =
      item.render ++ ',' :: renderItems (next :: others) := by
  rw [renderItems]
  simp

/-- The items of an array start like the first of them. -/
theorem exists_renderItems_eq_cons
    {items : List Json}
    (nonempty : items ≠ []) :
    ∃ c characters,
      renderItems items = c :: characters ∧ isBlank c = false ∧ c ≠ ']' := by
  match items with
  | [] =>
      exact absurd rfl nonempty
  | [item] =>
      obtain ⟨c, characters, isCons, rest⟩ := exists_render_eq_cons item
      exact ⟨c, _, by rw [renderItems, isCons, List.cons_append], rest⟩
  | item :: next :: others =>
      obtain ⟨c, characters, isCons, rest⟩ := exists_render_eq_cons item
      exact ⟨c, _, by rw [renderItems_cons_cons, isCons, List.cons_append], rest⟩

theorem readValue_array
    {items : List Json}
    (nonempty : items ≠ [])
    (reads : readItems depth (renderItems items ++ rest) = some (items, rest)) :
    readValue (depth + 1) (render (.array items) ++ rest) = some (.array items, rest) := by
  obtain ⟨c, characters, isCons, notBlank, notClosed⟩ := exists_renderItems_eq_cons nonempty
  have skipped : skipBlanks (renderItems items ++ rest) = renderItems items ++ rest := by
    rw [isCons]
    exact skipBlanks_cons notBlank _
  rw [render, List.cons_append, readValue, skipBlanks_cons (by decide)]
  simp only [skipped]
  split
  · rename_i closed
    rw [isCons] at closed
    cases closed
    exact absurd rfl notClosed
  · rw [reads]
    rfl

theorem readItems_singleton
    {item : Json}
    (reads : readValue depth (item.render ++ ']' :: rest) = some (item, ']' :: rest)) :
    readItems (depth + 1) (renderItems [item] ++ rest) = some ([item], rest) := by
  rw [renderItems, List.append_assoc, List.singleton_append, readItems, reads]
  rfl

theorem readItems_cons
    {item next : Json}
    {others : List Json}
    (reads :
      readValue depth (item.render ++ ',' :: (renderItems (next :: others) ++ rest)) =
        some (item, ',' :: (renderItems (next :: others) ++ rest)))
    (readsOthers :
      readItems depth (renderItems (next :: others) ++ rest) = some (next :: others, rest)) :
    readItems (depth + 1) (renderItems (item :: next :: others) ++ rest) =
      some (item :: next :: others, rest) := by
  rw [renderItems_cons_cons, List.append_assoc, List.cons_append, readItems, reads]
  show (readItems depth (renderItems (next :: others) ++ rest)).bind _ = _
  rw [readsOthers]
  rfl

theorem renderMembers_cons_cons
    (member next : Option String × Json)
    (others : List (Option String × Json)) :
    renderMembers (member :: next :: others) =
      renderMember member ++ ',' :: renderMembers (next :: others) := by
  rw [renderMembers]
  simp

/-- The members of an object start with the name of the first of them. -/
theorem exists_renderMembers_eq_cons
    {members : List (Option String × Json)}
    (nonempty : members ≠ [])
    (rest : List Char) :
    ∃ characters, renderMembers members ++ rest = '"' :: characters := by
  match members with
  | [] =>
      exact absurd rfl nonempty
  | [member] =>
      obtain ⟨quoted, isQuoted, -⟩ := readString_renderMember member ('}' :: rest)
      exact ⟨quoted, by rw [renderMembers, List.append_assoc, List.singleton_append, isQuoted]⟩
  | member :: next :: others =>
      obtain ⟨quoted, isQuoted, -⟩ :=
        readString_renderMember member (',' :: (renderMembers (next :: others) ++ rest))
      exact ⟨quoted, by
        rw [renderMembers_cons_cons, List.append_assoc, List.cons_append, isQuoted]⟩

theorem readValue_object
    {members : List (Option String × Json)}
    (nonempty : members ≠ [])
    (reads : readMembers depth (renderMembers members ++ rest) = some (members, rest)) :
    readValue (depth + 1) (render (.object members) ++ rest) = some (.object members, rest) := by
  obtain ⟨characters, isCons⟩ := exists_renderMembers_eq_cons nonempty rest
  have skipped : skipBlanks (renderMembers members ++ rest) = renderMembers members ++ rest := by
    rw [isCons]
    exact skipBlanks_cons (by decide) _
  rw [render, List.cons_append, readValue, skipBlanks_cons (by decide)]
  simp only [skipped]
  split
  · rename_i closed
    rw [isCons] at closed
    cases closed
  · rw [reads]
    rfl

theorem readMembers_singleton
    {member : Option String × Json}
    (reads :
      readMember depth (renderMember member ++ '}' :: rest) = some (member, '}' :: rest)) :
    readMembers (depth + 1) (renderMembers [member] ++ rest) = some ([member], rest) := by
  rw [renderMembers, List.append_assoc, List.singleton_append, readMembers, reads]
  rfl

theorem readMembers_cons
    {member next : Option String × Json}
    {others : List (Option String × Json)}
    (reads :
      readMember depth (renderMember member ++ ',' :: (renderMembers (next :: others) ++ rest)) =
        some (member, ',' :: (renderMembers (next :: others) ++ rest)))
    (readsOthers :
      readMembers depth (renderMembers (next :: others) ++ rest) = some (next :: others, rest)) :
    readMembers (depth + 1) (renderMembers (member :: next :: others) ++ rest) =
      some (member :: next :: others, rest) := by
  rw [renderMembers_cons_cons, List.append_assoc, List.cons_append, readMembers, reads]
  show (readMembers depth (renderMembers (next :: others) ++ rest)).bind _ = _
  rw [readsOthers]
  rfl

theorem readMember_renderMember
    {member : Option String × Json}
    (reads : readValue depth (member.2.render ++ rest) = some (member.2, rest)) :
    readMember (depth + 1) (renderMember member ++ rest) = some (member, rest) := by
  obtain ⟨quoted, isQuoted, readsName⟩ := readString_renderMember member rest
  rw [isQuoted, readMember, skipBlanks_cons (by decide)]
  simp only [readsName]
  show (readValue depth (member.2.render ++ rest)).bind _ = _
  rw [reads]
  rfl

end

mutual

/-- A value is read back from its text. -/
theorem readValue_render
    (value : Json)
    {depth : Nat}
    {rest : List Char}
    (deep : value.render.length ≤ depth)
    (ends : EndsNumber rest) :
    readValue depth (value.render ++ rest) = some (value, rest) := by
  obtain ⟨c, characters, isCons, -⟩ := exists_render_eq_cons value
  obtain ⟨depth, rfl⟩ : ∃ less, depth = less + 1 := by
    rw [isCons, List.length_cons] at deep
    exact ⟨depth - 1, by omega⟩
  match value with
  | .null =>
      simp [render, readValue, skipBlanks, isBlank]
  | .bool true =>
      simp [render, readValue, skipBlanks, isBlank]
  | .bool false =>
      simp [render, readValue, skipBlanks, isBlank]
  | .integer number =>
      obtain ⟨c, characters, isCons, starts⟩ := exists_toString_eq_cons number
      rw [render, isCons, List.cons_append, readValue_eq_readNumber starts, ← List.cons_append,
        ← isCons]
      exact readNumber_toString number ends
  | .fraction =>
      rw [render, List.cons_append, readValue_eq_readNumber (by decide)]
      exact readNumber_fraction ends
  | .string text =>
      obtain ⟨quoted, isQuoted, reads⟩ := readString_quote text rest
      rw [render, isQuoted]
      simp [readValue, skipBlanks, isBlank, reads]
  | .unreadable =>
      obtain ⟨quoted, isQuoted, reads⟩ := readString_unreadable rest
      rw [isQuoted]
      simp [readValue, skipBlanks, isBlank, reads]
  | .array [] =>
      simp [render, renderItems, readValue, skipBlanks, isBlank]
  | .array (item :: others) =>
      rw [render, List.length_cons] at deep
      exact readValue_array (by simp)
        (readItems_render (item :: others) (by simp) (by omega))
  | .object [] =>
      simp [render, renderMembers, readValue, skipBlanks, isBlank]
  | .object (member :: others) =>
      rw [render, List.length_cons] at deep
      exact readValue_object (by simp)
        (readMembers_render (member :: others) (by simp) (by omega))

/-- The items of an array are read back up to its closing bracket. -/
theorem readItems_render
    (items : List Json)
    {depth : Nat}
    {rest : List Char}
    (nonempty : items ≠ [])
    (deep : (renderItems items).length ≤ depth) :
    readItems depth (renderItems items ++ rest) = some (items, rest) := by
  match items with
  | [] =>
      exact absurd rfl nonempty
  | [item] =>
      rw [renderItems, List.length_append, List.length_singleton] at deep
      obtain ⟨depth, rfl⟩ : ∃ less, depth = less + 1 := ⟨depth - 1, by omega⟩
      exact readItems_singleton
        (readValue_render item (by omega) (endsNumber_cons (by decide) (by decide) _))
  | item :: next :: others =>
      rw [renderItems_cons_cons, List.length_append, List.length_cons] at deep
      obtain ⟨depth, rfl⟩ : ∃ less, depth = less + 1 := ⟨depth - 1, by omega⟩
      exact readItems_cons
        (readValue_render item (by omega) (endsNumber_cons (by decide) (by decide) _))
        (readItems_render (next :: others) (by simp) (by omega))

/-- The members of an object are read back up to its closing bracket. -/
theorem readMembers_render
    (members : List (Option String × Json))
    {depth : Nat}
    {rest : List Char}
    (nonempty : members ≠ [])
    (deep : (renderMembers members).length ≤ depth) :
    readMembers depth (renderMembers members ++ rest) = some (members, rest) := by
  match members with
  | [] =>
      exact absurd rfl nonempty
  | [member] =>
      rw [renderMembers, List.length_append, List.length_singleton] at deep
      obtain ⟨depth, rfl⟩ : ∃ less, depth = less + 1 := ⟨depth - 1, by omega⟩
      exact readMembers_singleton
        (readMember_render member (by omega) (endsNumber_cons (by decide) (by decide) _))
  | member :: next :: others =>
      rw [renderMembers_cons_cons, List.length_append, List.length_cons] at deep
      obtain ⟨depth, rfl⟩ : ∃ less, depth = less + 1 := ⟨depth - 1, by omega⟩
      exact readMembers_cons
        (readMember_render member (by omega) (endsNumber_cons (by decide) (by decide) _))
        (readMembers_render (next :: others) (by simp) (by omega))

/-- A member is read back, its name and then its value. -/
theorem readMember_render
    (member : Option String × Json)
    {depth : Nat}
    {rest : List Char}
    (deep : (renderMember member).length ≤ depth)
    (ends : EndsNumber rest) :
    readMember depth (renderMember member ++ rest) = some (member, rest) := by
  match member with
  | (name, value) =>
      have shorter : value.render.length < (renderMember (name, value)).length := by
        cases name <;> simp [renderMember] <;> omega
      obtain ⟨depth, rfl⟩ : ∃ less, depth = less + 1 := ⟨depth - 1, by omega⟩
      exact readMember_renderMember (readValue_render value (by omega) ends)

end

/-- Every value is read back from its text. -/
theorem parse?_text (value : Json) :
    parse? value.text = some value := by
  have reads
      {depth : Nat}
      (deep : value.render.length ≤ depth) :
      readValue depth value.render = some (value, []) := by
    have whole : EndsNumber [] := by
      intro c isFirst
      cases isFirst
    have withRest := readValue_render value deep whole
    rw [List.append_nil] at withRest
    exact withRest
  have characters : value.text.toList = value.render := String.toList_ofList
  unfold parse?
  dsimp only
  rw [characters, reads (by omega)]
  rfl

end Rv64Codegen.Json
