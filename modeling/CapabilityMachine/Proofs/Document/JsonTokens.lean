import CapabilityMachine.Document.Json
import CapabilityMachine.Proofs.Outcome
import CapabilityMachine.Proofs.Text
import Mathlib.Data.List.TakeDrop
import Mathlib.Data.Option.Basic
/-!
# Numbers and texts read back from JSON

An integer below the size of a 64-bit number is read back from its digits, if nothing follows that
would go on with the number. A text is read back character by character, each of which is one piece
of it, and no piece is half of a pair of surrogates.
-/

namespace CapabilityMachine.Json

variable {rest : List Char} {digits : List Char}

/-! ### Numbers -/

/-- The character may be a later part of a number. -/
def continuesNumber (character : Char) : Bool :=
  character.isDigit || character = '.' || character = 'e' || character = 'E'

theorem stops_isDigit (stops : Stops continuesNumber rest) : Stops Char.isDigit rest := by
  intro character isHead
  have := stops character isHead
  simp_all [continuesNumber]

theorem readFraction_of_stops (stops : Stops continuesNumber rest) :
    readFraction rest = some ([], rest) := by
  unfold readFraction
  split
  · exact absurd (stops_cons.1 stops) (by decide)
  · rfl

theorem readExponent_of_stops (stops : Stops continuesNumber rest) :
    readExponent rest = some (none, rest) := by
  cases rest with
  | nil => rfl
  | cons character others =>
    have := stops_cons.1 stops
    simp_all [readExponent, continuesNumber]

theorem readDigits_append (isDigit : ∀ digit ∈ digits, digit.isDigit) (some_digit : digits ≠ [])
    (stops : Stops Char.isDigit rest) : readDigits (digits ++ rest) = some (digits, rest) := by
  rw [readDigits, List.span_eq_takeWhile_dropWhile, takeWhile_append_of_stops isDigit stops,
    dropWhile_append_of_stops isDigit stops]
  cases digits with
  | nil => exact absurd rfl some_digit
  | cons digit digits => rfl

theorem exists_toDigits_eq_cons (n : Nat) :
    ∃ digit digits, Nat.toDigits 10 n = digit :: digits ∧ digit.isDigit := by
  cases digits_eq : Nat.toDigits 10 n with
  | nil => exact absurd digits_eq Nat.toDigits_ne_nil
  | cons digit digits =>
    exact ⟨digit, digits, rfl, Numeral.isDigit_of_mem digit (digits_eq ▸ List.mem_cons_self)⟩

/-- No numeral but that of zero starts with a zero. -/
theorem eq_zero_of_head_toDigits {n : Nat} (zero : (Nat.toDigits 10 n).head? = some '0') :
    n = 0 := by
  induction n using Nat.strongRecOn with
  | ind n ih =>
    rw [Nat.toDigits_eq_if (by decide)] at zero
    split at zero
    · rename_i small
      have onlyZero : ∀ digit < 10, [Nat.digitChar digit].head? = some '0' → digit = 0 := by decide
      exact onlyZero n small zero
    · rename_i large
      have quotientZero : (Nat.toDigits 10 (n / 10)).head? = some '0' := by
        rcases exists_toDigits_eq_cons (n / 10) with ⟨digit, digits, digits_eq, _⟩
        rw [digits_eq] at zero ⊢
        exact zero
      have := ih (n / 10) (by omega) quotientZero
      omega

theorem readMagnitude_append (n : Nat) (stops : Stops continuesNumber rest) :
    readMagnitude (Nat.toDigits 10 n ++ rest) = some (⟨Nat.toDigits 10 n, [], none⟩, rest) := by
  have digits := readDigits_append Numeral.isDigit_of_mem (Nat.toDigits_ne_nil (n := n))
    (stops_isDigit stops)
  have whole : readWhole (Nat.toDigits 10 n ++ rest) = some (Nat.toDigits 10 n, rest) := by
    have noNeedless : (Nat.toDigits 10 n).head? = some '0' → (Nat.toDigits 10 n).length = 1 := by
      intro zero
      rw [eq_zero_of_head_toDigits zero]
      rfl
    rw [readWhole, digits, Option.bind_eq_bind, Option.bind_some]
    exact Outcome.guard_bind noNeedless _
  simp [readMagnitude, whole, readFraction_of_stops stops, readExponent_of_stops stops]

theorem le_ofDigitChars (number : Nat) (digits : List Char) :
    number ≤ Nat.ofDigitChars 10 digits number := by
  induction digits generalizing number with
  | nil => simp
  | cons digit digits ih =>
    rw [Nat.ofDigitChars_cons]
    exact Nat.le_trans (by omega) (ih _)

theorem appendDigits_eq {number : Nat} (fits : Nat.ofDigitChars 10 digits number < UInt64.size) :
    appendDigits number digits = (Nat.ofDigitChars 10 digits number, []) := by
  induction digits generalizing number with
  | nil => simp [appendDigits]
  | cons digit digits ih =>
    rw [Nat.ofDigitChars_cons] at fits
    have longerFits := Nat.lt_of_le_of_lt (le_ofDigitChars _ digits) fits
    simp only [appendDigits, longerFits, if_true]
    rw [ih fits, Nat.ofDigitChars_cons]

theorem toDatum_toDigits (negative : Bool) {n : Nat} (fits : n < UInt64.size)
    (noMinusZero : ¬(negative ∧ n = 0)) :
    (Magnitude.mk (Nat.toDigits 10 n) [] none).toDatum negative =
      .int (if negative then -n else n) := by
  have number : Nat.ofDigitChars 10 (Nat.toDigits 10 n) 0 = n := Nat.ofDigitChars_ten_toDigits
  have leading : appendDigits 0 (Nat.toDigits 10 n) = (n, []) := by
    rw [appendDigits_eq (by rwa [number]), number]
  have inRange : (Magnitude.mk (Nat.toDigits 10 n) [] none).isInRange = true := by
    simp [Magnitude.isInRange, Magnitude.leading, leading, appendDigits]
  have coefficient : (Magnitude.mk (Nat.toDigits 10 n) [] none).coefficient = (n, 0) := by
    simp [Magnitude.coefficient, number]
  simp [Magnitude.toDatum, inRange, coefficient, noMinusZero]

theorem readNumber_of_readMagnitude {input : List Char} {magnitude : Magnitude}
    (noSign : input.head? ≠ some '-') (read : readMagnitude input = some (magnitude, rest)) :
    readNumber input = some (magnitude.toDatum false, rest) := by
  rw [readNumber, read, Option.map_some]
  rintro others rfl
  exact noSign rfl

/-- An integer is read back from its digits. -/
theorem readNumber_printInt {n : Int} (fits : n.natAbs < UInt64.size)
    (stops : Stops continuesNumber rest) :
    readNumber (printInt n ++ rest) = some (.int n, rest) := by
  have magnitude := readMagnitude_append n.natAbs stops
  unfold printInt
  split
  · rename_i negative
    have datum := toDatum_toDigits true fits (by omega)
    have natAbs_eq : (if true then -(n.natAbs : Int) else n.natAbs) = n := by
      rw [if_pos rfl]
      omega
    rw [natAbs_eq] at datum
    rw [List.cons_append, readNumber, magnitude]
    simp only [Option.map_some, datum]
  · rename_i nonnegative
    have datum := toDatum_toDigits false fits (by simp)
    have natAbs_eq : (if false then -(n.natAbs : Int) else n.natAbs) = n := by
      rw [if_neg (by decide)]
      omega
    have noSign : (Nat.toDigits 10 n.natAbs ++ rest).head? ≠ some '-' := by
      rcases exists_toDigits_eq_cons n.natAbs with ⟨digit, digits, digits_eq, isDigit⟩
      rw [digits_eq]
      rintro ⟨⟩
      exact absurd isDigit (by decide)
    rw [natAbs_eq] at datum
    rw [readNumber_of_readMagnitude noSign magnitude, datum]

/-! ### Texts -/

theorem escapedBy?_of_escapeLetter? {character letter : Char}
    (isEscaped : escapeLetter? character = some letter) :
    escapedBy? letter = some character ∧ letter ≠ 'u' := by
  unfold escapeLetter? at isEscaped
  split at isEscaped <;> cases isEscaped <;> exact ⟨rfl, by decide⟩

/-- Control characters are escaped by four digits that stand for their number. -/
theorem unit?_of_control :
    ∀ n < 0x20, (Numeral.hexadecimal 4 n).toList =
        ['0', '0', Nat.digitChar (n / 16), Nat.digitChar (n % 16)] ∧
      unit? '0' '0' (Nat.digitChar (n / 16)) (Nat.digitChar (n % 16)) = some n := by
  decide

/-- The piece as which a character is read back. -/
def pieceOf (character : Char) : Piece :=
  if escapeLetter? character = none ∧ character.toNat < 0x20 then .unit character.toNat
  else .character character

theorem readPieces_printCharacter (character : Char) (rest : List Char) :
    readPieces (printCharacter character ++ rest) =
      (readPieces rest).map fun (pieces, rest) => (pieceOf character :: pieces, rest) := by
  cases isEscaped : escapeLetter? character with
  | some letter =>
    rcases escapedBy?_of_escapeLetter? isEscaped with ⟨escaped, notUnit⟩
    simp only [printCharacter, pieceOf, isEscaped, List.cons_append, List.nil_append]
    rw [readPieces, escaped]
    · cases readPieces rest <;> rfl
    · intro first second third fourth others isUnit
      exact absurd isUnit notUnit
  | none =>
    by_cases control : character.toNat < 0x20
    · rcases unit?_of_control _ control with ⟨digits, unit⟩
      simp only [printCharacter, pieceOf, isEscaped, control, digits, if_true, List.cons_append,
        List.nil_append, and_self]
      rw [readPieces, unit]
      cases readPieces rest <;> rfl
    · simp only [printCharacter, pieceOf, isEscaped, control, if_false, List.cons_append,
        List.nil_append, and_false]
      have noQuote : character ≠ '\"' := by
        rintro rfl
        cases isEscaped
      have noBackslash : character ≠ '\\' := by
        rintro rfl
        cases isEscaped
      have plain : character ≠ '\\' ∧ 0x20 ≤ character.toNat :=
        ⟨noBackslash, Nat.le_of_not_lt control⟩
      rw [readPieces, Outcome.guard_bind plain]
      · cases readPieces rest <;> rfl
      · exact noQuote
      · exact fun _ _ _ _ _ isBackslash => absurd isBackslash noBackslash
      · exact fun _ _ isBackslash => absurd isBackslash noBackslash

theorem joinPieces_pieceOf_cons (character : Char) (pieces : List Piece) :
    joinPieces (pieceOf character :: pieces) = (joinPieces pieces).map (character :: ·) := by
  unfold pieceOf
  split
  · rename_i escaped
    have noUpper : isUpperSurrogate character.toNat = false := by
      simp [isUpperSurrogate]
      omega
    have noLower : isLowerSurrogate character.toNat = false := by
      simp [isLowerSurrogate]
      omega
    rw [joinPieces.eq_def]
    simp [noUpper, noLower]
  · rw [joinPieces]

theorem readPieces_flatMap (characters rest : List Char) :
    readPieces (characters.flatMap printCharacter ++ '\"' :: rest) =
      some (characters.map pieceOf, rest) := by
  induction characters with
  | nil => simp [readPieces]
  | cons character characters ih =>
    rw [List.flatMap_cons, List.append_assoc, readPieces_printCharacter, ih]
    rfl

theorem joinPieces_map (characters : List Char) :
    joinPieces (characters.map pieceOf) = some characters := by
  induction characters with
  | nil => rfl
  | cons character characters ih => rw [List.map_cons, joinPieces_pieceOf_cons, ih, Option.map_some]

/-- A text is read back, once its opening quotation mark has been read. -/
theorem readText_append (text : String) (rest : List Char) :
    readText (text.toList.flatMap printCharacter ++ '\"' :: rest) = some (some text, rest) := by
  simp [readText, readPieces_flatMap, joinPieces_map]

end CapabilityMachine.Json
