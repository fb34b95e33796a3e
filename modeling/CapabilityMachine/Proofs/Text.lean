import CapabilityMachine.Text.Numeral
/-!
# Texts in pieces

A text that is put together from pieces can be taken apart again if each piece is followed by
something that cannot belong to it. Numerals are pieces of digits, and the number can be told from
the digits, also if there are zeros in front.
-/

namespace CapabilityMachine

section Pieces

variable {belongs : Char → Bool} {piece other rest otherRest : List Char}

/-- The text does not start with a character that belongs to a piece. -/
def Stops (belongs : Char → Bool) (text : List Char) : Prop :=
  ∀ character ∈ text.head?, belongs character = false

@[simp]
theorem stops_nil : Stops belongs [] := by
  simp [Stops]

@[simp]
theorem stops_cons {character : Char} :
    Stops belongs (character :: rest) ↔ belongs character = false := by
  simp [Stops]

theorem takeWhile_append_of_stops (inside : ∀ character ∈ piece, belongs character)
    (stops : Stops belongs rest) : (piece ++ rest).takeWhile belongs = piece := by
  rw [List.takeWhile_append_of_pos inside]
  cases rest with
  | nil => simp
  | cons character rest => simp [stops_cons.1 stops]

theorem dropWhile_append_of_stops (inside : ∀ character ∈ piece, belongs character)
    (stops : Stops belongs rest) : (piece ++ rest).dropWhile belongs = rest := by
  have parts := List.takeWhile_append_dropWhile (p := belongs) (l := piece ++ rest)
  rw [takeWhile_append_of_stops inside stops] at parts
  exact List.append_cancel_left parts

/-- The end of the first piece is found if what comes next does not belong to it. -/
theorem append_inj_of_stops (inside : ∀ character ∈ piece, belongs character)
    (otherInside : ∀ character ∈ other, belongs character) (stops : Stops belongs rest)
    (otherStops : Stops belongs otherRest) (same : piece ++ rest = other ++ otherRest) :
    piece = other ∧ rest = otherRest := by
  have pieces := congrArg (List.takeWhile belongs) same
  have rests := congrArg (List.dropWhile belongs) same
  rw [takeWhile_append_of_stops inside stops,
    takeWhile_append_of_stops otherInside otherStops] at pieces
  rw [dropWhile_append_of_stops inside stops,
    dropWhile_append_of_stops otherInside otherStops] at rests
  exact ⟨pieces, rests⟩

theorem append_cons_inj {stop : Char} (absent : stop ∉ piece) (otherAbsent : stop ∉ other)
    (same : piece ++ stop :: rest = other ++ stop :: otherRest) :
    piece = other ∧ rest = otherRest := by
  have inside (text : List Char) (absent : stop ∉ text) :
      ∀ character ∈ text, (character != stop) = true := by
    intro character member
    rw [bne_iff_ne]
    exact ne_of_mem_of_not_mem member absent
  have stops (text : List Char) : Stops (· != stop) (stop :: text) := by simp
  rcases append_inj_of_stops (inside piece absent) (inside other otherAbsent) (stops rest)
    (stops otherRest) same with ⟨piece_eq, rest_eq⟩
  exact ⟨piece_eq, List.tail_eq_of_cons_eq rest_eq⟩

end Pieces

namespace Numeral

variable {first second : Nat} {rest otherRest : List Char}

theorem isDigit_of_mem {n : Nat} : ∀ digit ∈ Nat.toDigits 10 n, digit.isDigit :=
  fun _ => Nat.isDigit_of_mem_toDigits (by decide) (by decide)

theorem notMem_toDigits {n : Nat} {character : Char} (noDigit : character.isDigit = false) :
    character ∉ Nat.toDigits 10 n := by
  intro member
  rw [isDigit_of_mem character member] at noDigit
  cases noDigit

theorem toDigits_inj : Nat.toDigits 10 first = Nat.toDigits 10 second ↔ first = second := by
  constructor
  · intro same
    have value := congrArg (Nat.ofDigitChars 10 · 0) same
    simpa only [Nat.ofDigitChars_ten_toDigits] using value
  · rintro rfl
    rfl

/-- A decimal numeral ends where the digits do. -/
theorem toDigits_append_inj (stops : Stops Char.isDigit rest)
    (otherStops : Stops Char.isDigit otherRest)
    (same : Nat.toDigits 10 first ++ rest = Nat.toDigits 10 second ++ otherRest) :
    first = second ∧ rest = otherRest := by
  rcases append_inj_of_stops isDigit_of_mem isDigit_of_mem stops otherStops same with
    ⟨digits, rest_eq⟩
  exact ⟨toDigits_inj.1 digits, rest_eq⟩

theorem toList_repr_int (n : Int) :
    n.repr.toList =
      if n < 0 then '-' :: Nat.toDigits 10 n.natAbs else Nat.toDigits 10 n.natAbs := by
  rw [Int.repr_eq_if]
  split
  · rename_i nonnegative
    have natAbs_eq : n.natAbs = n.toNat := by omega
    rw [if_neg (Int.not_lt.2 nonnegative), natAbs_eq, Nat.toList_repr]
  · rename_i negative
    have natAbs_eq : n.natAbs = (-n).toNat := by omega
    rw [if_pos (Int.not_le.1 negative), natAbs_eq]
    simp

theorem repr_int_inj {first second : Int} : first.repr = second.repr ↔ first = second := by
  constructor
  · intro same
    have texts := congrArg String.toList same
    have noMinus (n : Nat) : '-' ∉ Nat.toDigits 10 n := notMem_toDigits rfl
    simp only [toList_repr_int] at texts
    split at texts <;> split at texts
    · have := toDigits_inj.1 (List.tail_eq_of_cons_eq texts)
      omega
    · exact absurd (texts ▸ List.mem_cons_self) (noMinus _)
    · exact absurd (texts ▸ List.mem_cons_self) (noMinus _)
    · have := toDigits_inj.1 texts
      omega
  · rintro rfl
    rfl

/-! ### Hexadecimal numerals -/

/-- The value of a lower-case hexadecimal digit. -/
def digitValue (digit : Char) : Nat :=
  if digit.isDigit then digit.toNat - '0'.toNat else digit.toNat - 'a'.toNat + 10

/-- The number that hexadecimal digits stand for. -/
def ofHexadecimal (digits : List Char) : Nat :=
  digits.foldl (fun n digit => 16 * n + digitValue digit) 0

theorem digitValue_digitChar {n : Nat} (small : n < 16) : digitValue n.digitChar = n := by
  revert n
  decide

theorem exists_of_mem_toDigits {n : Nat} {digit : Char} (member : digit ∈ Nat.toDigits 16 n) :
    ∃ value < 16, digit = value.digitChar := by
  induction n using Nat.strongRecOn with
  | ind n ih =>
    rw [Nat.toDigits_eq_if (by decide)] at member
    split at member
    · rename_i small
      exact ⟨n, small, List.mem_singleton.1 member⟩
    · rcases List.mem_append.1 member with earlier | last
      · exact ih (n / 16) (by omega) earlier
      · exact ⟨n % 16, Nat.mod_lt n (by decide), List.mem_singleton.1 last⟩

theorem blank_notMem_hexadecimal {width n : Nat} : ' ' ∉ (hexadecimal width n).toList := by
  intro member
  rw [hexadecimal, String.toList_ofList, List.leftpad, List.mem_append] at member
  rcases member with padding | digits
  · exact absurd (List.eq_of_mem_replicate padding) (by decide)
  · rcases exists_of_mem_toDigits digits with ⟨value, small, blank⟩
    revert value
    decide

theorem ofHexadecimal_toDigits (n : Nat) : ofHexadecimal (Nat.toDigits 16 n) = n := by
  induction n using Nat.strongRecOn with
  | ind n ih =>
    rw [Nat.toDigits_eq_if (by decide)]
    split
    · rename_i small
      simp [ofHexadecimal, digitValue_digitChar small]
    · rename_i large
      have quotient := ih (n / 16) (by omega)
      rw [ofHexadecimal] at quotient
      rw [ofHexadecimal, List.foldl_append, quotient, List.foldl_cons, List.foldl_nil,
        digitValue_digitChar (Nat.mod_lt n (by decide)), Nat.div_add_mod]

theorem ofHexadecimal_leftpad (width : Nat) (digits : List Char) :
    ofHexadecimal (digits.leftpad width '0') = ofHexadecimal digits := by
  have zeros (count : Nat) : ofHexadecimal (List.replicate count '0') = 0 := by
    induction count with
    | zero => rfl
    | succ count ih => simpa [ofHexadecimal, List.replicate_succ, digitValue] using ih
  have padding := zeros (width - digits.length)
  rw [ofHexadecimal] at padding
  rw [List.leftpad, ofHexadecimal, List.foldl_append, padding, ofHexadecimal]

theorem hexadecimal_inj {width : Nat} :
    hexadecimal width first = hexadecimal width second ↔ first = second := by
  constructor
  · intro same
    have value := congrArg ofHexadecimal (String.ofList_inj.1 same)
    simpa only [ofHexadecimal_leftpad, ofHexadecimal_toDigits] using value
  · rintro rfl
    rfl

end Numeral

end CapabilityMachine
