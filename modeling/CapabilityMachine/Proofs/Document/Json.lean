import CapabilityMachine.Proofs.Document.JsonTokens
/-!
# Data read back from JSON

What is written in JSON is read back, as long as its integers have 64 bits and there are no decimals
in it and nothing unreadable. The induction is on the steps that the reader may take, which are at
least twice as many as the characters of what it reads.
-/

namespace CapabilityMachine.Json

variable {datum : Datum} {fuel : Nat} {rest others : List Char} {character : Char}

/-- Data that are read back as they were written. -/
inductive Faithful : Datum → Prop
  | null : Faithful .null
  | bool (b : Bool) : Faithful (.bool b)
  | int {n : Int} (fits : n.natAbs < UInt64.size) : Faithful (.int n)
  | text (s : String) : Faithful (.text s)
  | list {items : List Datum} (faithful : ∀ item ∈ items, Faithful item) : Faithful (.list items)
  | record {fields : List (String × Datum)} (faithful : ∀ field ∈ fields, Faithful field.2) :
    Faithful (.record fields)

theorem printItems_cons_cons (item next : Datum) (items : List Datum) :
    printItems (item :: next :: items) = print item ++ ',' :: printItems (next :: items) := by
  rw [printItems]
  exact nofun

theorem printFields_cons_cons (field next : String × Datum) (fields : List (String × Datum)) :
    printFields (field :: next :: fields) =
      printText field.1 ++ ':' :: print field.2 ++ ',' :: printFields (next :: fields) := by
  rw [printFields]
  exact nofun

/-! ### Integers -/

/-- The character starts a number. -/
def startsNumber (character : Char) : Bool :=
  character.isDigit || character = '-'

theorem ne_of_startsNumber {other : Char} (starts : startsNumber character)
    (noStart : startsNumber other = false) : character ≠ other := by
  rintro rfl
  rw [starts] at noStart
  cases noStart

theorem isBlank_of_startsNumber (starts : startsNumber character) : isBlank character = false := by
  simp only [isBlank, Bool.or_eq_false_iff, decide_eq_false_iff_not]
  exact ⟨⟨⟨ne_of_startsNumber starts rfl, ne_of_startsNumber starts rfl⟩,
    ne_of_startsNumber starts rfl⟩, ne_of_startsNumber starts rfl⟩

theorem exists_printInt_eq_cons (n : Int) :
    ∃ character others, printInt n = character :: others ∧ startsNumber character := by
  unfold printInt
  split
  · exact ⟨_, _, rfl, rfl⟩
  · rcases exists_toDigits_eq_cons n.natAbs with ⟨digit, digits, digits_eq, isDigit⟩
    exact ⟨digit, digits, digits_eq, by simp [startsNumber, isDigit]⟩

theorem skipBlanks_cons (solid : isBlank character = false) :
    skipBlanks (character :: others) = character :: others := by
  simp [skipBlanks, solid]

theorem readDatum_of_startsNumber (starts : startsNumber character) :
    readDatum (fuel + 1) (character :: others) = readNumber (character :: others) := by
  have scalar : readScalar (character :: others) = readNumber (character :: others) := by
    unfold readScalar
    split <;> simp_all [startsNumber]
  rw [readDatum, skipBlanks_cons (isBlank_of_startsNumber starts)]
  split <;> simp_all [startsNumber]

theorem readDatum_printInt {n : Int} (fits : n.natAbs < UInt64.size)
    (stops : Stops continuesNumber rest) :
    readDatum (fuel + 1) (printInt n ++ rest) = some (.int n, rest) := by
  rw [← readNumber_printInt fits stops]
  rcases exists_printInt_eq_cons n with ⟨character, others, print_eq, starts⟩
  rw [print_eq]
  exact readDatum_of_startsNumber starts

/-! ### The first character -/

/-- The text has a first character, which neither separates tokens nor ends a list. -/
def Opens (text : List Char) : Prop :=
  ∃ character others, text = character :: others ∧ isBlank character = false ∧ character ≠ ']'

theorem Opens.append {text : List Char} (opens : Opens text) (rest : List Char) :
    Opens (text ++ rest) := by
  rcases opens with ⟨character, others, rfl, solid, inside⟩
  exact ⟨character, others ++ rest, rfl, solid, inside⟩

theorem opens_printInt (n : Int) : Opens (printInt n) := by
  rcases exists_printInt_eq_cons n with ⟨character, others, print_eq, starts⟩
  exact ⟨character, others, print_eq, isBlank_of_startsNumber starts, ne_of_startsNumber starts rfl⟩

theorem opens_print (faithful : Faithful datum) : Opens (print datum) := by
  cases faithful with
  | int fits => exact opens_printInt _
  | bool b => cases b <;> exact ⟨_, _, rfl, by decide, by decide⟩
  | null | text | list | record => exact ⟨_, _, rfl, by decide, by decide⟩

theorem opens_printItems {item : Datum} (faithful : Faithful item) (items : List Datum) :
    Opens (printItems (item :: items)) := by
  cases items with
  | nil =>
    rw [printItems]
    exact opens_print faithful
  | cons next items =>
    rw [printItems_cons_cons]
    exact (opens_print faithful).append _

/-! ### Data -/

/-- With this many steps, everything is read back that is not too long. -/
structure ReadsBack (fuel : Nat) : Prop where
  datum : ∀ {datum : Datum} (rest : List Char), Faithful datum →
    2 * (print datum).length ≤ fuel → Stops continuesNumber rest →
    readDatum fuel (print datum ++ rest) = some (datum, rest)
  items : ∀ {item : Datum} {items : List Datum} (rest : List Char),
    (∀ other ∈ item :: items, Faithful other) →
    2 * (printItems (item :: items)).length < fuel →
    readItems fuel (printItems (item :: items) ++ ']' :: rest) = some (item :: items, rest)
  fields : ∀ {field : String × Datum} {fields : List (String × Datum)} (rest : List Char),
    (∀ other ∈ field :: fields, Faithful other.2) →
    2 * (printFields (field :: fields)).length < fuel →
    readFields fuel (printFields (field :: fields) ++ '\x7d' :: rest) =
      some ((field :: fields).map fun (name, datum) => (some name, datum), rest)

theorem recordDatum_map (fields : List (String × Datum)) :
    recordDatum (fields.map fun (name, datum) => (some name, datum)) = .record fields := by
  have named : namedFields? (fields.map fun (name, datum) => (some name, datum)) = some fields := by
    induction fields with
    | nil => rfl
    | cons field fields ih =>
      rw [namedFields?] at ih ⊢
      simp [List.mapM_cons, ih]
  rw [recordDatum, named]
  rfl

theorem readsBack_zero : ReadsBack 0 where
  datum rest faithful short := by
    rcases opens_print faithful with ⟨character, others, print_eq, _⟩
    rw [print_eq] at short
    simp at short
  items rest faithful short := absurd short (Nat.not_lt_zero _)
  fields rest faithful short := absurd short (Nat.not_lt_zero _)

theorem ReadsBack.datum_succ (readsBack : ReadsBack fuel) (faithful : Faithful datum)
    (short : 2 * (print datum).length ≤ fuel + 1) (stops : Stops continuesNumber rest) :
    readDatum (fuel + 1) (print datum ++ rest) = some (datum, rest) := by
  cases faithful with
  | null => simp [print, readDatum, skipBlanks, isBlank, readScalar]
  | bool b =>
    have words : (toString true).toList = "true".toList ∧
        (toString false).toList = "false".toList :=
      ⟨rfl, rfl⟩
    cases b <;> simp [print, words, readDatum, skipBlanks, isBlank, readScalar]
  | int fits =>
    rw [print]
    exact readDatum_printInt fits stops
  | text s =>
    simp [print, printText, readDatum, skipBlanks, isBlank, readText_append, textDatum]
  | @list items faithful =>
    cases items with
    | nil => simp [print, printItems, readDatum, skipBlanks, isBlank]
    | cons item items =>
      rcases opens_printItems (faithful item List.mem_cons_self) items with
        ⟨character, others, print_eq, solid, inside⟩
      simp only [print, List.length_append, List.length_cons, List.length_nil] at short
      have read := readsBack.items rest faithful (by omega)
      rw [print_eq, List.cons_append] at read
      simp only [print, print_eq, List.cons_append, List.append_assoc, List.nil_append]
      rw [readDatum, skipBlanks_cons rfl]
      simp only [skipBlanks_cons solid]
      split
      · simp_all
      · simp [read]
  | @record fields faithful =>
    cases fields with
    | nil => simp [print, printFields, readDatum, skipBlanks, isBlank]
    | cons field fields =>
      simp only [print, List.length_append, List.length_cons, List.length_nil] at short
      have read := readsBack.fields rest faithful (by omega)
      have quoted : ∃ others, printFields (field :: fields) ++ '\x7d' :: rest = '\"' :: others := by
        cases fields <;> exact ⟨_, rfl⟩
      rcases quoted with ⟨others, print_eq⟩
      rw [print_eq] at read
      simp only [print, List.cons_append, List.append_assoc, List.nil_append, print_eq]
      rw [readDatum, skipBlanks_cons rfl]
      simp only [skipBlanks_cons (show isBlank '\"' = false from rfl)]
      split
      · simp_all
      · simp only [read, Option.map_some, recordDatum_map]

theorem ReadsBack.items_succ (readsBack : ReadsBack fuel) {item : Datum} {items : List Datum}
    (faithful : ∀ other ∈ item :: items, Faithful other)
    (short : 2 * (printItems (item :: items)).length < fuel + 1) :
    readItems (fuel + 1) (printItems (item :: items) ++ ']' :: rest) =
      some (item :: items, rest) := by
  have itemFaithful := faithful item List.mem_cons_self
  cases items with
  | nil =>
    rw [printItems] at short ⊢
    have read := readsBack.datum (']' :: rest) itemFaithful (by omega) (by simp [continuesNumber])
    simp [readItems, read, skipBlanks, isBlank]
  | cons next items =>
    have othersFaithful : ∀ other ∈ next :: items, Faithful other :=
      fun other member => faithful other (List.mem_cons_of_mem _ member)
    rw [printItems_cons_cons, List.length_append, List.length_cons] at short
    have readOthers := readsBack.items rest othersFaithful (by omega)
    have read := readsBack.datum (',' :: (printItems (next :: items) ++ ']' :: rest)) itemFaithful
      (by omega) (by simp [continuesNumber])
    rw [printItems_cons_cons, List.append_assoc, List.cons_append, readItems, read]
    simp [skipBlanks, isBlank, readOthers]

theorem readName_append (name : String) (rest : List Char) :
    readName (printText name ++ ':' :: rest) = some (some name, rest) := by
  simp [printText, readName, readText_append, skipBlanks, isBlank]

theorem ReadsBack.fields_succ (readsBack : ReadsBack fuel) {field : String × Datum}
    {fields : List (String × Datum)} (faithful : ∀ other ∈ field :: fields, Faithful other.2)
    (short : 2 * (printFields (field :: fields)).length < fuel + 1) :
    readFields (fuel + 1) (printFields (field :: fields) ++ '\x7d' :: rest) =
      some ((field :: fields).map fun (name, datum) => (some name, datum), rest) := by
  have fieldFaithful := faithful field List.mem_cons_self
  have solid (rest : List Char) :
      skipBlanks (printText field.1 ++ rest) = printText field.1 ++ rest :=
    skipBlanks_cons rfl
  cases fields with
  | nil =>
    simp only [printFields, List.length_append, List.length_cons] at short
    have read := readsBack.datum ('\x7d' :: rest) fieldFaithful (by omega)
      (by simp [continuesNumber])
    rw [printFields, List.append_assoc, List.cons_append, readFields, solid, readName_append]
    simp [read, skipBlanks, isBlank]
  | cons next fields =>
    have othersFaithful : ∀ other ∈ next :: fields, Faithful other.2 :=
      fun other member => faithful other (List.mem_cons_of_mem _ member)
    simp only [printFields_cons_cons, List.length_append, List.length_cons] at short
    have readOthers := readsBack.fields rest othersFaithful (by omega)
    have read := readsBack.datum (',' :: (printFields (next :: fields) ++ '\x7d' :: rest))
      fieldFaithful (by omega) (by simp [continuesNumber])
    rw [printFields_cons_cons, List.append_assoc, List.append_assoc, List.cons_append, readFields,
      solid, readName_append]
    simp [read, skipBlanks, isBlank, readOthers]

theorem readsBack (fuel : Nat) : ReadsBack fuel := by
  induction fuel with
  | zero => exact readsBack_zero
  | succ fuel ih =>
    exact {
      datum := fun _ => ih.datum_succ
      items := fun _ => ih.items_succ
      fields := fun _ => ih.fields_succ
    }

/-- What is written in JSON is read back. -/
theorem decode?_encode (faithful : Faithful datum) : decode? (encode datum) = some datum := by
  have enough : 2 * (print datum).length ≤ 2 * (print datum).length + 1 := Nat.le_succ _
  have read := (readsBack _).datum [] faithful enough stops_nil
  rw [List.append_nil] at read
  simp only [decode?, encode, String.toList_ofList, read, Option.bind_eq_bind, Option.bind_some]
  rfl

end CapabilityMachine.Json
