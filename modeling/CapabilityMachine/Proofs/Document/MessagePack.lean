import CapabilityMachine.Document.MessagePack
import CapabilityMachine.Proofs.Outcome
import Mathlib.Data.Option.Basic
/-!
# Data read back from MessagePack

What is written in MessagePack is read back. A tag byte belongs to one form only, so a head is read
back from whichever of its forms it was written in; what follows the head is read back by induction
on the steps that the reader may take.
-/

namespace CapabilityMachine.MessagePack

variable {bytes rest : List UInt8}

namespace Head

variable {head : Head} {tag : UInt8} {forms : List Form} {meaning : Nat → Head}

theorem ofTag?_eq_none : ∀ entry ∈ interpretations, ofTag? entry.1.tag = none := by
  decide

theorem pairwise_interpretations :
    interpretations.Pairwise fun entry other => entry.1.tag ≠ other.1.tag := by
  decide

/-- A tag byte belongs to one form only. -/
theorem find?_interpretations {entry : Form × (Nat → Head)} (listed : entry ∈ interpretations) :
    interpretations.find? (fun other => other.1.tag = entry.1.tag) = some entry := by
  have distinct := pairwise_interpretations
  revert listed distinct
  generalize interpretations = entries
  intro listed distinct
  induction entries with
  | nil => cases listed
  | cons first entries ih =>
    rw [List.pairwise_cons] at distinct
    rcases List.mem_cons.1 listed with rfl | later
    · simp
    · rw [List.find?_cons_of_neg (by simpa using distinct.1 entry later)]
      exact ih later distinct.2

theorem read_form {form : Form} {n : Nat} (listed : (form, meaning) ∈ interpretations)
    (fits : n < BigEndian.capacity form.width) (rest : List UInt8) :
    read (form.tag :: BigEndian.encode form.width n ++ rest) = some (meaning n, rest) := by
  have found := find?_interpretations listed
  have noTag := ofTag?_eq_none _ listed
  have complete : form.width ≤ (BigEndian.encode form.width n ++ rest).length := by
    simp
  simp only [read, List.cons_append, noTag, found, Option.bind_eq_bind, Option.bind_some]
  rw [← Option.bind_eq_bind, Outcome.guard_bind complete,
    List.take_left' (BigEndian.length_encode _ _), List.drop_left' (BigEndian.length_encode _ _),
    BigEndian.decode_encode fits]
  rfl

theorem read_writeNumber {n : Nat}
    (listed : ∀ form ∈ forms, (form, meaning) ∈ interpretations)
    (written : writeNumber forms n = some bytes) (rest : List UInt8) :
    read (bytes ++ rest) = some (meaning n, rest) := by
  rcases Option.map_eq_some_iff.1 written with ⟨form, found, rfl⟩
  have fits : n < BigEndian.capacity form.width := by simpa using List.find?_some found
  exact read_form (listed form (List.mem_of_find?_eq_some found)) fits rest

theorem read_writeNegative {n : Int} (negative : n < 0) (written : writeNegative n = some bytes)
    (rest : List UInt8) : read (bytes ++ rest) = some (int n, rest) := by
  rcases Option.map_eq_some_iff.1 written with ⟨form, found, rfl⟩
  have wide : -(BigEndian.capacity form.width : Int) ≤ 2 * n := by simpa using List.find?_some found
  have listed : (form, fun n => int (signed form.width n)) ∈ interpretations := by
    simp only [interpretations, List.mem_append, List.mem_map]
    exact .inl (.inl (.inl (.inr ⟨form, List.mem_of_find?_eq_some found, rfl⟩)))
  have fits : (n + BigEndian.capacity form.width).toNat < BigEndian.capacity form.width := by omega
  have upper : ¬2 * (n + BigEndian.capacity form.width).toNat < BigEndian.capacity form.width := by
    omega
  rw [read_form listed fits, signed, if_neg upper]
  congr 3
  omega

theorem toNat_tag {n : Nat} (small : n < 256) : (UInt8.ofNat n).toNat = n := by
  simpa using small

/-- A head with a number that is part of the tag byte, if it is small. -/
theorem read_counted {base bound n : Nat}
    (inTag : n < bound → ofTag? (UInt8.ofNat (base + n)) = some (meaning n))
    (listed : ∀ form ∈ forms, (form, meaning) ∈ interpretations)
    (encoded : (if n < bound then some [UInt8.ofNat (base + n)] else writeNumber forms n) =
      some bytes) (rest : List UInt8) :
    read (bytes ++ rest) = some (meaning n, rest) := by
  split at encoded
  · rename_i small
    cases encoded
    rw [List.singleton_append, read, inTag small]
  · exact read_writeNumber listed encoded rest

theorem read_int {n : Int} (encoded : (int n).encode? = some bytes) (rest : List UInt8) :
    read (bytes ++ rest) = some (int n, rest) := by
  rw [encode?] at encoded
  split at encoded
  · rename_i nonnegative
    have listed : ∀ form ∈ unsignedForms, (form, fun n : Nat => int n) ∈ interpretations :=
      fun form member => by simp [interpretations, member]
    have toNat_eq : (n.toNat : Int) = n := by omega
    split at encoded
    · cases encoded
      rw [List.singleton_append, read, ofTag?, toNat_tag (by omega), if_pos (by omega), toNat_eq]
    · rw [read_writeNumber listed encoded, toNat_eq]
  · split at encoded
    · cases encoded
      have inTag : ofTag? (UInt8.ofNat (n + 0x100).toNat) = some (int n) := by
        rw [ofTag?, toNat_tag (by omega)]
        grind
      rw [List.singleton_append, read, inTag]
    · exact read_writeNegative (by omega) encoded rest

/-- A head is read back from its shortest form. -/
theorem read_append (encoded : head.encode? = some bytes) (rest : List UInt8) :
    read (bytes ++ rest) = some (head, rest) := by
  cases head with
  | null =>
    cases encoded
    rfl
  | bool b => cases b <;> cases encoded <;> rfl
  | int n => exact read_int encoded rest
  | text count | list count | record count =>
    rw [encode?] at encoded
    refine read_counted ?_ (fun form member => by simp [interpretations, member]) encoded rest
    intro small
    rw [ofTag?, toNat_tag (by omega)]
    grind

theorem length_pos (encoded : head.encode? = some bytes) : 0 < bytes.length := by
  have read := read_append encoded []
  cases bytes with
  | nil => cases read
  | cons byte bytes => simp

theorem length_append_pos (encoded : head.encode? = some bytes) (back : List UInt8) :
    0 < (bytes ++ back).length := by
  rw [List.length_append]
  exact Nat.add_pos_left (length_pos encoded) _

end Head

/-! ### Texts -/

theorem readText_append (s : String) (rest : List UInt8) :
    readText (textBytes s).length (textBytes s ++ rest) = some (s, rest) := by
  have decoded : String.fromUTF8? s.toUTF8 = some s := dif_pos s.isValidUTF8
  have bytes_eq : (⟨(textBytes s).toArray⟩ : ByteArray) = s.toUTF8 := by simp [textBytes]
  have complete : (textBytes s).length ≤ (textBytes s ++ rest).length := by
    simp
  rw [readText, Outcome.guard_bind complete, List.take_left' rfl, List.drop_left' rfl, bytes_eq,
    decoded]
  rfl

theorem encodeText?_eq_some {s : String} :
    encodeText? s = some bytes ↔ ∃ head,
      (Head.text (textBytes s).length).encode? = some head ∧ bytes = head ++ textBytes s := by
  rw [encodeText?]
  cases (Head.text (textBytes s).length).encode? <;> simp [eq_comm]

theorem readName_append {name : String} (encoded : encodeText? name = some bytes)
    (rest : List UInt8) : readName (bytes ++ rest) = some (name, rest) := by
  rcases encodeText?_eq_some.1 encoded with ⟨head, headed, rfl⟩
  rw [readName, List.append_assoc, Head.read_append headed]
  exact readText_append name rest

/-! ### Data -/

theorem append_eq_some {first second : Option (List UInt8)} :
    (do return (← first) ++ (← second)) = some bytes ↔
      ∃ front back, first = some front ∧ second = some back ∧ bytes = front ++ back := by
  cases first <;> cases second <;> simp [eq_comm]

theorem encode?_list_eq_some {items : List Datum} :
    encode? (.list items) = some bytes ↔ ∃ head back,
      (Head.list items.length).encode? = some head ∧ encodeItems? items = some back ∧
        bytes = head ++ back := by
  rw [encode?, append_eq_some]

theorem encode?_record_eq_some {fields : Fields} :
    encode? (.record fields) = some bytes ↔ ∃ head back,
      (Head.record fields.length).encode? = some head ∧ encodeFields? fields = some back ∧
        bytes = head ++ back := by
  rw [encode?, append_eq_some]

theorem encodeItems?_cons_eq_some {item : Datum} {items : List Datum} :
    encodeItems? (item :: items) = some bytes ↔ ∃ front back,
      encode? item = some front ∧ encodeItems? items = some back ∧ bytes = front ++ back := by
  rw [encodeItems?, append_eq_some]

theorem encodeFields?_cons_eq_some {name : String} {datum : Datum} {fields : Fields} :
    encodeFields? ((name, datum) :: fields) = some bytes ↔ ∃ front middle back,
      encodeText? name = some front ∧ encode? datum = some middle ∧
        encodeFields? fields = some back ∧ bytes = front ++ middle ++ back := by
  rw [encodeFields?]
  cases encodeText? name <;> cases encode? datum <;> cases encodeFields? fields <;> simp [eq_comm]

theorem length_pos_of_encode? {datum : Datum} (encoded : encode? datum = some bytes) :
    0 < bytes.length := by
  cases datum with
  | null | bool | int =>
    rw [encode?] at encoded
    exact Head.length_pos encoded
  | text s =>
    rcases encodeText?_eq_some.1 encoded with ⟨head, headed, rfl⟩
    exact Head.length_append_pos headed _
  | list items =>
    rcases encode?_list_eq_some.1 encoded with ⟨head, back, headed, _, rfl⟩
    exact Head.length_append_pos headed back
  | record fields =>
    rcases encode?_record_eq_some.1 encoded with ⟨head, back, headed, _, rfl⟩
    exact Head.length_append_pos headed back
  | decimal | unreadable => cases encoded

/-- With this many steps, everything is read back that is not too long. -/
structure ReadsBack (fuel : Nat) : Prop where
  datum : ∀ {datum : Datum} {bytes : List UInt8} (rest : List UInt8), encode? datum = some bytes →
    2 * bytes.length ≤ fuel + 1 → readDatum fuel (bytes ++ rest) = some (datum, rest)
  items : ∀ {items : List Datum} {bytes : List UInt8} (rest : List UInt8),
    encodeItems? items = some bytes → 2 * bytes.length ≤ fuel →
    readItems fuel items.length (bytes ++ rest) = some (items, rest)
  fields : ∀ {fields : Fields} {bytes : List UInt8} (rest : List UInt8),
    encodeFields? fields = some bytes → 2 * bytes.length ≤ fuel →
    readFields fuel fields.length (bytes ++ rest) = some (fields, rest)

theorem readsBack_zero : ReadsBack 0 where
  datum rest encoded short := by
    have := length_pos_of_encode? encoded
    omega
  items {items bytes} rest encoded short := by
    cases items with
    | nil =>
      cases encoded
      rfl
    | cons item items =>
      rcases encodeItems?_cons_eq_some.1 encoded with ⟨front, back, isFront, _, rfl⟩
      have := length_pos_of_encode? isFront
      rw [List.length_append] at short
      omega
  fields {fields bytes} rest encoded short := by
    cases fields with
    | nil =>
      cases encoded
      rfl
    | cons field fields =>
      rcases encodeFields?_cons_eq_some.1 encoded with ⟨front, middle, back, _, isMiddle, _, rfl⟩
      have := length_pos_of_encode? isMiddle
      simp only [List.length_append] at short
      omega

variable {fuel : Nat}

theorem ReadsBack.datum_succ (readsBack : ReadsBack fuel) {datum : Datum}
    (encoded : encode? datum = some bytes) (short : 2 * bytes.length ≤ fuel + 2) :
    readDatum (fuel + 1) (bytes ++ rest) = some (datum, rest) := by
  cases datum with
  | null | bool | int =>
    rw [encode?] at encoded
    rw [readDatum, Head.read_append encoded]
  | text s =>
    rcases encodeText?_eq_some.1 encoded with ⟨head, headed, rfl⟩
    rw [List.append_assoc, readDatum, Head.read_append headed]
    simp [readText_append]
  | list items =>
    rcases encode?_list_eq_some.1 encoded with ⟨head, back, headed, isBack, rfl⟩
    have := Head.length_pos headed
    rw [List.length_append] at short
    rw [List.append_assoc, readDatum, Head.read_append headed]
    simp [readsBack.items rest isBack (by omega)]
  | record fields =>
    rcases encode?_record_eq_some.1 encoded with ⟨head, back, headed, isBack, rfl⟩
    have := Head.length_pos headed
    rw [List.length_append] at short
    rw [List.append_assoc, readDatum, Head.read_append headed]
    simp [readsBack.fields rest isBack (by omega)]
  | decimal | unreadable => cases encoded

theorem ReadsBack.items_succ (readsBack : ReadsBack fuel) {items : List Datum}
    (encoded : encodeItems? items = some bytes) (short : 2 * bytes.length ≤ fuel + 1) :
    readItems (fuel + 1) items.length (bytes ++ rest) = some (items, rest) := by
  cases items with
  | nil =>
    cases encoded
    rfl
  | cons item items =>
    rcases encodeItems?_cons_eq_some.1 encoded with ⟨front, back, isFront, isBack, rfl⟩
    have := length_pos_of_encode? isFront
    rw [List.length_append] at short
    have read := readsBack.datum (back ++ rest) isFront (by omega)
    have readOthers := readsBack.items rest isBack (by omega)
    simp [readItems, read, readOthers]

theorem ReadsBack.fields_succ (readsBack : ReadsBack fuel) {fields : Fields}
    (encoded : encodeFields? fields = some bytes) (short : 2 * bytes.length ≤ fuel + 1) :
    readFields (fuel + 1) fields.length (bytes ++ rest) = some (fields, rest) := by
  cases fields with
  | nil =>
    cases encoded
    rfl
  | cons field fields =>
    rcases encodeFields?_cons_eq_some.1 encoded with
      ⟨front, middle, back, isFront, isMiddle, isBack, rfl⟩
    have := length_pos_of_encode? isMiddle
    simp only [List.length_append] at short
    have read := readsBack.datum (back ++ rest) isMiddle (by omega)
    have readOthers := readsBack.fields rest isBack (by omega)
    simp [readFields, readName_append isFront, read, readOthers]

theorem readsBack (fuel : Nat) : ReadsBack fuel := by
  induction fuel with
  | zero => exact readsBack_zero
  | succ fuel ih =>
    exact {
      datum := fun _ => ih.datum_succ
      items := fun _ => ih.items_succ
      fields := fun _ => ih.fields_succ
    }

/-- What is written in MessagePack is read back. -/
theorem decode?_of_encode? {datum : Datum} (encoded : encode? datum = some bytes) :
    decode? bytes = some datum := by
  have read := (readsBack (2 * bytes.length + 1)).datum [] encoded (by omega)
  rw [List.append_nil] at read
  rw [decode?, read, Option.bind_eq_bind, Option.bind_some]
  exact Outcome.guard_bind rfl _

/-! ### Data that can be written -/

theorem exists_writeNumber_iff {forms : List Form} {n : Nat} :
    (∃ bytes, writeNumber forms n = some bytes) ↔
      ∃ form ∈ forms, n < BigEndian.capacity form.width := by
  rw [← Option.isSome_iff_exists]
  simp [writeNumber]

namespace Head

/-- A head with a number has a form if 32 bits can hold the number. -/
theorem exists_counted_iff {forms : List Form} {small : List UInt8} {bound n : Nat}
    (within : bound ≤ BigEndian.capacity 4)
    (widest : (∃ form ∈ forms, n < BigEndian.capacity form.width) ↔ n < BigEndian.capacity 4) :
    (∃ bytes, (if n < bound then some small else writeNumber forms n) = some bytes) ↔
      n < BigEndian.capacity 4 := by
  split
  · simp
    omega
  · rw [exists_writeNumber_iff, widest]

theorem exists_text_iff {length : Nat} :
    (∃ bytes, (text length).encode? = some bytes) ↔ length < BigEndian.capacity 4 := by
  rw [encode?]
  apply exists_counted_iff (by decide)
  simp [textForms, BigEndian.capacity]
  omega

theorem exists_list_iff {count : Nat} :
    (∃ bytes, (list count).encode? = some bytes) ↔ count < BigEndian.capacity 4 := by
  rw [encode?]
  apply exists_counted_iff (by decide)
  simp [listForms, BigEndian.capacity]
  omega

theorem exists_record_iff {count : Nat} :
    (∃ bytes, (record count).encode? = some bytes) ↔ count < BigEndian.capacity 4 := by
  rw [encode?]
  apply exists_counted_iff (by decide)
  simp [recordForms, BigEndian.capacity]
  omega

/-- An integer has a form if 64 bits can hold it, with a sign or without one. -/
theorem exists_int_iff {n : Int} :
    (∃ bytes, (int n).encode? = some bytes) ↔
      -0x8000000000000000 ≤ n ∧ n < 0x10000000000000000 := by
  rw [encode?]
  split
  · split
    · simp
      omega
    · rw [exists_writeNumber_iff]
      simp [unsignedForms, BigEndian.capacity]
      omega
  · split
    · simp
      omega
    · rw [← Option.isSome_iff_exists]
      simp [writeNegative, signedForms, BigEndian.capacity]
      omega

end Head

theorem exists_encodeText? {s : String} (short : (textBytes s).length < BigEndian.capacity 4) :
    ∃ bytes, encodeText? s = some bytes := by
  rcases Head.exists_text_iff.2 short with ⟨head, headed⟩
  exact ⟨_, encodeText?_eq_some.2 ⟨head, headed, rfl⟩⟩

theorem exists_encodeItems? {items : List Datum}
    (written : ∀ item ∈ items, ∃ bytes, encode? item = some bytes) :
    ∃ bytes, encodeItems? items = some bytes := by
  induction items with
  | nil => exact ⟨[], rfl⟩
  | cons item items ih =>
    rw [List.forall_mem_cons] at written
    rcases written with ⟨⟨front, isFront⟩, others⟩
    rcases ih others with ⟨back, isBack⟩
    exact ⟨_, encodeItems?_cons_eq_some.2 ⟨front, back, isFront, isBack, rfl⟩⟩

theorem exists_encodeFields? {fields : Fields}
    (short : ∀ field ∈ fields, (textBytes field.1).length < BigEndian.capacity 4)
    (written : ∀ field ∈ fields, ∃ bytes, encode? field.2 = some bytes) :
    ∃ bytes, encodeFields? fields = some bytes := by
  induction fields with
  | nil => exact ⟨[], rfl⟩
  | cons field fields ih =>
    rw [List.forall_mem_cons] at short written
    rcases written with ⟨⟨middle, isMiddle⟩, others⟩
    rcases exists_encodeText? short.1 with ⟨front, isFront⟩
    rcases ih short.2 others with ⟨back, isBack⟩
    exact ⟨_, encodeFields?_cons_eq_some.2 ⟨front, middle, back, isFront, isMiddle, isBack, rfl⟩⟩

/-- Data whose integers have 64 bits, and whose texts, lists and records have lengths of 32 bits. -/
inductive Packable : Datum → Prop
  | null : Packable .null
  | bool (b : Bool) : Packable (.bool b)
  | int {n : Int} (low : -0x8000000000000000 ≤ n) (high : n < 0x10000000000000000) :
    Packable (.int n)
  | text {s : String} (short : (textBytes s).length < BigEndian.capacity 4) : Packable (.text s)
  | list {items : List Datum} (few : items.length < BigEndian.capacity 4)
    (packable : ∀ item ∈ items, Packable item) : Packable (.list items)
  | record {fields : Fields} (few : fields.length < BigEndian.capacity 4)
    (short : ∀ field ∈ fields, (textBytes field.1).length < BigEndian.capacity 4)
    (packable : ∀ field ∈ fields, Packable field.2) : Packable (.record fields)

theorem Packable.exists_encode? {datum : Datum} (packable : Packable datum) :
    ∃ bytes, encode? datum = some bytes := by
  induction packable with
  | null => exact ⟨_, rfl⟩
  | bool b => exact ⟨_, rfl⟩
  | int low high =>
    rw [encode?]
    exact Head.exists_int_iff.2 ⟨low, high⟩
  | text short => exact exists_encodeText? short
  | list few _ ih =>
    rcases Head.exists_list_iff.2 few with ⟨head, headed⟩
    rcases exists_encodeItems? ih with ⟨back, isBack⟩
    exact ⟨_, encode?_list_eq_some.2 ⟨head, back, headed, isBack, rfl⟩⟩
  | record few short _ ih =>
    rcases Head.exists_record_iff.2 few with ⟨head, headed⟩
    rcases exists_encodeFields? short ih with ⟨back, isBack⟩
    exact ⟨_, encode?_record_eq_some.2 ⟨head, back, headed, isBack, rfl⟩⟩

end CapabilityMachine.MessagePack
