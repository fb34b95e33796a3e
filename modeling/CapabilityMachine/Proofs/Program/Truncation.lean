import CapabilityMachine.Proofs.Program.Canonical
/-!
# Bytes that are missing or too many

The header of a container is read from front to back. Bytes behind what a reader has taken or
refused make no difference to it, so the only thing that a cut can do to a header is to end it too
early. Behind the header the length of the code section tells bytes that are missing from bytes that
are too many.
-/

namespace CapabilityMachine

open Outcome

/-- The error of a header that ends too early. -/
def LoadError.IsTruncatedHeader (error : LoadError) : Prop :=
  ∃ needed available, available < needed ∧ error = .truncatedHeader needed available

namespace Container

variable {β γ : Type} {bytes rest code : List UInt8} {header : Header} {limit : Nat}
  {error : LoadError} {read : List UInt8 → Except LoadError (β × List UInt8)}

/-- The reader goes from front to back: it takes the same value when more bytes follow, and unless
it lacks bytes, it also fails in the same way. -/
structure Forward (read : List UInt8 → Except LoadError (β × List UInt8)) : Prop where
  ok_append : ∀ {bytes value rest}, read bytes = .ok (value, rest) →
    ∀ more, read (bytes ++ more) = .ok (value, rest ++ more)
  error_append : ∀ {bytes error}, read bytes = .error error →
    error.IsTruncatedHeader ∨ ∀ more, read (bytes ++ more) = .error error

theorem forward_pure (value : β) : Forward fun bytes => pure (value, bytes) where
  ok_append := by
    intro bytes _ _ taken more
    cases taken
    rfl
  error_append failed := absurd failed pure_ne_error

theorem Forward.bind {next : β × List UInt8 → Except LoadError (γ × List UInt8)}
    (first : Forward read) (later : ∀ value, Forward fun rest => next (value, rest)) :
    Forward fun bytes => read bytes >>= next where
  ok_append := by
    intro bytes value rest taken more
    rcases bind_eq_ok.1 taken with ⟨⟨found, behind⟩, isRead, isTaken⟩
    simp only [first.ok_append isRead more, ok_bind]
    exact (later found).ok_append isTaken more
  error_append := by
    intro bytes error failed
    rcases bind_eq_error.1 failed with unread | ⟨⟨found, behind⟩, isRead, failed⟩
    · rcases first.error_append unread with truncated | still
      · exact .inl truncated
      · right
        intro more
        rw [still more]
        rfl
    · rcases (later found).error_append failed with truncated | still
      · exact .inl truncated
      · right
        intro more
        simp only [first.ok_append isRead more, ok_bind]
        exact still more

theorem Forward.check {refused : Prop} [Decidable refused] (reason : LoadError)
    (reads : Forward read) :
    Forward fun bytes => if refused then .error reason else read bytes where
  ok_append := by
    intro bytes value rest taken more
    rcases ite_error_eq_ok.1 taken with ⟨accepted, taken⟩
    rw [if_neg accepted]
    exact reads.ok_append taken more
  error_append := by
    intro bytes error failed
    rcases ite_error_eq_error.1 failed with ⟨isRefused, rfl⟩ | ⟨accepted, failed⟩
    · right
      intro more
      rw [if_pos isRefused]
    · simp only [if_neg accepted]
      exact reads.error_append failed

theorem forward_takeField (width : Nat) : Forward (takeField width) where
  ok_append := by
    intro bytes field rest taken more
    rcases takeField_eq_ok.1 taken with ⟨length_eq, rfl⟩
    exact takeField_eq_ok.2 ⟨length_eq, List.append_assoc field rest more⟩
  error_append := by
    intro bytes error failed
    left
    simp only [takeField, ite_error_eq_error, reduceCtorEq, and_false, or_false,
      List.length_take] at failed
    rcases failed with ⟨short, rfl⟩
    exact ⟨width, bytes.length, by omega, rfl⟩

theorem forward_takeNumber (width : Nat) : Forward (takeNumber width) :=
  (forward_takeField width).bind fun field => forward_pure (BigEndian.decode field)

theorem forward_takeIds (count : Nat) (declared : List CapabilityId) :
    Forward (takeIds count declared) := by
  induction count generalizing declared with
  | zero => exact forward_pure []
  | succ count ih =>
    refine (forward_takeNumber 2).bind fun number => ?_
    refine Forward.check _ ?_
    exact (ih _).bind fun ids => forward_pure _

theorem forward_readHeader : Forward readHeader := by
  refine (forward_takeField 4).bind fun found => ?_
  refine Forward.check _ ?_
  refine (forward_takeNumber 1).bind fun major => ?_
  refine (forward_takeNumber 1).bind fun minor => ?_
  refine Forward.check _ ?_
  refine (forward_takeNumber 2).bind fun flags => ?_
  refine Forward.check _ ?_
  refine (forward_takeNumber 4).bind fun entry => ?_
  refine (forward_takeNumber 2).bind fun count => ?_
  exact (forward_takeIds count []).bind fun ids => forward_pure _

theorem takeNumber_of_short {width : Nat} (short : bytes.length < width) :
    takeNumber width bytes = .error (.truncatedHeader width bytes.length) := by
  have field : (bytes.take width).length < width := by
    rw [List.length_take]
    omega
  simp only [takeNumber, takeField, field, if_true, error_bind]

theorem readCode_of_short (short : bytes.length < 4) :
    readCode limit bytes = .error (.truncatedHeader 4 bytes.length) := by
  rw [readCode, takeNumber_of_short short, error_bind]

theorem length_encodeIds (ids : List CapabilityId) : (encodeIds ids).length = 2 * ids.length := by
  induction ids with
  | nil => rfl
  | cons id ids ih =>
    simp only [encodeIds, List.flatMap_cons, List.length_append, BigEndian.length_encode,
      List.length_cons] at ih ⊢
    omega

theorem Header.length_front (header : Header) :
    header.front.length = 14 + 2 * header.capabilities.length := by
  simp only [Header.front, magic, List.length_append, List.length_cons, List.length_nil,
    BigEndian.length_encode, length_encodeIds]

namespace Holds

variable (holds : Holds limit bytes header code)

include holds

theorem bytes_eq_front :
    bytes = header.front ++ (BigEndian.encode 4 code.length ++ code) := by
  rw [holds.bytes_eq, Header.bytes, List.append_assoc]

theorem readHeader_eq (rest : List UInt8) :
    readHeader (header.front ++ rest) = .ok (header, rest) := by
  rcases holds.wellFormed with ⟨major_eq, entry_lt, count_lt, distinct, _⟩
  exact readHeader_eq_ok.2 ⟨major_eq, entry_lt, count_lt, distinct, rfl⟩

theorem takeNumber_eq (rest : List UInt8) :
    takeNumber 4 (BigEndian.encode 4 code.length ++ rest) = .ok (code.length, rest) :=
  takeNumber_eq_ok.2 ⟨holds.wellFormed.codeLength_lt, rfl⟩

theorem readCode_eq (rest : List UInt8) :
    readCode limit (BigEndian.encode 4 code.length ++ rest) =
      if rest.length < code.length then .error (.truncatedCode code.length rest.length)
      else if code.length < rest.length then
        .error (.trailingBytes (rest.length - code.length))
      else .ok rest := by
  simp only [readCode, holds.takeNumber_eq, ok_bind, Nat.not_lt.2 holds.length_le, if_false]
  rfl

theorem length_eq : bytes.length = 18 + 2 * header.capabilities.length + code.length := by
  rw [holds.bytes_eq_front, List.length_append, List.length_append, header.length_front,
    BigEndian.length_encode]
  omega

/-- Bytes that end inside the header are refused for what is missing of it. If a header was read in
front of the cut, what follows the cut would not change it. -/
theorem readHeader_take {k : Nat} (short : k < header.front.length) :
    ∃ error, readHeader (bytes.take k) = .error error ∧ error.IsTruncatedHeader := by
  have whole := holds.readHeader_eq (BigEndian.encode 4 code.length ++ code)
  rw [← holds.bytes_eq_front, ← List.take_append_drop k bytes] at whole
  cases isRead : readHeader (bytes.take k) with
  | ok found =>
    rcases found with ⟨other, rest⟩
    rw [forward_readHeader.ok_append isRead] at whole
    rcases Prod.mk.inj (Except.ok.inj whole) with ⟨rfl, _⟩
    rcases readHeader_eq_ok.1 isRead with ⟨_, _, _, _, taken⟩
    have lengths := congrArg List.length taken
    rw [List.length_take, List.length_append] at lengths
    omega
  | error error =>
    refine ⟨error, rfl, ?_⟩
    rcases forward_readHeader.error_append isRead with truncated | still
    · exact truncated
    · rw [still] at whole
      cases whole

/-- What is left of the container behind the ids when it is cut there. -/
theorem readHeader_take_of_le {k : Nat} (behind : header.front.length ≤ k) :
    readHeader (bytes.take k) = .ok (header,
      (BigEndian.encode 4 code.length ++ code).take (k - header.front.length)) := by
  rw [holds.bytes_eq_front, List.take_append, List.take_of_length_le behind]
  exact holds.readHeader_eq _

theorem readCode_take_of_le {k : Nat} (behind : 4 ≤ k) (short : k - 4 < code.length) :
    readCode limit ((BigEndian.encode 4 code.length ++ code).take k) =
      .error (.truncatedCode code.length (k - 4)) := by
  have length_eq : (code.take (k - 4)).length = k - 4 := by
    rw [List.length_take]
    omega
  have cut : (BigEndian.encode 4 code.length ++ code).take k =
      BigEndian.encode 4 code.length ++ code.take (k - 4) := by
    rw [List.take_append, BigEndian.length_encode, List.take_of_length_le]
    rw [BigEndian.length_encode]
    exact behind
  rw [cut, holds.readCode_eq, length_eq, if_pos short]

theorem readCode_append {extra : List UInt8} (more : extra ≠ []) :
    readCode limit (BigEndian.encode 4 code.length ++ code ++ extra) =
      .error (.trailingBytes extra.length) := by
  have := List.length_pos_iff.2 more
  rw [List.append_assoc, holds.readCode_eq, List.length_append, if_neg (by omega),
    if_pos (by omega), Nat.add_sub_cancel_left]

/-- A container is not the start of another one, whatever the limits for the code sections. -/
theorem eq_nil_of_append {otherLimit : Nat} {extra otherCode : List UInt8} {other : Header}
    (otherHolds : Holds otherLimit (bytes ++ extra) other otherCode) : extra = [] := by
  have whole := holds.readHeader_eq (BigEndian.encode 4 code.length ++ code)
  rw [← holds.bytes_eq_front] at whole
  have longer := otherHolds.readHeader_eq (BigEndian.encode 4 otherCode.length ++ otherCode)
  rw [← otherHolds.bytes_eq_front, forward_readHeader.ok_append whole] at longer
  rcases Prod.mk.inj (Except.ok.inj longer) with ⟨rfl, rest_eq⟩
  have taken := otherHolds.takeNumber_eq otherCode
  rw [← rest_eq, List.append_assoc, holds.takeNumber_eq] at taken
  rcases Prod.mk.inj (Except.ok.inj taken) with ⟨length_eq, rfl⟩
  rw [List.length_append] at length_eq
  exact List.eq_nil_of_length_eq_zero (by omega)

end Holds

end Container

namespace Load

open Container Code Listing

variable {options : LoadOptions} {bytes : List UInt8} {header : Header} {code : List UInt8}
  {error : LoadError} {program : Program}

theorem load_of_readHeader (refused : readHeader bytes = .error error) :
    load options bytes = .error error := by
  rw [load, refused, error_bind]

theorem load_of_readCode {rest : List UInt8} (headed : readHeader bytes = .ok (header, rest))
    (refused : readCode options.maxCodeLength rest = .error error) :
    load options bytes = .error error := by
  simp only [load, headed, ok_bind, refused, error_bind]

/-- What loading takes a byte string for, in terms of the loaded program. -/
theorem exists_holds (loaded : load options bytes = .ok program) :
    ∃ header code, Holds options.maxCodeLength bytes header code ∧
      header.capabilities = program.capabilities ∧
      code.length = codeLength program.instructions.toList := by
  rcases load_eq_ok.1 loaded with ⟨header, listing, lists, _, _, _, denotes, _⟩
  rcases lists with ⟨code, holds, spells⟩
  refine ⟨header, code, holds, denotes.capabilities.symm, ?_⟩
  rw [spells.1, length_encode, codeLength_of_resolves denotes.instructions]

section Holds

variable (holds : Holds options.maxCodeLength bytes header code)

include holds

/-- The header is incomplete as well if only some of the four bytes are missing that tell the length
of the code section. -/
theorem load_take_of_lt {k : Nat} (short : k < 18 + 2 * header.capabilities.length) :
    ∃ needed available, available < needed ∧
      load options (bytes.take k) = .error (.truncatedHeader needed available) := by
  by_cases inFront : k < header.front.length
  · rcases holds.readHeader_take inFront with ⟨_, refused, needed, available, lacks, rfl⟩
    exact ⟨needed, available, lacks, load_of_readHeader refused⟩
  · have headed := holds.readHeader_take_of_le (Nat.not_lt.1 inFront)
    rw [header.length_front] at inFront headed
    have inLength : ((BigEndian.encode 4 code.length ++ code).take
        (k - (14 + 2 * header.capabilities.length))).length < 4 := by
      rw [List.length_take]
      omega
    exact ⟨4, _, inLength, load_of_readCode headed (readCode_of_short inLength)⟩

theorem load_take_of_le {k : Nat} (behind : 18 + 2 * header.capabilities.length ≤ k)
    (short : k < bytes.length) :
    load options (bytes.take k) =
      .error (.truncatedCode code.length (k - 18 - 2 * header.capabilities.length)) := by
  rw [holds.length_eq] at short
  have length_front := header.length_front
  have headed := holds.readHeader_take_of_le (k := k) (by omega)
  have refused := holds.readCode_take_of_le (k := k - header.front.length) (by omega) (by omega)
  have available_eq : k - header.front.length - 4 =
      k - 18 - 2 * header.capabilities.length := by omega
  rw [available_eq] at refused
  exact load_of_readCode headed refused

theorem load_append {extra : List UInt8} (more : extra ≠ []) :
    load options (bytes ++ extra) = .error (.trailingBytes extra.length) := by
  rw [holds.bytes_eq_front, List.append_assoc]
  exact load_of_readCode (holds.readHeader_eq _) (holds.readCode_append more)

end Holds

/-- Bytes that are accepted consist of 18 bytes, two more for each declared capability, and the code
section. When they are cut short, then what is missing is all that is wrong: within the header,
bytes of a field, and behind it, the rest of the code section. When bytes follow them, they are
refused for exactly these. So bytes that are accepted under one set of options are not the start of
others that are accepted, under the same or under other options. -/
theorem cut_or_extended_refused (loaded : load options bytes = .ok program) :
    let count := program.capabilities.length
    let length := codeLength program.instructions.toList
    bytes.length = 18 + 2 * count + length ∧
      (∀ k < bytes.length,
        (k < 18 + 2 * count → ∃ needed available, available < needed ∧
          load options (bytes.take k) = .error (.truncatedHeader needed available)) ∧
        (18 + 2 * count ≤ k →
          load options (bytes.take k) = .error (.truncatedCode length (k - 18 - 2 * count)))) ∧
      (∀ extra, extra ≠ [] →
        load options (bytes ++ extra) = .error (.trailingBytes extra.length)) ∧
      ∀ otherOptions extra other, load otherOptions (bytes ++ extra) = .ok other → extra = [] := by
  rcases exists_holds loaded with ⟨header, code, holds, capabilities_eq, length_eq⟩
  dsimp only
  rw [← capabilities_eq, ← length_eq]
  refine ⟨holds.length_eq, ?_, ?_, ?_⟩
  · intro k short
    constructor
    · intro inHeader
      exact load_take_of_lt holds inHeader
    · intro behind
      exact load_take_of_le holds behind short
  · intro extra more
    exact load_append holds more
  · intro otherOptions extra other otherLoaded
    rcases exists_holds otherLoaded with ⟨_, _, otherHolds, _, _⟩
    exact holds.eq_nil_of_append otherHolds

/-- The bytes of a program that declares the capabilities 1 and 2 and passes a handle of the first
one to the second one. -/
def delegatingBytes : List UInt8 :=
  [0x43, 0x50, 0x53, 0x54, 1, 0, 0, 0, 0, 0, 0, 0, 0, 2, 0, 1, 0, 2, 0, 0, 0, 7,
    Opcode.cap.byte, 0, 1, Opcode.invoke.byte, 0, 2, 1]

/-- A program that passes the handle of one capability to another. -/
def delegating : Program where
  instructions := #[.cap ⟨1⟩, .invoke ⟨2⟩ 1]
  offsets := #[0, 3]
  entry := 0
  capabilities := [⟨1⟩, ⟨2⟩]
  version := ⟨1, 0⟩

theorem cut_or_extended_refused_delegating :
    load {} delegatingBytes = .ok delegating ∧
      load {} (delegatingBytes.take 17) = .error (.truncatedHeader 2 1) ∧
      load {} (delegatingBytes.take 24) = .error (.truncatedCode 7 2) ∧
      load {} (delegatingBytes ++ [0, 0]) = .error (.trailingBytes 2) := by
  have holds : Holds ({} : LoadOptions).maxCodeLength delegatingBytes ⟨1, 0, 0, [⟨1⟩, ⟨2⟩]⟩
      (encode [.cap ⟨1⟩, .invoke ⟨2⟩ 1]) :=
    ⟨by decide, ⟨rfl, by decide, by decide, by decide, by decide⟩, by decide⟩
  have denotes : Denotes ⟨1, 0, 0, [⟨1⟩, ⟨2⟩]⟩ [.cap ⟨1⟩, .invoke ⟨2⟩ 1] delegating :=
    ⟨.cons rfl (.cons rfl .nil), by decide, ⟨by decide, by decide⟩, rfl, rfl⟩
  have loaded : load {} delegatingBytes = .ok delegating := by
    apply load_eq_ok.2
    refine ⟨_, _, ⟨_, holds, rfl, ?_⟩, ?_, ?_, ?_, denotes, ?_⟩
    · simp [Instruction.target?]
    · simp [Declared, Instruction.capability?]
    · simp [Known]
    · simp [Applied]
    · intro index depth isPick
      rcases index with _ | _ | index <;> simp [Program.get?, delegating] at isPick
  rcases cut_or_extended_refused loaded with ⟨_, cut, extended, _⟩
  refine ⟨loaded, rfl, ?_, extended [0, 0] (by decide)⟩
  exact (cut 24 (by decide)).2 (by decide)

end Load

end CapabilityMachine
