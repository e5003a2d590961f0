import LexicalScope.Json.Printer
import LexicalScope.Json.Reader

/-!
# Reading written values

A reader takes from the text of a value just the value and leaves what stands behind it. This holds
of every value whose numbers are natural and fit into sixty-four bits, with any text in its strings,
as long as the value nests no deeper than the reader goes.
-/

namespace LexicalScope.Json

/-! ## Strings -/

private theorem escaped_of_escapeOf {c letter : Char} (short : escapeOf c = some letter) :
    escaped letter = some c := by
  unfold escapeOf at short
  split at short <;> cases short <;> rfl

private theorem readEscape_control {c : Char} (control : c.toNat < 0x20) (rest : List Char) :
    readEscape ('u' :: '0' :: '0' :: Nat.digitChar (c.toNat / 16) ::
      Nat.digitChar (c.toNat % 16) :: rest) = .ok (c, rest) := by
  have digits : ∀ unit < 0x20, hexQuad '0' '0' (Nat.digitChar (unit / 16))
      (Nat.digitChar (unit % 16)) = some unit := by decide
  have notLow : isLowHalf c.toNat = false := by simp [isLowHalf]; omega
  have notHigh : isHighHalf c.toNat = false := by simp [isHighHalf]; omega
  simp [readEscape, escaped, readQuad, digits _ control, notLow, notHigh]

private theorem readChars_writeChar (c : Char) (fuel : Nat) (read rest : List Char) :
    readChars (fuel + 1) read (writeChar c rest) = readChars fuel (c :: read) rest := by
  unfold writeChar
  cases short : escapeOf c with
  | some letter => simp [readChars, readEscape, escaped_of_escapeOf short]
  | none =>
      by_cases control : c.toNat < 0x20
      · simp [readChars, control, readEscape_control control]
      · have notQuote : c ≠ '"' := by
          rintro rfl
          cases short
        have notBackslash : c ≠ '\\' := by
          rintro rfl
          cases short
        simp [readChars, control, notQuote, notBackslash]

private theorem readChars_written (value : List Char) {fuel : Nat} (enough : value.length < fuel)
    (read rest : List Char) :
    readChars fuel read (value.foldr writeChar ('"' :: rest)) =
      .ok (read.reverse ++ value, rest) := by
  induction value generalizing fuel read with
  | nil =>
      obtain ⟨fuel, rfl⟩ := Nat.exists_eq_succ_of_ne_zero (Nat.ne_of_gt enough)
      simp [readChars]
  | cons c value induction =>
      obtain ⟨fuel, rfl⟩ := Nat.exists_eq_succ_of_ne_zero (Nat.ne_of_gt (Nat.zero_lt_of_lt enough))
      rw [List.foldr_cons, readChars_writeChar, induction (Nat.lt_of_succ_lt_succ enough)]
      simp

theorem length_written (value rest : List Char) :
    value.length + rest.length ≤ (value.foldr writeChar rest).length := by
  induction value with
  | nil => simp
  | cons c value induction =>
      have longer : (value.foldr writeChar rest).length + 1 ≤
          (writeChar c (value.foldr writeChar rest)).length := by
        unfold writeChar
        split
        · simp
        · split <;> simp
      simp only [List.foldr_cons, List.length_cons]
      omega

/-- A written string is read back behind its opening quote. -/
theorem readString_written {value : String} {fuel : Nat} (rest : List Char)
    (enough : (writeString value rest).length < fuel) :
    readString fuel (value.toList.foldr writeChar ('"' :: rest)) = .ok (value, rest) := by
  have length := length_written value.toList ('"' :: rest)
  simp only [writeString, List.length_cons] at enough length
  have enoughChars : value.toList.length < fuel := by omega
  simp [readString, readChars_written value.toList enoughChars]

/-! ## Numbers -/

/-- What may stand behind a value: nothing, a comma or a closing character. -/
def endsValue : List Char → Bool
  | [] => true
  | c :: _ => c == ',' || c == ']' || c == '\x7d'

private theorem digitsValue_toDigits (value : Nat) :
    digitsValue (Nat.toDigits 10 value) = value := by
  have same : digitsValue (Nat.toDigits 10 value) =
      Nat.ofDigitChars 10 (Nat.toDigits 10 value) 0 := by
    simp only [digitsValue, Nat.ofDigitChars, Nat.mul_comm]
  rw [same, Nat.ofDigitChars_ten_toDigits]

private theorem appendDigits_eq (digits : List Char) {value : Nat}
    (fits : Nat.ofDigitChars 10 digits value < Limit.wideNumber) :
    appendDigits value digits = (Nat.ofDigitChars 10 digits value, digits.length) := by
  induction digits generalizing value with
  | nil => rfl
  | cons c rest induction =>
      rw [Nat.ofDigitChars_cons, Nat.mul_comm] at fits ⊢
      have small : value * 10 + (c.toNat - '0'.toNat) < Limit.wideNumber := by
        refine Nat.lt_of_le_of_lt ?_ fits
        rw [Nat.ofDigitChars_eq_ofDigitChars_zero]
        exact Nat.le_trans (Nat.le_mul_of_pos_left _ (Nat.pow_pos (by decide)))
          (Nat.le_add_right _ _)
      rw [appendDigits, if_pos small, induction fits]
      rfl

private theorem roundBits_le (value : Nat) : roundBits value ≤ 2 * value := by
  by_cases zero : value = 0
  · subst zero
    decide
  · have kept : value / 2 ^ (value.log2 - 52) * 2 ^ (value.log2 - 52) ≤ value :=
      Nat.div_mul_le_self ..
    have unit : 2 ^ (value.log2 - 52) ≤ value :=
      Nat.le_trans (Nat.pow_le_pow_right (by decide) (Nat.sub_le ..)) (Nat.log2_self_le zero)
    simp only [roundBits, Nat.pow_eq]
    split
    · rw [Nat.add_mul]
      omega
    · omega

/-- The digits of a number begin with a zero only if there is one digit. -/
theorem head_toDigits (value : Nat) :
    (Nat.toDigits 10 value).head? = some '0' → (Nat.toDigits 10 value).length = 1 := by
  induction value using Nat.strongRecOn with
  | ind value induction =>
      intro zero
      rw [Nat.toDigits_eq_if (by decide)] at zero ⊢
      by_cases single : value < 10
      · simp [single]
      · rw [if_neg single] at zero
        have less : value / 10 < value := by omega
        rw [List.head?_append, Option.or_of_isSome (by simp [Nat.toDigits_ne_nil])] at zero
        have one := induction _ less zero
        obtain ⟨digit, digits⟩ := List.length_eq_one_iff.mp one
        rw [digits] at zero
        obtain rfl : digit = '0' := by simpa using zero
        have isZero : value / 10 = 0 := by
          rw [← Nat.ofDigitChars_ten_toDigits (n := value / 10), digits]
          rfl
        omega

private theorem readDigits_toDigits {value : Nat} {rest : List Char}
    (ends : endsValue rest = true) :
    readDigits (Nat.toDigits 10 value ++ rest) = .ok (Nat.toDigits 10 value, rest) := by
  have digits : ∀ c ∈ Nat.toDigits 10 value, c.isDigit = true := fun c member =>
    Nat.isDigit_of_mem_toDigits (by decide) (by decide) member
  have stop : rest.takeWhile Char.isDigit = [] ∧ rest.dropWhile Char.isDigit = rest := by
    cases rest with
    | nil => exact ⟨rfl, rfl⟩
    | cons c rest =>
        have notDigit : c.isDigit = false := by
          simp only [endsValue, Bool.or_eq_true, beq_iff_eq] at ends
          rcases ends with (rfl | rfl) | rfl <;> rfl
        simp [notDigit]
  cases whole : Nat.toDigits 10 value with
  | nil => exact absurd whole Nat.toDigits_ne_nil
  | cons first others =>
      rw [whole] at digits
      have isDigit := digits first List.mem_cons_self
      have allDigits := fun c member => digits c (List.mem_cons_of_mem first member)
      simp only [List.cons_append, readDigits, isDigit, if_true,
        List.takeWhile_append_of_pos allDigits, List.dropWhile_append_of_pos allDigits, stop,
        List.append_nil]

private theorem isOutOfRange_toDigits {value : Nat} (fits : value < Limit.wideNumber)
    (lexeme : List Char) :
    Numeral.isOutOfRange ⟨false, Nat.toDigits 10 value, [], none, lexeme⟩ = false := by
  have appended : appendDigits 0 (Nat.toDigits 10 value) =
      (value, (Nat.toDigits 10 value).length) := by
    rw [appendDigits_eq _ (by rwa [Nat.ofDigitChars_ten_toDigits]), Nat.ofDigitChars_ten_toDigits]
  have small : ¬ magnitudeLimit ≤ roundBits value * roundBits 1 := by
    have bound := roundBits_le value
    have one : roundBits 1 = 1 := by decide
    have large : 2 * Limit.wideNumber < magnitudeLimit := by decide +kernel
    rw [one, Nat.mul_one]
    omega
  simp [Numeral.isOutOfRange, appended, appendDigits, scaleLimit, small]

private theorem readNumber_toDigits {value : Nat} {rest : List Char}
    (fits : value < Limit.wideNumber) (ends : endsValue rest = true) :
    readNumber (Nat.toDigits 10 value ++ rest) = .ok (natural value, rest) := by
  have notMinus : ∀ others, Nat.toDigits 10 value ++ rest ≠ '-' :: others := by
    intro others same
    cases whole : Nat.toDigits 10 value with
    | nil => exact absurd whole Nat.toDigits_ne_nil
    | cons first _ =>
        rw [whole, List.cons_append] at same
        obtain rfl : first = '-' := (List.cons.inj same).1
        have isDigit := Nat.isDigit_of_mem_toDigits (b := 10) (n := value) (c := '-') (by decide)
          (by decide) (whole ▸ List.mem_cons_self)
        cases isDigit
  have wholeRead : readWhole (Nat.toDigits 10 value ++ rest) =
      .ok (Nat.toDigits 10 value, rest) := by
    have head := head_toDigits value
    unfold readWhole
    rw [readDigits_toDigits ends]
    simp only [Bool.and_eq_true, beq_iff_eq, decide_eq_true_eq, ite_eq_right_iff, and_imp]
    intro zero several
    have := head zero
    omega
  have noFraction : readFraction rest = .ok ([], rest) := by
    unfold readFraction
    split
    · simp [endsValue] at ends
    · rfl
  have noExponent : readExponent rest = .ok (none, rest) := by
    unfold readExponent
    split
    · split
      next mark =>
        simp only [endsValue, Bool.or_eq_true, beq_iff_eq] at ends mark
        rcases mark with rfl | rfl <;> simp at ends
      next => rfl
    · rfl
  have numeral : readNumeral (Nat.toDigits 10 value ++ rest) = .ok
      (⟨false, Nat.toDigits 10 value, [], none, (Nat.toDigits 10 value ++ rest).take
        ((Nat.toDigits 10 value ++ rest).length - rest.length)⟩, rest) := by
    unfold readNumeral
    split
    next negative body sign =>
      split at sign
      next others same => exact absurd same (notMinus others)
      next =>
        cases sign
        simp [wholeRead, noFraction, noExponent, bind, Except.bind, pure, Except.pure]
  unfold readNumber
  rw [numeral]
  simp [isOutOfRange_toDigits fits, Numeral.toJson, digitsValue_toDigits]

/-! ## Arrays and objects -/

section Sequences

variable {σ Element : Type} {close : Char} {starts : Char → Bool} {step : σ → Reader σ}
  {add : σ → Element → σ} {put : Element → List Char → List Char} {fuel : Nat}

/-- An element of a sequence begins like one, and a step reads it back from its text, which is
shorter than `fuel`. -/
structure StepsOver (close : Char) (starts : Char → Bool) (step : σ → Reader σ)
    (add : σ → Element → σ) (put : Element → List Char → List Char) (fuel : Nat)
    (element : Element) : Prop where
  head : ∀ rest, ∃ c tail, put element rest = c :: tail ∧ isGap c = false ∧ (c == close) = false ∧
    starts c = true
  longer : ∀ rest, rest.length < (put element rest).length
  step : ∀ state rest, endsValue rest = true → (put element rest).length < fuel →
    step state (put element rest) = .ok (add state element, rest)

/-- What is written behind an element of a sequence. -/
def behindElement (close : Char) (put : Element → List Char → List Char) (rest : List Char) :
    List Element → List Char
  | [] => close :: rest
  | element :: others => ',' :: put element (behindElement close put rest others)

private theorem length_lt_behindElement (elements : List Element) (rest : List Char)
    (steps : ∀ element ∈ elements, StepsOver close starts step add put fuel element) :
    elements.length < (behindElement close put rest elements).length := by
  induction elements with
  | nil => simp [behindElement]
  | cons element others induction =>
      have fewer := induction fun other member => steps other (List.mem_cons_of_mem element member)
      have longer := (steps element List.mem_cons_self).longer (behindElement close put rest others)
      simp only [behindElement, List.length_cons]
      omega

variable (isClose : endsValue [close] = true) (notComma : close ≠ ',')

include isClose in
theorem endsValue_behindElement (elements : List Element) (rest : List Char) :
    endsValue (behindElement close put rest elements) = true := by
  cases elements with
  | nil => exact isClose
  | cons element others => rfl

include isClose in
private theorem dropGap_close (rest : List Char) : dropGap (close :: rest) = close :: rest := by
  have notGap : isGap close = false := by
    simp only [endsValue, Bool.or_eq_true, beq_iff_eq] at isClose
    rcases isClose with (rfl | rfl) | rfl <;> rfl
  simp [dropGap, notGap]

include isClose notComma

private theorem readMore_behindElement (elements : List Element) {rest : List Char} {state : σ}
    {count : Nat} (steps : ∀ element ∈ elements, StepsOver close starts step add put fuel element)
    (enough : elements.length < count)
    (short : (behindElement close put rest elements).length < fuel) :
    readMore close starts step count state (behindElement close put rest elements) =
      .ok (elements.foldl add state, rest) := by
  obtain ⟨count, rfl⟩ := Nat.exists_eq_succ_of_ne_zero (Nat.ne_of_gt (Nat.zero_lt_of_lt enough))
  induction elements generalizing state count with
  | nil => simp [readMore, behindElement, dropGap_close isClose]
  | cons element others induction =>
      have first := steps element List.mem_cons_self
      have shorter : (put element (behindElement close put rest others)).length < fuel :=
        Nat.lt_of_succ_lt short
      obtain ⟨c, tail, text, notGap, notClose, isStart⟩ :=
        first.head (behindElement close put rest others)
      have stepped := first.step state _ (endsValue_behindElement isClose others rest) shorter
      obtain ⟨count, rfl⟩ := Nat.exists_eq_succ_of_ne_zero
        (Nat.ne_of_gt (Nat.zero_lt_of_lt (Nat.lt_of_succ_lt_succ enough)))
      have more : readMore close starts step (count + 1) (add state element)
          (behindElement close put rest others) =
            .ok (others.foldl add (add state element), rest) :=
        induction (fun other member => steps other (List.mem_cons_of_mem element member))
        (Nat.lt_trans (first.longer _) shorter) count (Nat.lt_of_succ_lt_succ enough)
      have comma : dropGap (',' :: c :: tail) = ',' :: c :: tail := rfl
      have begins : dropGap (c :: tail) = c :: tail := by simp [dropGap, notGap]
      have notClosed : (',' == close) = false := by simpa using notComma.symm
      rw [text] at stepped
      rw [readMore, behindElement, text, comma]
      simp only [notClosed, Bool.false_eq_true, if_false, beq_self_eq_true, if_true, begins,
        notClose, isStart, Bool.not_true, Bool.or_self, stepped, more, List.foldl_cons]

/-- A sequence is read back up to its closing character. -/
theorem readSequence_put (element : Element) (others : List Element) {rest : List Char}
    {state : σ} (steps : ∀ other ∈ element :: others,
      StepsOver close starts step add put fuel other)
    (short : (put element (behindElement close put rest others)).length < fuel) :
    readSequence close starts step fuel state
        (put element (behindElement close put rest others)) =
      .ok ((element :: others).foldl add state, rest) := by
  have first := steps element List.mem_cons_self
  have overOthers := fun other member => steps other (List.mem_cons_of_mem element member)
  obtain ⟨c, tail, text, notGap, notClose, isStart⟩ :=
    first.head (behindElement close put rest others)
  have stepped := first.step state _ (endsValue_behindElement isClose others rest) short
  have shorter := Nat.lt_trans (first.longer (behindElement close put rest others)) short
  have enough := Nat.lt_trans (length_lt_behindElement others rest overOthers) shorter
  have more : readMore close starts step fuel (add state element)
      (behindElement close put rest others) = .ok (others.foldl add (add state element), rest) :=
    readMore_behindElement isClose notComma others overOthers enough shorter
  have begins : dropGap (c :: tail) = c :: tail := by simp [dropGap, notGap]
  rw [text] at stepped ⊢
  simp only [readSequence, begins, notClose, Bool.false_eq_true, if_false, isStart, if_true,
    stepped, more, List.foldl_cons]

end Sequences

/-! ## Values -/

mutual

/-- The numbers in a value are natural and fit into sixty-four bits. -/
def NumbersFit : Json → Prop
  | natural value => value < Limit.wideNumber
  | number _ => False
  | array items => NumbersFitInItems items
  | object members => NumbersFitInMembers members
  | null | bool _ | string _ => True

/-- The numbers in all items fit. -/
def NumbersFitInItems : List Json → Prop
  | [] => True
  | item :: rest => item.NumbersFit ∧ NumbersFitInItems rest

/-- The numbers in all members fit. -/
def NumbersFitInMembers : List (String × Json) → Prop
  | [] => True
  | (_, value) :: rest => value.NumbersFit ∧ NumbersFitInMembers rest

end

/-- A value is read back from its text, which is shorter than `fuel`. -/
def IsReadBack (fuel depth : Nat) (value : Json) : Prop :=
  ∀ rest, endsValue rest = true → (value.write rest).length < fuel →
    readValue fuel depth (value.write rest) = .ok (value, rest)

/-- Writes a member of an object. -/
def writeMember (member : String × Json) (rest : List Char) : List Char :=
  writeString member.1 (':' :: member.2.write rest)

private theorem writeItems_eq (first : Json) (others : List Json) (close : Char)
    (rest : List Char) :
    writeItems (first :: others) (close :: rest) =
      first.write (behindElement close write rest others) := by
  induction others generalizing first with
  | nil => rfl
  | cons second others induction => rw [writeItems, induction, behindElement]; simp

private theorem writeMembers_eq (first : String × Json) (others : List (String × Json))
    (close : Char) (rest : List Char) :
    writeMembers (first :: others) (close :: rest) =
      writeMember first (behindElement close writeMember rest others) := by
  induction others generalizing first with
  | nil => rfl
  | cons second others induction => rw [writeMembers, induction, behindElement]; rfl; simp

/-- The first character of a value is no gap and closes nothing. -/
theorem write_head {value : Json} (fit : value.NumbersFit) (rest : List Char) :
    ∃ c tail, value.write rest = c :: tail ∧ isGap c = false ∧ (c == ']') = false := by
  cases value with
  | null => exact ⟨_, _, rfl, rfl, rfl⟩
  | bool value => cases value <;> exact ⟨_, _, rfl, rfl, rfl⟩
  | natural value =>
      cases digits : Nat.toDigits 10 value with
      | nil => exact absurd digits Nat.toDigits_ne_nil
      | cons first others =>
          have isDigit := Nat.isDigit_of_mem_toDigits (b := 10) (n := value) (c := first)
            (by decide) (by decide) (digits ▸ List.mem_cons_self)
          refine ⟨first, others ++ rest, by rw [write, digits]; rfl, ?_, ?_⟩
          · cases gap : isGap first with
            | false => rfl
            | true =>
                simp only [isGap, Bool.or_eq_true, beq_iff_eq] at gap
                rcases gap with ((rfl | rfl) | rfl) | rfl <;> cases isDigit
          · rw [beq_eq_false_iff_ne]
            rintro rfl
            cases isDigit
  | number lexeme => exact fit.elim
  | string value => exact ⟨_, _, rfl, rfl, rfl⟩
  | array items => exact ⟨_, _, rfl, rfl, rfl⟩
  | object members => exact ⟨_, _, rfl, rfl, rfl⟩

theorem length_lt_writeString (value : String) (rest : List Char) :
    rest.length < (writeString value rest).length := by
  have length := length_written value.toList ('"' :: rest)
  simp only [writeString, List.length_cons] at length ⊢
  omega

mutual

theorem length_lt_write : ∀ {value : Json}, value.NumbersFit → ∀ rest : List Char,
    rest.length < (value.write rest).length
  | null, _, rest => by simp only [write, List.length_cons]; omega
  | bool true, _, rest => by simp only [write, List.length_cons]; omega
  | bool false, _, rest => by simp only [write, List.length_cons]; omega
  | natural value, _, rest => by
    have digits := Nat.length_toDigits_pos (b := 10) (n := value)
    simp only [write, List.length_append]
    omega
  | string value, _, rest => length_lt_writeString value rest
  | array items, fit, rest => by
    have inner := length_le_writeItems fit (']' :: rest)
    simp only [write, List.length_cons] at inner ⊢
    omega
  | object members, fit, rest => by
    have inner := length_le_writeMembers fit ('\x7d' :: rest)
    simp only [write, List.length_cons] at inner ⊢
    omega

theorem length_le_writeItems : ∀ {items : List Json}, NumbersFitInItems items →
    ∀ rest : List Char, rest.length ≤ (writeItems items rest).length
  | [], _, _ => Nat.le_refl _
  | [_], fit, rest => Nat.le_of_lt (length_lt_write fit.1 rest)
  | _ :: second :: others, fit, rest => by
    have behind := length_le_writeItems fit.2 rest
    have first := length_lt_write fit.1 (',' :: writeItems (second :: others) rest)
    simp only [writeItems, List.length_cons] at behind first ⊢
    omega

theorem length_le_writeMembers : ∀ {members : List (String × Json)},
    NumbersFitInMembers members →
      ∀ rest : List Char, rest.length ≤ (writeMembers members rest).length
  | [], _, _ => Nat.le_refl _
  | [(name, value)], fit, rest => by
    have inner := length_lt_write fit.1 rest
    have outer := length_lt_writeString name (':' :: value.write rest)
    simp only [writeMembers, List.length_cons] at outer ⊢
    omega
  | (name, value) :: second :: others, fit, rest => by
    have behind := length_le_writeMembers fit.2 rest
    have inner := length_lt_write fit.1 (',' :: writeMembers (second :: others) rest)
    have outer := length_lt_writeString name
      (':' :: value.write (',' :: writeMembers (second :: others) rest))
    simp only [writeMembers, List.length_cons] at behind inner outer ⊢
    omega

end

/-- Reads one item of an array in front of those before it. -/
def stepItem (item : Reader Json) (items : List Json) : Reader (List Json) := fun text =>
  match item text with
  | .error fault => .error fault
  | .ok (value, rest) => .ok (value :: items, rest)

/-- Reads one member of an object in front of those before it. -/
def stepMember (fuel : Nat) (item : Reader Json) (members : List (String × Json)) :
    Reader (List (String × Json)) := fun text => do
  let (name, text) ← readName fuel text
  let ((), text) ← readColon text
  let (value, text) ← item text
  return ((name, value) :: members, text)

private theorem readValue_bracket (fuel depth : Nat) (text : List Char) :
    readValue fuel (depth + 1) ('[' :: text) =
      match readSequence ']' (fun _ => true) (stepItem (readValue fuel depth)) fuel [] text with
      | .error fault => .error fault
      | .ok (items, rest) => .ok (array items.reverse, rest) := by
  have items : readValue fuel (depth + 1) ('[' :: text) =
      match readItems (readValue fuel depth) fuel text with
      | .error fault => .error fault
      | .ok (items, rest) => .ok (array items, rest) := by
    rw [readValue]
    rfl
  have sequence : readItems (readValue fuel depth) fuel text =
      match readSequence ']' (fun _ => true) (stepItem (readValue fuel depth)) fuel [] text with
      | .error fault => .error fault
      | .ok (items, rest) => .ok (items.reverse, rest) := rfl
  rw [items, sequence]
  cases readSequence ']' (fun _ => true) (stepItem (readValue fuel depth)) fuel [] text <;> rfl

private theorem readValue_brace (fuel depth : Nat) (text : List Char) :
    readValue fuel (depth + 1) ('\x7b' :: text) =
      match readSequence '\x7d' (· == '"') (stepMember fuel (readValue fuel depth)) fuel []
          text with
      | .error fault => .error fault
      | .ok (members, rest) => .ok (object members.reverse, rest) := by
  have members : readValue fuel (depth + 1) ('\x7b' :: text) =
      match readMembers (readValue fuel depth) fuel text with
      | .error fault => .error fault
      | .ok (members, rest) => .ok (object members, rest) := by
    rw [readValue]
    rfl
  have sequence : readMembers (readValue fuel depth) fuel text =
      match readSequence '\x7d' (· == '"') (stepMember fuel (readValue fuel depth)) fuel []
          text with
      | .error fault => .error fault
      | .ok (members, rest) => .ok (members.reverse, rest) := rfl
  rw [members, sequence]
  cases readSequence '\x7d' (· == '"') (stepMember fuel (readValue fuel depth)) fuel [] text <;>
    rfl

private theorem IsReadBack.item {value : Json} {fuel depth : Nat} (fit : value.NumbersFit)
    (back : IsReadBack fuel depth value) :
    StepsOver ']' (fun _ => true) (stepItem (readValue fuel depth))
      (fun items value => value :: items) write fuel value where
  head rest := by
    obtain ⟨c, tail, text, notGap, notClose⟩ := write_head fit rest
    exact ⟨c, tail, text, notGap, notClose, rfl⟩
  longer := length_lt_write fit
  step items rest ends short := by rw [stepItem, back rest ends short]

private theorem IsReadBack.member {value : Json} {fuel depth : Nat} (name : String)
    (fit : value.NumbersFit) (back : IsReadBack fuel depth value) :
    StepsOver '\x7d' (· == '"') (stepMember fuel (readValue fuel depth))
      (fun members member => member :: members) writeMember fuel (name, value) where
  head rest := ⟨_, _, rfl, rfl, rfl, rfl⟩
  longer rest := by
    have inner := length_lt_write fit rest
    have outer := length_lt_writeString name (':' :: value.write rest)
    simp only [writeMember, List.length_cons] at outer ⊢
    omega
  step members rest ends short := by
    have outer := length_lt_writeString name (':' :: value.write rest)
    simp only [writeMember, List.length_cons] at outer short
    have named := readString_written (':' :: value.write rest) short
    have valued := back rest ends (by omega)
    simp [writeMember, writeString, stepMember, readName, named, readColon, dropGap, isGap, valued,
      bind, Except.bind, pure, Except.pure]

private theorem readValue_digit {c : Char} {others : List Char} {fuel depth : Nat}
    {result : Json × List Char} (isDigit : c.isDigit = true)
    (number : readNumber (c :: others) = .ok result) :
    readValue fuel depth (c :: others) = .ok result := by
  have differs : ∀ other : Char, other.isDigit = false → (c == other) = false := by
    rintro other notDigit
    rw [beq_eq_false_iff_ne]
    rintro rfl
    rw [isDigit] at notDigit
    cases notDigit
  have begins : dropGap (c :: others) = c :: others := by
    simp [dropGap, isGap, differs ' ' rfl, differs '\n' rfl, differs '\t' rfl, differs '\r' rfl]
  rw [readValue, begins]
  simp [differs 'n' rfl, differs 't' rfl, differs 'f' rfl, differs '"' rfl, isDigit, number]

mutual

/-- A value whose numbers fit is read back if it does not nest too deeply. -/
theorem readValue_write : ∀ {value : Json} {fuel depth : Nat}, value.NumbersFit →
    value.nesting ≤ depth → IsReadBack fuel depth value
  | null, fuel, depth, _, _, rest, _, _ => by
    simp [write, readValue, dropGap, isGap, readConstant, readWord]
  | bool true, fuel, depth, _, _, rest, _, _ => by
    simp [write, readValue, dropGap, isGap, readConstant, readWord]
  | bool false, fuel, depth, _, _, rest, _, _ => by
    simp [write, readValue, dropGap, isGap, readConstant, readWord]
  | natural value, fuel, depth, fit, _, rest, ends, _ => by
    have number := readNumber_toDigits fit ends
    cases digits : Nat.toDigits 10 value with
    | nil => exact absurd digits Nat.toDigits_ne_nil
    | cons c others =>
      have isDigit := Nat.isDigit_of_mem_toDigits (b := 10) (n := value) (c := c) (by decide)
        (by decide) (digits ▸ List.mem_cons_self)
      rw [digits, List.cons_append] at number
      rw [write, digits, List.cons_append]
      exact readValue_digit isDigit number
  | string value, fuel, depth, _, _, rest, _, short => by
    have back := readString_written rest short
    simp [write, writeString, readValue, dropGap, isGap, back]
  | array [], fuel, depth + 1, _, _, rest, _, _ => by
    simp [write, writeItems, readValue, readItems, readSequence, dropGap, isGap]
  | array (first :: others), fuel, depth + 1, fit, bound, rest, _, short => by
    have back : ∀ item ∈ first :: others, item.NumbersFit ∧ IsReadBack fuel depth item :=
      readItems_write fit (Nat.le_of_succ_le_succ bound)
    have steps := fun item member => (back item member).2.item (back item member).1
    rw [write, writeItems_eq] at short
    rw [write, writeItems_eq, readValue_bracket,
      readSequence_put rfl (by decide) first others steps (Nat.lt_of_succ_lt short)]
    simp
  | object [], fuel, depth + 1, _, _, rest, _, _ => by
    simp [write, writeMembers, readValue, readMembers, readSequence, dropGap, isGap]
  | object (first :: others), fuel, depth + 1, fit, bound, rest, _, short => by
    have back : ∀ member ∈ first :: others, member.2.NumbersFit ∧ IsReadBack fuel depth member.2 :=
      readMembers_write fit (Nat.le_of_succ_le_succ bound)
    have steps := fun member isMember =>
      (back member isMember).2.member member.1 (back member isMember).1
    rw [write, writeMembers_eq] at short
    rw [write, writeMembers_eq, readValue_brace,
      readSequence_put rfl (by decide) first others steps (Nat.lt_of_succ_lt short)]
    simp

theorem readItems_write : ∀ {items : List Json} {fuel depth : Nat}, NumbersFitInItems items →
    nestingOfItems items ≤ depth → ∀ item ∈ items, item.NumbersFit ∧ IsReadBack fuel depth item
  | [], _, _, _, _, item, member => by cases member
  | first :: rest, fuel, depth, fit, bound, item, member => by
    have both := Nat.max_le.mp bound
    rcases List.mem_cons.mp member with same | member
    · rw [same]
      exact ⟨fit.1, readValue_write fit.1 both.1⟩
    · exact readItems_write fit.2 both.2 item member

theorem readMembers_write : ∀ {members : List (String × Json)} {fuel depth : Nat},
    NumbersFitInMembers members → nestingOfMembers members ≤ depth →
      ∀ member ∈ members, member.2.NumbersFit ∧ IsReadBack fuel depth member.2
  | [], _, _, _, _, member, isMember => by cases isMember
  | (name, value) :: rest, fuel, depth, fit, bound, member, isMember => by
    have both := Nat.max_le.mp bound
    rcases List.mem_cons.mp isMember with same | isMember
    · rw [same]
      exact ⟨fit.1, readValue_write fit.1 both.1⟩
    · exact readMembers_write fit.2 both.2 member isMember

end

/-- A value whose numbers fit is all that is read from its text. -/
theorem readFront_compact {value : Json} {depth : Nat} (fit : value.NumbersFit)
    (bound : value.nesting ≤ depth) : readFront depth value.compact = .ok (value, []) := by
  have back : IsReadBack ((value.write []).length + 1) depth value := readValue_write fit bound
  simpa [readFront, compact] using back [] rfl (Nat.lt_succ_self _)

theorem parse_compact {value : Json} {depth : Nat} (fit : value.NumbersFit)
    (bound : value.nesting ≤ depth) : parse depth value.compact = .ok value := by
  simp [parse, readFront_compact fit bound, checkEnd, dropGap, bind, Except.bind, pure,
    Except.pure]

end LexicalScope.Json
