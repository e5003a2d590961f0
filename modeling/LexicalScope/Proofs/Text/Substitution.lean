import LexicalScope.Text.Template

/-!
# Filling templates at once

The placeholders of a template cannot overlap, since each has its only opening brace at its start.
So a template has one cut into characters and places for arguments, and all places can be filled at
once. Filling them one after the other gives the same text as long as no argument, with what stands
around it, makes up the placeholder of a later one.
-/

namespace LexicalScope.Text

/-- A piece of a template: a character that stands for itself, or the place of an argument. -/
inductive Piece where
  | char (c : Char)
  | place (index : Nat)
deriving DecidableEq

/-- Cuts a template for a number of arguments, where `skip` counts the characters still covered by
the last placeholder. -/
def cutFrom (count : Nat) : Nat → List Char → List Piece
  | _, [] => []
  | skip + 1, _ :: rest => cutFrom count skip rest
  | 0, c :: rest =>
    match (List.range count).find? fun index => (placeholder index).isPrefixOf (c :: rest) with
    | some index => .place index :: cutFrom count ((placeholder index).length - 1) rest
    | none => .char c :: cutFrom count 0 rest

/-- The pieces of a template for a number of arguments. -/
def cut (count : Nat) (template : List Char) : List Piece := cutFrom count 0 template

/-- A piece with its argument in its place. A place without an argument keeps its placeholder. -/
def Piece.filled (arguments : List String) : Piece → List Char
  | char c => [c]
  | place index =>
    match arguments[index]? with
    | some argument => argument.toList
    | none => placeholder index

/-- A template with each placeholder replaced by its argument as it is written, all at once. -/
def substitute (template : String) (arguments : List String) : String :=
  String.ofList ((cut arguments.length template.toList).flatMap (Piece.filled arguments))

/-- The number of places at which a pattern occurs in a text. -/
def occurrences (pattern : List Char) : List Char → Nat
  | [] => 0
  | c :: rest =>
    (if pattern.isPrefixOf (c :: rest) then 1 else 0) + occurrences pattern rest

/-- However many of the first arguments are in their places, the placeholder of the next one occurs
only where the template has it. -/
def Unmixed (template : String) (arguments : List String) : Prop :=
  ∀ index < arguments.length,
    occurrences (placeholder index)
        ((cut arguments.length template.toList).flatMap (Piece.filled (arguments.take index))) =
      occurrences (placeholder index) template.toList

instance (template : String) (arguments : List String) : Decidable (Unmixed template arguments) :=
  inferInstanceAs (Decidable (∀ index < arguments.length, _ = _))

variable {count index other skip : Nat} {arguments : List String} {argument : String}
  {pattern replacement text rest front template : List Char} {pieces : List Piece} {c : Char}

/-! ## Placeholders -/

theorem isDigit_of_mem_toDigits (member : c ∈ Nat.toDigits 10 index) : c.isDigit = true :=
  Nat.isDigit_of_mem_toDigits (by decide) (by decide) member

theorem placeholder_eq (index : Nat) :
    placeholder index = '{' :: (Nat.toDigits 10 index ++ ['}']) := rfl

theorem openingBrace_notMem (index : Nat) : '{' ∉ Nat.toDigits 10 index ++ ['}'] := by
  rw [List.mem_append, not_or]
  exact ⟨fun member => absurd (isDigit_of_mem_toDigits member) (by decide), by decide⟩

/-- Only one placeholder stands at a place. -/
theorem eq_of_isPrefix_placeholder (isPrefix : placeholder index <+: placeholder other ++ text) :
    index = other := by
  obtain ⟨behind, same⟩ := isPrefix
  have digits : ∀ number : Nat, ∀ rest : List Char,
      ((Nat.toDigits 10 number ++ ['}']) ++ rest).takeWhile (· ≠ '}') = Nat.toDigits 10 number := by
    intro number rest
    rw [List.append_assoc, List.takeWhile_append_of_pos fun c member => ?_]
    · simp
    · have isDigit := isDigit_of_mem_toDigits member
      simp only [ne_eq, decide_not, Bool.not_eq_true', decide_eq_false_iff_not]
      rintro rfl
      exact absurd isDigit (by decide)
  rw [placeholder_eq, placeholder_eq, List.cons_append, List.cons_append] at same
  have sameDigits := congrArg (List.takeWhile (· ≠ '}')) (List.cons.inj same).2
  rw [digits, digits] at sameDigits
  rw [← Nat.ofDigitChars_ten_toDigits (n := index), sameDigits, Nat.ofDigitChars_ten_toDigits]

/-! ## Occurrences -/

theorem occurrences_le_append (pattern front text : List Char) :
    occurrences pattern text ≤ occurrences pattern (front ++ text) := by
  induction front with
  | nil => exact Nat.le_refl _
  | cons c front induction => exact Nat.le_trans induction (Nat.le_add_left ..)

theorem occurrences_append (without : '{' ∉ front) :
    occurrences (placeholder index) (front ++ text) = occurrences (placeholder index) text := by
  induction front with
  | nil => rfl
  | cons c front induction =>
      obtain ⟨other, without⟩ := not_or.mp (mt List.mem_cons.mpr without)
      have noMatch : (placeholder index).isPrefixOf (c :: (front ++ text)) = false := by
        rw [placeholder_eq, List.isPrefixOf_cons_cons, beq_false_of_ne other, Bool.false_and]
      rw [List.cons_append, occurrences, noMatch, induction without]
      exact Nat.zero_add _

theorem occurrences_placeholder_append :
    occurrences (placeholder index) (placeholder index ++ text) =
      occurrences (placeholder index) text + 1 := by
  have isMatch : (placeholder index).isPrefixOf (placeholder index ++ text) = true :=
    List.isPrefixOf_iff_prefix.mpr (List.prefix_append ..)
  rw [placeholder_eq, List.cons_append] at isMatch ⊢
  rw [occurrences, isMatch, ← placeholder_eq, occurrences_append (openingBrace_notMem index)]
  exact Nat.add_comm ..

theorem occurrences_other_append (different : index ≠ other) :
    occurrences (placeholder index) (placeholder other ++ text) =
      occurrences (placeholder index) text := by
  have noMatch : (placeholder index).isPrefixOf (placeholder other ++ text) = false :=
    Bool.eq_false_iff.mpr fun isMatch =>
      different (eq_of_isPrefix_placeholder (List.isPrefixOf_iff_prefix.mp isMatch))
  rw [placeholder_eq other, List.cons_append] at noMatch ⊢
  rw [occurrences, noMatch, occurrences_append (openingBrace_notMem other)]
  exact Nat.zero_add _

/-! ## Cuts -/

/-- Pieces are the cut of a template: a placeholder of an argument is its place, and a character
that starts none stands for itself. -/
inductive IsCut (count : Nat) : List Char → List Piece → Prop
  | nil : IsCut count [] []
  | char {c : Char} {rest : List Char} {pieces : List Piece} :
      (∀ index < count, ¬ placeholder index <+: c :: rest) → IsCut count rest pieces →
        IsCut count (c :: rest) (.char c :: pieces)
  | place {index : Nat} {rest : List Char} {pieces : List Piece} : index < count →
      IsCut count rest pieces →
        IsCut count (placeholder index ++ rest) (.place index :: pieces)

private theorem cutFrom_eq_drop : cutFrom count skip text = cutFrom count 0 (text.drop skip) := by
  induction skip generalizing text with
  | zero => rfl
  | succ skip induction =>
      cases text with
      | nil => cases skip <;> rfl
      | cons c rest => exact induction

private theorem cut_nil : cut count [] = [] := rfl

theorem cut_place (bound : index < count) :
    cut count (placeholder index ++ rest) = .place index :: cut count rest := by
  have found : ((List.range count).find? fun other =>
      (placeholder other).isPrefixOf (placeholder index ++ rest)) = some index := by
    have isMatch : (placeholder index).isPrefixOf (placeholder index ++ rest) = true :=
      List.isPrefixOf_iff_prefix.mpr (List.prefix_append ..)
    have isSome : ((List.range count).find? fun other =>
        (placeholder other).isPrefixOf (placeholder index ++ rest)).isSome = true := by
      rw [List.find?_isSome]
      exact ⟨index, List.mem_range.mpr bound, isMatch⟩
    obtain ⟨other, isFound⟩ := Option.isSome_iff_exists.mp isSome
    have matched := List.find?_some isFound
    exact eq_of_isPrefix_placeholder (List.isPrefixOf_iff_prefix.mp matched) ▸ isFound
  rw [placeholder_eq, List.cons_append] at found ⊢
  rw [cut, cutFrom, found]
  dsimp only
  rw [cutFrom_eq_drop, placeholder_eq, List.length_cons, Nat.add_sub_cancel, List.drop_left, cut]

theorem cut_char (noPlace : ∀ index < count, ¬ placeholder index <+: c :: rest) :
    cut count (c :: rest) = .char c :: cut count rest := by
  have notFound : ((List.range count).find? fun index =>
      (placeholder index).isPrefixOf (c :: rest)) = none := by
    refine List.find?_eq_none.mpr fun index member isMatch => ?_
    exact noPlace index (List.mem_range.mp member) (List.isPrefixOf_iff_prefix.mp isMatch)
  rw [cut, cutFrom, notFound, cut]

theorem isCut_cut (count : Nat) (template : List Char) :
    IsCut count template (cut count template) := by
  induction length : template.length using Nat.strongRecOn generalizing template with
  | ind length induction =>
      subst length
      cases template with
      | nil => exact .nil
      | cons c rest =>
          by_cases isPlace : ∃ index < count, placeholder index <+: c :: rest
          · obtain ⟨index, bound, behind, same⟩ := isPlace
            rw [← same, cut_place bound]
            refine .place bound (induction behind.length ?_ behind rfl)
            rw [← same, List.length_append, placeholder_eq]
            simp
          · have noPlace : ∀ index < count, ¬ placeholder index <+: c :: rest :=
              fun index bound isPrefix => isPlace ⟨index, bound, isPrefix⟩
            rw [cut_char noPlace]
            exact .char noPlace (induction rest.length (Nat.lt_succ_self _) rest rfl)

theorem count_char_cons :
    (Piece.char c :: pieces).count (.place index) = pieces.count (.place index) := by
  have different : Piece.char c ≠ .place index := nofun
  exact List.count_cons_of_ne different

theorem count_place_cons (different : other ≠ index) :
    (Piece.place other :: pieces).count (.place index) = pieces.count (.place index) :=
  List.count_cons_of_ne fun same => different (Piece.place.inj same)

theorem IsCut.flatMap_filled_nil (isCut : IsCut count template pieces) :
    pieces.flatMap (Piece.filled []) = template := by
  induction isCut with
  | nil => rfl
  | char _ _ induction => rw [List.flatMap_cons, induction]; rfl
  | place _ _ induction => rw [List.flatMap_cons, induction]; rfl

/-- The placeholder of an argument occurs in a template just where the template has its place. -/
theorem IsCut.occurrences_eq (isCut : IsCut count template pieces) (bound : index < count) :
    occurrences (placeholder index) template = pieces.count (.place index) := by
  induction isCut with
  | nil => rfl
  | @char c rest _ noPlace _ induction =>
      have noMatch : (placeholder index).isPrefixOf (c :: rest) = false :=
        Bool.eq_false_iff.mpr fun isMatch =>
          noPlace index bound (List.isPrefixOf_iff_prefix.mp isMatch)
      rw [occurrences, noMatch, induction, count_char_cons]
      exact Nat.zero_add _
  | @place other _ _ _ _ induction =>
      by_cases same : index = other
      · subst same
        rw [occurrences_placeholder_append, induction, List.count_cons_self]
      · rw [occurrences_other_append same, induction, count_place_cons (Ne.symm same)]

/-! ## Replacing -/

private theorem replaceFrom_eq_drop :
    replaceFrom pattern replacement skip text =
      replaceFrom pattern replacement 0 (text.drop skip) := by
  induction skip generalizing text with
  | zero => rfl
  | succ skip induction =>
      cases text with
      | nil => cases skip <;> rfl
      | cons c rest => exact induction

private theorem replaceAll_nil : replaceAll pattern replacement [] = [] := rfl

theorem replaceAll_placeholder_append :
    replaceAll (placeholder index) replacement (placeholder index ++ text) =
      replacement ++ replaceAll (placeholder index) replacement text := by
  have isMatch : (placeholder index).isPrefixOf (placeholder index ++ text) = true :=
    List.isPrefixOf_iff_prefix.mpr (List.prefix_append ..)
  rw [replaceAll, replaceAll, placeholder_eq, List.cons_append] at *
  rw [replaceFrom, if_pos isMatch, replaceFrom_eq_drop]
  simp

theorem replaceAll_append
    (nothing : occurrences pattern (front ++ text) = occurrences pattern text) :
    replaceAll pattern replacement (front ++ text) =
      front ++ replaceAll pattern replacement text := by
  induction front with
  | nil => rfl
  | cons c front induction =>
      have fewer := occurrences_le_append pattern front text
      rw [List.cons_append, occurrences] at nothing
      have noMatch : ¬ pattern.isPrefixOf (c :: (front ++ text)) = true := by
        intro isMatch
        rw [if_pos isMatch] at nothing
        omega
      rw [if_neg noMatch, Nat.zero_add] at nothing
      rw [List.cons_append, replaceAll, replaceFrom, if_neg noMatch]
      exact congrArg (c :: ·) (induction nothing)

/-! ## Filling one after the other -/

theorem filled_take_of_lt (isArgument : arguments[other]? = some argument)
    (before : other < index) :
    (Piece.place other).filled (arguments.take index) = argument.toList := by
  rw [Piece.filled, List.getElem?_take_of_lt before, isArgument]

theorem filled_take_of_le (notBefore : index ≤ other) :
    (Piece.place other).filled (arguments.take index) = placeholder other := by
  have beyond : (arguments.take index)[other]? = none :=
    List.getElem?_eq_none (Nat.le_trans (List.length_take_le ..) notBefore)
  rw [Piece.filled, beyond]

private theorem filled_take_of_ne {piece : Piece} (different : piece ≠ .place index) :
    piece.filled (arguments.take (index + 1)) = piece.filled (arguments.take index) := by
  cases piece with
  | char c => rfl
  | place other =>
      have otherIndex : other ≠ index := fun same => different (congrArg Piece.place same)
      by_cases before : other < index
      · rw [Piece.filled, Piece.filled, List.getElem?_take_of_lt before,
          List.getElem?_take_of_lt (Nat.lt_succ_of_lt before)]
      · rw [filled_take_of_le (by omega), filled_take_of_le (by omega)]

private theorem count_le_occurrences (pieces : List Piece) :
    pieces.count (.place index) ≤
      occurrences (placeholder index) (pieces.flatMap (Piece.filled (arguments.take index))) := by
  induction pieces with
  | nil => exact Nat.zero_le _
  | cons piece pieces induction =>
      rw [List.flatMap_cons]
      by_cases isPlace : piece = .place index
      · rw [isPlace, List.count_cons_self, filled_take_of_le (Nat.le_refl _),
          occurrences_placeholder_append]
        exact Nat.succ_le_succ induction
      · rw [List.count_cons_of_ne isPlace]
        exact Nat.le_trans induction (occurrences_le_append ..)

/-- A turn fills the places of its argument if its placeholder does not occur anywhere else. -/
theorem replaceAll_flatMap (isArgument : arguments[index]? = some argument)
    (only : occurrences (placeholder index)
      (pieces.flatMap (Piece.filled (arguments.take index))) = pieces.count (.place index)) :
    replaceAll (placeholder index) argument.toList
        (pieces.flatMap (Piece.filled (arguments.take index))) =
      pieces.flatMap (Piece.filled (arguments.take (index + 1))) := by
  induction pieces with
  | nil => rfl
  | cons piece pieces induction =>
      rw [List.flatMap_cons] at only
      rw [List.flatMap_cons, List.flatMap_cons]
      by_cases isPlace : piece = .place index
      · subst isPlace
        rw [filled_take_of_le (Nat.le_refl _), occurrences_placeholder_append,
          List.count_cons_self] at only
        rw [filled_take_of_le (Nat.le_refl _), filled_take_of_lt isArgument (Nat.lt_succ_self _),
          replaceAll_placeholder_append, induction (Nat.succ.inj only)]
      · -- The other places account for all occurrences, so this piece starts none.
        have atLeast : pieces.count (.place index) ≤ occurrences (placeholder index)
            (pieces.flatMap (Piece.filled (arguments.take index))) := count_le_occurrences pieces
        have fewer := occurrences_le_append (placeholder index)
          (piece.filled (arguments.take index))
          (pieces.flatMap (Piece.filled (arguments.take index)))
        rw [List.count_cons_of_ne isPlace] at only
        rw [replaceAll_append (by omega), filled_take_of_ne isPlace, induction (by omega)]

private theorem fillFrom_flatMap {rest : List String} (isRest : arguments.drop index = rest)
    (only : ∀ other, index ≤ other → other < arguments.length →
      occurrences (placeholder other) (pieces.flatMap (Piece.filled (arguments.take other))) =
        pieces.count (.place other)) :
    fillFrom index rest (pieces.flatMap (Piece.filled (arguments.take index))) =
      pieces.flatMap (Piece.filled arguments) := by
  induction rest generalizing index with
  | nil => rw [fillFrom, List.take_of_length_le (List.drop_eq_nil_iff.mp isRest)]
  | cons argument rest induction =>
      have bound : index < arguments.length := by
        refine Nat.not_le.mp fun behind => ?_
        rw [List.drop_eq_nil_of_le behind] at isRest
        cases isRest
      rw [List.drop_eq_getElem_cons bound] at isRest
      obtain ⟨isFirst, isRest⟩ := List.cons.inj isRest
      have isArgument : arguments[index]? = some argument :=
        isFirst ▸ List.getElem?_eq_getElem bound
      rw [fillFrom, replaceAll_flatMap isArgument (only index (Nat.le_refl _) bound)]
      exact induction isRest fun other lower => only other (by omega)

/-- Filling one after the other is filling at once if no placeholder comes up between. -/
theorem fill_eq_substitute {template : String} (unmixed : Unmixed template arguments) :
    fill template arguments = substitute template arguments := by
  have isCut := isCut_cut arguments.length template.toList
  have filled : fillFrom 0 arguments
      ((cut arguments.length template.toList).flatMap (Piece.filled (arguments.take 0))) =
        (cut arguments.length template.toList).flatMap (Piece.filled arguments) :=
    fillFrom_flatMap List.drop_zero fun other _ bound =>
      (unmixed other bound).trans (isCut.occurrences_eq bound)
  rw [List.take_zero, isCut.flatMap_filled_nil] at filled
  rw [fill, filled, substitute]

theorem unmixed_singleton (template argument : String) : Unmixed template [argument] := by
  intro index bound
  obtain rfl : index = 0 := Nat.lt_one_iff.mp bound
  rw [List.take_zero, (isCut_cut ..).flatMap_filled_nil]

private theorem occurrences_filled_append (bound : index < arguments.length) {piece : Piece}
    (plain : ∀ argument ∈ arguments.dropLast, '{' ∉ argument.toList)
    (notBrace : piece ≠ .char '{') :
    occurrences (placeholder index) (piece.filled (arguments.take index) ++ text) =
      occurrences (placeholder index) text + [piece].count (.place index) := by
  cases piece with
  | char c =>
      have without : '{' ∉ [c] := fun member =>
        notBrace (congrArg Piece.char (List.mem_singleton.mp member).symm)
      rw [count_char_cons]
      exact occurrences_append without
  | place other =>
      rcases Nat.lt_trichotomy other index with before | rfl | behind
      · have isArgument : arguments[other]? = some arguments[other] :=
          List.getElem?_eq_getElem (Nat.lt_trans before bound)
        have without : '{' ∉ arguments[other].toList := by
          refine plain _ (List.mem_iff_getElem.mpr ⟨other, ?_, List.getElem_dropLast _⟩)
          rw [List.length_dropLast]
          omega
        rw [count_place_cons (Nat.ne_of_lt before), filled_take_of_lt isArgument before]
        exact occurrences_append without
      · rw [filled_take_of_le (Nat.le_refl _), occurrences_placeholder_append,
          List.count_singleton_self]
      · rw [count_place_cons (Nat.ne_of_gt behind), filled_take_of_le (Nat.le_of_lt behind)]
        exact occurrences_other_append (Nat.ne_of_lt behind)

/-- Without opening braces in the arguments but the last, and in the template but for placeholders,
nothing can make up a placeholder. -/
theorem unmixed_of_openingBrace_notMem {template : String}
    (plain : ∀ argument ∈ arguments.dropLast, '{' ∉ argument.toList)
    (tidy : .char '{' ∉ cut arguments.length template.toList) : Unmixed template arguments := by
  intro index bound
  rw [(isCut_cut arguments.length template.toList).occurrences_eq bound]
  generalize cut arguments.length template.toList = pieces at tidy
  induction pieces with
  | nil => rfl
  | cons piece pieces induction =>
      obtain ⟨notBrace, tidy⟩ := not_or.mp (mt List.mem_cons.mpr tidy)
      calc occurrences (placeholder index)
            ((piece :: pieces).flatMap (Piece.filled (arguments.take index)))
          = occurrences (placeholder index)
              (pieces.flatMap (Piece.filled (arguments.take index))) +
                [piece].count (.place index) := by
            rw [List.flatMap_cons, occurrences_filled_append bound plain (Ne.symm notBrace)]
        _ = pieces.count (.place index) + [piece].count (.place index) := by rw [induction tidy]
        _ = (piece :: pieces).count (.place index) := by
            rw [Nat.add_comm, ← List.count_append, List.singleton_append]

/-! ## Two places -/

private theorem isPrefix_of_append_cons (apart : c ∉ pattern)
    (isPrefix : pattern <+: front ++ c :: text) : pattern <+: front := by
  rcases List.prefix_or_prefix_of_prefix isPrefix (List.prefix_append front (c :: text)) with
    inFront | ⟨behind, rfl⟩
  · exact inFront
  · cases behind with
    | nil => simp
    | cons other behind =>
        have isBehind := (List.prefix_append_right_inj front).mp isPrefix
        obtain ⟨same, _⟩ := List.cons_prefix_cons.mp isBehind
        exact absurd (List.mem_append_right front (same ▸ List.mem_cons_self)) apart

private theorem replaceFrom_append_cons (apart : c ∉ pattern) (covered : skip ≤ front.length) :
    replaceFrom pattern replacement skip (front ++ c :: text) =
      replaceFrom pattern replacement skip front ++
        replaceFrom pattern replacement 0 (c :: text) := by
  induction front generalizing skip with
  | nil =>
      obtain rfl := Nat.le_zero.mp covered
      rfl
  | cons first front induction =>
      cases skip with
      | succ skip => exact induction (Nat.le_of_succ_le_succ covered)
      | zero =>
          by_cases isMatch : pattern <+: first :: front
          · have inWhole : pattern <+: first :: (front ++ c :: text) :=
              isMatch.trans (List.prefix_append (first :: front) (c :: text))
            have length := isMatch.length_le
            rw [List.cons_append, replaceFrom, replaceFrom,
              if_pos (List.isPrefixOf_iff_prefix.mpr inWhole),
              if_pos (List.isPrefixOf_iff_prefix.mpr isMatch), List.append_assoc,
              induction (Nat.sub_le_of_le_add length)]
          · have notInWhole : ¬ pattern <+: first :: front ++ c :: text :=
              mt (isPrefix_of_append_cons apart) isMatch
            rw [List.cons_append] at notInWhole
            rw [List.cons_append, replaceFrom, replaceFrom,
              if_neg (mt List.isPrefixOf_iff_prefix.mp notInWhole),
              if_neg (mt List.isPrefixOf_iff_prefix.mp isMatch), List.cons_append,
              induction (Nat.zero_le _)]

/-- Replacing placeholders by something that starts with no brace keeps a text just if there are
none. -/
theorem replaceAll_eq_self_iff (noBrace : c ≠ '{') :
    replaceAll (placeholder index) (c :: replacement) text = text ↔
      ¬ placeholder index <:+: text := by
  induction text with
  | nil => simp [replaceAll, replaceFrom, placeholder_eq]
  | cons first text induction =>
      rw [List.infix_cons_iff, not_or, replaceAll, replaceFrom]
      by_cases isMatch : placeholder index <+: first :: text
      · have isBrace : '{' = first := (List.cons_prefix_cons.mp isMatch).1
        rw [if_pos (List.isPrefixOf_iff_prefix.mpr isMatch), List.cons_append]
        refine iff_of_false (fun same => ?_) fun ⟨noMatch, _⟩ => noMatch isMatch
        exact noBrace ((List.cons.inj same).1.trans isBrace.symm)
      · rw [if_neg (mt List.isPrefixOf_iff_prefix.mp isMatch), List.cons.injEq,
          and_iff_right rfl, and_iff_right isMatch]
        exact induction

section Pair

variable {middle behind : List Char}

private theorem replaceAll_without (without : '{' ∉ front) :
    replaceAll (placeholder index) replacement (front ++ text) =
      front ++ replaceAll (placeholder index) replacement text :=
  replaceAll_append (occurrences_append without)

private theorem cut_append (without : '{' ∉ front) :
    cut count (front ++ text) = front.map .char ++ cut count text := by
  induction front with
  | nil => rfl
  | cons c front induction =>
      obtain ⟨other, without⟩ := not_or.mp (mt List.mem_cons.mpr without)
      have noPlace : ∀ index < count, ¬ placeholder index <+: c :: (front ++ text) :=
        fun index _ isPrefix => other (List.cons_prefix_cons.mp isPrefix).1
      rw [List.cons_append, cut_char noPlace, induction without]
      rfl

/-- In a template with two places apart, the second argument also takes the places of its
placeholders in the first one. -/
theorem fill_pair (first second : String) (inFront : '{' ∉ front) (inMiddle : '{' ∉ c :: middle)
    (inBehind : '{' ∉ behind) (apart : c ∉ placeholder 1) :
    fill (String.ofList (front ++ (placeholder 0 ++ (c :: middle ++ (placeholder 1 ++ behind)))))
        [first, second] =
      String.ofList (front ++ (replaceAll (placeholder 1) second.toList first.toList ++
        (c :: middle ++ (second.toList ++ behind)))) := by
  have inEnd : ∀ {index : Nat} {replacement : List Char},
      replaceAll (placeholder index) replacement behind = behind := by
    intro index replacement
    rw [← List.append_nil behind, replaceAll_without inBehind, replaceAll_nil]
  have firstTurn : replaceAll (placeholder 0) first.toList
      (front ++ (placeholder 0 ++ (c :: middle ++ (placeholder 1 ++ behind)))) =
        front ++ (first.toList ++ (c :: middle ++ (placeholder 1 ++ behind))) := by
    rw [replaceAll_without inFront, replaceAll_placeholder_append, replaceAll_without inMiddle,
      replaceAll_append (occurrences_other_append Nat.zero_ne_one), inEnd]
  have secondTurn : replaceAll (placeholder 1) second.toList
      (first.toList ++ (c :: middle ++ (placeholder 1 ++ behind))) =
        replaceAll (placeholder 1) second.toList first.toList ++
          (c :: middle ++ (second.toList ++ behind)) := by
    rw [List.cons_append, replaceAll, replaceFrom_append_cons apart (Nat.zero_le _),
      ← List.cons_append]
    rw [← replaceAll, ← replaceAll, replaceAll_without inMiddle, replaceAll_placeholder_append,
      inEnd]
  rw [fill, String.toList_ofList, fillFrom, fillFrom, fillFrom, firstTurn,
    replaceAll_without inFront, secondTurn]

theorem substitute_pair (first second : String) (inFront : '{' ∉ front)
    (inMiddle : '{' ∉ c :: middle) (inBehind : '{' ∉ behind) :
    substitute
        (String.ofList (front ++ (placeholder 0 ++ (c :: middle ++ (placeholder 1 ++ behind)))))
        [first, second] =
      String.ofList (front ++ (first.toList ++ (c :: middle ++ (second.toList ++ behind)))) := by
  have inEnd : cut 2 behind = behind.map .char := by
    have kept : cut 2 (behind ++ []) = behind.map .char ++ cut 2 [] := cut_append inBehind
    rwa [cut_nil, List.append_nil, List.append_nil] at kept
  have chars : ∀ text : List Char,
      (text.map .char).flatMap (Piece.filled [first, second]) = text := by
    intro text
    rw [List.flatMap_map]
    exact List.flatMap_singleton' text
  rw [substitute, String.toList_ofList, List.length_cons, List.length_cons, List.length_nil,
    cut_append inFront, cut_place (by decide), cut_append inMiddle, cut_place (by decide), inEnd]
  simp only [List.flatMap_append, List.flatMap_cons, chars]
  rfl

end Pair

end LexicalScope.Text
