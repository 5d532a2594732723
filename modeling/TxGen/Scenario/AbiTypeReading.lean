import TxGen.Scenario.AbiTypeGrammar

set_option autoImplicit false

/-! # What the parser of Solidity types accepts

Where the parser succeeds, the text that it has read is a printing of the type it returns. Enough fuel and
slices at the places it has read lead to no other failure than a report. -/

namespace TxGen.AbiType

/-! ## Outcomes -/

/-- A result with a property, or a report; not a lack of fuel and no panic. -/
def Returns {α : Type} (P : α → Prop) : Except Failure α → Prop
  | .ok a => P a
  | .error (.report _) => True
  | .error _ => False

namespace Returns

variable {α β : Type} {P : α → Prop} {Q : β → Prop}

theorem fail (message : String) : Returns P (AbiType.fail message) := trivial

theorem bind {x : Except Failure α} {f : α → Except Failure β} (hx : Returns P x)
    (hf : ∀ a, P a → Returns Q (f a)) : Returns Q (x >>= f) := by
  cases x with
  | ok a => exact hf a hx
  | error failure =>
      cases failure with
      | report report => trivial
      | outOfFuel => exact hx
      | panic => exact hx

theorem mono {P' : α → Prop} {x : Except Failure α} (hx : Returns P x) (h : ∀ a, P a → P' a) :
    Returns P' x := by
  cases x with
  | ok a => exact h a hx
  | error failure =>
      cases failure with
      | report report => trivial
      | outOfFuel => exact hx
      | panic => exact hx

theorem orReport {result : Except Report α} {message : String} (h : ∀ a, result = .ok a → P a) :
    Returns P (AbiType.orReport result message) := by
  cases result with
  | ok a => exact h a rfl
  | error report => trivial

theorem ok_or_report {x : Except Failure α} (h : Returns P x) :
    (∃ a, x = .ok a ∧ P a) ∨ ∃ report, x = .error (.report report) := by
  cases x with
  | ok a => exact Or.inl ⟨a, rfl, h⟩
  | error failure =>
      cases failure with
      | report report => exact Or.inr ⟨report, rfl⟩
      | outOfFuel => cases h
      | panic => cases h

end Returns

/-! ## Array suffixes -/

theorem isIdentifierPart_of_isDigit {c : Char} (h : c.isDigit = true) : isIdentifierPart c = true := by
  simp [isIdentifierPart, Char.isAlphanum, h]

theorem parseUsize_digits {digits : List Char} (hne : digits ≠ [])
    (hdigits : ∀ c ∈ digits, c.isDigit = true) :
    parseUsize (String.ofList digits) =
      if Nat.ofDigitChars 10 digits 0 < 2 ^ 64 then some (Nat.ofDigitChars 10 digits 0) else none := by
  have hplus : ∀ rest, digits ≠ '+' :: rest := by
    rintro rest rfl
    have := hdigits '+' List.mem_cons_self
    simp at this
  unfold parseUsize
  rw [String.toList_ofList]
  split
  · next rest => exact absurd rfl (hplus rest)
  · simp only [Nat.ofDigitChars_eq_foldl]
    rw [if_pos ⟨hne, List.all_eq_true.2 hdigits⟩]

section

variable {input : List Char}

/-- The digits at a place, and the length they stand for -/
theorem parseLength_eq {length : Option ℕ} {digits stop : List Char}
    (hlength : PrintsLength Spelled length digits) (h : digits ++ stop <:+ input) :
    parseLength input (digits ++ stop) stop = .ok length := by
  unfold parseLength
  cases hlength with
  | dynamic => rw [if_pos ((offset_eq_iff h).2 rfl)]
  | fixed hspelled hpos hlt =>
      rw [if_neg (mt (offset_eq_iff h).1 hspelled.ne_nil), slice_eq h]
      have hparse := parseUsize_digits hspelled.ne_nil hspelled.digit
      rw [hspelled.value, if_pos hlt] at hparse
      simp only [bind, Except.bind, hparse, okOr, orReport]
      rfl

/-- A length that is read, zero included -/
theorem parseLength_returns {digits stop : List Char} (hdigits : ∀ c ∈ digits, c.isDigit = true)
    (h : digits ++ stop <:+ input) :
    Returns (fun length => length = some 0 ∨ PrintsLength Spelled length digits)
      (parseLength input (digits ++ stop) stop) := by
  unfold parseLength
  split
  · next heq =>
      obtain rfl := (offset_eq_iff h).1 heq
      exact Or.inr .dynamic
  · next hne =>
      have hnil := mt (offset_eq_iff h).2 hne
      rw [slice_eq h]
      refine Returns.bind (P := fun n => n < 2 ^ 64 ∧ Spelled n digits) ?_ fun n hn => ?_
      · refine Returns.orReport fun n hn => ?_
        rw [okOr_eq_ok, parseUsize_digits hnil hdigits] at hn
        split at hn
        · next hlt =>
            obtain rfl := Option.some.inj hn
            exact ⟨hlt, hnil, hdigits, rfl⟩
        · cases hn
      · rcases Nat.eq_zero_or_pos n with rfl | hpos
        · exact Or.inl rfl
        · exact Or.inr (.fixed hn.2 hpos hn.1)

theorem notHead_isDigit {rest : List Char} (h : NotHead isIdentifierPart rest) :
    NotHead Char.isDigit rest := by
  intro c hc
  by_contra hdigit
  have := isIdentifierPart_of_isDigit (Bool.not_eq_false _ ▸ hdigit)
  rw [h c hc] at this
  cases this

/-- Blanks and a bracket do not go on with a name. -/
theorem notHead_blank_cons {blank : List Char} (hblank : Blank blank) {c : Char}
    (hc : isIdentifierPart c = false) (rest : List Char) :
    NotHead isIdentifierPart (blank ++ c :: rest) :=
  .blank_append (fun _ => identifierPart_of_whitespace) hblank (.cons hc rest)

/-- Digits are read up to what is no digit. -/
theorem dropWhile_isDigit {digits stop : List Char} (hdigits : ∀ c ∈ digits, c.isDigit = true)
    (hstop : NotHead Char.isDigit stop) : (digits ++ stop).dropWhile Char.isDigit = stop := by
  rw [List.dropWhile_append_of_pos hdigits]
  cases stop with
  | nil => rfl
  | cons c stop => exact List.dropWhile_cons_of_neg (by simp [hstop c rfl])

theorem PrintsLength.isDigit {length : Option ℕ} {digits : List Char}
    (h : PrintsLength Spelled length digits) : ∀ c ∈ digits, c.isDigit = true := by
  cases h with
  | dynamic => exact List.forall_mem_nil _
  | fixed hspelled => exact hspelled.digit

theorem parseSuffix_eq {ty : DynSolType} {length : Option ℕ} {inner digits after rest : List Char}
    (hinner : Blank inner) (hlength : PrintsLength Spelled length digits) (hafter : Blank after)
    (h : inner ++ (digits ++ (after ++ ']' :: rest)) <:+ input) :
    parseSuffix input ty (inner ++ (digits ++ (after ++ ']' :: rest))) =
      .ok (arrayType ty length, rest) := by
  have hbracket : NotHead Text.isAsciiWhitespace (']' :: rest) := .cons (by decide) rest
  have hdrop : (digits ++ (after ++ ']' :: rest)).dropWhile Char.isDigit = after ++ ']' :: rest :=
    dropWhile_isDigit hlength.isDigit
      (notHead_isDigit (notHead_blank_cons hafter (by decide) rest))
  have hread := parseLength_eq hlength ((List.suffix_append inner _).trans h)
  cases hlength with
  | dynamic =>
      -- Without digits the blanks of both sides are skipped at once.
      have hskip : skipWhitespace (inner ++ ([] ++ (after ++ ']' :: rest))) = ']' :: rest := by
        rw [List.nil_append, skipWhitespace_append hinner, skipWhitespace_blank hafter hbracket]
      have hread : parseLength input ([] ++ ']' :: rest) (']' :: rest) = .ok none := parseLength_eq .dynamic
        (((List.suffix_append after _).trans (List.suffix_append inner _)).trans h)
      rw [List.nil_append] at hread
      have hstop : (']' :: rest).dropWhile Char.isDigit = ']' :: rest :=
        List.dropWhile_cons_of_neg (by decide)
      simp only [parseSuffix, hskip, hstop, hread, bind, Except.bind, skipWhitespace_eq hbracket,
        consumeByte_cons, arrayOf]
      rfl
  | fixed hspelled hpos hlt =>
      have hskip : skipWhitespace (inner ++ (digits ++ (after ++ ']' :: rest))) =
          digits ++ (after ++ ']' :: rest) := by
        refine skipWhitespace_blank hinner (.append ?_ hspelled.ne_nil _)
        intro c hc
        exact whitespace_of_identifierPart
          (isIdentifierPart_of_isDigit (hspelled.digit c (List.mem_of_mem_head? hc)))
      simp only [parseSuffix, hskip, hdrop, hread, bind, Except.bind,
        skipWhitespace_blank hafter hbracket, consumeByte_cons]
      cases hn : ‹ℕ› with
      | zero => omega
      | succ n => rfl

theorem arrayOf_returns {ty : DynSolType} {length : Option ℕ} {digits : List Char}
    (h : length = some 0 ∨ PrintsLength Spelled length digits) :
    Returns (fun ty' => ty' = arrayType ty length ∧ PrintsLength Spelled length digits)
      (arrayOf ty length) := by
  rcases h with rfl | h
  · exact Returns.fail _
  · cases h with
    | dynamic => exact ⟨rfl, .dynamic⟩
    | @fixed n _ hspelled hpos hlt =>
        cases n with
        | zero => omega
        | succ n => exact ⟨rfl, .fixed hspelled hpos hlt⟩

/-- A suffix that is accepted is one of the grammar. -/
theorem parseSuffix_returns {ty : DynSolType} {rest : List Char} (h : rest <:+ input) :
    Returns (fun (ty', rest') => ∃ length inner digits after,
        rest = inner ++ (digits ++ (after ++ ']' :: rest')) ∧ Blank inner ∧
        PrintsLength Spelled length digits ∧ Blank after ∧ ty' = arrayType ty length)
      (parseSuffix input ty rest) := by
  obtain ⟨inner, hinner, hrest⟩ := exists_blank rest
  have hstart : (skipWhitespace rest).takeWhile Char.isDigit ++
      (skipWhitespace rest).dropWhile Char.isDigit = skipWhitespace rest :=
    List.takeWhile_append_dropWhile
  obtain ⟨after, hafter, hstop⟩ := exists_blank ((skipWhitespace rest).dropWhile Char.isDigit)
  have hdigits : ∀ c ∈ (skipWhitespace rest).takeWhile Char.isDigit, c.isDigit = true :=
    fun _ hc => List.mem_takeWhile_imp hc
  have hsuffix : skipWhitespace rest <:+ input := by
    rw [hrest] at h
    exact (List.suffix_append inner _).trans h
  rw [← hstart] at hsuffix
  have hlength := parseLength_returns hdigits hsuffix
  rw [hstart] at hlength
  unfold parseSuffix
  refine Returns.bind hlength fun length hlength => ?_
  split
  · exact Returns.fail _
  · next rest' hbracket =>
      rw [consumeByte_eq_some] at hbracket
      refine Returns.bind (arrayOf_returns hlength) fun ty' hty => ?_
      refine ⟨length, inner, _, after, ?_, hinner, hty.2, hafter, hty.1⟩
      rw [← hbracket, ← hstop, hstart, ← hrest]

/-- The loop may take more turns than it needs. -/
theorem parseSuffixes_turns {rest : List Char} (h : rest <:+ input) :
    ∀ {turns turns' : ℕ} {ty : DynSolType}, rest.length < turns → rest.length < turns' →
      parseSuffixes input turns ty rest = parseSuffixes input turns' ty rest := by
  induction hlength : rest.length using Nat.strong_induction_on generalizing rest with
  | _ n ih =>
      intro turns turns' ty hturns hturns'
      obtain ⟨turns, rfl⟩ := Nat.exists_eq_succ_of_ne_zero (show turns ≠ 0 by omega)
      obtain ⟨turns', rfl⟩ := Nat.exists_eq_succ_of_ne_zero (show turns' ≠ 0 by omega)
      unfold parseSuffixes
      split
      · rfl
      · next rest' hbracket =>
          rw [consumeByte_eq_some] at hbracket
          obtain ⟨blank, -, hrest⟩ := exists_blank rest
          rw [hbracket] at hrest
          have hrest' : rest' <:+ input :=
            ((List.suffix_cons _ _).trans (List.suffix_append blank _)).trans (hrest ▸ h)
          have hread := @parseSuffix_returns _ ty _ hrest'
          cases hresult : parseSuffix input ty rest' with
          | error failure => rfl
          | ok result =>
              rw [hresult] at hread
              obtain ⟨_, inner, digits, after, hsplit, -⟩ := hread
              have hsmaller : result.2.length < n := by
                rw [← hlength, hrest, hsplit]
                simp only [List.length_append, List.length_cons]
                omega
              have hsuffix : result.2 <:+ input := by
                refine List.IsSuffix.trans ?_ hrest'
                rw [hsplit]
                exact ⟨inner ++ (digits ++ (after ++ [']'])), by simp⟩
              exact ih _ hsmaller hsuffix rfl (by omega) (by omega)

/-- The suffixes behind a type that is written as `text`: the type they make of it, the place where they
end, and no name that runs on. -/
def ReadsSuffixes (dynSolTypeParse : String → Except Report DynSolType) (ty : DynSolType)
    (rest : List Char) (result : DynSolType × List Char) : Prop :=
  ∃ suffix after, rest = suffix ++ (after ++ result.2) ∧ Blank after ∧
    NotHead Text.isAsciiWhitespace result.2 ∧
    ∀ text, Prints dynSolTypeParse Spelled ty text → Separate text rest →
      Prints dynSolTypeParse Spelled result.1 (text ++ suffix) ∧
        Separate (text ++ suffix) (after ++ result.2)

theorem separate_concat {c : Char} (hc : isIdentifierPart c = false) (text rest : List Char) :
    Separate (text ++ [c]) rest := by
  intro d hd hpart
  rw [List.getLast?_concat] at hd
  obtain rfl := Option.some.inj hd
  rw [hc] at hpart
  cases hpart

theorem parseSuffixes_returns (dynSolTypeParse : String → Except Report DynSolType) {turns : ℕ} :
    ∀ {ty : DynSolType} {rest : List Char}, rest <:+ input → rest.length < turns →
      Returns (ReadsSuffixes dynSolTypeParse ty rest) (parseSuffixes input turns ty rest) := by
  induction turns with
  | zero => intro _ _ _ hlength; omega
  | succ turns ih =>
      intro ty rest h hlength
      obtain ⟨before, hbefore, hrest⟩ := exists_blank rest
      unfold parseSuffixes
      split
      · -- No bracket: the blanks that were skipped stand behind the type.
        refine ⟨[], before, hrest, hbefore, notHead_skipWhitespace rest, fun text htext hsep => ?_⟩
        rw [List.append_nil, ← hrest]
        exact ⟨htext, hsep⟩
      · next rest' hbracket =>
          rw [consumeByte_eq_some] at hbracket
          rw [hbracket] at hrest
          have hrest' : rest' <:+ input :=
            ((List.suffix_cons _ _).trans (List.suffix_append before _)).trans (hrest ▸ h)
          refine Returns.bind (parseSuffix_returns hrest') ?_
          rintro ⟨ty', stop⟩ ⟨length, inner, digits, after, rfl, hinner, hdigits, hafter, rfl⟩
          have hstop : stop <:+ input :=
            List.IsSuffix.trans ⟨inner ++ (digits ++ (after ++ [']'])), by simp⟩ hrest'
          have hsmaller : stop.length < turns := by
            rw [hrest] at hlength
            simp only [List.length_append, List.length_cons] at hlength
            omega
          refine Returns.mono (ih hstop hsmaller) ?_
          rintro ⟨ty'', stop'⟩ ⟨suffix, after', hsplit, hafter', hhead, hprints⟩
          refine ⟨before ++ '[' :: (inner ++ (digits ++ (after ++ [']']))) ++ suffix, after', ?_,
            hafter', hhead, fun text htext _ => ?_⟩
          · rw [hrest, hsplit]
            simp
          · have harray := Prints.array htext hbefore hinner hdigits hafter
            have hbracket' : Separate
                (text ++ (before ++ '[' :: (inner ++ (digits ++ (after ++ [']']))))) stop := by
              have := separate_concat (c := ']') (by decide)
                (text ++ (before ++ '[' :: (inner ++ (digits ++ after)))) stop
              simpa using this
            rw [← List.append_assoc]
            exact hprints _ harray hbracket'

end

/-! ## What is accepted -/

section

variable (dynSolTypeParse : String → Except Report DynSolType)

/-- A type with blanks around it, and no name that runs on behind it -/
def ReadsType (rest : List Char) (result : DynSolType × List Char) : Prop :=
  ∃ before text after, rest = before ++ (text ++ (after ++ result.2)) ∧ Blank before ∧
    Prints dynSolTypeParse Spelled result.1 text ∧ Blank after ∧
    NotHead Text.isAsciiWhitespace result.2 ∧ Separate text (after ++ result.2)

/-- Members up to the closing parenthesis -/
def ReadsMembers (rest : List Char) (result : List (DynSolType × List Char) × List Char) : Prop :=
  ∃ before text, rest = before ++ (text ++ ')' :: result.2) ∧ Blank before ∧
    PrintsMembers dynSolTypeParse Spelled result.1 text

variable {dynSolTypeParse} {input : List Char}

theorem tupleOf_returns {before text : List Char} {members : List (DynSolType × List Char)}
    (hbefore : Blank before) (h : PrintsMembers dynSolTypeParse Spelled members text) :
    Returns (fun ty => PrintsTuple dynSolTypeParse Spelled ty (before ++ (text ++ [')'])))
      (tupleOf members) := by
  unfold tupleOf
  dsimp only
  split
  · split
    · exact Returns.fail _
    · next hnames =>
        refine PrintsTuple.named hbefore h fun member hmember hempty => hnames ?_
        exact List.any_eq_true.2 ⟨member.2, List.mem_map_of_mem hmember, by simp [hempty]⟩
  · next hnone =>
      refine PrintsTuple.unnamed hbefore h fun member hmember => ?_
      by_contra hne
      exact hnone (List.any_eq_true.2 ⟨member.2, List.mem_map_of_mem hmember, by simp [hne]⟩)

/-- A tuple ends with a parenthesis. -/
theorem PrintsTuple.closed {spells : ℕ → List Char → Prop} {ty : DynSolType} {text : List Char}
    (h : PrintsTuple dynSolTypeParse spells ty text) : ∃ inner, text = inner ++ [')'] := by
  cases h with
  | @empty blank => exact ⟨blank, rfl⟩
  | @unnamed blank inner => exact ⟨blank ++ inner, (List.append_assoc ..).symm⟩
  | @named blank inner => exact ⟨blank ++ inner, (List.append_assoc ..).symm⟩

theorem PrintsTuple.separate {spells : ℕ → List Char → Prop} {ty : DynSolType} {text : List Char}
    (h : PrintsTuple dynSolTypeParse spells ty text) (before rest : List Char) :
    Separate (before ++ '(' :: text) rest := by
  obtain ⟨inner, rfl⟩ := h.closed
  have := separate_concat (c := ')') (by decide) (before ++ '(' :: inner) rest
  rwa [List.append_assoc, List.cons_append] at this

theorem parseTuple_returns {parseMembers : MembersParser} {rest : List Char}
    (h : Returns (ReadsMembers dynSolTypeParse (skipWhitespace rest))
      (parseMembers (skipWhitespace rest))) :
    Returns (fun (ty, rest') => ∃ text, rest = text ++ rest' ∧
      PrintsTuple dynSolTypeParse Spelled ty text) (parseTuple parseMembers rest) := by
  obtain ⟨blank, hblank, hrest⟩ := exists_blank rest
  unfold parseTuple
  split
  · next rest' hclose =>
      rw [consumeByte_eq_some] at hclose
      refine ⟨blank ++ [')'], ?_, .empty hblank⟩
      rw [hrest, hclose]
      simp
  · refine Returns.bind h ?_
    rintro ⟨members, rest'⟩ ⟨before, text, hsplit, hbefore, hmembers⟩
    have hboth : Blank (blank ++ before) := by
      intro c hc
      rcases List.mem_append.1 hc with hc | hc
      · exact hblank c hc
      · exact hbefore c hc
    refine Returns.bind (tupleOf_returns hboth hmembers) fun ty hty => ⟨_, ?_, hty⟩
    rw [hrest, hsplit]
    simp

theorem parseNamed_returns {parseMembers : MembersParser} {name rest : List Char}
    (hname : IsIdentifier name) (hstop : NotHead isIdentifierPart rest) (h : rest <:+ input)
    (hmembers : ∀ rest', rest' <:+ input → rest'.length ≤ rest.length →
      Returns (ReadsMembers dynSolTypeParse rest') (parseMembers rest')) :
    Returns (fun (ty, rest') => ∃ text, name ++ rest = text ++ rest' ∧
        Prints dynSolTypeParse Spelled ty text ∧ Separate text rest')
      (parseNamed dynSolTypeParse input parseMembers name rest) := by
  unfold parseNamed
  split
  · next hkeyword =>
      split
      · exact Returns.fail _
      · next rest' hparen =>
          rw [consumeByte_eq_some] at hparen
          obtain ⟨gap, hgap, hrest⟩ := exists_blank rest
          rw [hparen] at hrest
          have hskip : skipWhitespace rest' <:+ rest :=
            ((List.dropWhile_suffix _).trans (List.suffix_cons '(' _)).trans
              ⟨gap, hrest.symm⟩
          refine Returns.mono (parseTuple_returns
            (hmembers _ (hskip.trans h) hskip.length_le)) ?_
          rintro ⟨ty, stop⟩ ⟨text, hsplit, htuple⟩
          refine ⟨name ++ gap ++ '(' :: text, ?_, ?_, ?_⟩
          · rw [hrest, hsplit]
            simp
          · exact .tuple (Or.inr ⟨gap, hgap, by rw [hkeyword]⟩) htuple
          · exact htuple.separate _ _
  · refine Returns.bind (Returns.orReport fun ty hty => hty) fun ty hty => ?_
    exact ⟨name, rfl, .elementary ⟨hname, hty⟩, fun _ _ _ => hstop⟩

theorem parseHead_returns {parseMembers : MembersParser} {rest : List Char}
    (hhead : NotHead Text.isAsciiWhitespace rest) (h : rest <:+ input)
    (hmembers : ∀ rest', rest' <:+ input → rest'.length < rest.length →
      Returns (ReadsMembers dynSolTypeParse rest') (parseMembers rest')) :
    Returns (fun (ty, rest') => ∃ text, rest = text ++ rest' ∧
        Prints dynSolTypeParse Spelled ty text ∧ Separate text rest')
      (parseHead dynSolTypeParse input parseMembers rest) := by
  unfold parseHead
  split
  · next rest' hparen =>
      rw [consumeByte_eq_some] at hparen
      subst hparen
      have hskip : skipWhitespace rest' <:+ rest' := List.dropWhile_suffix _
      have hlength := hskip.length_le
      refine Returns.mono (parseTuple_returns (hmembers _
        ((hskip.trans (List.suffix_cons _ _)).trans h) (by simp only [List.length_cons]; omega))) ?_
      rintro ⟨ty, stop⟩ ⟨text, rfl, htuple⟩
      exact ⟨'(' :: text, rfl, .tuple (Or.inl rfl) htuple, htuple.separate [] _⟩
  · unfold parseIdentifier
    rcases tryParseIdentifier_cases h with ⟨blank, name, stop, hrest, hblank, hname, hstop, hparse⟩ |
      ⟨-, hparse⟩
    · rw [hparse]
      -- The rest begins with no blank, so the name stands at its beginning.
      have hnil : blank = [] := by
        cases blank with
        | nil => rfl
        | cons c blank =>
            have := hhead c (by rw [hrest]; rfl)
            rw [hblank c List.mem_cons_self] at this
            cases this
      subst hnil
      have hlength : stop.length < rest.length := by
        rw [hrest]
        cases hname
        simp only [List.nil_append, List.length_append, List.length_cons]
        omega
      have hsuffix : stop <:+ input := by
        refine List.IsSuffix.trans ?_ h
        rw [hrest]
        exact (List.suffix_append name stop).trans (List.suffix_append [] _)
      refine Returns.mono (parseNamed_returns hname hstop hsuffix fun rest' hrest' hle =>
        hmembers rest' hrest' (by omega)) ?_
      rintro ⟨ty, rest'⟩ ⟨text, hsplit, hprints⟩
      exact ⟨text, by rw [hrest, List.nil_append, hsplit], hprints⟩
    · rw [hparse]
      exact Returns.fail _

/-- A tuple's members go on behind a comma. -/
theorem parseNext_returns {parseMembers : MembersParser} {ty : DynSolType}
    {before text name label after rest : List Char} (hbefore : Blank before)
    (htext : Prints dynSolTypeParse Spelled ty text) (hlabel : PrintsName text name label)
    (hafter : Blank after)
    (hmembers : ∀ rest', rest = ',' :: rest' →
      Returns (ReadsMembers dynSolTypeParse (skipWhitespace rest'))
        (parseMembers (skipWhitespace rest'))) :
    Returns (ReadsMembers dynSolTypeParse (before ++ (text ++ (label ++ (after ++ rest)))))
      (parseNext input parseMembers (ty, name) rest) := by
  unfold parseNext
  split
  · next rest' hclose =>
      rw [consumeByte_eq_some] at hclose
      subst hclose
      exact ⟨before, _, by simp, hbefore, .last htext hlabel hafter⟩
  · split
    · exact Returns.fail _
    · next rest' hcomma =>
        rw [consumeByte_eq_some] at hcomma
        refine Returns.bind (hmembers rest' hcomma) ?_
        rintro ⟨members, stop⟩ ⟨before', text', hsplit, hbefore', hmembers'⟩
        obtain ⟨blank, hblank, hrest'⟩ := exists_blank rest'
        have hboth : Blank (blank ++ before') := by
          intro c hc
          rcases List.mem_append.1 hc with hc | hc
          · exact hblank c hc
          · exact hbefore' c hc
        refine ⟨before, _, ?_, hbefore, .cons htext hlabel hafter hboth hmembers'⟩
        rw [hcomma, hrest', hsplit]
        simp

/-- Behind a type comes the name of the member, or none. -/
theorem parseName_returns {parseMembers : MembersParser} {ty : DynSolType}
    {before text after rest : List Char} (hbefore : Blank before)
    (htext : Prints dynSolTypeParse Spelled ty text) (hafter : Blank after)
    (hhead : NotHead Text.isAsciiWhitespace rest) (hsep : Separate text (after ++ rest))
    (h : rest <:+ input)
    (hmembers : ∀ rest', rest' <:+ input → rest'.length < rest.length →
      Returns (ReadsMembers dynSolTypeParse rest') (parseMembers rest')) :
    Returns (ReadsMembers dynSolTypeParse (before ++ (text ++ (after ++ rest))))
      (do
        let (name, rest) ← tryParseIdentifier input (skipWhitespace rest)
        parseNext input parseMembers (ty, name.getD []) (skipWhitespace rest)) := by
  rw [skipWhitespace_eq hhead]
  rcases tryParseIdentifier_cases h with ⟨blank, name, stop, hrest, hblank, hname, -, hparse⟩ |
    ⟨-, hparse⟩
  · rw [hparse]
    have hgap : Blank (after ++ blank) := by
      intro c hc
      rcases List.mem_append.1 hc with hc | hc
      · exact hafter c hc
      · exact hblank c hc
    have hlabel : PrintsName text name ((after ++ blank) ++ name) := by
      refine .named hgap hname fun c hc hpart d hd => hsep c hc hpart d ?_
      have hne : (after ++ blank) ++ name ≠ [] := by
        cases hname
        simp
      rw [hrest, ← List.append_assoc after, ← List.append_assoc, List.head?_append_of_ne_nil _ hne]
      exact hd
    obtain ⟨after', hafter', hstop⟩ := exists_blank stop
    have hread : Returns (ReadsMembers dynSolTypeParse (before ++ (text ++ (after ++ blank ++ name ++
        (after' ++ skipWhitespace stop))))) (parseNext input parseMembers (ty, name) (skipWhitespace stop)) :=
      parseNext_returns hbefore htext hlabel hafter' fun rest' hrest' => by
        have hskip : skipWhitespace rest' <:+ skipWhitespace stop := by
          rw [hrest']
          exact (List.dropWhile_suffix _).trans (List.suffix_cons ',' rest')
        have hstop' : skipWhitespace stop <:+ stop := List.dropWhile_suffix _
        have hrest'' : stop <:+ rest := by
          rw [hrest]
          exact (List.suffix_append name stop).trans (List.suffix_append blank _)
        refine hmembers _ (((hskip.trans hstop').trans hrest'').trans h) ?_
        have := congrArg List.length hrest'
        have := (List.dropWhile_suffix (l := rest') Text.isAsciiWhitespace).length_le
        have := hstop'.length_le
        have := hrest''.length_le
        simp only [List.length_cons] at *
        unfold skipWhitespace at *
        omega
    rw [← hstop] at hread
    have hwhole : before ++ (text ++ (after ++ rest)) =
        before ++ (text ++ (after ++ blank ++ name ++ stop)) := by
      rw [hrest]
      simp
    rw [hwhole]
    exact hread
  · rw [hparse, skipWhitespace_eq hhead]
    have hread : Returns (ReadsMembers dynSolTypeParse (before ++ (text ++ ([] ++ (after ++ rest)))))
        (parseNext input parseMembers (ty, []) rest) :=
      parseNext_returns hbefore htext .unnamed hafter fun rest' hrest' => by
        have hskip : skipWhitespace rest' <:+ rest' := List.dropWhile_suffix _
        have hlength := hskip.length_le
        refine hmembers _ ((hskip.trans ?_).trans h) ?_
        · rw [hrest']
          exact List.suffix_cons _ _
        · rw [hrest', List.length_cons]
          omega
    simpa [bind, Except.bind, skipWhitespace_eq hhead] using hread

mutual

/-- What the parser accepts as a type is a printing of it. -/
theorem parseType_returns : ∀ {fuel : ℕ} {rest : List Char}, rest <:+ input →
    2 * rest.length + 1 ≤ fuel →
    Returns (ReadsType dynSolTypeParse rest) (parseType dynSolTypeParse input fuel rest)
  | 0, _, _, hfuel => by omega
  | fuel + 1, rest, h, hfuel => by
      obtain ⟨before, hbefore, hrest⟩ := exists_blank rest
      have hskip : skipWhitespace rest <:+ rest := List.dropWhile_suffix _
      have hlength := hskip.length_le
      rw [parseType]
      refine Returns.bind (parseHead_returns (notHead_skipWhitespace rest) (hskip.trans h)
        fun rest' hrest' hlt => parseMembers_returns hrest' (by omega)) ?_
      rintro ⟨ty, stop⟩ ⟨text, hsplit, htext, hsep⟩
      have hstop : stop <:+ input := by
        refine (List.IsSuffix.trans ?_ hskip).trans h
        rw [hsplit]
        exact List.suffix_append _ _
      refine Returns.mono (parseSuffixes_returns dynSolTypeParse hstop (Nat.lt_succ_self _)) ?_
      rintro ⟨ty', stop'⟩ ⟨suffix, after, hstop', hafter, hhead, hprints⟩
      obtain ⟨htext', hsep'⟩ := hprints text htext hsep
      refine ⟨before, text ++ suffix, after, ?_, hbefore, htext', hafter, hhead, hsep'⟩
      rw [hrest, hsplit, hstop', List.append_assoc]

theorem parseMembers_returns : ∀ {fuel : ℕ} {rest : List Char}, rest <:+ input →
    2 * rest.length + 2 ≤ fuel →
    Returns (ReadsMembers dynSolTypeParse rest) (parseMembers dynSolTypeParse input fuel rest)
  | 0, _, _, hfuel => by omega
  | fuel + 1, rest, h, hfuel => by
      rw [parseMembers]
      refine Returns.bind (parseType_returns h (by omega)) ?_
      rintro ⟨ty, stop⟩ ⟨before, text, after, hsplit, hbefore, htext, hafter, hhead, hsep⟩
      have hstop : stop <:+ rest := by
        rw [hsplit]
        exact ((List.suffix_append after _).trans (List.suffix_append text _)).trans
          (List.suffix_append before _)
      have hlength := hstop.length_le
      rw [hsplit]
      exact parseName_returns hbefore htext hafter hhead hsep (hstop.trans h)
        fun rest' hrest' hlt => parseMembers_returns hrest' (by simp only at hlt; omega)

end

end

end TxGen.AbiType
