import TxGen.Scenario.AbiTypeReading

set_option autoImplicit false

/-! # Printing and parsing Solidity types

Every printing of a type is parsed as that type, and every text that the parser accepts is a printing; on the
others it reports an error. A text may have zeros before the digits of a length, which no printing of the
number has. -/

namespace TxGen.AbiType

/-! ## What is read -/

section

variable {dynSolTypeParse : String → Except Report DynSolType} {spells : ℕ → List Char → Prop}
  {input : List Char}

theorem not_identifierStart {c : Char} (h : isIdentifierPart c = false) :
    isIdentifierStart c = false := by
  by_contra hstart
  rw [identifierPart_of_start (Bool.not_eq_false _ ▸ hstart)] at h
  cases h

/-- A type begins with a name or a parenthesis. -/
theorem Prints.first : ∀ {ty : DynSolType} {text : List Char},
    Prints dynSolTypeParse spells ty text →
    ∃ c tail, text = c :: tail ∧ (isIdentifierPart c = true ∨ c = '(')
  | _, _, .elementary h => by
      obtain ⟨hfirst, -⟩ := h.identifier
      exact ⟨_, _, rfl, Or.inl (identifierPart_of_start hfirst)⟩
  | _, _, .tuple hkeyword _ => by
      rcases hkeyword with rfl | ⟨gap, -, rfl⟩
      · exact ⟨_, _, rfl, Or.inr rfl⟩
      · exact ⟨'t', _, rfl, Or.inl (by decide)⟩
  | _, _, .array h _ _ _ _ => by
      obtain ⟨c, tail, rfl, hc⟩ := h.first
      exact ⟨c, _, rfl, hc⟩

theorem Prints.notHead {ty : DynSolType} {text : List Char} (h : Prints dynSolTypeParse spells ty text)
    (rest : List Char) : NotHead Text.isAsciiWhitespace (text ++ rest) := by
  obtain ⟨c, tail, rfl, hc⟩ := h.first
  refine .cons ?_ _
  rcases hc with hc | rfl
  · exact whitespace_of_identifierPart hc
  · decide

/-- No tuple ends where a type begins. -/
theorem Prints.consumeByte {ty : DynSolType} {text : List Char}
    (h : Prints dynSolTypeParse spells ty text) (rest : List Char) :
    AbiType.consumeByte ')' (text ++ rest) = none := by
  obtain ⟨c, tail, rfl, hc⟩ := h.first
  refine consumeByte_ne ?_ _
  rintro rfl
  rcases hc with hc | hc
  · exact absurd hc (by decide)
  · exact absurd hc (by decide)

theorem PrintsMembers.first {members : List (DynSolType × List Char)} {text : List Char}
    (h : PrintsMembers dynSolTypeParse spells members text) :
    ∃ ty start tail, text = start ++ tail ∧ Prints dynSolTypeParse spells ty start := by
  cases h with
  | last htext => exact ⟨_, _, _, rfl, htext⟩
  | cons htext => exact ⟨_, _, _, rfl, htext⟩

theorem PrintsLength.mono (hspells : ∀ n digits, spells n digits → Spelled n digits)
    {length : Option ℕ} {digits : List Char} (h : PrintsLength spells length digits) :
    PrintsLength Spelled length digits := by
  cases h with
  | dynamic => exact .dynamic
  | fixed hlength hpos hlt => exact .fixed (hspells _ _ hlength) hpos hlt

/-- Blanks before a type are skipped. -/
theorem parseType_blank {blank : List Char} (hblank : Blank blank) (fuel : ℕ) (rest : List Char) :
    parseType dynSolTypeParse input fuel (blank ++ rest) =
      parseType dynSolTypeParse input fuel rest := by
  cases fuel with
  | zero => rw [parseType, parseType]
  | succ fuel => rw [parseType, parseType, skipWhitespace_append hblank]

theorem parseMembers_blank {blank : List Char} (hblank : Blank blank) (fuel : ℕ) (rest : List Char) :
    parseMembers dynSolTypeParse input fuel (blank ++ rest) =
      parseMembers dynSolTypeParse input fuel rest := by
  cases fuel with
  | zero => rw [parseMembers, parseMembers]
  | succ fuel => rw [parseMembers, parseMembers, parseType_blank hblank]

theorem parseMembers_skip (fuel : ℕ) (rest : List Char) :
    parseMembers dynSolTypeParse input fuel (skipWhitespace rest) =
      parseMembers dynSolTypeParse input fuel rest := by
  obtain ⟨blank, hblank, hrest⟩ := exists_blank rest
  conv_rhs => rw [hrest, parseMembers_blank hblank]

/-- Behind the last suffix the loop ends. -/
theorem parseSuffixes_end {blank rest : List Char} (hblank : Blank blank)
    (hhead : NotHead Text.isAsciiWhitespace rest) (hbracket : consumeByte '[' rest = none)
    (turns : ℕ) (ty : DynSolType) :
    parseSuffixes input (turns + 1) ty (blank ++ rest) = .ok (ty, rest) := by
  rw [parseSuffixes, skipWhitespace_blank hblank hhead, hbracket]

/-- The name behind a member's type is read up to the separator. -/
theorem PrintsName.read {text name label after rest : List Char} (h : PrintsName text name label)
    (hafter : Blank after) {c : Char} (hc : isIdentifierPart c = false)
    (hspace : Text.isAsciiWhitespace c = false) (hbracket : c ≠ '[')
    (hinput : label ++ (after ++ c :: rest) <:+ input) (ty : DynSolType) {turns : ℕ}
    (hturns : 0 < turns) :
    ∃ stop, parseSuffixes input turns ty (label ++ (after ++ c :: rest)) = .ok (ty, stop) ∧
      ∃ read stop', tryParseIdentifier input (skipWhitespace stop) = .ok (read, stop') ∧
        read.getD [] = name ∧ skipWhitespace stop' = c :: rest := by
  obtain ⟨turns, rfl⟩ := Nat.exists_eq_succ_of_ne_zero (Nat.pos_iff_ne_zero.1 hturns)
  have hstop : NotHead Text.isAsciiWhitespace (c :: rest) := .cons hspace rest
  cases h with
  | unnamed =>
      refine ⟨c :: rest, parseSuffixes_end hafter hstop (consumeByte_ne hbracket rest) turns ty, none,
        c :: rest, ?_, rfl, skipWhitespace_eq hstop⟩
      have hnone : NotHead isIdentifierStart (c :: rest) := .cons (not_identifierStart hc) rest
      have hskip := skipWhitespace_eq hstop
      rw [hskip, tryParseIdentifier_none (hskip.symm ▸ hnone), hskip]
  | @named gap name hgap hname _ =>
      have hnext : NotHead isIdentifierPart (after ++ c :: rest) := notHead_blank_cons hafter hc rest
      have hfirst : NotHead Text.isAsciiWhitespace (name ++ (after ++ c :: rest)) ∧
          consumeByte '[' (name ++ (after ++ c :: rest)) = none := by
        obtain ⟨hfirst, -⟩ := hname
        have hpart := identifierPart_of_start hfirst
        refine ⟨.cons (whitespace_of_identifierPart hpart) _, consumeByte_ne ?_ _⟩
        rintro rfl
        exact absurd hpart (by decide)
      rw [List.append_assoc] at hinput ⊢
      refine ⟨name ++ (after ++ c :: rest), parseSuffixes_end hgap hfirst.1 hfirst.2 turns ty,
        some name, after ++ c :: rest, ?_, rfl, skipWhitespace_blank hafter hstop⟩
      rw [skipWhitespace_eq hfirst.1]
      exact tryParseIdentifier_eq Blank.nil hname hnext
        ((List.suffix_append gap _).trans hinput)

theorem PrintsName.separate {text name label after rest : List Char} (h : PrintsName text name label)
    (hafter : Blank after) {c : Char} (hc : isIdentifierPart c = false) :
    Separate text (label ++ (after ++ c :: rest)) := by
  intro d hd hpart
  cases h with
  | unnamed => exact notHead_blank_cons hafter hc rest
  | named hgap hname hsep =>
      refine (hsep d hd hpart).append ?_ _
      cases hname
      simp

/-- One turn of the loop over the members, with the type read first. -/
theorem parseMembers_step {ty : DynSolType} {text name label after rest : List Char} {fuel : ℕ}
    {c : Char} (hlabel : PrintsName text name label) (hafter : Blank after)
    (hc : c = ')' ∨ c = ',')
    (h : text ++ (label ++ (after ++ c :: rest)) <:+ input)
    (htype : parseType dynSolTypeParse input fuel (text ++ (label ++ (after ++ c :: rest))) =
      parseSuffixes input ((label ++ (after ++ c :: rest)).length + 1) ty
        (label ++ (after ++ c :: rest))) :
    parseMembers dynSolTypeParse input (fuel + 1) (text ++ (label ++ (after ++ c :: rest))) =
      parseNext input (parseMembers dynSolTypeParse input fuel) (ty, name) (c :: rest) := by
  have hclass : isIdentifierPart c = false ∧ Text.isAsciiWhitespace c = false ∧ c ≠ '[' := by
    rcases hc with rfl | rfl
    · decide
    · decide
  obtain ⟨stop, hsuffixes, read, stop', hread, rfl, hstop'⟩ :=
    hlabel.read hafter hclass.1 hclass.2.1 hclass.2.2 ((List.suffix_append text _).trans h) ty
      (Nat.succ_pos _)
  rw [parseMembers, htype, hsuffixes]
  simp only [bind, Except.bind, hread, hstop']

/-- The parentheses around the members -/
theorem parseTuple_members {before text rest : List Char} {members : List (DynSolType × List Char)}
    {ty : DynSolType} {fuel : ℕ} (hbefore : Blank before)
    (h : PrintsMembers dynSolTypeParse spells members text)
    (hmembers : parseMembers dynSolTypeParse input fuel (text ++ ')' :: rest) = .ok (members, rest))
    (hty : tupleOf members = .ok ty) :
    parseTuple (parseMembers dynSolTypeParse input fuel) (before ++ (text ++ [')']) ++ rest) =
      .ok (ty, rest) := by
  obtain ⟨ty', start, tail, rfl, hstart⟩ := h.first
  have hwhole : before ++ (start ++ tail ++ [')']) ++ rest =
      before ++ (start ++ (tail ++ ')' :: rest)) := by simp
  have hskip := skipWhitespace_blank hbefore (hstart.notHead (tail ++ ')' :: rest))
  rw [List.append_assoc] at hmembers
  unfold parseTuple
  rw [hwhole, hskip, hstart.consumeByte, hmembers]
  simp only [bind, Except.bind, hty]
  rfl

/-- The type of a tuple that is written with the keyword or without it -/
theorem parseHead_tuple {keyword text rest : List Char} {ty : DynSolType}
    {parseMembers : MembersParser} (hkeyword : Keyword keyword)
    (htuple : parseTuple parseMembers (text ++ rest) = .ok (ty, rest))
    (h : keyword ++ '(' :: text ++ rest <:+ input) :
    parseHead dynSolTypeParse input parseMembers (keyword ++ '(' :: text ++ rest) =
      .ok (ty, rest) := by
  rcases hkeyword with rfl | ⟨gap, hgap, rfl⟩
  · unfold parseHead
    rw [List.nil_append, List.cons_append, consumeByte_cons]
    exact htuple
  · have hname : IsIdentifier "tuple".toList := .intro (by decide) (List.all_eq_true.1 (by decide))
    have hstop : NotHead isIdentifierPart (gap ++ '(' :: (text ++ rest)) :=
      notHead_blank_cons hgap (by decide) _
    have hwhole : "tuple".toList ++ gap ++ '(' :: text ++ rest =
        "tuple".toList ++ (gap ++ '(' :: (text ++ rest)) := by simp
    rw [hwhole] at h ⊢
    have hread := tryParseIdentifier_eq Blank.nil hname hstop h
    rw [List.nil_append] at hread
    have hparen : consumeByte '(' ("tuple".toList ++ (gap ++ '(' :: (text ++ rest))) = none :=
      consumeByte_ne (by decide) _
    have hskip : skipWhitespace (gap ++ '(' :: (text ++ rest)) = '(' :: (text ++ rest) :=
      skipWhitespace_blank hgap (.cons (by decide) _)
    unfold parseHead
    rw [hparen]
    simp only [parseIdentifier, hread, bind, Except.bind, pure, Except.pure, parseNamed, if_true,
      hskip, consumeByte_cons]
    exact htuple

theorem parseHead_elementary (hkeyword : ∀ ty, dynSolTypeParse "tuple" ≠ .ok ty)
    {name rest : List Char} {ty : DynSolType} {parseMembers : MembersParser}
    (hname : Elementary dynSolTypeParse name ty) (hstop : NotHead isIdentifierPart rest)
    (h : name ++ rest <:+ input) :
    parseHead dynSolTypeParse input parseMembers (name ++ rest) = .ok (ty, rest) := by
  have hread := tryParseIdentifier_eq Blank.nil hname.identifier hstop h
  rw [List.nil_append] at hread
  have hparen : consumeByte '(' (name ++ rest) = none := by
    obtain ⟨hfirst, -⟩ := hname.identifier
    refine consumeByte_ne ?_ _
    rintro rfl
    exact absurd hfirst (by decide)
  have hne : name ≠ "tuple".toList := by
    rintro rfl
    have := hname.recognised
    rw [String.ofList_toList] at this
    exact hkeyword ty this
  unfold parseHead
  rw [hparen]
  simp only [parseIdentifier, hread, bind, Except.bind, pure, Except.pure, parseNamed, hne, if_false,
    hname.recognised, orReport]

theorem tupleOf_unnamed {members : List (DynSolType × List Char)}
    (h : ∀ member ∈ members, member.2 = []) :
    tupleOf members = .ok (.tuple (members.map Prod.fst)) := by
  refine if_neg ?_
  rw [List.any_map, List.any_eq_true]
  rintro ⟨member, hmember, hne⟩
  exact absurd (h member hmember) (by simpa using hne)

theorem tupleOf_named {members : List (DynSolType × List Char)} (hne : members ≠ [])
    (h : ∀ member ∈ members, member.2 ≠ []) :
    tupleOf members = .ok (.customStruct "tuple" ((members.map Prod.snd).map String.ofList)
      (members.map Prod.fst)) := by
  obtain ⟨member, hmember⟩ := List.exists_mem_of_ne_nil members hne
  have hany : (members.map Prod.snd).any (· ≠ []) = true :=
    List.any_eq_true.2 ⟨member.2, List.mem_map_of_mem hmember, by simpa using h member hmember⟩
  have hall : ¬ (members.map Prod.snd).any (· = []) = true := by
    rw [List.any_map, List.any_eq_true]
    rintro ⟨member, hmember, hempty⟩
    exact h member hmember (by simpa using hempty)
  unfold tupleOf
  dsimp only
  rw [if_pos hany, if_neg hall]

theorem PrintsName.identifier {text name label : List Char} (h : PrintsName text name label) :
    name = [] ∨ IsIdentifier name := by
  cases h with
  | unnamed => exact Or.inl rfl
  | named _ hname => exact Or.inr hname

theorem PrintsMembers.ne_nil {members : List (DynSolType × List Char)} {text : List Char}
    (h : PrintsMembers dynSolTypeParse spells members text) : members ≠ [] := by
  cases h <;> simp

mutual

/-- A printing of a type is read as the type; the suffixes behind it are read next. -/
theorem parseType_prints (hspells : ∀ n digits, spells n digits → Spelled n digits)
    (hkeyword : ∀ ty, dynSolTypeParse "tuple" ≠ .ok ty) : ∀ {ty : DynSolType} {text : List Char},
    Prints dynSolTypeParse spells ty text → ∀ {rest : List Char} (fuel : ℕ),
    text ++ rest <:+ input → 2 * (text ++ rest).length + 1 ≤ fuel → Separate text rest →
    parseType dynSolTypeParse input fuel (text ++ rest) =
      parseSuffixes input (rest.length + 1) ty rest
  | ty, name, .elementary hname, rest, fuel, h, hfuel, hsep => by
      obtain ⟨fuel, rfl⟩ := Nat.exists_eq_succ_of_ne_zero (show fuel ≠ 0 by omega)
      have hstop : NotHead isIdentifierPart rest := by
        refine hsep _ (List.getLast?_eq_some_getLast ?_) ?_
        · cases hname.identifier
          simp
        · obtain ⟨hfirst, hpart⟩ := hname.identifier
          rcases List.mem_cons.1 (List.getLast_mem (List.cons_ne_nil _ _)) with hlast | hlast
          · rw [hlast]
            exact identifierPart_of_start hfirst
          · exact hpart _ hlast
      have hprints : Prints dynSolTypeParse spells ty name := .elementary hname
      rw [parseType, skipWhitespace_eq (hprints.notHead rest),
        parseHead_elementary hkeyword hname hstop h]
      rfl
  | ty, _, @Prints.tuple _ _ keyword text _ hk htuple, rest, fuel, h, hfuel, hsep => by
      obtain ⟨fuel, rfl⟩ := Nat.exists_eq_succ_of_ne_zero (show fuel ≠ 0 by omega)
      have hprints : Prints dynSolTypeParse spells ty (keyword ++ '(' :: text) := .tuple hk htuple
      have hinner : text ++ rest <:+ input := by
        refine List.IsSuffix.trans ⟨keyword ++ ['('], ?_⟩ h
        simp
      have hread := parseTuple_prints hspells hkeyword htuple fuel hinner (by
        simp only [List.length_append, List.length_cons] at hfuel ⊢
        omega)
      rw [parseType, skipWhitespace_eq (hprints.notHead rest), parseHead_tuple hk hread h]
      rfl
  | _, _, @Prints.array _ _ ty text before inner digits after length htext hbefore hinner hlength hafter,
      rest, fuel, h, hfuel, hsep => by
      have hwhole : text ++ (before ++ '[' :: (inner ++ (digits ++ (after ++ [']'])))) ++ rest =
          text ++ (before ++ '[' :: (inner ++ (digits ++ (after ++ ']' :: rest)))) := by simp
      rw [hwhole] at h hfuel ⊢
      rw [parseType_prints hspells hkeyword htext fuel h hfuel
        fun _ _ _ => notHead_blank_cons hbefore (by decide) _]
      -- One turn of the loop reads the suffix; the bound of the next turns is larger than they need.
      have hsuffix : inner ++ (digits ++ (after ++ ']' :: rest)) <:+ input :=
        ((List.suffix_cons _ _).trans (List.suffix_append before _)).trans
          ((List.suffix_append text _).trans h)
      have hrest : rest <:+ input :=
        List.IsSuffix.trans ⟨inner ++ (digits ++ (after ++ [']'])), by simp⟩ hsuffix
      rw [parseSuffixes, skipWhitespace_blank hbefore (.cons (by decide) _), consumeByte_cons]
      simp only [parseSuffix_eq hinner (hlength.mono hspells) hafter hsuffix, bind, Except.bind]
      refine parseSuffixes_turns hrest ?_ (Nat.lt_succ_self _)
      simp only [List.length_append, List.length_cons]
      omega

theorem parseTuple_prints (hspells : ∀ n digits, spells n digits → Spelled n digits)
    (hkeyword : ∀ ty, dynSolTypeParse "tuple" ≠ .ok ty) : ∀ {ty : DynSolType} {text : List Char},
    PrintsTuple dynSolTypeParse spells ty text → ∀ {rest : List Char} (fuel : ℕ),
    text ++ rest <:+ input → 2 * (text ++ rest).length + 2 ≤ fuel →
    parseTuple (parseMembers dynSolTypeParse input fuel) (text ++ rest) = .ok (ty, rest)
  | _, _, .empty hblank, rest, fuel, h, hfuel => by
      rw [parseTuple, List.append_assoc, List.singleton_append,
        skipWhitespace_blank hblank (.cons (by decide) rest), consumeByte_cons]
  | _, _, @PrintsTuple.unnamed _ _ before text _ hbefore hmembers hnames, rest, fuel, h,
      hfuel => by
      have hwhole : before ++ (text ++ [')']) ++ rest = before ++ (text ++ ')' :: rest) := by simp
      rw [hwhole] at h hfuel
      have hread := parseMembers_prints hspells hkeyword hmembers fuel
        ((List.suffix_append before _).trans h) (by
          rw [List.length_append] at hfuel
          omega)
      exact parseTuple_members hbefore hmembers hread (tupleOf_unnamed hnames)
  | _, _, @PrintsTuple.named _ _ before text _ hbefore hmembers hnames, rest, fuel, h,
      hfuel => by
      have hwhole : before ++ (text ++ [')']) ++ rest = before ++ (text ++ ')' :: rest) := by simp
      rw [hwhole] at h hfuel
      have hread := parseMembers_prints hspells hkeyword hmembers fuel
        ((List.suffix_append before _).trans h) (by
          rw [List.length_append] at hfuel
          omega)
      exact parseTuple_members hbefore hmembers hread (tupleOf_named hmembers.ne_nil hnames)

theorem parseMembers_prints (hspells : ∀ n digits, spells n digits → Spelled n digits)
    (hkeyword : ∀ ty, dynSolTypeParse "tuple" ≠ .ok ty) :
    ∀ {members : List (DynSolType × List Char)} {text : List Char},
    PrintsMembers dynSolTypeParse spells members text → ∀ {rest : List Char} (fuel : ℕ),
    text ++ ')' :: rest <:+ input → 2 * (text ++ ')' :: rest).length + 2 ≤ fuel →
    parseMembers dynSolTypeParse input fuel (text ++ ')' :: rest) = .ok (members, rest)
  | _, _, @PrintsMembers.last _ _ _ text _ label after htext hlabel hafter, rest, fuel, h, hfuel => by
      obtain ⟨fuel, rfl⟩ := Nat.exists_eq_succ_of_ne_zero (show fuel ≠ 0 by omega)
      have hwhole : text ++ (label ++ after) ++ ')' :: rest =
          text ++ (label ++ (after ++ ')' :: rest)) := by simp
      rw [hwhole] at h hfuel ⊢
      have htype := parseType_prints hspells hkeyword htext fuel h (by omega)
        (hlabel.separate hafter (by decide))
      rw [Nat.succ_eq_add_one, parseMembers_step hlabel hafter (Or.inl rfl) h htype, parseNext,
        consumeByte_cons]
  | _, _, @PrintsMembers.cons _ _ _ text _ label after before next _ htext hlabel hafter hbefore hmembers,
      rest, fuel, h, hfuel => by
      obtain ⟨fuel, rfl⟩ := Nat.exists_eq_succ_of_ne_zero (show fuel ≠ 0 by omega)
      have hwhole : text ++ (label ++ (after ++ ',' :: (before ++ next))) ++ ')' :: rest =
          text ++ (label ++ (after ++ ',' :: (before ++ (next ++ ')' :: rest)))) := by simp
      rw [hwhole] at h hfuel ⊢
      have htype := parseType_prints hspells hkeyword htext fuel h (by omega)
        (hlabel.separate hafter (by decide))
      have hnext : next ++ ')' :: rest <:+ input :=
        List.IsSuffix.trans ⟨text ++ (label ++ (after ++ ',' :: before)), by simp⟩ h
      have hread := parseMembers_prints hspells hkeyword hmembers fuel hnext (by
        simp only [List.length_append, List.length_cons] at hfuel ⊢
        omega)
      rw [Nat.succ_eq_add_one, parseMembers_step hlabel hafter (Or.inr rfl) h htype, parseNext,
        consumeByte_ne (by decide), consumeByte_cons]
      simp only [parseMembers_skip, parseMembers_blank hbefore, hread, bind, Except.bind]
      rfl

end

end

/-! ## The grammar of the parser -/

section

variable {dynSolTypeParse : String → Except Report DynSolType} {spells : ℕ → List Char → Prop}

mutual

/-- What is printed is a type of the language. -/
theorem Prints.solidityType : ∀ {ty : DynSolType} {text : List Char},
    Prints dynSolTypeParse spells ty text → SolidityType dynSolTypeParse ty
  | _, _, .elementary hname => .elementary hname
  | _, _, .tuple _ htuple => htuple.solidityType
  | _, _, .array htext _ _ hlength _ => by
      cases hlength with
      | dynamic => exact .array htext.solidityType
      | fixed _ hpos hlt => exact .fixedArray htext.solidityType hpos hlt

theorem PrintsTuple.solidityType : ∀ {ty : DynSolType} {text : List Char},
    PrintsTuple dynSolTypeParse spells ty text → SolidityType dynSolTypeParse ty
  | _, _, .empty _ => .tuple (List.forall_mem_nil _)
  | _, _, .unnamed _ hmembers _ =>
      .tuple (List.forall_mem_map.2 fun member hmember => (hmembers.solidityType member hmember).1)
  | _, _, .named _ hmembers hnames =>
      .customStruct hmembers.ne_nil (fun member hmember => (hmembers.solidityType member hmember).1)
        fun member hmember =>
          (hmembers.solidityType member hmember).2.resolve_left (hnames member hmember)

theorem PrintsMembers.solidityType : ∀ {members : List (DynSolType × List Char)} {text : List Char},
    PrintsMembers dynSolTypeParse spells members text → ∀ member ∈ members,
    SolidityType dynSolTypeParse member.1 ∧ (member.2 = [] ∨ IsIdentifier member.2)
  | _, _, .last htext hlabel _, member, hmember => by
      obtain rfl := List.mem_singleton.1 hmember
      exact ⟨htext.solidityType, hlabel.identifier⟩
  | _, _, .cons htext hlabel _ _ hmembers, member, hmember => by
      rcases List.mem_cons.1 hmember with rfl | hmember
      · exact ⟨htext.solidityType, hlabel.identifier⟩
      · exact hmembers.solidityType member hmember

end

/-- Members that have printings have one together. -/
theorem exists_printsMembers {members : List (DynSolType × List Char)} (hne : members ≠ [])
    (htypes : ∀ member ∈ members, ∃ text, Prints dynSolTypeParse spells member.1 text)
    (hnames : ∀ member ∈ members, member.2 = [] ∨ IsIdentifier member.2) :
    ∃ text, PrintsMembers dynSolTypeParse spells members text := by
  have hlabel : ∀ member ∈ members, ∀ text, ∃ label, PrintsName text member.2 label := by
    intro member hmember text
    rcases hnames member hmember with hempty | hname
    · rw [hempty]
      exact ⟨[], .unnamed⟩
    · have hgap : Blank [' '] := List.forall_mem_singleton.2 (by decide)
      exact ⟨_, .named hgap hname fun _ _ _ => .cons (by decide) _⟩
  induction members with
  | nil => exact absurd rfl hne
  | cons member members ih =>
      obtain ⟨text, htext⟩ := htypes member List.mem_cons_self
      obtain ⟨label, hname⟩ := hlabel member List.mem_cons_self text
      rcases eq_or_ne members [] with rfl | hmore
      · exact ⟨_, .last htext hname Blank.nil⟩
      · obtain ⟨rest, hrest⟩ := ih hmore (List.forall_mem_of_forall_mem_cons htypes)
          (List.forall_mem_of_forall_mem_cons hnames) (List.forall_mem_of_forall_mem_cons hlabel)
        exact ⟨_, .cons htext hname Blank.nil Blank.nil hrest⟩

/-- Every type of the language can be written, with the plain digits of its lengths. -/
theorem SolidityType.exists_prints {ty : DynSolType} (h : SolidityType dynSolTypeParse ty) :
    ∃ text, Prints dynSolTypeParse Decimal ty text := by
  induction h with
  | elementary hname => exact ⟨_, .elementary hname⟩
  | array _ ih =>
      obtain ⟨text, htext⟩ := ih
      exact ⟨_, .array htext Blank.nil Blank.nil .dynamic Blank.nil⟩
  | fixedArray _ hpos hlt ih =>
      obtain ⟨text, htext⟩ := ih
      exact ⟨_, .array htext Blank.nil Blank.nil (.fixed rfl hpos hlt) Blank.nil⟩
  | @tuple types _ ih =>
      rcases eq_or_ne types [] with rfl | hne
      · exact ⟨_, .tuple (Or.inl rfl) (.empty Blank.nil)⟩
      · let members := types.map fun ty => (ty, ([] : List Char))
        obtain ⟨text, htext⟩ : ∃ text, PrintsMembers dynSolTypeParse Decimal members text :=
          exists_printsMembers (by simpa [members] using hne) (by simpa [members] using ih) (by simp [members])
        have htuple := PrintsTuple.unnamed Blank.nil htext (by simp [members])
        have hfst : members.map Prod.fst = types := by simp [members, Function.comp_def]
        rw [hfst] at htuple
        exact ⟨_, .tuple (Or.inl rfl) htuple⟩
  | customStruct hne _ hnames ih =>
      obtain ⟨text, htext⟩ := exists_printsMembers hne ih fun member hmember =>
        Or.inr (hnames member hmember)
      refine ⟨_, .tuple (Or.inl rfl) (.named Blank.nil htext fun member hmember hempty => ?_)⟩
      have hname := hnames member hmember
      rw [hempty] at hname
      cases hname

/-- A printing with blanks around it is parsed as the type. -/
theorem parseAbiType_prints (hspells : ∀ n digits, spells n digits → Spelled n digits)
    (hkeyword : ∀ ty, dynSolTypeParse "tuple" ≠ .ok ty) {ty : DynSolType} {text : List Char}
    (h : PrintsText dynSolTypeParse spells ty text) : parseAbiType dynSolTypeParse text = .ok ty := by
  obtain ⟨before, inner, after, rfl, hbefore, hinner, hafter⟩ := h
  have hsep : Separate inner after := by
    intro c hc hpart d hd
    exact identifierPart_of_whitespace (hafter d (List.mem_of_mem_head? hd))
  have hread := parseType_prints hspells hkeyword hinner (2 * (before ++ (inner ++ after)).length + 1)
    (List.suffix_append before _) (by simp only [List.length_append]; omega) hsep
  have hend : parseSuffixes (before ++ (inner ++ after)) (after.length + 1) ty (after ++ []) = .ok (ty, []) :=
    parseSuffixes_end hafter (NotHead.nil _) rfl _ _
  rw [List.append_nil] at hend
  unfold parseAbiType
  rw [parseType_blank hbefore, hread, hend]
  rfl

/-- The parser answers with a type that the text is a printing of, or with a report. -/
theorem parseAbiType_returns (text : List Char) :
    Returns (fun ty => PrintsText dynSolTypeParse Spelled ty text)
      (parseAbiType dynSolTypeParse text) := by
  refine Returns.bind (parseType_returns List.suffix_rfl le_rfl) ?_
  rintro ⟨ty, rest⟩ ⟨before, inner, after, hsplit, hbefore, hinner, hafter, hhead, -⟩
  simp only [skipWhitespace_eq hhead]
  split
  · next hend =>
      subst hend
      exact ⟨before, inner, after, by simpa using hsplit, hbefore, hinner, hafter⟩
  · exact Returns.fail _

end

/-- Every type of the language has a printing; every printing is parsed as its type, also when lengths begin
with zeros; what is accepted is such a printing of a type of the language; on every other text the parser
reports an error. -/
theorem parse_abi_type_grammar (dynSolTypeParse : String → Except Report DynSolType)
    (hkeyword : ∀ ty, dynSolTypeParse "tuple" ≠ .ok ty) :
    (∀ ty, SolidityType dynSolTypeParse ty → ∃ text, PrintsText dynSolTypeParse Decimal ty text) ∧
    (∀ ty text, PrintsText dynSolTypeParse Decimal ty text →
      parseAbiType dynSolTypeParse text = .ok ty) ∧
    (∀ ty text, PrintsText dynSolTypeParse Spelled ty text →
      parseAbiType dynSolTypeParse text = .ok ty) ∧
    (∀ ty text, parseAbiType dynSolTypeParse text = .ok ty →
      SolidityType dynSolTypeParse ty ∧ PrintsText dynSolTypeParse Spelled ty text) ∧
    ∀ text, (∃ ty, parseAbiType dynSolTypeParse text = .ok ty) ∨
      ∃ report, parseAbiType dynSolTypeParse text = .error (.report report) := by
  refine ⟨fun ty hty => ?_, fun ty text h => ?_, fun ty text h => ?_, fun ty text h => ?_,
    fun text => ?_⟩
  · obtain ⟨text, htext⟩ := hty.exists_prints
    exact ⟨text, [], text, [], by simp, Blank.nil, htext, Blank.nil⟩
  · exact parseAbiType_prints (fun _ _ hlength => hlength.spelled) hkeyword h
  · exact parseAbiType_prints (fun _ _ hlength => hlength) hkeyword h
  · have hreturns := @parseAbiType_returns dynSolTypeParse text
    rw [h] at hreturns
    obtain ⟨before, inner, after, hsplit, hbefore, hinner, hafter⟩ := hreturns
    exact ⟨hinner.solidityType, before, inner, after, hsplit, hbefore, hinner, hafter⟩
  · rcases (@parseAbiType_returns dynSolTypeParse text).ok_or_report with
      ⟨ty, hty, -⟩ | hreport
    · exact Or.inl ⟨ty, hty⟩
    · exact Or.inr hreport

namespace Sample

def dynSolTypeParse (name : String) : Except Report DynSolType :=
  if name = "uint256" then .ok (.uint 256) else .error ["unknown type"]

theorem keyword_unknown (ty : DynSolType) : dynSolTypeParse "tuple" ≠ .ok ty := nofun

theorem elementary : Elementary dynSolTypeParse "uint256".toList (.uint 256) where
  identifier := .intro (by decide) (List.all_eq_true.1 (by decide))
  recognised := by
    rw [String.ofList_toList]
    exact if_pos rfl

/-- `uint256[007]` -/
def padded : List Char := "uint256".toList ++ '[' :: ("007".toList ++ [']'])

theorem spelled : Spelled 7 "007".toList where
  ne_nil := by decide
  digit := List.all_eq_true.1 (by decide)
  value := by decide

theorem padded_prints : PrintsText dynSolTypeParse Spelled (.fixedArray (.uint 256) 7) padded :=
  ⟨[], padded, [], by simp, Blank.nil,
    .array (.elementary elementary) Blank.nil Blank.nil (.fixed spelled (by decide) (by decide)) Blank.nil,
    Blank.nil⟩

/-- No number is written as `007`. -/
theorem not_decimal (n : ℕ) : ¬ Decimal n "007".toList := by
  intro h
  have hvalue := h.spelled.value
  have hseven := spelled.value
  obtain rfl : n = 7 := hvalue.symm.trans hseven
  exact absurd h (by unfold Decimal; decide)

/-- What is printed as an array ends with a bracket, and nothing else does. -/
theorem padded_suffix {ty : DynSolType} {before inner after : List Char}
    (h : padded = before ++ (inner ++ after)) (hafter : Blank after)
    (hinner : Prints dynSolTypeParse Decimal ty inner) :
    ∃ start blank digits blank' length, padded = start ++ '[' :: (blank ++ (digits ++ (blank' ++ [']'])))
      ∧ Blank blank ∧ PrintsLength Decimal length digits ∧ Blank blank' := by
  have hlast : padded.getLast? = some ']' := by decide
  have hnil : after = [] := by
    rcases List.eq_nil_or_concat after with rfl | ⟨after', c, rfl⟩
    · rfl
    · have hspace := hafter c (by simp)
      rw [h, List.concat_eq_append, ← List.append_assoc, ← List.append_assoc,
        List.getLast?_concat] at hlast
      obtain rfl := Option.some.inj hlast
      exact absurd hspace (by decide)
  subst hnil
  rw [List.append_nil] at h
  cases hinner with
  | elementary hname =>
      -- A name ends with a letter, a digit or an underscore.
      exfalso
      obtain ⟨hfirst, hpart⟩ := hname.identifier
      rename_i first part
      have hmem : ']' ∈ first :: part := by
        rw [h, List.getLast?_append_of_ne_nil _ (List.cons_ne_nil _ _)] at hlast
        exact List.mem_of_mem_getLast? hlast
      rcases List.mem_cons.1 hmem with rfl | hmem
      · exact absurd hfirst (by decide)
      · exact absurd (hpart _ hmem) (by decide)
  | tuple hkeyword htuple =>
      exfalso
      obtain ⟨inner, rfl⟩ := htuple.closed
      rw [h, ← List.cons_append, ← List.append_assoc, ← List.append_assoc, List.getLast?_concat] at hlast
      exact absurd (Option.some.inj hlast) (by decide)
  | @array _ text before' _ _ _ _ htext hbefore hblank hlength hafter =>
      refine ⟨before ++ (text ++ before'), _, _, _, _, ?_, hblank, hlength, hafter⟩
      rw [h, List.append_assoc, List.append_assoc]

end Sample

/-- A text with zeros before a length is accepted, and no type is printed so. -/
theorem leading_zeros_accepted :
    ∃ text ty, parseAbiType Sample.dynSolTypeParse text = .ok ty ∧
      ¬ ∃ ty', PrintsText Sample.dynSolTypeParse Decimal ty' text := by
  refine ⟨Sample.padded, _,
    parseAbiType_prints (fun _ _ h => h) Sample.keyword_unknown Sample.padded_prints, ?_⟩
  rintro ⟨ty', before, inner, after, hsplit, -, hinner, hafter⟩
  obtain ⟨start, blank, digits, blank', length, hpadded, hblank, hlength, hblank'⟩ :=
    Sample.padded_suffix hsplit hafter hinner
  have hbracket : '[' ∉ "uint256".toList ∧ '[' ∉ "007".toList ++ [']'] := by decide
  obtain ⟨-, -, hdigits⟩ := (List.append_cons_inj_of_notMem hbracket.1 hbracket.2).1 hpadded
  have hspace : ∀ c ∈ "007".toList ++ [']'], Text.isAsciiWhitespace c = false := by
    have hall : ("007".toList ++ [']']).all (fun c => !Text.isAsciiWhitespace c) = true := by decide
    intro c hc
    simpa using List.all_eq_true.1 hall c hc
  have hempty : ∀ blank : List Char, Blank blank → (∀ c ∈ blank, c ∈ "007".toList ++ [']']) →
      blank = [] := by
    intro blank hblank hmem
    cases blank with
    | nil => rfl
    | cons c blank =>
        have := hspace c (hmem c List.mem_cons_self)
        rw [hblank c List.mem_cons_self] at this
        cases this
  have hfirst := hempty blank hblank fun c hc => by rw [hdigits]; simp [hc]
  have hsecond := hempty blank' hblank' fun c hc => by rw [hdigits]; simp [hc]
  subst hfirst hsecond
  rw [List.nil_append, List.nil_append] at hdigits
  obtain ⟨rfl, -⟩ := List.append_inj' hdigits rfl
  cases hlength with
  | fixed hdecimal => exact Sample.not_decimal _ hdecimal

theorem parse_abi_type_grammar_sample :
    (∀ ty, Sample.dynSolTypeParse "tuple" ≠ .ok ty) ∧
      PrintsText Sample.dynSolTypeParse Spelled (.fixedArray (.uint 256) 7) Sample.padded ∧
      parseAbiType Sample.dynSolTypeParse Sample.padded = .ok (.fixedArray (.uint 256) 7) :=
  ⟨Sample.keyword_unknown, Sample.padded_prints,
    (parse_abi_type_grammar Sample.dynSolTypeParse Sample.keyword_unknown).2.2.1 _ _
      Sample.padded_prints⟩

end TxGen.AbiType
