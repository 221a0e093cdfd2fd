import LayerLint.Pattern.Glob

/-!
# The texts that globs stand for

The table of answers is right about what a glob stands for, and a run of tokens stands for the texts
that can be cut into what its parts stand for.
-/

namespace LayerLint.Pattern

variable {token : Token} {tokens more : List Token} {c : Char} {cs : List Char}

/-! ## The table -/

theorem answers_one (h : token ≠ .run) (tokens : List Token) (cs : List Char) :
    answers (token :: tokens) cs = takeOne token cs (answers tokens cs) := by
  cases token <;> first | rfl | exact absurd rfl h

/-- The answers for the end of a text are those behind the first one. -/
theorem answers_cons (tokens : List Token) (c : Char) (cs : List Char) :
    answers tokens (c :: cs) = tokensMatch tokens (c :: cs) :: answers tokens cs := by
  induction tokens with
  | nil => rfl
  | cons token tokens ih =>
      by_cases hrun : token = .run
      · subst hrun
        rw [tokensMatch, answers, ih]
        rfl
      · rw [tokensMatch, answers_one hrun, answers_one hrun, ih]
        rfl

theorem tokensMatch_run_nil : tokensMatch (.run :: tokens) [] = tokensMatch tokens [] :=
  rfl

theorem tokensMatch_run_cons : tokensMatch (.run :: tokens) (c :: cs) =
    (tokensMatch tokens (c :: cs) || (c != '/' && tokensMatch (.run :: tokens) cs)) := by
  rw [tokensMatch, answers, answers_cons]
  rfl

theorem tokensMatch_one_nil (h : token ≠ .run) : tokensMatch (token :: tokens) [] = false := by
  rw [tokensMatch, answers_one h]
  rfl

theorem tokensMatch_one_cons (h : token ≠ .run) :
    tokensMatch (token :: tokens) (c :: cs) = (token.admits c && tokensMatch tokens cs) := by
  rw [tokensMatch, answers_one h, answers_cons]
  rfl

/-! ## The meaning -/

/-- What a glob means: the texts it stands for. -/
inductive Matches : List Token → List Char → Prop where
  | nil : Matches [] []
  | one {token : Token} {tokens : List Token} {c : Char} {cs : List Char} :
      token.admits c = true → Matches tokens cs → Matches (token :: tokens) (c :: cs)
  | skip {tokens : List Token} {cs : List Char} :
      Matches tokens cs → Matches (.run :: tokens) cs
  | extend {tokens : List Token} {c : Char} {cs : List Char} :
      c ≠ '/' → Matches (.run :: tokens) cs → Matches (.run :: tokens) (c :: cs)

theorem matches_nil_iff : Matches [] cs ↔ cs = [] := by
  constructor
  · intro h
    cases h
    rfl
  · rintro rfl
    exact .nil

theorem matches_run_nil_iff : Matches (.run :: tokens) [] ↔ Matches tokens [] := by
  constructor
  · intro h
    cases h
    assumption
  · exact .skip

theorem matches_run_cons_iff : Matches (.run :: tokens) (c :: cs) ↔
    Matches tokens (c :: cs) ∨ c ≠ '/' ∧ Matches (.run :: tokens) cs := by
  constructor
  · intro h
    cases h with
    | one hadmits => cases hadmits
    | skip h => exact Or.inl h
    | extend hc h => exact Or.inr ⟨hc, h⟩
  · rintro (h | ⟨hc, h⟩)
    · exact .skip h
    · exact .extend hc h

theorem matches_one_iff (h : token ≠ .run) : Matches (token :: tokens) cs ↔
    ∃ c rest, cs = c :: rest ∧ token.admits c = true ∧ Matches tokens rest := by
  constructor
  · intro hmatches
    cases hmatches with
    | one hadmits hrest => exact ⟨_, _, rfl, hadmits, hrest⟩
    | skip => exact absurd rfl h
    | extend => exact absurd rfl h
  · rintro ⟨c, rest, rfl, hadmits, hrest⟩
    exact .one hadmits hrest

/-- A run stands for any text without a slash. -/
theorem matches_run_iff : Matches (.run :: tokens) cs ↔
    ∃ skipped rest, cs = skipped ++ rest ∧ '/' ∉ skipped ∧ Matches tokens rest := by
  constructor
  · intro h
    induction cs with
    | nil => exact ⟨[], [], rfl, List.not_mem_nil, matches_run_nil_iff.1 h⟩
    | cons c cs ih =>
        rcases matches_run_cons_iff.1 h with h | ⟨hc, h⟩
        · exact ⟨[], c :: cs, rfl, List.not_mem_nil, h⟩
        · obtain ⟨skipped, rest, rfl, hslash, hrest⟩ := ih h
          refine ⟨c :: skipped, rest, rfl, ?_, hrest⟩
          rw [List.mem_cons, not_or]
          exact ⟨Ne.symm hc, hslash⟩
  · rintro ⟨skipped, rest, rfl, hslash, hrest⟩
    induction skipped with
    | nil => exact .skip hrest
    | cons c skipped ih =>
        rw [List.mem_cons, not_or] at hslash
        exact .extend (Ne.symm hslash.1) (ih hslash.2)

/-- The table of answers is right. -/
theorem tokensMatch_iff : tokensMatch tokens cs = true ↔ Matches tokens cs := by
  induction tokens generalizing cs with
  | nil => cases cs <;> simp [tokensMatch, answers, matches_nil_iff]
  | cons token tokens ih =>
      by_cases hrun : token = .run
      · subst hrun
        induction cs with
        | nil => rw [tokensMatch_run_nil, matches_run_nil_iff, ih]
        | cons c cs ihcs =>
            rw [tokensMatch_run_cons, matches_run_cons_iff, Bool.or_eq_true, Bool.and_eq_true, ih,
              ihcs, bne_iff_ne]
      · rw [matches_one_iff hrun]
        cases cs with
        | nil => simp [tokensMatch_one_nil hrun]
        | cons c cs =>
            rw [tokensMatch_one_cons hrun, Bool.and_eq_true, ih]
            constructor
            · rintro ⟨hadmits, hrest⟩
              exact ⟨c, cs, rfl, hadmits, hrest⟩
            · rintro ⟨_, _, hcons, hadmits, hrest⟩
              cases hcons
              exact ⟨hadmits, hrest⟩

theorem matches_append_iff : Matches (tokens ++ more) cs ↔
    ∃ front back, cs = front ++ back ∧ Matches tokens front ∧ Matches more back := by
  induction tokens generalizing cs with
  | nil =>
      constructor
      · intro h
        exact ⟨[], cs, rfl, .nil, h⟩
      · rintro ⟨front, back, rfl, hfront, hback⟩
        rw [matches_nil_iff.1 hfront]
        exact hback
  | cons token tokens ih =>
      rw [List.cons_append]
      by_cases hrun : token = .run
      · subst hrun
        simp only [matches_run_iff, ih]
        constructor
        · rintro ⟨skipped, _, rfl, hslash, front, back, rfl, hfront, hback⟩
          exact ⟨skipped ++ front, back, (List.append_assoc ..).symm,
            ⟨skipped, front, rfl, hslash, hfront⟩, hback⟩
        · rintro ⟨_, back, rfl, ⟨skipped, front, rfl, hslash, hfront⟩, hback⟩
          exact ⟨skipped, front ++ back, List.append_assoc .., hslash, front, back, rfl, hfront,
            hback⟩
      · simp only [matches_one_iff hrun, ih]
        constructor
        · rintro ⟨c, _, rfl, hadmits, front, back, rfl, hfront, hback⟩
          exact ⟨c :: front, back, rfl, ⟨c, front, rfl, hadmits, hfront⟩, hback⟩
        · rintro ⟨_, back, rfl, ⟨c, front, rfl, hadmits, hfront⟩, hback⟩
          exact ⟨c, front ++ back, rfl, hadmits, front, back, rfl, hfront, hback⟩

/-! ## Globs without classes -/

/-- The token that a character outside classes spells. -/
def Token.ofChar (c : Char) : Token :=
  if c = '?' then .any else if c = '*' then .run else .char c

theorem Token.ofChar_ne_run (h : c ≠ '*') : Token.ofChar c ≠ .run := by
  rw [Token.ofChar, if_neg h]
  split <;> exact Token.noConfusion

theorem Token.admits_ofChar {d : Char} (hstar : c ≠ '*') (hslash : c ≠ '/') :
    (Token.ofChar c).admits d = true ↔ d ≠ '/' ∧ (c = '?' ∨ d = c) := by
  by_cases hany : c = '?'
  · simp [Token.ofChar, Token.admits, hany]
  · have hchar : Token.ofChar c = .char c := by rw [Token.ofChar, if_neg hany, if_neg hstar]
    rw [hchar, Token.admits, beq_iff_eq]
    constructor
    · rintro rfl
      exact ⟨hslash, Or.inr rfl⟩
    · rintro ⟨_, hsame⟩
      exact hsame.resolve_left hany

theorem readTokensWithin_eq (h : '[' ∉ cs) {n : Nat} (hn : cs.length ≤ n) :
    readTokensWithin n cs = some (cs.map Token.ofChar) := by
  induction cs generalizing n with
  | nil => cases n <;> rfl
  | cons c cs ih =>
      rw [List.mem_cons, not_or] at h
      cases n with
      | zero => cases hn
      | succ n =>
          have hrest := ih h.2 (Nat.le_of_succ_le_succ hn)
          by_cases hany : c = '?'
          · rw [hany, readTokensWithin, hrest]
            rfl
          · by_cases hrun : c = '*'
            · rw [hrun, readTokensWithin, hrest]
              rfl
            · rw [readTokensWithin, hrest]
              · simp [Token.ofChar, hany, hrun]
              · exact hany
              · exact hrun
              · exact fun _ hc => absurd hc.symm h.1
              · exact fun hc => h.1 hc.symm

theorem readTokens_eq (h : '[' ∉ cs) : readTokens cs = some (cs.map Token.ofChar) :=
  readTokensWithin_eq h (Nat.le_refl _)

end LayerLint.Pattern
