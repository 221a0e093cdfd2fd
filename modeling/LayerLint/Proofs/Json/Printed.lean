import LayerLint.Proofs.Json.Scalar

/-!
# Reading what was printed

A value whose numbers are counts is read back from its printed text. Each nested read takes up some
of that text, so the reader's bound is never met.
-/

namespace LayerLint.Json

variable {cs rest : List Char}

/-! ## Printed values as characters -/

attribute [local simp] prettyAt prettyItems prettyFields

theorem toList_null (level : Nat) : (prettyAt level .null).toList = ['n', 'u', 'l', 'l'] := by
  rw [prettyAt]
  rfl

theorem toList_true (level : Nat) :
    (prettyAt level (.bool true)).toList = ['t', 'r', 'u', 'e'] := by
  rw [prettyAt]
  rfl

theorem toList_false (level : Nat) :
    (prettyAt level (.bool false)).toList = ['f', 'a', 'l', 's', 'e'] := by
  rw [prettyAt]
  rfl

theorem toList_count (level n : Nat) : (prettyAt level (.ofNat n)).toList = Nat.toDigits 10 n := by
  rw [ofNat, prettyAt, Nat.toString_eq_ofList_toDigits, String.toList_ofList]

theorem toList_str (level : Nat) (text : String) :
    (prettyAt level (.str text)).toList = '"' :: (text.toList.flatMap escapeChar ++ ['"']) := by
  rw [prettyAt, toList_quote]

theorem toList_arr_nil (level : Nat) : (prettyAt level (.arr [])).toList = ['[', ']'] := by
  rw [prettyAt]
  rfl

theorem toList_arr_cons (level : Nat) (item : Json) (items : List Json) :
    (prettyAt level (.arr (item :: items))).toList =
      '[' :: ((newLine (level + 1)).toList ++ ((prettyAt (level + 1) item).toList ++
        ((prettyItems (level + 1) items).toList ++ ((newLine level).toList ++ [']'])))) := by
  simp

theorem toList_prettyItems_cons (level : Nat) (item : Json) (items : List Json) :
    (prettyItems level (item :: items)).toList =
      ',' :: ((newLine level).toList ++ ((prettyAt level item).toList ++
        (prettyItems level items).toList)) := by
  simp

theorem toList_obj_nil (level : Nat) : (prettyAt level (.obj [])).toList = ['{', '}'] := by
  rw [prettyAt]
  rfl

theorem toList_obj_cons (level : Nat) (name : String) (value : Json)
    (fields : List (String × Json)) :
    (prettyAt level (.obj ((name, value) :: fields))).toList =
      '{' :: ((newLine (level + 1)).toList ++ ((quote name).toList ++ ':' :: ' ' ::
        ((prettyAt (level + 1) value).toList ++ ((prettyFields (level + 1) fields).toList ++
          ((newLine level).toList ++ ['}']))))) := by
  simp

theorem toList_prettyFields_cons (level : Nat) (name : String) (value : Json)
    (fields : List (String × Json)) :
    (prettyFields level ((name, value) :: fields)).toList =
      ',' :: ((newLine level).toList ++ ((quote name).toList ++ ':' :: ' ' ::
        ((prettyAt level value).toList ++ (prettyFields level fields).toList))) := by
  simp

/-! ## Spaces -/

theorem skipSpaces_cons {c : Char} (h : isSpace c = false) (cs : List Char) :
    skipSpaces (c :: cs) = c :: cs :=
  List.dropWhile_cons_of_neg (by simp [h])

theorem skipSpaces_newLine (level : Nat) (cs : List Char) :
    skipSpaces ((newLine level).toList ++ cs) = skipSpaces cs := by
  refine List.dropWhile_append_of_pos fun c hc => ?_
  simp only [newLine, String.toList_append, String.toList_ofList, List.mem_append,
    List.mem_replicate] at hc
  rcases hc with hc | ⟨_, rfl⟩
  · obtain rfl : c = '\n' := by simpa using hc
    rfl
  · rfl

attribute [local simp] readValue readItems readFields

theorem readValue_newLine (bound level : Nat) (cs : List Char) :
    readValue bound ((newLine level).toList ++ cs) = readValue bound cs := by
  cases bound with
  | zero => simp
  | succ bound => rw [readValue, readValue, skipSpaces_newLine]

theorem readItems_newLine (bound level : Nat) (done : List Json) (cs : List Char) :
    readItems bound done ((newLine level).toList ++ cs) = readItems bound done cs := by
  cases bound with
  | zero => simp
  | succ bound => rw [readItems, readItems, readValue_newLine]

theorem readFields_newLine (bound level : Nat) (done : List (Option String × Json))
    (cs : List Char) :
    readFields bound done ((newLine level).toList ++ cs) = readFields bound done cs := by
  cases bound with
  | zero => simp
  | succ bound => rw [readFields, readFields, skipSpaces_newLine]

/-! ## Values -/

/-- A value whose numbers are counts and whose strings are texts. -/
inductive IsPlain : Json → Prop where
  | null : IsPlain .null
  | bool (value : Bool) : IsPlain (.bool value)
  | count (n : Nat) : IsPlain (.ofNat n)
  | str (text : String) : IsPlain (.str text)
  | arr {items : List Json} (h : ∀ item ∈ items, IsPlain item) : IsPlain (.arr items)
  | obj {fields : List (String × Json)} (h : ∀ field ∈ fields, IsPlain field.2) :
      IsPlain (.obj fields)

theorem isDigit_ne {c : Char} (h : c.isDigit = true) :
    isSpace c = false ∧ c ∉ ['{', '[', ']', '"', 't', 'f', 'n'] := by
  constructor
  · rw [← Bool.not_eq_true]
    intro hspace
    simp only [isSpace, Bool.or_eq_true, beq_iff_eq, or_assoc] at hspace
    rcases hspace with rfl | rfl | rfl | rfl <;> cases h
  · intro hmem
    simp only [List.mem_cons, List.not_mem_nil, or_false] at hmem
    rcases hmem with rfl | rfl | rfl | rfl | rfl | rfl | rfl <;> cases h

theorem IsPlain.exists_cons {value : Json} (h : IsPlain value) (level : Nat) :
    ∃ c cs, (prettyAt level value).toList = c :: cs ∧ isSpace c = false ∧ c ≠ ']' := by
  cases h with
  | null => exact ⟨_, _, toList_null level, rfl, by decide⟩
  | bool value =>
      cases value with
      | true => exact ⟨_, _, toList_true level, rfl, by decide⟩
      | false => exact ⟨_, _, toList_false level, rfl, by decide⟩
  | count n =>
      obtain ⟨c, digits, hdigits, hc⟩ := exists_toDigits_eq_cons n
      obtain ⟨hspace, hne⟩ := isDigit_ne hc
      refine ⟨c, digits, (toList_count level n).trans hdigits, hspace, ?_⟩
      rintro rfl
      exact hne (by decide)
  | str text => exact ⟨_, _, toList_str level text, rfl, by decide⟩
  | @arr items h =>
      cases items with
      | nil => exact ⟨_, _, toList_arr_nil level, rfl, by decide⟩
      | cons item items => exact ⟨_, _, toList_arr_cons level item items, rfl, by decide⟩
  | @obj fields h =>
      cases fields with
      | nil => exact ⟨_, _, toList_obj_nil level, rfl, by decide⟩
      | cons field fields =>
          exact ⟨_, _, toList_obj_cons level field.1 field.2 fields, rfl, by decide⟩

/-- The value is read back from its printed text, whatever follows that cannot go on with it. -/
def IsReadBack (value : Json) : Prop :=
  ∀ level bound rest, 2 * (prettyAt level value).toList.length ≤ bound + 1 → EndsNumber rest →
    readValue (bound + 1) ((prettyAt level value).toList ++ rest) = some (value, rest)

theorem readItems_next {bound : Nat} {item : Json}
    (h : readValue bound cs = some (item, ',' :: rest)) (done : List Json) :
    readItems (bound + 1) done cs = readItems bound (item :: done) rest := by
  rw [readItems, h]
  rfl

theorem readItems_last {bound inner : Nat} {item : Json}
    (h : readValue bound cs = some (item, (newLine inner).toList ++ ']' :: rest))
    (done : List Json) :
    readItems (bound + 1) done cs = some (.arr (item :: done).reverse, rest) := by
  have hskip : skipSpaces ((newLine inner).toList ++ ']' :: rest) = ']' :: rest := by
    rw [skipSpaces_newLine, skipSpaces_cons rfl]
  simp only [readItems, h, Option.bind_eq_bind, Option.bind_some, hskip]

theorem endsNumber_newLine (level : Nat) (cs : List Char) :
    EndsNumber ((newLine level).toList ++ cs) := by
  rw [newLine, String.toList_append]
  exact endsNumber_cons (Or.inr rfl) _

/-- The items of an array are read one after the other, up to the bracket behind the last. -/
theorem readItems_pretty {level : Nat} {item : Json} {items : List Json} (hitem : IsReadBack item)
    (hitems : ∀ item ∈ items, IsReadBack item) (inner : Nat) {bound : Nat}
    (hbound : 2 * ((prettyAt level item).toList.length + (prettyItems level items).toList.length) ≤
      bound + 1) (done : List Json) (rest : List Char) :
    readItems (bound + 2) done ((prettyAt level item).toList ++ ((prettyItems level items).toList ++
      ((newLine inner).toList ++ ']' :: rest))) =
        some (.arr (done.reverse ++ item :: items), rest) := by
  induction items generalizing item bound done with
  | nil =>
      have hread := hitem level bound _ (by omega) (endsNumber_newLine inner (']' :: rest))
      simpa [prettyItems] using readItems_last hread done
  | cons next items ih =>
      obtain ⟨hnext, hrest⟩ := List.forall_mem_cons.1 hitems
      rw [toList_prettyItems_cons] at hbound ⊢
      simp only [List.length_cons, List.length_append] at hbound
      simp only [List.cons_append, List.append_assoc]
      have hread := fun after => hitem level bound (',' :: after) (by omega)
        (endsNumber_cons (Or.inl rfl) after)
      obtain ⟨bound, rfl⟩ := Nat.exists_eq_add_one_of_ne_zero (show bound ≠ 0 by omega)
      rw [readItems_next (hread _), readItems_newLine, ih hnext hrest (by omega)]
      simp

/-- A field whose name spells a text. -/
def namedField (field : String × Json) : Option String × Json :=
  (some field.1, field.2)

theorem ofFields_named (fields : List (String × Json)) :
    ofFields (fields.map namedField) = .obj fields := by
  have hmap : (fields.map namedField).mapM (fun field => field.1.map (·, field.2)) =
      some fields := by
    induction fields with
    | nil => rfl
    | cons field fields ih => simp [ih, namedField]
  unfold ofFields
  rw [hmap]

theorem readValue_space (bound : Nat) (cs : List Char) :
    readValue bound (' ' :: cs) = readValue bound cs := by
  cases bound with
  | zero => simp
  | succ bound =>
      rw [readValue, readValue]
      rfl

theorem readFields_next {bound : Nat} {value : Json}
    (h : readValue bound cs = some (value, ',' :: rest)) (name : String)
    (done : List (Option String × Json)) :
    readFields (bound + 1) done ((quote name).toList ++ ':' :: ' ' :: cs) =
      readFields bound ((some name, value) :: done) rest := by
  rw [toList_quote]
  simp only [List.cons_append, List.append_assoc, List.nil_append, readFields,
    skipSpaces_cons (c := '"') rfl, readString_escaped, Option.bind_eq_bind, Option.bind_some,
    skipSpaces_cons (c := ':') rfl, readValue_space, h, skipSpaces_cons (c := ',') rfl]

theorem readFields_last {bound inner : Nat} {value : Json}
    (h : readValue bound cs = some (value, (newLine inner).toList ++ '}' :: rest)) (name : String)
    (done : List (Option String × Json)) :
    readFields (bound + 1) done ((quote name).toList ++ ':' :: ' ' :: cs) =
      some (ofFields ((some name, value) :: done).reverse, rest) := by
  rw [toList_quote]
  simp only [List.cons_append, List.append_assoc, List.nil_append, readFields,
    skipSpaces_cons (c := '"') rfl, readString_escaped, Option.bind_eq_bind, Option.bind_some,
    skipSpaces_cons (c := ':') rfl, readValue_space, h, skipSpaces_newLine,
    skipSpaces_cons (c := '}') rfl]

/-- The fields of an object are read one after the other, up to the brace behind the last. -/
theorem readFields_pretty {level : Nat} {value : Json} {fields : List (String × Json)}
    (hvalue : IsReadBack value) (hfields : ∀ field ∈ fields, IsReadBack field.2) (name : String)
    (inner : Nat) {bound : Nat}
    (hbound : 2 * ((prettyAt level value).toList.length +
      (prettyFields level fields).toList.length) ≤ bound + 1)
    (done : List (String × Json)) (rest : List Char) :
    readFields (bound + 2) (done.map namedField) ((quote name).toList ++ ':' :: ' ' ::
      ((prettyAt level value).toList ++ ((prettyFields level fields).toList ++
        ((newLine inner).toList ++ '}' :: rest)))) =
        some (.obj (done.reverse ++ (name, value) :: fields), rest) := by
  induction fields generalizing name value bound done with
  | nil =>
      have hread := hvalue level bound _ (by omega) (endsNumber_newLine inner ('}' :: rest))
      have hdone : ((some name, value) :: done.map namedField).reverse =
          (done.reverse ++ [(name, value)]).map namedField := by
        simp [namedField]
      rw [prettyFields, String.toList_empty, List.nil_append, readFields_last hread, hdone,
        ofFields_named]
  | cons field fields ih =>
      obtain ⟨hfield, hrest⟩ := List.forall_mem_cons.1 hfields
      rw [toList_prettyFields_cons] at hbound ⊢
      simp only [List.length_cons, List.length_append] at hbound
      simp only [List.cons_append, List.append_assoc]
      have hread := fun after => hvalue level bound (',' :: after) (by omega)
        (endsNumber_cons (Or.inl rfl) after)
      obtain ⟨bound, rfl⟩ := Nat.exists_eq_add_one_of_ne_zero (show bound ≠ 0 by omega)
      rw [readFields_next (hread _), readFields_newLine]
      refine (ih hfield hrest field.1 (by omega) ((name, value) :: done)).trans ?_
      simp

theorem readValue_str (bound : Nat) (text : String) (rest : List Char) :
    readValue (bound + 1) ('"' :: (text.toList.flatMap escapeChar ++ '"' :: rest)) =
      some (.str text, rest) := by
  rw [readValue]
  simp only [skipSpaces_cons (c := '"') rfl, readString_escaped, Option.map_some, Option.elim_some]

theorem readValue_count (bound n : Nat) (h : EndsNumber rest) :
    readValue (bound + 1) (Nat.toDigits 10 n ++ rest) = some (.ofNat n, rest) := by
  obtain ⟨c, digits, hdigits, hc⟩ := exists_toDigits_eq_cons n
  obtain ⟨hspace, hne⟩ := isDigit_ne hc
  have hskip : skipSpaces (Nat.toDigits 10 n ++ rest) = c :: (digits ++ rest) := by
    rw [hdigits, List.cons_append, skipSpaces_cons hspace]
  have hnumber := readNumber_count n h
  rw [hdigits, List.cons_append] at hnumber
  rw [readValue, hskip]
  -- No other kind of value starts with a digit.
  split <;> simp_all

theorem readValue_bracket {text : List Char}
    (htext : ∃ c cs, text = c :: cs ∧ isSpace c = false ∧ c ≠ ']') (bound level : Nat)
    (rest : List Char) :
    readValue (bound + 1) ('[' :: ((newLine level).toList ++ (text ++ rest))) =
      readItems bound [] (text ++ rest) := by
  obtain ⟨c, cs, rfl, hspace, hne⟩ := htext
  rw [readValue, skipSpaces_cons rfl]
  simp only [List.cons_append, skipSpaces_newLine, skipSpaces_cons hspace]
  split
  · rename_i heq
    exact absurd (List.cons.inj heq).1 hne
  · rfl

theorem readValue_brace (bound level : Nat) (name : String) (cs : List Char) :
    readValue (bound + 1) ('{' :: ((newLine level).toList ++ ((quote name).toList ++ cs))) =
      readFields bound [] ((quote name).toList ++ cs) := by
  rw [readValue, skipSpaces_cons rfl]
  simp only [toList_quote, List.cons_append, skipSpaces_newLine, skipSpaces_cons (c := '"') rfl]
  rfl

theorem isReadBack_arr {items : List Json} (hplain : ∀ item ∈ items, IsPlain item)
    (hitems : ∀ item ∈ items, IsReadBack item) : IsReadBack (.arr items) := by
  intro level bound rest hbound _
  cases items with
  | nil =>
      rw [toList_arr_nil, readValue]
      rfl
  | cons item items =>
      obtain ⟨hplain, _⟩ := List.forall_mem_cons.1 hplain
      obtain ⟨hitem, hitems⟩ := List.forall_mem_cons.1 hitems
      rw [toList_arr_cons] at hbound ⊢
      simp only [List.length_cons, List.length_append] at hbound
      simp only [List.cons_append, List.append_assoc, List.nil_append]
      obtain ⟨bound, rfl⟩ := Nat.exists_eq_add_of_le' (show 2 ≤ bound by omega)
      rw [readValue_bracket (hplain.exists_cons _)]
      exact readItems_pretty hitem hitems level (by omega) [] rest

theorem isReadBack_obj {fields : List (String × Json)}
    (hfields : ∀ field ∈ fields, IsReadBack field.2) : IsReadBack (.obj fields) := by
  intro level bound rest hbound _
  cases fields with
  | nil =>
      rw [toList_obj_nil, readValue]
      rfl
  | cons field fields =>
      obtain ⟨hfield, hfields⟩ := List.forall_mem_cons.1 hfields
      rw [toList_obj_cons] at hbound ⊢
      simp only [List.length_cons, List.length_append] at hbound
      simp only [List.cons_append, List.append_assoc, List.nil_append]
      obtain ⟨bound, rfl⟩ := Nat.exists_eq_add_of_le' (show 2 ≤ bound by omega)
      rw [readValue_brace]
      exact readFields_pretty hfield hfields field.1 level (by omega) [] rest

theorem IsPlain.isReadBack {value : Json} (h : IsPlain value) : IsReadBack value := by
  induction h with
  | null =>
      intro level bound rest _ _
      rw [toList_null, readValue]
      rfl
  | bool value =>
      intro level bound rest _ _
      cases value with
      | true =>
          rw [toList_true, readValue]
          rfl
      | false =>
          rw [toList_false, readValue]
          rfl
  | count n =>
      intro level bound rest _ hrest
      rw [toList_count, readValue_count bound n hrest]
  | str text =>
      intro level bound rest _ _
      rw [toList_str, List.cons_append, List.append_assoc, List.singleton_append, readValue_str]
  | arr h ih => exact isReadBack_arr h ih
  | obj h ih => exact isReadBack_obj ih

theorem endsNumber_spaces (h : ∀ c ∈ rest, isSpace c = true) : EndsNumber rest := by
  cases rest with
  | nil => exact endsNumber_nil
  | cons c cs =>
      have hspace := h c List.mem_cons_self
      simp only [isSpace, Bool.or_eq_true, beq_iff_eq, or_assoc] at hspace
      rcases hspace with rfl | rfl | rfl | rfl <;> simp [EndsNumber]

/-- A plain value is read back from its printed text, with any spaces behind it. -/
theorem IsPlain.parse?_pretty {value : Json} (h : IsPlain value) (spaces : String)
    (hspaces : ∀ c ∈ spaces.toList, isSpace c = true) :
    parse? (value.pretty ++ spaces) = some value := by
  have hread : readValue (2 * (value.pretty ++ spaces).toList.length + 2)
      (value.pretty ++ spaces).toList = some (value, spaces.toList) := by
    rw [String.toList_append, List.length_append]
    refine h.isReadBack 0 _ _ ?_ (endsNumber_spaces hspaces)
    rw [pretty]
    omega
  have hskip : skipSpaces (spaces.toList ++ []) = [] := List.dropWhile_append_of_pos hspaces
  rw [List.append_nil] at hskip
  unfold parse?
  dsimp only
  rw [hread]
  simp [hskip]

end LayerLint.Json
