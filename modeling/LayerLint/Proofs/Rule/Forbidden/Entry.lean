import Mathlib.Data.List.Infix
import LayerLint.Proofs.Text.Blank
import LayerLint.Proofs.Text.Split
import LayerLint.Rule.Forbidden

/-!
# Entries of forbidden dependencies

An entry is read from two sides with one arrow between them, blanks around the sides left out.
-/

namespace LayerLint

namespace Text

variable {part s : String}

/-- The number of places where a text stands in another. -/
def occurrences (part s : String) : Nat :=
  s.toList.tails.countP part.toList.isPrefixOf

theorem occurrences_eq_zero_iff : occurrences part s = 0 ↔ ¬part.toList <:+: s.toList := by
  simp only [occurrences, List.countP_eq_zero, List.mem_tails, List.isPrefixOf_iff_prefix,
    List.infix_iff_prefix_suffix]
  exact ⟨fun h ⟨behind, hstart, hend⟩ => h behind hend hstart,
    fun h behind hend hstart => h ⟨behind, hstart, hend⟩⟩

end Text

namespace Forbidden

variable {text left right : String}

/-! ## Arrows -/

theorem splitArrows_ne_nil (cs : List Char) : splitArrows cs ≠ [] := by
  fun_induction splitArrows cs with
  | case1 => simp
  | case2 rest ih => simp
  | case3 c rest _ ih =>
      rw [Text.consHead_eq c ih]
      simpa using ih

theorem length_splitArrows (text : String) :
    (splitArrows text.toList).length = Text.occurrences "->" text + 1 := by
  unfold Text.occurrences
  fun_induction splitArrows text.toList with
  | case1 => rfl
  | case2 rest ih => simp [ih]
  | case3 c rest hother ih =>
      rw [Text.consHead_eq c (splitArrows_ne_nil rest), List.length_modifyHead, ih, List.tails_cons,
        List.countP_cons_of_neg]
      -- An arrow at this place would have been cut at.
      intro hstart
      obtain ⟨behind, hbehind⟩ := List.isPrefixOf_iff_prefix.1 hstart
      obtain ⟨rfl, hrest⟩ := List.cons.inj hbehind
      exact hother behind rfl hrest.symm

theorem joinWith_splitArrows (cs : List Char) : Text.joinWith ['-', '>'] (splitArrows cs) = cs := by
  fun_induction splitArrows cs with
  | case1 => rfl
  | case2 rest ih =>
      rw [Text.joinWith_cons _ _ (splitArrows_ne_nil rest), ih]
      rfl
  | case3 c rest _ ih => rw [Text.joinWith_consHead _ c (splitArrows_ne_nil rest), ih]

/-- An arrow cuts a text also where the left side ends with a dash or the right side starts with the
tip of an arrow. -/
theorem splitArrows_append (left right : List Char) :
    splitArrows (left ++ '-' :: '>' :: right) = splitArrows left ++ splitArrows right := by
  fun_induction splitArrows left with
  | case1 => rfl
  | case2 rest ih => exact congrArg ([] :: ·) ih
  | case3 c rest hother ih =>
      rw [List.cons_append, splitArrows.eq_3, ih]
      · obtain ⟨piece, pieces, hpieces⟩ := List.exists_cons_of_ne_nil (splitArrows_ne_nil rest)
        rw [hpieces]
        rfl
      · -- An arrow at `c` would end within `left`, since the added one starts with a dash.
        intro behind hc hrest
        cases rest with
        | nil => cases hrest
        | cons d rest =>
            cases hrest
            exact hother rest hc rfl

theorem splitArrows_of_none (h : Text.occurrences "->" text = 0) :
    splitArrows text.toList = [text.toList] := by
  have hlength : (splitArrows text.toList).length = 1 := by rw [length_splitArrows, h]
  obtain ⟨piece, hpiece⟩ := List.length_eq_one_iff.1 hlength
  rw [hpiece, ← joinWith_splitArrows text.toList, hpiece, Text.joinWith]

theorem occurrences_append (left right : String) :
    Text.occurrences "->" (left ++ "->" ++ right) =
      Text.occurrences "->" left + Text.occurrences "->" right + 1 := by
  have hlength := length_splitArrows (left ++ "->" ++ right)
  have hsplit : splitArrows (left ++ "->" ++ right).toList =
      splitArrows left.toList ++ splitArrows right.toList := by
    simpa using splitArrows_append left.toList right.toList
  rw [hsplit, List.length_append, length_splitArrows, length_splitArrows] at hlength
  omega

/-! ## Sides -/

/-- A text with one arrow, and the texts in front of the arrow and behind it. -/
structure Sides (text left right : String) : Prop where
  once : Text.occurrences "->" text = 1
  eq_append : text = left ++ "->" ++ right

theorem sides_append (hleft : Text.occurrences "->" left = 0)
    (hright : Text.occurrences "->" right = 0) : Sides (left ++ "->" ++ right) left right :=
  ⟨by rw [occurrences_append, hleft, hright], rfl⟩

theorem Sides.no_arrows (h : Sides text left right) :
    Text.occurrences "->" left = 0 ∧ Text.occurrences "->" right = 0 := by
  have honce := h.once
  rw [h.eq_append, occurrences_append] at honce
  omega

theorem Sides.splitArrows_eq (h : Sides text left right) :
    splitArrows text.toList = [left.toList, right.toList] := by
  have hsplit := splitArrows_append left.toList right.toList
  rw [splitArrows_of_none h.no_arrows.1, splitArrows_of_none h.no_arrows.2] at hsplit
  simpa [h.eq_append] using hsplit

theorem exists_sides (h : Text.occurrences "->" text = 1) :
    ∃ left right, Sides text left right := by
  have hlength : (splitArrows text.toList).length = 2 := by rw [length_splitArrows, h]
  obtain ⟨left, right, hpieces⟩ := List.length_eq_two.1 hlength
  refine ⟨String.ofList left, String.ofList right, h, ?_⟩
  have hjoin := joinWith_splitArrows text.toList
  rw [hpieces] at hjoin
  rw [← String.toList_inj, ← hjoin]
  simp [Text.joinWith]

/-- What can stand on one side of the arrow. -/
structure IsSide (side : String) : Prop where
  ne_empty : side ≠ ""
  trimmed : Text.IsTrimmed side.toList
  no_arrow : Text.occurrences "->" side = 0

theorem isSide_trim (hnone : Text.occurrences "->" left = 0)
    (hblank : Text.isBlankText left = false) : IsSide (Text.trim left) where
  ne_empty := by
    rw [← Text.isEmpty_trimChars, ← Text.toList_trim] at hblank
    intro hempty
    simp [hempty] at hblank
  trimmed := by
    rw [Text.toList_trim]
    exact Text.isTrimmed_trimChars left.toList
  no_arrow := by
    obtain ⟨front, back, _, _, hleft⟩ := Text.exists_trim left
    rw [Text.occurrences_eq_zero_iff] at hnone ⊢
    intro hinner
    refine hnone (hinner.trans ⟨front.toList, back.toList, ?_⟩)
    rw [← String.toList_append, ← String.toList_append, ← hleft]

section Padded

variable {side front back : String} (h : IsSide side) (hfront : Text.isBlankText front = true)
  (hback : Text.isBlankText back = true)

include h hfront hback

theorem trim_padded : Text.trim (front ++ side ++ back) = side := by
  have hne : side.toList ≠ [] := by simpa using h.ne_empty
  rw [← String.toList_inj, Text.toList_trim, String.toList_append, String.toList_append]
  exact Text.trimChars_append h.trimmed hne (Text.isBlankText_iff.1 hfront)
    (Text.isBlankText_iff.1 hback)

theorem isBlankText_padded : Text.isBlankText (front ++ side ++ back) = false := by
  rw [← Text.isEmpty_trimChars, ← Text.toList_trim, trim_padded h hfront hback]
  simpa using h.ne_empty

/-- Blanks make no arrow, since neither character of an arrow is one. -/
theorem occurrences_padded : Text.occurrences "->" (front ++ side ++ back) = 0 := by
  have hnone := h.no_arrow
  rw [Text.occurrences_eq_zero_iff] at hnone ⊢
  rw [Text.isBlankText_iff] at hfront hback
  intro harrow
  rw [String.toList_append, String.toList_append, List.append_assoc] at harrow
  have hbehind : ['-', '>'] <:+: side.toList ++ back.toList :=
    (Text.infix_blanks_append_iff rfl hfront).1 harrow
  have hreverse : ['>', '-'] <:+: back.toList.reverse ++ side.toList.reverse := by
    rw [← List.reverse_append]
    exact List.reverse_infix.2 hbehind
  rw [Text.infix_blanks_append_iff rfl (by simpa using hback)] at hreverse
  exact hnone (List.reverse_infix.1 hreverse)

end Padded

/-! ## Reading -/

theorem parse_of_sides (h : Sides text left right) :
    Entry.parse text =
      if Text.isBlankText left || Text.isBlankText right then .error .emptySide
      else .ok ⟨Text.trim left, Text.trim right⟩ := by
  rw [Entry.parse, h.splitArrows_eq]
  simp only [Text.isEmpty_trimChars]
  rfl

theorem parse_of_other (h : Text.occurrences "->" text ≠ 1) : Entry.parse text = .error .arrow := by
  unfold Entry.parse
  split
  · rename_i hpieces
    have hlength := length_splitArrows text
    rw [hpieces] at hlength
    exact absurd (Nat.succ.inj hlength).symm h
  · rfl

theorem exists_sides_of_parse (h : Entry.parse text ≠ .error .arrow) :
    ∃ left right, Sides text left right := by
  refine exists_sides ?_
  by_contra hother
  exact h (parse_of_other hother)

theorem parse_eq_arrow_iff :
    Entry.parse text = .error .arrow ↔ Text.occurrences "->" text ≠ 1 := by
  refine ⟨fun h hone => ?_, parse_of_other⟩
  obtain ⟨left, right, hsides⟩ := exists_sides hone
  rw [parse_of_sides hsides] at h
  split at h <;> cases h

theorem parse_eq_emptySide_iff :
    Entry.parse text = .error .emptySide ↔ ∃ left right, Sides text left right ∧
      (Text.isBlankText left = true ∨ Text.isBlankText right = true) := by
  constructor
  · intro h
    obtain ⟨left, right, hsides⟩ := exists_sides_of_parse (h.trans_ne nofun)
    rw [parse_of_sides hsides] at h
    split at h
    · rename_i hblank
      exact ⟨left, right, hsides, Bool.or_eq_true_iff.1 hblank⟩
    · cases h
  · rintro ⟨left, right, hsides, hblank⟩
    rw [parse_of_sides hsides, if_pos (Bool.or_eq_true_iff.2 hblank)]

theorem parse_eq_ok_iff {entry : Entry} :
    Entry.parse text = .ok entry ↔ ∃ left right, Sides text left right ∧
      Text.isBlankText left = false ∧ Text.isBlankText right = false ∧
      entry = ⟨Text.trim left, Text.trim right⟩ := by
  constructor
  · intro h
    obtain ⟨left, right, hsides⟩ := exists_sides_of_parse (h.trans_ne nofun)
    rw [parse_of_sides hsides] at h
    split at h
    · cases h
    · rename_i hblank
      rw [Bool.or_eq_true, not_or, Bool.not_eq_true, Bool.not_eq_true] at hblank
      exact ⟨left, right, hsides, hblank.1, hblank.2, (Except.ok.inj h).symm⟩
  · rintro ⟨left, right, hsides, hleft, hright, rfl⟩
    rw [parse_of_sides hsides, hleft, hright]
    rfl

theorem parse_padded {entry : Entry} {w₁ w₂ w₃ w₄ : String} (hsource : IsSide entry.source)
    (htarget : IsSide entry.target) (h₁ : Text.isBlankText w₁ = true)
    (h₂ : Text.isBlankText w₂ = true) (h₃ : Text.isBlankText w₃ = true)
    (h₄ : Text.isBlankText w₄ = true) :
    Entry.parse (w₁ ++ entry.source ++ w₂ ++ "->" ++ (w₃ ++ entry.target ++ w₄)) = .ok entry := by
  refine parse_eq_ok_iff.2 ⟨_, _, sides_append (occurrences_padded hsource h₁ h₂)
    (occurrences_padded htarget h₃ h₄), isBlankText_padded hsource h₁ h₂,
    isBlankText_padded htarget h₃ h₄, ?_⟩
  rw [trim_padded hsource h₁ h₂, trim_padded htarget h₃ h₄]

theorem exists_padded {entry : Entry} (h : Entry.parse text = .ok entry) :
    IsSide entry.source ∧ IsSide entry.target ∧ ∃ w₁ w₂ w₃ w₄ : String,
      (∀ w ∈ [w₁, w₂, w₃, w₄], Text.isBlankText w = true) ∧
      text = w₁ ++ entry.source ++ w₂ ++ "->" ++ (w₃ ++ entry.target ++ w₄) := by
  obtain ⟨left, right, hsides, hleft, hright, rfl⟩ := parse_eq_ok_iff.1 h
  obtain ⟨w₁, w₂, h₁, h₂, hsource⟩ := Text.exists_trim left
  obtain ⟨w₃, w₄, h₃, h₄, htarget⟩ := Text.exists_trim right
  refine ⟨isSide_trim hsides.no_arrows.1 hleft, isSide_trim hsides.no_arrows.2 hright,
    w₁, w₂, w₃, w₄, ?_, ?_⟩
  · simp [h₁, h₂, h₃, h₄]
  · rw [← hsource, ← htarget]
    exact hsides.eq_append

/-- Reading fails without exactly one arrow, and with one if a side is blank; otherwise it gives the
two sides trimmed. The texts that are read as an entry are its two sides, blanks around each and an
arrow between them. -/
theorem parse_follows_grammar (text : String) :
    (Entry.parse text = .error .arrow ↔ Text.occurrences "->" text ≠ 1) ∧
    (Entry.parse text = .error .emptySide ↔ ∃ left right, Sides text left right ∧
      (Text.isBlankText left = true ∨ Text.isBlankText right = true)) ∧
    ∀ entry,
      (Entry.parse text = .ok entry ↔ ∃ left right, Sides text left right ∧
        Text.isBlankText left = false ∧ Text.isBlankText right = false ∧
        entry = ⟨Text.trim left, Text.trim right⟩) ∧
      (Entry.parse text = .ok entry ↔ IsSide entry.source ∧ IsSide entry.target ∧
        ∃ w₁ w₂ w₃ w₄ : String, (∀ w ∈ [w₁, w₂, w₃, w₄], Text.isBlankText w = true) ∧
          text = w₁ ++ entry.source ++ w₂ ++ "->" ++ (w₃ ++ entry.target ++ w₄)) := by
  refine ⟨parse_eq_arrow_iff, parse_eq_emptySide_iff, fun entry => ⟨parse_eq_ok_iff, ?_⟩⟩
  refine ⟨exists_padded, ?_⟩
  rintro ⟨hsource, htarget, w₁, w₂, w₃, w₄, hblank, rfl⟩
  simp only [List.forall_mem_cons] at hblank
  obtain ⟨h₁, h₂, h₃, h₄, _⟩ := hblank
  exact parse_padded hsource htarget h₁ h₂ h₃ h₄

example : Entry.parse " a-->>b " = .ok ⟨"a-", ">b"⟩ := rfl

end Forbidden

end LayerLint
