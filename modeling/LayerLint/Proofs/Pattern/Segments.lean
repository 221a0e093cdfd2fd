import Mathlib.Data.List.Forall2
import Mathlib.Data.List.SplitBy
import LayerLint.Pattern.Basic
import LayerLint.Proofs.Path.Basic
import LayerLint.Proofs.Pattern.Glob

/-!
# Globs by segments

No star reaches over a slash, so a glob without classes matches a path segment by segment. A glob of
a single segment is about the base name.
-/

namespace LayerLint.Pattern

variable {c : Char} {cs glob text : List Char}

/-- Whether a segment of a glob stands for a segment of a path: a star stands for any characters, a
question mark for any one, and every other character for itself. -/
def Covers : (glob text : List Char) → Prop
  | [], text => text = []
  | c :: glob, text =>
    if c = '*' then ∃ skipped rest, text = skipped ++ rest ∧ Covers glob rest
    else ∃ d rest, text = d :: rest ∧ (c = '?' ∨ d = c) ∧ Covers glob rest

/-- The glob with each unbroken row of stars written as one star. -/
def singleStars (glob : List Char) : List Char :=
  (glob.splitBy fun c d => c == '*' && d == '*').flatMap (·.take 1)

/-! ## Rows of stars -/

/-- The groups of related neighbours, with one more item in front that belongs to the first. -/
theorem exists_splitBy_cons {α : Type} {r : α → α → Bool} {a b : α} (l : List α)
    (h : r a b = true) : ∃ group groups, (b :: l).splitBy r = (b :: group) :: groups ∧
      (a :: b :: l).splitBy r = (a :: b :: group) :: groups := by
  have hne : (b :: l).splitBy r ≠ [] := List.splitBy_ne_nil.2 (List.cons_ne_nil b l)
  obtain ⟨first, groups, hsplit⟩ := List.exists_cons_of_ne_nil hne
  obtain ⟨hflat, hnil, hchain, hbreak⟩ := List.splitBy_eq_iff.1 hsplit
  cases first with
  | nil => exact absurd List.mem_cons_self hnil
  | cons b' group =>
      obtain ⟨rfl, rfl⟩ := List.cons.inj hflat
      refine ⟨group, groups, hsplit, List.splitBy_eq_iff.2 ⟨rfl, ?_, ?_, ?_⟩⟩
      · simpa using hnil
      · obtain ⟨hfirst, hothers⟩ := List.forall_mem_cons.1 hchain
        exact List.forall_mem_cons.2 ⟨List.isChain_cons_cons.2 ⟨h, hfirst⟩, hothers⟩
      · simpa [List.isChain_cons] using hbreak

theorem singleStars_cons_star (h : cs.head? = some '*') :
    singleStars ('*' :: cs) = singleStars cs := by
  obtain ⟨rest, rfl⟩ := List.head?_eq_some_iff.1 h
  obtain ⟨group, groups, hsplit, hmore⟩ :=
    exists_splitBy_cons (r := fun c d => c == '*' && d == '*') (a := '*') (b := '*') rest rfl
  rw [singleStars, singleStars, hsplit, hmore]
  rfl

theorem singleStars_cons (h : ¬(c = '*' ∧ cs.head? = some '*')) :
    singleStars (c :: cs) = c :: singleStars cs := by
  have hapart : ([c] ++ cs).splitBy (fun c d => c == '*' && d == '*') =
      [[c]] ++ cs.splitBy (fun c d => c == '*' && d == '*') := by
    refine List.splitBy_append fun x hx y hy => ?_
    obtain rfl : c = x := by simpa using hx
    by_contra hstars
    simp only [Bool.not_eq_false, Bool.and_eq_true, beq_iff_eq] at hstars
    exact h ⟨hstars.1, hstars.2 ▸ hy⟩
  simp only [List.singleton_append] at hapart
  rw [singleStars, hapart]
  rfl

theorem collapseStars_eq (glob : List Char) : collapseStars glob = singleStars glob := by
  induction glob with
  | nil => rfl
  | cons c cs ih =>
      rw [collapseStars, ih]
      split
      · rename_i h
        rw [h.1, singleStars_cons_star h.2]
      · rename_i h
        rw [singleStars_cons h]

theorem collapseStars_sublist (glob : List Char) : (collapseStars glob).Sublist glob := by
  induction glob with
  | nil => exact .slnil
  | cons c cs ih =>
      rw [collapseStars]
      split
      · exact ih.cons c
      · exact ih.cons_cons c

/-! ## One segment -/

/-- What a segment stands for has no slash. -/
theorem matches_segment_iff (h : '/' ∉ glob) :
    Matches (glob.map Token.ofChar) text ↔ '/' ∉ text ∧ Covers glob text := by
  induction glob generalizing text with
  | nil =>
      rw [List.map_nil, matches_nil_iff, Covers]
      constructor
      · rintro rfl
        exact ⟨List.not_mem_nil, rfl⟩
      · exact And.right
  | cons c glob ih =>
      rw [List.mem_cons, not_or] at h
      rw [List.map_cons, Covers]
      by_cases hstar : c = '*'
      · have hrun : Token.ofChar c = .run := by rw [hstar]; rfl
        simp only [hrun, matches_run_iff, ih h.2, if_pos hstar]
        constructor
        · rintro ⟨skipped, rest, rfl, hskipped, hrest, hcovers⟩
          exact ⟨by simpa using ⟨hskipped, hrest⟩, skipped, rest, rfl, hcovers⟩
        · rintro ⟨hslash, skipped, rest, rfl, hcovers⟩
          rw [List.mem_append, not_or] at hslash
          exact ⟨skipped, rest, rfl, hslash.1, hslash.2, hcovers⟩
      · simp only [matches_one_iff (Token.ofChar_ne_run hstar), ih h.2, if_neg hstar,
          Token.admits_ofChar hstar (Ne.symm h.1)]
        constructor
        · rintro ⟨d, rest, rfl, ⟨hd, hsame⟩, hrest, hcovers⟩
          exact ⟨by simpa using ⟨Ne.symm hd, hrest⟩, d, rest, rfl, hsame, hcovers⟩
        · rintro ⟨hslash, d, rest, rfl, hsame, hcovers⟩
          rw [List.mem_cons, not_or] at hslash
          exact ⟨d, rest, rfl, ⟨Ne.symm hslash.1, hsame⟩, hslash.2, hcovers⟩

/-! ## All segments -/

theorem forall₂_singleton_splitOn :
    List.Forall₂ Covers [glob] (Text.splitOn '/' text) ↔ '/' ∉ text ∧ Covers glob text := by
  constructor
  · intro h
    obtain ⟨piece, pieces, hcovers, hnil, hsplit⟩ := List.forall₂_cons_left_iff.1 h
    obtain rfl := List.forall₂_nil_left_iff.1 hnil
    obtain ⟨rfl, hslash⟩ := Text.eq_of_splitOn_singleton hsplit
    exact ⟨hslash, hcovers⟩
  · rintro ⟨hslash, hcovers⟩
    rw [Text.splitOn_of_notMem hslash]
    exact .cons hcovers .nil

theorem matches_slash_iff {tokens : List Token} :
    Matches (Token.ofChar '/' :: tokens) text ↔
      ∃ rest, text = '/' :: rest ∧ Matches tokens rest := by
  rw [matches_one_iff (Token.ofChar_ne_run (by decide))]
  constructor
  · rintro ⟨c, rest, rfl, hc, hrest⟩
    obtain rfl : c = '/' := by simpa [Token.ofChar, Token.admits] using hc
    exact ⟨rest, rfl, hrest⟩
  · rintro ⟨rest, rfl, hrest⟩
    exact ⟨'/', rest, rfl, rfl, hrest⟩

/-- The first segment of a glob takes the text up to the first slash. -/
theorem forall₂_cons_splitOn {segment : List Char} {segments : List (List Char)}
    (hne : segments ≠ []) :
    List.Forall₂ Covers (segment :: segments) (Text.splitOn '/' text) ↔
      ∃ front rest, text = front ++ '/' :: rest ∧ ('/' ∉ front ∧ Covers segment front) ∧
        List.Forall₂ Covers segments (Text.splitOn '/' rest) := by
  constructor
  · intro h
    obtain ⟨front, pieces, hcovers, hrest, hsplit⟩ := List.forall₂_cons_left_iff.1 h
    have hslash : ∀ piece ∈ front :: pieces, '/' ∉ piece := fun piece hpiece =>
      Text.notMem_of_mem_splitOn (hsplit ▸ hpiece)
    obtain ⟨hfront, hpieces⟩ := List.forall_mem_cons.1 hslash
    cases pieces with
    | nil => exact absurd (List.forall₂_nil_right_iff.1 hrest) hne
    | cons piece pieces =>
        refine ⟨front, Text.joinWith ['/'] (piece :: pieces), ?_, ⟨hfront, hcovers⟩, ?_⟩
        · rw [← Text.joinWith_splitOn '/' text, hsplit,
            Text.joinWith_cons ['/'] front (List.cons_ne_nil _ _), List.append_assoc]
          rfl
        · rwa [Text.splitOn_joinWith (List.cons_ne_nil _ _) hpieces]
  · rintro ⟨front, rest, rfl, ⟨hfront, hcovers⟩, hrest⟩
    rw [Text.splitOn_append_cons, Text.splitOn_of_notMem hfront]
    exact .cons hcovers hrest

theorem matches_joinWith_iff {segments : List (List Char)} (hne : segments ≠ [])
    (hslash : ∀ segment ∈ segments, '/' ∉ segment) :
    Matches ((Text.joinWith ['/'] segments).map Token.ofChar) text ↔
      List.Forall₂ Covers segments (Text.splitOn '/' text) := by
  -- By induction on the segments of the glob: only its own first slash ends what the first takes.
  induction segments generalizing text with
  | nil => exact absurd rfl hne
  | cons segment segments ih =>
      obtain ⟨hsegment, hsegments⟩ := List.forall_mem_cons.1 hslash
      cases segments with
      | nil => rw [Text.joinWith, matches_segment_iff hsegment, forall₂_singleton_splitOn]
      | cons next segments =>
          rw [Text.joinWith_cons ['/'] segment (List.cons_ne_nil _ _), List.append_assoc,
            List.singleton_append, List.map_append, List.map_cons, matches_append_iff,
            forall₂_cons_splitOn (List.cons_ne_nil _ _)]
          simp only [matches_segment_iff hsegment, matches_slash_iff,
            ih (List.cons_ne_nil _ _) hsegments]
          constructor
          · rintro ⟨front, _, rfl, hfront, rest, rfl, hrest⟩
            exact ⟨front, rest, rfl, hfront, hrest⟩
          · rintro ⟨front, rest, rfl, hfront, hrest⟩
            exact ⟨front, '/' :: rest, rfl, hfront, rest, rfl, hrest⟩

theorem matches_iff_segments : Matches (glob.map Token.ofChar) text ↔
    List.Forall₂ Covers (Text.splitOn '/' glob) (Text.splitOn '/' text) := by
  conv_lhs => rw [← Text.joinWith_splitOn '/' glob]
  exact matches_joinWith_iff (Text.splitOn_ne_nil '/' glob) fun _ => Text.notMem_of_mem_splitOn

/-! ## Patterns that are globs -/

theorem read_glob {pattern : String} (hunder : ¬"/**".toList <:+ (Path.slashed pattern).toList)
    (hending : ¬"**/".toList <+: (Path.slashed pattern).toList)
    (hclass : '[' ∉ (Path.slashed pattern).toList) :
    read pattern = .glob ((singleStars (Path.slashed pattern).toList).map Token.ofChar) := by
  have hstem : ['/', '*', '*'].isSuffixOf? (Path.slashed pattern).toList = none := by
    refine Option.eq_none_iff_forall_ne_some.2 fun stem hstem => hunder ?_
    exact ⟨stem, List.isSuffixOf?_eq_some_iff_append_eq.1 hstem⟩
  have htext : ['*', '*', '/'].isPrefixOf? (Path.slashed pattern).toList = none := by
    refine Option.eq_none_iff_forall_ne_some.2 fun text htext => hending ?_
    exact ⟨text, List.isPrefixOf?_eq_some_iff_append_eq.1 htext⟩
  have htokens : readTokens (singleStars (Path.slashed pattern).toList) =
      some ((singleStars (Path.slashed pattern).toList).map Token.ofChar) := by
    refine readTokens_eq fun h => hclass ?_
    rw [← collapseStars_eq] at h
    exact (collapseStars_sublist _).subset h
  simp only [read, hstem, htext, collapseStars_eq, htokens, Option.elim_some]

theorem isMatch_glob_iff {pattern : String} {glob : List Char} (path : String)
    (h : read pattern = .glob (glob.map Token.ofChar)) :
    isMatch path pattern = true ↔
      Matches (glob.map Token.ofChar) (Path.baseName (Path.slashed path)).toList ∨
        Matches (glob.map Token.ofChar) (Path.slashed path).toList := by
  rw [isMatch, h, accepts, Bool.or_eq_true, tokensMatch_iff, tokensMatch_iff]

/-- A pattern that is neither `stem/**` nor `**/ending` and opens no class is a glob, in which a row
of stars is one star. Without a slash it stands for base names. With slashes it stands for the paths
of as many segments that its segments cover one by one. -/
theorem globs_match_by_segments (path pattern : String)
    (hunder : ¬"/**".toList <:+ (Path.slashed pattern).toList)
    (hending : ¬"**/".toList <+: (Path.slashed pattern).toList)
    (hclass : '[' ∉ (Path.slashed pattern).toList)
    {glob : List Char} (hglob : glob = singleStars (Path.slashed pattern).toList) :
    ('/' ∉ glob → (isMatch path pattern = true ↔
      Covers glob (Path.baseName (Path.slashed path)).toList)) ∧
    ('/' ∈ glob → (isMatch path pattern = true ↔
      List.Forall₂ Covers (Text.splitOn '/' glob)
        (Text.splitOn '/' (Path.slashed path).toList))) := by
  have hmatch := isMatch_glob_iff path (hglob ▸ read_glob hunder hending hclass)
  have hbase := Path.slashless_baseName (Path.slashed path)
  rw [hmatch]
  constructor
  · intro hslash
    rw [matches_segment_iff hslash, matches_segment_iff hslash]
    constructor
    · rintro (⟨_, hcovers⟩ | ⟨hpath, hcovers⟩)
      · exact hcovers
      · rwa [Path.baseName_eq_self hpath]
    · intro hcovers
      exact Or.inl ⟨hbase, hcovers⟩
  · intro hslash
    rw [matches_iff_segments, matches_iff_segments, Text.splitOn_of_notMem hbase]
    -- A base name is one segment, so the glob would have no slash.
    refine ⟨fun h => h.resolve_left fun hname => ?_, Or.inr⟩
    obtain ⟨segment, segments, _, hnil, hsplit⟩ := List.forall₂_cons_right_iff.1 hname
    obtain rfl := List.forall₂_nil_right_iff.1 hnil
    exact (Text.eq_of_splitOn_singleton hsplit).2 hslash

theorem globs_match_by_segments_version :
    isMatch "src/api/v1_test.go" "src\\***/v?**.go" = true ∧
    List.Forall₂ Covers ["src".toList, "*".toList, "v?*.go".toList]
      ["src".toList, "api".toList, "v1_test.go".toList] ∧
    isMatch "src/api/v1_test.go" "**_test.go" = true ∧
    Covers "*_test.go".toList "v1_test.go".toList := by
  obtain ⟨_, hpath⟩ := globs_match_by_segments "src/api/v1_test.go" "src\\***/v?**.go"
    (by decide +kernel) (by decide +kernel) (by decide +kernel) rfl
  obtain ⟨hbase, _⟩ := globs_match_by_segments "src/api/v1_test.go" "**_test.go"
    (by decide +kernel) (by decide +kernel) (by decide +kernel) rfl
  have hwhole : isMatch "src/api/v1_test.go" "src\\***/v?**.go" = true := by decide +kernel
  have hname : isMatch "src/api/v1_test.go" "**_test.go" = true := by decide +kernel
  exact ⟨hwhole, (hpath (by decide +kernel)).1 hwhole, hname, (hbase (by decide +kernel)).1 hname⟩

end LayerLint.Pattern
