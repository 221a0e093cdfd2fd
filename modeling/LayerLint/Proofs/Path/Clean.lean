import LayerLint.Path
import LayerLint.Proofs.Text.Split

/-!
# Clean joins

Following segments leads to a place in normal form, and following what is written down for such a
place leads to it again. So a clean join is in normal form, and a join of a join is one join.
-/

namespace LayerLint.Path

variable {rooted : Bool} {place : List (List Char)} {segment : List Char}

/-! ## Places -/

/-- A place as following segments leaves it: the climbs are the outermost segments, and there are
none from the root. -/
structure Normal (rooted : Bool) (place : List (List Char)) : Prop where
  proper : ∀ segment ∈ place, segment ≠ [] ∧ segment ≠ here
  slashless : ∀ segment ∈ place, '/' ∉ segment
  climbs_outermost : place.Pairwise fun inner outer => inner = up → outer = up
  rooted_never_climbs : rooted = true → up ∉ place

theorem Normal.nil : Normal rooted [] where
  proper _ h := absurd h List.not_mem_nil
  slashless _ h := absurd h List.not_mem_nil
  climbs_outermost := .nil
  rooted_never_climbs _ := List.not_mem_nil

theorem Normal.tail (h : Normal rooted (segment :: place)) : Normal rooted place where
  proper _ hmem := h.proper _ (List.mem_cons_of_mem _ hmem)
  slashless _ hmem := h.slashless _ (List.mem_cons_of_mem _ hmem)
  climbs_outermost := h.climbs_outermost.tail
  rooted_never_climbs hrooted hup := h.rooted_never_climbs hrooted (List.mem_cons_of_mem _ hup)

theorem Normal.cons (h : Normal rooted place) (hproper : segment ≠ [] ∧ segment ≠ here)
    (hslash : '/' ∉ segment) (hup : segment = up → rooted = false ∧ ∀ outer ∈ place, outer = up) :
    Normal rooted (segment :: place) where
  proper := List.forall_mem_cons.2 ⟨hproper, h.proper⟩
  slashless := List.forall_mem_cons.2 ⟨hslash, h.slashless⟩
  climbs_outermost :=
    List.pairwise_cons.2 ⟨fun outer hmem heq => (hup heq).2 outer hmem, h.climbs_outermost⟩
  rooted_never_climbs := by
    intro hrooted hmem
    rcases List.mem_cons.1 hmem with hsegment | hmem
    · rw [(hup hsegment.symm).1] at hrooted
      cases hrooted
    · exact h.rooted_never_climbs hrooted hmem

theorem Normal.nil_notMem_reverse (h : Normal rooted place) : [] ∉ place.reverse := fun hmem =>
  (h.proper [] (List.mem_reverse.1 hmem)).1 rfl

/-- A climb that is innermost is one of climbs only. -/
theorem Normal.eq_up_of_head (h : Normal rooted place) (hhead : ∀ inner ∈ place.head?, inner = up) :
    ∀ outer ∈ place, outer = up := by
  cases place with
  | nil => exact fun _ hmem => absurd hmem List.not_mem_nil
  | cons inner place =>
      have hinner : inner = up := hhead inner rfl
      refine List.forall_mem_cons.2 ⟨hinner, fun outer hmem => ?_⟩
      exact (List.pairwise_cons.1 h.climbs_outermost).1 outer hmem hinner

/-! ## Following segments -/

/-- A segment is passed over, takes the innermost segment away, or becomes the innermost one. -/
theorem follow_cases (rooted : Bool) (place : List (List Char)) (segment : List Char) :
    follow rooted place segment = place ∨
      (∃ inner, place = inner :: follow rooted place segment) ∨
      follow rooted place segment = segment :: place ∧ segment ≠ [] ∧ segment ≠ here ∧
        (segment = up → rooted = false ∧ ∀ inner ∈ place.head?, inner = up) := by
  unfold follow
  split
  · exact Or.inl rfl
  · rename_i hproper
    rw [not_or] at hproper
    split
    · rename_i hup
      cases place with
      | nil => cases rooted <;> simp [hup, up, here]
      | cons inner outer =>
          by_cases hinner : inner = up
          · cases rooted <;> simp [hup, hinner, up, here]
          · simp [hinner]
    · rename_i hup
      exact Or.inr (Or.inr ⟨rfl, hproper.1, hproper.2, fun h => absurd h hup⟩)

theorem Normal.follow (h : Normal rooted place) (hslash : '/' ∉ segment) :
    Normal rooted (follow rooted place segment) := by
  rcases follow_cases rooted place segment with hsame | ⟨inner, htaken⟩ | ⟨hput, hne, hhere, hup⟩
  · rwa [hsame]
  · rw [htaken] at h
    exact h.tail
  · rw [hput]
    refine h.cons ⟨hne, hhere⟩ hslash fun hsegment => ?_
    exact ⟨(hup hsegment).1, h.eq_up_of_head (hup hsegment).2⟩

theorem Normal.foldl_follow (h : Normal rooted place) {segments : List (List Char)}
    (hslash : ∀ segment ∈ segments, '/' ∉ segment) :
    Normal rooted (segments.foldl (Path.follow rooted) place) := by
  induction segments generalizing place with
  | nil => exact h
  | cons segment segments ih =>
      obtain ⟨hsegment, hsegments⟩ := List.forall_mem_cons.1 hslash
      exact ih (h.follow hsegment) hsegments

theorem Normal.follow_head (h : Normal rooted (segment :: place)) :
    Path.follow rooted place segment = segment :: place := by
  obtain ⟨hne, hhere⟩ := h.proper segment List.mem_cons_self
  unfold Path.follow
  rw [if_neg (not_or.2 ⟨hne, hhere⟩)]
  split
  · rename_i hup
    have hrooted : rooted = false := by
      cases rooted with
      | false => rfl
      | true => exact absurd (hup ▸ List.mem_cons_self) (h.rooted_never_climbs rfl)
    cases place with
    | nil => simp [hrooted, hup]
    | cons inner outer =>
        have hinner : inner = up :=
          (List.pairwise_cons.1 h.climbs_outermost).1 inner List.mem_cons_self hup
        simp [hrooted, hup, hinner]
  · rfl

/-- The segments of a normal place lead to it. -/
theorem Normal.foldl_reverse (h : Normal rooted place) :
    place.reverse.foldl (Path.follow rooted) [] = place := by
  induction place with
  | nil => rfl
  | cons segment place ih =>
      rw [List.reverse_cons, List.foldl_append, ih h.tail]
      exact h.follow_head

/-! ## Writing places down -/

/-- The segments of a path, without what stands before the slash of a rooted one. -/
def segments (path : List Char) : List (List Char) :=
  Text.splitOn '/' (if path.head? = some '/' then path.tail else path)

theorem Normal.splitOn_body (h : Normal rooted place) (hne : place ≠ []) :
    Text.splitOn '/' (Text.joinWith ['/'] place.reverse) = place.reverse :=
  Text.splitOn_joinWith (by simpa using hne) fun segment hmem =>
    h.slashless segment (List.mem_reverse.1 hmem)

theorem Normal.head?_body (h : Normal rooted place) :
    (Text.joinWith ['/'] place.reverse).head? ≠ some '/' := by
  cases hbody : Text.joinWith ['/'] place.reverse with
  | nil => simp
  | cons c body =>
      -- A slash in front would make the outermost segment empty.
      intro hc
      obtain rfl : c = '/' := by simpa using hc
      have hne : place ≠ [] := by
        rintro rfl
        cases hbody
      apply h.nil_notMem_reverse
      rw [← h.splitOn_body hne, hbody]
      simp [Text.splitOn]

theorem Normal.render_relative (h : Normal false place) (hne : place ≠ []) :
    render false place = Text.joinWith ['/'] place.reverse := by
  have hbody : Text.joinWith ['/'] place.reverse ≠ [] := by
    intro hnil
    apply h.nil_notMem_reverse
    rw [← h.splitOn_body hne, hnil]
    exact List.mem_singleton_self []
  simp [render, hbody]

theorem Normal.head?_render (h : Normal rooted place) :
    (render rooted place).head? = some '/' ↔ rooted = true := by
  cases rooted with
  | true => simp [render]
  | false =>
      by_cases hne : place = []
      · subst hne
        decide
      · rw [h.render_relative hne]
        simpa using h.head?_body

theorem Normal.segments_render (h : Normal rooted place) (hne : place ≠ []) :
    segments (render rooted place) = place.reverse := by
  cases rooted with
  | true => exact h.splitOn_body hne
  | false =>
      rw [segments, if_neg (by simp [h.head?_render]), h.render_relative hne, h.splitOn_body hne]

/-- What is written down for a normal place leads to it again. -/
theorem Normal.foldl_render (h : Normal rooted place) :
    (Text.splitOn '/' (render rooted place)).foldl (Path.follow rooted) [] = place := by
  by_cases hne : place = []
  · subst hne
    cases rooted <;> decide
  · cases rooted with
    | true =>
        have hskip : Path.follow true [] [] = [] := rfl
        rw [render, if_pos rfl, Text.splitOn, if_pos rfl, h.splitOn_body hne, List.foldl_cons,
          hskip, h.foldl_reverse]
    | false => rw [h.render_relative hne, h.splitOn_body hne, h.foldl_reverse]

theorem render_ne_nil (rooted : Bool) (place : List (List Char)) : render rooted place ≠ [] := by
  cases rooted with
  | true => simp [render]
  | false =>
      rw [render, if_neg Bool.false_ne_true]
      split
      · exact List.cons_ne_nil '.' []
      · rename_i hbody
        rwa [List.isEmpty_iff] at hbody

/-! ## Joins -/

/-- The place that following `rel` from `dir` leads to. -/
def joined (dir rel : List Char) : List (List Char) :=
  (Text.splitOn '/' dir ++ Text.splitOn '/' rel).foldl (follow (isRooted dir rel)) []

theorem joinCleanChars_eq (dir rel : List Char) :
    joinCleanChars dir rel = render (isRooted dir rel) (joined dir rel) :=
  rfl

theorem normal_joined (dir rel : List Char) : Normal (isRooted dir rel) (joined dir rel) := by
  refine Normal.nil.foldl_follow fun segment hmem => ?_
  rcases List.mem_append.1 hmem with hmem | hmem
  · exact Text.notMem_of_mem_splitOn hmem
  · exact Text.notMem_of_mem_splitOn hmem

theorem isRooted_iff {dir rel : List Char} :
    isRooted dir rel = true ↔ dir.head? = some '/' ∨ dir = [] ∧ rel.head? = some '/' := by
  simp [isRooted]

theorem isRooted_joinCleanChars (dir rel more : List Char) :
    isRooted (joinCleanChars dir rel) more = isRooted dir rel := by
  rw [Bool.eq_iff_iff, isRooted_iff, joinCleanChars_eq, (normal_joined dir rel).head?_render]
  simp [render_ne_nil]

theorem isRooted_append {dir rel : List Char} (h : ¬(dir = [] ∧ rel = [])) (more : List Char) :
    isRooted dir (rel ++ more) = isRooted dir rel := by
  cases dir with
  | nil =>
      cases rel with
      | nil => exact absurd ⟨rfl, rfl⟩ h
      | cons c rel => rfl
  | cons c dir => rfl

theorem joined_append {dir rel : List Char} (h : ¬(dir = [] ∧ rel = [])) (more : List Char) :
    joined dir (rel ++ '/' :: more) =
      (Text.splitOn '/' more).foldl (follow (isRooted dir rel)) (joined dir rel) := by
  rw [joined, isRooted_append h, Text.splitOn_append_cons, ← List.append_assoc, List.foldl_append]
  rfl

theorem joined_joinCleanChars (dir rel more : List Char) :
    joined (joinCleanChars dir rel) more =
      (Text.splitOn '/' more).foldl (follow (isRooted dir rel)) (joined dir rel) := by
  rw [joined, isRooted_joinCleanChars, List.foldl_append, joinCleanChars_eq,
    (normal_joined dir rel).foldl_render]

theorem joinCleanChars_joinCleanChars {dir rel : List Char} (h : ¬(dir = [] ∧ rel = []))
    (more : List Char) :
    joinCleanChars (joinCleanChars dir rel) more = joinCleanChars dir (rel ++ '/' :: more) := by
  rw [joinCleanChars_eq (joinCleanChars dir rel), isRooted_joinCleanChars, joined_joinCleanChars,
    joinCleanChars_eq dir (rel ++ '/' :: more), isRooted_append h, joined_append h]

theorem toList_joinClean (dir rel : String) :
    (joinClean dir rel).toList = joinCleanChars dir.toList rel.toList :=
  String.toList_ofList

theorem joined_ne_nil {dir rel : String} (hhere : joinClean dir rel ≠ ".")
    (hroot : joinClean dir rel ≠ "/") : joined dir.toList rel.toList ≠ [] := by
  intro hnil
  have hjoin : joinClean dir rel = String.ofList (render (isRooted dir.toList rel.toList) []) := by
    rw [joinClean, joinCleanChars_eq, hnil]
  cases hrooted : isRooted dir.toList rel.toList with
  | false => exact hhere (by rw [hjoin, hrooted]; decide)
  | true => exact hroot (by rw [hjoin, hrooted]; decide)

/-- A join is rooted if the directory is, or what is followed from an empty one. Other than `.` and
`/`, it has no empty and no `.` segment, and climbs only in front and not from the root. Joining
more to a join is joining both at once. -/
theorem joinClean_normalizes_and_composes (dir rel : String) :
    ((joinClean dir rel).toList.head? = some '/' ↔
      dir.toList.head? = some '/' ∨ dir = "" ∧ rel.toList.head? = some '/') ∧
    (joinClean dir rel ≠ "." → joinClean dir rel ≠ "/" →
      (∀ segment ∈ segments (joinClean dir rel).toList, segment ≠ [] ∧ segment ≠ here) ∧
      (up ∈ segments (joinClean dir rel).toList → (joinClean dir rel).toList.head? ≠ some '/') ∧
      (segments (joinClean dir rel).toList).Pairwise fun outer inner => inner = up → outer = up) ∧
    ∀ more : String, ¬(dir = "" ∧ rel = "") →
      joinClean (joinClean dir rel) more = joinClean dir (rel ++ "/" ++ more) := by
  have hnormal := normal_joined dir.toList rel.toList
  refine ⟨?_, fun hhere hroot => ?_, fun more hstart => ?_⟩
  · rw [toList_joinClean, joinCleanChars_eq, hnormal.head?_render, isRooted_iff,
      String.toList_eq_nil_iff]
  · have hsegments : segments (joinClean dir rel).toList =
        (joined dir.toList rel.toList).reverse := by
      rw [toList_joinClean, joinCleanChars_eq, hnormal.segments_render (joined_ne_nil hhere hroot)]
    rw [hsegments]
    refine ⟨fun segment hmem => hnormal.proper segment (List.mem_reverse.1 hmem), ?_,
      List.pairwise_reverse.2 hnormal.climbs_outermost⟩
    intro hclimb
    rw [toList_joinClean, joinCleanChars_eq, Ne, hnormal.head?_render]
    exact fun hrooted => hnormal.rooted_never_climbs hrooted (List.mem_reverse.1 hclimb)
  · have hchars : ¬(dir.toList = [] ∧ rel.toList = []) := by
      simpa only [String.toList_eq_nil_iff] using hstart
    apply String.toList_injective
    simp only [toList_joinClean, joinCleanChars_joinCleanChars hchars, String.toList_append]
    rw [List.append_assoc]
    rfl

theorem joinClean_normalizes_and_composes_climb :
    joinClean "a//b" "../../../c/." = "../c" ∧
    (segments (joinClean "a//b" "../../../c/.").toList).Pairwise
      (fun outer inner => inner = up → outer = up) ∧
    segments (joinClean "a//b" "../../../c/.").toList = [up, ['c']] ∧
    joinClean (joinClean "a//b" "../../../c/.") "/../d" =
      joinClean "a//b" "../../../c/.//../d" := by
  obtain ⟨_, hclean, hmore⟩ := joinClean_normalizes_and_composes "a//b" "../../../c/."
  exact ⟨by decide +kernel, (hclean (by decide +kernel) (by decide +kernel)).2.2,
    by decide +kernel, hmore "/../d" (by decide)⟩

end LayerLint.Path
