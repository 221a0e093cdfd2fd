import Mathlib.Data.List.DropRight
import LayerLint.Disk.Location
import LayerLint.Proofs.Text.Split

/-!
# Chains of parents

A parent is written as a proper start of its path, so the chain of parents ends, and the bound on
its length is never met. The parents of a path that is put together from names are the paths it was
put together from.
-/

namespace LayerLint.Location

variable {path dir name : String} {segments : List (List Char)}

/-! ## Parents -/

theorem cutLead_append (cs : List Char) : (cutLead cs).1 ++ (cutLead cs).2 = cs := by
  unfold cutLead
  split <;> rfl

theorem prefix_trimIdle (segments : List (List Char)) : trimIdle segments <+: segments :=
  List.rdropWhile_prefix isIdle segments

theorem getLast_trimIdle_ne_nil (h : trimIdle segments ≠ []) :
    (trimIdle segments).getLast h ≠ [] := by
  intro hnil
  refine List.rdropWhile_last_not isIdle segments h ?_
  exact (congrArg isIdle hnil).trans rfl

theorem prefix_joinWith_trimIdle (segments : List (List Char)) :
    Text.joinWith ['/'] (trimIdle segments) <+: Text.joinWith ['/'] segments := by
  obtain ⟨idle, hidle⟩ := prefix_trimIdle segments
  have hprefix := Text.prefix_joinWith ['/'] (trimIdle segments) idle
  rwa [hidle] at hprefix

/-- The last segment is not empty, so the text is shorter without it. -/
theorem length_joinWith_dropLast_lt (h : trimIdle segments ≠ []) :
    (Text.joinWith ['/'] (trimIdle segments).dropLast).length <
      (Text.joinWith ['/'] (trimIdle segments)).length := by
  have hlast := List.length_pos_of_ne_nil (getLast_trimIdle_ne_nil h)
  have hsplit := List.dropLast_append_getLast h
  have hjoin := Text.joinWith_append_last ['/'] (trimIdle segments).dropLast []
    ((trimIdle segments).getLast h)
  rw [List.nil_append, hsplit] at hjoin
  have hprefix := (Text.prefix_joinWith ['/'] (trimIdle segments).dropLast [[]]).length_le
  rw [hjoin, List.length_append]
  omega

theorem length_parent?_lt (h : parent? path = some dir) : dir.length < path.length := by
  have hpath := cutLead_append path.toList
  have hrest : (Text.joinWith ['/'] (trimIdle (Text.splitOn '/' (cutLead path.toList).2))).length ≤
      (cutLead path.toList).2.length := by
    have hprefix := prefix_joinWith_trimIdle (Text.splitOn '/' (cutLead path.toList).2)
    rw [Text.joinWith_splitOn] at hprefix
    exact hprefix.length_le
  rw [← String.length_toList, ← String.length_toList, ← hpath, List.length_append]
  unfold parent? at h
  dsimp only at h
  split at h
  · split at h
    · rename_i hlead
      obtain rfl := Option.some.inj h
      rw [hlead, String.toList_empty, List.length_nil, List.length_singleton]
      omega
    · cases h
  · rename_i hne
    obtain rfl := Option.some.inj h
    have hlt := length_joinWith_dropLast_lt hne
    have hle := (prefix_joinWith_trimIdle
      (trimIdle (Text.splitOn '/' (cutLead path.toList).2)).dropLast).length_le
    rw [String.toList_ofList, List.length_append]
    omega

/-! ## Ancestors -/

/-- The list of a path, its parent, and so on up to one that has no parent. -/
inductive IsAncestry : String → List String → Prop where
  | top {path : String} (h : parent? path = none) : IsAncestry path [path]
  | up {path dir : String} {dirs : List String} (h : parent? path = some dir)
      (hdirs : IsAncestry dir dirs) : IsAncestry path (path :: dirs)

theorem isAncestry_chain {bound : Nat} (h : path.length ≤ bound) :
    IsAncestry path (chain bound path) := by
  induction bound generalizing path with
  | zero =>
      cases hparent : parent? path with
      | none => exact .top hparent
      | some dir =>
          have hlt := length_parent?_lt hparent
          omega
  | succ bound ih =>
      rw [chain]
      cases hparent : parent? path with
      | none => exact .top hparent
      | some dir =>
          have hlt := length_parent?_lt hparent
          exact .up hparent (ih (by omega))

theorem isAncestry_ancestors (path : String) : IsAncestry path (ancestors path) :=
  isAncestry_chain (Nat.le_refl _)

theorem IsAncestry.unique {dirs dirs' : List String} (h : IsAncestry path dirs)
    (h' : IsAncestry path dirs') : dirs = dirs' := by
  induction h generalizing dirs' with
  | top htop =>
      cases h' with
      | top => rfl
      | up hparent => cases htop.symm.trans hparent
  | up hparent _ ih =>
      cases h' with
      | top htop => cases htop.symm.trans hparent
      | up hparent' hdirs' =>
          obtain rfl := Option.some.inj (hparent.symm.trans hparent')
          rw [ih hdirs']

/-! ## Paths put together -/

/-- A name, of one segment that leads somewhere. -/
structure IsName (name : String) : Prop where
  slashless : '/' ∉ name.toList
  busy : isIdle name.toList = false

/-- A path put together from names, below the root, the working directory or nothing. -/
inductive IsJoined : String → Prop where
  | nothing : IsJoined ""
  | root : IsJoined "/"
  | here : IsJoined "."
  | down {dir name : String} (hdir : IsJoined dir) (hname : IsName name) :
      IsJoined (below dir name)

theorem IsName.toList_ne_nil (h : IsName name) : name.toList ≠ [] := by
  intro hnil
  have hbusy := h.busy
  rw [hnil] at hbusy
  cases hbusy

theorem IsName.trimIdle_append (h : IsName name) (segments : List (List Char)) :
    trimIdle (segments ++ [name.toList]) = segments ++ [name.toList] := by
  have hbusy := h.busy
  simp [trimIdle, hbusy]

theorem IsName.cutLead_toList (h : IsName name) : cutLead name.toList = ([], name.toList) := by
  have hslash := h.slashless
  have hbusy := h.busy
  unfold cutLead
  split
  · rename_i heq
    simp [heq] at hslash
  · rename_i heq
    rw [heq] at hbusy
    cases hbusy
  · rename_i heq
    simp [heq] at hslash
  · rfl

theorem IsName.getLast?_ne_slash (h : IsName name) (front : List Char) :
    (front ++ name.toList).getLast? ≠ some '/' := by
  rw [List.getLast?_append_of_ne_nil _ h.toList_ne_nil]
  exact fun hlast => h.slashless (List.mem_of_getLast? hlast)

theorem IsName.head?_ne_slash (h : IsName name) : name.toList.head? ≠ some '/' :=
  fun hhead => h.slashless (List.mem_of_head? hhead)

theorem below_nothing (name : String) : below "" name = name := by
  simp [below]

theorem IsName.below_root (h : IsName name) : below "/" name = "/" ++ name := by
  simp [below, h.head?_ne_slash]

theorem IsName.below_open (h : IsName name) (hne : dir ≠ "")
    (hlast : dir.toList.getLast? ≠ some '/') : below dir name = dir ++ "/" ++ name := by
  simp [below, h.head?_ne_slash, hne, hlast]

theorem exists_below_eq (dir name : String) :
    ∃ front, (below dir name).toList = front ++ name.toList := by
  unfold below
  split
  · exact ⟨[], rfl⟩
  · split
    · exact ⟨dir.toList, by simp⟩
    · exact ⟨dir.toList ++ ['/'], by simp⟩

theorem cutLead_append_slash {cs : List Char} (hne : cs ≠ []) (tail : List Char) :
    cutLead (cs ++ '/' :: tail) = ((cutLead cs).1, (cutLead cs).2 ++ '/' :: tail) := by
  obtain ⟨c, cs, rfl⟩ := List.exists_cons_of_ne_nil hne
  by_cases hroot : c = '/'
  · subst hroot
    rfl
  · by_cases hpoint : c = '.'
    · subst hpoint
      rcases cs with _ | ⟨d, cs⟩
      · rfl
      · by_cases hslash : d = '/'
        · subst hslash
          rfl
        · simp [cutLead, hslash]
    · simp [cutLead, hroot, hpoint]

/-- Below a path that does not end with a slash, one stands in front of the name. -/
theorem IsName.cutLead_below (h : IsName name) (hne : dir ≠ "")
    (hlast : dir.toList.getLast? ≠ some '/') :
    (cutLead (below dir name).toList).1 = (cutLead dir.toList).1 ∧
      Text.splitOn '/' (cutLead (below dir name).toList).2 =
        Text.splitOn '/' (cutLead dir.toList).2 ++ [name.toList] := by
  have htext : (below dir name).toList = dir.toList ++ '/' :: name.toList := by
    simp [h.below_open hne hlast]
  rw [htext, cutLead_append_slash (by simpa using hne), Text.splitOn_append_cons,
    Text.splitOn_of_notMem h.slashless]
  exact ⟨rfl, rfl⟩

/-- The segments that a name below a directory stands behind. -/
theorem exists_segments (hdir : IsJoined dir) :
    ∃ segments, Text.joinWith ['/'] (trimIdle segments) = (cutLead dir.toList).2 ∧
      ∀ name, IsName name → (cutLead (below dir name).toList).1 = (cutLead dir.toList).1 ∧
        Text.splitOn '/' (cutLead (below dir name).toList).2 = segments ++ [name.toList] := by
  induction hdir with
  | nothing =>
      refine ⟨[], rfl, fun name hname => ?_⟩
      rw [below_nothing, hname.cutLead_toList, Text.splitOn_of_notMem hname.slashless]
      exact ⟨rfl, rfl⟩
  | root =>
      refine ⟨[], rfl, fun name hname => ?_⟩
      have htext : (below "/" name).toList = '/' :: name.toList := by simp [hname.below_root]
      rw [htext, cutLead, Text.splitOn_of_notMem hname.slashless]
      exact ⟨rfl, rfl⟩
  | here => exact ⟨[[]], by decide, fun name hname => hname.cutLead_below (by decide) (by decide)⟩
  | @down dir name _ hname ih =>
      obtain ⟨segments, _, hbelow⟩ := ih
      obtain ⟨front, hfront⟩ := exists_below_eq dir name
      refine ⟨_, ?_, fun other hother =>
        hother.cutLead_below ?_ (hfront ▸ hname.getLast?_ne_slash front)⟩
      · rw [(hbelow name hname).2, hname.trimIdle_append, ← (hbelow name hname).2,
          Text.joinWith_splitOn]
      · rw [← String.toList_inj.ne, hfront]
        simp [hname.toList_ne_nil]

theorem parent?_below (hdir : IsJoined dir) (hname : IsName name) :
    parent? (below dir name) = some dir := by
  obtain ⟨segments, htrim, hbelow⟩ := exists_segments hdir
  obtain ⟨hlead, hsegments⟩ := hbelow name hname
  have hdirs : (segments ++ [name.toList]).dropLast = segments := List.dropLast_concat
  unfold parent?
  dsimp only
  rw [hsegments, hname.trimIdle_append]
  split
  · rename_i hnil
    exact absurd hnil (List.concat_ne_nil _ _)
  · rw [hdirs, hlead, htrim, cutLead_append, String.ofList_toList]

/-- The ancestors of a path that is put together are the paths it was put together from. -/
theorem ancestors_below (hdir : IsJoined dir) (hname : IsName name) :
    ancestors (below dir name) = below dir name :: ancestors dir :=
  (isAncestry_ancestors _).unique (.up (parent?_below hdir hname) (isAncestry_ancestors dir))

end LayerLint.Location
