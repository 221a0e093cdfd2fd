import Mathlib.Data.List.MinMax
import LayerLint.Proofs.DepthWalk.Ending

/-!
# Depths that fit each other

Whatever the order of the questions, a depth that the walk finishes fits the depths of the node's
dependencies: it lies above all of them but those on a cycle with the node, and by one above one of
them. This holds from one question to the next.
-/

namespace LayerLint.DepthTable

/-- A depth of a node that fits the known depths of its dependencies. -/
structure Fits (g : Graph) (table : DepthTable) (node depth : Nat) : Prop where
  zero_iff : depth = 0 ↔ g.deps node = []
  above : ∀ v ∈ g.deps node, ¬g.Reaches v node → ∃ d, table.depth? v = some d ∧ d < depth
  reached : ∀ d, depth = d + 1 → d = 0 ∨ ∃ v ∈ g.deps node, table.depth? v = some d

/-- A frame whose greatest depth fits the dependencies looked at. The one that the walk has gone on
to is left out. -/
structure Weighed (g : Graph) (table : DepthTable) (inner : Option Nat) (f : Frame) : Prop where
  above : ∀ v ∈ g.deps f.node, v ∉ f.pending → ¬g.Reaches v f.node →
    inner = some v ∨ ∃ d, table.depth? v = some d ∧ d ≤ f.deepest
  reached : f.deepest = 0 ∨ ∃ v ∈ g.deps f.node, table.depth? v = some f.deepest

/-- Frames that are weighed one behind the other. -/
def WeighedAll (g : Graph) (table : DepthTable) : Option Nat → List Frame → Prop
  | _, [] => True
  | inner, f :: outer => Weighed g table inner f ∧ WeighedAll g table (some f.node) outer

/-- A walk in which all that is known so far fits. -/
structure Consistent (g : Graph) (w : Walk) : Prop where
  aligned : Aligned g w
  fits : ∀ v d, w.table.depth? v = some d → Fits g w.table v d
  weighed : WeighedAll g w.table none w.frames

variable {g : Graph} {w w' : Walk} {table table' : DepthTable} {inner : Option Nat} {f : Frame}
  {node target deepest depth : Nat} {pending : List Nat} {outer : List Frame}

theorem Fits.exists_dependency (h : Fits g table node (depth + 1)) : ∃ v, v ∈ g.deps node := by
  refine List.exists_mem_of_ne_nil _ fun hnil => ?_
  exact absurd (h.zero_iff.2 hnil) (Nat.succ_ne_zero depth)

theorem Fits.le_succ_max {depths : Nat → Nat} (h : Fits g table node (depths node))
    (hknown : ∀ v ∈ g.deps node, table.depth? v = some (depths v)) :
    depths node ≤ 1 + ((g.deps node).map depths).foldr max 0 := by
  cases hdepth : depths node with
  | zero => exact Nat.zero_le _
  | succ d =>
      rcases h.reached d hdepth with rfl | ⟨v, hv, hd⟩
      · exact Nat.le_add_right 1 _
      · obtain rfl : depths v = d := Option.some.inj ((hknown v hv).symm.trans hd)
        have hmax := List.le_max_of_le' 0 (List.mem_map_of_mem hv) (Nat.le_refl (depths v))
        omega

theorem Fits.succ_le (h : Fits g table node depth) {v d : Nat} (hv : v ∈ g.deps node)
    (hback : ¬g.Reaches v node) (hknown : table.depth? v = some d) : d + 1 ≤ depth := by
  obtain ⟨e, he, hlt⟩ := h.above v hv hback
  obtain rfl : e = d := Option.some.inj (he.symm.trans hknown)
  exact hlt

/-! ## More known depths -/

theorem Fits.mono (h : Fits g table node depth) (hmore : Retains table table') :
    Fits g table' node depth := by
  refine ⟨h.zero_iff, ?_, ?_⟩
  · intro v hv hback
    obtain ⟨d, hd, hlt⟩ := h.above v hv hback
    exact ⟨d, hmore v d hd, hlt⟩
  · intro d hd
    rcases h.reached d hd with hzero | ⟨v, hv, hknown⟩
    · exact Or.inl hzero
    · exact Or.inr ⟨v, hv, hmore v d hknown⟩

theorem Weighed.mono (h : Weighed g table inner f) (hmore : Retains table table') :
    Weighed g table' inner f := by
  constructor
  · intro v hv hlooked hback
    rcases h.above v hv hlooked hback with hinner | ⟨d, hd, hle⟩
    · exact Or.inl hinner
    · exact Or.inr ⟨d, hmore v d hd, hle⟩
  · rcases h.reached with hzero | ⟨v, hv, hknown⟩
    · exact Or.inl hzero
    · exact Or.inr ⟨v, hv, hmore v _ hknown⟩

theorem WeighedAll.mono {frames : List Frame} (h : WeighedAll g table inner frames)
    (hmore : Retains table table') : WeighedAll g table' inner frames := by
  induction frames generalizing inner with
  | nil => trivial
  | cons f outer ih => exact ⟨h.1.mono hmore, ih h.2⟩

/-! ## Frames -/

/-- The innermost frame after it has looked at one more dependency. -/
theorem Weighed.look (h : Weighed g table none ⟨node, target :: pending, deepest⟩) {inner depth}
    (hle : deepest ≤ depth)
    (htarget : ¬g.Reaches target node →
      inner = some target ∨ ∃ d, table.depth? target = some d ∧ d ≤ depth)
    (hreached : depth = deepest ∨ target ∈ g.deps node ∧ table.depth? target = some depth) :
    Weighed g table inner ⟨node, pending, depth⟩ := by
  constructor
  · intro v hv hlooked hback
    by_cases heq : v = target
    · subst heq
      exact htarget hback
    · have hbefore : v ∉ target :: pending := by simpa [heq] using hlooked
      rcases h.above v hv hbefore hback with hinner | ⟨d, hd, hd_le⟩
      · cases hinner
      · exact Or.inr ⟨d, hd, Nat.le_trans hd_le hle⟩
  · rcases hreached with rfl | ⟨hmem, hknown⟩
    · exact h.reached
    · exact Or.inr ⟨target, hmem, hknown⟩

/-- The frame behind a node that is finished learns its depth. -/
theorem WeighedAll.learn {frames : List Frame} (h : WeighedAll g table (some node) frames)
    (hmem : ∀ f ∈ frames.head?, node ∈ g.deps f.node) (hknown : table.depth? node = some depth) :
    WeighedAll g table none (Walk.learn depth frames) := by
  cases frames with
  | nil => trivial
  | cons f outer =>
      refine ⟨⟨?_, ?_⟩, h.2⟩
      · intro v hv hlooked hback
        refine Or.inr ?_
        rcases h.1.above v hv hlooked hback with hinner | ⟨d, hd, hle⟩
        · obtain rfl := Option.some.inj hinner
          exact ⟨depth, hknown, Nat.le_max_right _ _⟩
        · exact ⟨d, hd, Nat.le_trans hle (Nat.le_max_left _ _)⟩
      · show max f.deepest depth = 0 ∨
          ∃ v ∈ g.deps f.node, table.depth? v = some (max f.deepest depth)
        rcases Nat.le_total f.deepest depth with hle | hle
        · rw [Nat.max_eq_right hle]
          exact Or.inr ⟨node, hmem f rfl, hknown⟩
        · rw [Nat.max_eq_left hle]
          exact h.1.reached

theorem Weighed.fits (h : Weighed g table none ⟨node, [], deepest⟩) :
    Fits g table node (depthOver g node deepest) := by
  have hdepth : g.deps node ≠ [] → depthOver g node deepest = deepest + 1 := by
    intro hne
    simp [depthOver, hne]
  refine ⟨?_, ?_, ?_⟩
  · by_cases hnil : g.deps node = []
    · simp [depthOver, hnil]
    · simp [hdepth hnil, hnil]
  · intro v hv hback
    rw [hdepth (List.ne_nil_of_mem hv)]
    -- Nothing is pending and no dependency is on the path above, so each one was weighed.
    rcases h.above v hv List.not_mem_nil hback with hinner | ⟨d, hd, hle⟩
    · cases hinner
    · exact ⟨d, hd, Nat.lt_succ_of_le hle⟩
  · intro d hd
    by_cases hnil : g.deps node = []
    · simp [depthOver, hnil] at hd
    · rw [hdepth hnil] at hd
      obtain rfl := Nat.succ.inj hd
      exact h.reached

/-! ## Moves -/

theorem Consistent.finish (h : Consistent g w)
    (hframes : w.frames = ⟨node, [], deepest⟩ :: outer) :
    Consistent g (w.finish node (depthOver g node deepest) outer) := by
  have hmore := h.aligned.retains (.finish hframes)
  have hstack := stack_finish hframes (depthOver g node deepest)
  have hlt : node < w.table.known.size :=
    h.aligned.size_known ▸ h.aligned.lt_of_mem (hstack ▸ List.mem_cons_self)
  have hweighed := h.weighed
  rw [hframes] at hweighed
  refine ⟨h.aligned.finish hframes _, ?_, ?_⟩
  · intro v d hv
    rw [depth?_finish hlt] at hv
    split at hv
    · rename_i heq
      obtain rfl := Option.some.inj hv
      subst heq
      exact hweighed.1.fits.mono hmore
    · exact (h.fits v d hv).mono hmore
  · refine (hweighed.2.mono hmore).learn ?_ (by rw [depth?_finish hlt, if_pos rfl])
    intro f hf
    have hchain := h.aligned.stack_chain
    obtain ⟨rest, rfl⟩ := List.head?_eq_some_iff.1 hf
    rw [Walk.stack, hframes] at hchain
    exact (List.isChain_cons_cons.1 hchain).1

theorem Consistent.learn (h : Consistent g w)
    (hframes : w.frames = ⟨node, target :: pending, deepest⟩ :: outer)
    (hknown : w.table.depth? target = some depth) :
    Consistent g { w with frames := ⟨node, pending, max deepest depth⟩ :: outer } := by
  have hweighed := h.weighed
  rw [hframes] at hweighed
  refine ⟨h.aligned.advance hframes _, h.fits, hweighed.1.look (Nat.le_max_left _ _) ?_ ?_,
    hweighed.2⟩
  · exact fun _ => Or.inr ⟨depth, hknown, Nat.le_max_right _ _⟩
  · rcases Nat.le_total deepest depth with hle | hle
    · rw [Nat.max_eq_right hle]
      exact Or.inr ⟨h.aligned.dependsOn_pending hframes, hknown⟩
    · exact Or.inl (Nat.max_eq_left hle)

theorem Consistent.pass (hg : g.WellFormed) (h : Consistent g w)
    (hframes : w.frames = ⟨node, target :: pending, deepest⟩ :: outer)
    (hon : w.table.onPath[target]? ≠ some false) :
    Consistent g { w with frames := ⟨node, pending, deepest⟩ :: outer } := by
  have hweighed := h.weighed
  rw [hframes] at hweighed
  refine ⟨h.aligned.advance hframes _, h.fits, hweighed.1.look (Nat.le_refl _) ?_ (Or.inl rfl),
    hweighed.2⟩
  -- The dependency is on the path, so there is a way from it to the node and nothing to weigh.
  intro hback
  have hlt : target < w.table.onPath.size :=
    h.aligned.size_onPath ▸ hg.deps_lt (h.aligned.dependsOn_pending hframes)
  have hmem := (h.aligned.onPath_iff target).1 ((Marks.eq_true_iff hlt).2 hon)
  exact absurd (h.aligned.reaches_head (by simp [Walk.stack, hframes]) hmem) hback

theorem consistent_enter (haligned : Aligned g (w.enter g target))
    (hfits : ∀ v d, w.table.depth? v = some d → Fits g w.table v d)
    (hweighed : WeighedAll g w.table (some target) w.frames) :
    Consistent g (w.enter g target) := by
  have hsame : Retains w.table (w.enter g target).table := fun _ _ h => h
  refine ⟨haligned, fun v d hv => (hfits v d hv).mono hsame, ⟨?_, Or.inl rfl⟩, hweighed.mono hsame⟩
  exact fun v hv hlooked => absurd hv hlooked

theorem Consistent.enter (h : Consistent g w)
    (hframes : w.frames = ⟨node, target :: pending, deepest⟩ :: outer)
    (hunknown : w.table.depth? target = none) (hoff : w.table.onPath[target]? = some false) :
    Consistent g ({ w with frames := ⟨node, pending, deepest⟩ :: outer }.enter g target) := by
  have hweighed := h.weighed
  rw [hframes] at hweighed
  refine consistent_enter (h.aligned.move (.enter hframes hunknown hoff)) h.fits ⟨?_, hweighed.2⟩
  exact hweighed.1.look (Nat.le_refl _) (fun _ => Or.inl rfl) (Or.inl rfl)

theorem Consistent.move (hg : g.WellFormed) (h : Consistent g w) (hmove : Move g w w') :
    Consistent g w' := by
  cases hmove with
  | finish hframes => exact h.finish hframes
  | learn hframes hknown => exact h.learn hframes hknown
  | pass hframes _ hon => exact h.pass hg hframes hon
  | enter hframes hunknown hoff => exact h.enter hframes hunknown hoff

end LayerLint.DepthTable
