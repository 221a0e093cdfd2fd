import Mathlib.Logic.Function.Basic
import LayerLint.Proofs.CycleWalk.Passed

/-!
# Edges kept

The edges that the walk does not pass over lead on to new nodes or back to the path. From a node
that the walk is about to leave they lead to nodes entered after it, unless a cycle was found
through the edge by which it was entered. So the edges of the cycles found are those on cycles of
kept edges.
-/

namespace LayerLint.CycleWalk

/-- An edge to an included node that the walk does not pass over. -/
def Kept (g : Graph) (included : Nat → Bool) (u v : Nat) : Prop :=
  g.DependsOn u v ∧ included v = true ∧ ¬PassesOver g included u v

/-- The kept edges that were looked at lead from what was entered since a time to what was entered
since. -/
def Fenced (g : Graph) (included : Nat → Bool) (s : State) (time : Nat → Nat) (start : Nat) :
    Prop :=
  ∀ x y : Nat, s.visited[x]? = some true → start ≤ time x → Kept g included x y →
    s.visited[y]? = some true ∧ start ≤ time y ∨ s.Awaits x y

/-- A walk under way, given the time at which each node was entered. An edge along the path is on a
cycle found, or there is no way out of what was entered since. A kept edge that was looked at and
has a way back is on a cycle found or along the path. -/
structure Timed (g : Graph) (included : Nat → Bool) (s : State) (time : Nat → Nat) (now : Nat) :
    Prop where
  lt_now : ∀ v : Nat, s.visited[v]? = some true → time v < now
  stack_time : s.stack.Pairwise fun inner outer => time outer < time inner
  fenced : ∀ u v, s.Links u v → (u, v) ∈ s.circledEdges g ∨ Fenced g included s time (time v)
  settled : ∀ u v : Nat, s.visited[u]? = some true → Kept g included u v →
    Relation.ReflTransGen (Kept g included) v u →
      (u, v) ∈ s.circledEdges g ∨ s.Awaits u v ∨ s.Links u v

variable {g : Graph} {included : Nat → Bool} {s s' : State} {time : Nat → Nat}
  {u v now node target start : Nat} {pending : List Nat} {outer : List Frame}

theorem timed_initial (g : Graph) (included : Nat → Bool) :
    Timed g included (.initial g) (fun _ => 0) 0 := by
  constructor <;> simp [State.initial, State.stack, State.Links, Array.getElem?_replicate]

/-! ## Going on to a node -/

/-- A state in which the walk has gone on to a new node, along the edge that the innermost node has
looked at. -/
structure Onward (g : Graph) (s s' : State) (target : Nat) : Prop where
  new : s.visited[target]? = some false
  visited_iff : ∀ x : Nat, s'.visited[x]? = some true ↔ x = target ∨ s.visited[x]? = some true
  stack_eq : s'.stack = target :: s.stack
  found_eq : s'.found = s.found
  awaits_target : ∀ v, g.DependsOn target v → s'.Awaits target v
  awaits : ∀ u v, s.Awaits u v → s'.Awaits u v ∨ v = target ∧ s.stack.head? = some u

theorem onward_enter {ahead : State} (hvisited : ahead.visited = s.visited)
    (hstack : ahead.stack = s.stack) (hfound : ahead.found = s.found)
    (hawaits : ∀ u v, s.Awaits u v → ahead.Awaits u v ∨ v = target ∧ s.stack.head? = some u)
    (hnew : s.visited[target]? = some false) : Onward g s (ahead.enter g target) target := by
  refine ⟨hnew, fun x => ?_, ?_, hfound, fun v hdep => awaits_enter.2 (Or.inl ⟨rfl, hdep⟩), ?_⟩
  · rw [← hvisited] at hnew ⊢
    exact visited_enter_iff hnew
  · rw [stack_enter, hstack]
  · exact fun u v huv => (hawaits u v huv).imp (fun huv => awaits_enter.2 (Or.inr huv)) id

theorem Onward.links_iff (h : Onward g s s' target) :
    s'.Links u v ↔ v = target ∧ s.stack.head? = some u ∨ s.Links u v := by
  rw [State.Links, h.stack_eq]
  exact infix_cons_iff

theorem Onward.circledEdges_eq (h : Onward g s s' target) :
    s'.circledEdges g = s.circledEdges g := by
  rw [State.circledEdges, State.circledEdges, h.found_eq]

theorem Onward.update_eq (h : Onward g s s' target) {x : Nat} (hx : s.visited[x]? = some true) :
    Function.update time target now x = time x :=
  Function.update_of_ne (ne_of_visited hx h.new) _ _

theorem Onward.fenced_target (h : Onward g s s' target)
    (hlt : ∀ x : Nat, s.visited[x]? = some true → time x < now) :
    Fenced g included s' (Function.update time target now) now := by
  intro x y hx hle hkept
  rcases (h.visited_iff x).1 hx with rfl | hx
  · exact Or.inr (h.awaits_target y hkept.1)
  · -- All that was entered before is older.
    rw [h.update_eq hx] at hle
    exact absurd (hlt x hx) (Nat.not_lt.2 hle)

theorem Fenced.onward (h : Fenced g included s time start) (hon : Onward g s s' target)
    (hstart : start ≤ now) : Fenced g included s' (Function.update time target now) start := by
  intro x y hx hle hkept
  rcases (hon.visited_iff x).1 hx with rfl | hx
  · exact Or.inr (hon.awaits_target y hkept.1)
  · rw [hon.update_eq hx] at hle
    rcases h x y hx hle hkept with ⟨hy, hle⟩ | hxy
    · exact Or.inl ⟨(hon.visited_iff y).2 (Or.inr hy), by rwa [hon.update_eq hy]⟩
    · rcases hon.awaits x y hxy with hxy | ⟨rfl, _⟩
      · exact Or.inr hxy
      · exact Or.inl ⟨(hon.visited_iff y).2 (Or.inl rfl), by rwa [Function.update_self]⟩

theorem Timed.onward (ha : Aligned g included s) (h : Timed g included s time now)
    (hon : Onward g s s' target) :
    Timed g included s' (Function.update time target now) (now + 1) := by
  have htarget : Function.update time target now target = now := Function.update_self _ _ _
  have hstack : ∀ x ∈ s.stack, Function.update time target now x = time x := fun x hx =>
    hon.update_eq (ha.visited_of_mem x hx)
  refine ⟨?_, ?_, ?_, ?_⟩
  · intro x hx
    rcases (hon.visited_iff x).1 hx with rfl | hx
    · omega
    · rw [hon.update_eq hx]
      exact Nat.lt_succ_of_lt (h.lt_now x hx)
  · rw [hon.stack_eq]
    refine List.pairwise_cons.2 ⟨fun x hx => ?_, h.stack_time.imp_of_mem ?_⟩
    · rw [hstack x hx, htarget]
      exact h.lt_now x (ha.visited_of_mem x hx)
    · intro x y hx hy hxy
      rwa [hstack x hx, hstack y hy]
  · intro u v hlink
    rw [hon.circledEdges_eq]
    rcases hon.links_iff.1 hlink with ⟨rfl, _⟩ | hlink
    · rw [htarget]
      exact Or.inr (hon.fenced_target h.lt_now)
    · have hv := hlink.mem_stack.2
      rw [hstack v hv]
      refine (h.fenced u v hlink).imp id fun hfence => ?_
      exact hfence.onward hon (Nat.le_of_lt (h.lt_now v (ha.visited_of_mem v hv)))
  · intro u v hu hkept hback
    rw [hon.circledEdges_eq]
    rcases (hon.visited_iff u).1 hu with rfl | hu
    · exact Or.inr (Or.inl (hon.awaits_target v hkept.1))
    · rcases h.settled u v hu hkept hback with hmem | huv | hlink
      · exact Or.inl hmem
      · rcases hon.awaits u v huv with huv | htarget
        · exact Or.inr (Or.inl huv)
        · exact Or.inr (Or.inr (hon.links_iff.2 (Or.inl htarget)))
      · exact Or.inr (Or.inr (hon.links_iff.2 (Or.inr hlink)))

/-! ## Other moves -/

/-- The kept edges do not lead back from a node that is left to the one that it was entered from,
unless a cycle was found through the edge between them. -/
theorem Timed.circled_of_back (ha : Aligned g included s) (h : Timed g included s time now)
    (hframes : s.frames = ⟨node, []⟩ :: outer)
    (hhead : (s.leave node outer).stack.head? = some u)
    (hback : Relation.ReflTransGen (Kept g included) node u) : (u, node) ∈ s.circledEdges g := by
  have hstack := stack_leave hframes
  have htimes := h.stack_time
  rw [hstack] at htimes
  have hearlier := (List.pairwise_cons.1 htimes).1
  refine (h.fenced u node ((links_leave hframes).2 (Or.inl ⟨rfl, hhead⟩))).resolve_right ?_
  intro hfence
  have hsince : ∀ x, Relation.ReflTransGen (Kept g included) node x →
      s.visited[x]? = some true ∧ time node ≤ time x := by
    intro x hx
    induction hx with
    | refl => exact ⟨ha.visited_of_mem node (hstack ▸ List.mem_cons_self), Nat.le_refl _⟩
    | @tail x y _ hkept ih =>
        refine (hfence x y ih.1 ih.2 hkept).resolve_right fun hxy => ?_
        -- The node has nothing to look at any more, and the others on the path are older.
        have hlt := hearlier x ((awaits_leave hframes).1 hxy).mem_stack
        omega
  have hlt := hearlier u (List.mem_of_mem_head? hhead)
  have hle := (hsince u hback).2
  omega

theorem Timed.leave (ha : Aligned g included s) (h : Timed g included s time now)
    (hframes : s.frames = ⟨node, []⟩ :: outer) :
    Timed g included (s.leave node outer) time now := by
  have htimes := h.stack_time
  rw [stack_leave hframes] at htimes
  refine ⟨h.lt_now, (List.pairwise_cons.1 htimes).2, ?_, ?_⟩
  · intro u v hlink
    refine (h.fenced u v ((links_leave hframes).2 (Or.inr hlink))).imp id ?_
    exact fun hfence x y hx hle hkept => (hfence x y hx hle hkept).imp id (awaits_leave hframes).1
  · intro u v hu hkept hback
    rcases h.settled u v hu hkept hback with hmem | huv | hlink
    · exact Or.inl hmem
    · exact Or.inr (Or.inl ((awaits_leave hframes).1 huv))
    · rcases (links_leave hframes).1 hlink with ⟨rfl, hhead⟩ | hlink
      · have hmem := h.circled_of_back ha hframes hhead hback
        exact Or.inl hmem
      · exact Or.inr (Or.inr hlink)

/-- The innermost node has looked at an edge that is not kept. -/
theorem Timed.pass (h : Timed g included s time now)
    (hframes : s.frames = ⟨node, target :: pending⟩ :: outer)
    (hpassed : ¬Kept g included node target) :
    Timed g included { s with frames := ⟨node, pending⟩ :: outer } time now := by
  have hawaits : ∀ x y, Kept g included x y → s.Awaits x y →
      State.Awaits { s with frames := ⟨node, pending⟩ :: outer } x y := by
    intro x y hkept hxy
    refine ((awaits_advance hframes).1 hxy).resolve_left ?_
    rintro ⟨rfl, rfl⟩
    exact hpassed hkept
  refine ⟨h.lt_now, stack_advance hframes ▸ h.stack_time, ?_, ?_⟩
  · intro u v hlink
    refine (h.fenced u v ((links_advance hframes).1 hlink)).imp id fun hfence x y hx hle hkept => ?_
    exact (hfence x y hx hle hkept).imp id (hawaits x y hkept)
  · intro u v hu hkept hback
    exact (h.settled u v hu hkept hback).imp id
      (Or.imp (hawaits u v hkept) (links_advance hframes).2)

/-- An edge along the path is on the cycle found, or its inner end was entered no later than where
the cycle starts. -/
theorem Timed.circled_or_le (ha : Aligned g included s) (h : Timed g included s time now)
    (hframes : s.frames = ⟨node, pending⟩ :: outer) (hmem : target ∈ s.stack) :
    ∀ u v, s.Links u v →
      (u, v) ∈ (Cycle.ofNodes g (s.circle target)).edges ∨ time v ≤ time target := by
  obtain ⟨front, back, hstack⟩ := List.append_of_mem hmem
  have htimes := h.stack_time
  rw [hstack] at htimes
  have htimes := (List.pairwise_append.1 htimes).2.1
  have hback : ∀ x ∈ target :: back, time x ≤ time target := by
    intro x hx
    rcases List.mem_cons.1 hx with rfl | hx
    · exact Nat.le_refl _
    · exact Nat.le_of_lt ((List.pairwise_cons.1 htimes).1 x hx)
  rw [forall_links_iff, hstack, List.isChain_split]
  constructor
  · exact (ha.mem_edges_circle hframes hstack).1.imp fun _ _ => Or.inl
  · exact (htimes.imp_of_mem fun hx _ _ => Or.inr (hback _ hx)).isChain

theorem Timed.close (ha : Aligned g included s) (h : Timed g included s time now)
    (hframes : s.frames = ⟨node, target :: pending⟩ :: outer) (hmem : target ∈ s.stack) :
    Timed g included ({ s with frames := ⟨node, pending⟩ :: outer }.close target) time now := by
  have hcircled : ({ s with frames := ⟨node, pending⟩ :: outer }.close target).circledEdges g =
      s.circledEdges g ++ (Cycle.ofNodes g (s.circle target)).edges := circledEdges_close target
  have hclosing : (node, target) ∈ (Cycle.ofNodes g (s.circle target)).edges := by
    obtain ⟨front, back, hsplit⟩ := List.append_of_mem hmem
    exact (ha.mem_edges_circle hframes hsplit).2
  refine ⟨h.lt_now, stack_advance hframes ▸ h.stack_time, ?_, ?_⟩
  · intro u v hlink
    have hlink := (links_advance hframes).1 hlink
    rw [hcircled, List.mem_append]
    rcases h.circled_or_le ha hframes hmem u v hlink with hedge | hle
    · exact Or.inl (Or.inr hedge)
    · refine (h.fenced u v hlink).imp Or.inl fun hfence x y hx hxle hkept => ?_
      rcases hfence x y hx hxle hkept with hy | hxy
      · exact Or.inl hy
      · rcases (awaits_advance hframes).1 hxy with ⟨rfl, rfl⟩ | hxy
        · exact Or.inl ⟨ha.visited_of_mem y hmem, hle⟩
        · exact Or.inr hxy
  · intro u v hu hkept hback
    rw [hcircled, List.mem_append]
    rcases h.settled u v hu hkept hback with hold | huv | hlink
    · exact Or.inl (Or.inl hold)
    · rcases (awaits_advance hframes).1 huv with ⟨rfl, rfl⟩ | huv
      · exact Or.inl (Or.inr hclosing)
      · exact Or.inr (Or.inl huv)
    · exact Or.inr (Or.inr ((links_advance hframes).2 hlink))

/-- An edge that a move passes over is not kept. -/
theorem not_kept_of_pass (hwf : g.WellFormed) {steps : Nat}
    (ha : Aligned g included ((State.initial g).run g included false steps))
    (hframes : ((State.initial g).run g included false steps).frames =
      ⟨node, target :: pending⟩ :: outer)
    (hpass : included target = false ∨
      ((State.initial g).run g included false steps).onPath[target]? ≠ some true ∧
        ((State.initial g).run g included false steps).visited[target]? ≠ some false) :
    ¬Kept g included node target := by
  rintro ⟨hdep, hin, hkept⟩
  rcases hpass with hout | ⟨hon, hvisited⟩
  · rw [hin] at hout
    cases hout
  · have hlt := hwf.deps_lt hdep
    refine hkept ⟨steps, ⟨pending, outer, hframes⟩, ?_, ?_⟩
    · exact (Marks.eq_true_iff (ha.size_visited ▸ hlt)).2 hvisited
    · by_contra hoff
      exact hon ((Marks.eq_true_iff (ha.size_onPath ▸ hlt)).2 hoff)

theorem Timed.move (hwf : g.WellFormed) {steps : Nat}
    (ha : Aligned g included ((State.initial g).run g included false steps))
    (h : Timed g included ((State.initial g).run g included false steps) time now)
    (hmove : Move g included ((State.initial g).run g included false steps) s') :
    ∃ time now, Timed g included s' time now := by
  cases hmove with
  | skipRoot _ _ _ => exact ⟨time, now, h.lt_now, h.stack_time, h.fenced, h.settled⟩
  | enterRoot _ _ hnew _ =>
      exact ⟨_, _, h.onward ha (onward_enter rfl rfl rfl (fun _ _ => Or.inl) hnew)⟩
  | leave hframes => exact ⟨time, now, h.leave ha hframes⟩
  | pass hframes hpass => exact ⟨time, now, h.pass hframes (not_kept_of_pass hwf ha hframes hpass)⟩
  | close hframes _ hon => exact ⟨time, now, h.close ha hframes ((ha.onPath_iff _).1 hon)⟩
  | enter hframes _ hnew =>
      refine ⟨_, _, h.onward ha (onward_enter rfl (stack_advance hframes) rfl ?_ hnew)⟩
      intro u v huv
      rcases (awaits_advance hframes).1 huv with ⟨rfl, rfl⟩ | huv
      · exact Or.inr ⟨rfl, by simp [State.stack, hframes]⟩
      · exact Or.inl huv

/-! ## The edges of the cycles found -/

theorem final_timed (hwf : g.WellFormed) (included : Nat → Bool) :
    ∃ time now, Timed g included (final g included false) time now := by
  refine (forall_run (P := fun s => Aligned g included s ∧ ∃ time now, Timed g included s time now)
    ⟨aligned_initial g included, _, _, timed_initial g included⟩ ?_ (stepBound g)).2
  rintro steps s' ⟨ha, time, now, h⟩ hmove
  exact ⟨ha.move hmove, h.move hwf ha hmove⟩

theorem circled_of_kept (hwf : g.WellFormed) (hkept : Kept g included u v)
    (hback : Relation.ReflTransGen (Kept g included) v u) :
    (u, v) ∈ (final g included false).circledEdges g := by
  obtain ⟨time, now, h⟩ := final_timed hwf included
  have hframes := (final_done hwf included).2
  have hin : included u = true := by
    cases hback with
    | refl => exact hkept.2.1
    | tail _ hlast => exact hlast.2.1
  have hu := final_visited hwf (hwf.source_lt hkept.1) hin
  -- At the end nothing is left to look at and the path is empty.
  rcases h.settled u v hu hkept hback with hmem | ⟨f, hf, _⟩ | hlink
  · exact hmem
  · rw [hframes] at hf
    cases hf
  · have hmem := hlink.mem_stack.1
    rw [State.stack, hframes] at hmem
    cases hmem

theorem kept_of_circled (hwf : g.WellFormed)
    (h : (u, v) ∈ (final g included false).circledEdges g) :
    Kept g included u v ∧ Relation.ReflTransGen (Kept g included) v u := by
  obtain ⟨nodes, hnodes, hmem⟩ := List.mem_flatMap.1 h
  have hgenuine := genuine_final g included false (Array.mem_toList_iff.1 hnodes)
  refine Graph.exists_edges_iff.1 ⟨nodes, hmem, fun e he => ⟨?_, ?_, ?_⟩⟩
  · exact (Graph.isCycle_iff_edges.1 hgenuine.isCycle).2 e he
  · exact hgenuine.included_of_mem e.2 (Graph.mem_of_mem_edges he).2
  · exact fun hpassed => hpassed.not_circled hwf (List.mem_flatMap.2 ⟨nodes, hnodes, he⟩)

/-- The edges of the cycles that the walk reports are those on a cycle of included nodes that goes
along no edge passed over. -/
theorem exists_mem_walk_iff (hwf : g.WellFormed) :
    (∃ c ∈ walk g included false, (u, v) ∈ c.edges) ↔
      ∃ nodes, (u, v) ∈ (Cycle.ofNodes g nodes).edges ∧
        ∀ e ∈ (Cycle.ofNodes g nodes).edges, Kept g included e.1 e.2 := by
  have hcircled : (∃ c ∈ walk g included false, (u, v) ∈ c.edges) ↔
      (u, v) ∈ (final g included false).circledEdges g := by
    simp [walk_eq, State.circledEdges]
  rw [hcircled, Graph.exists_edges_iff]
  exact ⟨kept_of_circled hwf, fun h => circled_of_kept hwf h.1 h.2⟩

end LayerLint.CycleWalk
