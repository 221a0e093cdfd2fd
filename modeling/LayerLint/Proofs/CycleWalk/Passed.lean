import LayerLint.Proofs.CycleWalk.Closing

/-!
# Edges passed over

The walk passes over an edge to a node that it has left before. Such an edge is looked at once, too
late to be an edge of a cycle found before and too early for one found later.
-/

namespace LayerLint.CycleWalk

/-- The innermost node looks next at an edge to a node that was left before. -/
def State.Skips (s : State) (u v : Nat) : Prop :=
  (∃ pending outer, s.frames = ⟨u, v :: pending⟩ :: outer) ∧ s.visited[v]? = some true ∧
    s.onPath[v]? = some false

/-- The walk comes to an edge that leads to a node left before. -/
def PassesOver (g : Graph) (included : Nat → Bool) (u v : Nat) : Prop :=
  ∃ steps, ((State.initial g).run g included false steps).Skips u v

/-- An edge of a node on the path that is still to be looked at. -/
def State.Awaits (s : State) (u v : Nat) : Prop :=
  ∃ f ∈ s.frames, f.node = u ∧ v ∈ f.pending

/-- An edge along the path. -/
def State.Links (s : State) (u v : Nat) : Prop :=
  [v, u] <:+: s.stack

/-- The edges of the cycles found so far. -/
def State.circledEdges (g : Graph) (s : State) : List (Nat × Nat) :=
  s.found.toList.flatMap fun nodes => (Cycle.ofNodes g nodes).edges

variable {g : Graph} {included : Nat → Bool} {s s' : State} {u v node target : Nat}
  {pending : List Nat} {outer : List Frame}

/-! ## Runs in parts -/

theorem run_add (onlyFirst : Bool) (s : State) (steps more : Nat) :
    s.run g included onlyFirst (steps + more) =
      (s.run g included onlyFirst steps).run g included onlyFirst more := by
  induction steps generalizing s with
  | zero => rw [Nat.zero_add, State.run]
  | succ steps ih =>
      rw [Nat.succ_add, State.run, State.run]
      split
      · rename_i hover
        exact (run_of_isOver hover more).symm
      · exact ih _

/-- What holds at the start and is kept by the moves of a run holds after each of its steps. -/
theorem forall_run {P : State → Prop} (hstart : P s)
    (hmove : ∀ steps s', P (s.run g included false steps) →
      Move g included (s.run g included false steps) s' → P s') (steps : Nat) :
    P (s.run g included false steps) := by
  induction steps with
  | zero => exact hstart
  | succ steps ih =>
      rw [run_add, State.run, State.run]
      split
      · exact ih
      · rename_i hover
        rw [State.isOver_iff, not_or] at hover
        exact hmove steps _ ih (step_move hover.1)

/-- The walk comes to its end from any of its states. -/
theorem final_eq_run (hwf : g.WellFormed) (included : Nat → Bool) (steps : Nat) :
    final g included false =
      ((State.initial g).run g included false steps).run g included false (stepBound g) := by
  rw [← run_add, Nat.add_comm, run_add]
  exact (run_of_isOver (State.isOver_iff.2 (Or.inl (final_done hwf included))) steps).symm

theorem Aligned.exists_run (ha : Aligned g included s)
    (hmoves : Relation.ReflTransGen (Move g included) s s') :
    ∃ steps, s.run g included false steps = s' := by
  induction hmoves using Relation.ReflTransGen.head_induction_on with
  | refl => exact ⟨0, rfl⟩
  | head hmove _ ih =>
      obtain ⟨steps, hsteps⟩ := ih (ha.move hmove)
      refine ⟨steps + 1, ?_⟩
      rw [State.run, hmove.not_isOver, ha.step_eq hmove]
      exact hsteps

/-- Moves that leave nothing to do make up the walk. -/
theorem final_of_moves (hwf : g.WellFormed)
    (hmoves : Relation.ReflTransGen (Move g included) (.initial g) s) (hroots : s.roots = [])
    (hframes : s.frames = []) : final g included false = s := by
  obtain ⟨steps, hsteps⟩ := (aligned_initial g included).exists_run hmoves
  rw [final_eq_run hwf included steps, hsteps]
  exact run_of_isOver (State.isOver_iff.2 (Or.inl ⟨hroots, hframes⟩)) _

/-! ## Edges ahead -/

theorem awaits_enter :
    (s.enter g node).Awaits u v ↔ u = node ∧ g.DependsOn node v ∨ s.Awaits u v := by
  simp [State.Awaits, State.enter, Graph.DependsOn, eq_comm]

theorem awaits_advance (hframes : s.frames = ⟨node, target :: pending⟩ :: outer) :
    s.Awaits u v ↔
      u = node ∧ v = target ∨ State.Awaits { s with frames := ⟨node, pending⟩ :: outer } u v := by
  simp only [State.Awaits, hframes, List.exists_mem_cons_iff]
  constructor
  · rintro (⟨rfl, hmem⟩ | hmem)
    · rcases List.mem_cons.1 hmem with rfl | hmem
      · exact Or.inl ⟨rfl, rfl⟩
      · exact Or.inr (Or.inl ⟨rfl, hmem⟩)
    · exact Or.inr (Or.inr hmem)
  · rintro (⟨rfl, rfl⟩ | ⟨rfl, hmem⟩ | hmem)
    · exact Or.inl ⟨rfl, List.mem_cons_self⟩
    · exact Or.inl ⟨rfl, List.mem_cons_of_mem _ hmem⟩
    · exact Or.inr hmem

theorem awaits_leave (hframes : s.frames = ⟨node, []⟩ :: outer) :
    s.Awaits u v ↔ (s.leave node outer).Awaits u v := by
  simp [State.Awaits, State.leave, hframes]

theorem State.Awaits.mem_stack (h : s.Awaits u v) : u ∈ s.stack := by
  obtain ⟨f, hf, rfl, _⟩ := h
  exact List.mem_map_of_mem hf

/-- An edge is looked at once. -/
theorem Aligned.not_awaits_advance (hwf : g.WellFormed) (h : Aligned g included s)
    (hframes : s.frames = ⟨node, target :: pending⟩ :: outer) :
    ¬State.Awaits { s with frames := ⟨node, pending⟩ :: outer } node target := by
  rintro ⟨f, hf, hnode, hmem⟩
  rcases List.mem_cons.1 hf with rfl | hf
  · have hsuffix := h.pending_suffix ⟨node, target :: pending⟩ (hframes ▸ List.mem_cons_self)
    exact (List.nodup_cons.1 ((hwf.deps_nodup node).sublist hsuffix.sublist)).1 hmem
  · have hnodup := h.stack_nodup
    rw [State.stack, hframes] at hnodup
    exact (List.nodup_cons.1 hnodup).1 (List.mem_map.2 ⟨f, hf, hnode⟩)

/-! ## Edges along the path -/

theorem infix_cons_iff {first : Nat} {rest : List Nat} :
    [v, u] <:+: first :: rest ↔ v = first ∧ rest.head? = some u ∨ [v, u] <:+: rest := by
  rw [List.infix_cons_iff, List.cons_prefix_cons]
  cases rest with
  | nil => simp
  | cons second rest => simp [List.cons_prefix_cons, eq_comm]

theorem links_enter :
    (s.enter g node).Links u v ↔ v = node ∧ s.stack.head? = some u ∨ s.Links u v :=
  infix_cons_iff

theorem links_advance (hframes : s.frames = ⟨node, target :: pending⟩ :: outer) :
    State.Links { s with frames := ⟨node, pending⟩ :: outer } u v ↔ s.Links u v := by
  rw [State.Links, stack_advance hframes]
  rfl

theorem links_leave (hframes : s.frames = ⟨node, pending⟩ :: outer) :
    s.Links u v ↔
      v = node ∧ (s.leave node outer).stack.head? = some u ∨ (s.leave node outer).Links u v := by
  rw [State.Links, stack_leave hframes]
  exact infix_cons_iff

theorem State.Links.mem_stack (h : s.Links u v) : u ∈ s.stack ∧ v ∈ s.stack :=
  ⟨h.mem (by simp), h.mem (by simp)⟩

theorem forall_links_iff {r : Nat → Nat → Prop} :
    (∀ u v, s.Links u v → r u v) ↔ s.stack.IsChain fun inner outer => r outer inner := by
  rw [List.isChain_iff_forall_rel_of_append_cons_cons]
  constructor
  · exact fun h v u front back heq => h u v ⟨front, back, by simp [heq]⟩
  · rintro h u v ⟨front, back, heq⟩
    exact h (show s.stack = front ++ v :: u :: back by simp [← heq])

/-! ## Edges of the cycle found -/

theorem Aligned.circle_eq (h : Aligned g included s) {front back : List Nat}
    (hstack : s.stack = front ++ target :: back) : s.circle target = target :: front.reverse := by
  have hpath : s.path.toList = back.reverse ++ target :: front.reverse := by
    rw [h.path_eq, hstack]
    simp
  have hplace : s.path[back.length]? = some target := by
    rw [← Array.getElem?_toList, hpath]
    simp
  rw [State.circle, h.position_eq _ _ hplace, Option.getD_some, hpath]
  simp

/-- The edges of the cycle found are those along the path from the target on and the closing one. -/
theorem Aligned.forall_edges_circle (h : Aligned g included s)
    (hframes : s.frames = ⟨node, pending⟩ :: outer) {front back : List Nat}
    (hstack : s.stack = front ++ target :: back) {r : Nat → Nat → Prop} :
    (∀ e ∈ (Cycle.ofNodes g (s.circle target)).edges, r e.1 e.2) ↔
      (front ++ [target]).IsChain (fun inner outer => r outer inner) ∧ r node target := by
  have hhead : (front ++ [target]).head? = some node := by
    have hstack' : (front ++ [target]) ++ back = node :: outer.map Frame.node := by
      simp [← hstack, State.stack, hframes]
    cases front with
    | nil => simpa using (List.cons.inj hstack').1
    | cons first front => simpa using (List.cons.inj hstack').1
  have hreverse : target :: front.reverse = (front ++ [target]).reverse := by simp
  rw [h.circle_eq hstack, ← Graph.isChain_iff_edges, hreverse, List.isChain_append,
    List.isChain_reverse, List.getLast?_reverse, hhead]
  simp

theorem Aligned.mem_edges_circle (h : Aligned g included s)
    (hframes : s.frames = ⟨node, pending⟩ :: outer) {front back : List Nat}
    (hstack : s.stack = front ++ target :: back) :
    (front ++ [target]).IsChain (fun inner outer =>
        (outer, inner) ∈ (Cycle.ofNodes g (s.circle target)).edges) ∧
      (node, target) ∈ (Cycle.ofNodes g (s.circle target)).edges :=
  (h.forall_edges_circle hframes hstack
    (r := fun u v => (u, v) ∈ (Cycle.ofNodes g (s.circle target)).edges)).1 fun _ he => he

theorem circledEdges_close (target : Nat) :
    (s.close target).circledEdges g =
      s.circledEdges g ++ (Cycle.ofNodes g (s.circle target)).edges := by
  simp [State.circledEdges, State.close, State.circle]

/-! ## What has been looked at -/

/-- The edges along the path and those of the cycles found have been looked at. -/
structure Looked (g : Graph) (s : State) : Prop where
  links : ∀ u v, s.Links u v → ¬s.Awaits u v
  circled : ∀ u v, (u, v) ∈ s.circledEdges g → s.visited[u]? = some true ∧ ¬s.Awaits u v

theorem looked_initial (g : Graph) : Looked g (.initial g) := by
  constructor <;> simp [State.initial, State.Awaits, State.circledEdges]

theorem Looked.skipRoot (h : Looked g s) (roots : List Nat) : Looked g { s with roots } :=
  ⟨h.links, h.circled⟩

theorem Looked.advance (h : Looked g s)
    (hframes : s.frames = ⟨node, target :: pending⟩ :: outer) :
    Looked g { s with frames := ⟨node, pending⟩ :: outer } := by
  have hless : ∀ u v, ¬s.Awaits u v →
      ¬State.Awaits { s with frames := ⟨node, pending⟩ :: outer } u v :=
    fun u v hnot hawaits => hnot ((awaits_advance hframes).2 (Or.inr hawaits))
  constructor
  · intro u v hlink
    exact hless u v (h.links u v ((links_advance hframes).1 hlink))
  · intro u v hmem
    exact ⟨(h.circled u v hmem).1, hless u v (h.circled u v hmem).2⟩

theorem Looked.enter (ha : Aligned g included s) (h : Looked g s)
    (hnew : s.visited[target]? = some false)
    (hlooked : ∀ u ∈ s.stack.head?, ¬s.Awaits u target) : Looked g (s.enter g target) := by
  have hbefore : ∀ u v, s.visited[u]? = some true → (s.enter g target).Awaits u v → s.Awaits u v :=
    fun u v hu hawaits => (awaits_enter.1 hawaits).resolve_left fun heq =>
      ne_of_visited hu hnew heq.1
  constructor
  · intro u v hlink hawaits
    have hu : u ∈ s.stack := by
      rcases links_enter.1 hlink with ⟨_, hhead⟩ | hlink
      · exact List.mem_of_mem_head? hhead
      · exact hlink.mem_stack.1
    have hold := hbefore u v (ha.visited_of_mem u hu) hawaits
    rcases links_enter.1 hlink with ⟨rfl, hhead⟩ | hlink
    · exact hlooked u hhead hold
    · exact h.links u v hlink hold
  · intro u v hmem
    obtain ⟨hu, hnot⟩ := h.circled u v hmem
    exact ⟨(visited_enter_iff hnew).2 (Or.inr hu), fun hawaits => hnot (hbefore u v hu hawaits)⟩

theorem Looked.leave (h : Looked g s) (hframes : s.frames = ⟨node, []⟩ :: outer) :
    Looked g (s.leave node outer) := by
  constructor
  · intro u v hlink hawaits
    exact h.links u v ((links_leave hframes).2 (Or.inr hlink)) ((awaits_leave hframes).2 hawaits)
  · intro u v hmem
    obtain ⟨hu, hnot⟩ := h.circled u v hmem
    exact ⟨hu, fun hawaits => hnot ((awaits_leave hframes).2 hawaits)⟩

theorem Looked.close (ha : Aligned g included s) (h : Looked g s)
    (hframes : s.frames = ⟨node, pending⟩ :: outer) (hmem : target ∈ s.stack)
    (hlooked : ¬s.Awaits node target) : Looked g (s.close target) := by
  refine ⟨h.links, fun u v hcircled => ?_⟩
  rw [circledEdges_close] at hcircled
  rcases List.mem_append.1 hcircled with hcircled | hcircled
  · exact h.circled u v hcircled
  · -- The edges of the new cycle lie along the path, but for the one just looked at.
    obtain ⟨front, back, hstack⟩ := List.append_of_mem hmem
    have hlinks : ∀ u v, s.Links u v → s.visited[u]? = some true ∧ ¬s.Awaits u v :=
      fun u v hlink => ⟨ha.visited_of_mem u hlink.mem_stack.1, h.links u v hlink⟩
    rw [forall_links_iff, hstack, List.isChain_split] at hlinks
    have hnode : node ∈ s.stack := by simp [State.stack, hframes]
    exact (ha.forall_edges_circle hframes hstack).2
      ⟨hlinks.1, ha.visited_of_mem node hnode, hlooked⟩ (u, v) hcircled

theorem Looked.move (hwf : g.WellFormed) (ha : Aligned g included s) (h : Looked g s)
    (hmove : Move g included s s') : Looked g s' := by
  cases hmove with
  | @skipRoot root roots _ _ _ => exact h.skipRoot roots
  | @enterRoot root roots hframes _ hnew _ =>
      refine (h.skipRoot roots).enter (ha.congr roots s.found) hnew ?_
      simp [State.stack, hframes]
  | leave hframes => exact h.leave hframes
  | pass hframes _ => exact h.advance hframes
  | close hframes _ hon =>
      refine (h.advance hframes).close (ha.advance hframes) rfl ?_
        (ha.not_awaits_advance hwf hframes)
      rw [stack_advance hframes]
      exact (ha.onPath_iff _).1 hon
  | enter hframes _ hnew =>
      refine (h.advance hframes).enter (ha.advance hframes) hnew ?_
      intro u hu
      obtain rfl : _ = u := by simpa [State.stack] using hu
      exact ha.not_awaits_advance hwf hframes

/-! ## No cycle goes along an edge passed over -/

theorem State.Skips.awaits (h : s.Skips u v) : s.Awaits u v := by
  obtain ⟨⟨pending, outer, hframes⟩, _⟩ := h
  exact ⟨_, hframes ▸ List.mem_cons_self, rfl, List.mem_cons_self⟩

/-- A node that was left, and an edge to it that is on no cycle found. -/
structure Missed (g : Graph) (s : State) (u v : Nat) : Prop where
  visited : s.visited[v]? = some true
  left : v ∉ s.stack
  not_circled : (u, v) ∉ s.circledEdges g

theorem Missed.enter (h : Missed g s u v) (hnew : s.visited[target]? = some false) :
    Missed g (s.enter g target) u v := by
  refine ⟨(visited_enter_iff hnew).2 (Or.inr h.visited), ?_, h.not_circled⟩
  rw [stack_enter, List.mem_cons, not_or]
  exact ⟨ne_of_visited h.visited hnew, h.left⟩

theorem Missed.move (ha : Aligned g included s) (h : Missed g s u v)
    (hmove : Move g included s s') : Missed g s' u v := by
  have hadvance : ∀ {node target pending outer}, s.frames = ⟨node, target :: pending⟩ :: outer →
      Missed g { s with frames := ⟨node, pending⟩ :: outer } u v := fun hframes =>
    ⟨h.visited, stack_advance hframes ▸ h.left, h.not_circled⟩
  cases hmove with
  | @skipRoot root roots _ _ _ => exact ⟨h.visited, h.left, h.not_circled⟩
  | @enterRoot root roots _ _ hnew _ =>
      exact Missed.enter (s := { s with roots }) ⟨h.visited, h.left, h.not_circled⟩ hnew
  | leave hframes =>
      refine ⟨h.visited, fun hmem => h.left ?_, h.not_circled⟩
      rw [stack_leave hframes]
      exact List.mem_cons_of_mem _ hmem
  | pass hframes _ => exact hadvance hframes
  | @close node target pending outer hframes _ _ =>
      refine ⟨h.visited, (hadvance hframes).left, ?_⟩
      rw [circledEdges_close, List.mem_append, not_or]
      refine ⟨h.not_circled, fun hmem => h.left ?_⟩
      -- The new cycle is a part of the path.
      have hpath := (circle_suffix _ target).mem (Graph.mem_of_mem_edges hmem).2
      rwa [(ha.advance hframes).path_eq, List.mem_reverse, stack_advance hframes] at hpath
  | enter hframes _ hnew => exact (hadvance hframes).enter hnew

theorem PassesOver.not_circled (hwf : g.WellFormed) (h : PassesOver g included u v) :
    (u, v) ∉ (final g included false).circledEdges g := by
  obtain ⟨steps, hskips⟩ := h
  obtain ⟨ha, hlooked⟩ : Aligned g included ((State.initial g).run g included false steps) ∧
      Looked g ((State.initial g).run g included false steps) :=
    run_induct (P := fun s => Aligned g included s ∧ Looked g s) false
      (fun hs hmove => ⟨hs.1.move hmove, hs.2.move hwf hs.1 hmove⟩) steps
      ⟨aligned_initial g included, looked_initial g⟩
  have hmissed : Missed g ((State.initial g).run g included false steps) u v := by
    refine ⟨hskips.2.1, fun hmem => ?_, fun hmem => (hlooked.circled u v hmem).2 hskips.awaits⟩
    rw [← ha.onPath_iff, hskips.2.2] at hmem
    cases hmem
  rw [final_eq_run hwf included steps]
  exact (run_induct (P := fun s => Aligned g included s ∧ Missed g s u v) false
    (fun hs hmove => ⟨hs.1.move hmove, hs.2.move hs.1 hmove⟩) _ ⟨ha, hmissed⟩).2.not_circled

end LayerLint.CycleWalk
