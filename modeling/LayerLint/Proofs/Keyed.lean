import Mathlib.Data.List.Induction
import Mathlib.Data.List.Nodup

/-!
# Lists by key

The distinct items of a list in the order they first occur, the items of a list that have a given
key, and sorting by a key. A sort that keeps items of one key in their order is settled by the items
of each key.
-/

namespace LayerLint.Keyed

variable {α β κ : Type}

/-! ## Distinct items -/

section Distinct

variable [BEq α] [LawfulBEq α] {l : List α} {a : α}

theorem eraseDups_concat_mem (h : a ∈ l) : (l ++ [a]).eraseDups = l.eraseDups := by
  simp [List.eraseDups_append, List.removeAll, h]

theorem eraseDups_concat_new (h : a ∉ l) : (l ++ [a]).eraseDups = l.eraseDups ++ [a] := by
  simp [List.eraseDups_append, List.removeAll, List.eraseDups_cons, h]

theorem eraseDups_insert {l' : List α} (h : a ∉ l) (h' : a ∉ l') :
    (l ++ a :: l').eraseDups = l.eraseDups ++ a :: (l'.removeAll l).eraseDups := by
  have hother : (l'.removeAll l).filter (fun b => !b == a) = l'.removeAll l := by
    refine List.filter_eq_self.2 fun b hb => ?_
    have hb : b ∈ l' := List.mem_of_mem_filter hb
    simpa using fun heq : b = a => h' (heq ▸ hb)
  have hremove : (a :: l').removeAll l = a :: l'.removeAll l := by
    simp [List.removeAll, h]
  rw [List.eraseDups_append, hremove, List.eraseDups_cons, hother]

theorem eraseDups_map [BEq β] [LawfulBEq β] {f : α → β} (l : List α)
    (hf : ∀ a ∈ l, ∀ b ∈ l, f a = f b → a = b) : (l.map f).eraseDups = l.eraseDups.map f := by
  induction l using List.reverseRecOn with
  | nil => rfl
  | append_singleton l a ih =>
      have hinit : ∀ b ∈ l, ∀ c ∈ l, f b = f c → b = c := fun b hb c hc =>
        hf b (List.mem_append_left _ hb) c (List.mem_append_left _ hc)
      rw [List.map_append, List.map_singleton]
      by_cases ha : a ∈ l
      · rw [eraseDups_concat_mem ha, eraseDups_concat_mem (List.mem_map_of_mem ha), ih hinit]
      · have hnew : f a ∉ l.map f := by
          intro hmem
          obtain ⟨b, hb, hba⟩ := List.mem_map.1 hmem
          exact ha (hf b (List.mem_append_left _ hb) a (by simp) hba ▸ hb)
        rw [eraseDups_concat_new ha, eraseDups_concat_new hnew, ih hinit, List.map_append,
          List.map_singleton]

end Distinct

theorem nodup_iff_notMem_take {l : List α} :
    l.Nodup ↔ ∀ i a, l[i]? = some a → a ∉ l.take i := by
  rw [List.nodup_iff_getElem?_ne_getElem?]
  constructor
  · intro h i a ha hmem
    obtain ⟨k, hk⟩ := List.mem_iff_getElem?.1 hmem
    rw [List.getElem?_take] at hk
    split at hk
    · rename_i hlt
      exact h k i hlt (List.getElem?_eq_some_iff.1 ha).1 (hk.trans ha.symm)
    · cases hk
  · intro h i j hlt hj heq
    rw [List.getElem?_eq_getElem hj] at heq
    have hearlier : (l.take j)[i]? = some l[j] := by rw [List.getElem?_take, if_pos hlt, heq]
    exact h j _ (List.getElem?_eq_getElem hj) (List.mem_of_getElem? hearlier)

/-! ## Items of one key -/

theorem flatMap_filter (p : α → Bool) (items : α → List β) (parts : List α) :
    (parts.filter p).flatMap items = parts.flatMap fun a => if p a then items a else [] := by
  induction parts with
  | nil => rfl
  | cons a parts ih =>
      rw [List.filter_cons, List.flatMap_cons, ← ih]
      split
      · rw [List.flatMap_cons]
      · rfl

variable [DecidableEq κ] {key : β → κ}

/-- Where each part of a list has a key of its own, the items of a key are the part of that key. -/
theorem filter_flatMap_part {parts : List α} {keyOf : α → κ} {items : α → List β}
    (hparts : (parts.map keyOf).Nodup) (hitems : ∀ a, ∀ b ∈ items a, key b = keyOf a) {a : α}
    (ha : a ∈ parts) : (parts.flatMap items).filter (fun b => key b = keyOf a) = items a := by
  have hall : ∀ c, keyOf c = keyOf a → (items c).filter (fun b => key b = keyOf a) = items c := by
    intro c hc
    refine List.filter_eq_self.2 fun b hb => ?_
    simpa [hitems c b hb] using hc
  have hnone : ∀ c, keyOf c ≠ keyOf a → (items c).filter (fun b => key b = keyOf a) = [] := by
    intro c hc
    refine List.filter_eq_nil_iff.2 fun b hb => ?_
    simpa [hitems c b hb] using hc
  obtain ⟨before, behind, rfl⟩ := List.append_of_mem ha
  -- The part of the key stands once; the parts before and behind it have other keys.
  simp only [List.map_append, List.map_cons, List.nodup_append, List.nodup_cons] at hparts
  have hbefore : ∀ c ∈ before, (items c).filter (fun b => key b = keyOf a) = [] := fun c hc =>
    hnone c (hparts.2.2 _ (List.mem_map_of_mem hc) _ List.mem_cons_self)
  have hbehind : ∀ c ∈ behind, (items c).filter (fun b => key b = keyOf a) = [] := fun c hc =>
    hnone c fun heq => hparts.2.1.1 (heq ▸ List.mem_map_of_mem hc)
  rw [List.flatMap_append, List.flatMap_cons, List.filter_append, List.filter_append,
    List.filter_flatMap, List.filter_flatMap, hall a rfl, List.flatMap_eq_nil_iff.2 hbefore,
    List.flatMap_eq_nil_iff.2 hbehind]
  simp

theorem filter_flatMap_other {parts : List α} {keyOf : α → κ} {items : α → List β}
    (hitems : ∀ a, ∀ b ∈ items a, key b = keyOf a) {k : κ} (hk : k ∉ parts.map keyOf) :
    (parts.flatMap items).filter (fun b => key b = k) = [] := by
  refine List.filter_eq_nil_iff.2 fun b hb => ?_
  obtain ⟨a, ha, hba⟩ := List.mem_flatMap.1 hb
  rw [hitems a b hba, decide_eq_true_eq]
  exact fun heq => hk (heq ▸ List.mem_map_of_mem ha)

/-! ## Sorting by a key -/

theorem mem_iff_of_filter {l l' : List β}
    (h : ∀ k, l.filter (fun b => key b = k) = l'.filter (fun b => key b = k)) (b : β) :
    b ∈ l ↔ b ∈ l' := by
  have hb := congrArg (b ∈ ·) (h (key b))
  simpa using hb

/-- Two lists in the order of their keys are the same if they have the same items of each key. -/
theorem eq_of_sorted {r : κ → κ → Prop} (hr : ∀ j k, r j k → r k j → j = k) {l l' : List β}
    (hl : l.Pairwise fun a b => r (key a) (key b)) (hl' : l'.Pairwise fun a b => r (key a) (key b))
    (h : ∀ k, l.filter (fun b => key b = k) = l'.filter (fun b => key b = k)) : l = l' := by
  induction l generalizing l' with
  | nil =>
      cases l' with
      | nil => rfl
      | cons b t' => exact absurd ((mem_iff_of_filter h b).2 List.mem_cons_self) List.not_mem_nil
  | cons a t ih =>
      cases l' with
      | nil => exact absurd ((mem_iff_of_filter h a).1 List.mem_cons_self) List.not_mem_nil
      | cons b t' =>
          obtain ⟨ha, ht⟩ := List.pairwise_cons.1 hl
          obtain ⟨hb, ht'⟩ := List.pairwise_cons.1 hl'
          -- The first items have the same key: each stands at or behind the other.
          have hkey : key a = key b := by
            rcases List.mem_cons.1 ((mem_iff_of_filter h b).2 List.mem_cons_self) with rfl | hbt
            · rfl
            · rcases List.mem_cons.1 ((mem_iff_of_filter h a).1 List.mem_cons_self) with rfl | hat'
              · rfl
              · exact hr _ _ (ha b hbt) (hb a hat')
          obtain rfl : a = b := by
            have hfirst := h (key a)
            rw [List.filter_cons_of_pos (by simp),
              List.filter_cons_of_pos (by simp [hkey])] at hfirst
            exact (List.cons.inj hfirst).1
          refine congrArg (a :: ·) (ih ht ht' fun k => ?_)
          have hk := h k
          by_cases hak : key a = k
          · rw [List.filter_cons_of_pos (by simp [hak]),
              List.filter_cons_of_pos (by simp [hak])] at hk
            exact (List.cons.inj hk).2
          · rwa [List.filter_cons_of_neg (by simp [hak]),
              List.filter_cons_of_neg (by simp [hak])] at hk

/-- A test that puts keys in one order. -/
structure Linear (le : κ → κ → Bool) : Prop where
  trans : ∀ a b c, le a b = true → le b c = true → le a c = true
  total : ∀ a b, (le a b || le b a) = true
  antisymm : ∀ a b, le a b = true → le b a = true → a = b

variable {le : κ → κ → Bool}

omit [DecidableEq κ] in
theorem Linear.sorted_mergeSort (h : Linear le) (l : List β) :
    (l.mergeSort fun a b => le (key a) (key b)).Pairwise fun a b => le (key a) (key b) = true :=
  List.pairwise_mergeSort (fun a b c => h.trans (key a) (key b) (key c))
    (fun a b => h.total (key a) (key b)) l

/-- The sort keeps the items of one key in their order. -/
theorem Linear.filter_key_mergeSort (h : Linear le) (l : List β) (k : κ) :
    (l.mergeSort fun a b => le (key a) (key b)).filter (fun b => key b = k) =
      l.filter (fun b => key b = k) := by
  have hrefl : le k k = true := by simpa using h.total k k
  have hequal : (l.filter fun b => key b = k).Pairwise fun a b => le (key a) (key b) = true := by
    refine List.pairwise_of_forall_mem_list fun a ha b hb => ?_
    obtain ⟨_, hka⟩ := List.mem_filter.1 ha
    obtain ⟨_, hkb⟩ := List.mem_filter.1 hb
    rw [of_decide_eq_true hka, of_decide_eq_true hkb, hrefl]
  have hsub : (l.filter fun b => key b = k).Sublist
      ((l.mergeSort fun a b => le (key a) (key b)).filter fun b => key b = k) := by
    have hsorted : (l.filter fun b => key b = k).Sublist
        (l.mergeSort fun a b => le (key a) (key b)) :=
      List.sublist_mergeSort (fun a b c => h.trans (key a) (key b) (key c))
        (fun a b => h.total (key a) (key b)) hequal List.filter_sublist
    simpa [List.filter_filter] using hsorted.filter fun b => decide (key b = k)
  exact (hsub.eq_of_length ((List.mergeSort_perm l _).filter _).length_eq.symm).symm

theorem Linear.mergeSort_congr (h : Linear le) {l l' : List β}
    (hsame : ∀ k, l.filter (fun b => key b = k) = l'.filter (fun b => key b = k)) :
    (l.mergeSort fun a b => le (key a) (key b)) = l'.mergeSort fun a b => le (key a) (key b) := by
  refine eq_of_sorted (r := fun a b => le a b = true) h.antisymm (h.sorted_mergeSort l)
    (h.sorted_mergeSort l') fun k => ?_
  rw [h.filter_key_mergeSort, h.filter_key_mergeSort, hsame k]

/-- To sort and then leave items out is to leave them out and then sort. -/
theorem Linear.filter_mergeSort (h : Linear le) (p : β → Bool) (l : List β) :
    (l.mergeSort fun a b => le (key a) (key b)).filter p =
      (l.filter p).mergeSort fun a b => le (key a) (key b) := by
  have hcomm : ∀ (l : List β) (k : κ), (l.filter p).filter (fun b => key b = k) =
      (l.filter fun b => key b = k).filter p := by
    intro l k
    simp only [List.filter_filter, Bool.and_comm]
  refine eq_of_sorted (r := fun a b => le a b = true) h.antisymm ((h.sorted_mergeSort l).filter p)
    (h.sorted_mergeSort _) fun k => ?_
  rw [hcomm, h.filter_key_mergeSort, h.filter_key_mergeSort, hcomm]

end LayerLint.Keyed
