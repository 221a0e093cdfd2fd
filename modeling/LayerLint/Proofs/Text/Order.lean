import LayerLint.Proofs.Keyed
import LayerLint.Text.Split

/-!
# The order of texts
-/

namespace LayerLint.Text

theorem notAfter_cons_iff {a b : Char} {as bs : List Char} :
    notAfter (a :: as) (b :: bs) = true ↔
      a.toNat < b.toNat ∨ a = b ∧ notAfter as bs = true := by
  simp [notAfter, Char.toNat_inj]

theorem notAfter_total (as bs : List Char) : (notAfter as bs || notAfter bs as) = true := by
  induction as generalizing bs with
  | nil => simp [notAfter]
  | cons a as ih =>
      cases bs with
      | nil => simp [notAfter]
      | cons b bs =>
          rw [Bool.or_eq_true, notAfter_cons_iff, notAfter_cons_iff]
          rcases Nat.lt_trichotomy a.toNat b.toNat with hlt | heq | hgt
          · exact Or.inl (Or.inl hlt)
          · obtain rfl := Char.toNat_inj.1 heq
            rcases Bool.or_eq_true_iff.1 (ih bs) with h | h
            · exact Or.inl (Or.inr ⟨rfl, h⟩)
            · exact Or.inr (Or.inr ⟨rfl, h⟩)
          · exact Or.inr (Or.inl hgt)

theorem notAfter_trans (as bs cs : List Char) (hab : notAfter as bs = true)
    (hbc : notAfter bs cs = true) : notAfter as cs = true := by
  induction as generalizing bs cs with
  | nil => simp [notAfter]
  | cons a as ih =>
      cases bs with
      | nil => simp [notAfter] at hab
      | cons b bs =>
          cases cs with
          | nil => simp [notAfter] at hbc
          | cons c cs =>
              rw [notAfter_cons_iff] at hab hbc ⊢
              rcases hab with hab | ⟨rfl, hab⟩
              · rcases hbc with hbc | ⟨rfl, _⟩
                · exact Or.inl (Nat.lt_trans hab hbc)
                · exact Or.inl hab
              · exact hbc.imp_right fun ⟨heq, hbc⟩ => ⟨heq, ih bs cs hab hbc⟩

theorem notAfter_antisymm (as bs : List Char) (hab : notAfter as bs = true)
    (hba : notAfter bs as = true) : as = bs := by
  induction as generalizing bs with
  | nil =>
      cases bs with
      | nil => rfl
      | cons b bs => simp [notAfter] at hba
  | cons a as ih =>
      cases bs with
      | nil => simp [notAfter] at hab
      | cons b bs =>
          rw [notAfter_cons_iff] at hab hba
          rcases hab with hab | ⟨rfl, hab⟩
          · rcases hba with hba | ⟨rfl, _⟩
            · exact absurd hba (Nat.lt_asymm hab)
            · exact absurd hab (Nat.lt_irrefl _)
          · have hba := hba.resolve_left (Nat.lt_irrefl _)
            rw [ih bs hab hba.2]

theorem linear_notAfter : Keyed.Linear fun a b : String => notAfter a.toList b.toList where
  trans a b c := notAfter_trans a.toList b.toList c.toList
  total a b := notAfter_total a.toList b.toList
  antisymm a b hab hba := String.toList_inj.1 (notAfter_antisymm a.toList b.toList hab hba)

end LayerLint.Text
