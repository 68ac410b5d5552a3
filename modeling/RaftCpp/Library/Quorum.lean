import Mathlib.Data.Finset.Card
import Mathlib.Order.Bounds.Defs

/-!
# Quorums

A quorum system is a family of sets any two of which share an element. The majorities of a finite set
form one. The middle one of some values, in ascending order, is the greatest that a majority of them reaches.
-/

namespace Consensus

/-- A family of sets any two of which intersect. -/
structure QuorumSystem (α : Type*) where
  /-- The sets of the family. -/
  IsQuorum : Set α → Prop
  /-- Any two of them share an element. -/
  inter : ∀ {Q Q' : Set α}, IsQuorum Q → IsQuorum Q' → ∃ x, x ∈ Q ∧ x ∈ Q'

/-- A quorum has an element. -/
theorem QuorumSystem.nonempty {α : Type*} (S : QuorumSystem α) {Q : Set α} (h : S.IsQuorum Q) :
    ∃ x, x ∈ Q := by
  obtain ⟨x, hx, -⟩ := S.inter h h
  exact ⟨x, hx⟩

/-- The sets that hold more than half of the given elements. -/
def majority {α : Type*} [DecidableEq α] (V : Finset α) : QuorumSystem α where
  IsQuorum Q := ∃ S : Finset α, S ⊆ V ∧ V.card < 2 * S.card ∧ ∀ x ∈ S, x ∈ Q
  inter := by
    rintro Q Q' ⟨S, hSV, hS, hSQ⟩ ⟨S', hSV', hS', hSQ'⟩
    -- Two disjoint majorities would be too large together.
    have hne : (S ∩ S').Nonempty := by
      rw [Finset.nonempty_iff_ne_empty]
      intro hempty
      have hdisj : Disjoint S S' := Finset.disjoint_iff_inter_eq_empty.mpr hempty
      have hcard := Finset.card_union_of_disjoint hdisj
      have hle := Finset.card_le_card (Finset.union_subset hSV hSV')
      omega
    obtain ⟨x, hx⟩ := hne
    rw [Finset.mem_inter] at hx
    exact ⟨x, hSQ x hx.1, hSQ' x hx.2⟩

/-- A finite set of more than half of the elements is a majority. -/
theorem majority_isQuorum {α : Type*} [DecidableEq α] {V S : Finset α} {Q : Set α} (hSV : S ⊆ V)
    (hS : V.card < 2 * S.card) (hQ : ∀ x ∈ S, x ∈ Q) : (majority V).IsQuorum Q :=
  ⟨S, hSV, hS, hQ⟩

/-- Whether a set holds a majority can be counted. -/
theorem majority_isQuorum_iff {α : Type*} [DecidableEq α] {V : Finset α} {Q : Set α}
    [DecidablePred (· ∈ Q)] :
    (majority V).IsQuorum Q ↔ V.card < 2 * (V.filter (· ∈ Q)).card := by
  constructor
  · rintro ⟨S, hSV, hS, hSQ⟩
    have hsub : S ⊆ V.filter (· ∈ Q) := fun x hx => Finset.mem_filter.mpr ⟨hSV hx, hSQ x hx⟩
    have hle := Finset.card_le_card hsub
    omega
  · intro h
    exact majority_isQuorum (Finset.filter_subset _ _) h fun x hx => (Finset.mem_filter.mp hx).2

/-- From the place of a value in ascending order, at least as many values as come after it are no
smaller. -/
theorem length_sub_le_countP {l : List ℕ} (hl : l.Pairwise (· ≤ ·)) {i v : ℕ} (hv : l[i]? = some v) :
    l.length - i ≤ l.countP (fun x => decide (v ≤ x)) := by
  obtain ⟨hi, rfl⟩ := List.getElem?_eq_some_iff.mp hv
  have hall : ∀ x ∈ l.drop i, l[i] ≤ x := by
    rw [List.drop_eq_getElem_cons hi]
    intro x hx
    rcases List.mem_cons.mp hx with rfl | hx
    · exact Nat.le_refl _
    · have hdrop := hl.sublist (List.drop_sublist i l)
      rw [List.drop_eq_getElem_cons hi, List.pairwise_cons] at hdrop
      exact hdrop.1 x hx
  calc l.length - i = (l.drop i).length := by rw [List.length_drop]
    _ = (l.drop i).countP (fun x => decide (l[i] ≤ x)) := by
      rw [List.countP_eq_length.mpr fun x hx => by simpa using hall x hx]
    _ ≤ l.countP (fun x => decide (l[i] ≤ x)) := (List.drop_sublist i l).countP_le

/-- That value is the greatest that so many values reach. -/
theorem isGreatest_countP {l : List ℕ} (hl : l.Pairwise (· ≤ ·)) {i v : ℕ} (hv : l[i]? = some v) :
    IsGreatest {n | l.length - i ≤ l.countP fun x => decide (n ≤ x)} v := by
  refine ⟨length_sub_le_countP hl hv, fun n hn => ?_⟩
  obtain ⟨hi, rfl⟩ := List.getElem?_eq_some_iff.mp hv
  by_contra hlt
  have hlt : l[i] < n := Nat.lt_of_not_le hlt
  -- No value up to that place reaches a greater one.
  have hnone : (l.take (i + 1)).countP (fun x => decide (n ≤ x)) = 0 := by
    rw [List.countP_eq_zero]
    intro x hx
    obtain ⟨j, hj, rfl⟩ := List.mem_take_iff_getElem.mp hx
    have hle : l[j] ≤ l[i] := by
      obtain hij | rfl : j < i ∨ j = i := by omega
      · exact List.pairwise_iff_getElem.mp hl j i _ hi hij
      · exact Nat.le_refl _
    simp only [decide_eq_true_eq]
    omega
  have hcount : l.countP (fun x => decide (n ≤ x)) = (l.drop (i + 1)).countP fun x => decide (n ≤ x) := by
    conv_lhs => rw [← List.take_append_drop (i + 1) l]
    rw [List.countP_append, hnone, Nat.zero_add]
  have hle := List.countP_le_length (p := fun x => decide (n ≤ x)) (l := l.drop (i + 1))
  have hn : l.length - i ≤ l.countP fun x => decide (n ≤ x) := hn
  rw [hcount] at hn
  rw [List.length_drop] at hle
  omega

end Consensus
