import Mathlib.Data.List.Induction

/-! Looking for a pattern with one index into it. An element that does not continue the
match sends the index back to the first element or to none, whatever has matched before. -/
namespace Esp8266.Matching
variable {α : Type} {p : List α}

theorem take_succ_of {i : Nat} {c : α} (h : p[i]? = some c) : p.take (i + 1) = p.take i ++ [c] := by
  rw [List.take_add_one, h]
  rfl

variable [DecidableEq α]

/-- `again` is the index behind an element that does not continue the match. -/
def step (p : List α) (again : α → Nat) (i : Nat) (c : α) : Nat :=
  if p[i]? = some c then i + 1 else again c

def index (p : List α) (again : α → Nat) (text : List α) : Nat := text.foldl (step p again) 0

structure Restart (p : List α) (again : α → Nat) : Prop where
  le_one : ∀ c, again c ≤ 1
  first : ∀ c, again c = 1 → p[0]? = some c

/-- When the element `i` comes behind the first `q` elements, a match of `i + 1` elements
is given up. -/
structure Lost (p : List α) (again : α → Nat) (q i : Nat) : Prop where
  behind : i < q
  inside : q < p.length
  border : p.take i <:+ p.take q
  differ : p[i]? ≠ p[q]?
  dropped : ∀ c, p[i]? = some c → again c ≠ i + 1

section Index
variable {again : α → Nat}

@[simp] theorem index_nil : index p again [] = 0 := rfl

theorem index_snoc (text : List α) (c : α) :
    index p again (text ++ [c]) = step p again (index p again text) c := by
  unfold index
  rw [List.foldl_append]
  rfl

theorem index_append {text : List α} (h : index p again text = 0) (rest : List α) :
    index p again (text ++ rest) = index p again rest := by
  unfold index at h ⊢
  rw [List.foldl_append, h]

theorem step_sound (h : Restart p again) {i : Nat} {text : List α} (c : α)
    (hi : p.take i <:+ text) :
    step p again i c ≤ p.length ∧ p.take (step p again i c) <:+ text ++ [c] := by
  unfold step
  split
  · rename_i hc
    obtain ⟨hlt, -⟩ := List.getElem?_eq_some_iff.mp hc
    obtain ⟨before, rfl⟩ := hi
    refine ⟨hlt, before, ?_⟩
    rw [take_succ_of hc, List.append_assoc]
  · have hone := h.le_one c
    by_cases hzero : again c = 0
    · rw [hzero]
      exact ⟨Nat.zero_le _, List.nil_suffix⟩
    · have heq : again c = 1 := by omega
      have hc := h.first c heq
      obtain ⟨hlt, -⟩ := List.getElem?_eq_some_iff.mp hc
      rw [heq, take_succ_of hc]
      exact ⟨hlt, List.suffix_append _ _⟩

theorem index_sound (h : Restart p again) (text : List α) :
    index p again text ≤ p.length ∧ p.take (index p again text) <:+ text := by
  induction text using List.reverseRecOn with
  | nil => exact ⟨Nat.zero_le _, List.nil_suffix⟩
  | append_singleton text c ih =>
    rw [index_snoc]
    exact step_sound h c ih.2

theorem suffix_of_index (h : Restart p again) {text : List α}
    (hfull : index p again text = p.length) : p <:+ text := by
  have hsound := (index_sound h text).2
  rwa [hfull, List.take_length] at hsound

theorem index_le_succ (h : Restart p again) (text : List α) (c : α) :
    index p again (text ++ [c]) ≤ index p again text + 1 := by
  rw [index_snoc]
  unfold step
  split
  · exact Nat.le_refl _
  · have := h.le_one c
    omega

theorem index_take (j : Nat) (hj : j ≤ p.length) : index p again (p.take j) = j := by
  induction j with
  | zero => rw [List.take_zero, index_nil]
  | succ j ih =>
    have hc := List.getElem?_eq_getElem (show j < p.length from hj)
    rw [take_succ_of hc, index_snoc, ih (Nat.le_of_succ_le hj), step, if_pos hc]

theorem index_of_suffix (h : Restart p again) {text : List α} (hp : p <:+ text)
    (hearly : ∀ k < text.length, index p again (text.take k) ≠ p.length)
    (hlost : ∀ q i, Lost p again q i → ¬ p.take q ++ p.drop i <:+ text) :
    index p again text = p.length := by
  obtain ⟨before, rfl⟩ := hp
  -- the index is never smaller than what has been read of the occurrence
  have hrun : ∀ i ≤ p.length, i ≤ index p again (before ++ p.take i) := by
    intro i
    induction i with
    | zero => exact fun _ => Nat.zero_le _
    | succ i ih =>
      intro hi
      have hge := ih (Nat.le_of_succ_le hi)
      have hc := List.getElem?_eq_getElem (show i < p.length from hi)
      have hsound := index_sound h (before ++ p.take i)
      have hsofar : (before ++ p).take (before.length + i) = before ++ p.take i :=
        List.take_length_add_append i
      have hshort := hearly (before.length + i) (by rw [List.length_append]; omega)
      rw [hsofar] at hshort
      rw [take_succ_of hc, ← List.append_assoc, index_snoc]
      generalize index p again (before ++ p.take i) = q at hge hsound hshort
      unfold step
      split
      · exact Nat.succ_le_succ hge
      · rename_i hbreak
        have hne : q ≠ i := by
          rintro rfl
          exact hbreak hc
        have hborder : p.take i <:+ p.take q :=
          List.suffix_of_suffix_length_le (List.suffix_append _ _) hsound.2
            (by rw [List.length_take, List.length_take]; omega)
        refine Nat.le_of_not_lt fun hback => ?_
        refine hlost q i ⟨by omega, by omega, hborder, fun heq => hbreak (heq ▸ hc), ?_⟩ ?_
        · rintro c' hc' heq
          rw [hc] at hc'
          cases hc'
          omega
        · obtain ⟨front, hfront⟩ := hsound.2
          refine ⟨front, ?_⟩
          rw [← List.append_assoc, hfront, List.append_assoc, List.take_append_drop]
  have hall := hrun p.length (Nat.le_refl _)
  rw [List.take_length] at hall
  exact Nat.le_antisymm (index_sound h _).1 hall

theorem index_broken (h : Restart p again) {q i : Nat} (hl : Lost p again q i) (j : Nat) :
    index p again (p.take q ++ (p.drop i).take (j + 1)) ≤ i + j := by
  have hinside := hl.inside
  have hbehind := hl.behind
  induction j with
  | zero =>
    have hc := List.getElem?_eq_getElem (show i < p.length by omega)
    have hone : (p.drop i).take (0 + 1) = [p[i]] := by
      rw [List.take_add_one, List.getElem?_drop, Nat.add_zero, hc]
      rfl
    rw [hone, index_snoc, index_take q (Nat.le_of_lt hinside), step,
      if_neg (fun heq => hl.differ (hc.trans heq.symm))]
    have := h.le_one p[i]
    have := hl.dropped _ hc
    omega
  | succ j ih =>
    rw [List.take_add_one]
    cases hnext : (p.drop i)[j + 1]? with
    | none =>
      rw [Option.toList_none, List.append_nil]
      omega
    | some c =>
      have := index_le_succ h (p.take q ++ (p.drop i).take (j + 1)) c
      rw [Option.toList_some, ← List.append_assoc]
      omega

theorem index_lost (h : Restart p again) {q i : Nat} (hl : Lost p again q i) (k : Nat) :
    index p again ((p.take q ++ p.drop i).take k) < p.length := by
  have hinside := hl.inside
  have hbehind := hl.behind
  have hq : (p.take q).length = q := by
    rw [List.length_take]
    omega
  rw [List.take_append, hq]
  by_cases hk : k ≤ q
  · rw [Nat.sub_eq_zero_of_le hk, List.take_zero, List.append_nil, List.take_take,
      Nat.min_eq_left hk, index_take k (by omega)]
    omega
  · rw [List.take_of_length_le (by omega)]
    have htake : (p.drop i).take (k - q) =
        (p.drop i).take (min (k - q) (p.length - i) - 1 + 1) := by
      rw [Nat.sub_add_cancel (by omega), ← List.length_drop, ← List.take_eq_take_min]
    have := index_broken h hl (min (k - q) (p.length - i) - 1)
    rw [htake]
    omega

end Index

end Esp8266.Matching
