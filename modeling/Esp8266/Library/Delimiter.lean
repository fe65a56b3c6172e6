import Esp8266.Library.Substring

/-! A stream up to a delimiter whose first element does not occur in it again, so that a partial
match that fails is put out as a whole. -/
namespace Esp8266.Delimiter
open Esp8266.Substring

variable [DecidableEq α]

def scan (delimiter : List α) : List α → Nat → List α × Option (List α)
  | [], _ => ([], none)
  | c :: rest, matched =>
    if delimiter[matched]? = some c then
      if matched + 1 = delimiter.length then ([], some rest) else scan delimiter rest (matched + 1)
    else if delimiter[0]? = some c then
      let r := scan delimiter rest 1
      (delimiter.take matched ++ r.1, r.2)
    else
      let r := scan delimiter rest 0
      (delimiter.take matched ++ c :: r.1, r.2)

theorem firstIndex_behind {sub before text : List α}
    (h : ∀ i, i < before.length → ¬ sub <+: (before ++ text).drop i) :
    firstIndex sub (before ++ text) = (firstIndex sub text).map (· + before.length) := by
  induction before with
  | nil => cases hfirst : firstIndex sub text <;> simp [hfirst]
  | cons x before ih =>
    have hhere : ¬ sub <+: x :: (before ++ text) := h 0 (by simp)
    have hrest := ih (fun i hi => h (i + 1) (by simpa using hi))
    rw [List.cons_append, firstIndex, if_neg hhere, hrest]
    cases firstIndex sub text with
    | none => rfl
    | some i => simp [Nat.add_assoc]

theorem firstIndex_here {sub text : List α} (h : sub <+: text) : firstIndex sub text = some 0 := by
  cases text with
  | nil => rw [firstIndex, if_pos (List.prefix_nil.mp h)]
  | cons x rest => rw [firstIndex, if_pos h]

/-- No occurrence starts in `before`, where `text` is behind it. -/
def Absent (sub before text : List α) : Prop :=
  ∀ i, i < before.length → ¬ sub <+: (before ++ text).drop i

def behind (sub text : List α) : Option (List α) :=
  (firstIndex sub text).map fun i => text.drop (i + sub.length)

omit [DecidableEq α] in
theorem absent_cons {sub before text : List α} {x : α} (hhere : ¬ sub <+: x :: (before ++ text))
    (h : Absent sub before text) : Absent sub (x :: before) text := by
  intro i hi
  cases i with
  | zero => exact hhere
  | succ i => exact h i (Nat.lt_of_succ_lt_succ hi)

omit [DecidableEq α] in
theorem absent_append {sub before before' text : List α} (h : Absent sub before (before' ++ text))
    (h' : Absent sub before' text) : Absent sub (before ++ before') text := by
  induction before with
  | nil => exact h'
  | cons x before ih =>
    have hhere := h 0 (Nat.succ_pos _)
    rw [List.drop_zero, List.cons_append, ← List.append_assoc] at hhere
    exact absent_cons hhere (ih fun i hi => h (i + 1) (Nat.succ_lt_succ hi))

theorem behind_absent {sub before text : List α} (h : Absent sub before text) :
    behind sub (before ++ text) = behind sub text := by
  unfold behind
  rw [firstIndex_behind h, Option.map_map]
  congr 1
  funext i
  rw [Function.comp_apply, Nat.add_right_comm, Nat.add_comm, ← List.drop_drop, List.drop_left]

theorem behind_here (sub text : List α) : behind sub (sub ++ text) = some text := by
  unfold behind
  rw [firstIndex_here (List.prefix_append sub text), Option.map_some, Nat.zero_add,
    List.drop_left]

theorem behind_nil {sub : List α} (h : sub ≠ []) : behind sub [] = none := by
  unfold behind firstIndex
  rw [if_neg h]
  rfl

omit [DecidableEq α] in
theorem delimited_inj {x : α} {text text' rest rest' : List α} (h : x ∉ text) (h' : x ∉ text')
    (heq : text ++ x :: rest = text' ++ x :: rest') : text = text' ∧ rest = rest' := by
  induction text generalizing text' with
  | nil =>
    cases text' with
    | nil => exact ⟨rfl, (List.cons.inj heq).2⟩
    | cons c text' => exact absurd (List.cons.inj heq).1 (fun hc => h' (hc ▸ List.mem_cons_self))
  | cons c text ih =>
    cases text' with
    | nil => exact absurd (List.cons.inj heq).1 (fun hc => h (hc ▸ List.mem_cons_self))
    | cons c' text' =>
      obtain ⟨rfl, hrest⟩ := List.cons.inj heq
      obtain ⟨rfl, hafter⟩ := ih (fun hmem => h (List.mem_cons_of_mem _ hmem))
        (fun hmem => h' (List.mem_cons_of_mem _ hmem)) hrest
      exact ⟨rfl, hafter⟩

variable {delimiter tail : List α} {x : α}

omit [DecidableEq α] in
theorem not_occurs_inside (hdelimiter : delimiter = x :: tail) (hx : x ∉ tail)
    {matched : Nat} {c : α} {rest : List α} (hmatched : matched < delimiter.length)
    (hc : delimiter[matched]? ≠ some c) (i : Nat) (hi : i < (delimiter.take matched).length) :
    ¬ delimiter <+: (delimiter.take matched ++ c :: rest).drop i := by
  rw [List.length_take] at hi
  rintro ⟨after, hafter⟩
  by_cases hzero : i = 0
  · have hat := congrArg (·[matched]?) hafter
    simp only [hzero, List.drop_zero] at hat
    rw [List.getElem?_append_left hmatched, List.getElem?_append_right (by
      rw [List.length_take]
      omega), List.length_take, Nat.min_eq_left (by omega), Nat.sub_self] at hat
    exact hc hat
  · have hat := congrArg (·[0]?) hafter
    have hsource : (delimiter.take matched ++ c :: rest)[i]? = delimiter[i]? := by
      rw [List.getElem?_append_left (by rw [List.length_take]; omega),
        List.getElem?_take_of_lt (by omega)]
    simp only [List.getElem?_drop, Nat.add_zero] at hat
    rw [hsource, hdelimiter, List.cons_append, List.getElem?_cons_zero,
      show i = i - 1 + 1 by omega, List.getElem?_cons_succ] at hat
    exact hx (List.mem_of_getElem? hat.symm)

theorem scan_eq (hdelimiter : delimiter = x :: tail) (hx : x ∉ tail) (htail : tail ≠ [])
    (text : List α) (matched : Nat) (hmatched : matched < delimiter.length) :
    (∀ i, firstIndex delimiter (delimiter.take matched ++ text) = some i →
      scan delimiter text matched = ((delimiter.take matched ++ text).take i,
        some ((delimiter.take matched ++ text).drop (i + delimiter.length)))) ∧
    (firstIndex delimiter (delimiter.take matched ++ text) = none →
      (scan delimiter text matched).2 = none) := by
  have hlength : 1 < delimiter.length := by
    rw [hdelimiter, List.length_cons]
    have hpositive := List.length_pos_iff.mpr htail
    omega
  have hhead : delimiter[0]? = some x := by
    rw [hdelimiter]
    rfl
  induction text generalizing matched with
  | nil =>
    refine ⟨fun i hi => ?_, fun _ => rfl⟩
    obtain ⟨⟨after, hafter⟩, -, -⟩ := firstIndex_some hi
    have hsize := congrArg List.length hafter
    rw [List.append_nil, List.length_append, List.length_drop, List.length_take] at hsize
    omega
  | cons c rest ih =>
    rw [scan]
    by_cases hc : delimiter[matched]? = some c
    · have hmore : delimiter.take matched ++ c :: rest = delimiter.take (matched + 1) ++ rest := by
        rw [List.take_add_one, hc, List.append_assoc]
        rfl
      rw [if_pos hc, hmore]
      by_cases hlast : matched + 1 = delimiter.length
      · rw [if_pos hlast, hlast, List.take_length,
          firstIndex_here (List.prefix_append delimiter rest)]
        refine ⟨fun i hi => ?_, fun h => absurd h (by simp)⟩
        cases hi
        rw [List.take_zero, Nat.zero_add, List.drop_left]
      · rw [if_neg hlast]
        exact ih (matched + 1) (by omega)
    · rw [if_neg hc]
      have hbehind : firstIndex delimiter (delimiter.take matched ++ c :: rest) = _ :=
        firstIndex_behind (not_occurs_inside hdelimiter hx hmatched hc)
      have hsize : (delimiter.take matched).length = matched := by
        rw [List.length_take]
        omega
      rw [hsize] at hbehind
      have hout : ∀ (first : List α) (i : Nat),
          (delimiter.take matched ++ first).take (i + matched) =
              delimiter.take matched ++ first.take i ∧
            (delimiter.take matched ++ first).drop (i + matched + delimiter.length) =
              first.drop (i + delimiter.length) := by
        intro first i
        constructor
        · rw [List.take_append, hsize, List.take_of_length_le (by omega)]
          congr 1
          congr 1
          omega
        · rw [List.drop_append, hsize, List.drop_of_length_le (by omega), List.nil_append]
          congr 1
          omega
      by_cases hfirst : delimiter[0]? = some c
      · obtain ⟨hsome, hnone⟩ := ih 1 hlength
        have hone : delimiter.take 1 ++ rest = c :: rest := by
          rw [List.take_add_one, hfirst]
          rfl
        rw [hone] at hsome hnone
        rw [if_pos hfirst]
        constructor
        · intro i hi
          rw [hbehind] at hi
          obtain ⟨j, hj, rfl⟩ := Option.map_eq_some_iff.mp hi
          simp only [hsome j hj, (hout _ j).1, (hout _ j).2]
        · intro hno
          rw [hbehind] at hno
          exact hnone (Option.map_eq_none_iff.mp hno)
      · obtain ⟨hsome, hnone⟩ := ih 0 (by omega)
        rw [List.take_zero, List.nil_append] at hsome hnone
        have hskip : firstIndex delimiter (c :: rest) = (firstIndex delimiter rest).map (· + 1) := by
          have hnot : ¬ delimiter <+: c :: rest := by
            rw [hdelimiter, List.cons_prefix_cons]
            rintro ⟨heq, -⟩
            rw [hhead, heq] at hfirst
            exact hfirst rfl
          rw [firstIndex, if_neg hnot]
        rw [if_neg hfirst]
        rw [hskip] at hbehind
        constructor
        · intro i hi
          rw [hbehind] at hi
          obtain ⟨k, hk, rfl⟩ := Option.map_eq_some_iff.mp hi
          obtain ⟨j, hj, rfl⟩ := Option.map_eq_some_iff.mp hk
          simp only [hsome j hj, (hout _ (j + 1)).1, (hout _ (j + 1)).2, List.take_succ_cons]
          rw [Nat.add_right_comm, List.drop_succ_cons]
        · intro hno
          rw [hbehind] at hno
          exact hnone (Option.map_eq_none_iff.mp (Option.map_eq_none_iff.mp hno))

theorem firstIndex_append {sub text : List α} {i : Nat} (more : List α)
    (h : firstIndex sub text = some i) : firstIndex sub (text ++ more) = some i := by
  induction text generalizing i with
  | nil =>
    rw [firstIndex] at h
    split at h
    · rename_i hsub
      cases h
      rw [hsub]
      exact firstIndex_here List.nil_prefix
    · cases h
  | cons y rest ih =>
    rw [firstIndex] at h
    split at h
    · rename_i hhere
      cases h
      exact firstIndex_here (List.IsPrefix.trans hhere (List.prefix_append _ _))
    · rename_i hhere
      obtain ⟨j, hj, rfl⟩ := Option.map_eq_some_iff.mp h
      obtain ⟨hoccurs, -, -⟩ := firstIndex_some hj
      have hfits : sub.length ≤ (y :: rest).length := by
        have hlength := hoccurs.length_le
        rw [List.length_drop] at hlength
        rw [List.length_cons]
        omega
      have hnot : ¬ sub <+: y :: (rest ++ more) := by
        intro hleads
        exact hhere (List.prefix_of_prefix_length_le hleads
          (List.prefix_append (y :: rest) more) hfits)
      rw [List.cons_append, firstIndex, if_neg hnot, ih hj]
      rfl

theorem firstIndex_stream (hdelimiter : delimiter = x :: tail) (hx : x ∉ tail)
    (text rest : List α) :
    firstIndex delimiter (text ++ (delimiter ++ rest)) =
      some ((firstIndex delimiter text).getD text.length) := by
  cases hfirst : firstIndex delimiter text with
  | some i =>
    rw [firstIndex_append _ hfirst]
    rfl
  | none =>
    have hinside : ∀ i, i < text.length →
        ¬ delimiter <+: (text ++ (delimiter ++ rest)).drop i := by
      intro i hi hleads
      rw [List.drop_append_of_le_length (Nat.le_of_lt hi)] at hleads
      have hnot := firstIndex_none hfirst i
      have hpositive : 0 < (text.drop i).length := by
        rw [List.length_drop]
        omega
      by_cases hfits : delimiter.length ≤ (text.drop i).length
      · exact hnot (List.prefix_of_prefix_length_le hleads (List.prefix_append _ _) hfits)
      · -- its first element would lie on a later one
        obtain ⟨after, hafter⟩ := hleads
        have hat := congrArg (·[(text.drop i).length]?) hafter
        rw [List.getElem?_append_left (by omega),
          List.getElem?_append_right (Nat.le_refl _), Nat.sub_self, hdelimiter, List.cons_append,
          List.getElem?_cons_zero,
          show (text.drop i).length = (text.drop i).length - 1 + 1 by omega,
          List.getElem?_cons_succ] at hat
        exact hx (List.mem_of_getElem? hat)
    rw [firstIndex_behind hinside, firstIndex_here (List.prefix_append delimiter rest),
      Option.map_some, Nat.zero_add]
    rfl

end Esp8266.Delimiter
