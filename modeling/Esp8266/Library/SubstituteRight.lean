import Esp8266.Library.Substring

/-! Substituting occurrences in place from the right, by a longer list, and when this
comes to the same as substituting them from the left. -/
namespace Esp8266.Substring

theorem prefix_of_period {period first second : List α} (hperiod : period ≠ [])
    (hfirst : first <+: period ++ first) (hsecond : second <+: period ++ second)
    (hle : first.length ≤ second.length) : first <+: second := by
  have hpos : 0 < period.length := List.length_pos_iff.mpr hperiod
  rw [List.prefix_iff_getElem?]
  intro i hi
  induction i using Nat.strongRecOn with
  | ind i ih =>
    have hleft := List.prefix_iff_getElem?.mp hfirst i hi
    have hright := List.prefix_iff_getElem?.mp hsecond i (by omega)
    rw [List.getElem?_eq_getElem (by omega), ← hright]
    rw [← hleft]
    by_cases hin : i < period.length
    · rw [List.getElem?_append_left hin, List.getElem?_append_left hin]
    · rw [List.getElem?_append_right (by omega), List.getElem?_append_right (by omega),
        ih (i - period.length) (by omega) (by omega), List.getElem?_eq_getElem]

variable [DecidableEq α]

def replaceAt (sub rep : List α) (i : Nat) (text : List α) : List α :=
  if sub <+: text.drop i then text.take i ++ rep ++ text.drop (i + sub.length) else text

def replaceDown (sub rep : List α) (lo : Nat) : Nat → List α → List α
  | 0, text => text
  | count + 1, text => replaceDown sub rep lo count (replaceAt sub rep (lo + count) text)

def substituteRight (sub rep text : List α) : List α :=
  replaceDown sub rep 0 text.length text

def countRight (sub rep : List α) : Nat → List α → Nat
  | 0, _ => 0
  | i + 1, text =>
      (if sub <+: text.drop i then 1 else 0) + countRight sub rep i (replaceAt sub rep i text)

/-- `sub` starts at none of the positions. -/
def Quiet (sub : List α) (lo count : Nat) (text : List α) : Prop :=
  ∀ i, lo ≤ i → i < lo + count → ¬ sub <+: text.drop i

def LastBefore (sub text : List α) (bound : Nat) (found : Option Nat) : Prop :=
  match found with
  | none => Quiet sub 0 bound text
  | some i => i < bound ∧ sub <+: text.drop i ∧ Quiet sub (i + 1) (bound - (i + 1)) text

/-- The scans from both sides find the same occurrences: none starts in a piece with `rep`
behind it, and none inside an occurrence with its rest substituted. -/
def Agrees (sub rep : List α) : List (List α) → Prop
  | [] => True
  | [_] => True
  | piece :: next :: rest =>
      Quiet sub 0 piece.length (piece ++ rep) ∧
        Quiet sub 1 (sub.length - 1) (sub ++ rep.intercalate (next :: rest)) ∧
        Agrees sub rep (next :: rest)

instance (sub : List α) (lo count : Nat) (text : List α) : Decidable (Quiet sub lo count text) :=
  decidable_of_iff (∀ i, i < lo + count → lo ≤ i → ¬ sub <+: text.drop i)
    ⟨fun h i hlo hi => h i hi hlo, fun h i hi hlo => h i hlo hi⟩

instance decidableAgrees (sub rep : List α) :
    (pieces : List (List α)) → Decidable (Agrees sub rep pieces)
  | [] => isTrue trivial
  | [_] => isTrue trivial
  | _ :: next :: rest =>
      have := decidableAgrees sub rep (next :: rest)
      inferInstanceAs (Decidable (_ ∧ _ ∧ _))

theorem replaceAt_append (sub rep before text : List α) (i : Nat) :
    replaceAt sub rep (before.length + i) (before ++ text) =
      before ++ replaceAt sub rep i text := by
  have htake : (before ++ text).take (before.length + i) = before ++ text.take i := by
    rw [List.take_append, List.take_of_length_le (by omega), Nat.add_sub_cancel_left]
  have hdrop : ∀ n, (before ++ text).drop (before.length + n) = text.drop n := by
    intro n
    rw [← List.drop_drop, List.drop_left]
  unfold replaceAt
  rw [hdrop, htake, Nat.add_assoc, hdrop]
  split
  · simp only [List.append_assoc]
  · rfl

theorem replaceDown_append (sub rep before : List α) (lo count : Nat) (text : List α) :
    replaceDown sub rep (before.length + lo) count (before ++ text) =
      before ++ replaceDown sub rep lo count text := by
  induction count generalizing text with
  | zero => rfl
  | succ count ih =>
    unfold replaceDown
    rw [Nat.add_assoc, replaceAt_append, ih]

theorem replaceDown_add (sub rep : List α) (lo first second : Nat) (text : List α) :
    replaceDown sub rep lo (first + second) text =
      replaceDown sub rep lo first (replaceDown sub rep (lo + first) second text) := by
  induction second generalizing text with
  | zero => rfl
  | succ second ih =>
    have hlast := ih (replaceAt sub rep (lo + first + second) text)
    rw [← Nat.add_assoc]
    rw [replaceDown, replaceDown, ← Nat.add_assoc]
    exact hlast

theorem replaceDown_quiet {sub : List α} (rep : List α) {lo count : Nat} {text : List α}
    (h : Quiet sub lo count text) : replaceDown sub rep lo count text = text := by
  induction count with
  | zero => rfl
  | succ count ih =>
    unfold replaceDown replaceAt
    rw [if_neg (h (lo + count) (by omega) (by omega))]
    exact ih fun i hlo hi => h i hlo (by omega)

theorem replaceAt_length (sub rep : List α) (i : Nat) (text : List α) :
    (replaceAt sub rep i text).length + (if sub <+: text.drop i then 1 else 0) * sub.length =
      text.length + (if sub <+: text.drop i then 1 else 0) * rep.length := by
  unfold replaceAt
  split
  · rename_i h
    have hle := h.length_le
    simp only [List.length_append, List.length_take, List.length_drop] at hle ⊢
    omega
  · omega

theorem replaceAt_take (sub rep : List α) {i : Nat} {text : List α} (hi : i ≤ text.length) :
    (replaceAt sub rep i text).take i = text.take i := by
  unfold replaceAt
  split
  · rw [List.append_assoc, List.take_left' (by rw [List.length_take]; omega)]
  · rfl

theorem countRight_length (sub rep : List α) (i : Nat) (text : List α) :
    (replaceDown sub rep 0 i text).length + countRight sub rep i text * sub.length =
      text.length + countRight sub rep i text * rep.length := by
  induction i generalizing text with
  | zero => simp [replaceDown, countRight]
  | succ i ih =>
    have hhere := replaceAt_length sub rep i text
    have hrest := ih (replaceAt sub rep i text)
    unfold replaceDown countRight
    rw [Nat.zero_add]
    simp only [Nat.add_mul]
    omega

theorem substituteRight_next (sub rep piece rest : List α) :
    substituteRight sub rep (piece ++ sub ++ rest) =
      replaceDown sub rep 0 piece.length
        (piece ++ replaceDown sub rep 0 sub.length (sub ++ substituteRight sub rep rest)) := by
  have hfar : replaceDown sub rep (piece ++ sub).length rest.length (piece ++ sub ++ rest) =
      piece ++ sub ++ substituteRight sub rep rest :=
    replaceDown_append sub rep (piece ++ sub) 0 rest.length rest
  have hnear : replaceDown sub rep piece.length sub.length
      (piece ++ (sub ++ substituteRight sub rep rest)) =
      piece ++ replaceDown sub rep 0 sub.length (sub ++ substituteRight sub rep rest) :=
    replaceDown_append sub rep piece 0 sub.length _
  conv => lhs; unfold substituteRight
  rw [List.length_append, replaceDown_add, Nat.zero_add, hfar, List.length_append,
    replaceDown_add, Nat.zero_add, List.append_assoc, hnear]

omit [DecidableEq α] in
theorem quiet_join {sub text : List α} {lo first second : Nat}
    (hfirst : Quiet sub lo first text) (hsecond : Quiet sub (lo + first) second text) :
    Quiet sub lo (first + second) text := by
  intro i hlo hi
  by_cases hin : i < lo + first
  · exact hfirst i hlo hin
  · exact hsecond i (by omega) (by omega)

omit [DecidableEq α] in
theorem LastBefore.extend {sub text : List α} {bound count : Nat} {found : Option Nat}
    (h : LastBefore sub text bound found) (hquiet : Quiet sub bound count text) :
    LastBefore sub text (bound + count) found := by
  cases found with
  | none =>
    apply quiet_join h
    rw [Nat.zero_add]
    exact hquiet
  | some i =>
    obtain ⟨hi, hat, hafter⟩ := h
    refine ⟨by omega, hat, ?_⟩
    rw [show bound + count - (i + 1) = bound - (i + 1) + count by omega]
    apply quiet_join hafter
    rw [show i + 1 + (bound - (i + 1)) = bound by omega]
    exact hquiet

theorem replaceDown_last {sub : List α} (rep : List α) {text : List α} {bound : Nat}
    {found : Option Nat} (h : LastBefore sub text bound found) :
    replaceDown sub rep 0 bound text =
      match found with
      | none => text
      | some i => replaceDown sub rep 0 i (replaceAt sub rep i text) := by
  cases found with
  | none => exact replaceDown_quiet rep h
  | some i =>
    obtain ⟨hi, -, hafter⟩ := h
    obtain ⟨count, rfl⟩ : ∃ count, bound = i + 1 + count := ⟨bound - (i + 1), by omega⟩
    rw [Nat.add_sub_cancel_left] at hafter
    rw [replaceDown_add, Nat.zero_add, replaceDown_quiet rep hafter, replaceDown, Nat.zero_add]

section Growing

variable {sub rep : List α} (hgrow : sub.length < rep.length)
include hgrow

theorem replaceDown_grows (lo count : Nat) (text : List α) :
    (Quiet sub lo count text ∧ replaceDown sub rep lo count text = text) ∨
      text.length + (rep.length - sub.length) ≤ (replaceDown sub rep lo count text).length := by
  induction count generalizing text with
  | zero => exact Or.inl ⟨fun i hlo hi => by omega, rfl⟩
  | succ count ih =>
    have hlength := replaceAt_length sub rep (lo + count) text
    have hrest := ih (replaceAt sub rep (lo + count) text)
    unfold replaceDown
    by_cases h : sub <+: text.drop (lo + count)
    · right
      simp only [if_pos h] at hlength
      rcases hrest with ⟨-, hsame⟩ | hmore
      · rw [hsame]
        omega
      · omega
    · have hhere : replaceAt sub rep (lo + count) text = text := by
        rw [replaceAt, if_neg h]
      rw [hhere] at hrest ⊢
      refine hrest.imp_left ?_
      rintro ⟨hquiet, hsame⟩
      refine ⟨?_, hsame⟩
      intro i hlo hi
      by_cases hlast : i = lo + count
      · rw [hlast]
        exact h
      · exact hquiet i hlo (by omega)

theorem replaceDown_length_le (lo count : Nat) (text : List α) :
    text.length ≤ (replaceDown sub rep lo count text).length := by
  rcases replaceDown_grows hgrow lo count text with ⟨-, hsame⟩ | hmore
  · exact Nat.le_of_eq (congrArg List.length hsame.symm)
  · omega

theorem replaceDown_once {lo count : Nat} {text : List α}
    (h : (replaceDown sub rep lo count text).length = text.length + (rep.length - sub.length)) :
    ∃ i, lo ≤ i ∧ i < lo + count ∧ sub <+: text.drop i ∧
      replaceDown sub rep lo count text =
        text.take i ++ rep ++ text.drop (i + sub.length) := by
  induction count generalizing text with
  | zero =>
    unfold replaceDown at h
    omega
  | succ count ih =>
    have hlength := replaceAt_length sub rep (lo + count) text
    unfold replaceDown at h ⊢
    by_cases hhere : sub <+: text.drop (lo + count)
    · simp only [if_pos hhere] at hlength
      refine ⟨lo + count, by omega, by omega, hhere, ?_⟩
      rcases replaceDown_grows hgrow lo count (replaceAt sub rep (lo + count) text) with
        ⟨-, hsame⟩ | hmore
      · rw [hsame, replaceAt, if_pos hhere]
      · omega
    · have hsame : replaceAt sub rep (lo + count) text = text := by
        rw [replaceAt, if_neg hhere]
      rw [hsame] at h ⊢
      obtain ⟨i, hlo, hi, hat, heq⟩ := ih h
      exact ⟨i, hlo, by omega, hat, heq⟩

theorem replaceDown_here (text : List α) (hsub : sub ≠ []) :
    (sub ++ text).length + (rep.length - sub.length) ≤
      (replaceDown sub rep 0 sub.length (sub ++ text)).length := by
  have hlength : 0 < sub.length := List.length_pos_iff.mpr hsub
  rcases replaceDown_grows hgrow 0 sub.length (sub ++ text) with ⟨hquiet, -⟩ | hmore
  · exact absurd (List.prefix_append sub text) (hquiet 0 (by omega) (by omega))
  · exact hmore

theorem substitute_length_le (hsub : sub ≠ []) (text : List α) :
    (substitute sub rep text).length ≤ (substituteRight sub rep text).length := by
  induction text using scan_induction hsub with
  | last text h =>
    rw [substitute_none rep h]
    exact replaceDown_length_le hgrow 0 _ text
  | next piece rest h ih =>
    have hhere := replaceDown_here hgrow (substituteRight sub rep rest) hsub
    have hbefore := replaceDown_length_le hgrow 0 piece.length
      (piece ++ replaceDown sub rep 0 sub.length (sub ++ substituteRight sub rep rest))
    rw [substitute_next rep hsub h, substituteRight_next]
    simp only [List.length_append] at hhere hbefore ih ⊢
    omega

end Growing

omit [DecidableEq α] in
theorem quiet_append {sub text rest : List α} {lo count : Nat}
    (hfit : lo + count + sub.length ≤ text.length + 1) :
    Quiet sub lo count (text ++ rest) ↔ Quiet sub lo count text := by
  have hsame : ∀ i, i < lo + count → (sub <+: (text ++ rest).drop i ↔ sub <+: text.drop i) := by
    intro i hi
    rw [List.drop_append_of_le_length (by omega)]
    constructor
    · intro h
      exact List.prefix_of_prefix_length_le h (List.prefix_append _ _) (by
        rw [List.length_drop]
        omega)
    · exact List.prefix_append_of_prefix
  unfold Quiet
  constructor
  · intro h i hlo hi hat
    exact h i hlo hi ((hsame i hi).mpr hat)
  · intro h i hlo hi hat
    exact h i hlo hi ((hsame i hi).mp hat)

omit [DecidableEq α] in
theorem agrees_cons {sub rep piece : List α} {rest : List (List α)} (h : rest ≠ []) :
    Agrees sub rep (piece :: rest) ↔
      Quiet sub 0 piece.length (piece ++ rep) ∧
        Quiet sub 1 (sub.length - 1) (sub ++ rep.intercalate rest) ∧ Agrees sub rep rest := by
  cases rest with
  | nil => exact absurd rfl h
  | cons next rest => rfl

theorem inside_occurrence {sub rep rest after : List α}
    (hgrow : sub.length < rep.length)
    (hlength : (replaceDown sub rep 1 (sub.length - 1) (sub ++ rest)).length =
      (sub ++ rest).length + (rep.length - sub.length))
    (hafter : replaceDown sub rep 1 (sub.length - 1) (sub ++ rest) = rep ++ after) :
    sub <+: rep ++ after := by
  obtain ⟨i, hlo, hi, hat, heq⟩ := replaceDown_once hgrow hlength
  rw [List.drop_append_of_le_length (by omega)] at hat
  rw [List.take_append_of_le_length (by omega), hafter] at heq
  have hperiod : sub.take i ≠ [] := by
    intro hnil
    have hzero := congrArg List.length hnil
    rw [List.length_take, List.length_nil] at hzero
    omega
  have hshift : sub.drop i <+: sub :=
    List.prefix_of_prefix_length_le (List.prefix_append _ rest) hat (by simp)
  have hself : sub <+: sub.take i ++ sub := by
    conv => lhs; rw [← List.take_append_drop i sub]
    rw [List.prefix_append_right_inj]
    exact hshift
  have hrep : rep <+: sub.take i ++ rep := by
    apply List.prefix_of_prefix_length_le (List.prefix_append rep after)
    · rw [heq]
      exact List.prefix_append _ _
    · simp
  exact List.prefix_append_of_prefix (prefix_of_period hperiod hself hrep (by omega))

theorem pass_eq_iff {sub rep : List α} (hsub : sub ≠ []) (hgrow : sub.length < rep.length)
    (piece right left : List α) (hle : left.length ≤ right.length) :
    replaceDown sub rep 0 piece.length
        (piece ++ replaceDown sub rep 0 sub.length (sub ++ right)) = piece ++ rep ++ left ↔
      Quiet sub 0 piece.length (piece ++ rep) ∧ Quiet sub 1 (sub.length - 1) (sub ++ left) ∧
        right = left := by
  have hpos : 0 < sub.length := List.length_pos_iff.mpr hsub
  have hone : replaceDown sub rep 0 sub.length (sub ++ right) =
      replaceAt sub rep 0 (replaceDown sub rep 1 (sub.length - 1) (sub ++ right)) := by
    have hadd := replaceDown_add sub rep 0 1 (sub.length - 1) (sub ++ right)
    rw [show 1 + (sub.length - 1) = sub.length by omega] at hadd
    exact hadd
  have hquiet : Quiet sub 0 piece.length (piece ++ rep ++ left) ↔
      Quiet sub 0 piece.length (piece ++ rep) :=
    quiet_append (by rw [List.length_append]; omega)
  have hhere : replaceAt sub rep 0 (sub ++ right) = rep ++ right := by
    simp [replaceAt]
  constructor
  · intro heq
    have htotal := congrArg List.length heq
    have hinside := replaceDown_here hgrow right hsub
    have hbefore := replaceDown_grows hgrow 0 piece.length
      (piece ++ replaceDown sub rep 0 sub.length (sub ++ right))
    simp only [List.length_append] at htotal hinside hbefore
    rcases hbefore with ⟨hbefore, hsame⟩ | hmore
    · rw [hsame, List.append_assoc, List.append_cancel_left_eq] at heq
      rw [heq, ← List.append_assoc] at hbefore
      rw [hone] at heq
      refine ⟨hquiet.mp hbefore, ?_⟩
      rcases replaceDown_grows hgrow 1 (sub.length - 1) (sub ++ right) with ⟨hin, hsame⟩ | hmore
      · rw [hsame, hhere, List.append_cancel_left_eq] at heq
        rw [heq] at hin
        exact ⟨hin, heq⟩
      · exfalso
        have hat := replaceAt_length sub rep 0
          (replaceDown sub rep 1 (sub.length - 1) (sub ++ right))
        have htext := congrArg List.length heq
        simp only [List.length_append, List.drop_zero] at hmore hat htext
        by_cases hleads : sub <+: replaceDown sub rep 1 (sub.length - 1) (sub ++ right)
        · rw [if_pos hleads] at hat
          omega
        · rw [if_neg hleads] at hat
          have hsame : replaceAt sub rep 0
              (replaceDown sub rep 1 (sub.length - 1) (sub ++ right)) =
              replaceDown sub rep 1 (sub.length - 1) (sub ++ right) := by
            rw [replaceAt, List.drop_zero, if_neg hleads]
          rw [hsame] at heq
          apply hleads
          rw [heq]
          apply inside_occurrence hgrow _ heq
          simp only [List.length_append]
          omega
    · omega
  · rintro ⟨hbefore, hin, rfl⟩
    rw [hone, replaceDown_quiet rep hin, hhere, ← List.append_assoc,
      replaceDown_quiet rep (hquiet.mpr hbefore)]

theorem substituteRight_eq_iff {sub rep : List α} (hsub : sub ≠ [])
    (hgrow : sub.length < rep.length) (text : List α) :
    substituteRight sub rep text = substitute sub rep text ↔
      Agrees sub rep (pieces sub text) := by
  induction text using scan_induction hsub with
  | last text h =>
    have hquiet : Quiet sub 0 text.length text := fun i _ _ => firstIndex_none h i
    rw [substitute_none rep h, pieces_none h, substituteRight, replaceDown_quiet rep hquiet]
    simp [Agrees]
  | next piece rest h ih =>
    rw [pieces_next hsub h, substitute_next rep hsub h, substituteRight_next,
      agrees_cons (pieces_ne_nil sub hsub rest), ← ih]
    exact pass_eq_iff hsub hgrow piece _ _ (substitute_length_le hgrow hsub rest)

end Esp8266.Substring
