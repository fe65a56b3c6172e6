/-! Occurrences of a list in another, found by a scan from the left and substituted. -/
namespace Esp8266.Substring

variable [DecidableEq α]

def firstIndex (sub : List α) : List α → Option Nat
  | [] => if sub = [] then some 0 else none
  | x :: rest => if sub <+: x :: rest then some 0 else (firstIndex sub rest).map (· + 1)

def extendFirst (x : α) : List (List α) → List (List α)
  | [] => [[x]]
  | piece :: rest => (x :: piece) :: rest

/-- The pieces between the occurrences that a scan from the left finds, after the
elements in `skip`. -/
def piecesFrom (sub : List α) : Nat → List α → List (List α)
  | _, [] => [[]]
  | skip + 1, _ :: rest => piecesFrom sub skip rest
  | 0, x :: rest =>
      if sub <+: x :: rest then [] :: piecesFrom sub (sub.length - 1) rest
      else extendFirst x (piecesFrom sub 0 rest)

def pieces (sub text : List α) : List (List α) := piecesFrom sub 0 text

def substitute (sub rep text : List α) : List α := rep.intercalate (pieces sub text)

theorem firstIndex_some {sub text : List α} {i : Nat} (h : firstIndex sub text = some i) :
    sub <+: text.drop i ∧ i ≤ text.length ∧ ∀ j, j < i → ¬ sub <+: text.drop j := by
  induction text generalizing i with
  | nil =>
    unfold firstIndex at h
    split at h
    · rename_i hsub
      cases h
      exact ⟨by simp [hsub], by simp, by omega⟩
    · cases h
  | cons x rest ih =>
    unfold firstIndex at h
    split at h
    · rename_i hhere
      cases h
      exact ⟨hhere, by simp, by omega⟩
    · rename_i hhere
      obtain ⟨k, hk, rfl⟩ := Option.map_eq_some_iff.mp h
      obtain ⟨hat, hle, hbefore⟩ := ih hk
      refine ⟨hat, by simpa using hle, ?_⟩
      intro j hj
      cases j with
      | zero => exact hhere
      | succ j => exact hbefore j (by omega)

theorem firstIndex_none {sub text : List α} (h : firstIndex sub text = none) (j : Nat) :
    ¬ sub <+: text.drop j := by
  induction text generalizing j with
  | nil =>
    unfold firstIndex at h
    split at h
    · cases h
    · simpa using ‹¬ sub = []›
  | cons x rest ih =>
    unfold firstIndex at h
    split at h
    · cases h
    · rename_i hhere
      cases j with
      | zero => exact hhere
      | succ j => exact ih (Option.map_eq_none_iff.mp h) j

theorem firstIndex_split {sub text : List α} {i : Nat} (h : firstIndex sub text = some i) :
    ∃ rest, text = text.take i ++ sub ++ rest ∧ text.drop (i + sub.length) = rest ∧
      (text.take i).length = i := by
  obtain ⟨⟨rest, hrest⟩, hle, -⟩ := firstIndex_some h
  refine ⟨rest, ?_, ?_, ?_⟩
  · rw [List.append_assoc, hrest, List.take_append_drop]
  · rw [← List.drop_drop, ← hrest, List.drop_left]
  · rw [List.length_take]
    omega

theorem piecesFrom_skip (sub : List α) (skip : Nat) (text : List α) :
    piecesFrom sub skip text = pieces sub (text.drop skip) := by
  induction skip generalizing text with
  | zero => rfl
  | succ skip ih =>
    cases text with
    | nil => simp [piecesFrom, pieces]
    | cons x rest => simpa [piecesFrom] using ih rest

theorem pieces_none {sub text : List α} (h : firstIndex sub text = none) :
    pieces sub text = [text] := by
  induction text with
  | nil => rfl
  | cons x rest ih =>
    unfold firstIndex at h
    split at h
    · cases h
    · rename_i hhere
      have hrest := ih (Option.map_eq_none_iff.mp h)
      unfold pieces at hrest ⊢
      rw [piecesFrom, if_neg hhere, hrest]
      rfl

theorem pieces_some {sub text : List α} {i : Nat} (hsub : sub ≠ [])
    (h : firstIndex sub text = some i) :
    pieces sub text = text.take i :: pieces sub (text.drop (i + sub.length)) := by
  have hlength : 0 < sub.length := List.length_pos_iff.mpr hsub
  induction text generalizing i with
  | nil => simp [firstIndex, hsub] at h
  | cons x rest ih =>
    unfold firstIndex at h
    split at h
    · rename_i hhere
      cases h
      unfold pieces
      rw [piecesFrom, if_pos hhere, piecesFrom_skip]
      obtain ⟨n, hn⟩ : ∃ n, sub.length = n + 1 := ⟨sub.length - 1, by omega⟩
      simp [hn, pieces]
    · rename_i hhere
      obtain ⟨k, hk, rfl⟩ := Option.map_eq_some_iff.mp h
      have hrest := ih hk
      unfold pieces at hrest ⊢
      rw [piecesFrom, if_neg hhere, hrest, Nat.add_right_comm]
      rfl

theorem scan_induction {sub : List α} (hsub : sub ≠ []) {motive : List α → Prop}
    (last : ∀ text, firstIndex sub text = none → motive text)
    (next : ∀ piece rest, firstIndex sub (piece ++ sub ++ rest) = some piece.length →
      motive rest → motive (piece ++ sub ++ rest)) (text : List α) : motive text := by
  generalize hn : text.length = n
  induction n using Nat.strongRecOn generalizing text with
  | ind n ih =>
    cases h : firstIndex sub text with
    | none => exact last text h
    | some i =>
      obtain ⟨rest, htext, -, hi⟩ := firstIndex_split h
      have hlength : 0 < sub.length := List.length_pos_iff.mpr hsub
      have hsum := congrArg List.length htext
      simp only [List.length_append] at hsum
      rw [htext]
      apply next
      · rw [← htext, hi, h]
      · exact ih rest.length (by omega) rest rfl

theorem pieces_ne_nil (sub : List α) (hsub : sub ≠ []) (text : List α) : pieces sub text ≠ [] := by
  cases h : firstIndex sub text with
  | none => simp [pieces_none h]
  | some i => simp [pieces_some hsub h]

theorem pieces_next {sub piece rest : List α} (hsub : sub ≠ [])
    (h : firstIndex sub (piece ++ sub ++ rest) = some piece.length) :
    pieces sub (piece ++ sub ++ rest) = piece :: pieces sub rest := by
  rw [pieces_some hsub h, List.append_assoc, List.take_left, ← List.append_assoc,
    ← List.length_append, List.drop_left]

theorem substitute_none {sub text : List α} (rep : List α) (h : firstIndex sub text = none) :
    substitute sub rep text = text := by
  rw [substitute, pieces_none h, List.intercalate_singleton]

theorem substitute_next {sub piece rest : List α} (rep : List α) (hsub : sub ≠ [])
    (h : firstIndex sub (piece ++ sub ++ rest) = some piece.length) :
    substitute sub rep (piece ++ sub ++ rest) = piece ++ rep ++ substitute sub rep rest := by
  rw [substitute, pieces_next hsub h, List.intercalate_cons_of_ne_nil (pieces_ne_nil sub hsub rest)]
  rfl

theorem substitute_length (sub rep : List α) (hsub : sub ≠ []) (text : List α) :
    (substitute sub rep text).length + ((pieces sub text).length - 1) * sub.length =
      text.length + ((pieces sub text).length - 1) * rep.length := by
  induction text using scan_induction hsub with
  | last text h => simp [substitute_none rep h, pieces_none h]
  | next piece rest h ih =>
    have hpos : 0 < (pieces sub rest).length :=
      List.length_pos_iff.mpr (pieces_ne_nil sub hsub rest)
    obtain ⟨count, hcount⟩ : ∃ count, (pieces sub rest).length = count + 1 :=
      ⟨(pieces sub rest).length - 1, by omega⟩
    rw [substitute_next rep hsub h, pieces_next hsub h]
    rw [hcount] at ih
    simp only [List.length_append, List.length_cons, hcount, Nat.add_sub_cancel,
      Nat.add_mul, Nat.one_mul] at ih ⊢
    omega

end Esp8266.Substring
