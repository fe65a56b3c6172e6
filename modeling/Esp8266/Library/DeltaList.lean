import Mathlib.Algebra.GroupWithZero.Nat

/-! Lists of events in the order of their times, with the time since the event before, and what is
left at the end to make up a period. -/
namespace Esp8266.DeltaList

abbrev Deltas (κ : Type) := List (κ × Nat)

variable {κ : Type}

def keys (entries : Deltas κ) : List κ := entries.map Prod.fst

def total (entries : Deltas κ) : Nat := (entries.map Prod.snd).sum

def edges : Nat → Deltas κ → List (κ × Nat)
  | _, [] => []
  | start, entry :: entries => (entry.1, start + entry.2) :: edges (start + entry.2) entries

def insert (key : κ) (time : Nat) : Nat → Deltas κ → Nat → Deltas κ × Nat
  | start, [], last => ([(key, time - start)], last - (time - start))
  | start, entry :: entries, last =>
    if start + entry.2 < time then
      let rest := insert key time (start + entry.2) entries last
      (entry :: rest.1, rest.2)
    else ((key, time - start) :: (entry.1, entry.2 - (time - start)) :: entries, last)

def keep (kept : κ → Bool) : Nat → Deltas κ → Deltas κ × Nat
  | leftover, [] => ([], leftover)
  | leftover, entry :: entries =>
    if kept entry.1 = true then
      let rest := keep kept 0 entries
      ((entry.1, entry.2 + leftover) :: rest.1, rest.2)
    else keep kept (leftover + entry.2) entries

section
variable {entries : Deltas κ} {key other : κ} {time start last at' : Nat}

@[simp] theorem keys_cons (entry : κ × Nat) (entries : Deltas κ) :
    keys (entry :: entries) = entry.1 :: keys entries := rfl

@[simp] theorem total_nil : total ([] : Deltas κ) = 0 := rfl

@[simp] theorem total_cons (entry : κ × Nat) (entries : Deltas κ) :
    total (entry :: entries) = entry.2 + total entries := by
  simp [total]

theorem mem_keys_of_edges (h : (key, time) ∈ edges start entries) : key ∈ keys entries := by
  induction entries generalizing start with
  | nil => cases h
  | cons entry entries ih =>
    rcases List.mem_cons.mp h with h | h
    · cases h
      exact List.mem_cons_self
    · exact List.mem_cons_of_mem _ (ih h)

theorem keys_insert (key : κ) (time start : Nat) (entries : Deltas κ) (last : Nat) :
    (keys (insert key time start entries last).1).Perm (key :: keys entries) := by
  induction entries generalizing start with
  | nil => exact List.Perm.refl _
  | cons entry entries ih =>
    rw [insert]
    split
    · exact ((ih _).cons _).trans (List.Perm.swap _ _ _)
    · exact List.Perm.refl _

theorem total_insert (hstart : start ≤ time) (htime : time ≤ start + total entries + last) :
    total (insert key time start entries last).1 + (insert key time start entries last).2 =
      total entries + last := by
  induction entries generalizing start with
  | nil =>
    simp [insert] at htime ⊢
    omega
  | cons entry entries ih =>
    rw [total_cons] at htime
    rw [insert]
    split
    · have hrest := ih (Nat.le_of_lt ‹_›) (by omega)
      simp only [total_cons]
      omega
    · simp only [total_cons]
      omega

theorem mem_edges_insert (hstart : start ≤ time) {edge : κ × Nat} :
    edge ∈ edges start (insert key time start entries last).1 ↔
      edge = (key, time) ∨ edge ∈ edges start entries := by
  induction entries generalizing start with
  | nil => simp [insert, edges, Nat.add_sub_cancel' hstart]
  | cons entry entries ih =>
    rw [insert]
    split
    · simp only [edges, List.mem_cons]
      rw [ih (Nat.le_of_lt ‹_›)]
      exact or_left_comm
    · have hbehind : time + (entry.2 - (time - start)) = start + entry.2 := by omega
      simp only [edges, List.mem_cons, Nat.add_sub_cancel' hstart, hbehind]

theorem keep_congr {kept kept' : κ → Bool} (leftover : Nat)
    (h : ∀ key ∈ keys entries, kept key = kept' key) :
    keep kept leftover entries = keep kept' leftover entries := by
  induction entries generalizing leftover with
  | nil => rfl
  | cons entry entries ih =>
    rw [keys_cons, List.forall_mem_cons] at h
    rw [keep, keep, h.1, ih 0 h.2, ih _ h.2]

theorem keys_keep (kept : κ → Bool) (leftover : Nat) (entries : Deltas κ) :
    keys (keep kept leftover entries).1 = (keys entries).filter kept := by
  induction entries generalizing leftover with
  | nil => rfl
  | cons entry entries ih =>
    rw [keep, keys_cons, List.filter_cons]
    split
    · rw [keys_cons, ih]
    · exact ih _

theorem total_keep (kept : κ → Bool) (leftover : Nat) (entries : Deltas κ) :
    total (keep kept leftover entries).1 + (keep kept leftover entries).2 =
      leftover + total entries := by
  induction entries generalizing leftover with
  | nil => simp [keep]
  | cons entry entries ih =>
    rw [keep, total_cons]
    split
    · have hrest := ih 0
      simp only [total_cons]
      omega
    · rw [ih]
      omega

theorem edges_keep (kept : κ → Bool) (start leftover : Nat) (entries : Deltas κ) :
    edges start (keep kept leftover entries).1 =
      (edges (start + leftover) entries).filter fun edge => kept edge.1 := by
  induction entries generalizing start leftover with
  | nil => rfl
  | cons entry entries ih =>
    have hsum : start + (entry.2 + leftover) = start + leftover + entry.2 := by omega
    rw [keep, edges, List.filter_cons]
    split
    · rw [edges, hsum, ih, Nat.add_zero]
    · rw [ih, Nat.add_assoc]

end

end Esp8266.DeltaList
