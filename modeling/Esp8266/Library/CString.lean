/-! Strings in memory that end with a NUL: what `strchr`, `strncpy`, `strcmp` and `strncmp` find, and
how many bytes they read on the way. Memory is a list of bytes; a function that runs to its end does not come back. -/
namespace Esp8266.CString

structure CStr where
  bytes : List UInt8
  nul : 0 ∉ bytes

/-- `strchr`: where the byte is, if there is no NUL in front of it, and how many bytes are read. -/
def strchr (c : UInt8) : List UInt8 → Option (Option Nat × Nat)
  | [] => none
  | b :: memory =>
    if b = c then some (some 0, 1)
    else if b = 0 then some (none, 1)
    else (strchr c memory).map fun r => (r.1.map (· + 1), r.2 + 1)

/-- `strncpy`: the string that is copied, and how many bytes are read. -/
def strncpy : Nat → List UInt8 → Option (List UInt8 × Nat)
  | 0, _ => some ([], 0)
  | _ + 1, [] => none
  | n + 1, b :: memory =>
    if b = 0 then some ([], 1)
    else (strncpy n memory).map fun r => (b :: r.1, r.2 + 1)

/-- `strncmp`: the difference of the first bytes that differ, none if memory ends before, and how many
bytes of each string are read. -/
def strncmp : Nat → List UInt8 → List UInt8 → Option Int × Nat
  | 0, _, _ => (some 0, 0)
  | n + 1, a :: s, b :: t =>
    if a ≠ b then (some ((a.toNat : Int) - b.toNat), 1)
    else if a = 0 then (some 0, 1)
    else ((strncmp n s t).1, (strncmp n s t).2 + 1)
  | _ + 1, _, _ => (none, 1)

def strcmp : List UInt8 → List UInt8 → Option Int × Nat
  | a :: s, b :: t =>
    if a ≠ b then (some ((a.toNat : Int) - b.toNat), 1)
    else if a = 0 then (some 0, 1)
    else ((strcmp s t).1, (strcmp s t).2 + 1)
  | _, _ => (none, 1)

variable {c : UInt8} {before memory : List UInt8}

theorem strchr_found (hc : c ∉ before) (hnul : 0 ∉ before) (memory : List UInt8) :
    strchr c (before ++ c :: memory) = some (some before.length, before.length + 1) := by
  induction before with
  | nil => simp [strchr]
  | cons b before ih =>
    rw [List.mem_cons, not_or] at hc hnul
    rw [List.cons_append, strchr, if_neg (Ne.symm hc.1), if_neg (Ne.symm hnul.1),
      ih hc.2 hnul.2]
    rfl

theorem strchr_nul (hzero : c ≠ 0) (hc : c ∉ before) (hnul : 0 ∉ before) (memory : List UInt8) :
    strchr c (before ++ 0 :: memory) = some (none, before.length + 1) := by
  induction before with
  | nil => simp [strchr, Ne.symm hzero]
  | cons b before ih =>
    rw [List.mem_cons, not_or] at hc hnul
    rw [List.cons_append, strchr, if_neg (Ne.symm hc.1), if_neg (Ne.symm hnul.1),
      ih hc.2 hnul.2]
    rfl

theorem lt_of_strchr {text : List UInt8} (hc : c ∉ text) (hnul : 0 ∉ text)
    {found : Option Nat} {reads : Nat} (h : strchr c (text ++ memory) = some (found, reads)) :
    text.length < reads := by
  induction text generalizing found reads with
  | nil =>
    cases memory with
    | nil => cases h
    | cons b memory =>
      rw [List.nil_append, strchr] at h
      split at h
      · cases h
        exact Nat.zero_lt_one
      · split at h
        · cases h
          exact Nat.zero_lt_one
        · obtain ⟨r, -, hr⟩ := Option.map_eq_some_iff.mp h
          cases hr
          exact Nat.succ_pos _
  | cons b text ih =>
    rw [List.mem_cons, not_or] at hc hnul
    rw [List.cons_append, strchr, if_neg (Ne.symm hc.1), if_neg (Ne.symm hnul.1)] at h
    obtain ⟨r, hr, hrest⟩ := Option.map_eq_some_iff.mp h
    cases hrest
    exact Nat.succ_lt_succ (ih hc.2 hnul.2 hr)

theorem strchr_reads {offset reads : Nat} (h : strchr c memory = some (some offset, reads)) :
    reads = offset + 1 := by
  induction memory generalizing offset reads with
  | nil => cases h
  | cons b memory ih =>
    rw [strchr] at h
    split at h
    · cases h
      rfl
    · split at h
      · cases h
      · obtain ⟨⟨found, count⟩, hr, hrest⟩ := Option.map_eq_some_iff.mp h
        cases found with
        | none => cases hrest
        | some offset =>
          cases hrest
          rw [ih hr]

theorem strchr_cases (c : UInt8) (text : List UInt8) :
    (c ∉ text ∧ 0 ∉ text) ∨
      (∃ before after, text = before ++ c :: after ∧ c ∉ before ∧ 0 ∉ before) ∨
      ∃ before after, text = before ++ 0 :: after ∧ c ∉ before ∧ 0 ∉ before := by
  induction text with
  | nil => exact Or.inl ⟨List.not_mem_nil, List.not_mem_nil⟩
  | cons b text ih =>
    by_cases hb : b = c
    · exact Or.inr (Or.inl ⟨[], text, by rw [hb, List.nil_append], by simp, by simp⟩)
    · by_cases hzero : b = 0
      · exact Or.inr (Or.inr ⟨[], text, by rw [hzero, List.nil_append], by simp, by simp⟩)
      · rcases ih with ⟨hc, hnul⟩ | ⟨before, after, rfl, hc, hnul⟩ | ⟨before, after, rfl, hc, hnul⟩
        · exact Or.inl ⟨by simp [Ne.symm hb, hc], by simp [Ne.symm hzero, hnul]⟩
        · exact Or.inr (Or.inl ⟨b :: before, after, rfl, by simp [Ne.symm hb, hc],
            by simp [Ne.symm hzero, hnul]⟩)
        · exact Or.inr (Or.inr ⟨b :: before, after, rfl, by simp [Ne.symm hb, hc],
            by simp [Ne.symm hzero, hnul]⟩)

theorem strncpy_exact {text : List UInt8} (hnul : 0 ∉ text) (memory : List UInt8) :
    strncpy text.length (text ++ memory) = some (text, text.length) := by
  induction text with
  | nil => rfl
  | cons b text ih =>
    rw [List.mem_cons, not_or] at hnul
    rw [List.length_cons, List.cons_append, strncpy, if_neg (Ne.symm hnul.1), ih hnul.2]
    rfl

theorem strncpy_within {n : Nat} (h : n ≤ memory.length) :
    ∃ text reads, strncpy n memory = some (text, reads) ∧ reads ≤ n := by
  induction n generalizing memory with
  | zero => exact ⟨[], 0, rfl, Nat.le_refl 0⟩
  | succ n ih =>
    cases memory with
    | nil => exact absurd h (Nat.not_succ_le_zero n)
    | cons b memory =>
      rw [strncpy]
      split
      · exact ⟨[], 1, rfl, by omega⟩
      · obtain ⟨text, reads, hcopy, hle⟩ := ih (Nat.le_of_succ_le_succ h)
        rw [hcopy]
        exact ⟨b :: text, reads + 1, rfl, Nat.succ_le_succ hle⟩

theorem pos_of_strncpy {n : Nat} (hn : n ≠ 0) {text : List UInt8} {reads : Nat}
    (h : strncpy n memory = some (text, reads)) : 0 < reads := by
  cases n with
  | zero => exact absurd rfl hn
  | succ n =>
    cases memory with
    | nil => cases h
    | cons b memory =>
      rw [strncpy] at h
      split at h
      · cases h
        exact Nat.zero_lt_one
      · obtain ⟨r, -, hr⟩ := Option.map_eq_some_iff.mp h
        cases hr
        exact Nat.succ_pos _

theorem length_of_strncpy {n : Nat} (hnul : 0 ∉ memory) {text : List UInt8} {reads : Nat}
    (h : strncpy n memory = some (text, reads)) : text.length = n := by
  induction n generalizing memory text reads with
  | zero =>
    cases h
    rfl
  | succ n ih =>
    cases memory with
    | nil => cases h
    | cons b memory =>
      rw [List.mem_cons, not_or] at hnul
      rw [strncpy, if_neg (Ne.symm hnul.1)] at h
      obtain ⟨⟨rest, count⟩, hrest, hr⟩ := Option.map_eq_some_iff.mp h
      cases hr
      rw [List.length_cons, ih hnul.2 hrest]

theorem difference_ne {a b : UInt8} (h : a ≠ b) :
    (some ((a.toNat : Int) - b.toNat) : Option Int) ≠ some 0 := by
  intro hzero
  have heq : (a.toNat : Int) - b.toNat = 0 := Option.some.inj hzero
  exact h (UInt8.toNat_inj.mp (by omega))

theorem strncmp_begins {text p : List UInt8} (hp : 0 ∉ p) (behind after : List UInt8) :
    ((strncmp p.length (text ++ 0 :: behind) (p ++ after)).1 = some 0 ↔ p <+: text) ∧
      (strncmp p.length (text ++ 0 :: behind) (p ++ after)).2 ≤ text.length + 1 ∧
      (strncmp p.length (text ++ 0 :: behind) (p ++ after)).2 ≤ p.length := by
  induction p generalizing text with
  | nil => exact ⟨⟨fun _ => List.nil_prefix, fun _ => rfl⟩, Nat.zero_le _, Nat.zero_le _⟩
  | cons b p ih =>
    rw [List.mem_cons, not_or] at hp
    cases text with
    | nil =>
      rw [List.nil_append, List.length_cons, List.cons_append, strncmp, if_pos hp.1]
      refine ⟨⟨fun h => absurd h (difference_ne hp.1), fun h => ?_⟩, by simp, by simp⟩
      exact absurd (List.prefix_nil.mp h) (List.cons_ne_nil b p)
    | cons a text =>
      rw [List.cons_append, List.length_cons, List.cons_append, strncmp]
      by_cases hab : a = b
      · subst hab
        obtain ⟨hiff, htext, hread⟩ := @ih text hp.2
        rw [if_neg (fun h => h rfl), if_neg (Ne.symm hp.1), List.prefix_cons_inj]
        exact ⟨hiff, Nat.succ_le_succ htext, Nat.succ_le_succ hread⟩
      · rw [if_pos hab]
        refine ⟨⟨fun h => absurd h (difference_ne hab), fun h => ?_⟩, by simp, by simp⟩
        exact absurd (List.cons_prefix_cons.mp h).1 (Ne.symm hab)

theorem strncmp_reads (n : Nat) (s t : List UInt8) : 0 < (strncmp (n + 1) s t).2 := by
  cases s with
  | nil => exact Nat.zero_lt_one
  | cons a s =>
    cases t with
    | nil => exact Nat.zero_lt_one
    | cons b t =>
      rw [strncmp]
      split
      · exact Nat.zero_lt_one
      · split
        · exact Nat.zero_lt_one
        · exact Nat.succ_pos _

theorem strcmp_eq {text p : List UInt8} (htext : 0 ∉ text) (hp : 0 ∉ p)
    (behind after : List UInt8) :
    ((strcmp (text ++ 0 :: behind) (p ++ 0 :: after)).1 = some 0 ↔ p = text) ∧
      (strcmp (text ++ 0 :: behind) (p ++ 0 :: after)).2 ≤ text.length + 1 ∧
      (strcmp (text ++ 0 :: behind) (p ++ 0 :: after)).2 ≤ p.length + 1 := by
  induction p generalizing text with
  | nil =>
    cases text with
    | nil =>
      rw [List.nil_append, List.nil_append, strcmp, if_neg (fun h => h rfl), if_pos rfl]
      exact ⟨⟨fun _ => rfl, fun _ => rfl⟩, Nat.le_refl _, Nat.le_refl _⟩
    | cons a text =>
      rw [List.mem_cons, not_or] at htext
      rw [List.cons_append, List.nil_append, strcmp, if_pos (Ne.symm htext.1)]
      exact ⟨⟨fun h => absurd h (difference_ne (Ne.symm htext.1)), fun h => (nomatch h)⟩, by simp,
        by simp⟩
  | cons b p ih =>
    rw [List.mem_cons, not_or] at hp
    cases text with
    | nil =>
      rw [List.nil_append, List.cons_append, strcmp, if_pos hp.1]
      exact ⟨⟨fun h => absurd h (difference_ne hp.1), fun h => (nomatch h)⟩, by simp, by simp⟩
    | cons a text =>
      rw [List.mem_cons, not_or] at htext
      rw [List.cons_append, List.cons_append, strcmp]
      by_cases hab : a = b
      · subst hab
        obtain ⟨hiff, hfirst, hsecond⟩ := ih htext.2 hp.2
        rw [if_neg (fun h => h rfl), if_neg (Ne.symm hp.1), List.cons.injEq,
          and_iff_right rfl]
        exact ⟨hiff, Nat.succ_le_succ hfirst, Nat.succ_le_succ hsecond⟩
      · rw [if_pos hab, List.cons.injEq]
        exact ⟨⟨fun h => absurd h (difference_ne hab), fun h => absurd h.1 (Ne.symm hab)⟩, by simp,
          by simp⟩

end Esp8266.CString
