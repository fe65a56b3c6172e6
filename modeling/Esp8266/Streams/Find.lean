import Mathlib.Data.Nat.Find
import Esp8266.Library.Matching

/-! `Stream::findUntil`: one index into the target and one into the terminator, both of
them C strings. The stream ends where `timedRead` gives up. -/
namespace Esp8266.Streams
open Esp8266.Matching

/-- The loop of `findUntil`. The bytes that have not been read are left. -/
def findLoop (target terminator : List UInt8) : List UInt8 → Nat → Nat → Bool × List UInt8
  | [], _, _ => (false, [])
  | c :: stream, index, termIndex =>
    if c = 0 then (false, stream)
    else
      let index := if target[index]? ≠ some c then 0 else index
      if target[index]? = some c ∧ target.length ≤ index + 1 then (true, stream)
      else
        let index := if target[index]? = some c then index + 1 else index
        if 0 < terminator.length ∧ terminator[termIndex]? = some c then
          if terminator.length ≤ termIndex + 1 then (false, stream)
          else findLoop target terminator stream index (termIndex + 1)
        else findLoop target terminator stream index 0

/-- `findUntil(const char*, const char*)` -/
def findUntil (target terminator stream : List UInt8) : Bool × List UInt8 :=
  if target = [] then (true, stream) else findLoop target terminator stream 0 0

def find (target stream : List UInt8) : Bool × List UInt8 := findUntil target [] stream

/-- An occurrence of `p` ends behind the first `k` bytes. -/
def EndsAt (p stream : List UInt8) (k : Nat) : Prop := k ≤ stream.length ∧ p <:+ stream.take k

structure FindsFirst (target terminator stream : List UInt8) : Prop where
  found : (findUntil target terminator stream).1 = true ↔
    ∃ k, EndsAt target stream k ∧ ∀ j < k, terminator ≠ [] → ¬ EndsAt terminator stream j
  consumed : (findUntil target terminator stream).1 = true → ∀ k, EndsAt target stream k →
    (∀ j < k, ¬ EndsAt target stream j) →
      (findUntil target terminator stream).2 = stream.drop k

/-- Where a byte breaks a match, either no shorter match goes on with it that the index
forgets, or the stream has ended already. The index of the target keeps one byte. -/
structure Restartable (target terminator : List UInt8) : Prop where
  forTarget : ∀ q i, 0 < i → i < q → q < target.length → target.take i <:+ target.take q →
    target[i]? = target[q]? ∨
      terminator ≠ [] ∧ terminator <:+: (target.take q ++ target.drop i).dropLast
  forTerminator : ∀ q i, i < q → q < terminator.length →
    terminator.take i <:+ terminator.take q →
      terminator[i]? = terminator[q]? ∨ target <:+: terminator.take q ++ terminator.drop i

def again (target : List UInt8) (c : UInt8) : Nat := if target[0]? = some c then 1 else 0

def forget (_ : UInt8) : Nat := 0

theorem restart_again (target : List UInt8) : Restart target (again target) where
  le_one := by
    intro c
    unfold again
    split <;> omega
  first := by
    intro c h
    unfold again at h
    split at h
    · assumption
    · cases h

theorem restart_forget (p : List UInt8) : Restart p forget :=
  ⟨fun _ => Nat.zero_le 1, fun _ h => (nomatch h)⟩

def targetIndex (target read : List UInt8) : Nat := index target (again target) read

def termIndex (terminator read : List UInt8) : Nat := index terminator forget read

/-- The loop returns true behind `read`. -/
def Reached (target read : List UInt8) : Prop := target.length ≤ targetIndex target read

/-- The loop gives up behind `read`. -/
def Stopped (terminator read : List UInt8) : Prop :=
  0 < terminator.length ∧ terminator.length ≤ termIndex terminator read

theorem targetIndex_snoc (target read : List UInt8) (c : UInt8) :
    targetIndex target (read ++ [c]) =
      if target[targetIndex target read]? = some c then targetIndex target read + 1
      else if target[0]? = some c then 1 else 0 :=
  index_snoc read c

theorem termIndex_snoc (terminator read : List UInt8) (c : UInt8) :
    termIndex terminator (read ++ [c]) =
      if terminator[termIndex terminator read]? = some c then termIndex terminator read + 1
      else 0 :=
  index_snoc read c

section Loop
variable {target terminator : List UInt8}

theorem targetIndex_eq (read : List UInt8) (c : UInt8) :
    (let index := if target[targetIndex target read]? ≠ some c then 0 else targetIndex target read
      if target[index]? = some c then index + 1 else index) = targetIndex target (read ++ [c]) := by
  rw [targetIndex_snoc]
  by_cases hmatch : target[targetIndex target read]? = some c
  · simp only [hmatch, ne_eq, not_true_eq_false, if_false, if_true]
  · simp only [hmatch, ne_eq, not_false_eq_true, if_true, if_false, Nat.zero_add]

theorem findLoop_cons (htarget : target ≠ []) {c : UInt8} (hc : c ≠ 0) (stream : List UInt8)
    (read : List UInt8) :
    findLoop target terminator (c :: stream) (targetIndex target read)
        (termIndex terminator read) =
      if target.length ≤ targetIndex target (read ++ [c]) then (true, stream)
      else if 0 < terminator.length ∧ terminator.length ≤ termIndex terminator (read ++ [c]) then
        (false, stream)
      else findLoop target terminator stream (targetIndex target (read ++ [c]))
        (termIndex terminator (read ++ [c])) := by
  have hlen := List.length_pos_iff.mpr htarget
  have hindex := @targetIndex_eq target read c
  rw [findLoop, if_neg hc]
  dsimp only at hindex ⊢
  rw [hindex, termIndex_snoc]
  have hback : target[if target[targetIndex target read]? ≠ some c then 0
      else targetIndex target read]? ≠ some c →
      (if target[targetIndex target read]? ≠ some c then 0 else targetIndex target read) = 0 := by
    intro h
    split
    · rfl
    · rename_i hmatch
      rw [if_neg hmatch] at h
      exact absurd h hmatch
  generalize (if target[targetIndex target read]? ≠ some c then 0
    else targetIndex target read) = index at hindex hback ⊢
  have hfound : target[index]? = some c ∧ target.length ≤ index + 1 ↔
      target.length ≤ targetIndex target (read ++ [c]) := by
    rw [← hindex]
    by_cases hmatch : target[index]? = some c
    · rw [if_pos hmatch, and_iff_right hmatch]
    · rw [if_neg hmatch, hback hmatch]
      exact ⟨fun h => absurd h.1 (hback hmatch ▸ hmatch), fun h => absurd h (by omega)⟩
  simp only [hfound]
  split
  · rfl
  · by_cases hterm : terminator[termIndex terminator read]? = some c
    · rw [if_pos hterm]
      by_cases hpos : 0 < terminator.length
      · simp only [hpos, hterm, and_self, if_true, true_and]
      · rw [List.eq_nil_of_length_eq_zero (Nat.eq_zero_of_not_pos hpos)] at hterm
        cases hterm
    · rw [if_neg hterm, if_neg (fun h => hterm h.2), if_neg (by omega)]

theorem findLoop_found (htarget : target ≠ []) {stream : List UInt8} (hnul : 0 ∉ stream)
    (read : List UInt8)
    (h : (findLoop target terminator stream (targetIndex target read)
      (termIndex terminator read)).1 = true) :
    ∃ k, 0 < k ∧ k ≤ stream.length ∧ Reached target (read ++ stream.take k) ∧
      (∀ j, 0 < j → j < k → ¬ Reached target (read ++ stream.take j) ∧
        ¬ Stopped terminator (read ++ stream.take j)) ∧
      (findLoop target terminator stream (targetIndex target read)
        (termIndex terminator read)).2 = stream.drop k := by
  induction stream generalizing read with
  | nil => cases h
  | cons c stream ih =>
    rw [List.mem_cons, not_or] at hnul
    rw [findLoop_cons htarget (Ne.symm hnul.1)] at h ⊢
    by_cases hreached : target.length ≤ targetIndex target (read ++ [c])
    · rw [if_pos hreached]
      exact ⟨1, Nat.zero_lt_one, by rw [List.length_cons]; omega, hreached,
        fun j hj hlt => absurd hj (by omega), rfl⟩
    · rw [if_neg hreached] at h ⊢
      by_cases hstopped : 0 < terminator.length ∧
          terminator.length ≤ termIndex terminator (read ++ [c])
      · rw [if_pos hstopped] at h
        cases h
      · rw [if_neg hstopped] at h ⊢
        obtain ⟨k, hk, hle, hend, hbefore, hrest⟩ := ih hnul.2 (read ++ [c]) h
        rw [List.append_assoc] at hend
        refine ⟨k + 1, Nat.succ_pos k, Nat.succ_le_succ hle, hend, ?_, hrest⟩
        intro j hj hlt
        obtain ⟨j, rfl⟩ := Nat.exists_eq_succ_of_ne_zero (Nat.ne_of_gt hj)
        rcases Nat.eq_zero_or_pos j with rfl | hpos
        · exact ⟨hreached, hstopped⟩
        · have hearlier := hbefore j hpos (by omega)
          rw [List.append_assoc] at hearlier
          exact hearlier

theorem findLoop_of_reached (htarget : target ≠ []) {stream : List UInt8} (hnul : 0 ∉ stream)
    (read : List UInt8) {k : Nat} (hpos : 0 < k) (hle : k ≤ stream.length)
    (hend : Reached target (read ++ stream.take k))
    (hbefore : ∀ j, 0 < j → j < k → ¬ Stopped terminator (read ++ stream.take j)) :
    (findLoop target terminator stream (targetIndex target read)
      (termIndex terminator read)).1 = true := by
  induction stream generalizing read k with
  | nil => exact absurd hle (Nat.not_le_of_lt hpos)
  | cons c stream ih =>
    rw [List.mem_cons, not_or] at hnul
    rw [findLoop_cons htarget (Ne.symm hnul.1)]
    by_cases hreached : target.length ≤ targetIndex target (read ++ [c])
    · rw [if_pos hreached]
    · obtain ⟨k, rfl⟩ := Nat.exists_eq_succ_of_ne_zero (Nat.ne_of_gt hpos)
      have hmore : 0 < k := by
        refine Nat.pos_of_ne_zero ?_
        rintro rfl
        exact hreached hend
      have hgoes : ¬ Stopped terminator (read ++ [c]) :=
        hbefore 1 Nat.zero_lt_one (Nat.succ_lt_succ hmore)
      unfold Stopped at hgoes
      rw [if_neg hreached, if_neg hgoes]
      refine ih hnul.2 (read ++ [c]) hmore (Nat.le_of_succ_le_succ hle) ?_ ?_
      · rw [List.append_assoc]
        exact hend
      · intro j _ hlt
        rw [List.append_assoc]
        exact hbefore (j + 1) (Nat.succ_pos j) (Nat.succ_lt_succ hlt)

end Loop

section Occurrences
variable {target terminator stream : List UInt8}

theorem endsAt_of_part {p : List UInt8} {k : Nat} (h : p <:+: stream.take k) :
    ∃ m ≤ k, EndsAt p stream m := by
  obtain ⟨before, behind, hsplit⟩ := h
  have hlen := congrArg List.length hsplit
  rw [List.length_append, List.length_take] at hlen
  refine ⟨(before ++ p).length, by omega, by omega, before, ?_⟩
  have htake := congrArg (List.take (before ++ p).length) hsplit
  rw [List.take_left, List.take_take, Nat.min_eq_left (by omega)] at htake
  exact htake

theorem endsAt_of_reached {k : Nat} (hk : k ≤ stream.length)
    (h : Reached target (stream.take k)) : EndsAt target stream k :=
  ⟨hk, suffix_of_index (restart_again target)
    (Nat.le_antisymm (index_sound (restart_again target) _).1 h)⟩

theorem endsAt_of_stopped {k : Nat} (hk : k ≤ stream.length)
    (h : Stopped terminator (stream.take k)) : EndsAt terminator stream k :=
  ⟨hk, suffix_of_index (restart_forget terminator)
    (Nat.le_antisymm (index_sound (restart_forget terminator) _).1 h.2)⟩

theorem take_dropLast {k : Nat} (hk : k ≤ stream.length) :
    (stream.take k).dropLast = stream.take (k - 1) := by
  rw [List.dropLast_eq_take, List.length_take, Nat.min_eq_left hk, List.take_take,
    Nat.min_eq_left (Nat.sub_le k 1)]

theorem lost_pos {q i : Nat} (h : Lost target (again target) q i) : 0 < i := by
  refine Nat.pos_of_ne_zero ?_
  rintro rfl
  have hc := List.getElem?_eq_getElem (Nat.lt_trans h.behind h.inside)
  exact h.dropped _ hc (if_pos hc)

theorem reached_of_endsAt (hr : Restartable target terminator) {k : Nat}
    (hends : EndsAt target stream k) (hfirst : ∀ j < k, ¬ EndsAt target stream j)
    (hbefore : ∀ j < k, terminator ≠ [] → ¬ EndsAt terminator stream j) :
    Reached target (stream.take k) := by
  refine Nat.le_of_eq (index_of_suffix (restart_again target) hends.2 ?_ ?_).symm
  · intro j hj hfull
    rw [List.length_take] at hj
    rw [List.take_take, Nat.min_eq_left (by omega)] at hfull
    exact hfirst j (by omega) (endsAt_of_reached (by omega) (Nat.le_of_eq hfull.symm))
  · intro q i hl hpiece
    rcases hr.forTarget q i (lost_pos hl) hl.behind hl.inside hl.border with heq | ⟨hne, hpart⟩
    · exact hl.differ heq
    · obtain ⟨front, hfront⟩ := hpiece
      have hpos : 0 < k := by
        have hlen := congrArg List.length hfront
        have := hl.inside
        have := hl.behind
        simp only [List.length_append, List.length_take, List.length_drop] at hlen
        omega
      have hlast : terminator <:+: stream.take (k - 1) := by
        rw [← take_dropLast hends.1, ← hfront, List.dropLast_append_of_ne_nil]
        · exact hpart.trans (List.suffix_append _ _).isInfix
        · intro hnil
          rw [hnil] at hpart
          exact hne (List.eq_nil_of_infix_nil hpart)
      obtain ⟨m, hm, hterm⟩ := endsAt_of_part hlast
      exact hbefore m (by omega) hne hterm

theorem stopped_of_endsAt (hr : Restartable target terminator) (hne : terminator ≠ []) {j : Nat}
    (hends : EndsAt terminator stream j) (hfirst : ∀ i < j, ¬ EndsAt terminator stream i)
    (hbefore : ∀ k ≤ j, ¬ EndsAt target stream k) : Stopped terminator (stream.take j) := by
  refine ⟨List.length_pos_iff.mpr hne,
    Nat.le_of_eq (index_of_suffix (restart_forget terminator) hends.2 ?_ ?_).symm⟩
  · intro i hi hfull
    rw [List.length_take] at hi
    rw [List.take_take, Nat.min_eq_left (by omega)] at hfull
    exact hfirst i (by omega) (endsAt_of_stopped (by omega)
      ⟨List.length_pos_iff.mpr hne, Nat.le_of_eq hfull.symm⟩)
  · intro q i hl hpiece
    rcases hr.forTerminator q i hl.behind hl.inside hl.border with heq | hpart
    · exact hl.differ heq
    · obtain ⟨m, hm, htarget⟩ := endsAt_of_part (hpart.trans hpiece.isInfix)
      exact hbefore m hm htarget

end Occurrences

section Exact
variable {target terminator : List UInt8}

theorem findUntil_eq (htarget : target ≠ []) (terminator stream : List UInt8) :
    findUntil target terminator stream =
      findLoop target terminator stream (targetIndex target []) (termIndex terminator []) :=
  if_neg htarget

theorem findUntil_found (htarget : target ≠ []) {stream : List UInt8} (hnul : 0 ∉ stream)
    (h : (findUntil target terminator stream).1 = true) :
    ∃ k, 0 < k ∧ k ≤ stream.length ∧ Reached target (stream.take k) ∧
      (∀ j, 0 < j → j < k → ¬ Reached target (stream.take j) ∧
        ¬ Stopped terminator (stream.take j)) ∧
      (findUntil target terminator stream).2 = stream.drop k := by
  rw [findUntil_eq htarget] at h ⊢
  exact findLoop_found htarget hnul [] h

theorem pos_of_endsAt {p stream : List UInt8} (hp : p ≠ []) {k : Nat} (h : EndsAt p stream k) :
    0 < k := by
  refine Nat.pos_of_ne_zero ?_
  rintro rfl
  exact hp (List.suffix_nil.mp h.2)

theorem exists_first {p : Nat → Prop} (h : ∃ k, p k) : ∃ k, p k ∧ ∀ j < k, ¬ p j := by
  classical
  exact ⟨Nat.find h, Nat.find_spec h, fun _ => Nat.find_min h⟩

theorem findsFirst_of_restartable (htarget : target ≠ []) (hr : Restartable target terminator)
    {stream : List UInt8} (hnul : 0 ∉ stream) : FindsFirst target terminator stream := by
  constructor
  · constructor
    · intro htrue
      obtain ⟨k, hpos, hle, hreached, hbefore, -⟩ := findUntil_found htarget hnul htrue
      by_cases hterm : ∃ j, j < k ∧ terminator ≠ [] ∧ EndsAt terminator stream j
      · obtain ⟨j, ⟨hlt, hne, hends⟩, hleast⟩ := exists_first hterm
        have hnone : ∀ i < j, ¬ EndsAt terminator stream i :=
          fun i hi hi' => hleast i hi ⟨Nat.lt_trans hi hlt, hne, hi'⟩
        by_cases hearlier : ∃ m ≤ j, EndsAt target stream m
        · obtain ⟨m, hm, hmatch⟩ := hearlier
          exact ⟨m, hmatch, fun i hi _ => hnone i (Nat.lt_of_lt_of_le hi hm)⟩
        · exact absurd (stopped_of_endsAt hr hne hends hnone fun m hm hmatch =>
            hearlier ⟨m, hm, hmatch⟩) (hbefore j (pos_of_endsAt hne hends) hlt).2
      · exact ⟨k, endsAt_of_reached hle hreached, fun j hj hne hends =>
          hterm ⟨j, hj, hne, hends⟩⟩
    · rintro ⟨k, hends, hbefore⟩
      obtain ⟨m, hfirst, hleast⟩ := exists_first ⟨k, hends⟩
      have hle : m ≤ k := Nat.le_of_not_lt fun hlt => hleast k hlt hends
      rw [findUntil_eq htarget]
      refine findLoop_of_reached htarget hnul [] (pos_of_endsAt htarget hfirst) hfirst.1
        (reached_of_endsAt hr hfirst hleast fun j hj =>
          hbefore j (Nat.lt_of_lt_of_le hj hle)) ?_
      intro j _ hlt hstopped
      exact hbefore j (Nat.lt_of_lt_of_le hlt hle) (List.length_pos_iff.mp hstopped.1)
        (endsAt_of_stopped (Nat.le_of_lt (Nat.lt_of_lt_of_le hlt hfirst.1)) hstopped)
  · intro htrue k hends hleast
    obtain ⟨m, hpos, hle, hreached, hbefore, hrest⟩ := findUntil_found htarget hnul htrue
    rw [hrest]
    rcases Nat.lt_trichotomy k m with hlt | rfl | hgt
    · -- the terminator has ended in front of the target, and has been seen
      by_cases hterm : ∃ j, j < k ∧ terminator ≠ [] ∧ EndsAt terminator stream j
      · obtain ⟨j, ⟨hj, hne, hstop⟩, hnone⟩ := exists_first hterm
        exact absurd (stopped_of_endsAt hr hne hstop
          (fun i hi hi' => hnone i hi ⟨Nat.lt_trans hi hj, hne, hi'⟩)
          fun i hi => hleast i (Nat.lt_of_le_of_lt hi hj))
          (hbefore j (pos_of_endsAt hne hstop) (Nat.lt_trans hj hlt)).2
      · exact absurd (reached_of_endsAt hr hends hleast fun j hj hne hstop =>
          hterm ⟨j, hj, hne, hstop⟩) (hbefore k (pos_of_endsAt htarget hends) hlt).1
    · rfl
    · exact absurd (endsAt_of_reached hle hreached) (hleast m hgt)

theorem exists_fresh (x y z : Option UInt8) :
    ∃ c : UInt8, c ≠ 0 ∧ x ≠ some c ∧ y ≠ some c ∧ z ≠ some c := by
  by_cases h1 : x ≠ some 1 ∧ y ≠ some 1 ∧ z ≠ some 1
  · exact ⟨1, by decide, h1⟩
  · by_cases h2 : x ≠ some 2 ∧ y ≠ some 2 ∧ z ≠ some 2
    · exact ⟨2, by decide, h2⟩
    · by_cases h3 : x ≠ some 3 ∧ y ≠ some 3 ∧ z ≠ some 3
      · exact ⟨3, by decide, h3⟩
      · refine ⟨4, by decide, ?_⟩
        have h12 : (some 1 : Option UInt8) ≠ some 2 := by decide
        have h13 : (some 1 : Option UInt8) ≠ some 3 := by decide
        have h14 : (some 1 : Option UInt8) ≠ some 4 := by decide
        have h23 : (some 2 : Option UInt8) ≠ some 3 := by decide
        have h24 : (some 2 : Option UInt8) ≠ some 4 := by decide
        have h34 : (some 3 : Option UInt8) ≠ some 4 := by decide
        grind

theorem forTarget_of_finds (htarget : target ≠ []) (hnul : 0 ∉ target)
    (hfinds : ∀ stream, 0 ∉ stream → FindsFirst target terminator stream) (q i : Nat)
    (hi : 0 < i) (hiq : i < q) (hq : q < target.length) (hborder : target.take i <:+ target.take q) :
    target[i]? = target[q]? ∨
      terminator ≠ [] ∧ terminator <:+: (target.take q ++ target.drop i).dropLast := by
  by_contra hnot
  rw [not_or] at hnot
  obtain ⟨hdiffer, hclean⟩ := hnot
  have hl : Lost target (again target) q i := by
    refine ⟨hiq, hq, hborder, hdiffer, ?_⟩
    intro c _
    have := (restart_again target).le_one c
    omega
  have hclear : 0 ∉ target.take q ++ target.drop i := by
    rw [List.mem_append, not_or]
    exact ⟨fun h => hnul (List.mem_of_mem_take h), fun h => hnul (List.mem_of_mem_drop h)⟩
  have hends : EndsAt target (target.take q ++ target.drop i)
      (target.take q ++ target.drop i).length := by
    refine ⟨Nat.le_refl _, ?_⟩
    rw [List.take_length]
    obtain ⟨front, hfront⟩ := hborder
    refine ⟨front, ?_⟩
    rw [← hfront, List.append_assoc, List.take_append_drop]
  have htrue := (hfinds _ hclear).found.mpr ⟨_, hends, ?_⟩
  · obtain ⟨k, -, -, hreached, -, -⟩ := findUntil_found htarget hclear htrue
    exact absurd (index_lost (restart_again target) hl k) (Nat.not_lt_of_le hreached)
  · intro j hj hne hterm
    refine hclean ⟨hne, ?_⟩
    have htake := hterm.2
    rw [← Nat.min_eq_left (Nat.le_sub_one_of_lt hj), ← List.take_take,
      ← List.dropLast_eq_take] at htake
    exact htake.isInfix.trans (List.take_prefix _ _).isInfix

theorem forTerminator_of_finds (htarget : target ≠ []) (hnul : 0 ∉ target)
    (htermNul : 0 ∉ terminator)
    (houtside : ¬ (terminator ≠ [] ∧ terminator <:+: target.dropLast))
    (hfinds : ∀ stream, 0 ∉ stream → FindsFirst target terminator stream) (q i : Nat)
    (hiq : i < q) (hq : q < terminator.length)
    (hborder : terminator.take i <:+ terminator.take q) :
    terminator[i]? = terminator[q]? ∨ target <:+: terminator.take q ++ terminator.drop i := by
  by_contra hnot
  rw [not_or] at hnot
  obtain ⟨hdiffer, hclean⟩ := hnot
  have hne : terminator ≠ [] := List.length_pos_iff.mp (Nat.zero_lt_of_lt hq)
  have hl : Lost terminator forget q i := ⟨hiq, hq, hborder, hdiffer, fun _ _ h => (nomatch h)⟩
  have hends : terminator <:+ terminator.take q ++ terminator.drop i := by
    obtain ⟨front, hfront⟩ := hborder
    refine ⟨front, ?_⟩
    rw [← hfront, List.append_assoc, List.take_append_drop]
  have hmissed := index_lost (restart_forget terminator) hl
  have hclear : 0 ∉ terminator.take q ++ terminator.drop i := by
    rw [List.mem_append, not_or]
    exact ⟨fun h => htermNul (List.mem_of_mem_take h),
      fun h => htermNul (List.mem_of_mem_drop h)⟩
  generalize terminator.take q ++ terminator.drop i = piece at hclean hends hmissed hclear
  obtain ⟨c, hc, hct, hcf, hcu⟩ := exists_fresh target[targetIndex target piece]? target[0]?
    terminator[termIndex terminator piece]?
  have htargetZero : targetIndex target (piece ++ [c]) = 0 := by
    rw [targetIndex_snoc, if_neg hct, if_neg hcf]
  have htermZero : termIndex terminator (piece ++ [c]) = 0 := by
    rw [termIndex_snoc, if_neg hcu]
  have hstream : 0 ∉ piece ++ [c] ++ target := by
    simp only [List.mem_append, List.mem_singleton, not_or]
    exact ⟨⟨hclear, Ne.symm hc⟩, hnul⟩
  have hend : Reached target (([] : List UInt8) ++ (piece ++ [c] ++ target).take
      (piece ++ [c] ++ target).length) := by
    rw [List.nil_append, List.take_length]
    refine Nat.le_of_eq (Eq.symm ?_)
    have hwhole := @index_take _ target _ (again target) target.length (Nat.le_refl _)
    rw [List.take_length] at hwhole
    exact (index_append htargetZero target).trans hwhole
  have hunstopped : ∀ j < (piece ++ [c] ++ target).length,
      ¬ Stopped terminator ((piece ++ [c] ++ target).take j) := by
    intro j hj hstopped
    rw [List.append_assoc, List.length_append, List.length_append] at hj
    rw [List.append_assoc, List.take_append] at hstopped
    rcases Nat.lt_or_ge piece.length j with hbehind | hwithin
    · obtain ⟨m, hm⟩ : ∃ m, j - piece.length = m + 1 := ⟨j - piece.length - 1, by omega⟩
      rw [List.take_of_length_le (Nat.le_of_lt hbehind), hm, List.singleton_append,
        List.take_succ_cons, ← List.singleton_append, ← List.append_assoc] at hstopped
      have hread : Stopped terminator (target.take m) :=
        ⟨hstopped.1, Nat.le_trans hstopped.2 (Nat.le_of_eq (index_append htermZero _))⟩
      have hlen : [c].length = 1 := rfl
      have hlast := (endsAt_of_stopped (by omega) hread).2
      rw [← Nat.min_eq_left (show m ≤ target.length - 1 by omega), ← List.take_take,
        ← List.dropLast_eq_take] at hlast
      exact houtside ⟨hne, hlast.isInfix.trans (List.take_prefix _ _).isInfix⟩
    · rw [Nat.sub_eq_zero_of_le hwithin, List.take_zero, List.append_nil] at hstopped
      exact absurd (hmissed j) (Nat.not_lt_of_le hstopped.2)
  have htrue : (findUntil target terminator (piece ++ [c] ++ target)).1 = true := by
    rw [findUntil_eq htarget]
    refine findLoop_of_reached htarget hstream [] ?_ (Nat.le_refl _) hend
      fun j _ hlt => hunstopped j hlt
    rw [List.append_assoc, List.length_append, List.length_append]
    exact Nat.lt_of_lt_of_le (List.length_pos_iff.mpr htarget) (by omega)
  obtain ⟨k, hmatch, hbefore⟩ := (hfinds _ hstream).found.mp htrue
  have hpiece : ∀ m ≤ piece.length, (piece ++ [c] ++ target).take m = piece.take m := by
    intro m hm
    rw [List.append_assoc, List.take_append, Nat.sub_eq_zero_of_le hm, List.take_zero,
      List.append_nil]
  rcases Nat.lt_or_ge piece.length k with hbehind | hwithin
  · refine hbefore piece.length hbehind hne ⟨?_, ?_⟩
    · rw [List.append_assoc, List.length_append]
      exact Nat.le_add_right _ _
    · rw [hpiece _ (Nat.le_refl _), List.take_length]
      exact hends
  · have hinside := hmatch.2
    rw [hpiece k hwithin] at hinside
    exact hclean (hinside.isInfix.trans (List.take_prefix _ _).isInfix)

end Exact

/-- `findUntil` finds what is first if the restart loses nothing; and it does so on all streams only
then, but for a terminator inside the target, when nothing is ever to be found. -/
theorem findUntil_exact (target terminator : List UInt8) (htarget : target ≠ [])
    (hnul : 0 ∉ target) (htermNul : 0 ∉ terminator) :
    (Restartable target terminator →
      ∀ stream, 0 ∉ stream → FindsFirst target terminator stream) ∧
    (¬ (terminator ≠ [] ∧ terminator <:+: target.dropLast) →
      (∀ stream, 0 ∉ stream → FindsFirst target terminator stream) →
        Restartable target terminator) :=
  ⟨fun hr _ hstream => findsFirst_of_restartable htarget hr hstream,
    fun houtside hfinds => ⟨forTarget_of_finds htarget hnul hfinds,
      forTerminator_of_finds htarget hnul htermNul houtside hfinds⟩⟩

theorem findUntil_line : FindsFirst [97, 98] [10] [99, 97, 98] :=
  (findUntil_exact [97, 98] [10] (by decide) (by decide) (by decide)).1
    ⟨fun q i _ _ hq _ => absurd hq (by simp; omega), fun q i _ hq _ => absurd hq (by simp; omega)⟩
    [99, 97, 98] (by decide)

theorem find_misses : ¬ FindsFirst [97, 97, 98] [] [97, 97, 97, 98] := by
  intro h
  have htrue := h.found.mpr ⟨4, ⟨by decide, by decide⟩, fun _ _ hne => absurd rfl hne⟩
  revert htrue
  decide

end Esp8266.Streams
