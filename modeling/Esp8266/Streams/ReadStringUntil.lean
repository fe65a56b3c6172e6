import Mathlib.Algebra.Group.Nat.Defs
import Mathlib.Algebra.Group.Int.Defs
import Esp8266.Streams.Find

/-! `Stream::readStringUntil` with a string: up to a number of occurrences of the terminator. The
text is short enough for the `String`. -/
namespace Esp8266.Streams
open Esp8266.Matching

def readStringLoop (terminator : List UInt8) (untilTotalNumberOfOccurrences : Nat) :
    List UInt8 → List UInt8 → Nat → Nat → List UInt8 × List UInt8
  | [], ret, _, _ => (ret, [])
  | c :: stream, ret, termIndex, occurrences =>
    if c = 0 then (ret, stream)
    else
      let ret := ret ++ [c]
      if terminator[termIndex]? = some c then
        let termIndex := termIndex + 1
        if termIndex = terminator.length then
          let occurrences := (occurrences + 1) % 2 ^ 32
          if occurrences = untilTotalNumberOfOccurrences then
            -- `ret.remove(index - termIndex, termLen)`
            (ret.take (ret.length - termIndex) ++
              ret.drop (ret.length - termIndex + terminator.length), stream)
          else readStringLoop terminator untilTotalNumberOfOccurrences stream ret termIndex occurrences
        else readStringLoop terminator untilTotalNumberOfOccurrences stream ret termIndex occurrences
      else readStringLoop terminator untilTotalNumberOfOccurrences stream ret 0 occurrences

def readStringUntil (terminator : List UInt8) (untilTotalNumberOfOccurrences : UInt32)
    (stream : List UInt8) : List UInt8 × List UInt8 :=
  readStringLoop terminator untilTotalNumberOfOccurrences.toNat stream [] 0 0

/-- The `n`-th occurrence ends behind the first `k` bytes, when each is looked for behind the last. -/
inductive NthEnds (terminator : List UInt8) : Nat → List UInt8 → Nat → Prop where
  | none (stream : List UInt8) : NthEnds terminator 0 stream 0
  | next {n k m : Nat} {stream : List UInt8} (ends : EndsAt terminator stream k)
      (first : ∀ j < k, ¬ EndsAt terminator stream j)
      (more : NthEnds terminator n (stream.drop k) m) : NthEnds terminator (n + 1) stream (k + m)

/-- The text in front of the `n`-th occurrence, or all of it. -/
structure ReadsUntil (terminator : List UInt8) (n : UInt32) (stream : List UInt8) : Prop where
  stops : ∀ k, NthEnds terminator n.toNat stream k →
    readStringUntil terminator n stream =
      (stream.take (k - terminator.length), stream.drop k)
  whole : (∀ k, ¬ NthEnds terminator n.toNat stream k) →
    (readStringUntil terminator n stream).1 = stream

section Once
variable {terminator : List UInt8}

theorem readStringLoop_cons {c : UInt8} (hc : c ≠ 0) (stream ret : List UInt8) :
    readStringLoop terminator 1 (c :: stream) ret (termIndex terminator ret) 0 =
      if terminator[termIndex terminator ret]? = some c ∧
          termIndex terminator (ret ++ [c]) = terminator.length then
        ((ret ++ [c]).take ((ret ++ [c]).length - terminator.length) ++
          (ret ++ [c]).drop ((ret ++ [c]).length - terminator.length + terminator.length), stream)
      else readStringLoop terminator 1 stream (ret ++ [c]) (termIndex terminator (ret ++ [c])) 0 := by
  rw [readStringLoop, if_neg hc, termIndex_snoc]
  by_cases hmatch : terminator[termIndex terminator ret]? = some c
  · simp only [hmatch, if_true, true_and]
    by_cases hfull : termIndex terminator ret + 1 = terminator.length
    · rw [if_pos hfull, if_pos hfull, hfull, if_pos (by decide)]
    · rw [if_neg hfull, if_neg hfull]
  · rw [if_neg hmatch, if_neg hmatch, if_neg (fun h => hmatch h.1)]

theorem readStringLoop_all {stream : List UInt8} (hnul : 0 ∉ stream) (ret : List UInt8)
    (hnever : ∀ j, 0 < j → j ≤ stream.length →
      termIndex terminator (ret ++ stream.take j) ≠ terminator.length) :
    readStringLoop terminator 1 stream ret (termIndex terminator ret) 0 = (ret ++ stream, []) := by
  induction stream generalizing ret with
  | nil => rw [readStringLoop, List.append_nil]
  | cons c stream ih =>
    rw [List.mem_cons, not_or] at hnul
    have hfirst : termIndex terminator (ret ++ [c]) ≠ terminator.length :=
      hnever 1 Nat.zero_lt_one (Nat.succ_le_succ (Nat.zero_le _))
    rw [readStringLoop_cons (Ne.symm hnul.1), if_neg (fun h => hfirst h.2), ih hnul.2]
    · rw [List.append_assoc, List.singleton_append]
    · intro j _ hj
      rw [List.append_assoc]
      exact hnever (j + 1) (Nat.succ_pos j) (Nat.succ_le_succ hj)

theorem readStringLoop_stops (hne : terminator ≠ []) {stream : List UInt8} (hnul : 0 ∉ stream)
    (ret : List UInt8) {k : Nat} (hpos : 0 < k) (hle : k ≤ stream.length)
    (hend : termIndex terminator (ret ++ stream.take k) = terminator.length)
    (hbefore : ∀ j, 0 < j → j < k →
      termIndex terminator (ret ++ stream.take j) ≠ terminator.length) :
    readStringLoop terminator 1 stream ret (termIndex terminator ret) 0 =
      ((ret ++ stream).take (ret.length + k - terminator.length), stream.drop k) := by
  induction stream generalizing ret k with
  | nil => exact absurd hle (Nat.not_le_of_lt hpos)
  | cons c stream ih =>
    rw [List.mem_cons, not_or] at hnul
    obtain ⟨k, rfl⟩ := Nat.exists_eq_succ_of_ne_zero (Nat.ne_of_gt hpos)
    rw [readStringLoop_cons (Ne.symm hnul.1)]
    rcases Nat.eq_zero_or_pos k with rfl | hmore
    · have hlast : termIndex terminator (ret ++ [c]) = terminator.length := hend
      have hmatch : terminator[termIndex terminator ret]? = some c := by
        rw [termIndex_snoc] at hlast
        split at hlast
        · assumption
        · exact absurd hlast.symm (Nat.ne_of_gt (List.length_pos_iff.mpr hne))
      have hfits := (index_sound (restart_forget terminator) (ret ++ [c])).2.length_le
      have hindex : index terminator forget (ret ++ [c]) = terminator.length := hlast
      rw [hindex, List.take_length, List.length_append] at hfits
      rw [if_pos ⟨hmatch, hlast⟩, List.drop_of_length_le (by rw [List.length_append]; omega),
        List.append_nil, List.length_append]
      have hone : [c].length = 1 := rfl
      have hcut : (ret ++ c :: stream).take (ret.length + 1 - terminator.length) =
          (ret ++ [c]).take (ret.length + 1 - terminator.length) := by
        rw [← List.singleton_append, ← List.append_assoc,
          List.take_append_of_le_length (by rw [List.length_append, hone]; omega)]
      rw [Nat.succ_eq_add_one, Nat.zero_add, hcut]
      rfl
    · have hfirst : termIndex terminator (ret ++ [c]) ≠ terminator.length :=
        hbefore 1 Nat.zero_lt_one (Nat.succ_lt_succ hmore)
      rw [if_neg (fun h => hfirst h.2), ih hnul.2 (ret ++ [c]) hmore (Nat.le_of_succ_le_succ hle)]
      · rw [List.append_assoc, List.singleton_append, List.length_append, List.drop_succ_cons,
          Nat.add_assoc, Nat.add_comm [c].length k]
        rfl
      · rw [List.append_assoc]
        exact hend
      · intro j _ hj
        rw [List.append_assoc]
        exact hbefore (j + 1) (Nat.succ_pos j) (Nat.succ_lt_succ hj)

theorem nthEnds_one {stream : List UInt8} {k : Nat} :
    NthEnds terminator 1 stream k ↔
      EndsAt terminator stream k ∧ ∀ j < k, ¬ EndsAt terminator stream j := by
  constructor
  · intro h
    cases h with
    | next ends first more =>
      cases more
      exact ⟨ends, first⟩
  · rintro ⟨hends, hfirst⟩
    exact NthEnds.next hends hfirst (NthEnds.none _)

theorem readsUntil_of_constant (hne : terminator ≠ [])
    (hconstant : ∀ q < terminator.length, terminator[q]? = terminator[0]?) {stream : List UInt8}
    (hnul : 0 ∉ stream) : ReadsUntil terminator 1 stream := by
  have hnone : ∀ k ≤ stream.length, ¬ EndsAt terminator stream k →
      termIndex terminator (stream.take k) ≠ terminator.length := by
    intro k hk hends hfull
    exact hends (endsAt_of_stopped hk ⟨List.length_pos_iff.mpr hne, Nat.le_of_eq hfull.symm⟩)
  constructor
  · intro k hnth
    obtain ⟨hends, hfirst⟩ := nthEnds_one.mp hnth
    have hseen : termIndex terminator (stream.take k) = terminator.length := by
      refine index_of_suffix (restart_forget terminator) hends.2 ?_ ?_
      · intro j hj
        rw [List.length_take] at hj
        rw [List.take_take, Nat.min_eq_left (by omega)]
        exact hnone j (by omega) (hfirst j (by omega))
      · intro q i hl _
        have hi := hconstant i (Nat.lt_trans hl.behind hl.inside)
        exact hl.differ (hi.trans (hconstant q hl.inside).symm)
    have hread := readStringLoop_stops hne hnul [] (pos_of_endsAt hne hends) hends.1 hseen
      fun j _ hj => hnone j (Nat.le_of_lt (Nat.lt_of_lt_of_le hj hends.1)) (hfirst j hj)
    rw [List.nil_append, List.length_nil, Nat.zero_add] at hread
    exact hread
  · intro hnever
    have hread := @readStringLoop_all terminator _ hnul [] fun j _ hj =>
      hnone j hj fun hends => by
        obtain ⟨k, hfirst⟩ := exists_first ⟨j, hends⟩
        exact hnever k (nthEnds_one.mpr hfirst)
    exact congrArg Prod.fst hread

theorem constant_of_readsUntil (hne : terminator ≠ []) (hnul : 0 ∉ terminator)
    (hreads : ∀ stream, 0 ∉ stream → ReadsUntil terminator 1 stream) (q : Nat)
    (hq : q < terminator.length) : terminator[q]? = terminator[0]? := by
  by_contra hdiffer
  have hpos : 0 < q := by
    refine Nat.pos_of_ne_zero ?_
    rintro rfl
    exact hdiffer rfl
  have hl : Lost terminator forget q 0 :=
    ⟨hpos, hq, List.nil_suffix, fun h => hdiffer h.symm, fun _ _ h => (nomatch h)⟩
  have hmissed := index_lost (restart_forget terminator) hl
  rw [List.drop_zero] at hmissed
  have hclear : 0 ∉ terminator.take q ++ terminator := by
    rw [List.mem_append, not_or]
    exact ⟨fun h => hnul (List.mem_of_mem_take h), hnul⟩
  have hends : EndsAt terminator (terminator.take q ++ terminator)
      (terminator.take q ++ terminator).length := by
    refine ⟨Nat.le_refl _, ?_⟩
    rw [List.take_length]
    exact List.suffix_append _ _
  generalize terminator.take q ++ terminator = stream at hmissed hclear hends
  obtain ⟨k, hfirst⟩ := exists_first ⟨_, hends⟩
  have hstops := congrArg (fun r => r.1.length) ((hreads stream hclear).stops k
    (nthEnds_one.mpr hfirst))
  have hall := @readStringLoop_all terminator _ hclear [] fun j _ _ =>
    Nat.ne_of_lt (hmissed j)
  have hwhole : (readStringUntil terminator 1 stream).1 = stream := congrArg Prod.fst hall
  dsimp only at hstops
  rw [hwhole, List.length_take] at hstops
  have hlen := List.length_pos_iff.mpr hne
  have hsuffix := hfirst.1.2.length_le
  have hwithin := hfirst.1.1
  rw [List.length_take] at hsuffix
  omega

end Once

section Many
variable {terminator : List UInt8}

theorem readStringLoop_short {n : Nat} (hn : n < 2 ^ 32) {stream : List UInt8} (hnul : 0 ∉ stream)
    (ret : List UInt8) (termIndex occurrences : Nat) (hcount : occurrences < n)
    (hindex : termIndex ≤ terminator.length)
    (hinside : termIndex < terminator.length →
      occurrences * (terminator.length + 1) + termIndex ≤ ret.length)
    (hbehind : termIndex = terminator.length →
      occurrences * (terminator.length + 1) ≤ ret.length + 1)
    (hshort : ret.length + stream.length + 1 < n * (terminator.length + 1)) :
    readStringLoop terminator n stream ret termIndex occurrences = (ret ++ stream, []) := by
  induction stream generalizing ret termIndex occurrences with
  | nil => rw [readStringLoop, List.append_nil]
  | cons c stream ih =>
    rw [List.mem_cons, not_or] at hnul
    rw [List.length_cons] at hshort
    have hret : (ret ++ [c]).length = ret.length + 1 := List.length_append
    have hjoin : ret ++ c :: stream = (ret ++ [c]) ++ stream := by
      rw [List.append_assoc, List.singleton_append]
    rw [readStringLoop, if_neg (Ne.symm hnul.1)]
    dsimp only
    split
    · rename_i hmatch
      obtain ⟨hlt, -⟩ := List.getElem?_eq_some_iff.mp hmatch
      have hsofar := hinside hlt
      split
      · rename_i hfull
        have hmore : (occurrences + 1) * (terminator.length + 1) =
            occurrences * (terminator.length + 1) + (terminator.length + 1) := Nat.succ_mul _ _
        rw [Nat.mod_eq_of_lt (by omega)]
        have hfewer : occurrences + 1 ≠ n := by
          rintro rfl
          omega
        rw [if_neg hfewer, hjoin]
        refine ih hnul.2 (ret ++ [c]) _ _ (by omega) (by omega) (fun h => absurd h (by omega)) ?_
          (by omega)
        intro _
        omega
      · rename_i hpart
        rw [hjoin]
        exact ih hnul.2 (ret ++ [c]) _ _ hcount (by omega) (fun _ => by omega)
          (fun h => absurd h hpart) (by omega)
    · rw [hjoin]
      refine ih hnul.2 (ret ++ [c]) _ _ hcount (Nat.zero_le _) (fun _ => ?_) (fun _ => ?_) (by omega)
      · rcases Nat.lt_or_eq_of_le hindex with hlt | heq
        · have := hinside hlt
          omega
        · have := hbehind heq
          omega
      · rcases Nat.lt_or_eq_of_le hindex with hlt | heq
        · have := hinside hlt
          omega
        · have := hbehind heq
          omega

theorem nthEnds_repeated (terminator : List UInt8) (n : Nat) :
    NthEnds terminator n (List.replicate n terminator).flatten (n * terminator.length) := by
  induction n with
  | zero =>
    rw [Nat.zero_mul]
    exact NthEnds.none _
  | succ n ih =>
    rw [List.replicate_succ, List.flatten_cons, Nat.succ_mul,
      Nat.add_comm _ terminator.length]
    refine NthEnds.next ⟨?_, ?_⟩ ?_ ?_
    · rw [List.length_append]
      exact Nat.le_add_right _ _
    · exact ⟨[], by rw [List.nil_append, List.take_left]⟩
    · intro j hj hends
      have := hends.2.length_le
      rw [List.length_take] at this
      omega
    · rw [List.drop_left]
      exact ih

theorem not_readsUntil_repeated (hne : terminator ≠ []) (hnul : 0 ∉ terminator) {n : UInt32}
    (hn : 2 ≤ n.toNat) :
    ¬ ReadsUntil terminator n (List.replicate n.toNat terminator).flatten := by
  intro hreads
  have hlen : (List.replicate n.toNat terminator).flatten.length =
      n.toNat * terminator.length := by
    rw [List.length_flatten, List.map_replicate, List.sum_replicate_nat]
  have hclear : 0 ∉ (List.replicate n.toNat terminator).flatten := by
    intro hmem
    obtain ⟨text, htext, hzero⟩ := List.mem_flatten.mp hmem
    rw [List.eq_of_mem_replicate htext] at hzero
    exact hnul hzero
  have hpos := List.length_pos_iff.mpr hne
  have hmul : n.toNat * (terminator.length + 1) = n.toNat * terminator.length + n.toNat :=
    Nat.mul_succ _ _
  have hall := @readStringLoop_short terminator _ n.toNat_lt _ hclear [] 0 0 (by omega)
    (Nat.zero_le _) (fun _ => by rw [Nat.zero_mul]; exact Nat.zero_le _)
    (fun _ => by rw [Nat.zero_mul]; exact Nat.zero_le _)
    (by rw [hlen, hmul, List.length_nil]; omega)
  have hwhole : (readStringUntil terminator n (List.replicate n.toNat terminator).flatten).1 =
      (List.replicate n.toNat terminator).flatten := congrArg Prod.fst hall
  have hstops := congrArg (fun r => r.1.length) (hreads.stops _ (nthEnds_repeated terminator _))
  dsimp only at hstops
  rw [hwhole, List.length_take, hlen] at hstops
  have hfirst : terminator.length ≤ n.toNat * terminator.length :=
    Nat.le_mul_of_pos_left _ (by omega)
  omega

end Many

/-- `readStringUntil` stops at the `n`-th terminator of every stream exactly if `n` is 1 and the bytes
of the terminator are equal. -/
theorem readStringUntil_exact_iff (terminator : List UInt8) (n : UInt32) (hne : terminator ≠ [])
    (hnul : 0 ∉ terminator) (hn : 1 ≤ n.toNat) :
    (∀ stream, 0 ∉ stream → ReadsUntil terminator n stream) ↔
      n = 1 ∧ ∀ q < terminator.length, terminator[q]? = terminator[0]? := by
  constructor
  · intro hreads
    have hone : n.toNat = 1 := by
      by_contra hmore
      refine not_readsUntil_repeated hne hnul (show 2 ≤ n.toNat by omega) (hreads _ ?_)
      intro hmem
      obtain ⟨text, htext, hzero⟩ := List.mem_flatten.mp hmem
      rw [List.eq_of_mem_replicate htext] at hzero
      exact hnul hzero
    obtain rfl : n = 1 := UInt32.toNat_inj.mp hone
    exact ⟨rfl, constant_of_readsUntil hne hnul hreads⟩
  · rintro ⟨rfl, hconstant⟩ stream hstream
    exact readsUntil_of_constant hne hconstant hstream

theorem readStringUntil_cr : ReadsUntil [13] 1 [97, 13, 10] :=
  (readStringUntil_exact_iff [13] 1 (by decide) (by decide) (by decide)).mpr
    ⟨rfl, fun q hq => by rw [show q = 0 from Nat.lt_one_iff.mp hq]⟩ [97, 13, 10] (by decide)

theorem readStringUntil_misses : ¬ ReadsUntil [10] 2 [97, 10, 10, 98] := by
  intro h
  have hends : NthEnds [10] 2 [97, 10, 10, 98] (2 + (1 + 0)) :=
    NthEnds.next ⟨by decide, by decide⟩ (by unfold EndsAt; decide)
      (NthEnds.next ⟨by decide, by decide⟩ (by unfold EndsAt; decide) (NthEnds.none _))
  have hread := h.stops _ hends
  revert hread
  decide

end Esp8266.Streams
