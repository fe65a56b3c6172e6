import Esp8266.Net.IPAddress

/-! The text of an IPv6 address: its first run of zeros takes the place of the blocks behind a
colon, which is a double colon unless the run touches an end. -/
namespace Esp8266.Net
open Esp8266.Numeral

theorem htons_toNat (x : UInt16) : (htons x).toNat = x.toNat % 256 * 256 + x.toNat / 256 := by
  have hx := x.toNat_lt
  have hlow : ((x &&& 0xff) <<< 8).toNat = (x.toNat % 256) <<< 8 := by
    have hmask : x.toNat &&& 255 = x.toNat % 2 ^ 8 := Nat.and_two_pow_sub_one_eq_mod x.toNat 8
    rw [UInt16.toNat_shiftLeft, UInt16.toNat_and, show (255 : UInt16).toNat = 255 from rfl, hmask,
      show (8 : UInt16).toNat % 16 = 8 from rfl, Nat.shiftLeft_eq]
    omega
  have hhigh : ((x &&& 0xff00) >>> 8).toNat = x.toNat / 256 := by
    have hmask : (x.toNat >>> 8) &&& 255 = (x.toNat >>> 8) % 2 ^ 8 :=
      Nat.and_two_pow_sub_one_eq_mod _ 8
    rw [UInt16.toNat_shiftRight, UInt16.toNat_and, show (65280 : UInt16).toNat = 65280 from rfl,
      show (8 : UInt16).toNat % 16 = 8 from rfl, Nat.shiftRight_and_distrib,
      show 65280 >>> 8 = 255 from rfl, hmask, Nat.shiftRight_eq_div_pow]
    omega
  unfold htons
  rw [UInt16.toNat_or, hlow, hhigh, ← Nat.shiftLeft_add_eq_or_of_lt (by omega), Nat.shiftLeft_eq]

@[simp] theorem htons_htons (x : UInt16) : htons (htons x) = x := by
  have hx := x.toNat_lt
  apply UInt16.toNat_inj.mp
  rw [htons_toNat, htons_toNat]
  omega

@[simp] theorem htons_eq_zero (x : UInt16) : htons x = 0 ↔ x = 0 := by
  constructor
  · intro hzero
    rw [← htons_htons x, hzero]
    rfl
  · intro hzero
    rw [hzero]
    rfl

def blockText (block : UInt16) : List UInt8 := numeral 16 (htons block).toNat

def joined : List UInt16 → List UInt8
  | [] => []
  | [block] => blockText block
  | block :: next :: rest => blockText block ++ 58 :: joined (next :: rest)

theorem joined_cons (block : UInt16) (rest : List UInt16) :
    joined (block :: rest) = blockText block ++ if rest = [] then [] else 58 :: joined rest := by
  cases rest with
  | nil => simp [joined]
  | cons next rest => simp [joined]

theorem printBlocks_show (block : UInt16) (rest : List UInt16) (i : Nat) (count0 : Int)
    (hshown : block ≠ 0 ∨ count0 < 0) :
    printBlocks (block :: rest) i count0 =
      blockText block ++ ((if i ≠ 7 then [58] else []) ++
        printBlocks rest (i + 1) (if count0 > 0 then -8 else count0)) := by
  have hfirst : (htons block ≠ 0 || count0 < 0) = true := by simpa using hshown
  have hsmall : (if count0 > 0 then -8 else count0) < 2 := by split <;> omega
  have hseven : (if count0 > 0 then -8 else count0) ≠ 7 := by split <;> omega
  rw [printBlocks]
  simp only [hfirst, if_true, hsmall, hseven, decide_true, decide_false, Bool.and_true,
    Bool.or_false, decide_eq_true_eq]
  rfl

theorem printBlocks_hide (rest : List UInt16) (i count0 : Nat) :
    printBlocks (0 :: rest) i count0 =
      (if (i ≠ 7 ∧ count0 = 0) ∨ count0 = 6 then [58] else []) ++
        printBlocks rest (i + 1) (count0 + 1 : Nat) := by
  have hhidden : (htons 0 ≠ 0 || (count0 : Int) < 0) = false := by
    have hnonneg : ¬ (count0 : Int) < 0 := by omega
    simp [hnonneg]
  have hcolon : ((i ≠ 7 && (count0 : Int) + 1 < 2 || (count0 : Int) + 1 = 7) = true) ↔
      ((i ≠ 7 ∧ count0 = 0) ∨ count0 = 6) := by
    rw [Bool.or_eq_true, Bool.and_eq_true, decide_eq_true_eq, decide_eq_true_eq,
      decide_eq_true_eq]
    omega
  rw [printBlocks]
  simp only [hhidden, if_false, Bool.false_eq_true, List.nil_append, hcolon]
  rfl

theorem printBlocks_shown (blocks : List UInt16) (i : Nat) (count0 : Int)
    (hshown : ∀ block ∈ blocks, block ≠ 0 ∨ count0 < 0) (hcount : count0 ≤ 0)
    (hlength : i + blocks.length = 8) : printBlocks blocks i count0 = joined blocks := by
  induction blocks generalizing i with
  | nil => rfl
  | cons block rest ih =>
    rw [List.length_cons] at hlength
    have hrest := ih (i + 1) (fun b hb => hshown b (List.mem_cons_of_mem _ hb)) (by omega)
    rw [printBlocks_show _ _ _ _ (hshown block (List.mem_cons_self ..)),
      if_neg (Int.not_lt_of_ge hcount), hrest, joined_cons]
    cases rest with
    | nil =>
      have hlast : i = 7 := by simpa using hlength
      rw [if_neg (by omega), if_pos rfl]
      rfl
    | cons next rest =>
      have hinner : i ≠ 7 := by
        rw [List.length_cons] at hlength
        omega
      rw [if_pos hinner, if_neg (List.cons_ne_nil _ _)]
      rfl

theorem printBlocks_prefix (before : List UInt16) (rest : List UInt16) (i : Nat)
    (hbefore : ∀ block ∈ before, block ≠ 0) (hne : before ≠ []) (hrest : rest ≠ [])
    (hlength : i + before.length + rest.length = 8) :
    printBlocks (before ++ rest) i 0 =
      joined before ++ 58 :: printBlocks rest (i + before.length) 0 := by
  induction before generalizing i with
  | nil => exact absurd rfl hne
  | cons block before ih =>
    have hpositive := List.length_pos_iff.mpr hrest
    have hinner : i ≠ 7 := by
      rw [List.length_cons] at hlength
      omega
    rw [List.cons_append, printBlocks_show _ _ _ _ (Or.inl (hbefore block (List.mem_cons_self ..))),
      if_pos hinner, if_neg (Int.lt_irrefl 0), joined_cons]
    cases before with
    | nil =>
      rw [if_pos rfl, List.append_nil, List.nil_append]
      rfl
    | cons next before =>
      rw [List.length_cons] at hlength
      have htail := ih (i + 1) (fun b hb => hbefore b (List.mem_cons_of_mem _ hb))
        (List.cons_ne_nil _ _) (by omega)
      have hindex : i + 1 + (next :: before).length = i + (block :: next :: before).length := by
        simp only [List.length_cons]
        omega
      rw [htail, if_neg (List.cons_ne_nil _ _), List.append_assoc, hindex]
      rfl

theorem printBlocks_zeros (zeros k : Nat) (after : List UInt16) (i : Nat) (hk : 1 ≤ k)
    (hafter : ∀ block, after.head? = some block → block ≠ 0)
    (hlength : i + zeros + after.length = 8) (hseven : k + zeros ≤ 7) :
    printBlocks (List.replicate zeros 0 ++ after) i k =
      (if 0 < zeros ∧ k + zeros = 7 then [58] else []) ++ joined after := by
  induction zeros generalizing i k with
  | zero =>
    rw [if_neg (by omega), List.replicate_zero, List.nil_append, List.nil_append]
    cases after with
    | nil => rfl
    | cons block rest =>
      rw [List.length_cons] at hlength
      have hrest := printBlocks_shown rest (i + 1) (-8) (fun _ _ => Or.inr (by decide)) (by decide)
        (by omega)
      have hhidden : (k : Int) > 0 := by omega
      rw [printBlocks_show _ _ _ _ (Or.inl (hafter block rfl)), if_pos hhidden, hrest,
        joined_cons]
      cases rest with
      | nil =>
        have hlast : i = 7 := by simpa using hlength
        rw [if_neg (by omega), if_pos rfl]
        rfl
      | cons next rest =>
        have hinner : i ≠ 7 := by
          rw [List.length_cons] at hlength
          omega
        rw [if_pos hinner, if_neg (List.cons_ne_nil _ _)]
        rfl
  | succ zeros ih =>
    rw [List.replicate_succ, List.cons_append, printBlocks_hide,
      ih (k + 1) (i + 1) (by omega) (by omega) (by omega)]
    by_cases hlast : k + (zeros + 1) = 7
    · cases zeros with
      | zero => rw [if_pos (by omega), if_neg (by omega), if_pos (by omega), List.nil_append]
      | succ zeros => rw [if_neg (by omega), if_pos (by omega), if_pos (by omega), List.nil_append]
    · rw [if_neg (by omega), if_neg (by omega), if_neg (by omega), List.nil_append]

theorem printBlocks_run (zeros : Nat) (after : List UInt16) (i : Nat)
    (hafter : ∀ block, after.head? = some block → block ≠ 0) (hpos : 0 < zeros)
    (hlength : i + zeros + after.length = 8) (hseven : zeros ≤ 7) :
    printBlocks (List.replicate zeros 0 ++ after) i 0 =
      (if i ≠ 7 then [58] else []) ++ ((if zeros = 7 then [58] else []) ++ joined after) := by
  cases zeros with
  | zero => exact absurd hpos (Nat.lt_irrefl 0)
  | succ zeros =>
    have hfirst := printBlocks_hide (List.replicate zeros 0 ++ after) i 0
    have hrest := printBlocks_zeros zeros 1 after (i + 1) (by omega) hafter (by omega) (by omega)
    rw [List.replicate_succ, List.cons_append]
    rw [hrest] at hfirst
    refine hfirst.trans ?_
    have hlast : (0 < zeros ∧ 1 + zeros = 7) ↔ zeros + 1 = 7 := by omega
    simp only [hlast, and_true, or_false, Nat.reduceEqDiff]

end Esp8266.Net
