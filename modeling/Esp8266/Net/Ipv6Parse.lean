import Esp8266.Net.Ipv6Print

/-! `fromString6` on texts of blocks: what is written behind a double colon moves to the end. -/
namespace Esp8266.Net
open Esp8266.Numeral Esp8266.Ctype

theorem digit_chars : ∀ d < 16, tolower (digitByte d) = digitByte d ∧
    isalnum (digitByte d) = true ∧
    (if digitByte d ≥ 97 then digitByte d - 39 else digitByte d) - 48 = UInt8.ofNat d ∧
    digitByte d ≠ 58 ∧ digitByte d ≠ 46 := by decide

theorem parse6_digit (s : Parse6) (d acc : Nat) (rest : List UInt8) (hd : d < 16)
    (hfits : acc * 16 + d ≤ 0xffff) :
    parse6 (digitByte d :: rest) { s with acc := UInt32.ofNat acc } =
      parse6 rest { s with acc := UInt32.ofNat (acc * 16 + d) } := by
  obtain ⟨hlower, halnum, hvalue, -, -⟩ := digit_chars d hd
  have hacc : UInt32.ofNat acc * 16 + (UInt8.ofNat d).toUInt32 = UInt32.ofNat (acc * 16 + d) := by
    apply UInt32.toNat_inj.mp
    simp only [UInt32.toNat_add, UInt32.toNat_mul, UInt32.toNat_ofNat', UInt8.toNat_toUInt32,
      UInt8.toNat_ofNat', show (16 : UInt32).toNat = 16 from rfl]
    omega
  have hsmall : ¬ UInt32.ofNat (acc * 16 + d) > 0xffff := by
    rw [gt_iff_lt, UInt32.lt_iff_toNat_lt, UInt32.toNat_ofNat',
      show (0xffff : UInt32).toNat = 0xffff from rfl]
    omega
  rw [parse6.eq_def]
  simp only [hlower, halnum, if_true, hvalue, hacc, if_neg hsmall]

theorem parse6_block (s : Parse6) (block : UInt16) (rest : List UInt8) (hacc : s.acc = 0) :
    parse6 (blockText block ++ rest) s =
      parse6 rest { s with acc := UInt32.ofNat (htons block).toNat } := by
  have hsmall := (htons block).toNat_lt
  have hread := read_numeral (show 1 < 16 by decide) 0xffff
    (fun text acc => parse6 text { s with acc := UInt32.ofNat acc })
    (fun d acc rest hd hfits => parse6_digit s d acc rest hd hfits) (htons block).toNat (by omega)
    rest
  have hstart : { s with acc := UInt32.ofNat 0 } = s := by
    rw [← show s.acc = UInt32.ofNat 0 from hacc]
  simp only [hstart] at hread
  exact hread

theorem parse6_colon (s : Parse6) (rest : List UInt8) (hnext : rest.head? ≠ some 58)
    (hdots : s.dots ≠ 7) : parse6 (58 :: rest) s = parse6 rest { s.store with acc := 0 } := by
  have hcolon : tolower 58 = 58 ∧ isalnum 58 = false := by decide
  rw [parse6.eq_def]
  simp only [hcolon, if_false, if_true, Bool.false_eq_true, if_neg hdots]
  cases rest with
  | nil => rfl
  | cons next rest =>
    have hother : next ≠ 58 := by simpa using hnext
    simp only [if_neg hother]

theorem parse6_doubleColon (s : Parse6) (rest : List UInt8) (hfirst : s.doubledots = none)
    (hdots : s.dots ≠ 7) :
    parse6 (58 :: 58 :: rest) s = parse6 rest { s.store with
      acc := 0, doubledots := some (s.dots + if s.acc ≠ 0 then 1 else 0) } := by
  have hcolon : tolower 58 = 58 ∧ isalnum 58 = false := by decide
  rw [parse6]
  simp only [hcolon, if_false, if_true, Bool.false_eq_true, if_neg hdots, hfirst,
    Option.isSome_none]

structure Written (s : Parse6) (blocks : List UInt16) : Prop where
  dots : s.dots = blocks.length
  raw : s.ip.raw6.take s.dots = blocks

theorem Written.store {s : Parse6} {blocks : List UInt16} (h : Written s blocks)
    (hroom : blocks.length < 8) : Written s.store (blocks ++ [htons s.acc.toUInt16]) := by
  have hinside : s.dots < s.ip.raw6.length := by
    rw [s.ip.blocks, h.dots]
    exact hroom
  constructor
  · show s.dots + 1 = _
    rw [List.length_append, h.dots]
    rfl
  · show (s.ip.raw6.set s.dots (htons s.acc.toUInt16)).take (s.dots + 1) = _
    rw [List.take_add_one, List.take_set_of_le (Nat.le_refl _), h.raw,
      List.getElem?_set_self hinside]
    rfl

theorem stored_block (block : UInt16) :
    htons (UInt32.ofNat (htons block).toNat).toUInt16 = block := by
  have hword : (UInt32.ofNat (htons block).toNat).toUInt16 = htons block := by
    have hsmall := (htons block).toNat_lt
    apply UInt16.toNat_inj.mp
    rw [UInt32.toNat_toUInt16, UInt32.toNat_ofNat']
    omega
  rw [hword, htons_htons]

theorem blockText_head (block : UInt16) (rest : List UInt8) :
    (blockText block ++ rest).head? ≠ some 58 := by
  cases htext : blockText block with
  | nil => exact absurd htext (numeral_ne_nil (by decide) _)
  | cons c cs =>
    intro hhead
    have hc : c = 58 := by simpa using hhead
    have hmem : c ∈ blockText block := by
      rw [htext]
      exact List.mem_cons_self ..
    obtain ⟨d, hd, hdigit⟩ := mem_numeral (by decide) _ c hmem
    exact (digit_chars d hd).2.2.2.1 (hdigit ▸ hc)

theorem joined_head (block : UInt16) (rest : List UInt16) (text : List UInt8) :
    (joined (block :: rest) ++ text).head? ≠ some 58 := by
  rw [joined_cons, List.append_assoc]
  exact blockText_head block _

theorem parse6_joined (s : Parse6) (written before : List UInt16) (last : UInt16)
    (rest : List UInt8) (hacc : s.acc = 0) (hwritten : Written s written)
    (hroom : written.length + before.length ≤ 7) :
    ∃ s', parse6 (joined (before ++ [last]) ++ rest) s = parse6 rest s' ∧
      Written s' (written ++ before) ∧ s'.acc = UInt32.ofNat (htons last).toNat ∧
      s'.doubledots = s.doubledots := by
  induction before generalizing s written with
  | nil =>
    refine ⟨{ s with acc := UInt32.ofNat (htons last).toNat }, parse6_block s last rest hacc, ?_,
      rfl, rfl⟩
    rw [List.append_nil]
    exact ⟨hwritten.dots, hwritten.raw⟩
  | cons block before ih =>
    rw [List.length_cons] at hroom
    have hnext : (joined (before ++ [last]) ++ rest).head? ≠ some 58 := by
      cases before with
      | nil => exact joined_head last [] rest
      | cons next before => exact joined_head next (before ++ [last]) rest
    have hread : parse6 (joined (block :: before ++ [last]) ++ rest) s =
        parse6 (joined (before ++ [last]) ++ rest)
          { Parse6.store { s with acc := UInt32.ofNat (htons block).toNat } with acc := 0 } := by
      rw [List.cons_append, joined_cons, if_neg (by simp), List.append_assoc, List.cons_append,
        parse6_block s block _ hacc, parse6_colon _ _ hnext]
      show s.dots ≠ 7
      rw [hwritten.dots]
      omega
    have hstore : Written (Parse6.store { s with acc := UInt32.ofNat (htons block).toNat })
        (written ++ [block]) := by
      have h := Written.store (s := { s with acc := UInt32.ofNat (htons block).toNat })
        ⟨hwritten.dots, hwritten.raw⟩ (by omega)
      rw [stored_block] at h
      exact h
    obtain ⟨s', hparse, hwritten', hacc', hdouble⟩ := ih
      { Parse6.store { s with acc := UInt32.ofNat (htons block).toNat } with acc := 0 }
      (written ++ [block]) rfl ⟨hstore.dots, hstore.raw⟩
      (by rw [List.length_append, List.length_singleton]; omega)
    refine ⟨s', hread.trans hparse, ?_, hacc', hdouble⟩
    rw [List.append_assoc] at hwritten'
    exact hwritten'

theorem moveBlocks_raw (dots doubledots count : Nat) (a : IPAddress) (hdots : dots ≤ 8)
    (hcount : doubledots + count ≤ dots) (x : Nat) :
    (moveBlocks dots doubledots count a).raw6[x]? =
      if 8 - dots + doubledots ≤ x ∧ x < 8 - dots + doubledots + count then
        a.raw6[x - (8 - dots)]? else a.raw6[x]? := by
  induction count generalizing a with
  | zero => rw [if_neg (by omega)]; rfl
  | succ count ih =>
    have hlength := a.blocks
    have hvalue : some a.raw6[doubledots + count]! = a.raw6[doubledots + count]? := by
      rw [List.getElem!_eq_getElem?_getD, List.getElem?_eq_getElem (by omega)]
      rfl
    rw [moveBlocks, ih _ (by omega)]
    simp only [IPAddress.setRaw6, List.getElem?_set, hlength]
    by_cases hmoved : 8 - dots + doubledots ≤ x ∧ x < 8 - dots + doubledots + count
    · rw [if_pos hmoved, if_neg (by omega), if_pos (by omega)]
    · rw [if_neg hmoved]
      by_cases hlast : 8 - dots + doubledots + count = x
      · have hsource : x - (8 - dots) = doubledots + count := by omega
        rw [if_pos hlast, if_pos (by omega), if_pos (by omega), hvalue, hsource]
      · rw [if_neg hlast, if_neg (by omega)]

theorem clearBlocks_raw (i count : Nat) (a : IPAddress) (hcount : i + count ≤ 8) (x : Nat) :
    (clearBlocks i count a).raw6[x]? =
      if i ≤ x ∧ x < i + count then some 0 else a.raw6[x]? := by
  induction count generalizing i a with
  | zero => rw [if_neg (by omega)]; rfl
  | succ count ih =>
    have hlength := a.blocks
    rw [clearBlocks, ih _ _ (by omega)]
    simp only [IPAddress.setRaw6, List.getElem?_set, hlength]
    by_cases hrest : i + 1 ≤ x ∧ x < i + 1 + count
    · rw [if_pos hrest, if_pos (by omega)]
    · rw [if_neg hrest]
      by_cases hfirst : i = x
      · rw [if_pos hfirst, if_pos (by omega), if_pos (by omega)]
      · rw [if_neg hfirst, if_neg (by omega)]

theorem finish_plain (s : Parse6) (written : List UInt16) (hwritten : Written s written)
    (hseven : written.length = 7) (hdouble : s.doubledots = none) :
    s.finish.2 = true ∧ s.finish.1.type = .v6 ∧
      s.finish.1.raw6 = written ++ [htons s.acc.toUInt16] := by
  have hdots : s.dots = 7 := hwritten.dots.trans hseven
  have hstore := (hwritten.store (by omega)).raw
  have hall : s.store.ip.raw6.take s.store.dots = s.store.ip.raw6 := by
    apply List.take_of_length_le
    rw [s.store.ip.blocks]
    show 8 ≤ s.dots + 1
    omega
  have hend : s.finish = (s.store.ip.setV6, true) := by
    unfold Parse6.finish
    have hstored : s.store.doubledots = none := hdouble
    simp [hdots, hstored]
  rw [hend]
  refine ⟨rfl, rfl, ?_⟩
  show s.store.ip.raw6 = _
  rw [← hall, hstore]

theorem finish_double (s : Parse6) (before after : List UInt16)
    (hwritten : Written s.store (before ++ after))
    (hroom : before.length + after.length ≤ 8) (hdouble : s.doubledots = some before.length) :
    s.finish.2 = true ∧ s.finish.1.type = .v6 ∧
      s.finish.1.raw6 =
        before ++ (List.replicate (8 - (before.length + after.length)) 0 ++ after) := by
  have hdots : s.store.dots = before.length + after.length := by
    rw [hwritten.dots, List.length_append]
  have hraw := hwritten.raw
  rw [hdots] at hraw
  have hend : s.finish = ((clearBlocks before.length (8 - (before.length + after.length))
      (moveBlocks (before.length + after.length) before.length after.length
        s.store.ip)).setV6, true) := by
    unfold Parse6.finish
    have hstored : s.store.doubledots = some before.length := hdouble
    simp [hdouble, hstored, hdots]
  rw [hend]
  refine ⟨rfl, rfl, ?_⟩
  show (clearBlocks _ _ _).raw6 = _
  have hstored : ∀ x < before.length + after.length,
      s.store.ip.raw6[x]? = (before ++ after)[x]? := by
    intro x hx
    rw [← hraw, List.getElem?_take_of_lt hx]
  apply List.ext_getElem?
  intro x
  rw [clearBlocks_raw _ _ _ (by omega), moveBlocks_raw _ _ _ _ hroom (Nat.le_refl _)]
  by_cases hbefore : x < before.length
  · rw [if_neg (by omega), if_neg (by omega), hstored x (by omega),
      List.getElem?_append_left hbefore, List.getElem?_append_left hbefore]
  · rw [List.getElem?_append_right (Nat.le_of_not_lt hbefore)]
    by_cases hzero : x < before.length + (8 - (before.length + after.length))
    · rw [if_pos (by omega), List.getElem?_append_left (by rw [List.length_replicate]; omega),
        List.getElem?_replicate, if_pos (by omega)]
    · rw [if_neg (by omega), List.getElem?_append_right (by rw [List.length_replicate]; omega),
        List.length_replicate]
      by_cases hafter : x < 8
      · rw [if_pos (by omega), hstored _ (by omega), List.getElem?_append_right (by omega)]
        congr 1
        omega
      · rw [if_neg (by omega), List.getElem?_eq_none (by rw [s.store.ip.blocks]; omega),
          List.getElem?_eq_none (by omega)]

end Esp8266.Net
