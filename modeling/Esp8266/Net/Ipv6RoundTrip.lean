import Esp8266.Net.Ipv6Parse

/-! An IPv6 address is read back from its text, and the text is well formed, exactly if its
first run of zeros has a length that `printTo` can write at its place. -/
namespace Esp8266.Net
open Esp8266.Numeral

theorem moveBlocks_zone (dots doubledots count : Nat) (a : IPAddress) :
    (moveBlocks dots doubledots count a).zone = a.zone := by
  induction count generalizing a with
  | zero => rfl
  | succ count ih =>
    rw [moveBlocks, ih]
    rfl

theorem clearBlocks_zone (i count : Nat) (a : IPAddress) :
    (clearBlocks i count a).zone = a.zone := by
  induction count generalizing i a with
  | zero => rfl
  | succ count ih =>
    rw [clearBlocks, ih]
    rfl

theorem finish_zone (s : Parse6) : s.finish.1.zone = s.ip.zone := by
  unfold Parse6.finish
  split
  · rfl
  · simp only []
    split
    · rfl
    · show (clearBlocks _ _ _).zone = _
      rw [clearBlocks_zone, moveBlocks_zone]
      rfl

theorem parse6_zone (text : List UInt8) (s : Parse6) : (parse6 text s).1.zone = s.ip.zone := by
  fun_induction parse6 text s with
  | case1 s => exact finish_zone s
  | case2 | case4 | case6 | case7 | case9 | case11 => rfl
  | case3 | case5 | case8 | case10 =>
    rename_i ih
    exact ih

theorem fromString4Loop_dotless (text : List UInt8) (acc : UInt16) (a : IPAddress)
    (hdotless : 46 ∉ text) : fromString4Loop text acc 0 a = (a, false) := by
  induction text generalizing acc with
  | nil => rfl
  | cons c rest ih =>
    rw [List.mem_cons, not_or] at hdotless
    rw [fromString4Loop]
    simp only [ih _ hdotless.2, if_neg (Ne.symm hdotless.1)]
    split
    · split <;> rfl
    · rfl

def colonPairs : List UInt8 → Nat
  | a :: b :: rest => (if a = 58 ∧ b = 58 then 1 else 0) + colonPairs (b :: rest)
  | _ => 0

structure CleanColons (text : List UInt8) : Prop where
  pairs : colonPairs text ≤ 1
  first : ¬ ∃ rest, text = 58 :: rest ∧ rest.head? ≠ some 58
  last : ¬ ∃ rest, text = rest ++ [58] ∧ rest.getLast? ≠ some 58

theorem colonPairs_cons (a : UInt8) (rest : List UInt8) :
    colonPairs (a :: rest) =
      (if a = 58 ∧ rest.head? = some 58 then 1 else 0) + colonPairs rest := by
  cases rest with
  | nil => simp [colonPairs]
  | cons b rest => simp [colonPairs]

theorem colonPairs_append (xs ys : List UInt8) :
    colonPairs (xs ++ ys) = colonPairs xs + colonPairs ys +
      if xs.getLast? = some 58 ∧ ys.head? = some 58 then 1 else 0 := by
  induction xs with
  | nil => simp [colonPairs]
  | cons a xs ih =>
    rw [List.cons_append, colonPairs_cons, colonPairs_cons, ih]
    cases xs with
    | nil =>
      simp [colonPairs]
      omega
    | cons b xs =>
      rw [List.getLast?_cons_cons, List.cons_append, List.head?_cons, List.head?_cons]
      rw [Nat.add_assoc, Nat.add_assoc, Nat.add_assoc]

theorem blockText_pairs (block : UInt16) : colonPairs (blockText block) = 0 := by
  have hnone : ∀ c ∈ blockText block, c ≠ 58 := by
    intro c hc
    obtain ⟨d, hd, hdigit⟩ := mem_numeral (by decide) _ c hc
    exact hdigit ▸ (digit_chars d hd).2.2.2.1
  generalize blockText block = text at hnone
  induction text with
  | nil => rfl
  | cons c rest ih =>
    rw [colonPairs_cons, if_neg (fun h => hnone c (List.mem_cons_self ..) h.1),
      ih (fun c hc => hnone c (List.mem_cons_of_mem _ hc))]

theorem blockText_last (block : UInt16) : (blockText block).getLast? ≠ some 58 := by
  intro hlast
  have hmem := List.mem_of_getLast? hlast
  obtain ⟨d, hd, hdigit⟩ := mem_numeral (by decide) _ _ hmem
  exact (digit_chars d hd).2.2.2.1 hdigit.symm

theorem joined_last (blocks : List UInt16) : (joined blocks).getLast? ≠ some 58 := by
  induction blocks with
  | nil => simp [joined]
  | cons block rest ih =>
    rw [joined_cons]
    cases rest with
    | nil =>
      rw [if_pos rfl, List.append_nil]
      exact blockText_last block
    | cons next rest =>
      have hne : joined (next :: rest) ≠ [] := by
        rw [joined_cons]
        exact List.append_ne_nil_of_left_ne_nil (numeral_ne_nil (by decide) _) _
      have hlast : (joined (next :: rest)).getLast? = some ((joined (next :: rest)).getLast hne) :=
        List.getLast?_eq_some_getLast hne
      rw [if_neg (List.cons_ne_nil _ _), List.getLast?_append, List.getLast?_cons, hlast]
      rw [hlast] at ih
      simpa using ih

theorem joined_start (blocks : List UInt16) : (joined blocks).head? ≠ some 58 := by
  cases blocks with
  | nil => simp [joined]
  | cons block rest =>
    have hhead := joined_head block rest []
    rwa [List.append_nil] at hhead

theorem joined_pairs (blocks : List UInt16) : colonPairs (joined blocks) = 0 := by
  induction blocks with
  | nil => rfl
  | cons block rest ih =>
    have htail : colonPairs (if rest = [] then [] else 58 :: joined rest) = 0 := by
      split
      · rfl
      · rw [colonPairs_cons, ih, if_neg (fun h => joined_start rest h.2)]
    have hlast : ∀ text : List UInt8,
        ¬ ((blockText block).getLast? = some 58 ∧ text.head? = some 58) :=
      fun _ h => blockText_last block h.1
    rw [joined_cons, colonPairs_append, blockText_pairs, htail, if_neg (hlast _)]

theorem cleanColons_double (before after : List UInt16) :
    CleanColons (joined before ++ 58 :: 58 :: joined after) := by
  constructor
  · have hafter : colonPairs (58 :: joined after) = 0 := by
      rw [colonPairs_cons, joined_pairs, if_neg (fun h => joined_start after h.2)]
    rw [colonPairs_append, joined_pairs, colonPairs_cons, hafter,
      if_neg (fun h : (joined before).getLast? = some 58 ∧ _ => joined_last before h.1)]
    split <;> omega
  · rintro ⟨rest, htext, hrest⟩
    cases htexts : joined before with
    | nil =>
      rw [htexts, List.nil_append] at htext
      obtain ⟨-, htail⟩ := List.cons.inj htext
      rw [← htail] at hrest
      exact hrest rfl
    | cons c cs =>
      have hstart := joined_start before
      rw [htexts, List.cons_append] at htext
      obtain ⟨hc, -⟩ := List.cons.inj htext
      rw [htexts, hc] at hstart
      exact hstart rfl
  · rintro ⟨rest, htext, hrest⟩
    have hlast := congrArg List.getLast? htext
    rw [List.getLast?_concat, List.getLast?_append, List.getLast?_cons_cons,
      List.getLast?_cons] at hlast
    cases hafter : (joined after).getLast? with
    | none =>
      have hnil := List.getLast?_eq_none_iff.mp hafter
      rw [hnil] at htext
      have hsplit : joined before ++ [58] ++ [58] = rest ++ [58] := by
        rw [List.append_assoc]
        exact htext
      rw [← List.append_cancel_right hsplit, List.getLast?_concat] at hrest
      exact hrest rfl
    | some c =>
      have hc := joined_last after
      rw [hafter] at hlast hc
      exact hc (by simpa using hlast)

theorem cleanColons_joined (blocks : List UInt16) : CleanColons (joined blocks) := by
  constructor
  · rw [joined_pairs]
    exact Nat.zero_le 1
  · rintro ⟨rest, htext, -⟩
    have hstart := joined_start blocks
    rw [htext] at hstart
    exact hstart rfl
  · rintro ⟨rest, htext, -⟩
    have hlast := joined_last blocks
    rw [htext, List.getLast?_concat] at hlast
    exact hlast rfl

def tailBlocks (after : List UInt16) : List UInt16 := if after = [] then [0] else after

theorem parse6_tail (s : Parse6) (written after : List UInt16) (hacc : s.acc = 0)
    (hwritten : Written s written) (hroom : written.length + (tailBlocks after).length ≤ 8) :
    ∃ s' : Parse6, parse6 (joined after) s = s'.finish ∧ Written s'.store (written ++ tailBlocks after) ∧
      s'.doubledots = s.doubledots := by
  cases List.eq_nil_or_concat after with
  | inl hnil =>
    subst hnil
    have hstore := hwritten.store (by simp [tailBlocks] at hroom; omega)
    rw [hacc] at hstore
    exact ⟨s, by rw [joined, parse6], hstore, rfl⟩
  | inr hconcat =>
    obtain ⟨before, last, hafter⟩ := hconcat
    rw [List.concat_eq_append] at hafter
    have htail : tailBlocks after = before ++ [last] := by
      rw [tailBlocks, hafter, if_neg (by simp)]
    rw [htail, List.length_append, List.length_singleton] at hroom
    obtain ⟨s', hparse, hwritten', hacc', hdouble⟩ :=
      parse6_joined s written before last [] hacc hwritten (by omega)
    rw [List.append_nil] at hparse
    have hstore := hwritten'.store (by rw [List.length_append]; omega)
    rw [hacc', stored_block, List.append_assoc] at hstore
    exact ⟨s', by rw [hafter, hparse, parse6], by rw [htail]; exact hstore, hdouble⟩

theorem parse6_plain (a : IPAddress) (blocks : List UInt16) (hlength : blocks.length = 8) :
    let r := a.fromString6 (joined blocks)
    r.2 = true ∧ r.1.type = .v6 ∧ r.1.raw6 = blocks := by
  cases List.eq_nil_or_concat blocks with
  | inl hnil => simp [hnil] at hlength
  | inr hconcat =>
    obtain ⟨before, last, hblocks⟩ := hconcat
    rw [List.concat_eq_append] at hblocks
    rw [hblocks, List.length_append, List.length_singleton] at hlength
    obtain ⟨s', hparse, hwritten, hacc, hdouble⟩ :=
      parse6_joined ⟨a, 0, 0, none⟩ [] before last [] rfl ⟨rfl, rfl⟩ (by simp; omega)
    rw [List.append_nil] at hparse
    have hend := finish_plain s' before hwritten (by omega) hdouble
    rw [hacc, stored_block, ← hblocks] at hend
    have hresult : a.fromString6 (joined blocks) = s'.finish := by
      unfold IPAddress.fromString6
      rw [hblocks, hparse, parse6]
    rw [hresult]
    exact hend

theorem parse6_behind (a : IPAddress) (before after : List UInt16) (hne : before ≠ [])
    (hnonzero : ∀ block ∈ before, block ≠ 0)
    (hroom : before.length + (tailBlocks after).length ≤ 8) :
    let r := a.fromString6 (joined before ++ 58 :: 58 :: joined after)
    r.2 = true ∧ r.1.type = .v6 ∧ r.1.raw6 = before ++
      (List.replicate (8 - (before.length + (tailBlocks after).length)) 0 ++
        tailBlocks after) := by
  have htail : 0 < (tailBlocks after).length := by
    unfold tailBlocks
    split
    · decide
    · exact List.length_pos_iff.mpr ‹_›
  cases List.eq_nil_or_concat before with
  | inl hnil => exact absurd hnil hne
  | inr hconcat =>
    obtain ⟨init, last, hbefore⟩ := hconcat
    rw [List.concat_eq_append] at hbefore
    have hlength : before.length = init.length + 1 := by
      rw [hbefore, List.length_append, List.length_singleton]
    obtain ⟨s₁, hparse, hwritten, hacc, hdouble⟩ := parse6_joined ⟨a, 0, 0, none⟩ [] init last
      (58 :: 58 :: joined after) rfl ⟨rfl, rfl⟩ (by simp; omega)
    rw [List.nil_append] at hwritten
    have hlast : s₁.acc ≠ 0 := by
      have hblock : last ≠ 0 := hnonzero last (by rw [hbefore]; simp)
      intro hzero
      apply hblock
      rw [← stored_block last, ← hacc, hzero]
      rfl
    have hstore := hwritten.store (by omega)
    rw [hacc, stored_block, ← hbefore] at hstore
    obtain ⟨s₂, hrest, hwritten₂, hdouble₂⟩ := parse6_tail
      { s₁.store with acc := 0, doubledots := some before.length } before after rfl
      ⟨hstore.dots, hstore.raw⟩ hroom
    have hresult : a.fromString6 (joined before ++ 58 :: 58 :: joined after) = s₂.finish := by
      have hdots : s₁.dots = init.length := hwritten.dots
      unfold IPAddress.fromString6
      rw [← hrest]
      conv => lhs; rw [hbefore]
      rw [hparse, parse6_doubleColon _ _ hdouble (by omega), if_pos hlast, hdots, hlength]
    rw [hresult]
    exact finish_double s₂ before _ hwritten₂ hroom hdouble₂

theorem parse6_front (a : IPAddress) (after : List UInt16)
    (hroom : 1 + (tailBlocks after).length ≤ 8) :
    let r := a.fromString6 (58 :: 58 :: joined after)
    r.2 = true ∧ r.1.type = .v6 ∧ r.1.raw6 =
      List.replicate (8 - (1 + (tailBlocks after).length)) 0 ++ 0 :: tailBlocks after := by
  have hstore : Written (Parse6.store ⟨a, 0, 0, none⟩) [0] := by
    have hwritten : Written ⟨a, 0, 0, none⟩ [] := ⟨rfl, rfl⟩
    have hzero : htons (UInt32.toUInt16 0) = 0 := by decide
    have hfirst := hwritten.store (by decide)
    rw [List.nil_append] at hfirst
    exact hzero ▸ hfirst
  obtain ⟨s', hrest, hwritten, hdouble⟩ := parse6_tail
    { Parse6.store ⟨a, 0, 0, none⟩ with acc := 0, doubledots := some 0 } [0] after rfl
    ⟨hstore.dots, hstore.raw⟩ hroom
  have hresult : a.fromString6 (58 :: 58 :: joined after) = s'.finish := by
    unfold IPAddress.fromString6
    rw [← hrest, parse6_doubleColon _ _ rfl (show 0 ≠ 7 by decide)]
    rfl
  rw [hresult]
  have hend := finish_double s' [] (0 :: tailBlocks after) hwritten
    (by simp only [List.length_nil, List.length_cons]; omega) hdouble
  simp only [List.nil_append, List.length_nil, List.length_cons, Nat.zero_add] at hend
  rw [Nat.add_comm 1]
  exact hend

def zeroRunStart (blocks : List UInt16) : Nat := (blocks.takeWhile (· ≠ 0)).length

def zeroRun (blocks : List UInt16) : Nat :=
  ((blocks.dropWhile (· ≠ 0)).takeWhile (· = 0)).length

def ZeroRunFits (blocks : List UInt16) : Prop :=
  (zeroRunStart blocks = 0 → zeroRun blocks = 7) ∧
  (0 < zeroRunStart blocks → zeroRunStart blocks + zeroRun blocks = 8 →
    zeroRun blocks ≠ 1 ∧ zeroRun blocks ≠ 7)

instance (blocks : List UInt16) : Decidable (ZeroRunFits blocks) :=
  inferInstanceAs (Decidable (_ ∧ _))

structure SplitAtZeros (blocks before after : List UInt16) (zeros : Nat) : Prop where
  blocks : blocks = before ++ (List.replicate zeros 0 ++ after)
  nonzero : ∀ block ∈ before, block ≠ 0
  ended : ∀ block, after.head? = some block → block ≠ 0
  none : zeros = 0 → after = []

theorem splitAtZeros (blocks : List UInt16) : ∃ before after,
    SplitAtZeros blocks before after (zeroRun blocks) ∧ before.length = zeroRunStart blocks := by
  let rest := blocks.dropWhile (· ≠ 0)
  refine ⟨blocks.takeWhile (· ≠ 0), rest.dropWhile (· = 0), ⟨?_, ?_, ?_, ?_⟩, rfl⟩
  · have hzeros : rest.takeWhile (· = 0) = List.replicate (zeroRun blocks) 0 := by
      apply List.eq_replicate_iff.mpr
      constructor
      · rfl
      · intro block hblock
        simpa using List.all_eq_true.mp List.all_takeWhile block hblock
    rw [← hzeros, List.takeWhile_append_dropWhile, List.takeWhile_append_dropWhile]
  · intro block hblock
    simpa using List.all_eq_true.mp List.all_takeWhile block hblock
  · intro block hhead
    have hfirst := List.head?_dropWhile_not (fun b : UInt16 => decide (b = 0)) rest
    rw [hhead] at hfirst
    simpa using hfirst
  · intro hnone
    have hempty : rest.takeWhile (· = 0) = [] := List.length_eq_zero_iff.mp hnone
    have hfirst := List.head?_dropWhile_not (fun b : UInt16 => decide (b ≠ 0)) blocks
    cases hrest : rest with
    | nil => rfl
    | cons block tail =>
      have hdrop : blocks.dropWhile (fun b => decide (b ≠ 0)) = block :: tail := hrest
      rw [hdrop] at hfirst
      rw [hrest, List.takeWhile_cons] at hempty
      simp at hfirst
      simp [hfirst] at hempty

theorem isSet_v6 (a : IPAddress) (hv6 : a.type = .v6) (hset : a.isSet = true) :
    ∃ block ∈ a.raw6, block ≠ 0 := by
  unfold IPAddress.isSet IPAddress.isAny IPAddress.isV6 at hset
  have hany := (Bool.and_eq_true_iff.mp hset).1
  simpa [hv6] using hany

theorem fromString_dotless (a : IPAddress) (text : List UInt8) (hdotless : 46 ∉ text) :
    a.fromString text = a.fromString6 text := by
  unfold IPAddress.fromString IPAddress.fromString4
  rw [fromString4Loop_dotless text 0 a hdotless]
  rfl

theorem joined_dotless (blocks : List UInt16) : 46 ∉ joined blocks := by
  induction blocks with
  | nil => simp [joined]
  | cons block rest ih =>
    rw [joined_cons, List.mem_append, not_or]
    constructor
    · intro hmem
      obtain ⟨d, hd, hdigit⟩ := mem_numeral (by decide) _ _ hmem
      exact (digit_chars d hd).2.2.2.2 hdigit.symm
    · split
      · simp
      · simpa using ih

def RoundTrips (a : IPAddress) : Prop :=
  (IPAddress.new.fromString a.toString).2 = true ∧
    a.eq (IPAddress.new.fromString a.toString).1 = true

theorem roundTrips_of (a : IPAddress) (text : List UInt8) (hv6 : a.type = .v6) (hzone : a.zone = 0)
    (htext : a.toString = text) (hdotless : 46 ∉ text)
    (hread : let r := IPAddress.new.fromString6 text
      r.2 = true ∧ r.1.type = .v6 ∧ r.1.raw6 = a.raw6) : RoundTrips a := by
  have hfrom : IPAddress.new.fromString a.toString = IPAddress.new.fromString6 text := by
    rw [htext, fromString_dotless _ _ hdotless]
  obtain ⟨hsuccess, htype, hraw⟩ := hread
  have hzone' : (IPAddress.new.fromString6 text).1.zone = 0 := parse6_zone text _
  unfold RoundTrips
  rw [hfrom]
  refine ⟨hsuccess, ?_⟩
  unfold IPAddress.eq IPAddress.isV6
  simp [hv6, htype, hraw, hzone, hzone']

theorem zone_of_roundTrips (a : IPAddress) (hv6 : a.type = .v6) (hdotless : 46 ∉ a.toString)
    (htrip : RoundTrips a) : a.zone = 0 := by
  obtain ⟨-, heq⟩ := htrip
  rw [fromString_dotless _ _ hdotless] at heq
  have hzone : (IPAddress.new.fromString6 a.toString).1.zone = 0 := parse6_zone a.toString _
  unfold IPAddress.eq IPAddress.isV6 at heq
  simp only [hv6, decide_true, if_true, Bool.and_eq_true, decide_eq_true_eq] at heq
  rw [heq.2.2, hzone]

theorem toString_v6 (a : IPAddress) (before after : List UInt16) (zeros : Nat)
    (hv6 : a.type = .v6) (hset : a.isSet = true) (h : SplitAtZeros a.raw6 before after zeros) :
    a.toString = if zeros = 0 then joined before else
      (if before = [] then [58] else
        joined before ++ 58 :: (if before.length ≠ 7 then [58] else [])) ++
      ((if zeros = 7 then [58] else []) ++ joined after) := by
  have hlength : before.length + (zeros + after.length) = 8 := by
    have hblocks := a.blocks
    rw [h.blocks] at hblocks
    simpa using hblocks
  have htext : a.toString = printBlocks (before ++ (List.replicate zeros 0 ++ after)) 0 0 := by
    unfold IPAddress.toString IPAddress.printTo IPAddress.isV6
    rw [hset, hv6, ← h.blocks]
    rfl
  rw [htext]
  by_cases hnone : zeros = 0
  · have hafter := h.none hnone
    subst hnone hafter
    rw [if_pos rfl, List.replicate_zero, List.append_nil, List.append_nil]
    exact printBlocks_shown before 0 0 (fun b hb => Or.inl (h.nonzero b hb)) (Int.le_refl 0)
      (by simpa using hlength)
  · have hpos := Nat.pos_of_ne_zero hnone
    have hseven : zeros ≤ 7 := by
      obtain ⟨block, hmem, hblock⟩ := isSet_v6 a hv6 hset
      apply Nat.le_of_not_lt
      intro hall
      have hbefore : before = [] := List.length_eq_zero_iff.mp (by omega)
      have hafter : after = [] := List.length_eq_zero_iff.mp (by omega)
      rw [h.blocks, hbefore, hafter, List.nil_append, List.append_nil] at hmem
      exact hblock (List.eq_of_mem_replicate hmem)
    rw [if_neg hnone]
    by_cases hbefore : before = []
    · subst hbefore
      rw [List.nil_append, if_pos rfl]
      exact printBlocks_run zeros after 0 h.ended hpos (by simpa using hlength) hseven
    · have hrun := printBlocks_run zeros after before.length h.ended hpos (by omega) hseven
      rw [if_neg hbefore, printBlocks_prefix before _ 0 h.nonzero hbefore
        (by simp [hnone]) (by simp; omega), Nat.zero_add, hrun, List.append_assoc]
      rfl

theorem toString_dotless (a : IPAddress) (before after : List UInt16) (zeros : Nat)
    (hv6 : a.type = .v6) (hset : a.isSet = true) (h : SplitAtZeros a.raw6 before after zeros) :
    46 ∉ a.toString := by
  have hbefore := joined_dotless before
  have hafter := joined_dotless after
  rw [toString_v6 a before after zeros hv6 hset h]
  split
  · exact hbefore
  · rw [List.mem_append, List.mem_append, not_or, not_or]
    refine ⟨?_, ?_, hafter⟩
    · split
      · decide
      · split <;> simpa using hbefore
    · split <;> decide

theorem reads_back (a : IPAddress) (before after : List UInt16) (zeros : Nat)
    (hv6 : a.type = .v6) (hset : a.isSet = true) (hzone : a.zone = 0)
    (h : SplitAtZeros a.raw6 before after zeros)
    (hstart : before.length = 0 → zeros = 7)
    (hend : 0 < before.length → before.length + zeros = 8 → zeros ≠ 1 ∧ zeros ≠ 7) :
    RoundTrips a ∧ CleanColons a.toString := by
  have hdotless := toString_dotless a before after zeros hv6 hset h
  have htext := toString_v6 a before after zeros hv6 hset h
  have hlength : before.length + (zeros + after.length) = 8 := by
    have hblocks := a.blocks
    rw [h.blocks] at hblocks
    simpa using hblocks
  by_cases hnone : zeros = 0
  · have hafter := h.none hnone
    subst hnone hafter
    have hraw : a.raw6 = before := by simpa using h.blocks
    rw [if_pos rfl] at htext
    rw [htext] at hdotless ⊢
    refine ⟨roundTrips_of a _ hv6 hzone htext hdotless ?_, cleanColons_joined before⟩
    rw [hraw]
    exact parse6_plain _ before (by simpa using hlength)
  · rw [if_neg hnone] at htext
    by_cases hbefore : before = []
    · subst hbefore
      have hseven := hstart rfl
      have hafter : after ≠ [] := by
        intro hnil
        simp [hseven, hnil] at hlength
      have htail : tailBlocks after = after := if_neg hafter
      rw [if_pos rfl, if_pos hseven] at htext
      have hdouble : a.toString = joined [] ++ 58 :: 58 :: joined after := htext
      refine ⟨roundTrips_of a _ hv6 hzone hdouble (hdouble ▸ hdotless) ?_,
        hdouble ▸ cleanColons_double [] after⟩
      obtain ⟨hsuccess, htype, hraw⟩ := parse6_front .new after (by
        rw [htail]
        rw [List.length_nil] at hlength
        omega)
      refine ⟨hsuccess, htype, hraw.trans ?_⟩
      have hcount : 8 - (1 + (tailBlocks after).length) + 1 = zeros := by
        rw [htail]
        rw [List.length_nil] at hlength
        omega
      rw [h.blocks, List.nil_append, ← hcount, List.replicate_succ', List.append_assoc, htail]
      rfl
    · have hpos := List.length_pos_iff.mpr hbefore
      have hinner : before.length ≠ 7 ∧ zeros ≠ 7 := by
        have hfits := hend hpos
        cases hafter : after with
        | nil =>
          rw [hafter, List.length_nil] at hlength
          omega
        | cons block rest =>
          rw [hafter, List.length_cons] at hlength
          omega
      rw [if_neg hbefore, if_pos hinner.1, if_neg hinner.2, List.nil_append] at htext
      have hdouble : a.toString = joined before ++ 58 :: 58 :: joined after := by
        rw [htext, List.append_assoc]
        rfl
      refine ⟨roundTrips_of a _ hv6 hzone hdouble (hdouble ▸ hdotless) ?_,
        hdouble ▸ cleanColons_double before after⟩
      have hzeros : List.replicate zeros (0 : UInt16) ++ after =
          List.replicate (8 - (before.length + (tailBlocks after).length)) 0 ++
            tailBlocks after := by
        unfold tailBlocks
        split
        · have hcount : zeros = 8 - (before.length + 1) + 1 := by
            rw [‹after = []›, List.length_nil] at hlength
            omega
          rw [‹after = []›, List.length_singleton, List.append_nil]
          conv => lhs; rw [hcount]
          rw [List.replicate_succ']
        · have hcount : zeros = 8 - (before.length + after.length) := by omega
          rw [← hcount]
      rw [h.blocks, hzeros]
      apply parse6_behind .new before after hbefore h.nonzero
      unfold tailBlocks
      split
      · rw [List.length_singleton]
        omega
      · omega

theorem clean_fits (a : IPAddress) (before after : List UInt16) (zeros : Nat)
    (hv6 : a.type = .v6) (hset : a.isSet = true) (h : SplitAtZeros a.raw6 before after zeros)
    (hclean : CleanColons a.toString) :
    (before.length = 0 → zeros = 7) ∧
      (0 < before.length → before.length + zeros = 8 → zeros ≠ 1 ∧ zeros ≠ 7) := by
  have hlength : before.length + (zeros + after.length) = 8 := by
    have hblocks := a.blocks
    rw [h.blocks] at hblocks
    simpa using hblocks
  rw [toString_v6 a before after zeros hv6 hset h] at hclean
  constructor
  · intro hstart
    have hbefore := List.length_eq_zero_iff.mp hstart
    have hnone : zeros ≠ 0 := by
      intro hnone
      rw [h.none hnone, List.length_nil] at hlength
      omega
    rw [if_neg hnone, if_pos hbefore] at hclean
    by_cases hseven : zeros = 7
    · exact hseven
    · rw [if_neg hseven, List.nil_append] at hclean
      exact absurd ⟨joined after, rfl, joined_start after⟩ hclean.first
  · intro hpos hend
    have hbefore := List.length_pos_iff.mp hpos
    have hafter : after = [] := List.length_eq_zero_iff.mp (by omega)
    subst hafter
    constructor
    · intro hone
      rw [if_neg (by omega), if_neg hbefore, if_neg (show ¬ before.length ≠ 7 by omega),
        if_neg (by omega), joined, List.append_nil, List.append_nil] at hclean
      exact hclean.last ⟨joined before, rfl, joined_last before⟩
    · intro hseven
      rw [if_neg (by omega), if_neg hbefore, if_pos (by omega), if_pos hseven, joined,
        List.append_nil, List.append_assoc] at hclean
      have hpairs := hclean.pairs
      rw [colonPairs_append] at hpairs
      have htwo : colonPairs (58 :: [58] ++ [58]) = 2 := by decide
      omega

/-- The text of an IPv6 address is clean and read back exactly if it has no zone and its first
run of zeros fits. -/
theorem ipv6_text_iff (a : IPAddress) (hv6 : a.type = .v6) (hset : a.isSet = true) :
    (RoundTrips a ∧ CleanColons a.toString) ↔ (a.zone = 0 ∧ ZeroRunFits a.raw6) := by
  obtain ⟨before, after, hsplit, hstart⟩ := splitAtZeros a.raw6
  constructor
  · rintro ⟨htrip, hclean⟩
    have hdotless := toString_dotless a before after _ hv6 hset hsplit
    have hfits := clean_fits a before after _ hv6 hset hsplit hclean
    rw [hstart] at hfits
    exact ⟨zone_of_roundTrips a hv6 hdotless htrip, hfits⟩
  · rintro ⟨hzone, hfirst, hend⟩
    rw [← hstart] at hfirst hend
    exact reads_back a before after _ hv6 hset hzone hsplit hfirst hend

def linkLocal : IPAddress := ⟨.v6, [0x80fe, 0, 0, 0, 0x100, 0x200, 0x300, 0x400], 0, rfl⟩

theorem linkLocal_reads_back : RoundTrips linkLocal ∧ CleanColons linkLocal.toString :=
  (ipv6_text_iff linkLocal rfl (by decide)).mpr ⟨rfl, by decide⟩

def leadingZeros : IPAddress :=
  ⟨.v6, [0, 0, 0x100, 0x200, 0x300, 0x400, 0x500, 0x600], 0, rfl⟩

theorem leadingZeros_fail : leadingZeros.isSet = true ∧
    leadingZeros.toString = [58, 49, 58, 50, 58, 51, 58, 52, 58, 53, 58, 54] ∧
    ¬ RoundTrips leadingZeros ∧ ¬ CleanColons leadingZeros.toString := by
  have htext : leadingZeros.toString = [58, 49, 58, 50, 58, 51, 58, 52, 58, 53, 58, 54] := by
    decide
  have hread : (IPAddress.new.fromString [58, 49, 58, 50, 58, 51, 58, 52, 58, 53, 58, 54]).2 =
      false := by decide
  refine ⟨by decide, htext, ?_, ?_⟩
  · rintro ⟨hsuccess, -⟩
    rw [htext, hread] at hsuccess
    exact absurd hsuccess (by decide)
  · intro hclean
    rw [htext] at hclean
    exact hclean.first ⟨_, rfl, by decide⟩

end Esp8266.Net
