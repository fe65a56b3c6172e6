import Esp8266.Library.CString
import Esp8266.Strings.Storage

/-! `startsWith` and `endsWith` of `String`, with the characters that they read. -/
namespace Esp8266.WString
open CString

/-- A `String`, and what lies in memory behind its buffer. -/
structure Placed where
  str : Str
  beyond : List UInt8

def Placed.from (s : Placed) (index : Nat) : List UInt8 := (s.str.store ++ s.beyond).drop index

/-- `startsWith(const String&, unsigned int)`; a comparison that leaves the memory has no result.
The count is that of the characters read of either string, here from `offset` on. -/
def startsWithAt (s s2 : Placed) (offset : UInt32) : Option Bool × Nat :=
  if offset.toNat > (s.str.len + 2 ^ 32 - s2.str.len) % 2 ^ 32 then (some false, 0)
  else
    let r := strncmp s2.str.len (s.from offset.toNat) (s2.from 0)
    (r.1.map (· = 0), r.2)

def startsWith (s s2 : Placed) : Option Bool × Nat :=
  if s.str.len < s2.str.len then (some false, 0) else startsWithAt s s2 0

def endsWith (s s2 : Placed) : Option Bool × Nat :=
  if s.str.len < s2.str.len then (some false, 0)
  else
    let r := strcmp (s.from (s.str.len - s2.str.len)) (s2.from 0)
    (r.1.map (· = 0), r.2)

/-- The characters of `s` from `offset` on are those of `p`, and no character behind the NUL of
either string is read. -/
structure ExactAt (s p : Placed) (offset : Nat) (r : Option Bool × Nat) : Prop where
  result : r.1 = some true ↔ offset + p.str.len ≤ s.str.len ∧
    (s.str.text.drop offset).take p.str.len = p.str.text
  inside : ∀ i < r.2, offset + i ≤ s.str.len ∧ i ≤ p.str.len

structure PrefixExact (s p : Placed) (offset : UInt32) : Prop where
  prefixed : ExactAt s p offset.toNat (startsWithAt s p offset)
  first : p.str.len ≤ s.str.len → ExactAt s p 0 (startsWith s p)
  suffixed : p.str.len ≤ s.str.len → ExactAt s p (s.str.len - p.str.len) (endsWith s p)
  shorter : s.str.len < p.str.len → startsWith s p = (some false, 0) ∧ endsWith s p = (some false, 0)

section Comparison
variable {s p : Placed}

theorem map_zero_iff (r : Option Int) : r.map (fun n => decide (n = 0)) = some true ↔ r = some 0 := by
  cases r with
  | none => simp
  | some n => simp

theorem Placed.from_eq (hs : Valid s.str) {index : Nat} (h : index ≤ s.str.len) :
    ∃ behind, s.from index = s.str.text.drop index ++ 0 :: behind := by
  refine ⟨s.str.store.drop (s.str.len + 1) ++ s.beyond, ?_⟩
  unfold Placed.from
  conv => lhs; rw [hs.split]
  rw [List.append_assoc, List.drop_append_of_le_length (by rw [text_length hs]; exact h)]
  rfl

theorem len_small (hs : Valid s.str) : s.str.len ≤ 65535 := by
  have hlimit := hs.toHeld.capacity_bounds.2
  unfold capacityMax at hlimit
  exact Nat.le_trans hs.fits hlimit

theorem prefix_iff_take {text pre : List UInt8} : pre <+: text ↔ text.take pre.length = pre := by
  rw [List.prefix_iff_eq_take]
  exact ⟨Eq.symm, Eq.symm⟩

theorem strncmp_exact (hs : Valid s.str) (hp : Valid p.str) (hnul : 0 ∉ p.str.text) {offset : Nat}
    (h : offset ≤ s.str.len) :
    ((strncmp p.str.len (s.from offset) (p.from 0)).1 = some 0 ↔ offset + p.str.len ≤ s.str.len ∧
        (s.str.text.drop offset).take p.str.len = p.str.text) ∧
      ∀ i < (strncmp p.str.len (s.from offset) (p.from 0)).2,
        offset + i ≤ s.str.len ∧ i ≤ p.str.len := by
  obtain ⟨behind, hfrom⟩ := Placed.from_eq hs h
  obtain ⟨after, hfirst⟩ := Placed.from_eq hp (Nat.zero_le _)
  have hlen := text_length hp
  have hcompare := @strncmp_begins (s.str.text.drop offset) _ hnul behind (0 :: after)
  rw [List.drop_zero] at hfirst
  rw [hfrom, hfirst, ← hlen]
  obtain ⟨hiff, htext, hread⟩ := hcompare
  rw [List.length_drop, text_length hs] at htext
  rw [hiff, prefix_iff_take]
  refine ⟨⟨fun htake => ⟨?_, htake⟩, fun hboth => hboth.2⟩, fun i hi => ⟨by omega, by omega⟩⟩
  have hshort := congrArg List.length htake
  rw [List.length_take, List.length_drop, text_length hs] at hshort
  omega

theorem strcmp_exact (hs : Valid s.str) (hp : Valid p.str) (hsnul : 0 ∉ s.str.text)
    (hnul : 0 ∉ p.str.text) (h : p.str.len ≤ s.str.len) :
    ExactAt s p (s.str.len - p.str.len) (endsWith s p) := by
  obtain ⟨behind, hfrom⟩ := Placed.from_eq hs (Nat.sub_le s.str.len p.str.len)
  obtain ⟨after, hfirst⟩ := Placed.from_eq hp (Nat.zero_le _)
  have hlen := text_length hp
  have hclean : 0 ∉ s.str.text.drop (s.str.len - p.str.len) := fun hmem =>
    hsnul (List.mem_of_mem_drop hmem)
  obtain ⟨hiff, htext, hread⟩ := strcmp_eq hclean hnul behind after
  have hlast : (s.str.text.drop (s.str.len - p.str.len)).length = p.str.len := by
    rw [List.length_drop, text_length hs]
    omega
  rw [List.drop_zero] at hfirst
  rw [← hfrom, ← hfirst] at hiff htext hread
  unfold endsWith
  rw [if_neg (Nat.not_lt_of_le h)]
  constructor
  · show Option.map _ _ = some true ↔ _
    rw [map_zero_iff, hiff, List.take_of_length_le (Nat.le_of_eq hlast)]
    exact ⟨fun heq => ⟨by omega, heq.symm⟩, fun hboth => hboth.2.symm⟩
  · intro i hi
    have hcount : i < (strcmp (s.from (s.str.len - p.str.len)) (p.from 0)).2 := hi
    omega

theorem guard_iff (hs : Valid s.str) (hp : Valid p.str) (offset : UInt32) :
    offset.toNat > (s.str.len + 2 ^ 32 - p.str.len) % 2 ^ 32 ↔
      (p.str.len ≤ s.str.len ∧ s.str.len < offset.toNat + p.str.len) ∨
        2 ^ 32 + s.str.len < offset.toNat + p.str.len := by
  have := len_small hs
  have := len_small hp
  have := offset.toNat_lt
  omega

theorem startsWithAt_exact (hs : Valid s.str) (hp : Valid p.str) (hnul : 0 ∉ p.str.text)
    {offset : UInt32} (h : ¬ (s.str.len < p.str.len ∧ s.str.len < offset.toNat ∧
      offset.toNat + p.str.len ≤ 2 ^ 32 + s.str.len)) :
    ExactAt s p offset.toNat (startsWithAt s p offset) := by
  unfold startsWithAt
  split
  · rename_i hguard
    rw [guard_iff hs hp] at hguard
    have := len_small hs
    exact ⟨⟨fun h => (nomatch h), fun hboth => absurd hboth.1 (by omega)⟩,
      fun i hi => absurd hi (Nat.not_lt_zero i)⟩
  · rename_i hguard
    rw [guard_iff hs hp] at hguard
    obtain ⟨hiff, hinside⟩ := strncmp_exact hs hp hnul (show offset.toNat ≤ s.str.len by omega)
    refine ⟨?_, hinside⟩
    show Option.map _ _ = some true ↔ _
    rw [map_zero_iff, hiff]

end Comparison

/-- `startsWith` and `endsWith` are exact and stay in the buffers, but for a prefix that is longer than
the string at an offset behind its end that the subtraction lets through. -/
theorem prefixExact_iff (s p : Placed) (hs : Valid s.str) (hp : Valid p.str)
    (hsnul : 0 ∉ s.str.text) (hnul : 0 ∉ p.str.text) (offset : UInt32) :
    PrefixExact s p offset ↔ ¬ (s.str.len < p.str.len ∧ s.str.len < offset.toNat ∧
      offset.toNat + p.str.len ≤ 2 ^ 32 + s.str.len) := by
  constructor
  · rintro hexact ⟨hlonger, hbehind, hwraps⟩
    have hinside := hexact.prefixed.inside 0
    have hpasses : ¬ offset.toNat > (s.str.len + 2 ^ 32 - p.str.len) % 2 ^ 32 := by
      rw [guard_iff hs hp]
      omega
    obtain ⟨n, hn⟩ := Nat.exists_eq_add_one_of_ne_zero (Nat.ne_of_gt (Nat.zero_lt_of_lt hlonger))
    unfold startsWithAt at hinside
    rw [if_neg hpasses, hn] at hinside
    have := (hinside (strncmp_reads n _ _)).1
    omega
  · intro h
    refine ⟨startsWithAt_exact hs hp hnul h, ?_, strcmp_exact hs hp hsnul hnul, ?_⟩
    · intro hle
      unfold startsWith
      rw [if_neg (Nat.not_lt_of_le hle)]
      have hzero : ExactAt s p (0 : UInt32).toNat (startsWithAt s p 0) :=
        startsWithAt_exact hs hp hnul fun hlong => absurd hlong.1 (Nat.not_lt_of_le hle)
      exact hzero
    · intro hlt
      unfold startsWith endsWith
      rw [if_pos hlt, if_pos hlt]
      exact ⟨rfl, rfl⟩

def pair : Placed := ⟨⟨false, [97, 98, 0, 0, 0, 0, 0, 0, 0, 0, 0], 0, 2, false⟩, []⟩

def letter : Placed := ⟨⟨false, [98, 0, 0, 0, 0, 0, 0, 0, 0, 0, 0], 0, 1, false⟩, []⟩

theorem pair_valid : Valid pair.str :=
  ⟨⟨rfl, fun h => absurd h (by decide), rfl⟩, by decide, rfl⟩

theorem letter_valid : Valid letter.str :=
  ⟨⟨rfl, fun h => absurd h (by decide), rfl⟩, by decide, rfl⟩

theorem pair_prefixExact : PrefixExact pair letter 1 :=
  (prefixExact_iff pair letter pair_valid letter_valid (by decide) (by decide) 1).mpr (by decide)

/-- A `String` that has become empty, and still holds a "b" behind its NUL. -/
def cleared : Placed := ⟨⟨false, [0, 98, 0, 0, 0, 0, 0, 0, 0, 0, 0], 0, 0, false⟩, []⟩

theorem cleared_startsWith : startsWithAt cleared letter 1 = (some true, 1) ∧
    ¬ PrefixExact cleared letter 1 := by
  refine ⟨by decide, fun hexact => ?_⟩
  exact absurd (hexact.prefixed.inside 0 (by decide)).1 (by decide)

end Esp8266.WString
