import Esp8266.Library.Ctype

/-! `ESP8266NetBIOS`: names in the coding of NetBIOS, and what a datagram is answered with. The
memory for an answer is there. -/
namespace Esp8266.Netbios
open Esp8266.Ctype

def nameSize : Nat := 17

def nnameSize : Nat := 15

/-- `sizeof(struct NBNSQUESTION)` -/
def questionSize : Nat := 50

/-- Where `NBNSQ_NAME` begins. -/
def nameOffset : Nat := 13

def space : UInt8 := 32

def letterA : UInt8 := 65

/-- The loop of `_getnbname`: what is written in front of the NUL, or nothing when it reads behind
the packet. -/
def getnbname (maxlen : UInt8) : UInt8 → List UInt8 → Option (List UInt8)
  | _, [] => none
  | c, [high] => if high = 0 ∨ maxlen ≤ c then some [] else none
  | c, high :: low :: nbname =>
    if high = 0 ∨ maxlen ≤ c then some []
    else if low = 0 then some [(high - letterA) <<< 4]
    else (getnbname maxlen (c + 2) nbname).map fun name =>
      ((high - letterA) <<< 4 ||| (low - letterA)) :: name

def letters (b : UInt8) : List UInt8 := [(b >>> 4) + letterA, (b &&& 0xF) + letterA]

/-- The loop of `_makenbname` for so many characters of a C string. -/
def nibbles : Nat → List UInt8 → List UInt8
  | 0, _ => []
  | n + 1, [] => letters space ++ nibbles n []
  | n + 1, b :: name => letters b ++ nibbles n name

def makenbname (name : List UInt8) (outlen : Nat) : List UInt8 :=
  nibbles ((outlen - 2) / 2) name ++ [letterA, letterA, 0]

def begin (name : List UInt8) : Option (List UInt8) :=
  if name.length > nameSize then none else some (name.map toupper)

def word (n : UInt16) : List UInt8 := [(n >>> 8).toUInt8, n.toUInt8]

def answerHeader (packet : List UInt8) (flags1 : UInt8) : List UInt8 :=
  packet.take 2 ++ [flags1, 0] ++ word 0 ++ word 1 ++ word 0 ++ word 0

def nameAnswer (name : List UInt8) (address : List UInt8) (packet : List UInt8) : List UInt8 :=
  answerHeader packet 0x85 ++ 32 :: makenbname name 32 ++ word 0x20 ++ word 1 ++
    [0x00, 0x04, 0x93, 0xE0] ++ word 6 ++ word 0 ++ address

def padded (size : Nat) (name : List UInt8) : List UInt8 :=
  name ++ List.replicate (size - name.length) space

def statusAnswer (name : List UInt8) (packet : List UInt8) : List UInt8 :=
  answerHeader packet 0x84 ++ (packet.drop 12).take 34 ++ word 0x21 ++ word 1 ++ [0, 0, 0, 0] ++
    word 19 ++ 1 :: (padded nnameSize name).take nnameSize ++ 0 :: word 0x400

def wildcard : List UInt8 := [42]

inductive Reply where
  | name (bytes : List UInt8)
  | status (bytes : List UInt8)
  deriving DecidableEq

def replyTo (name address packet text : List UInt8) : Option Reply :=
  if text = name then some (.name (nameAnswer name address packet))
  else if text = wildcard then some (.status (statusAnswer name packet))
  else none

def ended (text : List UInt8) : List UInt8 := (cString text).takeWhile (· ≠ space)

def answerQuestion (name address packet : List UInt8) : Option (Option Reply) :=
  match getnbname (packet.getD 12 0) 0 (packet.drop nameOffset) with
  | none => none
  | some text =>
    if text.length + 1 > nameSize then none else some (replyTo name address packet (ended text))

/-- One round of the loop of `_recv`. -/
def recvPbuf (name address packet : List UInt8) : Option (Option Reply) :=
  if packet.length < questionSize then some none
  else if packet.getD 2 0 &&& 0x80 ≠ 0 then some none
  else answerQuestion name address packet

/-- `_recv` takes each buffer of the chain for a packet of its own. -/
def recv (name address : List UInt8) : List (List UInt8) → Option (List Reply)
  | [] => some []
  | pb :: next =>
    match recvPbuf name address pb with
    | none => none
    | some reply => (recv name address next).map (reply.toList ++ ·)

def decode : List UInt8 → List UInt8
  | [] => []
  | [high] => [(high - letterA) <<< 4]
  | high :: low :: name => ((high - letterA) <<< 4 ||| (low - letterA)) :: decode name

def lettersOf (size : Nat) (nbname : List UInt8) : List UInt8 :=
  (nbname.take (2 * ((size + 1) / 2))).takeWhile (· ≠ 0)

section Loop
variable {maxlen c : UInt8} {nbname : List UInt8}

theorem getnbname_stop {high : UInt8} (h : high = 0 ∨ maxlen ≤ c) :
    getnbname maxlen c (high :: nbname) = some [] := by
  cases nbname with
  | nil => exact if_pos h
  | cons low nbname => exact if_pos h

theorem add_two {c : UInt8} {n : Nat} (h : c.toNat + 2 * (n + 1) ≤ 254) :
    (c + 2).toNat = c.toNat + 2 := by
  rw [UInt8.toNat_add]
  simp
  omega

theorem lettersOf_stop {high : UInt8} (h : high = 0 ∨ maxlen ≤ c) :
    lettersOf (maxlen.toNat - c.toNat) (high :: nbname) = [] := by
  unfold lettersOf
  rcases h with rfl | h
  · cases 2 * ((maxlen.toNat - c.toNat + 1) / 2) <;> rfl
  · rw [UInt8.le_iff_toNat_le] at h
    rw [Nat.sub_eq_zero_of_le h]
    rfl

theorem lettersOf_pair {size : Nat} {high low : UInt8} (hsize : 0 < size) (hhigh : high ≠ 0)
    (hlow : low ≠ 0) :
    lettersOf size (high :: low :: nbname) = high :: low :: lettersOf (size - 2) nbname := by
  have hpairs : 2 * ((size + 1) / 2) = 2 * ((size - 2 + 1) / 2) + 1 + 1 := by omega
  unfold lettersOf
  rw [hpairs]
  simp [hhigh, hlow]

theorem lettersOf_half {size : Nat} {high : UInt8} (hsize : 0 < size) (hhigh : high ≠ 0) :
    lettersOf size (high :: 0 :: nbname) = [high] := by
  have hpairs : 2 * ((size + 1) / 2) = 2 * ((size - 1) / 2) + 1 + 1 := by omega
  unfold lettersOf
  rw [hpairs]
  simp [hhigh]

theorem getnbname_short (n : Nat) (hlength : 2 * n + 1 ≤ nbname.length)
    (hwrap : c.toNat + 2 * n ≤ 254)
    (h : maxlen.toNat ≤ c.toNat + 2 * n ∨ 0 ∈ nbname.take (2 * n + 1)) :
    getnbname maxlen c nbname = some (decode (lettersOf (maxlen.toNat - c.toNat) nbname)) ∧
      (decode (lettersOf (maxlen.toNat - c.toNat) nbname)).length ≤ n := by
  induction n generalizing c nbname with
  | zero =>
    obtain ⟨high, nbname, rfl⟩ := List.exists_cons_of_length_pos hlength
    have hstop : high = 0 ∨ maxlen ≤ c := by
      rw [UInt8.le_iff_toNat_le]
      grind
    rw [getnbname_stop hstop, lettersOf_stop hstop]
    exact ⟨rfl, Nat.le_refl _⟩
  | succ n ih =>
    match nbname, hlength, h with
    | [_], hlength, _ => simp at hlength
    | high :: low :: nbname, hlength, h =>
      by_cases hstop : high = 0 ∨ maxlen ≤ c
      · rw [getnbname_stop hstop, lettersOf_stop hstop]
        exact ⟨rfl, Nat.zero_le _⟩
      · have hgo := not_or.mp hstop
        rw [UInt8.le_iff_toNat_le] at hgo
        have hsize : 0 < maxlen.toNat - c.toNat := by omega
        rw [getnbname, if_neg hstop]
        by_cases hlow : low = 0
        · rw [if_pos hlow, hlow, lettersOf_half hsize hgo.1]
          exact ⟨rfl, Nat.le_add_left 1 n⟩
        · have hadd := add_two hwrap
          obtain ⟨hname, hnameLength⟩ := @ih (c + 2) nbname (by simp at hlength; omega)
            (by omega) (by grind)
          rw [hadd, ← Nat.sub_sub] at hname hnameLength
          rw [if_neg hlow, lettersOf_pair hsize hgo.1 hlow, hname]
          exact ⟨rfl, Nat.succ_le_succ hnameLength⟩

theorem getnbname_long (n : Nat) (hlength : 2 * n + 1 ≤ nbname.length)
    (hmaxlen : c.toNat + 2 * n < maxlen.toNat) (hnul : 0 ∉ nbname.take (2 * n + 1)) :
    ∀ text, getnbname maxlen c nbname = some text → n < text.length := by
  induction n generalizing c nbname with
  | zero =>
    match nbname, hlength, hnul with
    | [high], _, hnul =>
      have hgo : ¬ (high = 0 ∨ maxlen ≤ c) := by
        rw [UInt8.le_iff_toNat_le]
        grind
      intro text htext
      rw [getnbname, if_neg hgo] at htext
      cases htext
    | high :: low :: nbname, _, hnul =>
      have hgo : ¬ (high = 0 ∨ maxlen ≤ c) := by
        rw [UInt8.le_iff_toNat_le]
        grind
      intro text htext
      rw [getnbname, if_neg hgo] at htext
      split at htext
      · cases htext
        exact Nat.zero_lt_one
      · obtain ⟨rest, -, rfl⟩ := Option.map_eq_some_iff.mp htext
        exact Nat.succ_pos _
  | succ n ih =>
    match nbname, hlength, hnul with
    | [_], hlength, _ => simp at hlength
    | high :: low :: nbname, hlength, hnul =>
      have hgo : ¬ (high = 0 ∨ maxlen ≤ c) := by
        rw [UInt8.le_iff_toNat_le]
        grind
      have hlow : low ≠ 0 := by grind
      have hmax := maxlen.toNat_lt
      have hadd := @add_two c n (by omega)
      intro text htext
      rw [getnbname, if_neg hgo, if_neg hlow] at htext
      obtain ⟨rest, hrest, rfl⟩ := Option.map_eq_some_iff.mp htext
      apply Nat.succ_lt_succ
      exact ih (by simp at hlength; omega) (by omega) (by grind) rest hrest

end Loop

end Esp8266.Netbios
