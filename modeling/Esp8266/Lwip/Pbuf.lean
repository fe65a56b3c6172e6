import Mathlib.Algebra.Group.Nat.Defs
import Mathlib.Algebra.Group.Int.Defs
import Mathlib.Algebra.GroupWithZero.Nat

/-! Packet buffers, and what the callers rely on in the functions of lwIP. A chain is the list of
its buffers from a pointer on; the empty list is a null pointer. -/
namespace Esp8266.Lwip

/-- A difference of two sizes of 32 bits -/
def minus (a b : Nat) : Nat := (a + 2 ^ 32 - b) % 2 ^ 32

theorem minus_eq {a b : Nat} (h : b ≤ a) (ha : a < 2 ^ 32) : minus a b = a - b := by
  unfold minus
  omega

structure Pbuf (α : Type) where
  payload : List UInt8
  flags : UInt8
  totLen : Nat
  ref : Nat
  object : Option α

abbrev Chain (α : Type) := List (Pbuf α)

def Pbuf.len (p : Pbuf α) : Nat := p.payload.length

def bytes (chain : Chain α) : List UInt8 := chain.flatMap Pbuf.payload

@[simp] theorem bytes_cons (p : Pbuf α) (chain : Chain α) :
    bytes (p :: chain) = p.payload ++ bytes chain := List.flatMap_cons

@[simp] theorem bytes_append (chain tail : Chain α) :
    bytes (chain ++ tail) = bytes chain ++ bytes tail := List.flatMap_append

inductive WellFormed : Chain α → Prop
  | nil : WellFormed []
  | cons {p : Pbuf α} {chain : Chain α} (total : p.totLen = p.len + (bytes chain).length)
    (referred : 0 < p.ref) (rest : WellFormed chain) : WellFormed (p :: chain)

def addTotLen (n : Nat) (p : Pbuf α) : Pbuf α := { p with totLen := (p.totLen + n) % 2 ^ 16 }

/-- The functions of lwIP, with what they are documented to do: `pbuf_ref` adds a reference,
`pbuf_free` drops one and goes on behind a buffer that loses its last, `pbuf_cat` appends a chain,
the others read bytes. -/
structure PbufFunctions (α : Type) where
  pbufRef : Chain α → Chain α
  pbufFree : Chain α → Chain α
  pbufCat : Chain α → Chain α → Chain α
  pbufGetAt : Chain α → Nat → UInt8
  pbufGetContiguous : Chain α → Nat → Nat → Option (List UInt8)
  ref_cons : ∀ p rest, pbufRef (p :: rest) = { p with ref := p.ref + 1 } :: rest
  free_nil : pbufFree [] = []
  free_last : ∀ p rest, p.ref ≤ 1 → pbufFree (p :: rest) = pbufFree rest
  free_kept : ∀ p rest, 1 < p.ref → pbufFree (p :: rest) = { p with ref := p.ref - 1 } :: rest
  cat_cons : ∀ chain p rest, chain ≠ [] →
    pbufCat chain (p :: rest) = chain.map (addTotLen p.totLen) ++ p :: rest
  getAt_inside : ∀ chain i, i < (bytes chain).length →
    pbufGetAt chain i = (bytes chain).getD i 0
  getContiguous_inside : ∀ chain len offset, 0 < len → offset + len ≤ (bytes chain).length →
    pbufGetContiguous chain len offset = some (((bytes chain).drop offset).take len)
  getContiguous_length : ∀ chain len offset block,
    pbufGetContiguous chain len offset = some block → block.length = len

def pbufFree : Chain α → Chain α
  | [] => []
  | p :: rest => if p.ref ≤ 1 then pbufFree rest else { p with ref := p.ref - 1 } :: rest

def pbufRef : Chain α → Chain α
  | [] => []
  | p :: rest => { p with ref := p.ref + 1 } :: rest

def pbufCat (chain tail : Chain α) : Chain α :=
  match tail with
  | [] => chain
  | p :: _ => chain.map (addTotLen p.totLen) ++ tail

def pbufGetContiguous (chain : Chain α) (len offset : Nat) : Option (List UInt8) :=
  let block := ((bytes chain).drop offset).take len
  if offset < (bytes chain).length ∧ block.length = len then some block else none

def lwip (α : Type) : PbufFunctions α where
  pbufRef := pbufRef
  pbufFree := pbufFree
  pbufCat := pbufCat
  pbufGetAt chain i := (bytes chain).getD i 0
  pbufGetContiguous := pbufGetContiguous
  ref_cons _ _ := rfl
  free_nil := rfl
  free_last _ _ h := if_pos h
  free_kept _ _ h := if_neg (Nat.not_le.mpr h)
  cat_cons _ _ _ _ := rfl
  getAt_inside _ _ _ := rfl
  getContiguous_inside chain len offset hpos hfits := by
    have hlength : (((bytes chain).drop offset).take len).length = len := by
      rw [List.length_take, List.length_drop]
      omega
    exact if_pos ⟨by omega, hlength⟩
  getContiguous_length chain len offset block h := by
    unfold pbufGetContiguous at h
    simp only at h
    split at h
    · rename_i hfound
      rw [← Option.some.inj h]
      exact hfound.2
    · cases h

section Chains
variable {α : Type} {p : Pbuf α} {chain second rest : Chain α}

theorem WellFormed.totLen_cons (h : WellFormed (p :: rest)) :
    p.totLen = (bytes (p :: rest)).length := by
  cases h with
  | cons total referred rest =>
    rw [bytes_cons, List.length_append]
    exact total

theorem WellFormed.tail (h : WellFormed (p :: rest)) : WellFormed rest := by
  cases h with
  | cons total referred rest => exact rest

@[simp] theorem bytes_map_addTotLen (n : Nat) (chain : Chain α) :
    bytes (chain.map (addTotLen n)) = bytes chain := by
  induction chain with
  | nil => rfl
  | cons p rest ih =>
    rw [List.map_cons, bytes_cons, bytes_cons, ih]
    rfl

theorem free_keeps (f : PbufFunctions α) (front : Chain α) (hp : 0 < p.ref) (rest : Chain α) :
    ∃ kept ref, 0 < ref ∧
      f.pbufFree (front ++ { p with ref := p.ref + 1 } :: rest) =
        kept ++ { p with ref } :: rest := by
  induction front with
  | nil => exact ⟨[], p.ref, hp, f.free_kept _ _ (Nat.succ_lt_succ hp)⟩
  | cons q front ih =>
    by_cases hlast : q.ref ≤ 1
    · rw [List.cons_append, f.free_last _ _ hlast]
      exact ih
    · exact ⟨{ q with ref := q.ref - 1 } :: front, p.ref + 1, Nat.succ_pos _,
        f.free_kept _ _ (Nat.lt_of_not_le hlast)⟩

theorem drop_front (front back : Chain α) :
    (front ++ back).drop ((front ++ back).length - back.length) = back := by
  rw [List.length_append, Nat.add_sub_cancel, List.drop_left]

theorem WellFormed.append (h : WellFormed chain) (hsecond : WellFormed second)
    (hfits : (bytes chain).length + (bytes second).length < 2 ^ 16) :
    WellFormed (chain.map (addTotLen (bytes second).length) ++ second) := by
  induction chain with
  | nil => exact hsecond
  | cons p rest ih =>
    cases h with
    | cons total referred hrest =>
      rw [bytes_cons, List.length_append] at hfits
      have hlen : p.len = p.payload.length := rfl
      have htotal : (p.totLen + (bytes second).length) % 2 ^ 16 =
          p.len + ((bytes rest).length + (bytes second).length) := by
        rw [Nat.mod_eq_of_lt (by omega)]
        omega
      rw [List.map_cons, List.cons_append]
      refine .cons ?_ referred (ih hrest (by omega))
      rw [bytes_append, bytes_map_addTotLen, List.length_append]
      exact htotal

end Chains

end Esp8266.Lwip
