import Esp8266.Library.SubstituteRight
import Esp8266.Strings.Storage

/-! `String::replace(const String&, const String&)` and what it calls in WString.cpp. -/
namespace Esp8266.WString
open Esp8266.Substring

/-- A `String` passed by reference may be the one that is changed. -/
inductive Operand where
  | self
  | other (t : Str)

def Operand.get (o : Operand) (s : Str) : Str :=
  match o with
  | self => s
  | other t => t

def strstr (store : List UInt8) (start : Nat) (sub : List UInt8) : Option Nat :=
  (firstIndex (cstr sub) (cstr (store.drop start))).map (start + ·)

def lastIndexLoop (store sub : List UInt8) (fromIndex : Nat) :
    Nat → Nat → Option Nat → Option Nat
  | 0, _, found => found
  | fuel + 1, p, found =>
      if p > fromIndex then found
      else
        match strstr store p sub with
        | none => found
        | some q =>
            lastIndexLoop store sub fromIndex fuel (q + 1) (if q ≤ fromIndex then some q else found)

def lastIndexOf (s s2 : Str) (fromIndex : Nat) : Option Nat :=
  if s2.len = 0 ∨ s.len = 0 ∨ s2.len > s.len then none
  else
    let fromIndex := if fromIndex ≥ s.len then s.len - 1 else fromIndex
    lastIndexLoop s.store s2.store fromIndex (fromIndex + 1) 0 none

def replaceEqual (find replace : Operand) : Nat → Str → Nat → Str
  | 0, s, _ => s
  | fuel + 1, s, readFrom =>
      match strstr s.store readFrom (find.get s).store with
      | none => s
      | some foundAt =>
          replaceEqual find replace fuel (s.put foundAt (replace.get s).text)
            (foundAt + (replace.get s).len)

def replaceShorter (find replace : Operand) (diff : Int) : Nat → Str → Nat → Nat → Str
  | 0, s, _, _ => s
  | fuel + 1, s, readFrom, writeTo =>
      match strstr s.store readFrom (find.get s).store with
      | none => s.put writeTo (cstr (s.store.drop readFrom) ++ [0])
      | some foundAt =>
          let n := foundAt - readFrom
          let s := s.put writeTo ((s.store.drop readFrom).take n)
          let writeTo := writeTo + n
          let s := s.put writeTo (replace.get s).text
          let writeTo := writeTo + (replace.get s).len
          let readFrom := foundAt + (find.get s).len
          replaceShorter find replace diff fuel (s.setLen (s.len + diff)) readFrom writeTo

def countLoop (s find : Str) : Nat → Nat → Nat
  | 0, _ => 0
  | fuel + 1, readFrom =>
      match strstr s.store readFrom find.store with
      | none => 0
      | some foundAt => countLoop s find fuel (foundAt + find.len) + 1

def replaceLongerAt (find replace : Operand) (diff : Nat) (s : Str) (index : Nat) : Str :=
  let readFrom := index + (find.get s).len
  let moved := s.put (readFrom + diff) ((s.store.drop readFrom).take (s.len - readFrom))
  let newLen := moved.len + diff
  let s := moved.put index (replace.get moved).text
  (s.setLen newLen).put newLen [0]

/-- The second pass; `index` is one more than in the code. -/
def replaceLonger (find replace : Operand) (diff : Nat) : Nat → Str → Nat → Str
  | 0, s, _ => s
  | fuel + 1, s, index =>
      if index = 0 then s
      else
        match lastIndexOf s (find.get s) (index - 1) with
        | none => s
        | some found =>
            replaceLonger find replace diff fuel (replaceLongerAt find replace diff s found) found

def replaceGrowing (s : Str) (mem : Allocations) (find replace : Operand) (diff : Nat) :
    Str × Allocations :=
  let fuel := s.store.length + 1
  let size := s.len + countLoop s (find.get s) fuel 0 * diff
  if size = s.len then (s, mem)
  else
    let r := if size > s.capacity then changeBuffer s mem size else (true, s, mem)
    if r.1 then (replaceLonger find replace diff fuel r.2.1 r.2.1.len, r.2.2)
    else r.2

/-- `replace`. A round of a loop takes a byte of the buffer at least. -/
def replaceString (s : Str) (mem : Allocations) (find replace : Operand) : Str × Allocations :=
  if s.len = 0 ∨ (find.get s).len = 0 then (s, mem)
  else
    let diff : Int := (replace.get s).len - (find.get s).len
    let fuel := s.store.length + 1
    if diff = 0 then (replaceEqual find replace fuel s 0, mem)
    else if diff < 0 then (replaceShorter find replace diff fuel s 0 0, mem)
    else replaceGrowing s mem find replace diff.toNat

@[simp] theorem get_self (s : Str) : Operand.self.get s = s := rfl

@[simp] theorem get_other (s t : Str) : (Operand.other t).get s = t := rfl

theorem cstr_append_nul {bytes : List UInt8} (h : 0 ∉ bytes) (rest : List UInt8) :
    cstr (bytes ++ 0 :: rest) = bytes := by
  unfold cstr
  rw [List.takeWhile_append_of_pos]
  · simp
  · intro c hc
    exact bne_iff_ne.mpr fun hzero => h (hzero ▸ hc)

theorem cstr_drop {bytes : List UInt8} {n : Nat} (hn : n ≤ (cstr bytes).length) :
    cstr (bytes.drop n) = (cstr bytes).drop n := by
  induction n generalizing bytes with
  | zero => rfl
  | succ n ih =>
    cases bytes with
    | nil => simp [cstr] at hn
    | cons c rest =>
      have hcons : cstr (c :: rest) = if (c != 0) = true then c :: cstr rest else [] :=
        List.takeWhile_cons
      rw [hcons] at hn ⊢
      split at hn
      · rename_i hc
        rw [if_pos hc, List.drop_succ_cons, List.drop_succ_cons]
        exact ih (Nat.le_of_succ_le_succ hn)
      · cases hn

theorem nul_not_mem_cstr (bytes : List UInt8) : 0 ∉ cstr bytes := by
  intro hmem
  have h := List.all_takeWhile (p := fun c : UInt8 => c != 0) (l := bytes)
  rw [List.all_eq_true] at h
  exact absurd (h 0 hmem) (by simp)

theorem cstr_leads (bytes : List UInt8) : cstr bytes <+: bytes := List.takeWhile_prefix _

theorem prefix_cstr_iff {sub bytes : List UInt8} (h : 0 ∉ sub) :
    sub <+: cstr bytes ↔ sub <+: bytes := by
  constructor
  · intro hsub
    exact hsub.trans (cstr_leads bytes)
  · rintro ⟨rest, rfl⟩
    unfold cstr
    rw [List.takeWhile_append_of_pos]
    · exact List.prefix_append _ _
    · intro c hc
      exact bne_iff_ne.mpr fun hzero => h (hzero ▸ hc)

theorem put_over {s : Str} {start : Nat} {bytes before covered after : List UInt8}
    (hstore : s.store = before ++ covered ++ after) (hstart : before.length = start)
    (hfit : bytes.length ≤ covered.length) :
    s.put start bytes =
      { s with store := before ++ bytes ++ (covered.drop bytes.length ++ after) } := by
  have hlength := congrArg List.length hstore
  simp only [List.length_append] at hlength
  have hput : (s.put start bytes).store =
      before ++ bytes ++ (covered.drop bytes.length ++ after) := by
    rw [put_store (by omega), hstore, List.append_assoc before, ← hstart, List.take_left,
      ← List.drop_drop, List.drop_left, List.drop_append_of_le_length hfit]
  have hin : (s.put start bytes).overrun = s.overrun := by
    unfold Str.put
    simp only [Bool.or_eq_left_iff_imp, decide_eq_true_eq]
    omega
  calc
    s.put start bytes = { s with
        store := (s.put start bytes).store
        overrun := (s.put start bytes).overrun } := rfl
    _ = _ := by rw [hput, hin]

theorem strstr_some {store sub : List UInt8} {p q : Nat} (hp : p ≤ (cstr store).length)
    (h : strstr store p sub = some q) :
    p ≤ q ∧ q ≤ (cstr store).length ∧ cstr sub <+: (cstr store).drop q ∧
      Quiet (cstr sub) p (q - p) (cstr store) := by
  obtain ⟨i, hi, rfl⟩ := Option.map_eq_some_iff.mp h
  rw [cstr_drop hp] at hi
  obtain ⟨hat, hle, hbefore⟩ := firstIndex_some hi
  rw [List.length_drop] at hle
  rw [List.drop_drop] at hat
  refine ⟨by omega, by omega, hat, ?_⟩
  intro j hlo hj
  have hquiet := hbefore (j - p) (by omega)
  rw [List.drop_drop, show p + (j - p) = j by omega] at hquiet
  exact hquiet

theorem strstr_none {store sub : List UInt8} {p : Nat} (hp : p ≤ (cstr store).length)
    (h : strstr store p sub = none) (n : Nat) : Quiet (cstr sub) p n (cstr store) := by
  have hnone := Option.map_eq_none_iff.mp h
  rw [cstr_drop hp] at hnone
  intro j hlo _
  have hquiet := firstIndex_none hnone (j - p)
  rw [List.drop_drop, show p + (j - p) = j by omega] at hquiet
  exact hquiet

theorem strstr_todo {store before todo tail : List UInt8} (sub : List UInt8)
    (hstore : store = before ++ todo ++ 0 :: tail) (hnul : 0 ∉ todo) :
    strstr store before.length sub =
      (firstIndex (cstr sub) todo).map (before.length + ·) := by
  unfold strstr
  rw [hstore, List.append_assoc, List.drop_left, cstr_append_nul hnul]

theorem lastIndexLoop_last (store : List UInt8) {sub : List UInt8} (hsub : cstr sub ≠ [])
    (fromIndex fuel : Nat) {p : Nat} (hp : p ≤ (cstr store).length) (found : Option Nat)
    (hfuel : fromIndex + 1 ≤ p + fuel)
    (hfound : LastBefore (cstr sub) (cstr store) (min p (fromIndex + 1)) found) :
    LastBefore (cstr sub) (cstr store) (fromIndex + 1)
      (lastIndexLoop store sub fromIndex fuel p found) := by
  have hpos : 0 < (cstr sub).length := List.length_pos_iff.mpr hsub
  induction fuel generalizing p found with
  | zero =>
    rw [Nat.min_eq_right (by omega)] at hfound
    exact hfound
  | succ fuel ih =>
    unfold lastIndexLoop
    split
    · rw [Nat.min_eq_right (by omega)] at hfound
      exact hfound
    · rename_i hin
      rw [Nat.min_eq_left (by omega)] at hfound
      cases hstr : strstr store p sub with
      | none =>
        have hextend := hfound.extend (strstr_none hp hstr (fromIndex + 1 - p))
        rw [show p + (fromIndex + 1 - p) = fromIndex + 1 by omega] at hextend
        exact hextend
      | some q =>
        obtain ⟨hle, hend, hat, hquiet⟩ := strstr_some hp hstr
        have hlength := hat.length_le
        rw [List.length_drop] at hlength
        simp only
        apply ih (by omega) _ (by omega)
        by_cases hq : q ≤ fromIndex
        · rw [if_pos hq, Nat.min_eq_left (by omega)]
          exact ⟨by omega, hat, fun j hlo hj => by omega⟩
        · rw [if_neg hq, Nat.min_eq_right (by omega)]
          have hextend := hfound.extend
            (show Quiet (cstr sub) p (fromIndex + 1 - p) (cstr store) from
              fun j hlo hj => hquiet j hlo (by omega))
          rw [show p + (fromIndex + 1 - p) = fromIndex + 1 by omega] at hextend
          exact hextend

theorem cstr_of_take {first second : List UInt8} {n : Nat} (h : first.take n = second.take n)
    (hn : n ≤ (cstr second).length) : n ≤ (cstr first).length := by
  obtain ⟨rest, hrest⟩ := cstr_leads second
  have htake : first.take n = (cstr second).take n := by
    rw [h]
    conv => lhs; rw [← hrest]
    exact List.take_append_of_le_length hn
  have hlength := congrArg List.length htake
  rw [List.length_take, List.length_take] at hlength
  conv => rhs; rw [← List.take_append_drop n first]
  unfold cstr
  rw [List.takeWhile_append_of_pos, List.length_append, List.length_take]
  · omega
  · intro c hc
    rw [htake] at hc
    exact bne_iff_ne.mpr fun hzero => nul_not_mem_cstr second (hzero ▸ List.mem_of_mem_take hc)

theorem lastIndexOf_last {s find : Str} (hs : Valid s) (hfind : cstr find.store ≠ [])
    (hlen : find.len = (cstr find.store).length) {index : Nat} (hpos : 0 < index)
    (hindex : index ≤ s.len) :
    LastBefore (cstr find.store) s.text (min index (cstr s.text).length)
      (lastIndexOf s find (index - 1)) := by
  have hfindpos : 0 < (cstr find.store).length := List.length_pos_iff.mpr hfind
  have htextlen := text_length hs
  have hsame : ∀ j, j < (cstr s.text).length →
      (cstr find.store <+: (cstr s.store).drop j ↔ cstr find.store <+: s.text.drop j) := by
    intro j hj
    rw [hs.cstr_eq, ← cstr_drop (by omega), prefix_cstr_iff (nul_not_mem_cstr _)]
  have hloop := lastIndexLoop_last s.store hfind (index - 1) index (Nat.zero_le _) none
    (by omega) (by intro j _ hj; omega)
  rw [show index - 1 + 1 = index by omega] at hloop
  unfold lastIndexOf
  split
  · rename_i hnone
    intro j _ hj hat
    have hle := hat.length_le
    rw [List.length_drop] at hle
    omega
  · simp only
    rw [if_neg (by omega), show index - 1 + 1 = index by omega]
    generalize lastIndexLoop s.store find.store (index - 1) index 0 none = found at hloop ⊢
    cases found with
    | none =>
      intro j hlo hj hat
      exact hloop j hlo (by omega) ((hsame j (by omega)).mpr hat)
    | some i =>
      obtain ⟨hi, hat, hafter⟩ := hloop
      have hin : i < (cstr s.text).length := by
        have hle := hat.length_le
        rw [List.length_drop, hs.cstr_eq] at hle
        omega
      refine ⟨by omega, (hsame i hin).mp hat, ?_⟩
      intro j hlo hj hat
      exact hafter j hlo (by omega) ((hsame j (by omega)).mpr hat)

theorem replaceEqual_substitutes {find replace : Str} (hfind : cstr find.store ≠ [])
    (hlen : replace.len = (cstr find.store).length) (htext : replace.text.length = replace.len)
    (todo : List UInt8) (hnul : 0 ∉ todo) {fuel : Nat} (hfuel : todo.length < fuel) {s : Str}
    {before tail : List UInt8} (hstore : s.store = before ++ todo ++ 0 :: tail) :
    replaceEqual (.other find) (.other replace) fuel s before.length =
      { s with
        store := before ++ substitute (cstr find.store) replace.text todo ++ 0 :: tail } := by
  have hpos : 0 < (cstr find.store).length := List.length_pos_iff.mpr hfind
  induction todo using scan_induction hfind generalizing fuel s before with
  | last todo hlast =>
    obtain ⟨fuel, rfl⟩ : ∃ n, fuel = n + 1 := ⟨fuel - 1, by omega⟩
    have hstr := strstr_todo find.store hstore hnul
    rw [hlast] at hstr
    rw [substitute_none _ hlast, ← hstore]
    unfold replaceEqual
    simp only [get_other, hstr, Option.map_none]
  | next piece rest hnext ih =>
    obtain ⟨fuel, rfl⟩ : ∃ n, fuel = n + 1 := ⟨fuel - 1, by omega⟩
    have hstr := strstr_todo find.store hstore hnul
    rw [hnext] at hstr
    simp only [List.length_append] at hfuel
    have hover : s.store = (before ++ piece) ++ cstr find.store ++ (rest ++ 0 :: tail) := by
      rw [hstore]
      simp only [List.append_assoc]
    have hput := put_over hover (by rw [List.length_append])
      (show replace.text.length ≤ _ by omega)
    rw [List.drop_of_length_le (by omega), List.nil_append] at hput
    have hrest : 0 ∉ rest := fun hmem => hnul (List.mem_append_right _ hmem)
    have hindex : before.length + piece.length + replace.len =
        (before ++ piece ++ replace.text).length := by
      simp only [List.length_append]
      omega
    have hloop := ih hrest (show rest.length < fuel by omega)
      (show { s with store := before ++ piece ++ replace.text ++ (rest ++ 0 :: tail) }.store =
        (before ++ piece ++ replace.text) ++ rest ++ 0 :: tail by simp only [List.append_assoc])
    unfold replaceEqual
    simp only [get_other, hstr, Option.map_some, hput]
    rw [hindex, hloop, substitute_next _ hfind hnext]
    simp only [List.append_assoc]

theorem replaceShorter_substitutes {find replace : Str} (hfind : cstr find.store ≠ [])
    (hlen : find.len = (cstr find.store).length) (htext : replace.text.length = replace.len)
    (hless : replace.len < find.len) (todo : List UInt8) (hnul : 0 ∉ todo) {fuel : Nat}
    (hfuel : todo.length < fuel) {s : Str} (hheld : Held s) {written gap tail : List UInt8}
    (hstore : s.store = written ++ gap ++ todo ++ 0 :: tail)
    (hs : s.len = written.length + todo.length) :
    ∃ rest, replaceShorter (.other find) (.other replace) ((replace.len : Int) - find.len) fuel s
        (written.length + gap.length) written.length =
      { s with
        store := written ++ substitute (cstr find.store) replace.text todo ++ 0 :: rest
        len := (written ++ substitute (cstr find.store) replace.text todo).length } ∧
      (written ++ substitute (cstr find.store) replace.text todo ++ 0 :: rest).length =
        s.store.length := by
  have hpos : 0 < (cstr find.store).length := List.length_pos_iff.mpr hfind
  induction todo using scan_induction hfind generalizing fuel s written gap with
  | last todo hlast =>
    obtain ⟨fuel, rfl⟩ : ∃ n, fuel = n + 1 := ⟨fuel - 1, by omega⟩
    have hstr := strstr_todo find.store hstore hnul
    rw [hlast, List.length_append] at hstr
    have hover : s.store = written ++ (gap ++ todo ++ [0]) ++ tail := by
      rw [hstore]
      simp only [List.append_assoc, List.singleton_append]
    have hread : cstr (s.store.drop (written.length + gap.length)) = todo := by
      rw [hstore, ← List.length_append, List.append_assoc, List.drop_left, cstr_append_nul hnul]
    have hput := put_over hover rfl
      (show (todo ++ [0]).length ≤ _ by simp only [List.length_append]; omega)
    refine ⟨(gap ++ todo ++ [0]).drop (todo ++ [0]).length ++ tail, ?_, ?_⟩
    · rw [substitute_none _ hlast]
      unfold replaceShorter
      simp only [get_other, hstr, Option.map_none]
      rw [hread, hput, hs]
      simp only [List.append_assoc, List.singleton_append, List.length_append]
    · rw [substitute_none _ hlast, hstore]
      simp only [List.length_append, List.length_drop, List.length_cons, List.length_nil]
      omega
  | next piece rest hnext ih =>
    obtain ⟨fuel, rfl⟩ : ∃ n, fuel = n + 1 := ⟨fuel - 1, by omega⟩
    have hstr := strstr_todo find.store hstore hnul
    rw [hnext, List.length_append] at hstr
    simp only [List.length_append] at hfuel hs
    have hread : (s.store.drop (written.length + gap.length)).take piece.length = piece := by
      rw [hstore, ← List.length_append, List.append_assoc, List.drop_left, List.append_assoc,
        List.append_assoc, List.take_left]
    have hpiece : s.store =
        written ++ (gap ++ piece) ++ (cstr find.store ++ rest ++ 0 :: tail) := by
      rw [hstore]
      simp only [List.append_assoc]
    have hfirst := put_over hpiece rfl
      (show piece.length ≤ _ by rw [List.length_append]; omega)
    generalize hgap : (gap ++ piece).drop piece.length = gap' at hfirst
    have hgaplen : gap'.length = gap.length := by
      rw [← hgap, List.length_drop, List.length_append]
      omega
    have hpart : ({ s with
        store := written ++ piece ++ (gap' ++ (cstr find.store ++ rest ++ 0 :: tail)) } :
          Str).store = (written ++ piece) ++ (gap' ++ cstr find.store) ++ (rest ++ 0 :: tail) := by
      simp only [List.append_assoc]
    have hsecond := put_over hpart (by rw [List.length_append])
      (show replace.text.length ≤ _ by rw [List.length_append]; omega)
    generalize hgap' : (gap' ++ cstr find.store).drop replace.text.length = gap'' at hsecond
    have hgaplen' : gap''.length + replace.len = gap.length + find.len := by
      rw [← hgap', List.length_drop, List.length_append]
      omega
    have hsize := congrArg List.length hstore
    simp only [List.length_append, List.length_cons] at hsize
    have hstorage := hheld.storage
    have hheld' : Held { s with
        store := written ++ piece ++ replace.text ++ (gap'' ++ (rest ++ 0 :: tail)) } := by
      refine ⟨?_, hheld.limit, hheld.intact⟩
      refine Eq.trans ?_ hstorage
      simp only [List.length_append, List.length_cons]
      omega
    have hlen' : (s.len : Int) + ((replace.len : Int) - find.len) =
        ((written ++ piece ++ replace.text).length + rest.length : Nat) := by
      simp only [List.length_append]
      omega
    have hset := hheld'.setLen_eq
      (show (written ++ piece ++ replace.text).length + rest.length ≤ s.capacity by
        simp only [List.length_append]
        omega)
    have hrest : 0 ∉ rest := fun hmem => hnul (List.mem_append_right _ hmem)
    obtain ⟨after, hloop, hafter⟩ := ih hrest (show rest.length < fuel by omega)
      (hset ▸ hheld'.setLen _)
      (show written ++ piece ++ replace.text ++ (gap'' ++ (rest ++ 0 :: tail)) =
        (written ++ piece ++ replace.text) ++ gap'' ++ rest ++ 0 :: tail by
          simp only [List.append_assoc])
      rfl
    have hread' : written.length + gap.length + piece.length + find.len =
        (written ++ piece ++ replace.text).length + gap''.length := by
      simp only [List.length_append]
      omega
    have hwrite : written.length + piece.length + replace.len =
        (written ++ piece ++ replace.text).length := by
      simp only [List.length_append]
      omega
    refine ⟨after, ?_, ?_⟩
    · unfold replaceShorter
      simp only [get_other, hstr, Option.map_some, Nat.add_sub_cancel_left]
      rw [hread, hfirst, hsecond]
      simp only
      rw [hlen', hset, hread', hwrite, hloop, substitute_next _ hfind hnext]
      simp only [List.append_assoc]
    · rw [substitute_next _ hfind hnext]
      simp only [List.append_assoc] at hafter ⊢
      rw [hafter, hstore]
      simp only [List.length_append, List.length_cons]
      omega

theorem countLoop_counts {find : Str} (hfind : cstr find.store ≠ [])
    (hlen : find.len = (cstr find.store).length) (s : Str) (todo : List UInt8) (hnul : 0 ∉ todo)
    {fuel : Nat} (hfuel : todo.length < fuel) {before tail : List UInt8}
    (hstore : s.store = before ++ todo ++ 0 :: tail) :
    countLoop s find fuel before.length = (pieces (cstr find.store) todo).length - 1 := by
  have hpos : 0 < (cstr find.store).length := List.length_pos_iff.mpr hfind
  induction todo using scan_induction hfind generalizing fuel before with
  | last todo hlast =>
    obtain ⟨fuel, rfl⟩ : ∃ n, fuel = n + 1 := ⟨fuel - 1, by omega⟩
    have hstr := strstr_todo find.store hstore hnul
    rw [hlast] at hstr
    unfold countLoop
    simp only [hstr, Option.map_none, pieces_none hlast, List.length_singleton]
  | next piece rest hnext ih =>
    obtain ⟨fuel, rfl⟩ : ∃ n, fuel = n + 1 := ⟨fuel - 1, by omega⟩
    have hstr := strstr_todo find.store hstore hnul
    rw [hnext] at hstr
    simp only [List.length_append] at hfuel
    have hrest : 0 ∉ rest := fun hmem => hnul (List.mem_append_right _ hmem)
    have hindex : before.length + piece.length + find.len =
        (before ++ piece ++ cstr find.store).length := by
      simp only [List.length_append]
      omega
    have hloop := ih hrest (show rest.length < fuel by omega)
      (show s.store = (before ++ piece ++ cstr find.store) ++ rest ++ 0 :: tail by
        rw [hstore]
        simp only [List.append_assoc])
    have hsome : 0 < (pieces (cstr find.store) rest).length :=
      List.length_pos_iff.mpr (pieces_ne_nil _ hfind rest)
    unfold countLoop
    simp only [hstr, Option.map_some]
    rw [hindex, hloop, pieces_next hfind hnext, List.length_cons]
    omega

section Longer

variable {find replace : Str} (hfind : cstr find.store ≠ [])
  (hlen : find.len = (cstr find.store).length) {diff : Nat}
  (hdiff : replace.text.length = find.len + diff)
include hfind hlen hdiff

theorem replaceLongerAt_fits {s : Str} (hs : Valid s) {index : Nat}
    (hat : cstr find.store <+: s.text.drop index) (hroom : s.len + diff ≤ s.capacity) :
    Valid (replaceLongerAt (.other find) (.other replace) diff s index) ∧
      (replaceLongerAt (.other find) (.other replace) diff s index).text =
        replaceAt (cstr find.store) replace.text index s.text ∧
      (replaceLongerAt (.other find) (.other replace) diff s index).capacity = s.capacity ∧
      (replaceLongerAt (.other find) (.other replace) diff s index).len = s.len + diff := by
  have hpos : 0 < (cstr find.store).length := List.length_pos_iff.mpr hfind
  have hstorage := hs.storage
  have htextlen := text_length hs
  have hle := hat.length_le
  rw [List.length_drop] at hle
  have hreplaced : replaceAt (cstr find.store) replace.text index s.text =
      s.text.take index ++ replace.text ++ s.text.drop (index + find.len) := by
    rw [replaceAt, if_pos hat, hlen]
  obtain ⟨rest, hrest⟩ := hat
  have hbehind : s.text.drop (index + find.len) = rest := by
    rw [hlen, ← List.drop_drop, ← hrest, List.drop_left]
  rw [hbehind] at hreplaced
  generalize hbefore : s.text.take index = before at hreplaced
  have hindex : before.length = index := by
    rw [← hbefore, List.length_take]
    omega
  obtain ⟨tail, hstore⟩ : ∃ tail, s.store = before ++ cstr find.store ++ rest ++ 0 :: tail := by
    refine ⟨s.store.drop (s.len + 1), ?_⟩
    conv => lhs; rw [hs.split, ← List.take_append_drop index s.text, ← hrest, hbefore]
    simp only [List.append_assoc]
  have hsize := congrArg List.length hstore
  simp only [List.length_append, List.length_cons] at hsize
  have hslen : s.len = before.length + (cstr find.store).length + rest.length := by
    have hsum := congrArg List.length hrest
    rw [List.length_append, List.length_drop] at hsum
    omega
  have hread : (s.store.drop (index + find.len)).take (s.len - (index + find.len)) = rest := by
    rw [hstore, ← hindex, hlen, ← List.length_append, List.append_assoc, List.drop_left, hslen,
      List.length_append, Nat.add_sub_cancel_left, List.take_left]
  obtain ⟨shift, covered, hcut, hshift⟩ : ∃ shift covered, rest ++ 0 :: tail = shift ++ covered ∧
      shift.length = diff :=
    ⟨_, _, (List.take_append_drop diff _).symm, by
      simp only [List.length_take, List.length_append, List.length_cons]
      omega⟩
  have hover := congrArg List.length hcut
  simp only [List.length_append, List.length_cons] at hover
  have hfirst := put_over
    (show s.store = (before ++ cstr find.store ++ shift) ++ covered ++ [] by
      rw [hstore, List.append_assoc (before ++ cstr find.store), hcut]
      simp only [List.append_assoc, List.append_nil])
    (show _ = index + find.len + diff by
      simp only [List.length_append]
      omega)
    (show rest.length ≤ covered.length by omega)
  obtain ⟨next, after, hnext⟩ : ∃ next after, covered.drop rest.length = next :: after := by
    have hleft : (covered.drop rest.length).length = covered.length - rest.length := List.length_drop
    cases hcase : covered.drop rest.length with
    | nil =>
      rw [hcase, List.length_nil] at hleft
      omega
    | cons next after => exact ⟨next, after, rfl⟩
  rw [hnext, List.append_nil] at hfirst
  have hsecond := put_over
    (show ({ s with store := before ++ cstr find.store ++ shift ++ rest ++ next :: after } :
        Str).store = before ++ (cstr find.store ++ shift) ++ (rest ++ next :: after) by
      simp only [List.append_assoc])
    hindex
    (show replace.text.length ≤ _ by
      rw [List.length_append]
      omega)
  rw [List.drop_of_length_le (by rw [List.length_append]; omega), List.nil_append] at hsecond
  have hheld : Held { s with store := before ++ replace.text ++ (rest ++ next :: after) } := by
    refine ⟨?_, hs.limit, hs.intact⟩
    refine Eq.trans ?_ hstorage
    have hleft := congrArg List.length hnext
    rw [List.length_drop, List.length_cons] at hleft
    simp only [List.length_append, List.length_cons]
    omega
  have hset := hheld.setLen_eq (show s.len + diff ≤ s.capacity from hroom)
  have hmade : replaceLongerAt (.other find) (.other replace) diff s index =
      ({ s with
        store := before ++ replace.text ++ (rest ++ next :: after)
        len := s.len + diff } : Str).put (s.len + diff) [0] := by
    unfold replaceLongerAt
    simp only [get_other]
    rw [hread, hfirst]
    simp only
    rw [hsecond, hset]
  have hvalid := (hset ▸ hheld.setLen ((s.len + diff : Nat) : Int) : Held { s with
    store := before ++ replace.text ++ (rest ++ next :: after)
    len := s.len + diff }).terminate hroom
  have hend := put_over
    (show ({ s with
        store := before ++ replace.text ++ (rest ++ next :: after)
        len := s.len + diff } : Str).store =
        (before ++ replace.text ++ rest) ++ [next] ++ after by
      simp only [List.append_assoc, List.singleton_append])
    (show _ = s.len + diff by
      simp only [List.length_append]
      omega)
    (show [(0 : UInt8)].length ≤ 1 from Nat.le_refl 1)
  rw [hmade]
  refine ⟨hvalid, ?_, rfl, rfl⟩
  rw [hreplaced, hend, Str.text]
  simp only
  rw [List.append_assoc, List.take_left' (by simp only [List.length_append]; omega)]

omit hfind hlen hdiff in
theorem replaceLongerAt_overruns {s : Str} (hs : Held s) (index : Nat)
    (hroom : s.capacity < s.len + diff) :
    (replaceLongerAt (.other find) (.other replace) diff s index).overrun = true := by
  have hstorage := hs.storage
  unfold replaceLongerAt
  simp only
  rw [put_overrun]
  right
  simp only [store_setLen, put_length, len_put, List.length_singleton]
  omega

omit hfind hlen hdiff in
theorem replaceLonger_overrun (fuel : Nat) {s : Str} (hs : s.overrun = true) (index : Nat) :
    (replaceLonger (.other find) (.other replace) diff fuel s index).overrun = true := by
  induction fuel generalizing s index with
  | zero => exact hs
  | succ fuel ih =>
    unfold replaceLonger
    split
    · exact hs
    · split
      · exact hs
      · apply ih
        unfold replaceLongerAt
        simp only
        rw [put_overrun]
        exact Or.inl ((put_overrun _ _ _).mpr (Or.inl ((put_overrun _ _ _).mpr (Or.inl hs))))

theorem replaceLonger_right (hgrow : 0 < diff) (fuel : Nat) {s : Str} (hs : Valid s)
    {index : Nat} (hindex : index ≤ s.len) (hfuel : index ≤ fuel) {bound : Nat}
    (hbound : bound = min index (cstr s.text).length) :
    ((replaceDown (cstr find.store) replace.text 0 bound s.text).length ≤ s.capacity →
        Valid (replaceLonger (.other find) (.other replace) diff fuel s index) ∧
          (replaceLonger (.other find) (.other replace) diff fuel s index).text =
            replaceDown (cstr find.store) replace.text 0 bound s.text) ∧
      (s.capacity < (replaceDown (cstr find.store) replace.text 0 bound s.text).length →
        (replaceLonger (.other find) (.other replace) diff fuel s index).overrun = true) := by
  have hmore : (cstr find.store).length < replace.text.length := by omega
  induction fuel generalizing s index bound with
  | zero =>
    obtain rfl : bound = 0 := by omega
    refine ⟨fun _ => ⟨hs, rfl⟩, ?_⟩
    intro hfull
    have hfits := hs.fits
    rw [replaceDown, text_length hs] at hfull
    omega
  | succ fuel ih =>
    have htextlen := text_length hs
    have hfits := hs.fits
    unfold replaceLonger
    split
    · obtain rfl : bound = 0 := by omega
      refine ⟨fun _ => ⟨hs, rfl⟩, ?_⟩
      intro hfull
      rw [replaceDown] at hfull
      omega
    · rename_i hpos
      have hlast := lastIndexOf_last hs hfind hlen (Nat.pos_of_ne_zero hpos) hindex
      rw [← hbound] at hlast
      rw [replaceDown_last replace.text hlast]
      simp only [get_other]
      generalize lastIndexOf s find (index - 1) = found at hlast ⊢
      cases found with
      | none =>
        refine ⟨fun _ => ⟨hs, rfl⟩, ?_⟩
        intro hfull
        simp only at hfull
        omega
      | some found =>
        obtain ⟨hlt, hat, -⟩ := hlast
        have hlength := replaceAt_length (cstr find.store) replace.text found s.text
        rw [if_pos hat, Nat.one_mul, Nat.one_mul] at hlength
        have hle := replaceDown_length_le hmore 0 found
          (replaceAt (cstr find.store) replace.text found s.text)
        simp only
        by_cases hroom : s.len + diff ≤ s.capacity
        · obtain ⟨hvalid, htext, hcapacity, hlen'⟩ :=
            replaceLongerAt_fits hfind hlen hdiff hs hat hroom
          have hseen := cstr_of_take
            (replaceAt_take (cstr find.store) replace.text (show found ≤ s.text.length by omega))
            (by omega)
          have hrest := ih hvalid (show found ≤ _ by omega) (show found ≤ fuel by omega)
            (show found = min found _ by rw [htext]; omega)
          rw [htext, hcapacity] at hrest
          exact hrest
        · refine ⟨?_, ?_⟩
          · intro hfit
            omega
          · intro _
            exact replaceLonger_overrun fuel
              (replaceLongerAt_overruns hs.toHeld found (Nat.lt_of_not_le hroom)) found

end Longer

end Esp8266.WString
