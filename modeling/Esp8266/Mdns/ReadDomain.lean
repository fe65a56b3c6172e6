import Esp8266.Mdns.Names

/-! `_readRRDomain`: a name is read from a datagram, through compression pointers. -/
namespace Esp8266.Mdns

def domainCompressMark : UInt8 := 0xC0

def domainMaxRedirection : Nat := 6

structure NameBuffer where
  bytes : List UInt8
  size : bytes.length = domainMaxLength

theorem length_overwritten {bytes text : List UInt8} {start : Nat}
    (hsize : bytes.length = domainMaxLength) (h : start + text.length ≤ domainMaxLength) :
    (bytes.take start ++ text ++ bytes.drop (start + text.length)).length = domainMaxLength := by
  simp only [List.length_append, List.length_take, List.length_drop]
  omega

def NameBuffer.write (start : Nat) (text : List UInt8) (buffer : NameBuffer) : Option NameBuffer :=
  if h : start + text.length ≤ domainMaxLength then
    some ⟨buffer.bytes.take start ++ text ++ buffer.bytes.drop (start + text.length),
      length_overwritten buffer.size h⟩
  else none

structure DomainReader where
  acName : NameBuffer
  nameLength : Nat
  position : Nat

namespace DomainReader

def read8 (datagram : List UInt8) (value : UInt8) (s : DomainReader) : UInt8 × DomainReader :=
  match datagram[s.position]? with
  | some byte => (byte, { s with position := s.position + 1 })
  | none => (value, s)

@[simp] theorem read8_nameLength (datagram : List UInt8) (value : UInt8) (s : DomainReader) :
    (s.read8 datagram value).2.nameLength = s.nameLength := by
  unfold read8
  split <;> rfl

def addLabel (datagram : List UInt8) (length : UInt8) (s : DomainReader) :
    Option (Bool × DomainReader) :=
  if s.nameLength + length.toNat < domainMaxLength then
    match s.acName.write s.nameLength [length] with
    | none => none
    | some acName =>
      if length = 0 then some (true, ⟨acName, s.nameLength + 1, s.position⟩)
      else
        let text := (datagram.drop s.position).take length.toNat
        match acName.write (s.nameLength + 1) text with
        | none => none
        | some acName =>
          if text.length = length.toNat then
            some (true, ⟨acName, s.nameLength + 1 + length.toNat, s.position + length.toNat⟩)
          else some (false, ⟨acName, s.nameLength + 1, s.position + text.length⟩)
  else some (false, s)

theorem addLabel_nameLength {datagram : List UInt8} {length : UInt8} {s t : DomainReader}
    (h : s.addLabel datagram length = some (true, t)) :
    s.nameLength < t.nameLength ∧ s.nameLength < domainMaxLength := by
  unfold addLabel at h
  split at h
  · rename_i hroom
    split at h
    · cases h
    · split at h
      · cases h
        exact ⟨Nat.lt_succ_self _, by omega⟩
      · dsimp only at h
        split at h
        · cases h
        · split at h
          · cases h
            exact ⟨by dsimp only; omega, by omega⟩
          · cases h
  · cases h

def readLoop (datagram : List UInt8) (depth : Nat) (u8Len : UInt8) (s : DomainReader) :
    Option (Bool × DomainReader) :=
  let first := s.read8 datagram u8Len
  if first.1 &&& domainCompressMark ≠ 0 then
    let second := first.2.read8 datagram first.1
    let offset := (first.1 &&& ~~~domainCompressMark).toNat * 256 + second.1.toNat
    if offset ≤ datagram.length then
      if depth < domainMaxRedirection then
        match readLoop datagram (depth + 1) 0 { second.2 with position := offset } with
        | none => none
        | some (true, t) => some (true, { t with position := second.2.position })
        | some (false, t) => some (false, t)
      else some (false, { second.2 with position := offset })
    else some (false, second.2)
  else
    match _hlabel : first.2.addLabel datagram first.1 with
    | none => none
    | some (true, t) => if first.1 ≠ 0 then readLoop datagram depth first.1 t else some (true, t)
    | some (false, t) => some (false, t)
termination_by domainMaxRedirection + 1 - depth + (domainMaxLength - s.nameLength)
decreasing_by
  · simp only [read8_nameLength]
    omega
  · have hname := read8_nameLength datagram u8Len s
    have hlonger : (s.read8 datagram u8Len).2.nameLength < t.nameLength ∧
      (s.read8 datagram u8Len).2.nameLength < domainMaxLength := addLabel_nameLength _hlabel
    omega

def clear (s : DomainReader) : DomainReader :=
  { s with acName := ⟨List.replicate domainMaxLength 0, List.length_replicate⟩, nameLength := 0 }

def readRRDomain (datagram : List UInt8) (s : DomainReader) : Option (Bool × DomainReader) :=
  s.clear.readLoop datagram 0 0

def name (s : DomainReader) : List UInt8 := s.acName.bytes.take s.nameLength

end DomainReader

/-- The name at a place of a datagram in its uncompressed encoding, with where its first part ends:
labels of at most 63 bytes up to the empty one or a pointer, and no more pointers than are
allowed. -/
inductive NameAt (datagram : List UInt8) : Nat → Nat → List UInt8 → Nat → Prop
  | root {depth start : Nat} (byte : datagram[start]? = some 0) :
      NameAt datagram depth start [0] (start + 1)
  | label {depth start stop : Nat} {length : UInt8} {text rest : List UInt8}
      (byte : datagram[start]? = some length) (pos : length ≠ 0) (short : length.toNat < 64)
      (part : (datagram.drop (start + 1)).take length.toNat = text)
      (whole : text.length = length.toNat)
      (next : NameAt datagram depth (start + 1 + length.toNat) rest stop) :
      NameAt datagram depth start (length :: text ++ rest) stop
  | pointer {depth start stop : Nat} {high low : UInt8} {name : List UInt8}
      (byte : datagram[start]? = some high) (mark : 192 ≤ high.toNat)
      (second : datagram[start + 1]? = some low)
      (inside : (high.toNat - 192) * 256 + low.toNat < datagram.length)
      (few : depth < domainMaxRedirection)
      (target : NameAt datagram (depth + 1) ((high.toNat - 192) * 256 + low.toNat) name stop) :
      NameAt datagram depth start name (start + 2)

/-- What is taken for a name. The flag tells whether something else than a name is taken for one:
nothing at all for the empty label, half of a pointer or another mark for a pointer. Before the
first length byte of a part there is no length. -/
inductive Taken (datagram : List UInt8) : Bool → Bool → Nat → Nat → List UInt8 → Nat → Prop
  | root {first : Bool} {depth start : Nat} (byte : datagram[start]? = some 0) :
      Taken datagram false first depth start [0] (start + 1)
  | nothing {depth start : Nat} (byte : datagram[start]? = none) :
      Taken datagram true true depth start [0] start
  | label {slip first : Bool} {depth start stop : Nat} {length : UInt8} {text rest : List UInt8}
      (byte : datagram[start]? = some length) (pos : length ≠ 0) (short : length.toNat < 64)
      (part : (datagram.drop (start + 1)).take length.toNat = text)
      (whole : text.length = length.toNat)
      (next : Taken datagram slip false depth (start + 1 + length.toNat) rest stop) :
      Taken datagram slip first depth start (length :: text ++ rest) stop
  | pointer {slip first : Bool} {depth start stop : Nat} {high low : UInt8} {name : List UInt8}
      (byte : datagram[start]? = some high) (mark : 64 ≤ high.toNat)
      (second : datagram[start + 1]? = some low)
      (inside : high.toNat % 64 * 256 + low.toNat ≤ datagram.length)
      (few : depth < domainMaxRedirection)
      (target : Taken datagram slip true (depth + 1) (high.toNat % 64 * 256 + low.toNat)
        name stop) :
      Taken datagram (slip || high.toNat < 192) first depth start name (start + 2)
  | half {slip first : Bool} {depth start stop : Nat} {high : UInt8} {name : List UInt8}
      (byte : datagram[start]? = some high) (mark : 64 ≤ high.toNat)
      (second : datagram[start + 1]? = none)
      (inside : high.toNat % 64 * 256 + high.toNat ≤ datagram.length)
      (few : depth < domainMaxRedirection)
      (target : Taken datagram slip true (depth + 1) (high.toNat % 64 * 256 + high.toNat)
        name stop) :
      Taken datagram true first depth start name (start + 1)

theorem NameBuffer.write_spec (buffer : NameBuffer) (start : Nat) (text : List UInt8)
    (h : start + text.length ≤ domainMaxLength) :
    ∃ buffer', buffer.write start text = some buffer' ∧
      buffer'.bytes.take (start + text.length) = buffer.bytes.take start ++ text := by
  have hlength : (buffer.bytes.take start ++ text).length = start + text.length := by
    rw [List.length_append, List.length_take, buffer.size, Nat.min_eq_left (by omega)]
  refine ⟨_, dif_pos h, ?_⟩
  dsimp only
  rw [List.take_left' hlength]

theorem mark_spec : ∀ n < 256, (UInt8.ofNat n &&& domainCompressMark = 0 ↔ n < 64) ∧
    (UInt8.ofNat n &&& ~~~domainCompressMark).toNat = n % 64 := by
  decide +kernel

theorem marked_iff (byte : UInt8) : byte &&& domainCompressMark ≠ 0 ↔ 64 ≤ byte.toNat := by
  have h := (mark_spec byte.toNat byte.toNat_lt).1
  rw [UInt8.ofNat_toNat] at h
  rw [ne_eq, h, Nat.not_lt]

theorem unmarked (byte : UInt8) : (byte &&& ~~~domainCompressMark).toNat = byte.toNat % 64 := by
  have h := (mark_spec byte.toNat byte.toNat_lt).2
  rwa [UInt8.ofNat_toNat] at h

section Loop
variable {datagram : List UInt8} {depth : Nat} {u8Len : UInt8} {s : DomainReader}

theorem read8_some {byte : UInt8} (h : datagram[s.position]? = some byte) (value : UInt8) :
    s.read8 datagram value = (byte, { s with position := s.position + 1 }) := by
  unfold DomainReader.read8
  rw [h]

theorem read8_none (h : datagram[s.position]? = none) (value : UInt8) :
    s.read8 datagram value = (value, s) := by
  unfold DomainReader.read8
  rw [h]

theorem addLabel_spec (datagram : List UInt8) (length : UInt8) (s : DomainReader) :
    ∃ bResult t, s.addLabel datagram length = some (bResult, t) ∧
      (bResult = true ↔ s.nameLength + length.toNat < domainMaxLength ∧
        ((datagram.drop s.position).take length.toNat).length = length.toNat) ∧
      (bResult = true → t.nameLength = s.nameLength + 1 + length.toNat ∧
        t.position = s.position + length.toNat ∧
        t.name = s.name ++ length :: (datagram.drop s.position).take length.toNat) := by
  unfold DomainReader.addLabel
  by_cases hroom : s.nameLength + length.toNat < domainMaxLength
  · rw [if_pos hroom]
    obtain ⟨acName, hwrite, hbytes⟩ := s.acName.write_spec s.nameLength [length] (by
      rw [List.length_singleton]
      omega)
    rw [hwrite]
    dsimp only
    rw [List.length_singleton] at hbytes
    by_cases hzero : length = 0
    · subst hzero
      rw [if_pos rfl]
      refine ⟨true, _, rfl, iff_of_true rfl ⟨hroom, rfl⟩, fun _ => ⟨rfl, rfl, ?_⟩⟩
      exact hbytes
    · rw [if_neg hzero]
      have htext : ((datagram.drop s.position).take length.toNat).length ≤ length.toNat :=
        List.length_take_le _ _
      obtain ⟨acName', hwrite', hbytes'⟩ := acName.write_spec (s.nameLength + 1)
        ((datagram.drop s.position).take length.toNat) (by omega)
      rw [hwrite']
      dsimp only
      by_cases hwhole : ((datagram.drop s.position).take length.toNat).length = length.toNat
      · rw [if_pos hwhole]
        refine ⟨true, _, rfl, iff_of_true rfl ⟨hroom, hwhole⟩, fun _ => ⟨rfl, rfl, ?_⟩⟩
        rw [hwhole, hbytes] at hbytes'
        rw [DomainReader.name, DomainReader.name, hbytes', List.append_assoc]
        rfl
      · rw [if_neg hwhole]
        exact ⟨false, _, rfl, iff_of_false Bool.noConfusion fun h => hwhole h.2,
          fun h => Bool.noConfusion h⟩
  · rw [if_neg hroom]
    exact ⟨false, s, rfl, iff_of_false Bool.noConfusion fun h => hroom h.1,
      fun h => Bool.noConfusion h⟩

theorem readLoop_label {byte : UInt8} {s' : DomainReader}
    (hread : s.read8 datagram u8Len = (byte, s')) (hshort : byte.toNat < 64) :
    s.readLoop datagram depth u8Len =
      match s'.addLabel datagram byte with
      | none => none
      | some (true, t) => if byte ≠ 0 then t.readLoop datagram depth byte else some (true, t)
      | some (false, t) => some (false, t) := by
  rw [DomainReader.readLoop]
  simp only [hread]
  rw [if_neg fun hmark => Nat.not_lt.mpr ((marked_iff byte).mp hmark) hshort]
  split
  · rename_i h
    rw [hread] at h
    rw [h]
  · rename_i h
    rw [hread] at h
    rw [h]
  · rename_i h
    rw [hread] at h
    rw [h]

theorem readLoop_pointer {high low : UInt8} {s' s'' : DomainReader}
    (hread : s.read8 datagram u8Len = (high, s')) (hsecond : s'.read8 datagram high = (low, s''))
    (hmark : 64 ≤ high.toNat) :
    s.readLoop datagram depth u8Len =
      if high.toNat % 64 * 256 + low.toNat ≤ datagram.length then
        if depth < domainMaxRedirection then
          match { s'' with position := high.toNat % 64 * 256 + low.toNat }.readLoop datagram
            (depth + 1) 0 with
          | none => none
          | some (true, t) => some (true, { t with position := s''.position })
          | some (false, t) => some (false, t)
        else some (false, { s'' with position := high.toNat % 64 * 256 + low.toNat })
      else some (false, s'') := by
  rw [DomainReader.readLoop]
  simp only [hread, hsecond, unmarked]
  rw [if_pos ((marked_iff high).mpr hmark)]

theorem readLoop_redirect {high low : UInt8} {s' s'' : DomainReader}
    (hread : s.read8 datagram u8Len = (high, s')) (hsecond : s'.read8 datagram high = (low, s''))
    (hmark : 64 ≤ high.toNat) (hlength : s''.nameLength = s.nameLength) (hname : s''.name = s.name)
    (htarget : depth < domainMaxRedirection → ∃ bResult t,
      { s'' with position := high.toNat % 64 * 256 + low.toNat }.readLoop datagram (depth + 1) 0 =
          some (bResult, t) ∧
        (bResult = true → ∃ slip name, Taken datagram slip true (depth + 1)
            (high.toNat % 64 * 256 + low.toNat) name t.position ∧
          t.name = s''.name ++ name ∧ t.nameLength = s''.nameLength + name.length ∧
          t.nameLength ≤ domainMaxLength)) :
    ∃ bResult t, s.readLoop datagram depth u8Len = some (bResult, t) ∧
      (bResult = true → ∃ slip name stop, high.toNat % 64 * 256 + low.toNat ≤ datagram.length ∧
        depth < domainMaxRedirection ∧
        Taken datagram slip true (depth + 1) (high.toNat % 64 * 256 + low.toNat) name stop ∧
        t.position = s''.position ∧ t.name = s.name ++ name ∧
        t.nameLength = s.nameLength + name.length ∧ t.nameLength ≤ domainMaxLength) := by
  rw [readLoop_pointer hread hsecond hmark]
  split
  · rename_i hinside
    split
    · rename_i hfew
      obtain ⟨bResult, t, hloop, hrest⟩ := htarget hfew
      rw [hloop]
      cases bResult with
      | false => exact ⟨false, t, rfl, fun h => Bool.noConfusion h⟩
      | true =>
        obtain ⟨slip, name, htaken, hname', hlength', hfits⟩ := hrest rfl
        exact ⟨true, _, rfl, fun _ => ⟨slip, name, t.position, hinside, hfew, htaken, rfl,
          hname ▸ hname', hlength ▸ hlength', hfits⟩⟩
    · exact ⟨false, _, rfl, fun h => Bool.noConfusion h⟩
  · exact ⟨false, _, rfl, fun h => Bool.noConfusion h⟩

theorem readLoop_sound (n : Nat) : ∀ {depth : Nat} {u8Len : UInt8} {s : DomainReader},
    domainMaxRedirection + 1 - depth + (domainMaxLength - s.nameLength) < n → u8Len.toNat < 64 →
    ∃ bResult t, s.readLoop datagram depth u8Len = some (bResult, t) ∧
      (bResult = true → ∃ slip name,
        Taken datagram slip (u8Len = 0) depth s.position name t.position ∧
        t.name = s.name ++ name ∧ t.nameLength = s.nameLength + name.length ∧
        t.nameLength ≤ domainMaxLength) := by
  induction n with
  | zero => exact fun hmeasure => absurd hmeasure (Nat.not_lt_zero _)
  | succ n ih =>
    intro depth u8Len s hmeasure hshort
    cases hbyte : datagram[s.position]? with
    | none =>
      -- the length is the old one, and there is nothing behind it
      rw [readLoop_label (read8_none hbyte u8Len) hshort]
      obtain ⟨bResult, t, hlabel, hresult, hadded⟩ := addLabel_spec datagram u8Len s
      rw [hlabel]
      cases bResult with
      | false => exact ⟨false, t, rfl, fun h => Bool.noConfusion h⟩
      | true =>
        obtain ⟨hroom, hwhole⟩ := hresult.mp rfl
        obtain ⟨hlength, hposition, hname⟩ := hadded rfl
        have hbehind : datagram.length ≤ s.position := List.getElem?_eq_none_iff.mp hbyte
        rw [List.drop_of_length_le hbehind, List.take_nil] at hwhole hname
        have hzero : u8Len = 0 := UInt8.toNat_inj.mp hwhole.symm
        subst hzero
        refine ⟨true, t, rfl, fun _ => ⟨true, [0], ?_, hname, hlength, ?_⟩⟩
        · rw [hposition]
          exact Taken.nothing hbyte
        · rw [hlength]
          exact hroom
    | some byte =>
      rcases Nat.lt_or_ge byte.toNat 64 with hless | hmark
      · rw [readLoop_label (read8_some hbyte u8Len) hless]
        obtain ⟨bResult, t, hlabel, hresult, hadded⟩ := addLabel_spec datagram byte
          { s with position := s.position + 1 }
        rw [hlabel]
        cases bResult with
        | false => exact ⟨false, t, rfl, fun h => Bool.noConfusion h⟩
        | true =>
          obtain ⟨hroom, hwhole⟩ := hresult.mp rfl
          obtain ⟨hlength, hposition, hname⟩ := hadded rfl
          dsimp only at hroom hwhole hlength hposition hname ⊢
          by_cases hzero : byte = 0
          · subst hzero
            rw [if_neg (fun h => h rfl)]
            refine ⟨true, t, rfl, fun _ => ⟨false, [0], ?_, hname, hlength, ?_⟩⟩
            · rw [hposition]
              exact Taken.root hbyte
            · rw [hlength]
              exact hroom
          · rw [if_pos hzero]
            obtain ⟨bResult, t', hloop, hrest⟩ := @ih depth byte t (by omega) hless
            refine ⟨bResult, t', hloop, fun htrue => ?_⟩
            obtain ⟨slip, rest, htaken, hname', hlength', hfits⟩ := hrest htrue
            rw [decide_eq_false hzero, hposition] at htaken
            refine ⟨slip, _, Taken.label hbyte hzero hless rfl hwhole htaken, ?_, ?_, hfits⟩
            · rw [hname', hname, List.append_assoc]
              rfl
            · rw [hlength', hlength, List.length_append, List.length_cons, hwhole]
              omega
      · have hnext : depth < domainMaxRedirection →
            domainMaxRedirection + 1 - (depth + 1) + (domainMaxLength - s.nameLength) < n := by
          intro hfew
          omega
        cases hsecond : datagram[s.position + 1]? with
        | some low =>
          obtain ⟨bResult, t, hloop, hrest⟩ := @readLoop_redirect datagram depth u8Len s byte low
            { s with position := s.position + 1 } { s with position := s.position + 2 }
            (read8_some hbyte u8Len) (@read8_some datagram { s with position := s.position + 1 } low
              hsecond byte) hmark rfl rfl fun hfew => @ih (depth + 1) 0
              { s with position := byte.toNat % 64 * 256 + low.toNat } (hnext hfew) (by decide)
          refine ⟨bResult, t, hloop, fun htrue => ?_⟩
          obtain ⟨slip, name, stop, hinside, hfew, htaken, hposition, hadded⟩ := hrest htrue
          rw [hposition]
          exact ⟨_, name, Taken.pointer hbyte hmark hsecond hinside hfew htaken, hadded⟩
        | none =>
          -- the second byte is the first one again
          obtain ⟨bResult, t, hloop, hrest⟩ := @readLoop_redirect datagram depth u8Len s byte byte
            { s with position := s.position + 1 } { s with position := s.position + 1 }
            (read8_some hbyte u8Len) (@read8_none datagram { s with position := s.position + 1 }
              hsecond byte) hmark rfl rfl fun hfew => @ih (depth + 1) 0
              { s with position := byte.toNat % 64 * 256 + byte.toNat } (hnext hfew) (by decide)
          refine ⟨bResult, t, hloop, fun htrue => ?_⟩
          obtain ⟨slip, name, stop, hinside, hfew, htaken, hposition, hadded⟩ := hrest htrue
          rw [hposition]
          exact ⟨_, name, Taken.half hbyte hmark hsecond hinside hfew htaken, hadded⟩

theorem readLoop_complete {slip first : Bool} {start stop : Nat} {name : List UInt8}
    (htaken : Taken datagram slip first depth start name stop) :
    ∀ {u8Len : UInt8} {s : DomainReader}, s.position = start → first = decide (u8Len = 0) →
      u8Len.toNat < 64 → s.nameLength + name.length ≤ domainMaxLength →
      ∃ t, s.readLoop datagram depth u8Len = some (true, t) := by
  induction htaken with
  | root byte =>
    intro u8Len s hstart _ _ hfits
    subst hstart
    rw [readLoop_label (read8_some byte u8Len) (by decide)]
    obtain ⟨bResult, t, hlabel, hresult, -⟩ := addLabel_spec datagram 0
      { s with position := s.position + 1 }
    rw [hlabel, hresult.mpr ⟨hfits, rfl⟩]
    exact ⟨t, rfl⟩
  | nothing byte =>
    intro u8Len s hstart hfirst hshort hfits
    subst hstart
    have hzero : u8Len = 0 := of_decide_eq_true hfirst.symm
    subst hzero
    rw [readLoop_label (read8_none byte 0) (by decide)]
    obtain ⟨bResult, t, hlabel, hresult, -⟩ := addLabel_spec datagram 0 s
    rw [hlabel, hresult.mpr ⟨hfits, rfl⟩]
    exact ⟨t, rfl⟩
  | @label slip first depth start stop length text rest byte pos short part whole next ih =>
    intro u8Len s hstart _ _ hfits
    subst hstart
    rw [List.length_append, List.length_cons, whole] at hfits
    rw [readLoop_label (read8_some byte u8Len) short]
    obtain ⟨bResult, t, hlabel, hresult, hadded⟩ := addLabel_spec datagram length
      { s with position := s.position + 1 }
    have htrue := hresult.mpr ⟨by dsimp only; omega, by dsimp only; rw [part, whole]⟩
    obtain ⟨hlength, hposition, -⟩ := hadded htrue
    rw [hlabel, htrue]
    dsimp only at hlength hposition ⊢
    rw [if_pos pos]
    exact ih hposition (decide_eq_false pos).symm short (by omega)
  | @pointer slip first depth start stop high low name byte mark second inside few target ih =>
    intro u8Len s hstart _ _ hfits
    subst hstart
    rw [@readLoop_pointer datagram depth u8Len s high low { s with position := s.position + 1 }
      { s with position := s.position + 2 } (read8_some byte u8Len)
      (@read8_some datagram { s with position := s.position + 1 } low second high) mark,
      if_pos inside, if_pos few]
    obtain ⟨t, hloop⟩ := @ih 0 { s with position := high.toNat % 64 * 256 + low.toNat } rfl
      (decide_eq_true rfl).symm (by decide) hfits
    rw [hloop]
    exact ⟨_, rfl⟩
  | @half slip first depth start stop high name byte mark second inside few target ih =>
    intro u8Len s hstart _ _ hfits
    subst hstart
    rw [@readLoop_pointer datagram depth u8Len s high high { s with position := s.position + 1 }
      { s with position := s.position + 1 } (read8_some byte u8Len)
      (@read8_none datagram { s with position := s.position + 1 } second high) mark,
      if_pos inside, if_pos few]
    obtain ⟨t, hloop⟩ := @ih 0 { s with position := high.toNat % 64 * 256 + high.toNat } rfl
      (decide_eq_true rfl).symm (by decide) hfits
    rw [hloop]
    exact ⟨_, rfl⟩

end Loop

section Names
variable {datagram : List UInt8} {slip first : Bool} {depth start stop : Nat} {name : List UInt8}

theorem byte_absent {i : Nat} {byte : UInt8} (h : datagram[i]? = some byte)
    (h' : datagram[i]? = none) : False :=
  Option.some_ne_none byte (h.symm.trans h')

theorem Taken.unique (h : Taken datagram slip first depth start name stop) :
    ∀ {slip' : Bool} {name' : List UInt8} {stop' : Nat},
      Taken datagram slip' first depth start name' stop' → slip = slip' ∧ name = name' := by
  induction h with
  | root byte =>
    intro slip' name' stop' h'
    cases h' with
    | root => exact ⟨rfl, rfl⟩
    | nothing byte' => exact (byte_absent byte byte').elim
    | label byte' pos => exact absurd (Option.some.inj (byte.symm.trans byte')).symm pos
    | pointer byte' mark =>
      cases byte.symm.trans byte'
      exact absurd mark (by decide)
    | half byte' mark =>
      cases byte.symm.trans byte'
      exact absurd mark (by decide)
  | nothing byte =>
    intro slip' name' stop' h'
    cases h' with
    | root byte' => exact (byte_absent byte' byte).elim
    | nothing => exact ⟨rfl, rfl⟩
    | label byte' => exact (byte_absent byte' byte).elim
    | pointer byte' => exact (byte_absent byte' byte).elim
    | half byte' => exact (byte_absent byte' byte).elim
  | label byte pos short part whole next ih =>
    intro slip' name' stop' h'
    cases h' with
    | root byte' => exact absurd (Option.some.inj (byte.symm.trans byte')) pos
    | nothing byte' => exact (byte_absent byte byte').elim
    | label byte' pos' short' part' whole' next' =>
      cases byte.symm.trans byte'
      cases part.symm.trans part'
      obtain ⟨hslip, hname⟩ := ih next'
      exact ⟨hslip, by rw [hname]⟩
    | pointer byte' mark =>
      cases byte.symm.trans byte'
      exact absurd short (Nat.not_lt.mpr mark)
    | half byte' mark =>
      cases byte.symm.trans byte'
      exact absurd short (Nat.not_lt.mpr mark)
  | pointer byte mark second inside few target ih =>
    intro slip' name' stop' h'
    cases h' with
    | root byte' =>
      cases byte.symm.trans byte'
      exact absurd mark (by decide)
    | nothing byte' => exact (byte_absent byte byte').elim
    | label byte' pos' short =>
      cases byte.symm.trans byte'
      exact absurd short (Nat.not_lt.mpr mark)
    | pointer byte' mark' second' inside' few' target' =>
      cases byte.symm.trans byte'
      cases second.symm.trans second'
      obtain ⟨hslip, hname⟩ := ih target'
      exact ⟨by rw [hslip], hname⟩
    | half byte' mark' second' => exact (byte_absent second second').elim
  | half byte mark second inside few target ih =>
    intro slip' name' stop' h'
    cases h' with
    | root byte' =>
      cases byte.symm.trans byte'
      exact absurd mark (by decide)
    | nothing byte' => exact (byte_absent byte byte').elim
    | label byte' pos' short =>
      cases byte.symm.trans byte'
      exact absurd short (Nat.not_lt.mpr mark)
    | pointer byte' mark' second' => exact (byte_absent second' second).elim
    | half byte' mark' second' inside' few' target' =>
      cases byte.symm.trans byte'
      exact ⟨rfl, (ih target').2⟩

theorem Taken.inside (h : Taken datagram slip first depth start name stop) (hslip : slip = false) :
    start < datagram.length := by
  cases h with
  | nothing => exact Bool.noConfusion hslip
  | root byte => exact (List.getElem?_eq_some_iff.mp byte).1
  | label byte => exact (List.getElem?_eq_some_iff.mp byte).1
  | pointer byte => exact (List.getElem?_eq_some_iff.mp byte).1
  | half => exact Bool.noConfusion hslip

theorem NameAt.taken (h : NameAt datagram depth start name stop) :
    ∀ first : Bool, Taken datagram false first depth start name stop := by
  induction h with
  | root byte => exact fun _ => .root byte
  | label byte pos short part whole next ih =>
    exact fun _ => .label byte pos short part whole (ih false)
  | @pointer depth start stop high low name byte mark second inside few target ih =>
    intro first
    have hmod : high.toNat % 64 = high.toNat - 192 := by
      have := high.toNat_lt
      omega
    have hslip : (false || decide (high.toNat < 192)) = false := by
      rw [decide_eq_false (Nat.not_lt.mpr mark), Bool.false_or]
    rw [← hslip]
    exact .pointer byte (by omega) second (by omega) few (hmod ▸ ih true)

theorem Taken.nameAt (h : Taken datagram slip first depth start name stop) :
    slip = false → NameAt datagram depth start name stop := by
  induction h with
  | root byte => exact fun _ => .root byte
  | nothing => exact fun hslip => Bool.noConfusion hslip
  | label byte pos short part whole next ih =>
    exact fun hslip => .label byte pos short part whole (ih hslip)
  | @pointer slip first depth start stop high low name byte mark second inside few target ih =>
    intro hslip
    obtain ⟨htarget, hhigh⟩ := Bool.or_eq_false_iff.mp hslip
    have hmark : 192 ≤ high.toNat := Nat.not_lt.mp (of_decide_eq_false hhigh)
    have hmod : high.toNat % 64 = high.toNat - 192 := by
      have := high.toNat_lt
      omega
    subst htarget
    exact .pointer byte hmark second (hmod ▸ target.inside rfl) few (hmod ▸ ih rfl)
  | half => exact fun hslip => Bool.noConfusion hslip

end Names

/-- `_readRRDomain` at a place of a datagram, as it has to be: it comes to its end and writes inside
of the buffer, it finds the names of at most 256 bytes and nothing else, and it stops behind the
first part of the name. -/
def DomainReader.Exact (datagram : List UInt8) (s : DomainReader) : Prop :=
  ∃ bResult t, s.readRRDomain datagram = some (bResult, t) ∧
    (bResult = true ↔ ∃ name stop, NameAt datagram 0 s.position name stop ∧
      name.length ≤ domainMaxLength) ∧
    (bResult = true → t.nameLength ≤ domainMaxLength ∧
      NameAt datagram 0 s.position t.name t.position)

/-- It is so exactly where nothing else that fits is taken for a name. -/
theorem readRRDomain_exact_iff (datagram : List UInt8) (s : DomainReader) :
    s.Exact datagram ↔ ¬ ∃ name stop, Taken datagram true true 0 s.position name stop ∧
      name.length ≤ domainMaxLength := by
  have hposition : s.clear.position = s.position := rfl
  have hempty : s.clear.name = [] := List.take_zero
  obtain ⟨bResult, t, hloop, hsound⟩ := @readLoop_sound datagram _ 0 0 s.clear
    (Nat.lt_succ_self _) (by decide)
  have hcomplete : ∀ {slip name stop}, Taken datagram slip true 0 s.position name stop →
      name.length ≤ domainMaxLength → ∃ t, s.readRRDomain datagram = some (true, t) :=
    fun htaken hfits => readLoop_complete htaken hposition rfl (by decide)
      (Nat.le_trans (Nat.le_of_eq (Nat.zero_add _)) hfits)
  constructor
  · rintro ⟨found, t', hread, hnames, -⟩ ⟨name, stop, htaken, hfits⟩
    obtain ⟨t'', hall⟩ := hcomplete htaken hfits
    have hfound : found = true := by
      cases hread.symm.trans hall
      rfl
    obtain ⟨name', stop', hname, -⟩ := hnames.mp hfound
    exact Bool.noConfusion (htaken.unique (hname.taken true)).1
  · intro hnone
    -- what was read is a name
    have hread : bResult = true → t.nameLength ≤ domainMaxLength ∧
        NameAt datagram 0 s.position t.name t.position ∧ t.name.length ≤ domainMaxLength := by
      intro htrue
      obtain ⟨slip, name, htaken, hname, hlength, hfits⟩ := hsound htrue
      have hcount : t.nameLength = name.length := hlength.trans (Nat.zero_add _)
      rw [hempty, List.nil_append] at hname
      cases slip with
      | true => exact absurd ⟨name, t.position, htaken, hcount ▸ hfits⟩ hnone
      | false => exact ⟨hfits, hname ▸ htaken.nameAt rfl, hname ▸ hcount ▸ hfits⟩
    refine ⟨bResult, t, hloop, ⟨fun htrue => ?_, ?_⟩,
      fun htrue => ⟨(hread htrue).1, (hread htrue).2.1⟩⟩
    · exact ⟨t.name, t.position, (hread htrue).2⟩
    · rintro ⟨name, stop, hname, hfits⟩
      obtain ⟨t', hall⟩ := hcomplete (hname.taken true) hfits
      cases hloop.symm.trans hall
      rfl

def unread : DomainReader :=
  ⟨⟨List.replicate domainMaxLength 0, List.length_replicate⟩, 0, 0⟩

theorem pointerToEnd_read : ¬ ∀ (datagram : List UInt8) (s : DomainReader), s.Exact datagram := by
  intro hall
  obtain ⟨bResult, t, hread, hnames, -⟩ := hall [192, 2] unread
  have htaken : Taken [192, 2] true true 0 0 [0] 2 :=
    @Taken.pointer [192, 2] true true 0 0 2 192 2 [0] rfl (by decide) rfl (by decide) (by decide)
      (.nothing rfl)
  obtain ⟨t', hcomplete⟩ := @readLoop_complete [192, 2] 0 true true 0 2 [0] htaken 0 unread.clear
    rfl rfl (by decide) (by decide)
  have hfound : bResult = true := by
    cases hread.symm.trans hcomplete
    rfl
  obtain ⟨name, stop, hname, -⟩ := hnames.mp hfound
  cases hname with
  | root byte => exact absurd byte (by decide)
  | label byte pos short =>
    cases byte
    exact absurd short (by decide)
  | pointer byte mark second inside =>
    cases byte
    cases second
    exact absurd inside (by decide)

end Esp8266.Mdns
