import Mathlib.Data.List.TakeWhile
import Esp8266.Llmnr.Responder

/-! Which datagrams get the answer that they have to get. -/
namespace Esp8266.Llmnr
open Esp8266.Ctype

/-- What has to hold of the bytes behind an accepted header, with a label of the host name's length:
in lower case it is the host name with a question for an address, with capitals it is not the host
name with a complete question, and cut off it isn't made the host name by what is in the buffer. -/
def Plain (host : HostName) (stack : Nat → UInt8) (label : List UInt8) : Prop :=
  let name := label.take host.text.length
  let fields := parseFields (label.drop host.text.length)
  if host.text.length ≤ label.length then
    if name = host.lower then fields = some (typeA, classIN)
    else name.map tolower = host.lower → fields = none
  else (readS stack host.text.length label).1 ≠ host.lower

def Proper (host : HostName) (stack : Nat → UInt8) (datagram : List UInt8) : Prop :=
  ∀ id length label, acceptedHeader datagram = some (id, length :: label) →
    length.toNat = host.text.length → Plain host stack label

section Names
variable (host : HostName)

theorem lower_length : host.lower.length = host.text.length := List.length_map _

theorem tolower_tolower (c : UInt8) : tolower (tolower c) = tolower c := by
  unfold tolower
  grind

theorem lower_lower : host.lower.map tolower = host.lower := by
  unfold HostName.lower
  rw [List.map_map]
  exact List.map_congr_left fun c _ => tolower_tolower c

theorem lower_nonzero : ∀ c ∈ host.lower, c ≠ 0 := by
  intro c hc
  obtain ⟨d, hd, rfl⟩ := List.mem_map.mp hc
  rw [Ne, tolower_eq_zero]
  rintro rfl
  exact absurd (host.plain 0 hd) (by decide)

end Names

section Question
variable {host : HostName} {interfaces : Interfaces} {stack : Nat → UInt8} {id : UInt16}

theorem cString_eq {text name : List UInt8} (hlength : text.length = name.length)
    (hname : ∀ c ∈ name, c ≠ 0) : name = cString text ↔ text = name := by
  unfold cString
  constructor
  · intro h
    have hall : text.takeWhile (· ≠ 0) = text :=
      (List.takeWhile_prefix _).eq_of_length (h ▸ hlength.symm)
    rw [← hall, ← h]
  · rintro rfl
    symm
    rw [List.takeWhile_eq_self_iff]
    intro c hc
    exact decide_eq_true (hname c hc)

theorem length_readS (stack : Nat → UInt8) (size : Nat) (data : List UInt8) :
    (readS stack size data).1.length = size := by
  simp [readS]
  omega

theorem readS_of_le {size : Nat} {data : List UInt8} (h : size ≤ data.length) :
    readS stack size data = (data.take size, data.drop size) := by
  simp [readS, Nat.sub_eq_zero_of_le h]

theorem short_toNat (high low : UInt8) : (short high low).toNat = 256 * high.toNat + low.toNat := by
  have hhigh := high.toNat_lt
  have hlow := low.toNat_lt
  have hshift : high.toNat <<< 8 % 65536 = high.toNat <<< 8 := by
    rw [Nat.shiftLeft_eq]
    omega
  unfold short
  simp only [UInt16.toNat_or, UInt16.toNat_shiftLeft, UInt8.toNat_toUInt16]
  simp only [UInt16.toNat_ofNat, Nat.reducePow, Nat.reduceMod, hshift]
  rw [← Nat.shiftLeft_add_eq_or_of_lt hlow, Nat.shiftLeft_eq]
  omega

theorem short_bytes (n : UInt16) : short (highByte n) (lowByte n) = n := by
  have hn := n.toNat_lt
  apply UInt16.toNat_inj.mp
  rw [short_toNat]
  simp [highByte, lowByte, Nat.shiftRight_eq_div_pow]
  omega

theorem question_inj {name : List UInt8} {qtype qclass qtype' qclass' : UInt16}
    (h : question name qtype qclass = question name qtype' qclass') :
    qtype = qtype' ∧ qclass = qclass' := by
  unfold question at h
  have hbytes := List.append_cancel_left h
  simp only [List.cons.injEq, and_true] at hbytes
  obtain ⟨-, htype, htype', hclass, hclass'⟩ := hbytes
  rw [← short_bytes qtype, ← short_bytes qtype', ← short_bytes qclass, ← short_bytes qclass', htype,
    htype', hclass, hclass']
  exact ⟨rfl, rfl⟩

theorem respond_iff {name : List UInt8} {qtype qclass : UInt16} :
    respond interfaces id name qtype qclass = reply interfaces id ⟨name, qtype, qclass⟩ ↔
      qtype = typeA ∧ qclass = classIN := by
  unfold respond reply
  by_cases h : qtype = typeA ∧ qclass = classIN
  · simp [h]
  · simp only [h, if_false, iff_false]
    intro hsame
    obtain ⟨htype, hclass⟩ := question_inj (List.append_cancel_left hsame)
    exact h ⟨htype.symm, hclass.symm⟩

theorem parseFields_some {tail : List UInt8} {fields : UInt16 × UInt16}
    (h : parseFields tail = some fields) : tail ≠ [] ∧
      read16 (read8 tail).2 = (fields.1, (read16 (read8 tail).2).2) ∧
      (read16 (read16 (read8 tail).2).2).1 = fields.2 := by
  unfold parseFields at h
  split at h
  · cases h
    exact ⟨List.cons_ne_nil _ _, rfl, rfl⟩
  · cases h

theorem parseQuestion_length {length : UInt8} {rest : List UInt8} {asked : Question}
    (h : parseQuestion (length :: rest) = some asked) : asked.name.length = length.toNat := by
  obtain ⟨fields, hfields, rfl⟩ := Option.map_eq_some_iff.mp h
  have htail := List.length_pos_iff.mpr (parseFields_some hfields).1
  rw [List.length_drop] at htail
  rw [List.length_take]
  omega

theorem name_length {name : List UInt8} (h : name.map tolower = host.lower) :
    name.length = host.text.length := by
  rw [← lower_length host, ← h, List.length_map]

theorem processQuestion_length {length : UInt8} {rest : List UInt8}
    (h : length.toNat ≠ host.text.length) :
    processQuestion host.lower interfaces stack id (length :: rest) = none :=
  if_pos ((lower_length host).symm ▸ h)

theorem readName {length : UInt8} {rest : List UInt8} (h : length.toNat = host.text.length) :
    processQuestion host.lower interfaces stack id (length :: rest) =
      if (readS stack host.text.length rest).1 = host.lower then
        let tail := (readS stack host.text.length rest).2
        let qtype := read16 (read8 tail).2
        some (respond interfaces id host.lower qtype.1 (read16 qtype.2).1)
      else none := by
  have hname := @cString_eq (readS stack host.text.length rest).1 host.lower
    ((length_readS _ _ _).trans (lower_length host).symm) (lower_nonzero host)
  have hlength : length.toNat = host.lower.length := h.trans (lower_length host).symm
  unfold processQuestion
  simp only [read8, read, Option.getD_some, h, lower_length]
  by_cases hread : (readS stack host.text.length rest).1 = host.lower
  · rw [if_neg (Classical.not_not.mpr rfl), if_neg (Classical.not_not.mpr (hname.mpr hread)),
      if_pos hread, hread]
  · rw [if_neg (Classical.not_not.mpr rfl), if_pos fun h => hread (hname.mp h), if_neg hread]

end Question

theorem question_iff (host : HostName) (interfaces : Interfaces) (stack : Nat → UInt8) (id : UInt16)
    {length : UInt8} {rest : List UInt8} (h : length.toNat = host.text.length) :
    processQuestion host.lower interfaces stack id (length :: rest) =
      expectedReply host interfaces id (length :: rest) ↔ Plain host stack rest := by
  rw [readName h]
  unfold expectedReply Plain
  rw [parseQuestion, h]
  by_cases hcut : host.text.length ≤ rest.length
  · rw [if_pos hcut, readS_of_le hcut]
    obtain ⟨tail, htail⟩ : ∃ tail, tail = rest.drop host.text.length := ⟨_, rfl⟩
    simp only [← htail]
    by_cases hname : rest.take host.text.length = host.lower
    · rw [if_pos hname, if_pos hname, hname]
      cases hfields : parseFields tail with
      | none => simp
      | some fields =>
        obtain ⟨-, htype, hclass⟩ := parseFields_some hfields
        simp only [Option.map_some, Option.bind_some, lower_lower, if_true, Option.some.injEq]
        rw [hclass, htype, respond_iff, Prod.ext_iff]
    · rw [if_neg hname, if_neg hname]
      cases hfields : parseFields tail with
      | none => simp
      | some fields => simp [eq_comm]
  · rw [if_neg hcut, List.drop_eq_nil_of_le (Nat.le_of_not_le hcut)]
    simp [parseFields]

/-- A datagram is treated as it has to be, exactly if a label that is the host name in lower case
comes with a complete question for an address, one that is it with capitals does not come with a
complete question, and one that is cut off isn't completed by the old bytes of the buffer. -/
theorem processPacket_iff (host : HostName) (interfaces : Interfaces) (stack : Nat → UInt8)
    (datagram : List UInt8) :
    processPacket host.lower interfaces stack datagram = expected host interfaces datagram ↔
      Proper host stack datagram := by
  rw [processPacket_header]
  unfold expected Proper
  cases haccepted : acceptedHeader datagram with
  | none => simp
  | some accepted =>
    obtain ⟨id, rest⟩ := accepted
    simp only [Option.bind_some, Option.some.injEq, Prod.mk.injEq]
    cases rest with
    | nil =>
      have hnone : processQuestion host.lower interfaces stack id [] = none := by
        have hshort := host.short
        apply if_pos
        rw [lower_length]
        simp [read8, read]
        omega
      rw [hnone]
      simp [expectedReply, parseQuestion]
    | cons length rest =>
      by_cases hlength : length.toNat = host.text.length
      · rw [question_iff host interfaces stack id hlength]
        constructor
        · rintro hplain _ _ _ ⟨-, hcons⟩ -
          cases hcons
          exact hplain
        · exact fun h => h id length rest ⟨rfl, rfl⟩ hlength
      · rw [processQuestion_length hlength]
        refine iff_of_true ?_ ?_
        · unfold expectedReply
          cases hasked : parseQuestion (length :: rest) with
          | none => rfl
          | some asked =>
            symm
            apply if_neg
            intro hname
            exact hlength ((parseQuestion_length hasked).symm.trans (name_length hname))
        · rintro _ _ _ ⟨-, hcons⟩ hsame
          cases hcons
          exact absurd hsame hlength

theorem plainH : ∀ c ∈ [(104 : UInt8)], isalnum c = true ∨ c = 45 :=
  fun _ hc => List.mem_singleton.mp hc ▸ Or.inl rfl

def hostH : HostName := ⟨[104], List.cons_ne_nil _ _, Nat.succ_le_succ (Nat.zero_le 62), plainH⟩

def capitalQuery : List UInt8 :=
  [0, 7, 0, 0, 0, 1, 0, 0, 0, 0, 0, 0, 1, 72, 0, 0, 1, 0, 1]

def station : Interfaces := ⟨false, 0, 0, 0x0100007F, 0x0200007F⟩

theorem capitalQuery_unanswered :
    (expected hostH station capitalQuery).isSome = true ∧
      processPacket hostH.lower station (fun _ => 0) capitalQuery = none := by
  decide

end Esp8266.Llmnr
