import Mathlib.Data.UInt

/-! The load and store instructions that the stub emulates when a watchpoint has stopped them. -/
namespace Esp8266.Gdb

/-- The registers that count here, and the memory by words; `mem` is looked at for addresses that
are multiples of 4 only. -/
structure Machine where
  pc : UInt32
  a : Fin 16 → UInt32
  mem : UInt32 → UInt32

theorem registerCount_ne : NeZero 16 := ⟨by decide⟩

def register (n : Nat) : Fin 16 := @Fin.ofNat 16 registerCount_ne n

def Machine.byte (s : Machine) (p : UInt32) : UInt8 :=
  (s.mem (p &&& ~~~3) >>> ((p &&& 3) * 8)).toUInt8

def Readable (p : UInt32) : Prop := 0x20000000 ≤ p ∧ p < 0x60000000

instance (p : UInt32) : Decidable (Readable p) := inferInstanceAs (Decidable (_ ∧ _))

def Machine.readbyte (s : Machine) (p : UInt32) : UInt8 :=
  if p < 0x20000000 ∨ p ≥ 0x60000000 then 0xff else s.byte p

def Machine.getaregval (s : Machine) (reg : UInt8) : UInt32 := s.a (register reg.toNat)

def Machine.setaregval (s : Machine) (reg : UInt8) (val : UInt32) : Machine :=
  { s with a := fun i => if i = register reg.toNat then val else s.a i }

def Machine.store (s : Machine) (p val : UInt32) : Machine :=
  { s with mem := fun q => if q = p then val else s.mem q }

def aligned (p : UInt32) (s : Machine) : Option Machine :=
  if p.toNat % 4 = 0 then some s else none

def intPtr (base : UInt32) (index : UInt32) : UInt32 := base + 4 * index

def Machine.emulLdSt (s : Machine) : Option Machine :=
  let i0 := s.readbyte s.pc
  let i1 := s.readbyte (s.pc + 1)
  if i0 &&& 0xf = 2 ∧ i1 &&& 0xb0 = 0x20 then
    let i2 := s.readbyte (s.pc + 2)
    let p := intPtr (s.getaregval (i1 &&& 0xf)) (i2.toUInt32 * 4)
    let done :=
      if i1 &&& 0xf0 = 0x20 then s.setaregval (i0 >>> 4) (s.mem p)
      else s.store p (s.getaregval (i0 >>> 4))
    aligned p { done with pc := s.pc + 3 }
  else if i0 &&& 0xe = 0x8 then
    let p := intPtr (s.getaregval (i1 &&& 0xf)) ((i1 >>> 4).toUInt32 * 4)
    let done :=
      if i0 &&& 0xf = 0x8 then s.setaregval (i0 >>> 4) (s.mem p)
      else s.store p (s.getaregval (i0 >>> 4))
    aligned p { done with pc := s.pc + 2 }
  else some s

structure Access where
  load : Bool
  t : Fin 16
  s : Fin 16
  offset : UInt8
  length : UInt32

/-- The instruction set: `l32i` and `s32i` have the operation 2 with 2 and 6 in the field `r`,
`l32i.n` and `s32i.n` the operations 8 and 9. -/
def decode (b0 b1 b2 : UInt8) : Option Access :=
  let op0 := b0.toNat % 16
  let t := register (b0.toNat / 16)
  let s := register b1.toNat
  let r := b1.toNat / 16
  if op0 = 2 ∧ r = 2 then some ⟨true, t, s, b2, 3⟩
  else if op0 = 2 ∧ r = 6 then some ⟨false, t, s, b2, 3⟩
  else if op0 = 8 then some ⟨true, t, s, b1 >>> 4, 2⟩
  else if op0 = 9 then some ⟨false, t, s, b1 >>> 4, 2⟩
  else none

def Machine.fetch (s : Machine) : Option Access :=
  decode (s.byte s.pc) (s.byte (s.pc + 1)) (s.byte (s.pc + 2))

def Machine.perform (s : Machine) (scale : UInt32) (i : Access) : Option Machine :=
  let p := s.a i.s + scale * UInt32.ofNat i.offset.toNat
  aligned p
    { s with
      pc := s.pc + i.length
      a := fun reg => if i.load = true ∧ reg = i.t then s.mem p else s.a reg
      mem := fun q => if i.load = false ∧ q = p then s.a i.t else s.mem q }

/-- The instruction at `pc`; one of another kind is left as it is. -/
def Machine.run (scale : UInt32) (s : Machine) : Option Machine :=
  match s.fetch with
  | none => some s
  | some i => s.perform scale i

/-- What the instruction at `pc` does: its offset counts words. -/
def Machine.execute (s : Machine) : Option Machine := s.run 4

section Decoding

theorem masks : ∀ n < 256,
    (UInt8.ofNat n &&& 0xf).toNat = n % 16 ∧ (UInt8.ofNat n >>> 4).toNat = n / 16 ∧
      (UInt8.ofNat n &&& 0xb0 = 0x20 ↔ n / 16 = 2 ∨ n / 16 = 6) ∧
      (UInt8.ofNat n &&& 0xf0 = 0x20 ↔ n / 16 = 2) ∧
      (UInt8.ofNat n &&& 0xe = 0x8 ↔ n % 16 = 8 ∨ n % 16 = 9) ∧
      (UInt8.ofNat n &&& 0xf = 2 ↔ n % 16 = 2) ∧ (UInt8.ofNat n &&& 0xf = 0x8 ↔ n % 16 = 8) := by
  decide +kernel

theorem byte_masks (b : UInt8) :
    (b &&& 0xf).toNat = b.toNat % 16 ∧ (b >>> 4).toNat = b.toNat / 16 ∧
      (b &&& 0xb0 = 0x20 ↔ b.toNat / 16 = 2 ∨ b.toNat / 16 = 6) ∧
      (b &&& 0xf0 = 0x20 ↔ b.toNat / 16 = 2) ∧
      (b &&& 0xe = 0x8 ↔ b.toNat % 16 = 8 ∨ b.toNat % 16 = 9) ∧
      (b &&& 0xf = 2 ↔ b.toNat % 16 = 2) ∧ (b &&& 0xf = 0x8 ↔ b.toNat % 16 = 8) := by
  have h := masks b.toNat b.toNat_lt
  rwa [UInt8.ofNat_toNat] at h

theorem readbyte_byte {s : Machine} {p : UInt32} (hp : Readable p) : s.readbyte p = s.byte p := by
  unfold Machine.readbyte
  refine if_neg fun hout => ?_
  rcases hout with hlow | hhigh
  · exact absurd hlow (UInt32.not_lt.mpr hp.1)
  · exact absurd hp.2 (UInt32.not_lt.mpr hhigh)

theorem register_mod (n : Nat) : register (n % 16) = register n :=
  Fin.ext (Nat.mod_mod n 16)

theorem intPtr_scale (base : UInt32) (offset : UInt8) :
    intPtr base (offset.toUInt32 * 4) = base + 16 * UInt32.ofNat offset.toNat := by
  have hsame : offset.toUInt32 = UInt32.ofNat offset.toNat := by
    apply UInt32.toNat_inj.mp
    simp
  unfold intPtr
  rw [hsame]
  grind

end Decoding

section Emulation
variable (s : Machine)

theorem perform_load {scale : UInt32} {i : Access} (hload : i.load = true) :
    s.perform scale i = aligned (s.a i.s + scale * UInt32.ofNat i.offset.toNat)
      { s with
        pc := s.pc + i.length
        a := fun reg => if reg = i.t then s.mem (s.a i.s + scale * UInt32.ofNat i.offset.toNat)
          else s.a reg } := by
  unfold Machine.perform
  simp [hload]

theorem perform_store {scale : UInt32} {i : Access} (hload : i.load = false) :
    s.perform scale i = aligned (s.a i.s + scale * UInt32.ofNat i.offset.toNat)
      { s with
        pc := s.pc + i.length
        mem := fun q => if q = s.a i.s + scale * UInt32.ofNat i.offset.toNat then s.a i.t
          else s.mem q } := by
  unfold Machine.perform
  simp [hload]

theorem emulLdSt_spec (hfirst : Readable s.pc) (hsecond : Readable (s.pc + 1))
    (hthird : Readable (s.pc + 2)) : s.emulLdSt = s.run 16 := by
  unfold Machine.emulLdSt Machine.run Machine.fetch decode
  rw [readbyte_byte hfirst, readbyte_byte hsecond, readbyte_byte hthird]
  generalize s.byte s.pc = b0
  generalize s.byte (s.pc + 1) = b1
  generalize s.byte (s.pc + 2) = b2
  obtain ⟨-, htop, -, -, hnarrow, htwo, height⟩ := byte_masks b0
  obtain ⟨hlow, hfield, hwide, hloads, -⟩ := byte_masks b1
  have hbase : s.getaregval (b1 &&& 0xf) = s.a (register b1.toNat) := by
    unfold Machine.getaregval
    rw [hlow, register_mod]
  have hdata : register (b0 >>> 4).toNat = register (b0.toNat / 16) := by rw [htop]
  simp only [hbase, intPtr_scale]
  by_cases hop : b0.toNat % 16 = 2
  · by_cases hload : b1.toNat / 16 = 2
    · rw [if_pos ⟨htwo.mpr hop, hwide.mpr (Or.inl hload)⟩, if_pos (hloads.mpr hload),
        if_pos ⟨hop, hload⟩]
      simp only
      rw [perform_load s rfl]
      simp only [Machine.setaregval, hdata]
    · have hnoload : ¬ (b0.toNat % 16 = 2 ∧ b1.toNat / 16 = 2) := fun h => hload h.2
      rw [if_neg hnoload]
      by_cases hstore : b1.toNat / 16 = 6
      · rw [if_pos ⟨htwo.mpr hop, hwide.mpr (Or.inr hstore)⟩, if_neg (mt hloads.mp hload),
          if_pos ⟨hop, hstore⟩]
        simp only
        rw [perform_store s rfl]
        simp only [Machine.store, Machine.getaregval, hdata]
      · have hother : ¬ (b0 &&& 0xf = 2 ∧ b1 &&& 0xb0 = 0x20) := fun h =>
          (hwide.mp h.2).elim hload hstore
        have hwider : ¬ b0 &&& 0xe = 0x8 := fun h => by
          have hnine := hnarrow.mp h
          omega
        have hnostore : ¬ (b0.toNat % 16 = 2 ∧ b1.toNat / 16 = 6) := fun h => hstore h.2
        have hnowide : ¬ b0.toNat % 16 = 8 := by omega
        have hnonine : ¬ b0.toNat % 16 = 9 := by omega
        rw [if_neg hother, if_neg hwider, if_neg hnostore, if_neg hnowide, if_neg hnonine]
  · have hother : ¬ (b0 &&& 0xf = 2 ∧ b1 &&& 0xb0 = 0x20) := fun h => hop (htwo.mp h.1)
    have hnoload : ¬ (b0.toNat % 16 = 2 ∧ b1.toNat / 16 = 2) := fun h => hop h.1
    have hnostore : ¬ (b0.toNat % 16 = 2 ∧ b1.toNat / 16 = 6) := fun h => hop h.1
    rw [if_neg hother, if_neg hnoload, if_neg hnostore]
    by_cases hload : b0.toNat % 16 = 8
    · rw [if_pos (hnarrow.mpr (Or.inl hload)), if_pos (height.mpr hload), if_pos hload]
      simp only
      rw [perform_load s rfl]
      simp only [Machine.setaregval, hdata]
    · rw [if_neg hload]
      by_cases hstore : b0.toNat % 16 = 9
      · rw [if_pos (hnarrow.mpr (Or.inr hstore)), if_neg (mt height.mp hload), if_pos hstore]
        simp only
        rw [perform_store s rfl]
        simp only [Machine.store, Machine.getaregval, hdata]
      · have hwider : ¬ b0 &&& 0xe = 0x8 := fun h => (hnarrow.mp h).elim hload hstore
        rw [if_neg hwider, if_neg hstore]

theorem scaled_alignment (base offset : UInt32) (scale : UInt32) (hscale : scale.toNat % 4 = 0) :
    (base + scale * offset).toNat % 4 = base.toNat % 4 := by
  rw [UInt32.toNat_add, UInt32.toNat_mul]
  have hword : scale.toNat * offset.toNat % 4 = 0 := by
    rw [Nat.mul_mod, hscale, Nat.zero_mul, Nat.zero_mod]
  omega

theorem toNat_scaled (base scale : UInt32) (offset : UInt8) :
    (base + scale * UInt32.ofNat offset.toNat).toNat =
      (base.toNat + scale.toNat * offset.toNat % 4294967296) % 4294967296 := by
  have hbyte := offset.toNat_lt
  have hsmall : offset.toNat % 2 ^ 32 = offset.toNat := Nat.mod_eq_of_lt (by omega)
  rw [UInt32.toNat_add, UInt32.toNat_mul, UInt32.toNat_ofNat', hsmall]

theorem offset_zero {base offset : Nat} (hoffset : offset < 256)
    (hsame : (base + 4 * offset % 4294967296) % 4294967296 =
      (base + 16 * offset % 4294967296) % 4294967296) : offset = 0 := by
  have hnear : 4 * offset % 4294967296 = 4 * offset := Nat.mod_eq_of_lt (by omega)
  have hfar : 16 * offset % 4294967296 = 16 * offset := Nat.mod_eq_of_lt (by omega)
  rw [hnear, hfar] at hsame
  omega

theorem scaled_eq {base : UInt32} {offset : UInt8}
    (hsame : base + 16 * UInt32.ofNat offset.toNat = base + 4 * UInt32.ofNat offset.toNat) :
    offset = 0 := by
  have hfar := toNat_scaled base 16 offset
  have hnear := toNat_scaled base 4 offset
  rw [hsame, hnear] at hfar
  change (base.toNat + 4 * offset.toNat % 4294967296) % 4294967296 =
    (base.toNat + 16 * offset.toNat % 4294967296) % 4294967296 at hfar
  exact UInt8.toNat_inj.mp (offset_zero offset.toNat_lt hfar)

theorem perform_eq_iff (i : Access) :
    s.perform 16 i = s.perform 4 i ↔
      i.offset = 0 ∨ (s.a i.s).toNat % 4 ≠ 0 ∨
        (s.mem (s.a i.s + 16 * UInt32.ofNat i.offset.toNat) =
            s.mem (s.a i.s + 4 * UInt32.ofNat i.offset.toNat) ∧
          (i.load = false →
            s.mem (s.a i.s + 4 * UInt32.ofNat i.offset.toNat) = s.a i.t)) := by
  have hfar := scaled_alignment (s.a i.s) (UInt32.ofNat i.offset.toNat) 16 rfl
  have hnear := scaled_alignment (s.a i.s) (UInt32.ofNat i.offset.toNat) 4 rfl
  by_cases hzero : i.offset = 0
  · have hsame : s.perform 16 i = s.perform 4 i := by
      unfold Machine.perform
      rw [hzero]
      rfl
    exact ⟨fun _ => Or.inl hzero, fun _ => hsame⟩
  have hne : s.a i.s + 16 * UInt32.ofNat i.offset.toNat ≠ s.a i.s + 4 * UInt32.ofNat i.offset.toNat :=
    fun h => hzero (scaled_eq h)
  by_cases haligned : (s.a i.s).toNat % 4 = 0
  · rw [or_iff_right hzero, or_iff_right (not_not_intro haligned)]
    cases hload : i.load with
    | true =>
      rw [perform_load s hload, perform_load s hload]
      unfold aligned
      rw [if_pos (hfar.trans haligned), if_pos (hnear.trans haligned), Option.some.injEq,
        Machine.mk.injEq]
      constructor
      · rintro ⟨-, hregisters, -⟩
        have hword := congrFun hregisters i.t
        simp only [if_true] at hword
        exact ⟨hword, fun h => absurd h.symm Bool.false_ne_true⟩
      · rintro ⟨hword, -⟩
        exact ⟨rfl, by rw [hword], rfl⟩
    | false =>
      rw [perform_store s hload, perform_store s hload]
      unfold aligned
      rw [if_pos (hfar.trans haligned), if_pos (hnear.trans haligned), Option.some.injEq,
        Machine.mk.injEq]
      generalize s.a i.s + 16 * UInt32.ofNat i.offset.toNat = far at *
      generalize s.a i.s + 4 * UInt32.ofNat i.offset.toNat = near at *
      constructor
      · rintro ⟨-, -, hmemory⟩
        have hnearWord := congrFun hmemory near
        have hfarWord := congrFun hmemory far
        simp only [if_true, if_neg hne, if_neg hne.symm] at hnearWord hfarWord
        exact ⟨hfarWord.symm.trans hnearWord.symm, fun _ => hnearWord⟩
      · rintro ⟨hword, hstored⟩
        refine ⟨rfl, rfl, ?_⟩
        funext q
        have hstored := hstored rfl
        by_cases hq : q = far
        · rw [if_pos hq, if_neg (hq ▸ hne), hq, hword, hstored]
        · by_cases hq' : q = near
          · rw [if_neg hq, if_pos hq', hq', hstored]
          · rw [if_neg hq, if_neg hq']
  · refine ⟨fun _ => Or.inr (Or.inl haligned), fun _ => ?_⟩
    unfold Machine.perform aligned
    simp only
    rw [if_neg (hfar ▸ haligned), if_neg (hnear ▸ haligned)]

end Emulation

/-- The emulation of the instruction at `pc` is faithful exactly if its offset is 0, its address is
not aligned, or the words do not show the difference. -/
theorem emulLdSt_exact (s : Machine) (hfirst : Readable s.pc) (hsecond : Readable (s.pc + 1))
    (hthird : Readable (s.pc + 2)) :
    s.emulLdSt = s.execute ↔
      ∀ i, s.fetch = some i →
        i.offset = 0 ∨ (s.a i.s).toNat % 4 ≠ 0 ∨
          (s.mem (s.a i.s + 16 * UInt32.ofNat i.offset.toNat) =
              s.mem (s.a i.s + 4 * UInt32.ofNat i.offset.toNat) ∧
            (i.load = false →
              s.mem (s.a i.s + 4 * UInt32.ofNat i.offset.toNat) = s.a i.t)) := by
  rw [emulLdSt_spec s hfirst hsecond hthird]
  unfold Machine.execute Machine.run
  match hfetch : s.fetch with
  | none => exact ⟨fun _ i hi => absurd hi.symm (Option.some_ne_none i), fun _ => rfl⟩
  | some i =>
    refine ⟨fun hsame j hj => ?_, fun h => (perform_eq_iff s i).mpr (h i rfl)⟩
    cases hj
    exact (perform_eq_iff s i).mp hsame

def loading : Machine where
  pc := 0x40100000
  a := fun reg => if reg.val = 2 then 0x3ffe8000 else 0
  mem := fun p =>
    if p = 0x40100000 then 0x00012232 else if p = 0x3ffe8004 then 7 else if p = 0x3ffe8010 then 9
    else 0

def loadingBase : Machine := { loading with mem := fun p => if p = 0x40100000 then 0x2232 else p }

theorem emulLdSt_exact_base : loadingBase.emulLdSt = loadingBase.execute :=
  (emulLdSt_exact loadingBase (by decide) (by decide) (by decide)).mpr (by
    intro i hi
    cases hi
    exact Or.inl rfl)

theorem loading_unfaithful :
    loading.emulLdSt.map (fun s => s.a (register 3)) = some 9 ∧
      loading.execute.map (fun s => s.a (register 3)) = some 7 := by
  decide

end Esp8266.Gdb
