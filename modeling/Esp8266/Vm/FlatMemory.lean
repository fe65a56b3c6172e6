import Esp8266.Vm.Cache
import Mathlib.Data.Fintype.Card

/-! The cache in front of the SPI RAM cannot be seen: accesses through it answer
as a flat byte memory does. The invariant has two parts. `Ordered` is about the
`next` pointers only, `Coherent` about addresses, dirty bits and bytes. -/
namespace Esp8266.ExternalRam
open Esp8266.Memory Esp8266.LinkedList Esp8266.LittleEndian Esp8266.Runs

/-! The specification: one flat memory. -/

def flatStep (flat : Cells UInt8) : Access → Cells UInt8 × Answer
  | .write width addr val => (write flat addr (leBytes width.bytes val), .stored)
  | .read width addr => (flat, .loaded (leValue (read flat addr width.bytes)))

def flatMachine : Machine (Cells UInt8) Access Answer := ⟨flatStep⟩

def Vm.next (vm : Vm) (way : Way) : Option Way := (vm.line way).next

/-- The first four lines reached from `__vm_cache` are the four lines. -/
def Ordered (vm : Vm) : Prop :=
  ∃ order stop, Path vm.next (some vm.cache) order stop ∧ order.Nodup ∧
    order.length = cacheWays

structure Coherent (vm : Vm) (flat : Cells UInt8) : Prop where
  aligned : ∀ way, (vm.line way).addr ≠ -1 →
    ∃ k : Nat, (vm.line way).addr = (lineBytes * k : Nat) ∧ lineBytes * k < 2 ^ 24
  invalid_clean : ∀ way, (vm.line way).addr = -1 → (vm.line way).dirty = false
  distinct : ∀ way other, way ≠ other → (vm.line way).addr = (vm.line other).addr →
    (vm.line way).addr = -1
  clean : ∀ way (k : Nat), (vm.line way).addr = (lineBytes * k : Nat) →
    (vm.line way).dirty = false → ∀ offset, offset < lineBytes →
      (vm.line way).b offset = vm.ram (lineBytes * k + offset)
  cached : ∀ way (k : Nat), (vm.line way).addr = (lineBytes * k : Nat) →
    ∀ offset, offset < lineBytes → (vm.line way).b offset = flat (lineBytes * k + offset)
  uncached : ∀ k : Nat, (∀ way, (vm.line way).addr ≠ (lineBytes * k : Nat)) →
    ∀ offset, offset < lineBytes → vm.ram (lineBytes * k + offset) = flat (lineBytes * k + offset)

structure Invariant (vm : Vm) (flat : Cells UInt8) : Prop where
  ordered : Ordered vm
  coherent : Coherent vm flat

/-! Only the pointers of a line change when the list is re-linked. -/

theorem next_setNext (vm : Vm) (way : Way) (target : Option Way) :
    (vm.setNext way target).next = link vm.next way target := by
  funext other
  unfold Vm.next Vm.setNext Vm.setLine link
  by_cases h : other = way
  · simp [h]
  · simp [h]

theorem setNext_line (vm : Vm) (way other : Way) (target : Option Way) :
    ((vm.setNext way target).line other).addr = (vm.line other).addr ∧
      ((vm.setNext way target).line other).dirty = (vm.line other).dirty ∧
      ((vm.setNext way target).line other).b = (vm.line other).b := by
  unfold Vm.setNext Vm.setLine
  by_cases h : other = way
  · simp [h]
  · simp [h]

theorem Coherent.congr {vm vm' : Vm} {flat : Cells UInt8} (h : Coherent vm flat)
    (hline : ∀ way, (vm'.line way).addr = (vm.line way).addr ∧
      (vm'.line way).dirty = (vm.line way).dirty ∧ (vm'.line way).b = (vm.line way).b)
    (hram : vm'.ram = vm.ram) : Coherent vm' flat := by
  obtain ⟨haligned, hinvalid, hdistinct, hclean, hcached, huncached⟩ := h
  constructor
  · intro way
    rw [(hline way).1]
    exact haligned way
  · intro way
    rw [(hline way).1, (hline way).2.1]
    exact hinvalid way
  · intro way other
    rw [(hline way).1, (hline other).1]
    exact hdistinct way other
  · intro way k
    rw [(hline way).1, (hline way).2.1, (hline way).2.2, hram]
    exact hclean way k
  · intro way k
    rw [(hline way).1, (hline way).2.2]
    exact hcached way k
  · intro k hall
    rw [hram]
    exact huncached k fun way => by
      rw [← (hline way).1]
      exact hall way

theorem scan_spec (vm : Vm) (addr : Nat) (last : Way) (rest : List Way) (way stop : Option Way)
    (h : Path vm.next way rest stop) :
    (∃ front l w post, last :: rest = front ++ l :: w :: post ∧ (vm.line w).addr = addr ∧
        scan vm addr rest.length last way = some (.hit l w)) ∨
      (∃ front l, last :: rest = front ++ [l] ∧ (∀ w ∈ rest, (vm.line w).addr ≠ addr) ∧
        scan vm addr rest.length last way = some (.miss l)) := by
  induction rest generalizing last way with
  | nil => exact Or.inr ⟨[], last, rfl, by simp, rfl⟩
  | cons w tail ih =>
    obtain ⟨rfl, htail⟩ := h
    by_cases hit : (vm.line w).addr = addr
    · exact Or.inl ⟨[], last, w, tail, rfl, hit, by simp [scan, hit]⟩
    · have hscan : scan vm addr (w :: tail).length last (some w) =
          scan vm addr tail.length w (vm.next w) := by
        simp [scan, hit, Vm.next]
      rw [hscan]
      rcases ih w (vm.next w) htail with ⟨front, l, found, post, hlist, hfound, heq⟩ |
        ⟨front, l, hlist, hnone, heq⟩
      · exact Or.inl ⟨last :: front, l, found, post, by rw [hlist]; rfl, hfound, heq⟩
      · refine Or.inr ⟨last :: front, l, by rw [hlist]; rfl, ?_, heq⟩
        intro other hother
        rcases List.mem_cons.mp hother with rfl | hmem
        · exact hit
        · exact hnone other hmem

theorem shiftLeft_or_mod (command addr : Nat) (h : addr < 2 ^ 24) :
    (command <<< 24 ||| addr) % 2 ^ 24 = addr ∧ (command <<< 24 ||| addr) >>> 24 = command := by
  rw [← Nat.shiftLeft_add_eq_or_of_lt h, Nat.shiftLeft_eq, Nat.shiftRight_eq_div_pow]
  omega

@[simp] theorem spiReadtransaction_eq (ram : Cells UInt8) (addr count : Nat) (h : addr < 2 ^ 24) :
    spiReadtransaction ram (0x03 <<< 24 ||| addr) count = read ram addr count := by
  unfold spiReadtransaction
  rw [if_pos (shiftLeft_or_mod 3 addr h).2, (shiftLeft_or_mod 3 addr h).1]

@[simp] theorem spiWritetransaction_eq (ram : Cells UInt8) (addr : Nat) (data : List UInt8)
    (h : addr < 2 ^ 24) :
    spiWritetransaction ram (0x02 <<< 24 ||| addr) data = write ram addr data := by
  unfold spiWritetransaction
  rw [if_pos (shiftLeft_or_mod 2 addr h).2, (shiftLeft_or_mod 2 addr h).1]

theorem write_block (m : Cells UInt8) (j k offset : Nat) (block : List UInt8)
    (hblock : block.length = lineBytes) (hoffset : offset < lineBytes) :
    write m (lineBytes * j) block (lineBytes * k + offset) =
      if _h : k = j then block[offset] else m (lineBytes * k + offset) := by
  unfold lineBytes at *
  by_cases h : k = j
  · subst h
    rw [dif_pos rfl]
    exact write_of_mem m (64 * k) block offset (by omega)
  · rw [dif_neg h]
    apply write_of_outside
    omega

/-! Replacing the least recently used line. -/

theorem replaceLine_same (vm : Vm) (addr : Nat) (last : Way) (h : addr < 2 ^ 24) :
    ((replaceLine vm addr last).line last).addr = addr ∧
      ((replaceLine vm addr last).line last).dirty = false ∧
      ∀ offset, offset < lineBytes →
        ((replaceLine vm addr last).line last).b offset = vm.ram (addr + offset) := by
  refine ⟨by simp [replaceLine, Vm.setLine], by simp [replaceLine, Vm.setLine], ?_⟩
  intro offset hoffset
  simp only [replaceLine, Vm.setLine, Vm.setNext, ↓reduceIte, spiReadtransaction_eq _ _ _ h]
  have hwrite := write_of_mem (vm.line last).b 0 (read vm.ram addr lineBytes) offset
    (by simpa using hoffset)
  rw [Nat.zero_add] at hwrite
  rw [hwrite, read_getElem]

theorem replaceLine_other (vm : Vm) (addr : Nat) {last way : Way} (h : way ≠ last) :
    (replaceLine vm addr last).line way = vm.line way := by
  simp [replaceLine, Vm.setLine, Vm.setNext, h]

theorem replaceLine_ram (vm : Vm) (flat : Cells UInt8) (addr : Nat) (last : Way)
    (h : Coherent vm flat) (k offset : Nat) (hoffset : offset < lineBytes) :
    (replaceLine vm addr last).ram (lineBytes * k + offset) =
      if (vm.line last).dirty = true ∧ (vm.line last).addr = (lineBytes * k : Nat) then
        (vm.line last).b offset
      else vm.ram (lineBytes * k + offset) := by
  simp only [replaceLine, Vm.setLine, Vm.setNext, ↓reduceIte]
  cases hdirty : (vm.line last).dirty with
  | false => simp
  | true =>
    have hvalid : (vm.line last).addr ≠ -1 := by
      intro hinvalid
      rw [h.invalid_clean last hinvalid] at hdirty
      cases hdirty
    obtain ⟨j, hj, hbound⟩ := h.aligned last hvalid
    simp only [↓reduceIte, hj, Int.toNat_natCast, spiWritetransaction_eq _ _ _ hbound, true_and]
    rw [write_block _ _ _ _ _ (by simp) hoffset]
    by_cases hk : k = j
    · subst hk
      simp
    · rw [dif_neg hk, if_neg]
      unfold lineBytes
      omega

theorem replaceLine_coherent (vm : Vm) (flat : Cells UInt8) (k : Nat) (last : Way)
    (h : Coherent vm flat) (hbound : lineBytes * k < 2 ^ 24)
    (hmiss : ∀ way, (vm.line way).addr ≠ (lineBytes * k : Nat)) :
    Coherent (replaceLine vm (lineBytes * k) last) flat := by
  obtain ⟨haddr, hdirty, hbytes⟩ := replaceLine_same vm (lineBytes * k) last hbound
  have hram := replaceLine_ram vm flat (lineBytes * k) last h
  have hblock : ∀ {m : Nat}, ((lineBytes * k : Nat) : Int) = (lineBytes * m : Nat) → k = m := by
    intro m hm
    unfold lineBytes at hm
    omega
  constructor
  · intro way hvalid
    by_cases hway : way = last
    · subst hway
      exact ⟨k, haddr, hbound⟩
    · rw [replaceLine_other vm _ hway] at hvalid ⊢
      exact h.aligned way hvalid
  · intro way hinvalid
    by_cases hway : way = last
    · subst hway
      exact hdirty
    · rw [replaceLine_other vm _ hway] at hinvalid ⊢
      exact h.invalid_clean way hinvalid
  · intro way other hne hsame
    by_cases hway : way = last
    · subst hway
      rw [haddr, replaceLine_other vm _ (Ne.symm hne)] at hsame
      exact absurd hsame.symm (hmiss other)
    · rw [replaceLine_other vm _ hway] at hsame ⊢
      by_cases hother : other = last
      · subst hother
        rw [haddr] at hsame
        exact absurd hsame (hmiss way)
      · rw [replaceLine_other vm _ hother] at hsame
        exact h.distinct way other hne hsame
  · intro way m hm hcleanBit offset hoffset
    rw [hram m offset hoffset]
    by_cases hway : way = last
    · subst hway
      rw [haddr] at hm
      obtain rfl := hblock hm
      rw [hbytes offset hoffset, if_neg (fun hold => hmiss way hold.2)]
    · rw [replaceLine_other vm _ hway] at hm hcleanBit ⊢
      rw [if_neg]
      · exact h.clean way m hm hcleanBit offset hoffset
      · rintro ⟨-, hold⟩
        have hinvalid := h.distinct way last hway (hm.trans hold.symm)
        rw [hm] at hinvalid
        exact absurd hinvalid (by omega)
  · intro way m hm offset hoffset
    by_cases hway : way = last
    · subst hway
      rw [haddr] at hm
      obtain rfl := hblock hm
      rw [hbytes offset hoffset]
      exact h.uncached k hmiss offset hoffset
    · rw [replaceLine_other vm _ hway] at hm ⊢
      exact h.cached way m hm offset hoffset
  · intro m hnone offset hoffset
    rw [hram m offset hoffset]
    have hothers : ∀ way, way ≠ last → (vm.line way).addr ≠ (lineBytes * m : Nat) := by
      intro way hway
      have := hnone way
      rwa [replaceLine_other vm _ hway] at this
    by_cases hold : (vm.line last).addr = (lineBytes * m : Nat)
    · rw [← h.cached last m hold offset hoffset]
      cases hd : (vm.line last).dirty with
      | true => simp [hold]
      | false =>
        simp only [Bool.false_eq_true, false_and, ↓reduceIte]
        exact (h.clean last m hold hd offset hoffset).symm
    · rw [if_neg (fun hdirtyOld => hold hdirtyOld.2)]
      apply h.uncached m _ offset hoffset
      intro way
      by_cases hway : way = last
      · subst hway
        exact hold
      · exact hothers way hway

theorem replaceLine_next (vm : Vm) (addr : Nat) (last : Way) :
    (replaceLine vm addr last).next = link vm.next last (some vm.cache) := by
  rw [← next_setNext]
  funext way
  by_cases h : way = last
  · simp [replaceLine, Vm.next, Vm.setLine, Vm.setNext, h]
  · simp [replaceLine, Vm.next, Vm.setLine, Vm.setNext, h]

theorem mem_order (order : List Way) (hnodup : order.Nodup) (hlength : order.length = cacheWays)
    (way : Way) : way ∈ order := by
  have hcard : order.toFinset.card = Fintype.card Way := by
    rw [List.toFinset_card_of_nodup hnodup, hlength]
    rfl
  have huniv := Finset.eq_univ_of_card _ hcard
  rw [← List.mem_toFinset, huniv]
  exact Finset.mem_univ way

theorem cacheFlushrefill_spec (vm : Vm) (flat : Cells UInt8) (addr : Nat)
    (h : Invariant vm flat) (hbound : addr < 2 ^ 24) :
    ∃ vm', cacheFlushrefill vm addr = some vm' ∧ Invariant vm' flat ∧
      (vm'.line vm'.cache).addr = (lineBytes * (addr / lineBytes) : Nat) := by
  have hline : lineAddr addr = lineBytes * (addr / lineBytes) := Nat.mul_comm _ _
  obtain ⟨⟨order, stop, hpath, hnodup, hlength⟩, hcoherent⟩ := h
  unfold cacheFlushrefill
  rw [hline]
  by_cases hfast : (vm.line vm.cache).addr = (lineBytes * (addr / lineBytes) : Nat)
  · simp only [hfast, ↓reduceIte]
    exact ⟨vm, rfl, ⟨⟨order, stop, hpath, hnodup, hlength⟩, hcoherent⟩, hfast⟩
  · simp only [hfast, ↓reduceIte]
    cases order with
    | nil => simp [cacheWays] at hlength
    | cons first rest =>
      obtain rfl := Option.some.inj hpath.start_eq
      have hcount : cacheWays - 1 = rest.length := by
        simp [cacheWays] at hlength ⊢
        omega
      rw [hcount]
      rcases scan_spec vm (lineBytes * (addr / lineBytes)) vm.cache rest _ stop hpath.2 with
        ⟨front, l, w, post, hlist, hfound, hscan⟩ | ⟨front, l, hlist, hnone, hscan⟩
      · change scan vm (lineBytes * (addr / lineBytes)) rest.length vm.cache
          (vm.line vm.cache).next = _ at hscan
        rw [hscan]
        refine ⟨_, rfl, ⟨⟨w :: (front ++ l :: post), stop, ?_, ?_, ?_⟩, ?_⟩, ?_⟩
        · rw [hlist] at hpath hnodup
          have hmoved := path_move_to_front hpath hnodup
          rw [← next_setNext, ← next_setNext] at hmoved
          exact hmoved
        · rw [hlist] at hnodup
          have hperm : (w :: (front ++ l :: post)).Perm (front ++ l :: w :: post) := by
            rw [List.append_cons, List.append_cons front l (w :: post)]
            exact List.perm_middle.symm
          exact hperm.nodup_iff.mpr hnodup
        · rw [hlist] at hlength
          simp at hlength ⊢
          omega
        · refine hcoherent.congr ?_ ?_
          · intro way
            obtain ⟨h1, h2, h3⟩ :=
              setNext_line (vm.setNext l (vm.line w).next) w way (some vm.cache)
            obtain ⟨h4, h5, h6⟩ := setNext_line vm l way (vm.line w).next
            exact ⟨h1.trans h4, h2.trans h5, h3.trans h6⟩
          · rfl
        · have h1 := (setNext_line (vm.setNext l (vm.line w).next) w w (some vm.cache)).1
          have h2 := (setNext_line vm l w (vm.line w).next).1
          exact h1.trans (h2.trans hfound)
      · change scan vm (lineBytes * (addr / lineBytes)) rest.length vm.cache
          (vm.line vm.cache).next = _ at hscan
        rw [hscan]
        have hblock : lineBytes * (addr / lineBytes) < 2 ^ 24 := by
          have := Nat.mul_div_le addr lineBytes
          omega
        have hmiss : ∀ way, (vm.line way).addr ≠ (lineBytes * (addr / lineBytes) : Nat) := by
          intro way
          rcases List.mem_cons.mp (mem_order _ hnodup hlength way) with rfl | hmem
          · exact hfast
          · exact hnone way hmem
        refine ⟨_, rfl, ⟨⟨l :: front, some l, ?_, ?_, ?_⟩, ?_⟩, ?_⟩
        · rw [hlist] at hpath hnodup
          have hmoved := path_rotate_to_front hpath hnodup
          rw [← replaceLine_next vm (lineBytes * (addr / lineBytes)) l] at hmoved
          exact hmoved
        · rw [hlist] at hnodup
          have hperm : (l :: front).Perm (front ++ [l]) := (List.perm_append_singleton l front).symm
          exact hperm.nodup_iff.mpr hnodup
        · rw [hlist] at hlength
          simp at hlength ⊢
          omega
        · exact replaceLine_coherent vm flat _ l hcoherent hblock hmiss
        · exact (replaceLine_same vm _ l hblock).1

/-! The accesses, once their line is in front. -/

def Access.inside (ramSize : Nat) : Access → Prop
  | .write width addr _ => addr % width.bytes = 0 ∧ addr + width.bytes ≤ ramSize
  | .read width addr => addr % width.bytes = 0 ∧ addr + width.bytes ≤ ramSize

theorem dataBytes_eq (width : Width) : dataBytes (width.bits - 1) = width.bytes := by
  cases width <;> rfl

theorem dataOffset_eq (width : Width) (addr : Nat) (h : addr % width.bytes = 0) :
    dataOffset (width.bits - 1)
        ((addr : Int) - (lineBytes * (addr / lineBytes) : Nat)).toNat = addr % lineBytes ∧
      addr % lineBytes + width.bytes ≤ lineBytes := by
  have hoffset : ((addr : Int) - (lineBytes * (addr / lineBytes) : Nat)).toNat =
      addr % lineBytes := by
    unfold lineBytes
    omega
  rw [hoffset]
  cases width with
  | byte =>
    have hbyte : dataOffset (Width.byte.bits - 1) (addr % lineBytes) = addr % lineBytes := rfl
    refine ⟨hbyte, ?_⟩
    simp only [Width.bytes, lineBytes]
    omega
  | half =>
    have hhalf : dataOffset (Width.half.bits - 1) (addr % lineBytes) =
        2 * ((addr % lineBytes) >>> 1) := rfl
    rw [hhalf, Nat.shiftRight_eq_div_pow]
    simp only [Width.bytes, lineBytes] at h ⊢
    omega
  | word =>
    have hword : dataOffset (Width.word.bits - 1) (addr % lineBytes) =
        4 * ((addr % lineBytes) >>> 2) := rfl
    rw [hword, Nat.shiftRight_eq_div_pow]
    simp only [Width.bytes, lineBytes] at h ⊢
    omega

theorem read_cached (vm : Vm) (flat : Cells UInt8) (h : Coherent vm flat) (way : Way)
    (addr count : Nat) (hline : (vm.line way).addr = (lineBytes * (addr / lineBytes) : Nat))
    (hfit : addr % lineBytes + count ≤ lineBytes) :
    read (vm.line way).b (addr % lineBytes) count = read flat addr count := by
  apply List.ext_getElem
  · simp
  · intro i hi _
    rw [read_length] at hi
    rw [read_getElem, read_getElem, h.cached way _ hline (addr % lineBytes + i) (by omega)]
    congr 1
    have := Nat.div_add_mod addr lineBytes
    omega

theorem write_coherent (vm : Vm) (flat : Cells UInt8) (h : Coherent vm flat) (way : Way)
    (addr : Nat) (data : List UInt8)
    (hline : (vm.line way).addr = (lineBytes * (addr / lineBytes) : Nat))
    (hfit : addr % lineBytes + data.length ≤ lineBytes) :
    Coherent (vm.setLine way { vm.line way with
        dirty := true, b := write (vm.line way).b (addr % lineBytes) data })
      (write flat addr data) := by
  have hdecompose := Nat.div_add_mod addr lineBytes
  have hother : ∀ k offset, offset < lineBytes → k ≠ addr / lineBytes →
      write flat addr data (lineBytes * k + offset) = flat (lineBytes * k + offset) := by
    intro k offset hoffset hk
    apply write_of_outside
    unfold lineBytes at *
    omega
  constructor
  · intro w hvalid
    by_cases hw : w = way
    · subst hw
      simp only [Vm.setLine, ↓reduceIte] at hvalid ⊢
      exact h.aligned w hvalid
    · simp only [Vm.setLine, hw, ↓reduceIte] at hvalid ⊢
      exact h.aligned w hvalid
  · intro w hinvalid
    by_cases hw : w = way
    · subst hw
      simp only [Vm.setLine, ↓reduceIte, hline] at hinvalid
      exact absurd hinvalid (by omega)
    · simp only [Vm.setLine, hw, ↓reduceIte] at hinvalid ⊢
      exact h.invalid_clean w hinvalid
  · intro w other hne hsame
    have haddr : ∀ v, ((vm.setLine way { vm.line way with
        dirty := true, b := write (vm.line way).b (addr % lineBytes) data }).line v).addr =
          (vm.line v).addr := by
      intro v
      by_cases hv : v = way
      · subst hv
        simp [Vm.setLine]
      · simp [Vm.setLine, hv]
    rw [haddr, haddr] at hsame
    rw [haddr]
    exact h.distinct w other hne hsame
  · intro w k hk hcleanBit offset hoffset
    by_cases hw : w = way
    · subst hw
      simp [Vm.setLine] at hcleanBit
    · simp only [Vm.setLine, hw, ↓reduceIte] at hk hcleanBit ⊢
      exact h.clean w k hk hcleanBit offset hoffset
  · intro w k hk offset hoffset
    by_cases hw : w = way
    · subst hw
      simp only [Vm.setLine, ↓reduceIte] at hk ⊢
      have hkeq : k = addr / lineBytes := by
        rw [hline] at hk
        unfold lineBytes at hk ⊢
        omega
      subst hkeq
      unfold write
      by_cases hstart : addr % lineBytes ≤ offset
      · have hrel : lineBytes * (addr / lineBytes) + offset - addr = offset - addr % lineBytes := by
          omega
        rw [if_pos hstart, if_pos (by omega), hrel, h.cached w _ hline offset hoffset]
      · rw [if_neg hstart, if_neg (by omega), h.cached w _ hline offset hoffset]
    · simp only [Vm.setLine, hw, ↓reduceIte] at hk ⊢
      rw [hother k offset hoffset]
      · exact h.cached w k hk offset hoffset
      · rintro rfl
        have hinvalid := h.distinct w way hw (hk.trans hline.symm)
        rw [hk] at hinvalid
        exact absurd hinvalid (by omega)
  · intro k hnone offset hoffset
    have hway := hnone way
    simp only [Vm.setLine, ↓reduceIte, hline] at hway
    rw [hother k offset hoffset (by rintro rfl; exact hway rfl)]
    apply h.uncached k _ offset hoffset
    intro w
    by_cases hw : w = way
    · subst hw
      rw [hline]
      exact hway
    · have := hnone w
      simpa only [Vm.setLine, hw, ↓reduceIte] using this

theorem setLine_ordered (vm : Vm) (way : Way) (line : CacheLine)
    (hnext : line.next = (vm.line way).next) (h : Ordered vm) : Ordered (vm.setLine way line) := by
  have hsame : (vm.setLine way line).next = vm.next := by
    funext other
    by_cases hother : other = way
    · simp [Vm.next, Vm.setLine, hother, hnext]
    · simp [Vm.next, Vm.setLine, hother]
  unfold Ordered
  rw [hsame]
  exact h

theorem Invariant.step {vm : Vm} {flat : Cells UInt8} (h : Invariant vm flat) (ramSize : Nat)
    (hsize : ramSize ≤ 2 ^ 24) (access : Access) (hinside : access.inside ramSize) :
    Invariant (ExternalRam.step vm access).1 (flatStep flat access).1 ∧
      (ExternalRam.step vm access).2 = (flatStep flat access).2 := by
  cases access with
  | write width addr val =>
    obtain ⟨haligned, hbound⟩ := hinside
    have hwidth : 0 < width.bytes := by cases width <;> decide
    obtain ⟨vm', hrefill, hinvariant, hline⟩ := cacheFlushrefill_spec vm flat addr h (by omega)
    obtain ⟨hoffset, hfit⟩ := dataOffset_eq width addr haligned
    have hstep : ExternalRam.step vm (.write width addr val) =
        (vm'.setLine vm'.cache { vm'.line vm'.cache with
          dirty := true
          b := write (vm'.line vm'.cache).b (addr % lineBytes) (leBytes width.bytes val) },
          .stored) := by
      unfold ExternalRam.step spiRamwrite
      simp only [hrefill, hline, hoffset, dataBytes_eq]
    rw [hstep]
    refine ⟨⟨setLine_ordered _ _ _ rfl hinvariant.ordered, ?_⟩, rfl⟩
    exact write_coherent vm' flat hinvariant.coherent _ addr _ hline (by simpa using hfit)
  | read width addr =>
    obtain ⟨haligned, hbound⟩ := hinside
    have hwidth : 0 < width.bytes := by cases width <;> decide
    obtain ⟨vm', hrefill, hinvariant, hline⟩ := cacheFlushrefill_spec vm flat addr h (by omega)
    obtain ⟨hoffset, hfit⟩ := dataOffset_eq width addr haligned
    have hstep : ExternalRam.step vm (.read width addr) =
        (vm', .loaded (leValue (read flat addr width.bytes))) := by
      unfold ExternalRam.step spiRamread
      simp only [hrefill, hline, hoffset, dataBytes_eq,
        read_cached vm' flat hinvariant.coherent _ addr _ hline hfit]
    rw [hstep]
    exact ⟨hinvariant, rfl⟩

theorem install_invariant (statics : Way → CacheLine) (ram : Cells UInt8)
    (hclean : ∀ way, (statics way).dirty = false) :
    Invariant (installVmExceptionHandler statics ram) ram := by
  constructor
  · exact ⟨[0, 1, 2, 3], none, by simp [LinkedList.Path, Vm.next, installVmExceptionHandler], by decide, rfl⟩
  · constructor
    · intro way hvalid
      exact absurd rfl hvalid
    · intro way _
      exact hclean way
    · intro way other _ _
      rfl
    · intro way k hk
      exact absurd hk (by simp only [installVmExceptionHandler]; omega)
    · intro way k hk
      exact absurd hk (by simp only [installVmExceptionHandler]; omega)
    · intro k _ offset _
      rfl

/-- From the installation on, every run of accesses inside the RAM answers as a flat
memory with the initial contents of the RAM; the first four lines of the list are
the four lines, valid lines have distinct aligned addresses, and a clean valid line
equals the RAM. -/
theorem external_ram_refines_flat_memory (ram : Cells UInt8) (ramSize : Nat)
    (hsize : ramSize ≤ 2 ^ 24) (accesses : List Access)
    (hinside : ∀ access ∈ accesses, access.inside ramSize) :
    let start := installVmExceptionHandler (fun _ => bootLine) ram
    let vm := (machine.run start accesses).1
    (machine.run start accesses).2 = (flatMachine.run ram accesses).2 ∧
      (∃ order stop, Path vm.next (some vm.cache) order stop ∧ order.Nodup ∧
        order.length = 4 ∧ ∀ way, way ∈ order) ∧
      (∀ way other, way ≠ other → (vm.line way).addr ≠ -1 →
        (vm.line way).addr ≠ (vm.line other).addr) ∧
      (∀ way, (vm.line way).addr ≠ -1 → ∃ addr : Nat, (vm.line way).addr = addr ∧
        addr % 64 = 0 ∧ ((vm.line way).dirty = false →
          read (vm.line way).b 0 64 = read vm.ram addr 64)) := by
  intro start vm
  have hstart : Invariant start ram := install_invariant _ ram fun _ => rfl
  have halong : machine.Along (fun _ access => access.inside ramSize) start accesses := by
    generalize start = s
    induction accesses generalizing s with
    | nil => trivial
    | cons access rest ih =>
      exact ⟨hinside access List.mem_cons_self,
        ih (fun a ha => hinside a (List.mem_cons_of_mem access ha)) _⟩
  obtain ⟨⟨⟨order, stop, hpath, hnodup, hlength⟩, hcoherent⟩, hanswers⟩ :=
    Machine.run_simulation machine flatMachine (fun _ access => access.inside ramSize) Invariant
      (fun _ _ access h hin => h.step ramSize hsize access hin) start ram accesses hstart halong
  refine ⟨hanswers, ⟨order, stop, hpath, hnodup, hlength, mem_order order hnodup hlength⟩, ?_, ?_⟩
  · intro way other hne hvalid hsame
    exact hvalid (hcoherent.distinct way other hne hsame)
  · intro way hvalid
    obtain ⟨k, hk, -⟩ := hcoherent.aligned way hvalid
    refine ⟨lineBytes * k, hk, by unfold lineBytes; omega, ?_⟩
    intro hcleanBit
    apply List.ext_getElem
    · simp
    · intro i hi _
      rw [read_length] at hi
      rw [read_getElem, read_getElem, Nat.zero_add]
      exact hcoherent.clean way k hk hcleanBit i hi

theorem external_ram_refines_flat_memory_store_load :
    131072 ≤ 2 ^ 24 ∧
      (machine.run (installVmExceptionHandler (fun _ => bootLine) fun _ => 0)
        [.write .word 64 0x01020304, .read .byte 65]).2 =
      (flatMachine.run (fun _ => 0) [.write .word 64 0x01020304, .read .byte 65]).2 :=
  ⟨by decide,
    (external_ram_refines_flat_memory (fun _ => 0) 131072 (by decide)
      [.write .word 64 0x01020304, .read .byte 65] (by simp [Access.inside, Width.bytes])).1⟩

end Esp8266.ExternalRam
