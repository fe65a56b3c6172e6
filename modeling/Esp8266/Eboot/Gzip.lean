import Esp8266.Eboot.Restart

/-! A compressed image is installed completely, if what is still to be read of it is not overwritten. -/
namespace Esp8266.Eboot
open Esp8266.Memory Esp8266.Flash Esp8266.CrashLogic Esp8266.LittleEndian Esp8266.Runs

section Inflate

def Pull.feed (blocks : Nat → List UInt8) : Pull α → Nat → α × Nat
  | .done value, i => (value, i)
  | .more next, i => (next (blocks i)).feed blocks (i + 1)

theorem Pull.le_feed (blocks : Nat → List UInt8) (p : Pull α) (i : Nat) :
    i ≤ (p.feed blocks i).2 := by
  induction p generalizing i with
  | done value => exact Nat.le_refl i
  | more next ih => exact Nat.le_trans (Nat.le_succ i) (ih (blocks i) (i + 1))

def chunk (total k : Nat) : Nat := min flashSectorSize (total - k * flashSectorSize)

def Uzlib.produce (u : Uzlib) (blocks : Nat → List UInt8) (total : Nat) :
    Nat → Option (u.State × Nat)
  | 0 =>
    let header := u.parseHeader.feed blocks 0
    header.1.map fun state => (state, header.2)
  | k + 1 => do
    let before ← u.produce blocks total k
    let result := (u.uncompress before.1 (chunk total k)).feed blocks before.2
    result.1.map fun next => (next.2, result.2)

def Uzlib.pulled (u : Uzlib) (blocks : Nat → List UInt8) (total k : Nat) : Nat :=
  ((u.produce blocks total k).map Prod.snd).getD 0

def Extends (blocks : Nat → List UInt8) (bytes : List UInt8) : Prop :=
  ∀ i, (blocks i).length = flashSectorSize ∧ ∀ j, j < flashSectorSize →
    i * flashSectorSize + j < bytes.length →
    (blocks i)[j]? = bytes[i * flashSectorSize + j]?

structure Inflates (u : Uzlib) (blocks : Nat → List UInt8) (size : Nat) (contents : List UInt8) :
    Prop where
  header : ∃ state pulled, u.parseHeader.feed blocks 0 = (some state, pulled)
  next : ∀ k state pulled, k * flashSectorSize < contents.length →
    u.produce blocks contents.length k = some (state, pulled) →
    ∃ state' pulled', (u.uncompress state (chunk contents.length k)).feed blocks pulled =
      (some ((contents.drop (k * flashSectorSize)).take flashSectorSize, state'), pulled')
  bounded : ∀ k state pulled, u.produce blocks contents.length k = some (state, pulled) →
    pulled * flashSectorSize ≤ rounded size

structure Framed (bytes contents : List UInt8) : Prop where
  long : 18 ≤ bytes.length
  magic : bytes.take 2 = [0x1f, 0x8b]
  trailer : bytes.drop (bytes.length - 4) = leBytes 4 contents.length

def blocksAt (flash : Cells UInt8) (src i : Nat) : List UInt8 :=
  read flash (src + i * flashSectorSize) flashSectorSize

theorem blocksAt_extends (flash : Cells UInt8) (src size : Nat) :
    Extends (blocksAt flash src) (read flash src size) := by
  intro i
  refine ⟨read_length _ _ _, fun j hj hin => ?_⟩
  rw [read_length] at hin
  rw [blocksAt, read_getElem? _ _ _ _ hj, read_getElem? _ _ _ _ hin, Nat.add_assoc]

def ReadAhead (u : Uzlib) (flash : Cells UInt8) (src dst total : Nat) : Prop :=
  ∀ k j, k * flashSectorSize < total →
    u.pulled (blocksAt flash src) total (k + 1) ≤ j →
    j < u.pulled (blocksAt flash src) total (sectors total) →
    src + j * flashSectorSize ≠ dst + k * flashSectorSize

variable {u : Uzlib} {blocks : Nat → List UInt8} {size : Nat} {contents : List UInt8}

theorem sector_before {k total : Nat} (h : k * flashSectorSize < total) :
    k = 0 ∨ (k - 1) * flashSectorSize < total := by
  cases k with
  | zero => exact .inl rfl
  | succ k =>
    right
    rw [Nat.succ_mul] at h
    exact Nat.lt_of_le_of_lt (Nat.le_add_right _ _) h

theorem Inflates.produce_next (h : Inflates u blocks size contents) {k pulled : Nat}
    {state : u.State} (hk : k * flashSectorSize < contents.length)
    (hproduce : u.produce blocks contents.length k = some (state, pulled)) :
    ∃ state' pulled', u.produce blocks contents.length (k + 1) = some (state', pulled') ∧
      (u.uncompress state (chunk contents.length k)).feed blocks pulled =
        (some ((contents.drop (k * flashSectorSize)).take flashSectorSize, state'), pulled') := by
  obtain ⟨state', pulled', hnext⟩ := h.next k state pulled hk hproduce
  refine ⟨state', pulled', ?_, hnext⟩
  rw [Uzlib.produce, hproduce]
  change ((u.uncompress state (chunk contents.length k)).feed blocks pulled).1.map _ = _
  rw [hnext]
  rfl

theorem Inflates.produced (h : Inflates u blocks size contents) {k : Nat}
    (hk : k = 0 ∨ (k - 1) * flashSectorSize < contents.length) :
    ∃ state pulled, u.produce blocks contents.length k = some (state, pulled) := by
  induction k with
  | zero =>
    obtain ⟨state, pulled, hheader⟩ := h.header
    refine ⟨state, pulled, ?_⟩
    rw [Uzlib.produce, hheader]
    rfl
  | succ k ih =>
    have hlast : k * flashSectorSize < contents.length := by
      rcases hk with hk | hk
      · exact nomatch hk
      · exact hk
    obtain ⟨state, pulled, hproduce⟩ := ih (sector_before hlast)
    obtain ⟨state', pulled', hnext, -⟩ := h.produce_next hlast hproduce
    exact ⟨state', pulled', hnext⟩

theorem pulled_of_produce {k : Nat} {state : u.State} {pulled : Nat}
    (h : u.produce blocks contents.length k = some (state, pulled)) :
    u.pulled blocks contents.length k = pulled := by
  rw [Uzlib.pulled, h]
  rfl

theorem Inflates.pulled_le (h : Inflates u blocks size contents) {k m : Nat} (hkm : k ≤ m)
    (hm : m = 0 ∨ (m - 1) * flashSectorSize < contents.length) :
    u.pulled blocks contents.length k ≤ u.pulled blocks contents.length m := by
  induction m with
  | zero =>
    obtain rfl := Nat.le_zero.mp hkm
    exact Nat.le_refl _
  | succ m ih =>
    rcases Nat.lt_or_eq_of_le hkm with hlt | rfl
    · have hlast : m * flashSectorSize < contents.length := by
        rcases hm with hm | hm
        · exact nomatch hm
        · exact hm
      have hbefore := sector_before hlast
      refine Nat.le_trans (ih (Nat.le_of_lt_succ hlt) hbefore) ?_
      obtain ⟨state, pulled, hproduce⟩ := h.produced hbefore
      obtain ⟨state', pulled', hproduce', hnext⟩ := h.produce_next hlast hproduce
      rw [pulled_of_produce hproduce, pulled_of_produce hproduce']
      have hle := Pull.le_feed blocks (u.uncompress state (chunk contents.length m)) pulled
      rwa [hnext] at hle
    · exact Nat.le_refl _

end Inflate

section Sectors
variable {contents : List UInt8}

def sectorOf (contents : List UInt8) (k : Nat) : List UInt8 :=
  (contents.drop (k * flashSectorSize)).take flashSectorSize ++
    List.replicate (flashSectorSize - chunk contents.length k) 0xff

def sectorsOf (contents : List UInt8) : Nat → List UInt8
  | 0 => []
  | k + 1 => sectorsOf contents k ++ sectorOf contents k

theorem chunk_length (contents : List UInt8) (k : Nat) :
    ((contents.drop (k * flashSectorSize)).take flashSectorSize).length =
      chunk contents.length k := by
  rw [List.length_take, List.length_drop, chunk]

theorem sectorOf_length (contents : List UInt8) (k : Nat) :
    (sectorOf contents k).length = flashSectorSize := by
  rw [sectorOf, List.length_append, chunk_length, List.length_replicate]
  exact Nat.add_sub_cancel' (Nat.min_le_left _ _)

theorem sectorsOf_length (contents : List UInt8) (k : Nat) :
    (sectorsOf contents k).length = k * flashSectorSize := by
  induction k with
  | zero => exact (Nat.zero_mul _).symm
  | succ k ih => rw [sectorsOf, List.length_append, ih, sectorOf_length, Nat.succ_mul]

theorem sectorsOf_take {k : Nat} (hk : k * flashSectorSize ≤ contents.length) :
    sectorsOf contents k = contents.take (k * flashSectorSize) := by
  induction k with
  | zero => rw [Nat.zero_mul, List.take_zero, sectorsOf]
  | succ k ih =>
    have hstep : (k + 1) * flashSectorSize = k * flashSectorSize + flashSectorSize :=
      Nat.succ_mul k _
    have hfull : chunk contents.length k = flashSectorSize := by
      rw [chunk]
      omega
    rw [sectorsOf, ih (by omega), sectorOf, hfull, Nat.sub_self, List.replicate_zero,
      List.append_nil, hstep, List.take_add]

theorem sectorsOf_all (contents : List UInt8) :
    sectorsOf contents (sectors contents.length) =
      contents ++ List.replicate (rounded contents.length - contents.length) 0xff := by
  have hsector : flashSectorSize = 4096 := rfl
  have hcount : sectors contents.length = (contents.length + flashSectorSize - 1) / flashSectorSize := by
    rw [sectors, Int.toNat_natCast]
  cases hn : sectors contents.length with
  | zero =>
    rw [hn, hsector] at hcount
    have hnone : contents = [] := List.length_eq_zero_iff.mp (by omega)
    rw [hnone]
    rfl
  | succ k =>
    rw [hn, hsector] at hcount
    have hbefore : k * flashSectorSize ≤ contents.length := by
      rw [hsector]
      omega
    have hrest : (contents.drop (k * flashSectorSize)).take flashSectorSize =
        contents.drop (k * flashSectorSize) := by
      apply List.take_of_length_le
      rw [List.length_drop, hsector]
      omega
    have hfill : flashSectorSize - chunk contents.length k =
        rounded contents.length - contents.length := by
      rw [chunk, rounded, hsector]
      omega
    rw [sectorsOf, sectorsOf_take hbefore, sectorOf, hrest, hfill, ← List.append_assoc,
      List.take_append_drop]

end Sectors

section Run
variable {u : Uzlib} {c₀ : Chip} {src dst count : Nat} {flash : Cells UInt8}

def ReadsWork (c : Chip) : Prop := ∀ outcome ∈ c.reads, outcome.isFail = false

theorem Within.readsWork {c : Chip} (h : Within c₀ dst count c) (hworks : ReadsWork c₀) :
    ReadsWork c := fun outcome hmem => hworks outcome (h.reads.subset hmem)

theorem spiRead_works {address size : Nat} (hworks : ReadsWork c₀)
    (hfits : address + size ≤ c₀.chipSize) :
    Triple (Holds c₀ dst count flash) (spiRead false address size)
      (fun r c => Holds c₀ dst count flash c ∧ r.2 = read flash address size)
      (Within c₀ dst count) := by
  rintro c ⟨hwithin, hflash⟩
  have hhead : (c.reads.head?.getD .ok).isFail = false := by
    have hall := hwithin.readsWork hworks
    unfold ReadsWork at hall
    cases hreads : c.reads with
    | nil => rfl
    | cons first rest =>
      rw [hreads] at hall
      exact hall first (List.mem_cons_self ..)
  have hchip : ¬ c.chipSize < address + size := by
    rw [hwithin.chipSize]
    exact Nat.not_lt.mpr hfits
  unfold spiRead Chip.next
  rw [Chip.outcomes, if_neg Bool.false_ne_true]
  cases hnext : c.reads.head?.getD .ok with
  | ok =>
    dsimp only
    rw [if_neg hchip]
    exact ⟨⟨hwithin.called false, hflash⟩, by rw [hflash]⟩
  | fail garbage =>
    rw [hnext] at hhead
    exact absurd hhead.symm Bool.false_ne_true
  | reset garbage => exact hwithin.called false

theorem Pull.run_spec (hworks : ReadsWork c₀) (blocks : Nat → List UInt8) (p : Pull α) (i : Nat)
    (hblocks : ∀ j, i ≤ j → j < (p.feed blocks i).2 →
      blocksAt flash src j = blocks j ∧ src + j * flashSectorSize + flashSectorSize ≤ c₀.chipSize) :
    Triple (Holds c₀ dst count flash) (p.run (src + i * flashSectorSize))
      (fun r c => Holds c₀ dst count flash c ∧
        r = ((p.feed blocks i).1, src + (p.feed blocks i).2 * flashSectorSize))
      (Within c₀ dst count) := by
  induction p generalizing i with
  | done value => exact Triple.pure fun c hc => ⟨hc, rfl⟩
  | more next ih =>
    have hpulled : i < (Pull.feed blocks (.more next) i).2 :=
      Nat.lt_of_lt_of_le (Nat.lt_succ_self i) (Pull.le_feed blocks (next (blocks i)) (i + 1))
    obtain ⟨hblock, hfits⟩ := hblocks i (Nat.le_refl i) hpulled
    have hchip : c₀.chipSize ≤ 2 ^ 24 := Nat.mul_le_mul_right flashSectorSize c₀.chipFits
    have hnext : (src + i * flashSectorSize + flashSectorSize) % 2 ^ 32 =
        src + (i + 1) * flashSectorSize := by
      rw [Nat.mod_eq_of_lt (by omega), Nat.succ_mul, Nat.add_assoc]
    refine Triple.bind (spiRead_works hworks hfits) fun source => ?_
    rintro c ⟨hholds, hsource⟩
    change read flash (src + i * flashSectorSize) flashSectorSize = blocks i at hblock
    rw [hsource, hblock, hnext]
    exact ih (blocks i) (i + 1)
      (fun j hj hlt => hblocks j (Nat.le_of_succ_le hj) hlt) c hholds

end Run

section Copy
variable {u : Uzlib} {c₀ : Chip} {src dst size : Nat} {contents : List UInt8}

structure Image (u : Uzlib) (c₀ : Chip) (src dst size : Nat) (contents : List UInt8) : Prop where
  works : ReadsWork c₀
  srcAligned : src % flashSectorSize = 0
  dstAligned : dst % flashSectorSize = 0
  fits : src + rounded size ≤ c₀.chipSize
  inflates : Inflates u (blocksAt c₀.flash src) size contents
  ahead : ReadAhead u c₀.flash src dst contents.length

def installed (c₀ : Chip) (dst : Nat) (contents : List UInt8) (k : Nat) : Cells UInt8 :=
  write c₀.flash dst (sectorsOf contents k)

theorem before_all {k : Nat} (hk : k < sectors contents.length) :
    k * flashSectorSize < contents.length := by
  have hsector : flashSectorSize = 4096 := rfl
  rw [sectors, Int.toNat_natCast, hsector] at hk
  rw [hsector]
  omega

theorem sectors_cases (total : Nat) : sectors total = 0 ∨
    (sectors total - 1) * flashSectorSize < total := by
  have hsector : flashSectorSize = 4096 := rfl
  rw [sectors, Int.toNat_natCast, hsector]
  omega

theorem Image.unread (h : Image u c₀ src dst size contents) {k j : Nat}
    (hk : k ≤ sectors contents.length)
    (hlow : u.pulled (blocksAt c₀.flash src) contents.length k ≤ j)
    (hhigh : j < u.pulled (blocksAt c₀.flash src) contents.length (sectors contents.length)) :
    blocksAt (installed c₀ dst contents k) src j = blocksAt c₀.flash src j ∧
      src + j * flashSectorSize + flashSectorSize ≤ c₀.chipSize := by
  have hsector : flashSectorSize = 4096 := rfl
  have hsrc := h.srcAligned
  have hdst := h.dstAligned
  constructor
  · apply read_congr
    intro x hx
    refine write_of_outside _ _ _ _ ?_
    rw [sectorsOf_length]
    -- Otherwise the block is that of a sector that was written.
    refine Classical.byContradiction fun hin => ?_
    rw [hsector] at hsrc hdst hx hin
    obtain ⟨k', hsame⟩ : ∃ k', src + j * 4096 = dst + k' * 4096 :=
      ⟨(src + j * 4096 - dst) / 4096, by omega⟩
    have hbefore : k' < k := by omega
    have hpulled := h.inflates.pulled_le (k := k' + 1) (m := k) hbefore (by
      cases k with
      | zero => exact .inl rfl
      | succ k => exact .inr (before_all hk))
    refine h.ahead k' j (before_all (Nat.lt_of_lt_of_le hbefore hk))
      (Nat.le_trans hpulled hlow) hhigh ?_
    rw [hsector]
    exact hsame
  · obtain ⟨state, pulled, hproduce⟩ := h.inflates.produced (sectors_cases contents.length)
    have hbounded := h.inflates.bounded _ _ _ hproduce
    have hfits := h.fits
    rw [pulled_of_produce hproduce] at hhigh
    rw [hsector] at hbounded ⊢
    omega

theorem chunk_toRead {k : Nat} {left : Int} (hleft : left = contents.length - k * flashSectorSize) :
    (if left.toNat > flashSectorSize then flashSectorSize else left.toNat) =
      chunk contents.length k := by
  have hsector : flashSectorSize = 4096 := rfl
  rw [hsector] at hleft
  rw [chunk, hsector]
  split <;> omega

theorem fetch_gzip_spec (h : Image u c₀ src dst size contents) {k pulled : Nat} {state : u.State}
    (hk : k < sectors contents.length)
    (hproduce : u.produce (blocksAt c₀.flash src) contents.length k = some (state, pulled))
    {left : Int} (hleft : left = contents.length - k * flashSectorSize) (buffer : List UInt8)
    (saddr : Nat) :
    Triple (Holds c₀ dst (rounded contents.length) (installed c₀ dst contents k))
      (fetch u (.gzip state (src + pulled * flashSectorSize)) buffer left.toNat saddr)
      (fun r c => Holds c₀ dst (rounded contents.length) (installed c₀ dst contents k) c ∧
        ∃ state' pulled',
          u.produce (blocksAt c₀.flash src) contents.length (k + 1) = some (state', pulled') ∧
          r = .ok (sectorOf contents k, .gzip state' (src + pulled' * flashSectorSize)))
      (Within c₀ dst (rounded contents.length)) := by
  obtain ⟨state', pulled', hproduce', hnext⟩ := h.inflates.produce_next (before_all hk) hproduce
  have hlast : u.pulled (blocksAt c₀.flash src) contents.length (k + 1) ≤
      u.pulled (blocksAt c₀.flash src) contents.length (sectors contents.length) :=
    h.inflates.pulled_le hk (sectors_cases _)
  have hrun := @Pull.run_spec c₀ src dst (rounded contents.length) (installed c₀ dst contents k) _
    h.works (blocksAt c₀.flash src)
    (u.uncompress state (chunk contents.length k)) pulled (by
      rw [hnext]
      intro j hlow hhigh
      refine h.unread (Nat.le_of_lt hk) ?_ ?_
      · rwa [pulled_of_produce hproduce]
      · rw [pulled_of_produce hproduce'] at hlast
        exact Nat.lt_of_lt_of_le hhigh hlast)
  rw [fetch]
  dsimp only
  rw [chunk_toRead hleft]
  refine Triple.bind hrun fun result => ?_
  rintro c ⟨hholds, hresult⟩
  rw [hnext] at hresult
  subst hresult
  refine ⟨hholds, state', pulled', hproduce', ?_⟩
  dsimp only
  rw [List.take_left' (chunk_length contents k)]
  rfl

theorem copyLoop_gzip (h : Image u c₀ src dst size contents) (n k pulled : Nat) (state : u.State)
    (hn : k + n = sectors contents.length)
    (hproduce : u.produce (blocksAt c₀.flash src) contents.length k = some (state, pulled))
    (left : Int) (hleft : left = contents.length - k * flashSectorSize) (buffer : List UInt8)
    (saddr : Nat) :
    Triple (Holds c₀ dst (rounded contents.length) (installed c₀ dst contents k))
      (copyLoop u n (.gzip state (src + pulled * flashSectorSize)) buffer left saddr
        (dst + k * flashSectorSize))
      (fun code c => Within c₀ dst (rounded contents.length) c ∧
        (code = 0 → c.flash = installed c₀ dst contents (sectors contents.length)))
      (Within c₀ dst (rounded contents.length)) := by
  induction n generalizing k pulled state left buffer saddr with
  | zero =>
    refine Triple.pure fun c hc => ⟨hc.1, fun _ => ?_⟩
    rw [← hn]
    exact hc.2
  | succ n ih =>
    have hk : k < sectors contents.length := by omega
    have hstep : (k + 1) * flashSectorSize = k * flashSectorSize + flashSectorSize :=
      Nat.succ_mul k _
    have hall : k * flashSectorSize + flashSectorSize ≤ rounded contents.length := by
      have hsector : flashSectorSize = 4096 := rfl
      have hlow := before_all hk
      rw [hsector] at hlow
      rw [rounded, hsector]
      omega
    refine Triple.bind (fetch_gzip_spec h hk hproduce hleft buffer saddr) fun fetched => ?_
    rintro c ⟨hholds, state', pulled', hproduce', rfl⟩
    have hdaddr : (dst + k * flashSectorSize) % flashSectorSize = 0 := by
      rw [Nat.add_mul_mod_self_right]
      exact h.dstAligned
    refine Triple.bind (@install_spec c₀ dst (rounded contents.length) _ _ _
      hdaddr (by omega) (by omega) (sectorOf_length contents k)) (fun code => Triple.ite ?_ ?_)
      c hholds
    · intro hcode
      exact Triple.pure fun c hc => ⟨hc.1, fun h => absurd h hcode⟩
    · intro hcode
      rintro c' ⟨hwithin, hdone⟩
      obtain ⟨hflash, hfits⟩ := hdone (Classical.not_not.mp hcode)
      have hchip : c₀.chipSize ≤ 2 ^ 24 := Nat.mul_le_mul_right flashSectorSize c₀.chipFits
      have hnext : (dst + k * flashSectorSize + flashSectorSize) % 2 ^ 32 =
          dst + (k + 1) * flashSectorSize := by
        rw [Nat.mod_eq_of_lt (by omega)]
        omega
      rw [hnext]
      refine ih (k + 1) pulled' state' (by omega) hproduce' _ ?_ _ _ c' ⟨hwithin, ?_⟩
      · rw [hleft, Int.natCast_add, Int.natCast_one, Int.add_mul, Int.one_mul]
        omega
      · rw [hflash, installed, installed, sectorsOf, write_append, sectorsOf_length]

theorem readFlashByte_spec {count : Nat} {flash : Cells UInt8} (hworks : ReadsWork c₀) {address : Nat}
    (hfits : address < c₀.chipSize) :
    Triple (Holds c₀ dst count flash) (readFlashByte address)
      (fun byte c => Holds c₀ dst count flash c ∧ byte = flash address) (Within c₀ dst count) := by
  have hsector : flashSectorSize = 4096 := rfl
  have haligned : address / 4 * 4 + 4 ≤ c₀.chipSize := by
    rw [Chip.chipSize, hsector] at hfits ⊢
    omega
  refine Triple.bind (spiRead_works hworks haligned) fun buff => Triple.pure fun c hc => ⟨hc.1, ?_⟩
  have hlow : address % 4 < 4 := Nat.mod_lt _ (by decide)
  rw [hc.2, List.getD_eq_getElem?_getD, read_getElem? _ _ _ _ hlow, Option.getD_some,
    Nat.div_add_mod']

theorem isGzip_magic {count : Nat} {flash : Cells UInt8} (hworks : ReadsWork c₀)
    (hmagic : GzipMagic flash src) (hfits : src + 1 < c₀.chipSize) :
    Triple (Holds c₀ dst count flash) (isGzip src)
      (fun compressed c => Holds c₀ dst count flash c ∧ compressed = true) (Within c₀ dst count) := by
  have hchip : c₀.chipSize ≤ 2 ^ 24 := Nat.mul_le_mul_right flashSectorSize c₀.chipFits
  have hsecond : (src + 1) % 2 ^ 32 = src + 1 := Nat.mod_eq_of_lt (by omega)
  refine Triple.bind (readFlashByte_spec hworks (Nat.lt_of_succ_lt hfits)) fun first => ?_
  rintro c ⟨hholds, rfl⟩
  rw [if_pos hmagic.1, hsecond]
  refine Triple.bind (readFlashByte_spec hworks hfits) (fun second => ?_) c hholds
  refine Triple.pure fun c hc => ⟨hc.1, ?_⟩
  rw [hc.2]
  exact decide_eq_true hmagic.2

theorem leftGzip_spec {count length : Nat} {flash : Cells UInt8} (hworks : ReadsWork c₀)
    (hsize : 4 ≤ size) (hfits : src + size ≤ c₀.chipSize)
    (htrailer : read flash (src + size - 4) 4 = leBytes 4 length) (hlength : length < 2 ^ 31) :
    Triple (Holds c₀ dst count flash) (leftGzip src size)
      (fun left c => Holds c₀ dst count flash c ∧ left = (length : Int)) (Within c₀ dst count) := by
  have hchip : c₀.chipSize ≤ 2 ^ 24 := Nat.mul_le_mul_right flashSectorSize c₀.chipFits
  have haddress : ∀ n, n ≤ 4 → 0 < n →
      (src + size + 2 ^ 32 - n) % 2 ^ 32 = src + size - 4 + (4 - n) := by
    intro n hn hpos
    rw [show src + size + 2 ^ 32 - n = src + size - 4 + (4 - n) + 2 ^ 32 by omega,
      Nat.add_mod_right, Nat.mod_eq_of_lt (by omega)]
  rw [leftGzip, haddress 4 (by decide) (by decide), haddress 3 (by decide) (by decide),
    haddress 2 (by decide) (by decide), haddress 1 (by decide) (by decide)]
  refine Triple.bind (readFlashByte_spec hworks (by omega)) fun b0 => ?_
  rintro c ⟨hholds, rfl⟩
  refine Triple.bind (readFlashByte_spec hworks (by omega)) (fun b1 => ?_) c hholds
  rintro c ⟨hholds, rfl⟩
  refine Triple.bind (readFlashByte_spec hworks (by omega)) (fun b2 => ?_) c hholds
  rintro c ⟨hholds, rfl⟩
  refine Triple.bind (readFlashByte_spec hworks (by omega)) (fun b3 => ?_) c hholds
  refine Triple.pure fun c hc => ⟨hc.1, ?_⟩
  have hbytes : [flash (src + size - 4 + (4 - 4)), flash (src + size - 4 + (4 - 3)),
      flash (src + size - 4 + (4 - 2)), b3] = leBytes 4 length := by
    rw [hc.2, ← htrailer]
    rfl
  rw [hbytes, leValue_leBytes, int32]
  have hmod : length % 256 ^ 4 % 2 ^ 32 = length := by omega
  rw [hmod, if_pos hlength]

theorem copyRaw_gzip {c₀ : Chip} {src dst size : UInt32} {contents garbage : List UInt8}
    (h : Image u c₀ src.toNat dst.toNat size.toNat contents)
    (hfits : src.toNat + size.toNat ≤ c₀.chipSize)
    (hframed : Framed (read c₀.flash src.toNat size.toNat) contents)
    (hlength : contents.length < 2 ^ 31) :
    Triple (· = c₀) (copyRaw u garbage src dst size)
      (fun code c => Within c₀ dst.toNat (rounded contents.length) c ∧
        (code = 0 → c.flash = installed c₀ dst.toNat contents (sectors contents.length)))
      (Within c₀ dst.toNat (rounded contents.length)) := by
  rintro c rfl
  have hlong := hframed.long
  rw [read_length] at hlong
  have haligned : ¬ (src.toNat % flashSectorSize ≠ 0 ∨ dst.toNat % flashSectorSize ≠ 0) := by
    rw [h.srcAligned, h.dstAligned]
    decide
  have hmagic : GzipMagic c.flash src.toNat := by
    have hbytes := hframed.magic
    rw [read_take _ _ _ _ (by omega)] at hbytes
    have htwo : [c.flash (src.toNat + 0), c.flash (src.toNat + 1)] = [0x1f, 0x8b] := hbytes
    obtain ⟨hfirst, hrest⟩ := List.cons.inj htwo
    exact ⟨hfirst, (List.cons.inj hrest).1⟩
  have htrailer : read c.flash (src.toNat + size.toNat - 4) 4 = leBytes 4 contents.length := by
    have hbytes := hframed.trailer
    rw [read_length, read_drop _ _ _ _ (by omega), Nat.sub_sub_self (by omega),
      ← Nat.add_sub_assoc (by omega)] at hbytes
    exact hbytes
  have hstart : Holds c dst.toNat (rounded contents.length) c.flash c := ⟨Within.refl _ _ _, rfl⟩
  rw [copyRaw, if_neg haligned]
  refine Triple.bind (isGzip_magic h.works hmagic (by omega)) (fun compressed => ?_) c hstart
  rintro c' ⟨hholds, rfl⟩
  rw [if_pos rfl]
  refine Triple.bind (leftGzip_spec h.works (by omega) hfits htrailer hlength) (fun left => ?_) c'
    hholds
  rintro c'' ⟨hholds, rfl⟩
  obtain ⟨state, pulled, hheader⟩ := h.inflates.header
  have hproduce : u.produce (blocksAt c.flash src.toNat) contents.length 0 =
      some (state, pulled) := by
    rw [Uzlib.produce, hheader]
    rfl
  have hnone : installed c dst.toNat contents 0 = c.flash := by
    rw [installed, sectorsOf, write_nil]
  have hrun := @Pull.run_spec _ src.toNat dst.toNat (rounded contents.length) c.flash _
    h.works (blocksAt c.flash src.toNat) u.parseHeader 0 (by
      rw [hheader]
      intro j _ hhigh
      have hsector : flashSectorSize = 4096 := rfl
      have hbounded := h.inflates.bounded 0 state pulled hproduce
      have hchip := h.fits
      refine ⟨rfl, ?_⟩
      rw [hsector] at hbounded ⊢
      omega)
  rw [Nat.zero_mul, Nat.add_zero, hheader] at hrun
  refine Triple.bind hrun (fun header => ?_) c'' hholds
  rintro c₁ ⟨hholds, rfl⟩
  have hloop := copyLoop_gzip h (sectors contents.length) 0 pulled state (Nat.zero_add _) hproduce
    contents.length (by rw [Int.natCast_zero, Int.zero_mul, Int.sub_zero]) garbage src.toNat
  rw [hnone, Nat.zero_mul, Nat.add_zero] at hloop
  exact hloop c₁ hholds

end Copy

section Claims
variable {u : Uzlib} {src dst size : UInt32} {contents : List UInt8}

/-- A copy that returns 0 has installed the contents, the rest of the last sector is `0xff`, and no
other sector was touched. -/
def GzipInstalls (u : Uzlib) (garbage : List UInt8) (c : Chip) (src dst size : UInt32)
    (contents : List UInt8) : Prop :=
  let r := copyRaw u garbage src dst size c
  r.1 = some 0 →
    read r.2.flash dst.toNat contents.length = contents ∧
      (∀ a, dst.toNat + contents.length ≤ a → a < dst.toNat + rounded contents.length →
        r.2.flash a = 0xff) ∧
      ∃ new, r.2.touched = c.touched ++ new ∧ ∀ sector ∈ new,
        dst.toNat ≤ sector * flashSectorSize ∧
          sector * flashSectorSize + flashSectorSize ≤ dst.toNat + rounded contents.length

theorem readAhead_apart {flash : Cells UInt8} {src dst size : Nat}
    (hinflates : Inflates u (blocksAt flash src) size contents)
    (hapart : src + rounded size ≤ dst ∨ dst + rounded contents.length ≤ src) :
    ReadAhead u flash src dst contents.length := by
  have hsector : flashSectorSize = 4096 := rfl
  intro k j hk hlow hhigh hsame
  obtain ⟨state, pulled, hproduce⟩ := hinflates.produced (sectors_cases contents.length)
  have hbounded := hinflates.bounded _ _ _ hproduce
  rw [pulled_of_produce hproduce] at hhigh
  have hround : k * flashSectorSize < rounded contents.length :=
    Nat.lt_of_lt_of_le hk (le_rounded _)
  rw [hsector] at hbounded hsame hround
  omega

theorem installed_all (c₀ : Chip) (dst : Nat) (contents : List UInt8) :
    read (installed c₀ dst contents (sectors contents.length)) dst contents.length = contents ∧
      ∀ a, dst + contents.length ≤ a → a < dst + rounded contents.length →
        installed c₀ dst contents (sectors contents.length) a = 0xff := by
  rw [installed, sectorsOf_all]
  have hround := le_rounded contents.length
  constructor
  · rw [read_eq_iff]
    intro i hi
    rw [write_of_mem _ _ _ i (by rw [List.length_append]; omega), List.getElem_append_left hi]
  · intro a hlow hhigh
    obtain ⟨i, rfl⟩ : ∃ i, a = dst + i := ⟨a - dst, by omega⟩
    rw [write_of_mem _ _ _ i (by rw [List.length_append, List.length_replicate]; omega),
      List.getElem_append_right (by omega), List.getElem_replicate]

def Correct (u : Uzlib) (Member : List UInt8 → List UInt8 → Prop) : Prop :=
  ∀ bytes contents, Member bytes contents → ∀ blocks, Extends blocks bytes →
    Inflates u blocks bytes.length contents

/-- The copy of a compressed image installs its contents if the image is read ahead; if it lies apart
from its destination, then also when it begins again after resets. -/
theorem gzip_installs (u : Uzlib) (Member : List UInt8 → List UInt8 → Prop)
    (hframed : ∀ bytes contents, Member bytes contents → Framed bytes contents)
    (hcorrect : Correct u Member) {src dst size : UInt32} {contents : List UInt8} {c₀ : Chip}
    (hsrc : src.toNat % flashSectorSize = 0) (hdst : dst.toNat % flashSectorSize = 0)
    (hfits : src.toNat + size.toNat ≤ c₀.chipSize)
    (hmember : Member (read c₀.flash src.toNat size.toNat) contents)
    (hlength : contents.length < 2 ^ 31) :
    (∀ garbage, ReadsWork c₀ → ReadAhead u c₀.flash src.toNat dst.toNat contents.length →
      GzipInstalls u garbage c₀ src dst size contents) ∧
    (src.toNat + rounded size.toNat ≤ dst.toNat ∨
        dst.toNat + rounded contents.length ≤ src.toNat →
      Commanded c₀ src dst size → ∀ starts, (boots u).Along (Copies u ReadsWork) c₀ starts →
        Going c₀ dst.toNat (rounded contents.length)
          (installed c₀ dst.toNat contents (sectors contents.length))
          ((boots u).run c₀ starts).1) := by
  have hrounded : ∀ {c : Chip}, c.chipSectors = c₀.chipSectors →
      src.toNat + rounded size.toNat ≤ c.chipSize := by
    intro c hchip
    have hsector : flashSectorSize = 4096 := rfl
    rw [Chip.chipSize, hsector] at hfits
    rw [Chip.chipSize, hchip, rounded, hsector]
    rw [hsector] at hsrc
    omega
  have hinflates : ∀ c : Chip, read c.flash src.toNat size.toNat =
      read c₀.flash src.toNat size.toNat →
      Inflates u (blocksAt c.flash src.toNat) size.toNat contents := by
    intro c hsame
    have hextends := blocksAt_extends c.flash src.toNat size.toNat
    rw [hsame] at hextends
    have h := hcorrect _ _ hmember _ hextends
    rwa [read_length] at h
  constructor
  · intro garbage hworks hahead hend
    have himage : Image u c₀ src.toNat dst.toNat size.toNat contents :=
      ⟨hworks, hsrc, hdst, hrounded rfl, hinflates c₀ rfl, hahead⟩
    obtain ⟨hwithin, hdone⟩ := (@copyRaw_gzip u c₀ src dst size contents garbage himage hfits
      (hframed _ _ hmember) hlength).ended rfl hend
    obtain ⟨hcontents, hfill⟩ := installed_all c₀ dst.toNat contents
    rw [hdone rfl]
    exact ⟨hcontents, hfill, hwithin.touched⟩
  · intro hapart hcommand starts along
    refine boots_going ?_ hcommand starts along
    intro start c garbage hwithin hworks
    have hsame : read c.flash src.toNat size.toNat = read c₀.flash src.toNat size.toNat := by
      have hround := le_rounded size.toNat
      exact read_congr fun i hi => hwithin.outside _ (by omega)
    have hmember' : Framed (read c.flash src.toNat size.toNat) contents := by
      rw [hsame]
      exact hframed _ _ hmember
    have himage : Image u c src.toNat dst.toNat size.toNat contents :=
      ⟨hworks, hsrc, hdst, hrounded hwithin.chip, hinflates c hsame,
        readAhead_apart (hinflates c hsame) hapart⟩
    have hchip : src.toNat + size.toNat ≤ c.chipSize := by
      rw [hwithin.chipSize]
      exact hfits
    refine (copyRaw_gzip himage hchip hmember' hlength).weaken (fun _ h => h) ?_ fun _ h => h
    intro code c' hc'
    refine ⟨hc'.1, fun hcode => (hc'.2 hcode).trans ?_⟩
    -- Both write the same sectors over what is the same outside.
    funext a
    have hlength := sectorsOf_length contents (sectors contents.length)
    have hcount : sectors contents.length * flashSectorSize = rounded contents.length := by
      rw [sectors, Int.toNat_natCast, rounded]
    rw [hcount] at hlength
    unfold installed
    by_cases hin : dst.toNat ≤ a ∧ a < dst.toNat + rounded contents.length
    · obtain ⟨i, rfl⟩ : ∃ i, a = dst.toNat + i := ⟨a - dst.toNat, by omega⟩
      rw [write_of_mem _ _ _ i (by omega), write_of_mem _ _ _ i (by omega)]
    · rw [write_of_outside _ _ _ _ (by omega), write_of_outside _ _ _ _ (by omega)]
      exact hwithin.outside a (by omega)

end Claims

section Stored

def storedImage : List UInt8 :=
  [0x1f, 0x8b, 0x08, 0, 0, 0, 0, 0, 0, 0xff, 0x01, 0x01, 0, 0xfe, 0xff, 0x41,
    0x8b, 0x9e, 0xd9, 0xd3, 0x01, 0, 0, 0]

def storedOnly : Uzlib where
  State := List UInt8
  parseHeader := .more fun block => .done <|
    if block.take 11 = storedImage.take 11 then
      some ((block.drop 15).take (leValue ((block.drop 11).take 2)))
    else none
  uncompress state count := .done (some (state.take count, state.drop count))

def IsStored (bytes contents : List UInt8) : Prop := bytes = storedImage ∧ contents = [0x41]

theorem isStored_framed (bytes contents : List UInt8) (h : IsStored bytes contents) :
    Framed bytes contents := by
  obtain ⟨rfl, rfl⟩ := h
  exact ⟨by decide, rfl, rfl⟩

theorem storedOnly_correct : Correct storedOnly IsStored := by
  rintro bytes contents ⟨rfl, rfl⟩ blocks hextends
  obtain ⟨-, hbytes⟩ := hextends 0
  have htake : (blocks 0).take 24 = storedImage := by
    apply List.ext_getElem?
    intro j
    by_cases hj : j < 24
    · have hsame := hbytes j (Nat.lt_of_lt_of_le hj (by decide)) (by
        rw [Nat.zero_mul, Nat.zero_add]
        exact hj)
      rw [Nat.zero_mul, Nat.zero_add] at hsame
      rw [List.getElem?_take_of_lt hj, hsame]
    · rw [List.getElem?_eq_none (by rw [List.length_take]; omega),
        List.getElem?_eq_none (Nat.le_of_not_lt hj)]
  have hblock : blocks 0 = storedImage ++ (blocks 0).drop 24 := by
    rw [← htake, List.take_append_drop]
  have hheader : storedOnly.parseHeader.feed blocks 0 = (some [0x41], 1) := by
    change ((if (blocks 0).take 11 = storedImage.take 11 then
      some (((blocks 0).drop 15).take (leValue (((blocks 0).drop 11).take 2))) else none), 1) = _
    rw [hblock]
    rfl
  have hproduce : ∀ k, ∃ state, storedOnly.produce blocks [0x41].length k = some (state, 1) ∧
      (k = 0 → state = [0x41]) := by
    intro k
    induction k with
    | zero =>
      refine ⟨[0x41], ?_, fun _ => rfl⟩
      rw [Uzlib.produce, hheader]
      rfl
    | succ k ih =>
      obtain ⟨state, hstate, -⟩ := ih
      refine ⟨state.drop (chunk [0x41].length k), ?_, fun h => nomatch h⟩
      rw [Uzlib.produce, hstate]
      rfl
  refine ⟨⟨_, _, hheader⟩, ?_, ?_⟩
  · intro k state pulled hk hstate
    obtain rfl : k = 0 := by
      have hsector : flashSectorSize = 4096 := rfl
      have hone : ([0x41] : List UInt8).length = 1 := rfl
      rw [hsector, hone] at hk
      omega
    obtain ⟨state', hstate', hfirst⟩ := hproduce 0
    obtain ⟨rfl, rfl⟩ := Prod.mk.inj (Option.some.inj (hstate'.symm.trans hstate))
    rw [hfirst rfl]
    exact ⟨[], 1, rfl⟩
  · intro k state pulled hstate
    obtain ⟨state', hstate', -⟩ := hproduce k
    obtain ⟨rfl, rfl⟩ := Prod.mk.inj (Option.some.inj (hstate'.symm.trans hstate))
    decide

def stagedGzip (dst : UInt32) : Chip where
  flash := write (fun _ => 0xff) 0x100000 storedImage
  chipSectors := 2 ^ 10
  chipFits := staged.chipFits
  rtc := ebootCommandWrite
    ⟨0, actionCopyRaw, fun i => if i.val = 0 then 0x100000 else if i.val = 1 then dst else 24, 0⟩
  reads := []
  checks := []
  changes := []
  touched := []

theorem stagedGzip_member (dst : UInt32) :
    IsStored (read (stagedGzip dst).flash (0x100000 : UInt32).toNat (24 : UInt32).toNat) [0x41] :=
  ⟨read_write_same _ 0x100000 storedImage, rfl⟩

theorem stored_installs :
    (∀ garbage, ReadsWork (stagedGzip 0x1000) →
      ReadAhead storedOnly (stagedGzip 0x1000).flash (0x100000 : UInt32).toNat
        (0x1000 : UInt32).toNat [(0x41 : UInt8)].length →
      GzipInstalls storedOnly garbage (stagedGzip 0x1000) 0x100000 0x1000 24 [0x41]) ∧
    ((0x100000 : UInt32).toNat + rounded (24 : UInt32).toNat ≤ (0x1000 : UInt32).toNat ∨
        (0x1000 : UInt32).toNat + rounded [(0x41 : UInt8)].length ≤ (0x100000 : UInt32).toNat →
      Commanded (stagedGzip 0x1000) 0x100000 0x1000 24 →
      ∀ starts, (boots storedOnly).Along (Copies storedOnly ReadsWork) (stagedGzip 0x1000) starts →
        Going (stagedGzip 0x1000) (0x1000 : UInt32).toNat (rounded [(0x41 : UInt8)].length)
          (installed (stagedGzip 0x1000) (0x1000 : UInt32).toNat [0x41]
            (sectors [(0x41 : UInt8)].length))
          ((boots storedOnly).run (stagedGzip 0x1000) starts).1) :=
  gzip_installs storedOnly IsStored isStored_framed storedOnly_correct (by decide) (by decide)
    (by decide) (stagedGzip_member 0x1000) (by decide)

def sizeUnread : Chip :=
  { stagedGzip 0x1000 with
    reads := [.ok, .ok, .fail [0, 0, 0, 0], .fail [0, 0, 0, 0], .fail [0, 0, 0, 0],
      .fail [0, 0, 0, 0]] }

theorem sizeUnread_notCopied :
    IsStored (read sizeUnread.flash 0x100000 24) [0x41] ∧
      let r := copyRaw storedOnly [] 0x100000 0x1000 24 sizeUnread
      r.1 = some 0 ∧ r.2.flash 0x1000 ≠ 0x41 :=
  ⟨stagedGzip_member 0x1000, by decide +kernel⟩

end Stored

end Esp8266.Eboot
