import Mathlib.Data.List.DropRight
import Mathlib.Data.List.Pairwise

/-! The connection to one of several WiFi networks: the networks of a scan that are known, sorted by
their strength, and then the access points of the list that were not among them. -/
namespace Esp8266.Wifi

abbrev Text := List UInt8

structure WifiAPEntry where
  ssid : Text
  passphrase : Text
  deriving DecidableEq

structure Network where
  ssid : Text
  rssi : Int

def aplistExists (aplist : List WifiAPEntry) (ssid : Text) (passphrase : Option Text) : Bool :=
  aplist.any fun entry => entry.ssid = ssid ∧ entry.passphrase = passphrase.getD []

/-- The arguments of `APlistAdd`, which may be null pointers, and whether memory is found. -/
structure Adding where
  ssid : Option Text
  passphrase : Option Text
  allocated : Bool

def aplistAdd (aplist : List WifiAPEntry) (call : Adding) : List WifiAPEntry :=
  match call.ssid with
  | none => aplist
  | some ssid =>
    if ssid = [] ∨ ssid.length > 32 then aplist
    else if call.passphrase.any fun passphrase => passphrase.length > 64 then aplist
    else if aplistExists aplist ssid call.passphrase = true then aplist
    else if call.allocated = true then aplist ++ [⟨ssid, call.passphrase.getD []⟩]
    else aplist

def built (calls : List Adding) : List WifiAPEntry := calls.foldl aplistAdd []

def scanResult (networks : List Network) : Nat :=
  if networks.length % 256 < 128 then networks.length % 256 else 0

def ssidAt (networks : List Network) (i : Nat) : Text := (networks[i]?.map Network.ssid).getD []

def rssiAt (networks : List Network) (i : Nat) : Int := (networks[i]?.map Network.rssi).getD 0

def found (networks : List Network) (aplist : List WifiAPEntry) : List Nat :=
  (List.range (scanResult networks)).flatMap fun i =>
    (aplist.filter fun entry => ssidAt networks i = entry.ssid).map fun _ => i

structure Known where
  numNetworks : Nat
  known : Nat → Nat
  writes : List Nat

def Known.push (f : Known) (i : Nat) : Known where
  numNetworks := (f.numNetworks + 1) % 256
  known := fun k => if k = f.numNetworks then i else f.known k
  writes := f.writes ++ [f.numNetworks]

def Known.none : Known := ⟨0, fun _ => 0, []⟩

def Known.indices (f : Known) : List Nat := (List.range f.numNetworks).map f.known

def pass (rssi : Nat → Int) (first : Nat) : List Nat → Nat × List Nat
  | [] => (first, [])
  | other :: rest =>
    if rssi other > rssi first then
      let done := pass rssi other rest
      (done.1, first :: done.2)
    else
      let done := pass rssi first rest
      (done.1, other :: done.2)

theorem pass_length (rssi : Nat → Int) (first : Nat) (rest : List Nat) :
    (pass rssi first rest).2.length = rest.length := by
  induction rest generalizing first with
  | nil => rfl
  | cons other rest ih =>
    unfold pass
    split
    · exact congrArg (· + 1) (ih other)
    · exact congrArg (· + 1) (ih first)

def sortNetworks (rssi : Nat → Int) : List Nat → List Nat
  | [] => []
  | first :: rest =>
    (pass rssi first rest).1 :: sortNetworks rssi (pass rssi first rest).2
termination_by networks => networks.length
decreasing_by simp [pass_length]

/-- A call of `WiFi.begin`: for a network of the scan, with its channel and BSSID, or without. -/
structure Attempt where
  network : Option Nat
  entry : Nat
  ssid : Text
  passphrase : Text
  deriving DecidableEq

def byteIndices (rounds size : Nat) : List Nat :=
  if size < 256 then List.range size else (List.replicate rounds (List.range 256)).flatten

def networkAttempts (rounds : Nat) (networks : List Network) (aplist : List WifiAPEntry)
    (i : Nat) : List Attempt :=
  (byteIndices rounds aplist.length).filterMap fun j =>
    match aplist[j]? with
    | some entry =>
      if ssidAt networks i = entry.ssid then some ⟨some i, j, entry.ssid, entry.passphrase⟩
      else none
    | none => none

def scannedAttempts (rounds : Nat) (networks : List Network) (aplist : List WifiAPEntry)
    (known : List Nat) : List Attempt :=
  if aplist.length < 256 then known.flatMap (networkAttempts rounds networks aplist)
  else (known.take 1).flatMap (networkAttempts rounds networks aplist)

def hiddenAttempts (rounds : Nat) (aplist : List WifiAPEntry) (skip : List Nat) : List Attempt :=
  (byteIndices rounds aplist.length).filterMap fun j =>
    match aplist[j]? with
    | some entry => if j ∈ skip then none else some ⟨none, j, entry.ssid, entry.passphrase⟩
    | none => none

def tryAll (connects : Nat → Bool) (done : Nat) : List Attempt → List Attempt × Bool
  | [] => ([], false)
  | attempt :: rest =>
    if connects done = true then ([attempt], true)
    else
      let tried := tryAll connects (done + 1) rest
      (attempt :: tried.1, tried.2)

inductive Status where
  | connected
  | connectFailed
  deriving DecidableEq

/-- What a call did: the array of known networks, the indices written to `connectSkipIndex`, the
attempts, and what was returned, if anything was in so many rounds. -/
structure Outcome where
  known : Known
  skipped : List Nat
  attempts : List Attempt
  status : Option Status

def connectWiFiMulti (rounds : Nat) (connects : Nat → Bool) (networks : List Network)
    (aplist : List WifiAPEntry) : Outcome :=
  let known := (found networks aplist).foldl Known.push Known.none
  let sorted := sortNetworks (rssiAt networks) known.indices
  if known.numNetworks > 127 then ⟨known, [], [], none⟩
  else
    let first := tryAll connects 0 (scannedAttempts rounds networks aplist sorted)
    let skip := first.1.map Attempt.entry
    if first.2 = true then ⟨known, skip.dropLast, first.1, some .connected⟩
    else if 256 ≤ aplist.length ∧ sorted ≠ [] then ⟨known, skip, first.1, none⟩
    else
      let second := tryAll connects first.1.length (hiddenAttempts rounds aplist skip)
      let attempts := first.1 ++ second.1
      if second.2 = true then ⟨known, skip, attempts, some .connected⟩
      else if 256 ≤ aplist.length then ⟨known, skip, attempts, none⟩
      else ⟨known, skip, attempts, some .connectFailed⟩

def pairs (networks : List Network) (aplist : List WifiAPEntry) : Nat :=
  ((List.range (scanResult networks)).flatMap fun i =>
    aplist.filter fun entry => ssidAt networks i = entry.ssid).length

structure Attempt.Right (networks : List Network) (aplist : List WifiAPEntry) (a : Attempt) :
    Prop where
  entry : aplist[a.entry]? = some ⟨a.ssid, a.passphrase⟩
  network : ∀ i, a.network = some i → ∃ n, networks[i]? = some n ∧ n.ssid = a.ssid

structure Outcome.Safe (networks : List Network) (aplist : List WifiAPEntry) (o : Outcome) :
    Prop where
  known : ∀ index ∈ o.known.writes, index < aplist.length
  skipped : ∀ index ∈ o.skipped, index < aplist.length
  right : ∀ a ∈ o.attempts, a.Right networks aplist
  order : o.attempts.Pairwise fun a b => ∀ i j, a.network = some i → b.network = some j →
    rssiAt networks j ≤ rssiAt networks i
  entries : o.status = some .connectFailed →
    ∀ j < aplist.length, ∃ a ∈ o.attempts, a.entry = j
  networks : o.status = some .connectFailed →
    ∀ i < scanResult networks, ∀ j entry, aplist[j]? = some entry →
      ssidAt networks i = entry.ssid → ∃ a ∈ o.attempts, a.network = some i ∧ a.entry = j

section Lists

theorem aplistAdd_ssid {aplist : List WifiAPEntry} (h : ∀ entry ∈ aplist, entry.ssid ≠ [])
    (call : Adding) : ∀ entry ∈ aplistAdd aplist call, entry.ssid ≠ [] := by
  unfold aplistAdd
  split
  · exact h
  · split
    · exact h
    · rename_i ssid _ hvalid
      split
      · exact h
      · split
        · exact h
        · split
          · intro entry hentry
            rcases List.mem_append.mp hentry with hold | hnew
            · exact h entry hold
            · rw [List.mem_singleton.mp hnew]
              exact fun hnone => hvalid (Or.inl hnone)
          · exact h

theorem built_ssid (calls : List Adding) : ∀ entry ∈ built calls, entry.ssid ≠ [] := by
  unfold built
  induction calls using List.reverseRecOn with
  | nil => exact fun entry hentry => absurd hentry List.not_mem_nil
  | append_singleton calls call ih =>
    rw [List.foldl_append]
    exact aplistAdd_ssid ih call

theorem found_length (networks : List Network) (aplist : List WifiAPEntry) :
    (found networks aplist).length = pairs networks aplist := by
  unfold found pairs
  rw [List.length_flatMap, List.length_flatMap]
  congr 1
  exact List.map_congr_left fun i _ => List.length_map _

theorem mem_found {networks : List Network} {aplist : List WifiAPEntry} {i : Nat}
    (hscan : i < scanResult networks) {entry : WifiAPEntry} (hentry : entry ∈ aplist)
    (hssid : ssidAt networks i = entry.ssid) : i ∈ found networks aplist := by
  refine List.mem_flatMap.mpr ⟨i, List.mem_range.mpr hscan, List.mem_map.mpr ⟨entry, ?_, rfl⟩⟩
  exact List.mem_filter.mpr ⟨hentry, decide_eq_true hssid⟩

theorem fill_writes (networks : List Nat) :
    (networks.foldl Known.push Known.none).writes =
        (List.range networks.length).map (· % 256) ∧
      (networks.foldl Known.push Known.none).numNetworks = networks.length % 256 := by
  induction networks using List.reverseRecOn with
  | nil => exact ⟨rfl, rfl⟩
  | append_singleton networks i ih =>
    rw [List.foldl_append, List.length_append, List.length_singleton]
    refine ⟨?_, ?_⟩
    · show (networks.foldl Known.push Known.none).writes ++
        [(networks.foldl Known.push Known.none).numNetworks] = _
      rw [ih.1, ih.2, List.range_succ, List.map_append]
      rfl
    · show ((networks.foldl Known.push Known.none).numNetworks + 1) % 256 = _
      rw [ih.2]
      omega

theorem fill_indices (networks : List Nat) (hfew : networks.length < 256) :
    (networks.foldl Known.push Known.none).indices = networks := by
  induction networks using List.reverseRecOn with
  | nil => rfl
  | append_singleton networks i ih =>
    rw [List.length_append, List.length_singleton] at hfew
    have hkept := ih (by omega)
    have hcount := (fill_writes networks).2
    rw [Nat.mod_eq_of_lt (by omega)] at hcount
    rw [List.foldl_append]
    unfold Known.indices at hkept ⊢
    show (List.range (((networks.foldl Known.push Known.none).numNetworks + 1) % 256)).map
      (fun k => if k = (networks.foldl Known.push Known.none).numNetworks then i
        else (networks.foldl Known.push Known.none).known k) = _
    rw [hcount] at hkept ⊢
    rw [Nat.mod_eq_of_lt (by omega), List.range_succ, List.map_append]
    congr 1
    · refine Eq.trans (List.map_congr_left fun k hk => ?_) hkept
      exact if_neg (by have := List.mem_range.mp hk; omega)
    · simp

theorem writes_fit (count size : Nat) :
    (∀ index ∈ (List.range count).map (· % 256), index < size) ↔ count ≤ size ∨ 256 ≤ size := by
  constructor
  · intro hall
    by_cases hmany : 256 ≤ size
    · exact Or.inr hmany
    · refine Or.inl (Nat.le_of_not_lt fun hover => ?_)
      have hwrite := hall (size % 256) (List.mem_map.mpr ⟨size, List.mem_range.mpr hover, rfl⟩)
      omega
  · rintro hfits index hindex
    obtain ⟨k, hk, rfl⟩ := List.mem_map.mp hindex
    have hcount := List.mem_range.mp hk
    have hbyte : k % 256 < 256 := Nat.mod_lt k (by decide)
    have hmod := Nat.mod_le k 256
    omega

end Lists

section Sorting
variable (rssi : Nat → Int)

theorem pass_perm (first : Nat) (rest : List Nat) :
    ((pass rssi first rest).1 :: (pass rssi first rest).2).Perm (first :: rest) := by
  induction rest generalizing first with
  | nil => exact List.Perm.refl _
  | cons other rest ih =>
    unfold pass
    split
    · exact (List.Perm.swap _ _ _).trans ((ih other).cons first)
    · exact (List.Perm.swap _ _ _).trans (((ih first).cons other).trans (List.Perm.swap _ _ _))

theorem pass_strongest (first : Nat) (rest : List Nat) :
    rssi first ≤ rssi (pass rssi first rest).1 ∧
      ∀ other ∈ (pass rssi first rest).2, rssi other ≤ rssi (pass rssi first rest).1 := by
  induction rest generalizing first with
  | nil => exact ⟨Int.le_refl _, fun other hother => absurd hother List.not_mem_nil⟩
  | cons second rest ih =>
    unfold pass
    split
    · rename_i hstronger
      obtain ⟨hfirst, hrest⟩ := ih second
      have hless : rssi first ≤ rssi (pass rssi second rest).1 := by omega
      refine ⟨hless, fun other hother => ?_⟩
      rcases List.mem_cons.mp hother with rfl | hother
      · exact hless
      · exact hrest other hother
    · rename_i hweaker
      obtain ⟨hfirst, hrest⟩ := ih first
      refine ⟨hfirst, fun other hother => ?_⟩
      rcases List.mem_cons.mp hother with rfl | hother
      · show rssi other ≤ rssi (pass rssi first rest).1
        omega
      · exact hrest other hother

theorem sortNetworks_perm (networks : List Nat) :
    (sortNetworks rssi networks).Perm networks := by
  induction networks using sortNetworks.induct rssi with
  | case1 =>
    unfold sortNetworks
    exact List.Perm.refl _
  | case2 first rest ih =>
    unfold sortNetworks
    exact (ih.cons _).trans (pass_perm rssi first rest)

theorem sortNetworks_sorted (networks : List Nat) :
    (sortNetworks rssi networks).Pairwise fun i j => rssi j ≤ rssi i := by
  induction networks using sortNetworks.induct rssi with
  | case1 =>
    unfold sortNetworks
    exact List.Pairwise.nil
  | case2 first rest ih =>
    unfold sortNetworks
    refine List.Pairwise.cons (fun other hother => ?_) ih
    exact (pass_strongest rssi first rest).2 other
      ((sortNetworks_perm rssi (pass rssi first rest).2).mem_iff.mp hother)

end Sorting

section Attempts
variable {rounds : Nat} {networks : List Network} {aplist : List WifiAPEntry}

theorem tryAll_prefix (connects : Nat → Bool) (done : Nat) (attempts : List Attempt) :
    (tryAll connects done attempts).1 <+: attempts ∧
      ((tryAll connects done attempts).2 = false →
        (tryAll connects done attempts).1 = attempts) := by
  induction attempts generalizing done with
  | nil => exact ⟨List.prefix_rfl, fun _ => rfl⟩
  | cons attempt rest ih =>
    obtain ⟨hstart, hall⟩ := ih (done + 1)
    unfold tryAll
    split
    · exact ⟨List.prefix_cons_inj attempt |>.mpr List.nil_prefix, fun h => absurd h.symm
        Bool.false_ne_true⟩
    · exact ⟨(List.prefix_cons_inj attempt).mpr hstart, fun h => congrArg _ (hall h)⟩

theorem mem_byteIndices {size j : Nat} (hfew : size < 256) (hj : j < size) :
    j ∈ byteIndices rounds size := by
  unfold byteIndices
  rw [if_pos hfew]
  exact List.mem_range.mpr hj

theorem mem_networkAttempts {i : Nat} {a : Attempt}
    (ha : a ∈ networkAttempts rounds networks aplist i) :
    a.network = some i ∧ aplist[a.entry]? = some ⟨a.ssid, a.passphrase⟩ ∧
      ssidAt networks i = a.ssid := by
  obtain ⟨j, hj, hattempt⟩ := List.mem_filterMap.mp ha
  split at hattempt
  · rename_i entry hentry
    split at hattempt
    · rename_i hssid
      cases Option.some.inj hattempt
      exact ⟨rfl, hentry, hssid⟩
    · cases hattempt
  · cases hattempt

theorem networkAttempts_mem {i j : Nat} {entry : WifiAPEntry} (hfew : aplist.length < 256)
    (hentry : aplist[j]? = some entry) (hssid : ssidAt networks i = entry.ssid) :
    ⟨some i, j, entry.ssid, entry.passphrase⟩ ∈ networkAttempts rounds networks aplist i := by
  have hj : j < aplist.length := (List.getElem?_eq_some_iff.mp hentry).1
  refine List.mem_filterMap.mpr ⟨j, mem_byteIndices hfew hj, ?_⟩
  rw [hentry]
  exact if_pos hssid

theorem mem_hiddenAttempts {skip : List Nat} {a : Attempt}
    (ha : a ∈ hiddenAttempts rounds aplist skip) :
    a.network = none ∧ aplist[a.entry]? = some ⟨a.ssid, a.passphrase⟩ := by
  obtain ⟨j, hj, hattempt⟩ := List.mem_filterMap.mp ha
  split at hattempt
  · rename_i entry hentry
    split at hattempt
    · cases hattempt
    · cases Option.some.inj hattempt
      exact ⟨rfl, hentry⟩
  · cases hattempt

theorem hiddenAttempts_mem {skip : List Nat} {j : Nat} (hfew : aplist.length < 256)
    (hj : j < aplist.length) (hskip : j ∉ skip) :
    ∃ a ∈ hiddenAttempts rounds aplist skip, a.entry = j := by
  refine ⟨⟨none, j, aplist[j].ssid, aplist[j].passphrase⟩, ?_, rfl⟩
  refine List.mem_filterMap.mpr ⟨j, mem_byteIndices hfew hj, ?_⟩
  rw [List.getElem?_eq_getElem hj]
  exact if_neg hskip

theorem ssidAt_network {i : Nat} {ssid : Text} (hssid : ssidAt networks i = ssid)
    (hsome : ssid ≠ []) : ∃ n, networks[i]? = some n ∧ n.ssid = ssid := by
  unfold ssidAt at hssid
  match hn : networks[i]? with
  | none =>
    rw [hn] at hssid
    exact absurd hssid.symm hsome
  | some n =>
    rw [hn] at hssid
    exact ⟨n, rfl, hssid⟩

theorem scannedAttempts_network {known : List Nat} {a : Attempt}
    (ha : a ∈ scannedAttempts rounds networks aplist known) :
    ∃ i ∈ known, a ∈ networkAttempts rounds networks aplist i := by
  unfold scannedAttempts at ha
  split at ha
  · exact List.mem_flatMap.mp ha
  · obtain ⟨i, hi, hattempt⟩ := List.mem_flatMap.mp ha
    exact ⟨i, List.mem_of_mem_take hi, hattempt⟩

theorem scannedAttempts_order {known : List Nat}
    (hsorted : known.Pairwise fun i j => rssiAt networks j ≤ rssiAt networks i) :
    (scannedAttempts rounds networks aplist known).Pairwise fun a b =>
      ∀ i j, a.network = some i → b.network = some j →
        rssiAt networks j ≤ rssiAt networks i := by
  have hflat : ∀ known : List Nat,
      (known.Pairwise fun i j => rssiAt networks j ≤ rssiAt networks i) →
      (known.flatMap (networkAttempts rounds networks aplist)).Pairwise fun a b =>
        ∀ i j, a.network = some i → b.network = some j →
          rssiAt networks j ≤ rssiAt networks i := by
    intro known hsorted
    refine List.pairwise_flatMap.mpr ⟨fun n _ => ?_, hsorted.imp fun {n m} hle a ha b hb => ?_⟩
    · refine List.pairwise_of_forall_mem_list fun a ha b hb i j hi hj => ?_
      have hai := Option.some.inj (hi.symm.trans (mem_networkAttempts ha).1)
      have hbj := Option.some.inj (hj.symm.trans (mem_networkAttempts hb).1)
      exact Int.le_of_eq (by rw [hai, hbj])
    · intro i j hi hj
      have hai := Option.some.inj (hi.symm.trans (mem_networkAttempts ha).1)
      have hbj := Option.some.inj (hj.symm.trans (mem_networkAttempts hb).1)
      rw [hai, hbj]
      exact hle
  unfold scannedAttempts
  split
  · exact hflat known hsorted
  · exact hflat _ (hsorted.sublist (List.take_sublist 1 known))

end Attempts

section Connecting
variable (rounds : Nat) (connects : Nat → Bool) (networks : List Network)
  (aplist : List WifiAPEntry)

def sortedNetworks : List Nat :=
  sortNetworks (rssiAt networks) ((found networks aplist).foldl Known.push Known.none).indices

theorem connectWiFiMulti_known :
    (connectWiFiMulti rounds connects networks aplist).known =
      (found networks aplist).foldl Known.push Known.none := by
  unfold connectWiFiMulti
  simp only
  split
  · rfl
  · split
    · rfl
    · split
      · rfl
      · split
        · rfl
        · split <;> rfl

structure Outcome.Tried (o : Outcome) (first second : List Attempt) : Prop where
  scanned : first <+: scannedAttempts rounds networks aplist (sortedNetworks networks aplist)
  hidden : second <+: hiddenAttempts rounds aplist (first.map Attempt.entry)
  attempts : o.attempts = first ++ second
  skipped : ∀ index ∈ o.skipped, index ∈ first.map Attempt.entry
  failed : o.status = some .connectFailed →
    aplist.length < 256 ∧
      first = scannedAttempts rounds networks aplist (sortedNetworks networks aplist) ∧
      second = hiddenAttempts rounds aplist (first.map Attempt.entry)

theorem connectWiFiMulti_tried :
    ∃ first second, (connectWiFiMulti rounds connects networks aplist).Tried rounds networks aplist
      first second := by
  obtain ⟨hscanned, hall⟩ := tryAll_prefix connects 0
    (scannedAttempts rounds networks aplist (sortedNetworks networks aplist))
  unfold connectWiFiMulti
  have hsorted : sortNetworks (rssiAt networks)
      ((found networks aplist).foldl Known.push Known.none).indices =
        sortedNetworks networks aplist := rfl
  simp only [hsorted]
  split
  · exact ⟨[], [], List.nil_prefix, List.nil_prefix, rfl, fun _ h => h, fun h => by cases h⟩
  · generalize tryAll connects 0 (scannedAttempts rounds networks aplist
      (sortedNetworks networks aplist)) = first at *
    obtain ⟨hhidden, hrest⟩ := tryAll_prefix connects first.1.length
      (hiddenAttempts rounds aplist (first.1.map Attempt.entry))
    split
    · exact ⟨first.1, [], hscanned, List.nil_prefix, (List.append_nil _).symm,
        fun _ h => List.dropLast_subset _ h, fun h => by cases h⟩
    · rename_i hfirst
      split
      · exact ⟨first.1, [], hscanned, List.nil_prefix, (List.append_nil _).symm, fun _ h => h,
          fun h => by cases h⟩
      · split
        · exact ⟨first.1, _, hscanned, hhidden, rfl, fun _ h => h, fun h => by cases h⟩
        · rename_i hsecond
          split
          · exact ⟨first.1, _, hscanned, hhidden, rfl, fun _ h => h, fun h => by cases h⟩
          · rename_i hfew
            exact ⟨first.1, _, hscanned, hhidden, rfl, fun _ h => h, fun _ =>
              ⟨Nat.lt_of_not_le hfew, hall (Bool.eq_false_iff.mpr hfirst),
                hrest (Bool.eq_false_iff.mpr hsecond)⟩⟩

variable {rounds networks aplist}

theorem scanned_right (hssid : ∀ entry ∈ aplist, entry.ssid ≠ []) {known : List Nat}
    {a : Attempt} (ha : a ∈ scannedAttempts rounds networks aplist known) :
    a.Right networks aplist := by
  obtain ⟨i, -, hattempt⟩ := scannedAttempts_network ha
  obtain ⟨hnetwork, hentry, hsame⟩ := mem_networkAttempts hattempt
  refine ⟨hentry, fun j hj => ?_⟩
  rw [Option.some.inj (hj.symm.trans hnetwork)]
  exact ssidAt_network hsame (hssid _ (List.mem_of_getElem? hentry))

theorem hidden_right {skip : List Nat} {a : Attempt}
    (ha : a ∈ hiddenAttempts rounds aplist skip) : a.Right networks aplist := by
  obtain ⟨hnetwork, hentry⟩ := mem_hiddenAttempts ha
  exact ⟨hentry, fun j hj => absurd (hnetwork.symm.trans hj) (Option.some_ne_none j).symm⟩

theorem scanned_all (hfew : aplist.length < 256)
    (hfits : pairs networks aplist ≤ aplist.length) {i j : Nat} {entry : WifiAPEntry}
    (hscan : i < scanResult networks) (hentry : aplist[j]? = some entry)
    (hsame : ssidAt networks i = entry.ssid) :
    ⟨some i, j, entry.ssid, entry.passphrase⟩ ∈
      scannedAttempts rounds networks aplist (sortedNetworks networks aplist) := by
  unfold scannedAttempts
  rw [if_pos hfew]
  refine List.mem_flatMap.mpr ⟨i, ?_, networkAttempts_mem hfew hentry hsame⟩
  refine (sortNetworks_perm _ _).mem_iff.mpr ?_
  rw [fill_indices _ (by rw [found_length]; omega)]
  exact mem_found hscan (List.mem_of_getElem? hentry) hsame

theorem connectWiFiMulti_safe (hssid : ∀ entry ∈ aplist, entry.ssid ≠ [])
    (hfits : pairs networks aplist ≤ aplist.length ∨ 256 ≤ aplist.length) :
    (connectWiFiMulti rounds connects networks aplist).Safe networks aplist := by
  obtain ⟨first, second, htried⟩ := connectWiFiMulti_tried rounds connects networks aplist
  have hright : ∀ a ∈ first ++ second, a.Right networks aplist := by
    intro a ha
    rcases List.mem_append.mp ha with hfirst | hsecond
    · exact scanned_right hssid (htried.scanned.subset hfirst)
    · exact hidden_right (htried.hidden.subset hsecond)
  refine ⟨?_, ?_, ?_, ?_, ?_, ?_⟩
  · rw [connectWiFiMulti_known, (fill_writes _).1, found_length]
    exact (writes_fit _ _).mpr hfits
  · intro index hindex
    obtain ⟨a, ha, rfl⟩ := List.mem_map.mp (htried.skipped index hindex)
    exact (List.getElem?_eq_some_iff.mp (hright a (List.mem_append_left _ ha)).entry).1
  · rw [htried.attempts]
    exact hright
  · rw [htried.attempts]
    have hsorted := sortNetworks_sorted (rssiAt networks)
      ((found networks aplist).foldl Known.push Known.none).indices
    have hnone : ∀ b ∈ second, b.network = none := fun b hb =>
      (mem_hiddenAttempts (htried.hidden.subset hb)).1
    refine List.pairwise_append.mpr
      ⟨(scannedAttempts_order hsorted).sublist htried.scanned.sublist, ?_, ?_⟩
    · refine List.pairwise_of_forall_mem_list fun a ha b hb i j hi hj => ?_
      exact absurd (hj.symm.trans (hnone b hb)) (Option.some_ne_none j)
    · intro a ha b hb i j hi hj
      exact absurd (hj.symm.trans (hnone b hb)) (Option.some_ne_none j)
  · intro hfailed j hj
    obtain ⟨hfew, -, hsecond⟩ := htried.failed hfailed
    rw [htried.attempts]
    by_cases hskip : j ∈ first.map Attempt.entry
    · obtain ⟨a, ha, hentry⟩ := List.mem_map.mp hskip
      exact ⟨a, List.mem_append_left _ ha, hentry⟩
    · obtain ⟨a, ha, hentry⟩ := hiddenAttempts_mem hfew hj hskip
      exact ⟨a, List.mem_append_right _ (hsecond ▸ ha), hentry⟩
  · intro hfailed i hi j entry hentry hsame
    obtain ⟨hfew, hfirst, -⟩ := htried.failed hfailed
    rw [htried.attempts]
    refine ⟨⟨some i, j, entry.ssid, entry.passphrase⟩, List.mem_append_left _ ?_, rfl, rfl⟩
    rw [hfirst]
    exact scanned_all hfew (by omega) hi hentry hsame

end Connecting

/-- A call keeps to its arrays and tries everything, whatever connects, exactly if there are no more
pairs of a network and an entry than entries, or so many entries that the index in 8 bits stays
inside. -/
theorem connectWiFiMulti_exact (calls : List Adding) (networks : List Network) :
    (∀ rounds connects,
        (connectWiFiMulti rounds connects networks (built calls)).Safe networks (built calls)) ↔
      pairs networks (built calls) ≤ (built calls).length ∨ 256 ≤ (built calls).length := by
  constructor
  · intro hsafe
    have hwrites := (hsafe 0 fun _ => false).known
    rw [connectWiFiMulti_known, (fill_writes _).1, found_length] at hwrites
    exact (writes_fit _ _).mp hwrites
  · intro hfits rounds connects
    exact connectWiFiMulti_safe connects (built_ssid calls) hfits

theorem twin_overflow :
    built [⟨some [97], none, true⟩] = [⟨[97], []⟩] ∧
      1 ∈ (connectWiFiMulti 0 (fun _ => false) [⟨[97], -60⟩, ⟨[97], -70⟩]
        (built [⟨some [97], none, true⟩])).known.writes ∧
      ¬ (connectWiFiMulti 0 (fun _ => false) [⟨[97], -60⟩, ⟨[97], -70⟩]
        (built [⟨some [97], none, true⟩])).Safe [⟨[97], -60⟩, ⟨[97], -70⟩]
          (built [⟨some [97], none, true⟩]) := by
  have hlist : built [⟨some [97], none, true⟩] = [⟨[97], []⟩] := by decide
  have hwrite : 1 ∈ (connectWiFiMulti 0 (fun _ => false) [⟨[97], -60⟩, ⟨[97], -70⟩]
      (built [⟨some [97], none, true⟩])).known.writes := by
    rw [connectWiFiMulti_known, hlist]
    decide
  refine ⟨hlist, hwrite, fun hsafe => ?_⟩
  exact absurd (hsafe.known 1 hwrite) (by decide)

end Esp8266.Wifi
