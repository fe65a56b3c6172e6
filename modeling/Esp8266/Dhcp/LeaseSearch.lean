import Esp8266.Dhcp.LeaseTable

/-! What the searches of the DHCP server find in a well-formed table. -/
namespace Esp8266.Dhcp
open Esp8266.NetworkOrder

/-- `after` is an entry of the table with `p`, counted from `i`, or there is none. -/
def Found (plist : List DhcpsPool) (i : Nat) (p : DhcpsPool → Prop)
    (before after : Option (Nat × DhcpsPool)) : Prop :=
  (after = before ∧ ∀ pool ∈ plist, ¬ p pool) ∨
    ∃ j pool, after = some (i + j, pool) ∧ plist[j]? = some pool ∧ p pool

section Found
variable {plist : List DhcpsPool} {i : Nat} {p : DhcpsPool → Prop}
  {before after : Option (Nat × DhcpsPool)} {pool : DhcpsPool}

theorem Found.skip (hp : ¬ p pool) (h : Found plist (i + 1) p before after) :
    Found (pool :: plist) i p before after := by
  rcases h with ⟨hsame, hnone⟩ | ⟨j, other, hafter, hother, hp'⟩
  · left
    refine ⟨hsame, ?_⟩
    intro other hmem
    rcases List.mem_cons.mp hmem with rfl | hrest
    · exact hp
    · exact hnone other hrest
  · right
    refine ⟨j + 1, other, ?_, hother, hp'⟩
    rw [hafter, Nat.add_assoc, Nat.add_comm 1 j]

theorem Found.take (hp : p pool) (h : Found plist (i + 1) p (some (i, pool)) after) :
    Found (pool :: plist) i p before after := by
  rcases h with ⟨hsame, -⟩ | ⟨j, other, hafter, hother, hp'⟩
  · exact Or.inr ⟨0, pool, hsame, rfl, hp⟩
  · refine Or.inr ⟨j + 1, other, ?_, hother, hp'⟩
    rw [hafter, Nat.add_assoc, Nat.add_comm 1 j]

end Found

theorem search_mac (bssid : Mac) (ip : Option UInt32) (plist : List DhcpsPool) (i : Nat)
    (s : Search) :
    Found plist i (fun pool => pool.mac = bssid) s.pmacNode (search bssid ip i plist s).pmacNode := by
  induction plist generalizing i s with
  | nil => exact Or.inl ⟨rfl, fun pool hpool => absurd hpool List.not_mem_nil⟩
  | cons pool rest ih =>
    unfold search
    by_cases hmac : pool.mac = bssid
    · simp only [if_pos hmac]
      cases ip with
      | none => exact Or.inr ⟨0, pool, rfl, rfl, hmac⟩
      | some a =>
        simp only
        split
        · exact (ih (i + 1) _).take hmac
        · exact (ih (i + 1) _).take hmac
    · simp only [if_neg hmac]
      cases ip with
      | none =>
        simp only
        split
        · exact (ih (i + 1) _).skip hmac
        · split
          · exact (ih (i + 1) _).skip hmac
          · exact (ih (i + 1) _).skip hmac
      | some a =>
        simp only
        split
        · exact (ih (i + 1) _).skip hmac
        · exact (ih (i + 1) _).skip hmac

theorem search_ip (bssid : Mac) (a : UInt32) (plist : List DhcpsPool) (i : Nat) (s : Search) :
    Found plist i (fun pool => pool.ip = a) s.pipNode (search bssid (some a) i plist s).pipNode := by
  induction plist generalizing i s with
  | nil => exact Or.inl ⟨rfl, fun pool hpool => absurd hpool List.not_mem_nil⟩
  | cons pool rest ih =>
    have hkeep : (if pool.mac = bssid then { s with pmacNode := some (i, pool) } else s).pipNode =
        s.pipNode := by
      split <;> rfl
    unfold search
    simp only
    split
    · rename_i hip
      exact (ih (i + 1) _).take hip
    · rename_i hip
      have hfound := ih (i + 1) (if pool.mac = bssid then { s with pmacNode := some (i, pool) } else s)
      rw [hkeep] at hfound
      exact hfound.skip hip

theorem search_noIp (bssid : Mac) (plist : List DhcpsPool) (i : Nat) (s : Search) :
    (search bssid none i plist s).pipNode = s.pipNode := by
  induction plist generalizing i s with
  | nil => rfl
  | cons pool rest ih =>
    unfold search
    by_cases hmac : pool.mac = bssid
    · simp only [if_pos hmac]
    · simp only [if_neg hmac]
      split
      · exact ih _ _
      · split
        · exact ih _ _
        · exact ih _ _

theorem search_flagged (bssid : Mac) (plist : List DhcpsPool) (i : Nat) (s : Search)
    (h : s.flag = true) :
    (search bssid none i plist s).flag = true ∧
      (search bssid none i plist s).startIp = s.startIp := by
  induction plist generalizing i s with
  | nil => exact ⟨h, rfl⟩
  | cons pool rest ih =>
    unfold search
    by_cases hmac : pool.mac = bssid
    · simp only [if_pos hmac, and_self]
    · simp only [if_neg hmac, if_pos h]
      exact ih _ _ h

structure FreeAddress (plist : List DhcpsPool) (bssid : Mac) (first : UInt32) (r : Search) : Prop where
  flag : r.flag = true
  low : host first ≤ host r.startIp
  high : ∃ pool ∈ plist, host r.startIp ≤ host pool.ip
  free : ∀ pool ∈ plist, pool.mac ≠ bssid → pool.ip ≠ r.startIp

structure NoGap (plist : List DhcpsPool) (bssid : Mac) (first : UInt32) (r : Search) : Prop where
  flag : r.flag = false
  next : host r.startIp = (host first + plist.length) % 2 ^ 32
  below : ∀ pool ∈ plist, host pool.ip < host first + plist.length
  macs : ∀ pool ∈ plist, pool.mac ≠ bssid

theorem search_address (bssid : Mac) (plist : List DhcpsPool) (i : Nat) (s : Search)
    (hflag : s.flag = false) (hordered : plist.Pairwise fun a b => host a.ip < host b.ip)
    (hlow : ∀ pool ∈ plist, host s.startIp ≤ host pool.ip) :
    FreeAddress plist bssid s.startIp (search bssid none i plist s) ∨
      NoGap plist bssid s.startIp (search bssid none i plist s) := by
  induction plist generalizing i s with
  | nil =>
    have hnone : ∀ {q : DhcpsPool → Prop} (pool : DhcpsPool), pool ∈ [] → q pool :=
      fun pool hpool => absurd hpool List.not_mem_nil
    exact Or.inr ⟨hflag, (Nat.mod_eq_of_lt (host_lt _)).symm, hnone, hnone⟩
  | cons pool rest ih =>
    have hfirst := hlow pool List.mem_cons_self
    rw [List.pairwise_cons] at hordered
    unfold search
    by_cases hmac : pool.mac = bssid
    · simp only [if_pos hmac]
      left
      refine ⟨rfl, Nat.le_refl _, ⟨pool, List.mem_cons_self, hfirst⟩, ?_⟩
      intro other hother hne heq
      rcases List.mem_cons.mp hother with rfl | hrest
      · exact hne hmac
      · have := hordered.1 other hrest
        rw [heq] at this
        simp only at this
        omega
    · have hunset : ¬ s.flag = true := by
        rw [hflag]
        exact Bool.false_ne_true
      simp only [if_neg hmac, if_neg hunset]
      by_cases hip : pool.ip = s.startIp
      · simp only [hip, ne_eq, not_true, if_false]
        rw [hip] at hordered
        have hnext := host_next s.startIp
        have hone : ∀ other ∈ rest, host (nextIp s.startIp) = host s.startIp + 1 := by
          intro other hother
          have := hordered.1 other hother
          have := host_lt other.ip
          rw [show host (nextIp s.startIp) = _ from hnext]
          omega
        rcases ih (i + 1) { s with startIp := nextIp s.startIp } hflag hordered.2 (by
          intro other hother
          have := hordered.1 other hother
          have := hone other hother
          simp only
          omega) with hfree | hgap
        · left
          obtain ⟨other, hother, hhigh⟩ := hfree.high
          have hstep := hone other hother
          have hlower := hfree.low
          simp only at hlower
          refine ⟨hfree.flag, by omega, ⟨other, List.mem_cons_of_mem _ hother, hhigh⟩, ?_⟩
          intro used hused hne heq
          rcases List.mem_cons.mp hused with rfl | hrest
          · rw [← heq, hip] at hlower
            omega
          · exact hfree.free used hrest hne heq
        · right
          refine ⟨hgap.flag, ?_, ?_, ?_⟩
          · rw [hgap.next]
            simp only
            rw [show host (nextIp s.startIp) = _ from hnext, List.length_cons]
            omega
          · intro used hused
            rw [List.length_cons]
            rcases List.mem_cons.mp hused with rfl | hrest
            · rw [hip]
              omega
            · have hbelow := hgap.below used hrest
              simp only [hone used hrest] at hbelow
              omega
          · intro used hused
            rcases List.mem_cons.mp hused with rfl | hrest
            · exact hmac
            · exact hgap.macs used hrest
      · simp only [ne_eq, hip, not_false_eq_true, if_true]
        obtain ⟨hset, hsame⟩ := search_flagged bssid rest (i + 1) { s with flag := true } rfl
        have hless : host s.startIp < host pool.ip := Nat.lt_of_le_of_ne hfirst fun heq =>
          hip (host_injective heq.symm)
        left
        refine ⟨hset, ?_, ⟨pool, List.mem_cons_self, ?_⟩, ?_⟩
        · exact Nat.le_of_eq (by rw [hsame])
        · rw [hsame]
          exact hfirst
        · rw [hsame]
          intro other hother _ heq
          simp only at heq
          rcases List.mem_cons.mp hother with rfl | hrest
          · exact hip heq
          · have := hordered.1 other hrest
            rw [heq] at this
            omega

theorem leaseSearch_cases (macaddr : Mac) (plist : List DhcpsPool) (startIp : UInt32) :
    (leaseSearch macaddr plist startIp = none ∧ ∃ pool ∈ plist, pool.mac = macaddr) ∨
      ∃ a, leaseSearch macaddr plist startIp = some a ∧
        host a = (host startIp + plist.length) % 2 ^ 32 ∧ ∀ pool ∈ plist, pool.mac ≠ macaddr := by
  induction plist generalizing startIp with
  | nil =>
    exact Or.inr ⟨startIp, rfl, (Nat.mod_eq_of_lt (host_lt _)).symm,
      fun pool hpool => absurd hpool List.not_mem_nil⟩
  | cons pool rest ih =>
    unfold leaseSearch
    by_cases hmac : pool.mac = macaddr
    · exact Or.inl ⟨if_pos hmac, pool, List.mem_cons_self, hmac⟩
    · rw [if_neg hmac]
      rcases ih (nextIp startIp) with ⟨hnone, other, hother, hknown⟩ | ⟨a, ha, hhost, hmacs⟩
      · exact Or.inl ⟨hnone, other, List.mem_cons_of_mem _ hother, hknown⟩
      · refine Or.inr ⟨a, ha, ?_, ?_⟩
        · rw [hhost, show host (nextIp startIp) = _ from host_next startIp, List.length_cons]
          omega
        · intro other hother
          rcases List.mem_cons.mp hother with rfl | hrest
          · exact hmac
          · exact hmacs other hrest

end Esp8266.Dhcp
