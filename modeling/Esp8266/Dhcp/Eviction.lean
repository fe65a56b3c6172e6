import Esp8266.Dhcp.Leases
import Esp8266.Library.LinkedList

/-! The eviction of the oldest lease, on the linked list that the table is. -/
namespace Esp8266.Dhcp
open Esp8266.LinkedList

/-- The table as it is in memory: its head, `pnext` and the entry behind `pnode` of each node, and
the nodes that were freed. -/
structure LeaseList (ι : Type) where
  plist : Option ι
  pnext : ι → Option ι
  pnode : ι → DhcpsPool
  freed : List ι

structure Cursors (ι : Type) where
  pre : ι
  minpre : ι
  minp : ι
  pool : Option ι

variable {ι : Type}

def LeaseList.timer (list : LeaseList ι) (node : ι) : UInt32 := (list.pnode node).leaseTimer

def Cursors.look (list : LeaseList ι) (c : Cursors ι) (p : ι) : Cursors ι :=
  if list.timer p < list.timer c.minp then ⟨p, c.pre, p, some p⟩ else ⟨p, c.minpre, c.minp, some p⟩

def searchOldest (list : LeaseList ι) : Nat → Option ι → Cursors ι → Option (Cursors ι)
  | _, none, c => some c
  | 0, some _, _ => none
  | fuel + 1, some p, c => searchOldest list fuel (list.pnext p) (c.look list p)

def LeaseList.remove [DecidableEq ι] (list : LeaseList ι) (c : Cursors ι) (last : ι) : LeaseList ι where
  plist := list.plist
  pnext := link list.pnext c.minpre (list.pnext c.minp)
  pnode node :=
    if node = last then { list.pnode node with state := .offline } else list.pnode node
  freed := c.minp :: list.freed

/-- `kill_oldest_dhcps_pool`, and nothing where it follows a null pointer or does not end. -/
def LeaseList.killOldest [DecidableEq ι] (fuel : Nat) (list : LeaseList ι) : Option (LeaseList ι) := do
  let pre ← list.plist
  let minp ← list.pnext pre
  let c ← searchOldest list fuel (some minp) ⟨pre, pre, minp, none⟩
  let last ← c.pool
  return list.remove c last

def EvictsOldest (list list' : LeaseList ι) (nodes : List ι) : Prop :=
  ∃ front victim back, nodes = front ++ victim :: back ∧ list'.freed = victim :: list.freed ∧
    Path list'.pnext list'.plist (front ++ back) none ∧
    (∀ node ∈ nodes, list.timer victim ≤ list.timer node) ∧
    ∀ node ∈ front ++ back, list'.pnode node = list.pnode node

def Evictable (list : LeaseList ι) (nodes : List ι) : Prop :=
  ∃ head init last, nodes = head :: (init ++ [last]) ∧
    (∃ node ∈ init ++ [last], list.timer node ≤ list.timer head) ∧
    ((list.pnode last).state = .offline ∨ ∀ node ∈ init, list.timer last < list.timer node)

section Search
variable {list : LeaseList ι} {head : ι} {seen : List ι} {c : Cursors ι}

structure MinFound (list : LeaseList ι) (head : ι) (seen before post : List ι) (c : Cursors ι) :
    Prop where
  split : seen = before ++ c.minp :: post
  behind : ∃ front, head :: before = front ++ [c.minpre]
  last : ∃ init, seen = init ++ [c.pre]
  pool : c.pool = some c.pre
  less : ∀ node ∈ before, list.timer c.minp < list.timer node
  least : ∀ node ∈ post, list.timer c.minp ≤ list.timer node

theorem MinFound.le {before post : List ι} (h : MinFound list head seen before post c) :
    ∀ node ∈ seen, list.timer c.minp ≤ list.timer node := by
  intro node hnode
  rw [h.split, List.mem_append, List.mem_cons] at hnode
  rcases hnode with hbefore | rfl | hpost
  · exact UInt32.le_of_lt (h.less node hbefore)
  · exact UInt32.le_refl _
  · exact h.least node hpost

theorem MinFound.look {before post : List ι} (h : MinFound list head seen before post c) (p : ι) :
    ∃ before post, MinFound list head (seen ++ [p]) before post (c.look list p) := by
  unfold Cursors.look
  split
  · rename_i hless
    refine ⟨seen, [], rfl, ?_, ⟨seen, rfl⟩, rfl, ?_, fun _ hmem => nomatch hmem⟩
    · obtain ⟨init, hinit⟩ := h.last
      exact ⟨head :: init, by rw [hinit]; rfl⟩
    · exact fun node hnode => UInt32.lt_of_lt_of_le hless (h.le node hnode)
  · rename_i hmore
    refine ⟨before, post ++ [p], ?_, h.behind, ⟨seen, rfl⟩, rfl, h.less, ?_⟩
    · rw [h.split, List.append_assoc, List.cons_append]
    · intro node hnode
      rcases List.mem_append.mp hnode with hpost | hlast
      · exact h.least node hpost
      · rw [List.mem_singleton.mp hlast]
        exact UInt32.not_lt.mp hmore

theorem searchOldest_found {rest before post : List ι} {p : Option ι} {fuel : Nat}
    (h : MinFound list head seen before post c) (hpath : Path list.pnext p rest none)
    (hfuel : rest.length ≤ fuel) :
    ∃ before post c', searchOldest list fuel p c = some c' ∧
      MinFound list head (seen ++ rest) before post c' := by
  induction rest generalizing seen before post p fuel c with
  | nil =>
    have hp : p = none := hpath
    subst hp
    rw [List.append_nil]
    cases fuel <;> exact ⟨before, post, c, rfl, h⟩
  | cons node rest ih =>
    obtain ⟨rfl, hrest⟩ := hpath
    cases fuel with
    | zero => exact absurd hfuel (Nat.not_succ_le_zero _)
    | succ fuel =>
      obtain ⟨before, post, hnext⟩ := h.look node
      rw [searchOldest, List.append_cons]
      exact ih hnext hrest (Nat.le_of_succ_le_succ hfuel)

end Search

section Eviction
variable [DecidableEq ι] {list : LeaseList ι} {head : ι} {rest : List ι}

theorem killOldest_spec (hpath : Path list.pnext list.plist (head :: rest) none)
    (hnodup : (head :: rest).Nodup) (hrest : rest ≠ []) :
    ∃ before victim post init last, rest = before ++ victim :: post ∧ rest = init ++ [last] ∧
      (∀ node ∈ before, list.timer victim < list.timer node) ∧
      (∀ node ∈ post, list.timer victim ≤ list.timer node) ∧
      ∃ list', list.killOldest (head :: rest).length = some list' ∧
        list'.freed = victim :: list.freed ∧
        Path list'.pnext list'.plist (head :: before ++ post) none ∧
        ∀ node, list'.pnode node =
          if node = last then { list.pnode node with state := .offline } else list.pnode node := by
  cases rest with
  | nil => exact absurd rfl hrest
  | cons second rest =>
    obtain ⟨hhead, hsecond, htail⟩ := hpath
    have hstart : MinFound list head [second] [] [] ⟨second, head, second, some second⟩ :=
      ⟨rfl, ⟨[], rfl⟩, ⟨[], rfl⟩, rfl, fun _ hmem => (nomatch hmem), fun _ hmem => nomatch hmem⟩
    obtain ⟨before, post, c, hsearch, hfound⟩ :=
      searchOldest_found hstart htail (Nat.le_succ rest.length)
    obtain ⟨init, hinit⟩ := hfound.last
    obtain ⟨front, hfront⟩ := hfound.behind
    have hnodes : head :: second :: rest = front ++ c.minpre :: c.minp :: post := by
      have hseen : second :: rest = before ++ c.minp :: post := hfound.split
      rw [hseen, ← List.cons_append, hfront, List.append_assoc]
      rfl
    have hunlinked : Path (link list.pnext c.minpre (list.pnext c.minp)) list.plist
        (front ++ c.minpre :: post) none := by
      apply path_unlink
      · rw [← hnodes]
        exact ⟨hhead, hsecond, htail⟩
      · rw [← hnodes]
        exact hnodup
    have hfirst : (⟨head, head, second, none⟩ : Cursors ι).look list second =
        ⟨second, head, second, some second⟩ :=
      if_neg (UInt32.lt_irrefl _)
    refine ⟨before, c.minp, post, init, c.pre, hfound.split, hinit, hfound.less, hfound.least, ?_⟩
    refine ⟨list.remove c c.pre, ?_, rfl, ?_, fun node => rfl⟩
    · unfold LeaseList.killOldest
      simp [hhead, hsecond, searchOldest, hfirst, hsearch, hfound.pool]
    · rw [hfront, List.append_assoc]
      exact hunlinked

/-- With two entries or more the eviction ends, and it takes the oldest entry and touches nothing
else if and only if the first entry is no older than all the others and the last one is offline
already or the one that goes. -/
theorem eviction_exact {list : LeaseList ι} {nodes : List ι}
    (hpath : Path list.pnext list.plist nodes none) (hnodup : nodes.Nodup)
    (hlength : 2 ≤ nodes.length) :
    ∃ list', list.killOldest nodes.length = some list' ∧
      (EvictsOldest list list' nodes ↔ Evictable list nodes) := by
  obtain ⟨head, rest, rfl⟩ : ∃ head rest, nodes = head :: rest :=
    List.exists_cons_of_length_pos (Nat.lt_of_lt_of_le Nat.zero_lt_two hlength)
  have hrest : rest ≠ [] := by
    rintro rfl
    exact absurd hlength (by decide : ¬ 2 ≤ 1)
  obtain ⟨before, victim, post, init, last, hsplit, hlast, hbefore, hpost, list', hkill, hfreed,
    hunlinked, hpnode⟩ := killOldest_spec hpath hnodup hrest
  have hmem : victim ∈ rest := hsplit ▸ List.mem_append_right _ List.mem_cons_self
  have hle : ∀ node ∈ rest, list.timer victim ≤ list.timer node := by
    intro node hnode
    rw [hsplit, List.mem_append, List.mem_cons] at hnode
    rcases hnode with h | rfl | h
    · exact UInt32.le_of_lt (hbefore node h)
    · exact UInt32.le_refl _
    · exact hpost node h
  have hunmarked : ∀ node, node ≠ last → list'.pnode node = list.pnode node :=
    fun node hne => (hpnode node).trans (if_neg hne)
  refine ⟨list', hkill, ?_, ?_⟩
  · rintro ⟨front, gone, back, hnodes, hgone, -, hleast, hkept⟩
    have hsame : gone = victim := (List.cons.inj (hgone.symm.trans hfreed)).1
    subst hsame
    refine ⟨head, init, last, by rw [hlast], ⟨gone, hlast ▸ hmem, hleast head List.mem_cons_self⟩,
      ?_⟩
    by_cases hgoes : last = gone
    · right
      intro node hnode
      -- behind the one that goes there is nothing, so all others are in front of it
      subst hgoes
      have hin : node ∈ before ++ last :: post := by
        rw [← hsplit, hlast]
        exact List.mem_append_left _ hnode
      have hfresh : node ≠ last ∧ post = [] := by
        have hrestNodup : (init ++ [last]).Nodup := hlast ▸ (List.nodup_cons.mp hnodup).2
        have hdisjoint := (List.nodup_append.mp hrestNodup).2.2
        refine ⟨hdisjoint node hnode last List.mem_cons_self, ?_⟩
        rcases List.eq_nil_or_concat post with hnil | ⟨mid, end', hend⟩
        · exact hnil
        · have hlasts : before ++ last :: mid ++ [end'] = init ++ [last] := by
            rw [← hlast, hsplit, hend, List.concat_eq_append, List.append_assoc, List.cons_append]
          obtain ⟨hinit, hends⟩ := List.append_inj' hlasts rfl
          have hmemInit : last ∈ init := hinit ▸ List.mem_append_right _ List.mem_cons_self
          exact absurd rfl (hdisjoint last hmemInit last List.mem_cons_self)
      rw [hfresh.2, List.mem_append, List.mem_singleton] at hin
      exact hbefore node (hin.resolve_right hfresh.1)
    · left
      have hin : last ∈ front ++ gone :: back := by
        rw [← hnodes, hlast]
        exact List.mem_cons_of_mem _ (List.mem_append_right _ List.mem_cons_self)
      have hstays : last ∈ front ++ back := by
        rw [List.mem_append, List.mem_cons] at hin
        rw [List.mem_append]
        exact hin.imp_right fun h => h.resolve_left hgoes
      have hsame := hkept last hstays
      rw [hpnode, if_pos rfl] at hsame
      exact (congrArg DhcpsPool.state hsame).symm
  · rintro ⟨head', init', last', hnodes, ⟨node, hnode, hold⟩, hspared⟩
    obtain ⟨rfl, hends⟩ := List.cons.inj hnodes
    obtain ⟨rfl, hlasts⟩ := List.append_inj' (hlast.symm.trans hends) rfl
    obtain rfl : last = last' := (List.cons.inj hlasts).1
    refine ⟨head :: before, victim, post, by rw [hsplit, List.cons_append], hfreed, hunlinked, ?_, ?_⟩
    · intro other hother
      rcases List.mem_cons.mp hother with rfl | hother
      · exact UInt32.le_trans (hle node (hends ▸ hnode)) hold
      · exact hle other hother
    · intro other hother
      by_cases hmarked : other = last
      · subst hmarked
        rw [hpnode, if_pos rfl]
        rcases hspared with hoffline | hleast
        · rw [← hoffline]
        · -- the last entry would be the one that goes
          exfalso
          have hdistinct : other ≠ victim := by
            rintro rfl
            rw [hsplit, ← List.cons_append, List.nodup_append] at hnodup
            obtain ⟨-, hback, hdisjoint⟩ := hnodup
            rcases List.mem_append.mp hother with hfront | hpost
            · exact hdisjoint other hfront other List.mem_cons_self rfl
            · exact (List.nodup_cons.mp hback).1 hpost
          have hvictim : victim ∈ init := by
            have hin : victim ∈ init ++ [other] := hlast ▸ hmem
            rw [List.mem_append, List.mem_singleton] at hin
            exact hin.resolve_right (Ne.symm hdistinct)
          have hless := hleast victim hvictim
          have hlastMem : other ∈ rest := hlast ▸ List.mem_append_right _ List.mem_cons_self
          exact UInt32.lt_irrefl _ (UInt32.lt_of_lt_of_le hless (hle other hlastMem))
      · exact hunmarked other hmarked

def twoLeases (first second : UInt32) : LeaseList Nat where
  plist := some 0
  pnext node := if node = 0 then some 1 else none
  pnode node :=
    ⟨UInt32.ofNat node, Vector.replicate 6 (UInt8.ofNat node), if node = 0 then first else second,
      .dynamic, .online⟩
  freed := []

theorem eviction_exact_two : ∃ list', (twoLeases 10 5).killOldest 2 = some list' ∧
    EvictsOldest (twoLeases 10 5) list' [0, 1] := by
  have hold : Evictable (twoLeases 10 5) [0, 1] :=
    ⟨0, [], 1, rfl, ⟨1, List.mem_cons_self, by decide⟩, Or.inr (fun _ hmem => nomatch hmem)⟩
  obtain ⟨list', hkill, hiff⟩ := @eviction_exact _ _ (twoLeases 10 5) [0, 1]
    ⟨rfl, rfl, rfl⟩ (by decide) (by decide)
  exact ⟨list', hkill, hiff.mpr hold⟩

theorem younger_lease_evicted :
    (twoLeases 5 10).killOldest 2 = some ((twoLeases 5 10).remove ⟨1, 0, 1, some 1⟩ 1) ∧
      ¬ EvictsOldest (twoLeases 5 10) ((twoLeases 5 10).remove ⟨1, 0, 1, some 1⟩ 1) [0, 1] := by
  refine ⟨rfl, ?_⟩
  rintro ⟨front, victim, back, -, hfreed, -, hleast, -⟩
  obtain rfl : 1 = victim := (List.cons.inj hfreed).1
  exact absurd (hleast 0 List.mem_cons_self) (by decide)

theorem oldest_split {pools before post : List DhcpsPool} {victim : DhcpsPool} {i minp : Nat}
    {least : UInt32} (hpools : pools = before ++ victim :: post)
    (hbefore : ∀ pool ∈ before, victim.leaseTimer < pool.leaseTimer)
    (hpost : ∀ pool ∈ post, victim.leaseTimer ≤ pool.leaseTimer) (hless : victim.leaseTimer < least) :
    oldest pools i minp least = i + before.length := by
  induction before generalizing pools i minp least with
  | nil =>
    subst hpools
    rw [List.nil_append, oldest, if_pos hless]
    clear hbefore hless
    generalize i + 1 = next
    induction post generalizing next with
    | nil => rfl
    | cons pool post ih =>
      rw [oldest, if_neg (UInt32.not_lt.mpr (hpost pool List.mem_cons_self))]
      exact ih (fun other hother => hpost other (List.mem_cons_of_mem _ hother)) _
  | cons pool before ih =>
    subst hpools
    have hmore := hbefore pool List.mem_cons_self
    have hrest : ∀ other ∈ before, victim.leaseTimer < other.leaseTimer :=
      fun other hother => hbefore other (List.mem_cons_of_mem _ hother)
    have hnext : i + (pool :: before).length = i + 1 + before.length := by
      rw [List.length_cons, Nat.add_comm before.length, Nat.add_assoc]
    rw [List.cons_append, oldest, hnext]
    split
    · exact ih rfl hrest hmore
    · exact ih rfl hrest hless

theorem oldest_first {second : DhcpsPool} {rest before post : List DhcpsPool} {victim : DhcpsPool}
    (hpools : second :: rest = before ++ victim :: post)
    (hbefore : ∀ pool ∈ before, victim.leaseTimer < pool.leaseTimer)
    (hpost : ∀ pool ∈ post, victim.leaseTimer ≤ pool.leaseTimer) :
    oldest (second :: rest) 0 0 second.leaseTimer = before.length := by
  cases before with
  | nil =>
    obtain ⟨rfl, rfl⟩ := List.cons.inj hpools
    have hstays : ∀ i, oldest rest i 0 second.leaseTimer = 0 := by
      clear hpools hbefore
      induction rest with
      | nil => exact fun _ => rfl
      | cons pool rest ih =>
        intro i
        rw [oldest, if_neg (UInt32.not_lt.mpr (hpost pool List.mem_cons_self))]
        exact ih (fun other hother => hpost other (List.mem_cons_of_mem _ hother)) _
    rw [oldest, if_neg (UInt32.lt_irrefl _), hstays]
    rfl
  | cons pool before =>
    obtain ⟨rfl, -⟩ := List.cons.inj hpools
    rw [oldest_split hpools hbefore hpost (hbefore second List.mem_cons_self), Nat.zero_add]

theorem killOldest_refines {list list' : LeaseList ι} {nodes : List ι}
    (hpath : Path list.pnext list.plist nodes none) (hnodup : nodes.Nodup)
    (hlength : 2 ≤ nodes.length) (hkill : list.killOldest nodes.length = some list') :
    ∃ nodes', Path list'.pnext list'.plist nodes' none ∧
      nodes'.map list'.pnode = killOldestDhcpsPool (nodes.map list.pnode) := by
  obtain ⟨head, rest, rfl⟩ : ∃ head rest, nodes = head :: rest :=
    List.exists_cons_of_length_pos (Nat.lt_of_lt_of_le Nat.zero_lt_two hlength)
  cases rest with
  | nil => exact absurd hlength (by decide : ¬ 2 ≤ 1)
  | cons second rest =>
    obtain ⟨before, victim, post, init, last, hsplit, hlast, hbefore, hpost, made, hmade, -,
      hunlinked, hpnode⟩ := killOldest_spec hpath hnodup (List.cons_ne_nil _ _)
    obtain rfl : made = list' := Option.some.inj (hmade.symm.trans hkill)
    refine ⟨head :: before ++ post, hunlinked, ?_⟩
    have hpools : list.pnode second :: rest.map list.pnode =
        before.map list.pnode ++ list.pnode victim :: post.map list.pnode := by
      rw [← List.map_cons, hsplit, List.map_append, List.map_cons]
    have hfirst := oldest_first hpools (List.forall_mem_map.mpr hbefore)
      (List.forall_mem_map.mpr hpost)
    have hfresh := (List.nodup_cons.mp hnodup).2
    rw [hlast, List.nodup_append] at hfresh
    have hmarked : (list.pnode second :: rest.map list.pnode).modify rest.length
        (fun pool => { pool with state := .offline }) = (second :: rest).map made.pnode := by
      have hinit : init.map made.pnode = init.map list.pnode := by
        apply List.map_congr_left
        intro node hnode
        rw [hpnode, if_neg (hfresh.2.2 node hnode last List.mem_cons_self)]
      have hlong : rest.length = (init.map list.pnode).length := by
        have hsame := congrArg List.length hlast
        rw [List.length_append, List.length_cons, List.length_singleton] at hsame
        rw [List.length_map]
        omega
      rw [← List.map_cons, hlast, List.map_append, List.map_append, hinit, hlong, List.map_singleton,
        modify_middle, List.map_singleton, hpnode, if_pos rfl]
    have hhead : made.pnode head = list.pnode head := by
      rw [hpnode, if_neg]
      rintro rfl
      apply (List.nodup_cons.mp hnodup).1
      rw [hlast]
      exact List.mem_append_right _ List.mem_cons_self
    show _ = list.pnode head :: ((list.pnode second :: rest.map list.pnode).modify
      (rest.map list.pnode).length _).eraseIdx _
    rw [List.length_map, hmarked, hfirst, hsplit]
    simp [hhead, List.eraseIdx_append_of_length_le]

/-- The function on the list in memory does what `killOldestDhcpsPool` does to the entries. -/
theorem evictions_agree {list : LeaseList ι} {nodes : List ι}
    (hpath : Path list.pnext list.plist nodes none) (hnodup : nodes.Nodup)
    (hlength : 2 ≤ nodes.length) :
    ∃ list' nodes', list.killOldest nodes.length = some list' ∧
      Path list'.pnext list'.plist nodes' none ∧
      nodes'.map list'.pnode = killOldestDhcpsPool (nodes.map list.pnode) := by
  match nodes, hlength with
  | head :: second :: rest, hlength =>
    obtain ⟨_, _, _, _, _, -, -, -, -, list', hkill, -⟩ :=
      killOldest_spec hpath hnodup (List.cons_ne_nil second rest)
    obtain ⟨nodes', hpath', hnodes⟩ := killOldest_refines hpath hnodup hlength hkill
    exact ⟨list', nodes', hkill, hpath', hnodes⟩

theorem evictions_agree_two : ∃ list' nodes', (twoLeases 10 5).killOldest 2 = some list' ∧
    Path list'.pnext list'.plist nodes' none ∧
    nodes'.map list'.pnode = killOldestDhcpsPool ([0, 1].map (twoLeases 10 5).pnode) :=
  @evictions_agree _ _ (twoLeases 10 5) [0, 1] ⟨rfl, rfl, rfl⟩ (by decide) (by decide)

end Eviction
end Esp8266.Dhcp
