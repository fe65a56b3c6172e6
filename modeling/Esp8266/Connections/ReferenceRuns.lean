import Esp8266.Connections.References

/-! The counts of the contexts along every run. -/
namespace Esp8266.Connections
open Esp8266.Heaps Esp8266.LinkedList Esp8266.Runs

section Counts
variable {s s' : Net} {H H' : Nat → Nat} {w w' : Nat → List Nat} {c n : Nat}
  {context changed : ClientContext}

/-- `H` holders for every context, and `w` waiting for every server. -/
structure Sound (s : Net) (H : Nat → Nat) (w : Nat → List Nat) : Prop where
  count : ∀ c context, s.contexts.read c = some context → context.refcnt = H c
  small : ∀ c, H c ≤ 127
  alive : ∀ c, (∃ context, s.contexts.read c = some context) ↔ 0 < H c ∨ ∃ server, c ∈ w server
  apart : ∀ server c, c ∈ w server → H c = 0
  used : s.misused = false
  registered : ∀ c ∈ s.args, ∃ context, s.contexts.read c = some context ∧ context.pcb = true
  owner : ∀ server c context, c ∈ w server → s.contexts.read c = some context →
    context.server = some server

def Listed (s : Net) (w : Nat → List Nat) : Prop :=
  ∀ server, Path s.next (s.unclaimed server) (w server) none

theorem Sound.put (h : Sound s H w) (hread : s'.contexts.read c = some changed)
    (hother : ∀ a, a ≠ c → s'.contexts.read a = s.contexts.read a)
    (hcount : changed.refcnt = H' c) (hsame : ∀ a, a ≠ c → H' a = H a) (hsmall : H' c ≤ 127)
    (hused : s'.misused = false)
    (hargs : ∀ a ∈ s'.args, a ≠ c ∧ a ∈ s.args ∨ a = c ∧ changed.pcb = true)
    (hwait : ∀ server a, a ≠ c → (a ∈ w' server ↔ a ∈ w server))
    (hzero : 0 < H' c ∨ ∃ server, c ∈ w' server) (hapart : ∀ server, c ∈ w' server → H' c = 0)
    (howner : ∀ server, c ∈ w' server → changed.server = some server) : Sound s' H' w' := by
  refine ⟨fun a context ha => ?_, fun a => ?_, fun a => ?_, fun server a ha => ?_, hused,
    fun a ha => ?_, fun server a context ha hcontext => ?_⟩
  · by_cases heq : a = c
    · subst heq
      rw [← Option.some.inj (hread.symm.trans ha)]
      exact hcount
    · rw [hsame a heq]
      exact h.count a context ((hother a heq).symm.trans ha)
  · by_cases heq : a = c
    · rw [heq]
      exact hsmall
    · rw [hsame a heq]
      exact h.small a
  · by_cases heq : a = c
    · subst heq
      exact iff_of_true ⟨changed, hread⟩ hzero
    · rw [hother a heq, hsame a heq, h.alive a]
      simp only [hwait _ a heq]
  · by_cases heq : a = c
    · subst heq
      exact hapart server ha
    · rw [hsame a heq]
      exact h.apart server a ((hwait server a heq).mp ha)
  · rcases hargs a ha with ⟨heq, hold⟩ | ⟨rfl, hpcb⟩
    · rw [hother a heq]
      exact h.registered a hold
    · exact ⟨changed, hread, hpcb⟩
  · by_cases heq : a = c
    · subst heq
      rw [← Option.some.inj (hread.symm.trans hcontext)]
      exact howner server ha
    · exact h.owner server a context ((hwait server a heq).mp ha)
        ((hother a heq).symm.trans hcontext)

theorem Sound.delete (h : Sound s H w) (hone : H c = 1)
    (hread : s'.contexts.read c = none)
    (hother : ∀ a, a ≠ c → s'.contexts.read a = s.contexts.read a)
    (hused : s'.misused = false) (hargs : ∀ a ∈ s'.args, a ≠ c ∧ a ∈ s.args)
    (hgone : H' c = 0) (hsame : ∀ a, a ≠ c → H' a = H a) : Sound s' H' w := by
  have hwait : ∀ server, c ∉ w server := fun server hmem => by
    have := h.apart server c hmem
    omega
  refine ⟨fun a context ha => ?_, fun a => ?_, fun a => ?_, fun server a ha => ?_, hused,
    fun a ha => ?_, fun server a context ha hcontext => ?_⟩
  · by_cases heq : a = c
    · rw [heq, hread] at ha
      cases ha
    · rw [hsame a heq]
      exact h.count a context ((hother a heq).symm.trans ha)
  · by_cases heq : a = c
    · rw [heq, hgone]
      exact Nat.zero_le _
    · rw [hsame a heq]
      exact h.small a
  · by_cases heq : a = c
    · subst heq
      refine iff_of_false ?_ ?_
      · rintro ⟨context, hcontext⟩
        rw [hread] at hcontext
        cases hcontext
      · rintro (hpos | ⟨server, hmem⟩)
        · omega
        · exact hwait server hmem
    · rw [hother a heq, hsame a heq]
      exact h.alive a
  · have heq : a ≠ c := fun heq => hwait server (heq ▸ ha)
    rw [hsame a heq]
    exact h.apart server a ha
  · obtain ⟨heq, hold⟩ := hargs a ha
    rw [hother a heq]
    exact h.registered a hold
  · have heq : a ≠ c := fun heq => hwait server (heq ▸ ha)
    exact h.owner server a context ha ((hother a heq).symm.trans hcontext)

theorem Listed.congr (h : Listed s w) (hunclaimed : s'.unclaimed = s.unclaimed)
    (hnext : ∀ server, ∀ a ∈ w server, s'.next a = s.next a) : Listed s' w := by
  intro server
  rw [hunclaimed]
  exact path_congr (fun a ha => (hnext server a ha).symm) (h server)

theorem next_of_read (h : s'.contexts.read c = s.contexts.read c) : s'.next c = s.next c :=
  congrArg (fun context => context.bind ClientContext.next) h

structure Good (s : Net) (H : Nat → Nat) (w : Nat → List Nat) (bound : Nat) : Prop where
  sound : Sound s H w
  listed : Listed s w
  inside : bound ≤ s.contexts.length

variable {bound : Nat}

theorem Good.counts (h : Good s H w bound) (heq : ∀ a, H a = H' a) : Good s H' w bound := by
  have hsame : H = H' := funext heq
  rw [← hsame]
  exact h

theorem Good.clients (h : Good s H w bound) (clients : Heap WiFiClient) :
    Good { s with clients := clients } H w bound :=
  ⟨⟨h.sound.count, h.sound.small, h.sound.alive, h.sound.apart, h.sound.used, h.sound.registered,
    h.sound.owner⟩, h.listed, h.inside⟩

theorem int8_eq {n : Int} (h : -128 ≤ n) (h' : n ≤ 127) : int8 n = n := by
  unfold int8
  omega

theorem Good.change (h : Good s H w bound) (hread : s.contexts.read c = some context)
    (changed : ClientContext) (hcount : changed.refcnt = H' c)
    (hsame : ∀ a, a ≠ c → H' a = H a) (hsmall : H' c ≤ 127) (hzero : H' c = 0 ↔ H c = 0)
    (hnext : changed.next = context.next)
    (hserver : changed.server = context.server) {args : List Nat}
    (hargs : ∀ a ∈ args, a ∈ s.args ∧ (a = c → changed.pcb = true)) :
    Good { s with contexts := s.contexts.write c (some changed), args } H' w bound := by
  have hinside := Heap.lt_of_read hread
  have hnew : (s.contexts.write c (some changed)).read c = some changed :=
    Heap.read_write_same hinside _
  refine ⟨?_, ?_, ?_⟩
  · refine h.sound.put hnew (fun a ha => Heap.read_write_other _ ha) hcount hsame hsmall
      h.sound.used ?_ (fun _ _ _ => Iff.rfl) ?_ ?_ ?_
    · intro a ha
      obtain ⟨hold, hpcb⟩ := hargs a ha
      by_cases heq : a = c
      · exact .inr ⟨heq, hpcb heq⟩
      · exact .inl ⟨heq, hold⟩
    · rcases (h.sound.alive c).mp ⟨context, hread⟩ with hpos | hwait
      · exact .inl (by omega)
      · exact .inr hwait
    · exact fun server hmem => hzero.mpr (h.sound.apart server c hmem)
    · exact fun server hmem => hserver.trans (h.sound.owner server c context hmem hread)
  · refine h.listed.congr rfl (fun server a _ => ?_)
    by_cases heq : a = c
    · subst heq
      unfold Net.next
      rw [hnew, hread]
      exact hnext
    · exact next_of_read (Heap.read_write_other _ heq)
  · simp only
    rw [Heap.length_write]
    exact h.inside

theorem change_read (hread : s.contexts.read c = some context) (f : ClientContext → ClientContext) :
    change s c f = { s with contexts := s.contexts.write c (some (f context)) } := by
  unfold Connections.change
  rw [hread]

theorem points_self (c : Nat) : points (some c) c = 1 := if_pos rfl

theorem points_other {a : Nat} (h : a ≠ c) : points (some c) a = 0 :=
  if_neg fun heq => h (Option.some.inj heq).symm

theorem Good.registered_same (h : Good s H w bound) (hread : s.contexts.read c = some context) :
    ∀ a ∈ s.args, a ∈ s.args ∧ (a = c → context.pcb = true) := by
  refine fun a ha => ⟨ha, ?_⟩
  rintro rfl
  obtain ⟨other, hother, hpcb⟩ := h.sound.registered a ha
  rw [hread] at hother
  rw [Option.some.inj hother]
  exact hpcb

theorem use_alive (hread : s.contexts.read c = some context) : use s c = s := by
  unfold use
  rw [change_read hread]
  simp only [id_eq]
  rw [Heap.write_read hread]

theorem Good.use (h : Good s H w bound) (halive : 0 < H c ∨ ∃ server, c ∈ w server) :
    Good (use s c) H w bound := by
  obtain ⟨context, hread⟩ := (h.sound.alive c).mpr halive
  rw [use_alive hread]
  exact h

theorem Good.hangUp (h : Good s H w bound) (halive : 0 < H c ∨ ∃ server, c ∈ w server) :
    Good (hangUp s c) H w bound := by
  obtain ⟨context, hread⟩ := (h.sound.alive c).mpr halive
  unfold Connections.hangUp
  rw [hread]
  simp only
  split
  · refine h.change hread { context with pcb := false } (h.sound.count c context hread)
      (fun _ _ => rfl) (h.sound.small c) Iff.rfl rfl rfl fun a ha => ?_
    obtain ⟨hold, hne⟩ := List.mem_filter.mp ha
    exact ⟨hold, fun heq => absurd heq (of_decide_eq_true hne)⟩
  · exact h

theorem Good.ref (h : Good s H w bound) (hheld : 0 < H c) (hroom : H c < 127) :
    Good (ref s c) (fun a => H a + points (some c) a) w bound := by
  obtain ⟨context, hread⟩ := (h.sound.alive c).mpr (.inl hheld)
  have hcount := h.sound.count c context hread
  have hargs := h.registered_same hread
  unfold Connections.ref
  rw [change_read hread]
  refine h.change hread { context with refcnt := int8 (context.refcnt + 1) } ?_
    (fun a ha => ?_) ?_ ?_ rfl rfl hargs
  · simp only
    rw [points_self, hcount, int8_eq (by omega) (by omega)]
    rfl
  · rw [points_other ha, Nat.add_zero]
  · rw [points_self]
    exact hroom
  · rw [points_self]
    omega

theorem unref_last (h : Good s H w bound) (hread : s.contexts.read c = some context)
    (hone : H c = 1) :
    ∃ args, unref s c = { s with contexts := s.contexts.write c none, args } ∧
      ∀ a ∈ args, a ≠ c ∧ a ∈ s.args := by
  have hinside := Heap.lt_of_read hread
  have hcount := h.sound.count c context hread
  have hzero : int8 (context.refcnt - 1) = 0 := by
    rw [hcount, hone]
    rfl
  unfold unref
  rw [change_read hread]
  simp only
  rw [Heap.read_write_same hinside]
  simp only
  rw [if_pos hzero]
  unfold hangUp
  simp only
  rw [Heap.read_write_same hinside]
  simp only
  split
  · refine ⟨s.args.filter (· ≠ c), ?_, fun a ha => ?_⟩
    · simp only
      rw [Heap.write_write, Heap.write_write]
    · obtain ⟨hold, hne⟩ := List.mem_filter.mp ha
      exact ⟨of_decide_eq_true hne, hold⟩
  · rename_i hpcb
    refine ⟨s.args, ?_, fun a ha => ⟨?_, ha⟩⟩
    · simp only
      rw [Heap.write_write]
    · rintro rfl
      exact hpcb ((h.registered_same hread a ha).2 rfl)

theorem Good.unref (h : Good s H w bound) (hheld : 0 < H c) :
    Good (unref s c) (fun a => H a - points (some c) a) w bound := by
  obtain ⟨context, hread⟩ := (h.sound.alive c).mpr (.inl hheld)
  have hinside := Heap.lt_of_read hread
  have hcount := h.sound.count c context hread
  have hsmall := h.sound.small c
  have hother : ∀ a, a ≠ c → H a - points (some c) a = H a := fun a ha => by
    rw [points_other ha, Nat.sub_zero]
  by_cases hone : H c = 1
  · obtain ⟨args, hunref, hargs⟩ := unref_last h hread hone
    rw [hunref]
    refine ⟨?_, ?_, ?_⟩
    · refine h.sound.delete hone (Heap.read_write_same hinside _)
        (fun a ha => Heap.read_write_other _ ha) h.sound.used hargs ?_ hother
      rw [points_self, hone]
    · refine h.listed.congr rfl (fun server a ha => ?_)
      have hne : a ≠ c := by
        rintro rfl
        have := h.sound.apart server a ha
        omega
      exact next_of_read (Heap.read_write_other _ hne)
    · simp only
      rw [Heap.length_write]
      exact h.inside
  · have hleft : int8 (context.refcnt - 1) = ((H c - 1 : Nat) : Int) := by
      rw [hcount, int8_eq (by omega) (by omega)]
      omega
    have hunref : Connections.unref s c =
        { s with
          contexts := s.contexts.write c
            (some { context with refcnt := int8 (context.refcnt - 1) }) } := by
      unfold Connections.unref
      rw [change_read hread]
      simp only
      rw [Heap.read_write_same hinside]
      simp only
      rw [if_neg (by rw [hleft]; omega)]
    have hargs := h.registered_same hread
    rw [hunref]
    refine h.change hread { context with refcnt := int8 (context.refcnt - 1) } ?_ hother ?_ ?_ rfl
      rfl hargs
    · simp only
      rw [points_self, hleft]
    · omega
    · rw [points_self]
      omega

theorem Sound.fresh (h : Sound s H w) :
    H s.contexts.length = 0 ∧ ∀ server, s.contexts.length ∉ w server := by
  have hdead : ¬ ∃ context, s.contexts.read s.contexts.length = some context := by
    rw [Heap.read_beyond (Nat.le_refl _)]
    exact fun ⟨_, hsome⟩ => nomatch hsome
  rw [h.alive, not_or] at hdead
  exact ⟨Nat.eq_zero_of_not_pos hdead.1, fun server hmem => hdead.2 ⟨server, hmem⟩⟩

theorem Good.newHeld (h : Good s H w bound) (i : Nat) (object : Option WiFiClient) :
    Good (Connections.ref (setClient (newContext s none).2 i object) s.contexts.length)
      (fun a => H a + points (some s.contexts.length) a) w bound := by
  have hnone := h.sound.fresh
  have hread : (setClient (newContext s none).2 i object).contexts.read s.contexts.length =
      some ⟨true, 0, none, none⟩ := Heap.read_alloc_new _ _
  unfold Connections.ref
  rw [change_read hread]
  have hinside := Heap.lt_of_read hread
  have hother : ∀ a, a ≠ s.contexts.length →
      ((setClient (newContext s none).2 i object).contexts.write s.contexts.length
        (some ⟨true, int8 (0 + 1), none, none⟩)).read a = s.contexts.read a := fun a ha =>
    (Heap.read_write_other _ ha).trans (Heap.read_alloc_other _ ha)
  refine ⟨?_, ?_, ?_⟩
  · refine h.sound.put (Heap.read_write_same hinside _) hother ?_ (fun a ha => ?_) ?_ h.sound.used
      (fun a ha => ?_) (fun _ _ _ => Iff.rfl) (.inl ?_) (fun server hmem => ?_)
      (fun server hmem => ?_)
    · simp only
      rw [points_self, hnone.1]
      rfl
    · rw [points_other ha, Nat.add_zero]
    · rw [points_self, hnone.1]
      decide
    · by_cases heq : a = s.contexts.length
      · exact .inr ⟨heq, rfl⟩
      · exact .inl ⟨heq, (List.mem_cons.mp ha).resolve_left heq⟩
    · rw [points_self]
      exact Nat.succ_pos _
    · exact absurd hmem (hnone.2 server)
    · exact absurd hmem (hnone.2 server)
  · refine h.listed.congr rfl (fun server a ha => ?_)
    have hne : a ≠ s.contexts.length := by
      rintro rfl
      exact hnone.2 server ha
    exact next_of_read (hother a hne)
  · simp only
    rw [Heap.length_write]
    refine Nat.le_trans h.inside ?_
    exact Nat.le_of_lt hinside

def withList (w : Nat → List Nat) (server : Nat) (list : List Nat) : Nat → List Nat :=
  fun a => if a = server then list else w a

theorem withList_same (w : Nat → List Nat) (server : Nat) (list : List Nat) :
    withList w server list server = list := if_pos rfl

theorem withList_other (w : Nat → List Nat) {server a : Nat} (list : List Nat) (h : a ≠ server) :
    withList w server list a = w a := if_neg h

theorem Good.claim (h : Good s H w bound) {server : Nat} {rest : List Nat}
    (hwaits : w server = c :: rest) (hrest : c ∉ rest) :
    ∃ s', accept s server = (some c, s') ∧
      s'.clients = s.clients.alloc ⟨some c, 5000, none⟩ ∧
      Good s' (fun a => H a + points (some c) a) (withList w server rest) bound := by
  have hpath := h.listed server
  rw [hwaits] at hpath
  obtain ⟨hhead, htail⟩ := hpath
  have hmem : c ∈ w server := by
    rw [hwaits]
    exact List.mem_cons_self
  have hzero := h.sound.apart server c hmem
  obtain ⟨context, hread⟩ := (h.sound.alive c).mpr (.inr ⟨server, hmem⟩)
  have hinside := Heap.lt_of_read hread
  have hcount := h.sound.count c context hread
  have hnew := Heap.read_write_same hinside
    (some { context with refcnt := int8 (context.refcnt + 1) })
  have hother : ∀ a, a ≠ c →
      (s.contexts.write c (some { context with refcnt := int8 (context.refcnt + 1) })).read a =
        s.contexts.read a := fun a ha => Heap.read_write_other _ ha
  have hnext : ∀ a, Net.next
      { s with
        contexts := s.contexts.write c (some { context with refcnt := int8 (context.refcnt + 1) })
        clients := s.clients.alloc ⟨some c, 5000, none⟩ } a = s.next a := by
    intro a
    by_cases heq : a = c
    · subst heq
      unfold Net.next
      rw [hnew, hread]
      rfl
    · exact next_of_read (hother a heq)
  have haccept : accept s server = (some c,
      { s with
        contexts := s.contexts.write c (some { context with refcnt := int8 (context.refcnt + 1) })
        clients := s.clients.alloc ⟨some c, 5000, none⟩
        unclaimed := link s.unclaimed server (s.next c) }) := by
    have href : Connections.ref { s with clients := s.clients.alloc ⟨some c, 5000, none⟩ } c =
        { s with
          contexts := s.contexts.write c (some { context with refcnt := int8 (context.refcnt + 1) })
          clients := s.clients.alloc ⟨some c, 5000, none⟩ } :=
      change_read (s := { s with clients := s.clients.alloc ⟨some c, 5000, none⟩ }) hread _
    have huse : Connections.use
        { s with
          contexts := s.contexts.write c (some { context with refcnt := int8 (context.refcnt + 1) })
          clients := s.clients.alloc ⟨some c, 5000, none⟩ } c =
        { s with
          contexts := s.contexts.write c (some { context with refcnt := int8 (context.refcnt + 1) })
          clients := s.clients.alloc ⟨some c, 5000, none⟩ } := use_alive hnew
    unfold accept
    rw [hhead]
    simp only
    rw [href, huse, hnext]
    exact congrArg (Prod.mk _) (use_alive hnew)
  refine ⟨_, haccept, rfl, ?_, fun a => ?_, ?_⟩
  · refine h.sound.put (c := c) hnew hother ?_ (fun a ha => ?_) ?_ h.sound.used (fun a ha => ?_)
      (fun a b hb => ?_) (.inl ?_) (fun a ha => ?_) (fun a ha => ?_)
    · simp only
      rw [points_self, hcount, hzero]
      rfl
    · rw [points_other ha, Nat.add_zero]
    · rw [points_self, hzero]
      decide
    · by_cases heq : a = c
      · exact .inr ⟨heq, (h.registered_same hread a ha).2 heq⟩
      · exact .inl ⟨heq, ha⟩
    · by_cases heq : a = server
      · rw [heq, withList_same, hwaits, List.mem_cons]
        exact ⟨.inr, fun hmem => hmem.resolve_left hb⟩
      · rw [withList_other w rest heq]
    · rw [points_self]
      exact Nat.succ_pos _
    all_goals
      by_cases heq : a = server
      · rw [heq, withList_same] at ha
        exact absurd ha hrest
      · rw [withList_other w rest heq] at ha
        have howner := h.sound.owner a c context ha hread
        rw [h.sound.owner server c context hmem hread] at howner
        exact absurd (Option.some.inj howner).symm heq
  · by_cases heq : a = server
    · rw [heq, withList_same]
      simp only
      rw [link_same]
      exact path_congr (fun b _ => (hnext b).symm) htail
    · rw [withList_other w rest heq]
      simp only
      rw [link_other _ _ heq]
      exact path_congr (fun b _ => (hnext b).symm) (h.listed a)
  · simp only
    rw [Heap.length_write]
    exact h.inside

theorem lastOf_path {contexts : Heap ClientContext} (front : List Nat) {last head fuel : Nat}
    (halive : ∀ a ∈ front ++ [last], ∃ context, contexts.read a = some context)
    (h : Path (fun a => (contexts.read a).bind ClientContext.next) (some head) (front ++ [last])
      none) (hfuel : (front ++ [last]).length ≤ fuel) :
    lastOf contexts fuel head = some last := by
  induction front generalizing head fuel with
  | nil =>
    obtain ⟨hhead, hnext⟩ := h
    obtain ⟨context, hread⟩ := halive last (List.mem_singleton_self _)
    cases fuel with
    | zero => cases hfuel
    | succ fuel =>
      rw [Option.some.inj hhead] at *
      have hnone : context.next = none := by
        simp only [hread] at hnext
        exact hnext
      rw [lastOf, hread]
      simp only
      rw [hnone]
  | cons a rest ih =>
    obtain ⟨hhead, hnext⟩ := h
    obtain ⟨context, hread⟩ := halive a List.mem_cons_self
    cases fuel with
    | zero => cases hfuel
    | succ fuel =>
      rw [Option.some.inj hhead] at *
      change Path _ ((contexts.read a).bind ClientContext.next) (rest ++ [last]) none at hnext
      rw [hread, Option.bind_some] at hnext
      rw [lastOf, hread]
      simp only
      cases hbehind : context.next with
      | none =>
        rw [hbehind] at hnext
        cases rest with
        | nil => cases hnext.1
        | cons => cases hnext.1
      | some next =>
        rw [hbehind] at hnext
        exact ih (fun b hb => halive b (List.mem_cons_of_mem _ hb)) hnext
          (Nat.le_of_succ_le_succ hfuel)

theorem length_of_sorted {xs : List Nat} {low high : Nat} (hsorted : xs.Pairwise (· < ·))
    (hlow : ∀ x ∈ xs, low ≤ x) (hhigh : ∀ x ∈ xs, x < high) : xs.length ≤ high - low := by
  induction xs generalizing low with
  | nil => exact Nat.zero_le _
  | cons x rest ih =>
    rw [List.pairwise_cons] at hsorted
    have hrest : rest.length ≤ high - (x + 1) :=
      ih hsorted.2 hsorted.1 fun y hy => hhigh y (List.mem_cons_of_mem _ hy)
    have hx := hlow x List.mem_cons_self
    have hx' := hhigh x List.mem_cons_self
    rw [List.length_cons]
    omega

theorem Sound.unclaimed (h : Sound s H w) (unclaimed : Nat → Option Nat) :
    Sound { s with unclaimed := unclaimed } H w :=
  ⟨h.count, h.small, h.alive, h.apart, h.used, h.registered, h.owner⟩

theorem Sound.inside (h : Sound s H w) {server a : Nat} (ha : a ∈ w server) :
    ∃ context, s.contexts.read a = some context ∧ a < s.contexts.length := by
  obtain ⟨context, hread⟩ := (h.alive a).mpr (.inr ⟨server, ha⟩)
  exact ⟨context, hread, Heap.lt_of_read hread⟩

theorem Sound.newWaiting (h : Sound s H w) (server : Nat) :
    Sound (newContext s (some server)).2 H
      (withList w server (w server ++ [s.contexts.length])) := by
  obtain ⟨hzero, hfresh⟩ := h.fresh
  have hmine : ∀ a, s.contexts.length ∈ withList w server (w server ++ [s.contexts.length]) a →
      a = server := by
    intro a ha
    by_cases heq : a = server
    · exact heq
    · rw [withList_other _ _ heq] at ha
      exact absurd ha (hfresh a)
  refine h.put (Heap.read_alloc_new _ _) (fun a ha => Heap.read_alloc_other _ ha) ?_
    (fun _ _ => rfl) (h.small _) h.used (fun a ha => ?_) (fun a b hb => ?_) (.inr ⟨server, ?_⟩)
    (fun _ _ => hzero) (fun a ha => ?_)
  · rw [hzero]
    rfl
  · by_cases heq : a = s.contexts.length
    · exact .inr ⟨heq, rfl⟩
    · exact .inl ⟨heq, (List.mem_cons.mp ha).resolve_left heq⟩
  · by_cases heq : a = server
    · rw [heq, withList_same, List.mem_append, List.mem_singleton]
      exact ⟨fun hmem => hmem.resolve_right hb, .inl⟩
    · rw [withList_other _ _ heq]
  · rw [withList_same]
    exact List.mem_append_right _ (List.mem_singleton_self _)
  · rw [hmine a ha]

theorem Good.arrive (h : Good s H w bound) {server : Nat} (hsorted : (w server).Pairwise (· < ·)) :
    Good (arrive s server) H (withList w server (w server ++ [s.contexts.length]))
        (s.contexts.length + 1) ∧
      (arrive s server).clients = s.clients := by
  obtain ⟨hzero, hfresh⟩ := h.sound.fresh
  have hsound := h.sound.newWaiting server
  have hlength : (newContext s (some server)).2.contexts.length = s.contexts.length + 1 :=
    Heap.length_alloc _ _
  have hnext : ∀ a, (newContext s (some server)).2.next a = s.next a := by
    intro a
    by_cases heq : a = s.contexts.length
    · have hnew : (newContext s (some server)).2.contexts.read a =
          some ⟨true, 0, none, server⟩ := by
        rw [heq]
        exact Heap.read_alloc_new _ _
      unfold Net.next
      rw [hnew, heq, Heap.read_beyond (Nat.le_refl _)]
      rfl
    · exact next_of_read (Heap.read_alloc_other _ heq)
  have hcnext : s.next s.contexts.length = none := by
    unfold Net.next
    rw [Heap.read_beyond (Nat.le_refl _)]
    rfl
  have hunclaimed : (newContext s (some server)).2.unclaimed = s.unclaimed := rfl
  have hitem : (newContext s (some server)).1 = s.contexts.length := rfl
  have hclients : (newContext s (some server)).2.clients = s.clients := rfl
  have hpath := h.listed server
  unfold Connections.arrive
  simp only
  generalize (newContext s (some server)).2 = net at *
  rw [hitem]
  unfold appendTail
  rw [hunclaimed]
  cases hhead : s.unclaimed server with
  | none =>
    rw [hhead] at hpath
    cases hwaits : w server with
    | cons a rest =>
      rw [hwaits] at hpath
      cases hpath.1
    | nil =>
      rw [hwaits] at hsound
      refine ⟨⟨hsound.unclaimed _, fun a => ?_, Nat.le_of_eq hlength.symm⟩, hclients⟩
      simp only
      by_cases heq : a = server
      · rw [heq, withList_same, link_same]
        exact ⟨rfl, (hnext _).trans hcnext⟩
      · rw [withList_other _ _ heq, link_other _ _ heq]
        exact path_congr (fun b _ => (hnext b).symm) (h.listed a)
  | some head =>
    rw [hhead] at hpath
    obtain hnil | ⟨front, last, hwaits⟩ := List.eq_nil_or_concat (w server)
    · rw [hnil] at hpath
      cases hpath
    · rw [List.concat_eq_append] at hwaits
      have hlast : last ∈ w server := by
        rw [hwaits]
        exact List.mem_append_right _ (List.mem_singleton_self _)
      have hmem : ∀ a ∈ w server, a ∈ withList w server (w server ++ [s.contexts.length]) server :=
        fun a ha => by
          rw [withList_same]
          exact List.mem_append_left _ ha
      have hshort : (w server).length ≤ s.contexts.length - 0 :=
        length_of_sorted hsorted (fun _ _ => Nat.zero_le _) fun a ha =>
          (h.sound.inside ha).elim fun _ hread => hread.2
      have hfound : lastOf net.contexts net.contexts.length head = some last := by
        refine lastOf_path front (fun a ha => ?_) ?_ ?_
        · rw [← hwaits] at ha
          exact (hsound.alive a).mpr (.inr ⟨server, hmem a ha⟩)
        · rw [← hwaits]
          exact path_congr (fun b _ => (hnext b).symm) hpath
        · rw [← hwaits, hlength]
          omega
      obtain ⟨context, hread⟩ := (hsound.alive last).mpr (.inr ⟨server, hmem last hlast⟩)
      have hinside := Heap.lt_of_read hread
      simp only
      rw [hfound]
      simp only
      rw [change_read hread]
      have hnew := Heap.read_write_same hinside
        (some { context with next := some s.contexts.length })
      have hother : ∀ a, a ≠ last → (net.contexts.write last
          (some { context with next := some s.contexts.length })).read a = net.contexts.read a :=
        fun a ha => Heap.read_write_other _ ha
      have hlinked : ∀ a, Net.next
          { net with
            contexts := net.contexts.write last
              (some { context with next := some s.contexts.length }) } a =
          link (link s.next s.contexts.length none) last (some s.contexts.length) a := by
        intro a
        by_cases heq : a = last
        · rw [heq, link_same]
          unfold Net.next
          rw [hnew]
          rfl
        · rw [link_other _ _ heq, next_of_read (hother a heq), hnext]
          by_cases hlatest : a = s.contexts.length
          · rw [hlatest, link_same, hcnext]
          · rw [link_other _ _ hlatest]
      refine ⟨⟨?_, fun a => ?_, ?_⟩, hclients⟩
      · refine hsound.put hnew hother (hsound.count last context hread) (fun _ _ => rfl)
          (hsound.small last) hsound.used (fun a ha => ?_) (fun _ _ _ => Iff.rfl)
          (.inr ⟨server, hmem last hlast⟩) (fun a ha => hsound.apart a last ha)
          (fun a ha => hsound.owner a last context ha hread)
        by_cases heq : a = last
        · obtain ⟨other, hother, hpcb⟩ := hsound.registered a ha
          rw [heq, hread] at hother
          rw [Option.some.inj hother]
          exact .inr ⟨heq, hpcb⟩
        · exact .inl ⟨heq, ha⟩
      · simp only
        rw [hunclaimed]
        refine path_congr (fun b _ => (hlinked b).symm) ?_
        by_cases heq : a = server
        · have happend := path_append_last (x := s.contexts.length)
            (show Path s.next (some head) (front ++ [last]) none from hwaits ▸ hpath)
            (by rw [← hwaits]; exact hfresh server)
            (by rw [← hwaits]; exact hsorted.imp Nat.ne_of_lt)
          rw [heq, withList_same, hhead, hwaits]
          exact happend
        · rw [withList_other _ _ heq]
          refine path_link_of_not_mem _ (fun hlast' => heq ?_)
            (path_link_of_not_mem _ (hfresh a) (h.listed a))
          obtain ⟨old, hold, -⟩ := h.sound.inside hlast
          have howner := h.sound.owner a last old hlast' hold
          rw [h.sound.owner server last old hlast hold] at howner
          exact (Option.some.inj howner).symm
      · simp only
        rw [Heap.length_write]
        exact Nat.le_of_eq hlength.symm

theorem Good.onUnref (h : Good s H w bound) (client : Option Nat)
    (hheld : ∀ c, client = some c → 0 < H c) :
    Good (onClient s Connections.unref client) (fun a => H a - points client a) w bound := by
  cases client with
  | none => exact h
  | some c => exact h.unref (hheld c rfl)

theorem Good.onRef (h : Good s H w bound) (client : Option Nat)
    (hheld : ∀ c, client = some c → 0 < H c ∧ H c < 127) :
    Good (onClient s Connections.ref client) (fun a => H a + points client a) w bound := by
  cases client with
  | none => exact h
  | some c => exact h.ref (hheld c rfl).1 (hheld c rfl).2

theorem Good.ref_overflows (h : Good s H w bound) (hfull : H c = 127) :
    ∃ context, (Connections.ref s c).contexts.read c = some context ∧ context.refcnt = -128 := by
  obtain ⟨context, hread⟩ := (h.sound.alive c).mpr (.inl (by omega))
  have hcount := h.sound.count c context hread
  unfold Connections.ref
  rw [change_read hread]
  refine ⟨_, Heap.read_write_same (Heap.lt_of_read hread) _, ?_⟩
  simp only
  rw [hcount, hfull]
  rfl

end Counts

section Clients
variable (s : Net) (c : Nat)

@[simp] theorem change_clients (f : ClientContext → ClientContext) :
    (change s c f).clients = s.clients := by
  unfold change
  split <;> rfl

@[simp] theorem use_clients : (use s c).clients = s.clients := change_clients s c _

@[simp] theorem ref_clients : (ref s c).clients = s.clients := change_clients s c _

@[simp] theorem hangUp_clients : (hangUp s c).clients = s.clients := by
  unfold hangUp
  split
  · split <;> rfl
  · rfl

@[simp] theorem unref_clients : (unref s c).clients = s.clients := by
  unfold unref
  simp only
  split
  · split
    · simp only [hangUp_clients, change_clients]
    · exact change_clients _ _ _
  · exact change_clients _ _ _

theorem onClient_clients {operation : Net → Nat → Net}
    (hkeeps : ∀ s c, (operation s c).clients = s.clients) (client : Option Nat) :
    (onClient s operation client).clients = s.clients := by
  cases client with
  | none => rfl
  | some c => exact hkeeps s c

@[simp] theorem stop_clients (this : WiFiClient) : (stop s this).clients = s.clients :=
  onClient_clients s (fun s c => by rw [hangUp_clients, use_clients]) _

end Clients

section Session
variable {s : Session}

structure Consistent (s : Session) : Prop where
  sound : Sound s.net s.net.holders s.waiting
  listed : Listed s.net s.waiting
  order : ∀ server, s.arrivedAt server = s.returnedBy server ++ s.waiting server
  sorted : ∀ server, (s.arrivedAt server).Pairwise (· < ·)
  inside : ∀ server, ∀ c ∈ s.arrivedAt server, c < s.net.contexts.length

theorem started_consistent : Consistent started := by
  refine ⟨⟨fun c context h => (nomatch h), fun c => Nat.zero_le _, fun c => iff_of_false ?_ ?_,
    fun server c h => (nomatch h), rfl, fun c h => (nomatch h),
    fun server c context h => (nomatch h)⟩, fun server => rfl, fun server => rfl,
    fun server => .nil, fun server c h => (nomatch h)⟩
  · exact fun ⟨_, h⟩ => nomatch h
  · rintro (h | ⟨server, h⟩)
    · exact absurd h (Nat.lt_irrefl 0)
    · exact nomatch h

theorem Consistent.good (h : Consistent s) :
    Good s.net s.net.holders s.waiting s.net.contexts.length :=
  ⟨h.sound, h.listed, Nat.le_refl _⟩

theorem Consistent.exact (h : Consistent s) : Exact s := by
  refine ⟨h.sound.count, fun c context hread => ?_, fun c hinside => ?_, h.sound.used, h.order,
    fun server => (h.sorted server).imp Nat.ne_of_lt, h.listed⟩
  · have hcount := h.sound.count c context hread
    constructor
    · intro hzero
      refine ((h.sound.alive c).mp ⟨context, hread⟩).resolve_left ?_
      omega
    · rintro ⟨server, hmem⟩
      rw [hcount, h.sound.apart server c hmem]
      rfl
  · have halive := h.sound.alive c
    constructor
    · intro hnone
      rw [hnone] at halive
      have hdead : ¬ (0 < s.net.holders c ∨ ∃ server, c ∈ s.waiting server) := by
        intro hsome
        obtain ⟨context, hcontext⟩ := halive.mpr hsome
        cases hcontext
      exact ⟨Nat.eq_zero_of_not_pos fun hpos => hdead (.inl hpos),
        fun server hmem => hdead (.inr ⟨server, hmem⟩)⟩
    · rintro ⟨hzero, hwait⟩
      cases hread : s.net.contexts.read c with
      | none => rfl
      | some context =>
        rcases halive.mp ⟨context, hread⟩ with hpos | ⟨server, hmem⟩
        · omega
        · exact absurd hmem (hwait server)

theorem Consistent.keep (h : Consistent s) {net : Net} {H : Nat → Nat}
    (hgood : Good net H s.waiting s.net.contexts.length) (hholders : ∀ a, H a = net.holders a) :
    Consistent ⟨net, s.arrived, s.returned⟩ := by
  have hcounted := hgood.counts hholders
  exact ⟨hcounted.sound, hcounted.listed, h.order, h.sorted,
    fun server c hc => Nat.lt_of_lt_of_le (h.inside server c hc) hcounted.inside⟩

theorem Net.holders_pos {s : Net} {i c : Nat} {this : WiFiClient}
    (hthis : s.clients.read i = some this) (hclient : this.client = some c) : 0 < s.holders c :=
  Heaps.holders_pos _ hthis hclient

theorem points_le {s : Net} {i : Nat} {this : WiFiClient} (hthis : s.clients.read i = some this)
    (a : Nat) : points this.client a ≤ s.holders a := by
  unfold points
  split
  · rename_i hclient
    exact Net.holders_pos hthis hclient
  · exact Nat.zero_le _

theorem holders_of_write {s net : Net} {i : Nat} {this : WiFiClient} (next : Option WiFiClient)
    (hthis : s.clients.read i = some this) (hclients : net.clients = s.clients.write i next)
    (a : Nat) :
    s.holders a - points this.client a + points (next.bind WiFiClient.client) a =
      net.holders a := by
  have hwrite := holders_write WiFiClient.client hthis next a
  have hle := points_le hthis a
  unfold Net.holders at hle ⊢
  rw [hclients]
  omega

theorem holders_of_alloc {s net : Net} (object : WiFiClient)
    (hclients : net.clients = s.clients.alloc object) (a : Nat) :
    s.holders a + points object.client a = net.holders a := by
  unfold Net.holders
  rw [hclients]
  exact (holders_alloc _ _ _ _).symm

theorem holders_same {s net : Net} (hclients : net.clients = s.clients) (a : Nat) :
    s.holders a = net.holders a := by
  unfold Net.holders
  rw [hclients]

theorem create_consistent (h : Consistent s) :
    Consistent ⟨create s.net, s.arrived, s.returned⟩ :=
  h.keep (h.good.clients _) fun a => holders_of_alloc ⟨none, 5000, none⟩ rfl a

theorem copy_consistent (h : Consistent s) {i : Nat} {other : WiFiClient}
    (hother : s.net.clients.read i = some other)
    (hroom : ∀ c, other.client = some c → s.net.holders c < 127) :
    Consistent ⟨copy s.net other, s.arrived, s.returned⟩ := by
  have hgood := (h.good.clients (s.net.clients.alloc other)).onRef other.client
    fun c hc => ⟨Net.holders_pos hother hc, hroom c hc⟩
  exact h.keep hgood fun a => holders_of_alloc other (onClient_clients _ ref_clients _) a

theorem assign_consistent (h : Consistent s) {i j : Nat} {this other : WiFiClient}
    (hthis : s.net.clients.read i = some this) (hother : s.net.clients.read j = some other)
    (hserved : ∀ c, other.client = some c →
      if this.client = some c then 1 < s.net.holders c else s.net.holders c < 127) :
    Consistent ⟨assign s.net i this other, s.arrived, s.returned⟩ := by
  have hreleased := h.good.onUnref this.client fun c hc => Net.holders_pos hthis hc
  have hassigned := (hreleased.clients
    ((onClient s.net unref this.client).clients.write i (some other))).onRef
      other.client ?_
  · refine h.keep hassigned fun a => holders_of_write (some other) hthis ?_ a
    refine (onClient_clients _ ref_clients _).trans ?_
    exact congrArg (fun clients => Heap.write clients i (some other))
      (onClient_clients _ unref_clients _)
  · intro c hc
    have hserved := hserved c hc
    have hpos := Net.holders_pos hother hc
    have hsmall := h.sound.small c
    unfold points
    split
    · rename_i hsame
      rw [if_pos hsame] at hserved
      omega
    · rename_i hsame
      rw [if_neg hsame] at hserved
      omega

theorem stop_good {H : Nat → Nat} {w : Nat → List Nat} {bound : Nat} {net : Net}
    {this : WiFiClient} (h : Good net H w bound) (hheld : ∀ c, this.client = some c → 0 < H c) :
    Good (stop net this) H w bound := by
  unfold stop
  cases hclient : this.client with
  | none => exact h
  | some c =>
    have hpos := hheld c hclient
    exact (h.use (.inl hpos)).hangUp (.inl hpos)

theorem call_consistent (h : Consistent s) {i : Nat} {this : WiFiClient}
    (hthis : s.net.clients.read i = some this) :
    Consistent ⟨onClient s.net use this.client, s.arrived, s.returned⟩ := by
  refine h.keep ?_ fun a => holders_same (onClient_clients _ use_clients _) a
  cases hclient : this.client with
  | none => exact h.good
  | some c => exact h.good.use (.inl (Net.holders_pos hthis hclient))

theorem destroy_consistent (h : Consistent s) {i : Nat} {this : WiFiClient}
    (hthis : s.net.clients.read i = some this) :
    Consistent ⟨destroy s.net i this, s.arrived, s.returned⟩ := by
  have hreleased := h.good.onUnref this.client fun c hc => Net.holders_pos hthis hc
  refine h.keep (hreleased.clients _) fun a => ?_
  refine holders_of_write none hthis ?_ a
  exact congrArg (fun clients => Heap.write clients i none) (onClient_clients _ unref_clients _)

theorem connect_consistent (h : Consistent s) {i : Nat} {this : WiFiClient}
    (hthis : s.net.clients.read i = some this) (pcb : Bool) (outcome : Outcome) :
    Consistent ⟨connect s.net i this pcb outcome, s.arrived, s.returned⟩ := by
  have hheld : ∀ c, this.client = some c → 0 < s.net.holders c :=
    fun c hc => Net.holders_pos hthis hc
  have hreleased := ((stop_good h.good hheld).onUnref this.client hheld).clients
    ((onClient (stop s.net this) unref this.client).clients.write i
      (some { this with client := none }))
  have hclients : (onClient (stop s.net this) unref this.client).clients = s.net.clients :=
    (onClient_clients _ unref_clients _).trans (stop_clients _ _)
  unfold connect setClient
  simp only
  rw [hclients] at hreleased ⊢
  generalize hnet : ({ onClient (stop s.net this) unref this.client with
    clients := s.net.clients.write i (some { this with client := none }) } : Net) = net at *
  have hnetClients : net.clients = s.net.clients.write i (some { this with client := none }) := by
    rw [← hnet]
  split
  · exact h.keep hreleased fun a => holders_of_write _ hthis hnetClients a
  · have hnew := hreleased.newHeld i (some { this with client := some net.contexts.length })
    have hone : 0 < s.net.holders net.contexts.length - points this.client net.contexts.length +
        points (some net.contexts.length) net.contexts.length := by
      rw [points_self]
      exact Nat.succ_pos _
    have hused := hnew.use (.inl hone)
    have hfailed : ∀ failed : Net,
        Good failed (fun a => s.net.holders a - points this.client a +
          points (some net.contexts.length) a) s.waiting s.net.contexts.length →
        failed.clients = (setClient (newContext net none).2 i
          (some { this with client := some net.contexts.length })).clients →
        Consistent ⟨setClient (unref failed net.contexts.length) i
          (some { this with client := none }), s.arrived, s.returned⟩ := by
      intro failed hgood hfailed
      refine h.keep ((hgood.unref hone).clients _) fun a => ?_
      rw [Nat.add_sub_cancel]
      refine holders_of_write (some { this with client := none }) hthis ?_ a
      change Heap.write (unref failed net.contexts.length).clients i _ = _
      rw [unref_clients, hfailed]
      unfold setClient newContext
      simp only
      rw [Heap.write_write, hnetClients, Heap.write_write]
    cases outcome with
    | established =>
      refine h.keep (hused.use (.inl hone)) fun a => ?_
      refine holders_of_write (some { this with client := some net.contexts.length }) hthis
        ?_ a
      simp only
      rw [use_clients, use_clients, ref_clients]
      unfold newContext
      simp only
      rw [hnetClients, Heap.write_write]
    | refused =>
      refine hfailed _ hused ?_
      rw [use_clients, ref_clients]
      rfl
    | lost =>
      refine hfailed _ (hused.hangUp (.inl hone)) ?_
      rw [hangUp_clients, use_clients, ref_clients]
      rfl
    | late =>
      refine hfailed _ (hused.hangUp (.inl hone)) ?_
      rw [hangUp_clients, use_clients, ref_clients]
      rfl

theorem callback_consistent (h : Consistent s) (c : Nat) {operation : Net → Nat → Net}
    (hgood : (0 < s.net.holders c ∨ ∃ server, c ∈ s.waiting server) →
      Good (operation s.net c) s.net.holders s.waiting s.net.contexts.length)
    (hclients : (operation s.net c).clients = s.net.clients) :
    Consistent ⟨callback s.net c operation, s.arrived, s.returned⟩ := by
  unfold callback
  split
  · rename_i hmem
    obtain ⟨context, hread, -⟩ := h.sound.registered c hmem
    exact h.keep (hgood ((h.sound.alive c).mp ⟨context, hread⟩)) fun a => holders_same hclients a
  · exact h

theorem ofServer_same (entries : List (Nat × Nat)) (server c : Nat) :
    ofServer server (entries ++ [(server, c)]) = ofServer server entries ++ [c] := by
  unfold ofServer
  rw [List.filter_append, List.map_append]
  simp

theorem ofServer_other (entries : List (Nat × Nat)) {server a : Nat} (c : Nat) (h : a ≠ server) :
    ofServer a (entries ++ [(server, c)]) = ofServer a entries := by
  unfold ofServer
  rw [List.filter_append, List.map_append]
  simp [h.symm]

theorem arrive_consistent (h : Consistent s) (server : Nat) :
    Consistent ⟨arrive s.net server, s.arrived ++ [(server, s.net.contexts.length)],
      s.returned⟩ := by
  have hsuffix : s.waiting server <:+ s.arrivedAt server := List.drop_suffix _ _
  obtain ⟨hgood, hclients⟩ := h.good.arrive
    ((h.sorted server).sublist hsuffix.sublist)
  have hwaiting : Session.waiting ⟨arrive s.net server,
      s.arrived ++ [(server, s.net.contexts.length)], s.returned⟩ =
        withList s.waiting server (s.waiting server ++ [s.net.contexts.length]) := by
    funext a
    unfold Session.waiting Session.arrivedAt Session.returnedBy
    by_cases heq : a = server
    · subst heq
      have horder := congrArg List.length (h.order a)
      unfold Session.arrivedAt Session.returnedBy at horder
      rw [List.length_append] at horder
      have hle : (ofServer a s.returned).length ≤ (ofServer a s.arrived).length := by omega
      rw [ofServer_same, withList_same, List.drop_append_of_le_length hle]
    · rw [ofServer_other _ _ heq, withList_other _ _ heq]
  have hcounted := hgood.counts fun a => holders_same hclients a
  rw [← hwaiting] at hcounted
  refine ⟨hcounted.sound, hcounted.listed, fun a => ?_, fun a => ?_, fun a c hc => ?_⟩
  · rw [hwaiting]
    by_cases heq : a = server
    · subst heq
      rw [withList_same, ← List.append_assoc]
      exact (ofServer_same _ _ _).trans (congrArg (· ++ [_]) (h.order a))
    · rw [withList_other _ _ heq]
      exact (ofServer_other _ _ heq).trans (h.order a)
  · unfold Session.arrivedAt
    by_cases heq : a = server
    · subst heq
      rw [ofServer_same, List.pairwise_append]
      refine ⟨h.sorted a, List.pairwise_singleton _ _, fun b hb c hc => ?_⟩
      rw [List.mem_singleton.mp hc]
      exact h.inside a b hb
    · rw [ofServer_other _ _ heq]
      exact h.sorted a
  · refine Nat.lt_of_lt_of_le ?_ hcounted.inside
    unfold Session.arrivedAt at hc
    by_cases heq : a = server
    · subst heq
      rw [ofServer_same] at hc
      rcases List.mem_append.mp hc with hold | hnew
      · exact Nat.lt_succ_of_lt (h.inside a c hold)
      · rw [List.mem_singleton.mp hnew]
        exact Nat.lt_succ_self _
    · rw [ofServer_other _ _ heq] at hc
      exact Nat.lt_succ_of_lt (h.inside a c hc)

theorem accept_consistent (h : Consistent s) (server : Nat) :
    Consistent (step s (.accept server)).1 := by
  have hpath := h.listed server
  cases hhead : s.net.unclaimed server with
  | none =>
    have haccept : accept s.net server = (none, create s.net) := by
      unfold accept
      rw [hhead]
    have hstep : (step s (.accept server)).1 = ⟨create s.net, s.arrived, s.returned⟩ := by
      unfold step act
      simp only [haccept]
    rw [hstep]
    exact create_consistent h
  | some c =>
    rw [hhead] at hpath
    cases hwaits : s.waiting server with
    | nil =>
      rw [hwaits] at hpath
      cases hpath
    | cons first rest =>
      rw [hwaits] at hpath
      obtain rfl : c = first := Option.some.inj hpath.1
      have hsuffix : s.waiting server <:+ s.arrivedAt server := List.drop_suffix _ _
      have hsorted := (h.sorted server).sublist hsuffix.sublist
      rw [hwaits, List.pairwise_cons] at hsorted
      obtain ⟨net, haccept, hclients, hgood⟩ := h.good.claim hwaits
        fun hmem => absurd (hsorted.1 c hmem) (Nat.lt_irrefl c)
      have hstep : (step s (.accept server)).1 =
          ⟨net, s.arrived, s.returned ++ [(server, c)]⟩ := by
        unfold step act
        simp only [haccept]
      have hwaiting : Session.waiting ⟨net, s.arrived, s.returned ++ [(server, c)]⟩ =
          withList s.waiting server rest := by
        funext a
        unfold Session.waiting Session.arrivedAt Session.returnedBy
        by_cases heq : a = server
        · subst heq
          rw [ofServer_same, withList_same, List.length_append, ← List.drop_drop]
          exact congrArg (List.drop 1) hwaits
        · rw [ofServer_other _ _ heq, withList_other _ _ heq]
      have hcounted := hgood.counts fun a =>
        holders_of_alloc ⟨some c, 5000, none⟩ hclients a
      rw [hstep]
      rw [← hwaiting] at hcounted
      refine ⟨hcounted.sound, hcounted.listed, fun a => ?_, h.sorted,
        fun a b hb => Nat.lt_of_lt_of_le (h.inside a b hb) hcounted.inside⟩
      rw [hwaiting]
      unfold Session.returnedBy
      by_cases heq : a = server
      · subst heq
        rw [withList_same, ofServer_same, List.append_assoc]
        exact (h.order a).trans (congrArg (_ ++ ·) hwaits)
      · rw [withList_other _ _ heq, ofServer_other _ _ heq]
        exact h.order a

theorem step_consistent (h : Consistent s) (action : Action) (hserved : action.Served s) :
    Consistent (step s action).1 := by
  cases action with
  | create => exact create_consistent h
  | copy i =>
    unfold step act withClient
    simp only
    split
    · rename_i other hother
      exact copy_consistent h hother fun c hc => hserved other c hother hc
    · exact h
  | assign i j =>
    unfold step act withClient
    simp only
    split
    · rename_i this hthis
      split
      · rename_i other hother
        exact assign_consistent h hthis hother fun c hc => hserved this other c hthis hother hc
      · exact h
    · exact h
  | connect i pcb outcome =>
    unfold step act withClient
    simp only
    split
    · rename_i this hthis
      exact connect_consistent h hthis pcb outcome
    · exact h
  | stop i =>
    unfold step act withClient
    simp only
    split
    · rename_i this hthis
      exact h.keep (stop_good h.good fun c hc => Net.holders_pos hthis hc)
        fun a => holders_same (stop_clients _ _) a
    · exact h
  | call i =>
    unfold step act withClient
    simp only
    split
    · rename_i this hthis
      exact call_consistent h hthis
    · exact h
  | destroy i =>
    unfold step act withClient
    simp only
    split
    · rename_i this hthis
      exact destroy_consistent h hthis
    · exact h
  | accept server => exact accept_consistent h server
  | arrive server => exact arrive_consistent h server
  | data c => exact callback_consistent h c h.good.use (use_clients _ _)
  | closed c left =>
    cases left with
    | true => exact callback_consistent h c h.good.use (use_clients _ _)
    | false => exact callback_consistent h c h.good.hangUp (hangUp_clients _ _)
  | error c => exact callback_consistent h c h.good.hangUp (hangUp_clients _ _)

theorem overflow_fails {net : Net} {c : Nat}
    (hread : ∃ context, net.contexts.read c = some context ∧ context.refcnt = -128) :
    ¬ Exact ⟨net, s.arrived, s.returned⟩ := by
  intro hexact
  obtain ⟨context, hread, hcount⟩ := hread
  have hholders := hexact.count c context hread
  omega

theorem selfAssign_fails (h : Consistent s) {i c : Nat} {this other : WiFiClient}
    (hclient : this.client = some c) (hother : other.client = some c)
    (hone : s.net.holders c = 1) : (assign s.net i this other).misused = true := by
  obtain ⟨context, hread⟩ := (h.sound.alive c).mpr (.inl (by omega))
  obtain ⟨args, hunref, -⟩ := unref_last h.good hread hone
  unfold assign
  rw [hclient, hother]
  change (ref (setClient (unref s.net c) i (some other)) c).misused = true
  rw [hunref]
  unfold ref change setClient
  simp only
  rw [Heap.read_write_same (Heap.lt_of_read hread)]

theorem step_fails (h : Consistent s) (action : Action) (hserved : ¬ action.Served s) :
    ¬ Exact (step s action).1 := by
  cases action with
  | copy i =>
    simp only [Action.Served, Classical.not_forall] at hserved
    obtain ⟨other, c, hother, hclient, hfull⟩ := hserved
    have hsmall := h.sound.small c
    have hnet : (step s (.copy i)).1 =
        ⟨ref { s.net with clients := s.net.clients.alloc other } c, s.arrived, s.returned⟩ := by
      unfold step act withClient copy
      simp only [hother, hclient]
      rfl
    rw [hnet]
    exact overflow_fails ((h.good.clients _).ref_overflows (by omega))
  | assign i j =>
    simp only [Action.Served, Classical.not_forall] at hserved
    obtain ⟨this, other, c, hthis, hother, hclient, hcount⟩ := hserved
    have hsmall := h.sound.small c
    have hpos := Net.holders_pos hother hclient
    have hnet : (step s (.assign i j)).1 =
        ⟨assign s.net i this other, s.arrived, s.returned⟩ := by
      unfold step act withClient
      simp only [hthis, hother]
    rw [hnet]
    split at hcount
    · rename_i hsame
      intro hexact
      have hused := hexact.used
      simp only at hused
      rw [selfAssign_fails h hsame hclient (by omega)] at hused
      cases hused
    · rename_i hdifferent
      have hreleased := h.good.onUnref this.client
        fun c hc => Net.holders_pos hthis hc
      have hfull : s.net.holders c - points this.client c = 127 := by
        unfold points
        rw [if_neg hdifferent]
        omega
      unfold assign
      rw [hclient]
      exact overflow_fails ((hreleased.clients _).ref_overflows hfull)
  | _ => exact absurd trivial hserved

end Session

/-- All along a run the counts are exact if and only if nobody assigns the only object of a context
to itself and no context gets a 128th object. -/
theorem references_exact_iff (actions : List Action) :
    (∀ first second, actions = first ++ second → Exact (netMachine.run started first).1) ↔
      netMachine.Along (fun s action => action.Served s) started actions := by
  refine netMachine.along_iff_invariant _ Consistent Exact ?_ ?_ _ actions started_consistent
    started_consistent.exact
  · exact fun s action h _ hserved => step_consistent h action hserved
  · exact fun s action h _ => ⟨fun hexact => Classical.byContradiction fun hserved =>
      step_fails h action hserved hexact, fun hserved => (step_consistent h action hserved).exact⟩

theorem selfAssign_misuses : ¬ Exact (netMachine.run started
    [.create, .connect 0 true .established, .assign 0 0]).1 := fun h =>
  absurd (show true = false from h.used) (by decide)

end Esp8266.Connections
