import Mathlib.Data.List.Nodup
import Mathlib.Data.List.Perm.Subperm
import Esp8266.Library.Heap
import Esp8266.Library.LinkedList
import Esp8266.Library.Machine

/-! The handlers of the web server: a list that is linked through them. Their addresses are numbers,
in the order in which they are added; none is used again. -/
namespace Esp8266.HandlerList
open Esp8266.Heaps Esp8266.LinkedList Esp8266.Runs

structure RequestHandler (ρ : Type) where
  canHandle : ρ → Bool
  canHandleFiltered : ρ → Bool
  next : Option Nat

structure WebServer (ρ : Type) where
  heap : Heap (RequestHandler ρ)
  firstHandler : Option Nat
  lastHandler : Option Nat

section Code
variable {ρ : Type}

def WebServer.new : WebServer ρ := ⟨[], none, none⟩

def WebServer.setNext (s : WebServer ρ) (handler : Nat) (r : Option Nat) : Option (WebServer ρ) :=
  (s.heap.read handler).map fun object =>
    { s with heap := s.heap.write handler (some { object with next := r }) }

def WebServer.addRequestHandler (s : WebServer ρ) (object : RequestHandler ρ) :
    Option (WebServer ρ) :=
  let handler := s.heap.length
  let s := { s with heap := s.heap.alloc { object with next := none } }
  match s.lastHandler with
  | none => some { s with firstHandler := some handler, lastHandler := some handler }
  | some last =>
    (s.setNext last (some handler)).map fun s => { s with lastHandler := some handler }

def removeLoop (handler : Nat) :
    Nat → WebServer ρ → Option Nat → Option Nat → Option (Bool × WebServer ρ)
  | _, s, none, _ => some (false, s)
  | 0, _, some _, _ => none
  | fuel + 1, s, some current, previous =>
    match s.heap.read current with
    | none => none
    | some object =>
      if current = handler then
        let relinked :=
          match previous with
          | none => some { s with firstHandler := object.next }
          | some previous => s.setNext previous object.next
        relinked.map fun s =>
          let s := if some current = s.lastHandler then { s with lastHandler := previous } else s
          (true, { s with heap := s.heap.write current none })
      else removeLoop handler fuel s object.next (some current)

def WebServer.removeRequestHandler (s : WebServer ρ) (handler : Nat) :
    Option (Bool × WebServer ρ) :=
  removeLoop handler s.heap.length s s.firstHandler none

def removeRouteLoop (route : ρ) :
    Nat → WebServer ρ → Option Nat → Option Nat → Bool → Option (Bool × WebServer ρ)
  | _, s, none, _, anyHandlerRemoved => some (anyHandlerRemoved, s)
  | 0, _, some _, _, _ => none
  | fuel + 1, s, some handler, previousHandler, anyHandlerRemoved =>
    match s.heap.read handler with
    | none => none
    | some object =>
      if object.canHandle route then
        match s.removeRequestHandler handler with
        | none => none
        | some (true, s) =>
          match previousHandler with
          | none => removeRouteLoop route fuel s s.firstHandler none true
          | some previous =>
            match s.heap.read previous with
            | none => none
            | some object => removeRouteLoop route fuel s object.next (some previous) true
        | some (false, s) =>
          removeRouteLoop route fuel s object.next (some handler) anyHandlerRemoved
      else removeRouteLoop route fuel s object.next (some handler) anyHandlerRemoved

def WebServer.removeRoute (s : WebServer ρ) (route : ρ) : Option (Bool × WebServer ρ) :=
  removeRouteLoop route s.heap.length s s.firstHandler none false

def attachLoop (request : ρ) : Nat → WebServer ρ → Option Nat → Option (Option Nat)
  | _, _, none => some none
  | 0, _, some _ => none
  | fuel + 1, s, some handler =>
    match s.heap.read handler with
    | none => none
    | some object =>
      if object.canHandleFiltered request then some (some handler)
      else attachLoop request fuel s object.next

inductive Action (ρ : Type) where
  | add (object : RequestHandler ρ)
  | removeHandler (handler : Nat)
  | removeRoute (route : ρ)
  | request (request : ρ)

inductive Answer where
  | added
  | removed (result : Bool)
  | dispatched (handler : Option Nat)
  | crash
  deriving DecidableEq

def changed (s : WebServer ρ) (r : Option (Bool × WebServer ρ)) : WebServer ρ × Answer :=
  match r with
  | none => (s, .crash)
  | some (result, s) => (s, .removed result)

def step (s : WebServer ρ) : Action ρ → WebServer ρ × Answer
  | .add object =>
    match s.addRequestHandler object with
    | none => (s, .crash)
    | some s => (s, .added)
  | .removeHandler handler => changed s (s.removeRequestHandler handler)
  | .removeRoute route => changed s (s.removeRoute route)
  | .request request =>
    match attachLoop request s.heap.length s s.firstHandler with
    | none => (s, .crash)
    | some handler => (s, .dispatched handler)

def machine : Machine (WebServer ρ) (Action ρ) Answer := ⟨step⟩

abbrev Entry (ρ : Type) := Nat × RequestHandler ρ

structure Registry (ρ : Type) where
  entries : List (Entry ρ)
  count : Nat

def registryStep (t : Registry ρ) : Action ρ → Registry ρ × Answer
  | .add object => (⟨t.entries ++ [(t.count, object)], t.count + 1⟩, .added)
  | .removeHandler handler =>
    ({ t with entries := t.entries.filter (·.1 ≠ handler) },
      .removed (t.entries.any (·.1 = handler)))
  | .removeRoute route =>
    ({ t with entries := t.entries.filter fun entry => !entry.2.canHandle route },
      .removed (t.entries.any (·.2.canHandle route)))
  | .request request =>
    (t, .dispatched ((t.entries.find? (·.2.canHandleFiltered request)).map Prod.fst))

def registry : Machine (Registry ρ) (Action ρ) Answer := ⟨registryStep⟩

def WebServer.next (s : WebServer ρ) (handler : Nat) : Option Nat :=
  (s.heap.read handler).bind (·.next)

structure Linked (s : WebServer ρ) (entries : List (Entry ρ)) : Prop where
  path : Path s.next s.firstHandler (entries.map Prod.fst) none
  last : s.lastHandler = (entries.map Prod.fst).getLast?
  nodup : (entries.map Prod.fst).Nodup
  alive : ∀ entry ∈ entries, ∃ next, s.heap.read entry.1 = some { entry.2 with next }

end Code

section Pointers
variable {ρ : Type} {s : WebServer ρ} {handler : Nat} {object : RequestHandler ρ}

theorem next_of_read (h : s.heap.read handler = some object) : s.next handler = object.next := by
  unfold WebServer.next
  rw [h]
  rfl

theorem next_write (h : s.heap.read handler = some object) (object' : Option (RequestHandler ρ))
    (first last : Option Nat) :
    (WebServer.mk (s.heap.write handler object') first last).next =
      link s.next handler (object'.bind (·.next)) := by
  funext other
  unfold WebServer.next
  by_cases hsame : other = handler
  · rw [hsame, link_same, Heap.read_write_same (Heap.lt_of_read h)]
  · rw [link_other _ _ hsame, Heap.read_write_other _ hsame]

theorem next_alloc (object : RequestHandler ρ) (first last : Option Nat) :
    (WebServer.mk (s.heap.alloc { object with next := none }) first last).next =
      link s.next s.heap.length none := by
  funext other
  unfold WebServer.next
  by_cases hnew : other = s.heap.length
  · rw [hnew, link_same, Heap.read_alloc_new]
    rfl
  · rw [link_other _ _ hnew, Heap.read_alloc_other _ hnew]

theorem setNext_eq (h : s.heap.read handler = some object) (r : Option Nat) :
    s.setNext handler r =
      some { s with heap := s.heap.write handler (some { object with next := r }) } := by
  unfold WebServer.setNext
  rw [h]
  rfl

end Pointers

section Lists
variable {ρ : Type} {s : WebServer ρ} {front post : List (Entry ρ)} {e : Entry ρ}

theorem Linked.lt (h : Linked s post) {entry : Entry ρ} (hmem : entry ∈ post) :
    entry.1 < s.heap.length :=
  (h.alive entry hmem).elim fun _ hread => Heap.lt_of_read hread

theorem Linked.length_le (h : Linked s post) : post.length ≤ s.heap.length := by
  have hsub : post.map Prod.fst ⊆ List.range s.heap.length := by
    intro handler hmem
    obtain ⟨entry, hentry, rfl⟩ := List.mem_map.mp hmem
    exact List.mem_range.mpr (h.lt hentry)
  have hle := (h.nodup.subperm hsub).length_le
  rwa [List.length_map, List.length_range] at hle

theorem Linked.read (h : Linked s (front ++ e :: post)) :
    ∃ object, s.heap.read e.1 = some object ∧ object = { e.2 with next := object.next } ∧
      object.next = (post.map Prod.fst).head? := by
  obtain ⟨next, hread⟩ := h.alive e (by simp)
  refine ⟨_, hread, rfl, ?_⟩
  have hpath := h.path
  rw [List.map_append, List.map_cons, path_append] at hpath
  obtain ⟨middle, -, -, hrest⟩ := hpath
  rw [next_of_read hread] at hrest
  cases post with
  | nil => exact hrest
  | cons first post => exact hrest.1

theorem Linked.first (h : Linked s post) : s.firstHandler = (post.map Prod.fst).head? := by
  have hpath := h.path
  cases post with
  | nil => exact hpath
  | cons first post => exact hpath.1

theorem Linked.distinct (h : Linked s (front ++ e :: post)) {entry : Entry ρ}
    (hmem : entry ∈ front ++ post) : entry.1 ≠ e.1 := by
  have hnodup := h.nodup
  rw [List.map_append, List.map_cons, List.nodup_middle, List.nodup_cons, ← List.map_append]
    at hnodup
  exact fun hsame => hnodup.1 (hsame ▸ List.mem_map_of_mem hmem)

theorem Linked.last_unlinked (h : Linked s (front ++ e :: post)) :
    (if some e.1 = s.lastHandler then (front.map Prod.fst).getLast? else s.lastHandler) =
      ((front ++ post).map Prod.fst).getLast? := by
  have hlast := h.last
  rcases List.eq_nil_or_concat' post with rfl | ⟨post, last, rfl⟩
  · rw [List.map_append, List.map_singleton, List.getLast?_concat] at hlast
    rw [if_pos hlast.symm, List.append_nil]
  · rw [← List.cons_append, ← List.append_assoc, List.map_append, List.map_singleton,
      List.getLast?_concat] at hlast
    have hmem : last ∈ front ++ (post ++ [last]) := by simp
    have hother : some e.1 ≠ s.lastHandler := by
      rw [hlast]
      exact fun hsame => h.distinct hmem (Option.some.inj hsame).symm
    rw [if_neg hother, hlast, ← List.append_assoc, List.map_append, List.map_singleton,
      List.getLast?_concat]

theorem Linked.delete {entries : List (Entry ρ)} (h : Linked s entries) {handler : Nat}
    {object : RequestHandler ρ} (hread : s.heap.read handler = some object)
    (hout : ∀ entry ∈ entries, entry.1 ≠ handler) :
    Linked { s with heap := s.heap.write handler none } entries where
  path := by
    rw [next_write hread]
    apply path_link_of_not_mem _ _ h.path
    intro hmem
    obtain ⟨entry, hentry, hsame⟩ := List.mem_map.mp hmem
    exact hout entry hentry hsame
  last := h.last
  nodup := h.nodup
  alive := by
    intro entry hmem
    obtain ⟨next, halive⟩ := h.alive entry hmem
    exact ⟨next, (Heap.read_write_other _ (hout entry hmem)).trans halive⟩

theorem Linked.relink (h : Linked s (front ++ e :: post)) {object : RequestHandler ρ}
    (hread : s.heap.read e.1 = some object) :
    ∃ s', (match (front.map Prod.fst).getLast? with
        | none => some { s with firstHandler := object.next }
        | some previous => s.setNext previous object.next) = some s' ∧
      s'.lastHandler = s.lastHandler ∧ s'.heap.length = s.heap.length ∧
      (∃ object', s'.heap.read e.1 = some object') ∧
      Path s'.next s'.firstHandler ((front ++ post).map Prod.fst) none ∧
      ∀ entry ∈ front ++ post, ∃ next, s'.heap.read entry.1 = some { entry.2 with next } := by
  have hnext := next_of_read hread
  have hpath := h.path
  have hkept : ∀ entry ∈ front ++ post, entry ∈ front ++ e :: post := by
    intro entry hmem
    rcases List.mem_append.mp hmem with hfront | hpost
    · exact List.mem_append_left _ hfront
    · exact List.mem_append_right _ (List.mem_cons_of_mem e hpost)
  rcases List.eq_nil_or_concat' front with rfl | ⟨front, p, rfl⟩
  · refine ⟨_, rfl, rfl, rfl, ⟨object, hread⟩, ?_, fun entry hmem => h.alive entry (hkept entry hmem)⟩
    have hrest := hpath.2
    rw [hnext] at hrest
    exact hrest
  · obtain ⟨next, hp⟩ := h.alive p (by simp)
    rw [List.map_append, List.map_singleton, List.getLast?_concat]
    refine ⟨_, setNext_eq hp object.next, rfl, Heap.length_write .., ?_, ?_, ?_⟩
    · have hmem : p ∈ front ++ [p] ++ post := by simp
      have hdistinct : e.1 ≠ p.1 := fun hsame => h.distinct hmem hsame.symm
      exact ⟨object, (Heap.read_write_other _ hdistinct).trans hread⟩
    · rw [next_write hp]
      have hnodup := h.nodup
      rw [List.append_assoc, List.singleton_append, List.map_append, List.map_cons,
        List.map_cons] at hpath hnodup
      have hunlinked := path_unlink hpath hnodup
      rw [hnext] at hunlinked
      rw [List.append_assoc, List.singleton_append, List.map_append, List.map_cons]
      exact hunlinked
    · intro entry hmem
      obtain ⟨next', halive⟩ := h.alive entry (hkept entry hmem)
      by_cases hsame : entry.1 = p.1
      · rw [hsame, hp] at halive
        have hobject := Option.some.inj halive
        refine ⟨object.next, ?_⟩
        rw [hsame, Heap.read_write_same (Heap.lt_of_read hp)]
        injection hobject with hcan hfiltered hnext'
        rw [hcan, hfiltered]
      · exact ⟨next', (Heap.read_write_other _ hsame).trans halive⟩

end Lists

section Loops
variable {ρ : Type} {s : WebServer ρ} {front rest : List (Entry ρ)} {e : Entry ρ}

theorem Linked.filter_out (h : Linked s (front ++ e :: rest)) :
    (front ++ e :: rest).filter (·.1 ≠ e.1) = front ++ rest := by
  have hkept : ∀ entry ∈ front ++ rest, decide (entry.1 ≠ e.1) = true :=
    fun entry hmem => decide_eq_true (h.distinct hmem)
  have hout : decide (e.1 ≠ e.1) = false := decide_eq_false fun hne => hne rfl
  have hall := List.filter_eq_self.mpr hkept
  rw [List.filter_append] at hall
  rw [List.filter_append, List.filter_cons, hout]
  exact hall

theorem Linked.removed (h : Linked s (front ++ e :: rest)) (fuel : Nat) :
    ∃ s', removeLoop e.1 (fuel + 1) s (some e.1) (front.map Prod.fst).getLast? =
        some (true, s') ∧
      Linked s' (front ++ rest) ∧ s'.heap.length = s.heap.length := by
  obtain ⟨object, hread, -, -⟩ := h.read
  obtain ⟨s', hrelink, hlast, hlength, ⟨object', hread'⟩, hpath, halive⟩ := h.relink hread
  have hunlinked := h.last_unlinked
  have hnodup : ((front ++ rest).map Prod.fst).Nodup := by
    have hnodup := h.nodup
    rw [List.map_append, List.map_cons, List.nodup_middle, List.nodup_cons,
      ← List.map_append] at hnodup
    exact hnodup.2
  have hlinked : Linked
      { s' with
        lastHandler := if some e.1 = s.lastHandler then (front.map Prod.fst).getLast?
          else s.lastHandler }
      (front ++ rest) := ⟨hpath, hunlinked, hnodup, halive⟩
  refine ⟨_, ?_, hlinked.delete hread' fun entry hmem => h.distinct hmem, ?_⟩
  · rw [removeLoop, hread]
    dsimp only
    rw [if_pos rfl, hrelink, Option.map_some, hlast]
    by_cases hif : some e.1 = s.lastHandler
    · rw [if_pos hif, if_pos hif]
    · rw [if_neg hif, if_neg hif, ← hlast]
  · exact (Heap.length_write ..).trans hlength

theorem removeLoop_spec {handler fuel : Nat} (h : Linked s (front ++ rest))
    (hfront : ∀ entry ∈ front, entry.1 ≠ handler) (hfuel : rest.length ≤ fuel) :
    ∃ s', removeLoop handler fuel s (rest.map Prod.fst).head? (front.map Prod.fst).getLast? =
        some (rest.any (·.1 = handler), s') ∧
      Linked s' ((front ++ rest).filter (·.1 ≠ handler)) ∧ s'.heap.length = s.heap.length := by
  induction rest generalizing front fuel with
  | nil =>
    refine ⟨s, ?_, ?_, rfl⟩
    · cases fuel <;> rfl
    · rw [List.append_nil] at h ⊢
      rwa [List.filter_eq_self.mpr fun entry hmem => decide_eq_true (hfront entry hmem)]
  | cons e rest ih =>
    obtain ⟨fuel, rfl⟩ : ∃ n, fuel = n + 1 :=
      Nat.exists_eq_succ_of_ne_zero (by rw [List.length_cons] at hfuel; omega)
    by_cases hfound : e.1 = handler
    · subst hfound
      obtain ⟨s', hremoved, hlinked, hlength⟩ := h.removed fuel
      refine ⟨s', ?_, ?_, hlength⟩
      · rw [List.any_cons, decide_eq_true rfl, Bool.true_or]
        exact hremoved
      · rwa [h.filter_out]
    · obtain ⟨object, hread, -, hnext⟩ := h.read
      have hfront' : ∀ entry ∈ front ++ [e], entry.1 ≠ handler := by
        intro entry hmem
        rcases List.mem_append.mp hmem with hmem | hmem
        · exact hfront entry hmem
        · exact (List.mem_singleton.mp hmem) ▸ hfound
      rw [← List.singleton_append, ← List.append_assoc] at h
      have hrest := ih h hfront' (Nat.le_of_succ_le_succ hfuel)
      rw [List.map_append, List.map_singleton, List.getLast?_concat, ← hnext] at hrest
      rw [List.map_cons, List.head?_cons, removeLoop, hread]
      dsimp only
      rw [if_neg hfound, List.any_cons, decide_eq_false hfound, Bool.false_or,
        ← List.singleton_append, ← List.append_assoc]
      exact hrest

theorem removeRequestHandler_spec (handler : Nat) (h : Linked s rest) :
    ∃ s', s.removeRequestHandler handler = some (rest.any (·.1 = handler), s') ∧
      Linked s' (rest.filter (·.1 ≠ handler)) ∧ s'.heap.length = s.heap.length := by
  unfold WebServer.removeRequestHandler
  rw [h.first]
  have hnil : Linked s ([] ++ rest) := h
  exact removeLoop_spec hnil (by simp) h.length_le

theorem removeRouteLoop_spec (route : ρ) {fuel : Nat} (h : Linked s (front ++ rest))
    (hfuel : rest.length ≤ fuel) (anyHandlerRemoved : Bool) :
    ∃ s', removeRouteLoop route fuel s (rest.map Prod.fst).head? (front.map Prod.fst).getLast?
        anyHandlerRemoved =
        some (anyHandlerRemoved || rest.any (·.2.canHandle route), s') ∧
      Linked s' (front ++ rest.filter fun entry => !entry.2.canHandle route) ∧
      s'.heap.length = s.heap.length := by
  induction rest generalizing s front fuel anyHandlerRemoved with
  | nil =>
    refine ⟨s, ?_, h, rfl⟩
    rw [List.any_nil, Bool.or_false]
    cases fuel <;> rfl
  | cons e rest ih =>
    obtain ⟨fuel, rfl⟩ : ∃ n, fuel = n + 1 :=
      Nat.exists_eq_succ_of_ne_zero (by rw [List.length_cons] at hfuel; omega)
    obtain ⟨object, hread, hobject, hnext⟩ := h.read
    have hcan : object.canHandle = e.2.canHandle := by rw [hobject]
    rw [List.map_cons, List.head?_cons, removeRouteLoop, hread, List.any_cons, List.filter_cons]
    dsimp only
    rw [hcan]
    cases hroute : e.2.canHandle route with
    | false =>
      have happend : front ++ e :: rest = front ++ [e] ++ rest := by simp
      have hrest := ih (happend ▸ h) (Nat.le_of_succ_le_succ hfuel) anyHandlerRemoved
      rw [List.map_append, List.map_singleton, List.getLast?_concat, ← hnext,
        List.append_assoc, List.singleton_append] at hrest
      exact hrest
    | true =>
      obtain ⟨s', hremoved, hlinked, hlength⟩ := removeRequestHandler_spec e.1 h
      have hany : (front ++ e :: rest).any (·.1 = e.1) = true := by simp
      rw [h.filter_out] at hlinked
      rw [hremoved, hany, Bool.true_or, Bool.or_true]
      dsimp only
      have hrest := ih hlinked (Nat.le_of_succ_le_succ hfuel) true
      rw [Bool.true_or, hlength] at hrest
      rcases List.eq_nil_or_concat' front with rfl | ⟨front, p, rfl⟩
      · have hfirst : s'.firstHandler = (rest.map Prod.fst).head? := hlinked.first
        rw [← hfirst] at hrest
        exact hrest
      · rw [List.append_assoc, List.singleton_append] at hlinked
        obtain ⟨before, hbefore, -, hnext'⟩ := hlinked.read
        rw [List.map_append, List.map_singleton, List.getLast?_concat] at hrest ⊢
        dsimp only
        rw [hbefore]
        dsimp only
        rw [hnext']
        exact hrest

theorem removeRoute_spec (route : ρ) (h : Linked s rest) :
    ∃ s', s.removeRoute route = some (rest.any (·.2.canHandle route), s') ∧
      Linked s' (rest.filter fun entry => !entry.2.canHandle route) ∧
      s'.heap.length = s.heap.length := by
  unfold WebServer.removeRoute
  rw [h.first]
  have hnil : Linked s ([] ++ rest) := h
  exact removeRouteLoop_spec route hnil h.length_le false

theorem attachLoop_spec (request : ρ) {fuel : Nat} (h : Linked s (front ++ rest))
    (hfuel : rest.length ≤ fuel) :
    attachLoop request fuel s (rest.map Prod.fst).head? =
      some ((rest.find? (·.2.canHandleFiltered request)).map Prod.fst) := by
  induction rest generalizing front fuel with
  | nil => cases fuel <;> rfl
  | cons e rest ih =>
    obtain ⟨fuel, rfl⟩ : ∃ n, fuel = n + 1 :=
      Nat.exists_eq_succ_of_ne_zero (by rw [List.length_cons] at hfuel; omega)
    obtain ⟨object, hread, hobject, hnext⟩ := h.read
    have hcan : object.canHandleFiltered = e.2.canHandleFiltered := by rw [hobject]
    rw [List.map_cons, List.head?_cons, attachLoop, hread]
    dsimp only
    rw [hcan, List.find?_cons]
    cases hrequest : e.2.canHandleFiltered request with
    | true => rfl
    | false =>
      have happend : front ++ e :: rest = front ++ [e] ++ rest := by simp
      have hrest := ih (happend ▸ h) (Nat.le_of_succ_le_succ hfuel)
      rw [← hnext] at hrest
      exact hrest

theorem addRequestHandler_spec (object : RequestHandler ρ) (h : Linked s rest) :
    ∃ s', s.addRequestHandler object = some s' ∧
      Linked s' (rest ++ [(s.heap.length, object)]) ∧ s'.heap.length = s.heap.length + 1 := by
  have hnew : s.heap.length ∉ rest.map Prod.fst := by
    intro hmem
    obtain ⟨entry, hentry, hsame⟩ := List.mem_map.mp hmem
    exact absurd (h.lt hentry) (by omega)
  have hnodup : ((rest ++ [(s.heap.length, object)]).map Prod.fst).Nodup := by
    rw [List.map_append, List.map_singleton, List.nodup_append]
    refine ⟨h.nodup, List.nodup_singleton _, ?_⟩
    intro handler hmem other hother hsame
    have hlength : handler = s.heap.length := hsame.trans (List.mem_singleton.mp hother)
    exact hnew (hlength ▸ hmem)
  have halive : ∀ entry ∈ rest ++ [(s.heap.length, object)], ∃ next,
      (s.heap.alloc { object with next := none }).read entry.1 =
        some { entry.2 with next } := by
    intro entry hmem
    rcases List.mem_append.mp hmem with hold | hadded
    · obtain ⟨next, hread⟩ := h.alive entry hold
      exact ⟨next, (Heap.read_alloc_other _ (Nat.ne_of_lt (h.lt hold))).trans hread⟩
    · rw [List.mem_singleton.mp hadded]
      exact ⟨none, Heap.read_alloc_new ..⟩
  have hlast := h.last
  unfold WebServer.addRequestHandler
  rcases List.eq_nil_or_concat' rest with rfl | ⟨front, p, rfl⟩
  · have hempty : s.lastHandler = none := hlast
    dsimp only
    rw [hempty]
    refine ⟨_, rfl, ⟨⟨rfl, ?_⟩, rfl, hnodup, halive⟩, Heap.length_alloc ..⟩
    rw [next_alloc]
    exact link_same ..
  · rw [List.map_append, List.map_singleton, List.getLast?_concat] at hlast
    obtain ⟨next, hp⟩ := halive p (by simp)
    have hset := @setNext_eq ρ
      ⟨s.heap.alloc { object with next := none }, s.firstHandler, some p.1⟩ p.1 _ hp
      (some s.heap.length)
    dsimp only at hset ⊢
    rw [hlast]
    dsimp only
    rw [hset]
    refine ⟨_, rfl, ⟨?_, ?_, hnodup, ?_⟩, ?_⟩
    · have hpath := h.path
      have hfresh := hnew
      have hdistinct := h.nodup
      rw [List.map_append, List.map_singleton] at hpath hfresh hdistinct
      rw [@next_write ρ ⟨s.heap.alloc { object with next := none }, none, none⟩ _ _ hp, next_alloc, List.map_append,
        List.map_append, List.map_singleton, List.map_singleton]
      exact path_append_last hpath hfresh hdistinct
    · rw [List.map_append, List.map_singleton, List.getLast?_concat]
    · intro entry hmem
      obtain ⟨next', hread⟩ := halive entry hmem
      by_cases hsame : entry.1 = p.1
      · rw [hsame, hp] at hread
        injection Option.some.inj hread with hcan hfiltered _
        refine ⟨some s.heap.length, ?_⟩
        dsimp only
        rw [hsame, Heap.read_write_same (Heap.lt_of_read hp), hcan, hfiltered]
      · exact ⟨next', (Heap.read_write_other _ hsame).trans hread⟩
    · exact (Heap.length_write ..).trans (Heap.length_alloc ..)

end Loops

structure Registered {ρ : Type} (s : WebServer ρ) (t : Registry ρ) : Prop where
  linked : Linked s t.entries
  count : s.heap.length = t.count

theorem Registered.step {ρ : Type} {s : WebServer ρ} {t : Registry ρ} (h : Registered s t)
    (action : Action ρ) :
    Registered (HandlerList.step s action).1 (registryStep t action).1 ∧
      (HandlerList.step s action).2 = (registryStep t action).2 := by
  unfold HandlerList.step registryStep changed
  cases action with
  | add object =>
    obtain ⟨s', hadded, hlinked, hlength⟩ := addRequestHandler_spec object h.linked
    rw [h.count] at hlinked hlength
    simp only [hadded]
    exact ⟨⟨hlinked, hlength⟩, trivial⟩
  | removeHandler handler =>
    obtain ⟨s', hremoved, hlinked, hlength⟩ := removeRequestHandler_spec handler h.linked
    simp only [hremoved]
    exact ⟨⟨hlinked, hlength.trans h.count⟩, trivial⟩
  | removeRoute route =>
    obtain ⟨s', hremoved, hlinked, hlength⟩ := removeRoute_spec route h.linked
    simp only [hremoved]
    exact ⟨⟨hlinked, hlength.trans h.count⟩, trivial⟩
  | request request =>
    have hnil : Linked s ([] ++ t.entries) := h.linked
    have hattached := attachLoop_spec request hnil h.linked.length_le
    rw [← h.linked.first] at hattached
    simp only [hattached]
    exact ⟨h, trivial⟩

theorem registry_answers {ρ : Type} (t : Registry ρ) (actions : List (Action ρ)) :
    .crash ∉ (registry.run t actions).2 := by
  induction actions generalizing t with
  | nil => exact List.not_mem_nil
  | cons action actions ih =>
    rw [Machine.run_cons, List.mem_cons, not_or]
    refine ⟨?_, ih _⟩
    cases action <;> exact fun h => by cases h

end Esp8266.HandlerList
