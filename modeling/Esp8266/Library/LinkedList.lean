/-! Singly linked lists given by a `next` pointer for every node. A path lists the
nodes met from one pointer to another; re-linking a node changes only the paths
through it. -/
namespace Esp8266.LinkedList

/-- Following `next` from `start` meets exactly `nodes` and then points to `stop`. -/
def Path (next : ι → Option ι) : Option ι → List ι → Option ι → Prop
  | start, [], stop => start = stop
  | start, x :: rest, stop => start = some x ∧ Path next (next x) rest stop

def link [DecidableEq ι] (next : ι → Option ι) (x : ι) (target : Option ι) : ι → Option ι :=
  fun y => if y = x then target else next y

@[simp] theorem link_same [DecidableEq ι] (next : ι → Option ι) (x : ι) (target : Option ι) :
    link next x target x = target := if_pos rfl

theorem link_other [DecidableEq ι] (next : ι → Option ι) {x y : ι} (target : Option ι)
    (h : y ≠ x) : link next x target y = next y := if_neg h

theorem path_append (next : ι → Option ι) (start stop : Option ι) (xs ys : List ι) :
    Path next start (xs ++ ys) stop ↔
      ∃ middle, Path next start xs middle ∧ Path next middle ys stop := by
  induction xs generalizing start with
  | nil => simp [Path]
  | cons x rest ih =>
    simp only [List.cons_append, Path, ih]
    constructor
    · rintro ⟨hstart, middle, hfirst, hsecond⟩
      exact ⟨middle, ⟨hstart, hfirst⟩, hsecond⟩
    · rintro ⟨middle, ⟨hstart, hfirst⟩, hsecond⟩
      exact ⟨hstart, middle, hfirst, hsecond⟩

theorem path_congr {next next' : ι → Option ι} {start stop : Option ι} {xs : List ι}
    (hagree : ∀ x ∈ xs, next x = next' x) (h : Path next start xs stop) :
    Path next' start xs stop := by
  induction xs generalizing start with
  | nil => exact h
  | cons x rest ih =>
    obtain ⟨hstart, hrest⟩ := h
    refine ⟨hstart, ?_⟩
    rw [← hagree x List.mem_cons_self]
    exact ih (fun y hy => hagree y (List.mem_cons_of_mem x hy)) hrest

theorem path_link_of_not_mem [DecidableEq ι] {next : ι → Option ι} {start stop : Option ι}
    {xs : List ι} {x : ι} (target : Option ι) (hx : x ∉ xs) (h : Path next start xs stop) :
    Path (link next x target) start xs stop := by
  apply path_congr _ h
  intro y hy
  have hne : y ≠ x := by
    rintro rfl
    exact hx hy
  exact (link_other next target hne).symm

theorem Path.start_eq {next : ι → Option ι} {start stop : Option ι} {x : ι} {rest : List ι}
    (h : Path next start (x :: rest) stop) : start = some x := h.1

theorem path_move_to_front [DecidableEq ι] {next : ι → Option ι} {start stop : Option ι}
    {front post : List ι} {last way : ι}
    (h : Path next start (front ++ last :: way :: post) stop)
    (hnodup : (front ++ last :: way :: post).Nodup) :
    Path (link (link next last (next way)) way start) (some way)
      (way :: (front ++ last :: post)) stop := by
  simp only [path_append, Path] at h ⊢
  obtain ⟨middle, hfront, hlast, hway, hpost⟩ := h
  subst hlast
  rw [List.nodup_append] at hnodup
  obtain ⟨-, htail, hdisjoint⟩ := hnodup
  simp only [List.nodup_cons, List.mem_cons, not_or] at htail
  obtain ⟨⟨hne, hlastPost⟩, hwayPost, -⟩ := htail
  have hlastFront : last ∉ front := fun hmem =>
    hdisjoint last hmem last List.mem_cons_self rfl
  have hwayFront : way ∉ front := fun hmem =>
    hdisjoint way hmem way (by simp) rfl
  refine ⟨trivial, some last, ?_, rfl, ?_⟩
  · rw [link_same]
    exact path_link_of_not_mem _ hwayFront (path_link_of_not_mem _ hlastFront hfront)
  · rw [link_other _ _ hne, link_same]
    exact path_link_of_not_mem _ hwayPost (path_link_of_not_mem _ hlastPost hpost)

theorem path_unlink [DecidableEq ι] {next : ι → Option ι} {start stop : Option ι}
    {front post : List ι} {last x : ι} (h : Path next start (front ++ last :: x :: post) stop)
    (hnodup : (front ++ last :: x :: post).Nodup) :
    Path (link next last (next x)) start (front ++ last :: post) stop := by
  simp only [path_append, Path] at h ⊢
  obtain ⟨middle, hfront, hlast, hx, hpost⟩ := h
  subst hlast
  rw [List.nodup_append] at hnodup
  obtain ⟨-, htail, hdisjoint⟩ := hnodup
  simp only [List.nodup_cons, List.mem_cons, not_or] at htail
  have hlastFront : last ∉ front := fun hmem =>
    hdisjoint last hmem last List.mem_cons_self rfl
  refine ⟨some last, path_link_of_not_mem _ hlastFront hfront, rfl, ?_⟩
  rw [link_same]
  exact path_link_of_not_mem _ htail.1.2 hpost

theorem path_rotate_to_front [DecidableEq ι] {next : ι → Option ι} {start stop : Option ι}
    {front : List ι} {last : ι} (h : Path next start (front ++ [last]) stop)
    (hnodup : (front ++ [last]).Nodup) :
    Path (link next last start) (some last) (last :: front) (some last) := by
  simp only [path_append, Path] at h ⊢
  obtain ⟨middle, hfront, hlast, -⟩ := h
  subst hlast
  rw [List.nodup_append] at hnodup
  have hlastFront : last ∉ front := fun hmem =>
    hnodup.2.2 last hmem last List.mem_cons_self rfl
  refine ⟨trivial, ?_⟩
  rw [link_same]
  exact path_link_of_not_mem _ hlastFront hfront

theorem path_append_last [DecidableEq ι] {next : ι → Option ι} {start : Option ι}
    {front : List ι} {last x : ι} (h : Path next start (front ++ [last]) none)
    (hx : x ∉ front ++ [last]) (hnodup : (front ++ [last]).Nodup) :
    Path (link (link next x none) last (some x)) start (front ++ [last] ++ [x]) none := by
  rw [List.nodup_append] at hnodup
  have hlastFront : last ∉ front := fun hmem =>
    hnodup.2.2 last hmem last List.mem_cons_self rfl
  have hne : x ≠ last := by
    rintro rfl
    exact hx (by simp)
  have hxFront : x ∉ front := fun hmem => hx (by simp [hmem])
  simp only [path_append, Path] at h ⊢
  obtain ⟨middle, hfront, hlast, -⟩ := h
  subst hlast
  refine ⟨some x, ⟨some last, ?_, rfl, link_same _ _ _⟩, rfl, ?_⟩
  · exact path_link_of_not_mem _ hlastFront (path_link_of_not_mem _ hxFront hfront)
  · rw [link_other _ _ hne, link_same]

theorem modify_middle (front back : List α) (x : α) (f : α → α) :
    (front ++ x :: back).modify front.length f = front ++ f x :: back := by
  induction front with
  | nil => rfl
  | cons y front ih => rw [List.cons_append, List.length_cons, List.modify_succ_cons, ih]; rfl

end Esp8266.LinkedList
