/-! Paths of a file system: names between slashes, read from the root on. An empty name and "." stay
where they are, ".." goes up. -/
namespace Esp8266.PathNames

abbrev Text := List Char

abbrev Location := List Text

def segments : Text → List Text
  | [] => [[]]
  | c :: rest =>
    if c = '/' then [] :: segments rest
    else match segments rest with
      | [] => [[c]]
      | name :: names => (c :: name) :: names

def enter (place : Location) (name : Text) : Location :=
  if name = [] ∨ name = ['.'] then place
  else if name = ['.', '.'] then place.dropLast
  else place ++ [name]

def locateFrom (place : Location) (path : Text) : Location := (segments path).foldl enter place

def locate (path : Text) : Location := locateFrom [] path

def NeverUp (path : Text) : Prop := ['.', '.'] ∉ segments path

instance (path : Text) : Decidable (NeverUp path) := inferInstanceAs (Decidable (_ ∉ _))

def Parted (front back : Text) : Prop := (∃ text, front = text ++ ['/']) ∨ ∃ text, back = '/' :: text

theorem segments_ne_nil (path : Text) : segments path ≠ [] := by
  cases path with
  | nil => exact List.cons_ne_nil _ _
  | cons c rest =>
    unfold segments
    split
    · exact List.cons_ne_nil _ _
    · split <;> exact List.cons_ne_nil _ _

theorem segments_slash (front back : Text) :
    segments (front ++ '/' :: back) = segments front ++ segments back := by
  induction front with
  | nil => rfl
  | cons c front ih =>
    rw [List.cons_append, segments, segments, ih]
    split
    · rfl
    · cases hfront : segments front with
      | nil => exact absurd hfront (segments_ne_nil front)
      | cons name names => rfl

theorem locate_append {front back : Text} (h : Parted front back) :
    locate (front ++ back) = locateFrom (locate front) back := by
  unfold locate locateFrom
  rcases h with ⟨text, rfl⟩ | ⟨text, rfl⟩
  · rw [show text ++ ['/'] ++ back = text ++ '/' :: back by simp, segments_slash,
      show text ++ ['/'] = text ++ '/' :: [] by simp, segments_slash, List.foldl_append,
      List.foldl_append]
    rfl
  · rw [segments_slash, List.foldl_append]
    rfl

theorem enter_down (place : Location) {name : Text} (h : name ≠ ['.', '.']) :
    ∃ below, enter place name = place ++ below := by
  unfold enter
  rw [if_neg h]
  split
  · exact ⟨[], (List.append_nil place).symm⟩
  · exact ⟨[name], rfl⟩

theorem locateFrom_down (place : Location) {path : Text} (h : NeverUp path) :
    ∃ below, locateFrom place path = place ++ below := by
  unfold locateFrom
  unfold NeverUp at h
  generalize segments path = names at h
  induction names generalizing place with
  | nil => exact ⟨[], (List.append_nil place).symm⟩
  | cons name names ih =>
    obtain ⟨first, hfirst⟩ := enter_down place fun heq => h (heq ▸ List.mem_cons_self)
    obtain ⟨rest, hrest⟩ := ih (enter place name) fun hmem => h (List.mem_cons_of_mem name hmem)
    refine ⟨first ++ rest, ?_⟩
    rw [List.foldl_cons, hrest, hfirst, List.append_assoc]

theorem segments_append (path : Text) {ending : Text} (hending : '/' ∉ ending) :
    ∃ names last, segments path = names ++ [last] ∧
      segments (path ++ ending) = names ++ [last ++ ending] := by
  have hplain : ∀ text : Text, '/' ∉ text → segments text = [text] := by
    intro text htext
    induction text with
    | nil => rfl
    | cons c text ih =>
      rw [List.mem_cons, not_or] at htext
      rw [segments, if_neg (fun h => htext.1 h.symm), ih htext.2]
  induction path with
  | nil => exact ⟨[], [], rfl, hplain ending hending⟩
  | cons c path ih =>
    obtain ⟨names, last, hpath, hwhole⟩ := ih
    rw [List.cons_append, segments, segments, hpath, hwhole]
    by_cases hc : c = '/'
    · rw [if_pos hc, if_pos hc]
      exact ⟨[] :: names, last, rfl, rfl⟩
    · rw [if_neg hc, if_neg hc]
      cases names with
      | nil => exact ⟨[], c :: last, rfl, rfl⟩
      | cons name names => exact ⟨(c :: name) :: names, last, rfl, rfl⟩

theorem NeverUp.append {path ending : Text} (h : NeverUp path) (hending : '/' ∉ ending)
    (hlast : ∃ front c, ending = front ++ [c] ∧ c ≠ '.') : NeverUp (path ++ ending) := by
  obtain ⟨names, last, hpath, hwhole⟩ := segments_append path hending
  unfold NeverUp at h ⊢
  rw [hpath] at h
  rw [hwhole]
  intro hmem
  rcases List.mem_append.mp hmem with hin | hin
  · exact h (List.mem_append_left _ hin)
  · obtain ⟨front, c, rfl, hc⟩ := hlast
    have hends := congrArg List.getLast? (List.mem_singleton.mp hin)
    rw [← List.append_assoc, List.getLast?_concat] at hends
    exact hc (Option.some.inj hends).symm

end Esp8266.PathNames
