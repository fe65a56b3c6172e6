import Mathlib.Data.List.DropRight
import Esp8266.Library.Machine

/-! The directories of `LittleFS` and `SDFS`: `openDir` cuts one scratch string into the directory
and a filter for its names, and a `Dir` lists it. What is below them is a tree of named files and
directories, in which slashes only separate names; `lfs` takes an empty path for the root, `SdFat`
need not. A string is without its NUL. -/
namespace Esp8266.Files
open Esp8266.Runs

abbrev Text := List UInt8

def slash : UInt8 := 47

structure Times where
  created : Nat
  modified : Nat
  deriving DecidableEq

inductive Tree where
  | file (times : Times)
  | dir (times : Times) (entries : List (Text × Tree))

abbrev Entry := Text × Tree

namespace Tree

def times : Tree → Times
  | .file times => times
  | .dir times _ => times

def entries : Tree → List Entry
  | .file _ => []
  | .dir _ entries => entries

def isDir : Tree → Bool
  | .file _ => false
  | .dir _ _ => true

inductive Proper : Tree → Prop where
  | file (times : Times) : Proper (.file times)
  | dir (times : Times) (entries : List (Text × Tree)) :
      (entries.map Prod.fst).Nodup → (∀ e ∈ entries, e.1 ≠ [] ∧ slash ∉ e.1) →
      (∀ e ∈ entries, Proper e.2) → Proper (.dir times entries)

def find : List Text → Tree → Option Tree
  | [], t => some t
  | name :: rest, t => (t.entries.find? fun e => e.1 = name).bind fun e => find rest e.2

end Tree

def split (begun : Text) : Text → List Text
  | [] => if begun = [] then [] else [begun]
  | c :: rest =>
    if c = slash then (if begun = [] then split [] rest else begun :: split [] rest)
    else split (begun ++ [c]) rest

def components (path : Text) : List Text := split [] path

structure Volume where
  root : Tree
  proper : root.Proper
  isDir : root.isDir = true

def Volume.at (v : Volume) (path : Text) : Option Tree := v.root.find (components path)

def strip (path : Text) : Text := path.rdropWhile (· = slash)

def parent (path : Text) : Text := (path.rdropWhile (· ≠ slash)).dropLast

def cut (path : Text) : Option (Text × Text) :=
  if slash ∈ path then some (parent path, path.rtakeWhile (· ≠ slash)) else none

structure Scratch where
  opened : Text
  filter : Text
  pathStr : Text

/-- The branches of `openDir`. Those for a file and for a name that does not exist are the same. -/
def scratchOf (lookup : Text → Option Tree) (path : Text) : Scratch :=
  let pathStr := strip path
  if pathStr = [] then ⟨[slash], [], pathStr⟩
  else if (lookup pathStr).any Tree.isDir then ⟨pathStr, [], pathStr⟩
  else
    match cut pathStr with
    | none => ⟨[slash], pathStr, pathStr⟩
    | some (before, last) => ⟨before, last, before⟩

def Volume.scratch (v : Volume) (path : Text) : Scratch := scratchOf v.at path

/-- What `SdFat` opens: a path by its names, and with an empty path nothing, or the root. -/
structure Card (v : Volume) where
  lookup : Text → Option Tree
  finds : ∀ path, path ≠ [] → lookup path = v.at path
  empty : lookup [] = none ∨ lookup [] = some v.root

/-- `LittleFSDirImpl` and `SDFSDirImpl`: what the directory yields from its start on and what it
still yields, and the entry that is valid. -/
structure Dir where
  pattern : Text
  dirPath : Text
  stream : List Entry
  rest : List Entry
  current : Option Entry

def lfsReads (t : Tree) : List Entry := ([46], t) :: ([46, 46], t) :: t.entries

def littleFSOpenDir (v : Volume) (path : Text) : Option Dir :=
  let s := v.scratch path
  match v.at s.opened with
  | some t =>
    if t.isDir then some ⟨s.filter, s.pathStr, (lfsReads t).drop 2, (lfsReads t).drop 2, none⟩
    else none
  | none => none

def lfn (name : Text) : Text := if name.length < 64 then name else []

def sdfsOpenDir {v : Volume} (card : Card v) (path : Text) : Option Dir :=
  let s := scratchOf card.lookup path
  (card.lookup s.opened).map fun t =>
    let stream := t.entries.map fun e => (lfn e.1, e.2)
    ⟨s.filter, s.pathStr, stream, stream, none⟩

def begins (pattern : Text) (e : Entry) : Bool := pattern.isPrefixOf e.1

def advance (pattern : Text) : List Entry → Option Entry × List Entry
  | [] => (none, [])
  | e :: rest => if begins pattern e then (some e, rest) else advance pattern rest

def Dir.next (d : Dir) : Dir :=
  { d with current := (advance d.pattern d.rest).1, rest := (advance d.pattern d.rest).2 }

def Dir.rewind (d : Dir) : Dir := { d with current := none, rest := d.stream }

def fullName (dirPath name : Text) : Text :=
  dirPath ++ (if dirPath ≠ [] then [slash] else []) ++ name

def lfsNameMax : Nat := 32

/-- `pathValid`, which an empty name between two slashes does not fail. -/
def pathValid (path : Text) : Bool := (components path).all (·.length < lfsNameMax)

def littleFSOpenFile (v : Volume) (d : Dir) : Option (List Text × Tree) :=
  d.current.bind fun e =>
    let tmpName := fullName d.dirPath e.1
    if pathValid tmpName then (v.at tmpName).map fun t => (components tmpName, t) else none

def sdfsOpenFile {v : Volume} (card : Card v) (d : Dir) : Option (List Text × Tree) :=
  d.current.bind fun e =>
    let tmpName := (fullName d.dirPath e.1).take 259
    (card.lookup tmpName).map fun t => (components tmpName, t)

/-- `fileTime` and `fileCreationTime` of `LittleFS`, by the name. -/
def littleFSTimes (v : Volume) (d : Dir) : Times :=
  ((d.current.bind fun e => v.at (fullName d.dirPath e.1)).map Tree.times).getD ⟨0, 0⟩

/-- `fileTime` and `fileCreationTime` of `SDFS`, which `next` has read. -/
def sdfsTimes (d : Dir) : Times := (d.current.map fun e => e.2.times).getD ⟨0, 0⟩

inductive Call where
  | next
  | rewind

def dirs : Machine (Option Dir) Call (Option Entry) where
  step d call :=
    match call with
    | .next => (d.map Dir.next, (d.map Dir.next).bind Dir.current)
    | .rewind => (d.map Dir.rewind, none)

def cursor (listing : List Entry) : Machine (List Entry) Call (Option Entry) where
  step rest call :=
    match call with
    | .next => (rest.tail, rest.head?)
    | .rewind => (listing, none)

def Volume.place (v : Volume) (names : List Text) : List Text :=
  if (v.root.find names).any Tree.isDir then names else names.dropLast

def Volume.folder (v : Volume) (names : List Text) : List Entry :=
  ((v.root.find (v.place names)).map Tree.entries).getD []

def Volume.listing (v : Volume) (names : List Text) : List Entry :=
  if (v.root.find names).any Tree.isDir then v.folder names
  else (v.folder names).filter (begins (names.getLast?.getD []))

def Volume.Cut (v : Volume) (path : Text) : Prop :=
  (v.at path).any Tree.isDir = true ∨ slash ∈ strip path

def Volume.way (v : Volume) (path : Text) : Text :=
  if (v.at path).any Tree.isDir then strip path else parent (strip path)

/-- No directory, and its only slash is the first character of the path. -/
def Volume.Top (v : Volume) (path : Text) : Prop :=
  ¬ (v.at path).any Tree.isDir = true ∧ slash ∈ strip path ∧ parent (strip path) = []

/-- Where the path is cut to an empty one, that is the root or there is nothing to list. -/
def Card.Lists {v : Volume} (card : Card v) (path : Text) : Prop :=
  v.Top path → card.lookup [] ≠ none ∨ v.listing (components path) = []

section Paths

theorem split_append (begun first second : Text) :
    split begun (first ++ slash :: second) = split begun first ++ split [] second := by
  induction first generalizing begun with
  | nil =>
    have hend : split begun [] = if begun = [] then [] else [begun] := rfl
    have hslash : split begun (slash :: second) =
        if begun = [] then split [] second else begun :: split [] second := if_pos rfl
    rw [List.nil_append, hslash, hend]
    split
    · rfl
    · rfl
  | cons c first ih =>
    rw [List.cons_append, split, split]
    split
    · split
      · exact ih []
      · rw [ih [], List.cons_append]
    · exact ih (begun ++ [c])

theorem split_plain (begun : Text) {name : Text} (hplain : slash ∉ name) :
    split begun name = if begun ++ name = [] then [] else [begun ++ name] := by
  induction name generalizing begun with
  | nil =>
    rw [List.append_nil]
    rfl
  | cons c name ih =>
    have hc : c ≠ slash := fun h => hplain (h ▸ List.mem_cons_self)
    rw [split, if_neg hc, ih (begun ++ [c]) fun h => hplain (List.mem_cons_of_mem c h),
      List.append_assoc]
    rfl

theorem components_name {name : Text} (hplain : slash ∉ name) (hname : name ≠ []) :
    components name = [name] := by
  unfold components
  rw [split_plain [] hplain, List.nil_append, if_neg hname]

theorem components_append (path : Text) {name : Text} (hplain : slash ∉ name) (hname : name ≠ []) :
    components (path ++ slash :: name) = components path ++ [name] := by
  unfold components
  rw [split_append, split_plain [] hplain, List.nil_append, if_neg hname]

theorem components_trailing (path : Text) : components (path ++ [slash]) = components path := by
  unfold components
  rw [split_append]
  exact List.append_nil _

theorem components_strip (path : Text) : components (strip path) = components path := by
  unfold strip
  induction path using List.reverseRecOn with
  | nil => rfl
  | append_singleton path c ih =>
    by_cases hc : c = slash
    · rw [List.rdropWhile_concat_pos _ _ _ (by simpa using hc), ih, hc, components_trailing]
    · rw [List.rdropWhile_concat_neg _ _ _ (by simpa using hc)]

theorem cut_spec (path : Text) (hslash : slash ∈ path) :
    path = parent path ++ slash :: path.rtakeWhile (· ≠ slash) ∧
      slash ∉ path.rtakeWhile (· ≠ slash) := by
  constructor
  · have hwhole := path.rdropWhile_append_rtakeWhile (p := (· ≠ slash))
    have hfront : path.rdropWhile (· ≠ slash) ≠ [] := by
      intro hnone
      have hall := List.rdropWhile_eq_nil_iff.mp hnone slash hslash
      simp at hall
    have hlast := List.rdropWhile_last_not (· ≠ slash) path hfront
    have hend : (path.rdropWhile (· ≠ slash)).getLast hfront = slash := by simpa using hlast
    have hsplit := List.dropLast_append_getLast hfront
    rw [hend] at hsplit
    unfold parent
    conv_lhs => rw [← hwhole, ← hsplit]
    rw [List.append_assoc, List.singleton_append]
  · intro hmem
    have hnot := List.mem_rtakeWhile_imp hmem
    simp at hnot

theorem strip_end {path before last : Text} (hpath : strip path = before ++ slash :: last) :
    last ≠ [] := by
  intro hnone
  rw [hnone] at hpath
  have hsome : strip path ≠ [] := by
    rw [hpath]
    exact List.append_ne_nil_of_right_ne_nil _ (List.cons_ne_nil _ _)
  have hlast := List.rdropWhile_last_not (· = slash) path hsome
  apply hlast
  have hend : (strip path).getLast hsome = slash := by
    simp only [hpath]
    exact List.getLast_concat
  exact decide_eq_true hend

theorem flatten_split (begun path : Text) :
    (split begun path).flatten = begun ++ path.filter (· ≠ slash) := by
  induction path generalizing begun with
  | nil =>
    unfold split
    split
    · rename_i hnone
      rw [hnone]
      rfl
    · simp
  | cons c path ih =>
    unfold split
    by_cases hc : c = slash
    · rw [if_pos hc]
      split
      · rename_i hnone
        rw [ih, hnone]
        simp [hc]
      · rw [List.flatten_cons, ih]
        simp [hc]
    · rw [if_neg hc, ih]
      simp [hc]

end Paths

section Trees

theorem Tree.find_append (first second : List Text) (t : Tree) :
    t.find (first ++ second) = (t.find first).bind fun u => u.find second := by
  induction first generalizing t with
  | nil => rfl
  | cons name first ih =>
    rw [List.cons_append, Tree.find, Tree.find, Option.bind_assoc]
    congr 1
    funext e
    exact ih e.2

theorem Tree.Proper.entries_nodup {t : Tree} (hproper : t.Proper) :
    (t.entries.map Prod.fst).Nodup := by
  cases hproper with
  | file times => exact List.nodup_nil
  | dir times entries hnodup hnames hall => exact hnodup

theorem Tree.Proper.entry {t : Tree} (hproper : t.Proper) {e : Entry} (he : e ∈ t.entries) :
    (e.1 ≠ [] ∧ slash ∉ e.1) ∧ e.2.Proper := by
  cases hproper with
  | file times => exact absurd he List.not_mem_nil
  | dir times entries hnodup hnames hall => exact ⟨hnames e he, hall e he⟩

theorem find_entry {entries : List Entry} (hnodup : (entries.map Prod.fst).Nodup) {e : Entry}
    (he : e ∈ entries) : entries.find? (fun x => x.1 = e.1) = some e := by
  induction entries with
  | nil => exact absurd he List.not_mem_nil
  | cons x rest ih =>
    rw [List.map_cons, List.nodup_cons] at hnodup
    rcases List.mem_cons.mp he with rfl | hrest
    · exact List.find?_cons_of_pos (by simp)
    · have hne : ¬ x.1 = e.1 := fun h =>
        hnodup.1 (h ▸ List.mem_map_of_mem (f := Prod.fst) hrest)
      rw [List.find?_cons_of_neg (by simpa using hne)]
      exact ih hnodup.2 hrest

theorem Tree.Proper.found {t u : Tree} (hproper : t.Proper) {names : List Text}
    (hfind : t.find names = some u) : u.Proper := by
  induction names generalizing t with
  | nil => exact Option.some.inj hfind ▸ hproper
  | cons name names ih =>
    rw [Tree.find] at hfind
    obtain ⟨e, hentry, hrest⟩ := Option.bind_eq_some_iff.mp hfind
    exact ih (hproper.entry (List.mem_of_find?_eq_some hentry)).2 hrest

theorem Volume.find_entry (v : Volume) {place : List Text} {u : Tree} {e : Entry}
    (hfind : v.root.find place = some u) (he : e ∈ u.entries) :
    v.root.find (place ++ [e.1]) = some e.2 := by
  rw [Tree.find_append, hfind, Option.bind_some, Tree.find,
    Files.find_entry (v.proper.found hfind).entries_nodup he]
  rfl

theorem entries_of_not_dir {o : Option Tree} (hdir : o.any Tree.isDir = false) :
    (o.map Tree.entries).getD [] = [] := by
  match o with
  | none => rfl
  | some (.file times) => rfl
  | some (.dir times entries) => exact absurd hdir (by simp [Tree.isDir])

end Trees

section Scratch

variable (v : Volume) (path : Text)

theorem Volume.at_strip : v.at (strip path) = v.at path := by
  unfold Volume.at
  rw [components_strip]

theorem Volume.root_isDir (hnone : strip path = []) : (v.at path).any Tree.isDir = true := by
  rw [← Volume.at_strip, hnone]
  exact v.isDir

theorem Volume.scratch_dir (hdir : (v.at path).any Tree.isDir = true) :
    components (v.scratch path).opened = components path ∧ (v.scratch path).filter = [] ∧
      (v.scratch path).pathStr = strip path := by
  unfold Volume.scratch scratchOf
  simp only [Volume.at_strip, hdir, if_true]
  split
  · rename_i hnone
    refine ⟨?_, rfl, rfl⟩
    rw [← components_strip path, hnone]
    rfl
  · exact ⟨components_strip path, rfl, rfl⟩

theorem Volume.scratch_cut (hdir : ¬ (v.at path).any Tree.isDir = true)
    (hslash : slash ∈ strip path) :
    v.scratch path =
      ⟨parent (strip path), (strip path).rtakeWhile (· ≠ slash), parent (strip path)⟩ := by
  have hsome : strip path ≠ [] := List.ne_nil_of_mem hslash
  unfold Volume.scratch scratchOf
  simp only [Volume.at_strip, if_neg hsome, if_neg hdir]
  unfold cut
  rw [if_pos hslash]

theorem Volume.scratch_whole (hdir : ¬ (v.at path).any Tree.isDir = true)
    (hslash : slash ∉ strip path) :
    v.scratch path = ⟨[slash], strip path, strip path⟩ ∧ strip path ≠ [] := by
  have hsome : strip path ≠ [] := fun hnone => hdir (v.root_isDir path hnone)
  refine ⟨?_, hsome⟩
  unfold Volume.scratch scratchOf
  simp only [Volume.at_strip, if_neg hsome, if_neg hdir]
  unfold cut
  rw [if_neg hslash]

theorem components_cut (hslash : slash ∈ strip path) :
    components path =
      components (parent (strip path)) ++ [(strip path).rtakeWhile (· ≠ slash)] := by
  obtain ⟨hpath, hplain⟩ := cut_spec (strip path) hslash
  have hlast := strip_end hpath
  conv_lhs => rw [← components_strip, hpath]
  exact components_append _ hplain hlast

theorem Volume.opened_place :
    components (v.scratch path).opened = v.place (components path) := by
  by_cases hdir : (v.at path).any Tree.isDir = true
  · rw [(v.scratch_dir path hdir).1]
    exact (if_pos hdir).symm
  · have hplace : v.place (components path) = (components path).dropLast := if_neg hdir
    rw [hplace]
    by_cases hslash : slash ∈ strip path
    · rw [v.scratch_cut path hdir hslash, components_cut path hslash, List.dropLast_concat]
    · obtain ⟨hscratch, hsome⟩ := v.scratch_whole path hdir hslash
      have hnames := components_strip path
      rw [components_name hslash hsome] at hnames
      rw [hscratch, ← hnames]
      rfl

theorem begins_nil : begins [] = fun _ => true := by
  funext e
  rfl

theorem Volume.filter_listing :
    (v.folder (components path)).filter (begins (v.scratch path).filter) =
      v.listing (components path) := by
  unfold Volume.listing
  by_cases hdir : (v.at path).any Tree.isDir = true
  · rw [(v.scratch_dir path hdir).2.1, begins_nil, List.filter_true]
    exact (if_pos hdir).symm
  · have hlisting : (if (v.root.find (components path)).any Tree.isDir then
        v.folder (components path)
        else (v.folder (components path)).filter
          (begins ((components path).getLast?.getD []))) =
        (v.folder (components path)).filter (begins ((components path).getLast?.getD [])) :=
      if_neg hdir
    rw [hlisting]
    by_cases hslash : slash ∈ strip path
    · rw [v.scratch_cut path hdir hslash, components_cut path hslash, List.getLast?_concat]
      rfl
    · obtain ⟨hscratch, hsome⟩ := v.scratch_whole path hdir hslash
      rw [hscratch, ← components_strip path, components_name hslash hsome]
      rfl

theorem Volume.scratch_way (hcut : v.Cut path) :
    (v.scratch path).pathStr = v.way path ∧
      components (v.way path) = v.place (components path) := by
  unfold Volume.way
  by_cases hdir : (v.at path).any Tree.isDir = true
  · rw [if_pos hdir, (v.scratch_dir path hdir).2.2, components_strip]
    exact ⟨rfl, (if_pos hdir).symm⟩
  · have hslash : slash ∈ strip path := hcut.resolve_left hdir
    have hopened := v.opened_place path
    rw [v.scratch_cut path hdir hslash] at hopened ⊢
    rw [if_neg hdir]
    exact ⟨rfl, hopened⟩

theorem Volume.scratch_nothing (hcut : ¬ v.Cut path) {name : Text} (hname : name ≠ [])
    (hplain : slash ∉ name) : v.at (fullName (v.scratch path).pathStr name) = none := by
  have hdir : ¬ (v.at path).any Tree.isDir = true := fun h => hcut (Or.inl h)
  have hslash : slash ∉ strip path := fun h => hcut (Or.inr h)
  obtain ⟨hscratch, hsome⟩ := v.scratch_whole path hdir hslash
  have hentries : ((v.at path).map Tree.entries).getD [] = [] :=
    entries_of_not_dir (by simpa using hdir)
  unfold fullName Volume.at
  rw [hscratch]
  simp only
  rw [if_pos hsome, List.append_assoc, List.singleton_append,
    components_append _ hplain hname, components_strip, Tree.find_append]
  unfold Volume.at at hentries
  match hfound : v.root.find (components path) with
  | none => rfl
  | some t =>
    rw [hfound] at hentries
    have hempty : t.entries = [] := hentries
    rw [Option.bind_some, Tree.find, hempty]
    rfl

variable {v path} (card : Card v)

theorem Volume.opened_nil : (v.scratch path).opened = [] ↔ v.Top path := by
  by_cases hdir : (v.at path).any Tree.isDir = true
  · refine iff_of_false ?_ fun htop => htop.1 hdir
    unfold Volume.scratch scratchOf
    simp only [Volume.at_strip, hdir, if_true]
    split
    · exact List.cons_ne_nil _ _
    · assumption
  · by_cases hslash : slash ∈ strip path
    · rw [v.scratch_cut path hdir hslash]
      exact ⟨fun hnone => ⟨hdir, hslash, hnone⟩, fun htop => htop.2.2⟩
    · rw [(v.scratch_whole path hdir hslash).1]
      exact iff_of_false (List.cons_ne_nil _ _) fun htop => hslash htop.2.1

theorem Card.scratch_eq : scratchOf card.lookup path = v.scratch path := by
  unfold Volume.scratch scratchOf
  by_cases hnone : strip path = []
  · simp only [if_pos hnone]
  · simp only [card.finds _ hnone]

theorem Card.found {t : Tree} {path : Text} (h : card.lookup path = some t) :
    v.at path = some t := by
  by_cases hnone : path = []
  · rw [hnone] at h ⊢
    rcases card.empty with hempty | hroot
    · exact nomatch hempty.symm.trans h
    · exact hroot.symm.trans h
  · rw [← card.finds path hnone]
    exact h

end Scratch

section Listing

theorem advance_spec (pattern : Text) (rest : List Entry) :
    (advance pattern rest).1 = (rest.filter (begins pattern)).head? ∧
      (advance pattern rest).2.filter (begins pattern) =
        (rest.filter (begins pattern)).tail := by
  induction rest with
  | nil => exact ⟨rfl, rfl⟩
  | cons e rest ih =>
    unfold advance
    by_cases hbegins : begins pattern e = true
    · rw [if_pos hbegins, List.filter_cons_of_pos hbegins]
      exact ⟨rfl, rfl⟩
    · rw [if_neg hbegins, List.filter_cons_of_neg hbegins]
      exact ih

structure Dir.Follows (dirPath : Text) (listing : List Entry) (d : Dir) (left : List Entry) :
    Prop where
  path : d.dirPath = dirPath
  all : d.stream.filter (begins d.pattern) = listing
  ahead : d.rest.filter (begins d.pattern) = left
  within : ∀ e ∈ left, e ∈ listing
  valid : ∀ e, d.current = some e → e ∈ listing

variable {dirPath : Text} {listing left : List Entry}

theorem Dir.Follows.next {d : Dir} (h : d.Follows dirPath listing left) :
    d.next.Follows dirPath listing left.tail ∧ d.next.current = left.head? := by
  obtain ⟨hhead, htail⟩ := advance_spec d.pattern d.rest
  rw [h.ahead] at hhead htail
  refine ⟨⟨h.path, h.all, htail, fun e he => h.within e (List.mem_of_mem_tail he), ?_⟩, hhead⟩
  intro e he
  have hcurrent : left.head? = some e := hhead.symm.trans he
  exact h.within e (List.mem_of_mem_head? hcurrent)

theorem Dir.Follows.rewind {d : Dir} (h : d.Follows dirPath listing left) :
    d.rewind.Follows dirPath listing listing := by
  refine ⟨h.path, h.all, h.all, fun _ he => he, ?_⟩
  rintro e ⟨⟩

def Follows (dirPath : Text) (listing : List Entry) (o : Option Dir) (left : List Entry) : Prop :=
  (∀ d, o = some d → d.Follows dirPath listing left) ∧ (o = none → listing = [] ∧ left = [])

theorem Follows.empty (hlisting : listing = []) : Follows dirPath listing none listing := by
  refine ⟨?_, fun _ => ⟨hlisting, hlisting⟩⟩
  rintro d ⟨⟩

theorem Dir.Follows.some {d : Dir} (h : d.Follows dirPath listing left) :
    Files.Follows dirPath listing (some d) left := by
  refine ⟨?_, fun hnone => absurd hnone (Option.some_ne_none d)⟩
  rintro _ ⟨⟩
  exact h

theorem Follows.step {o : Option Dir} (h : Follows dirPath listing o left) (call : Call) :
    Follows dirPath listing (dirs.step o call).1 ((cursor listing).step left call).1 ∧
      (dirs.step o call).2 = ((cursor listing).step left call).2 := by
  cases o with
  | none =>
    obtain ⟨hlisting, hleft⟩ := h.2 rfl
    subst hlisting hleft
    cases call with
    | next => exact ⟨Follows.empty rfl, rfl⟩
    | rewind => exact ⟨Follows.empty rfl, rfl⟩
  | some d =>
    have hd := h.1 d rfl
    cases call with
    | next => exact ⟨hd.next.1.some, hd.next.2⟩
    | rewind => exact ⟨hd.rewind.some, rfl⟩

theorem Follows.run {o : Option Dir} (h : Follows dirPath listing o left) (calls : List Call) :
    Follows dirPath listing (dirs.run o calls).1 ((cursor listing).run left calls).1 ∧
      (dirs.run o calls).2 = ((cursor listing).run left calls).2 :=
  Machine.run_simulation dirs (cursor listing) (fun _ _ => True) (Follows dirPath listing)
    (fun _ _ call hrel _ => hrel.step call) o left calls h
    (dirs.along_of_forall _ (fun _ _ => trivial) o calls)

theorem Follows.start {d : Dir} (hall : d.stream.filter (begins d.pattern) = listing)
    (hrest : d.rest = d.stream) (hcurrent : d.current = none) :
    Follows d.dirPath listing (some d) listing := by
  refine Dir.Follows.some ⟨rfl, hall, hrest ▸ hall, fun _ he => he, ?_⟩
  intro e he
  rw [hcurrent] at he
  cases he

variable (v : Volume) (path : Text)

theorem Volume.folder_opened :
    ((v.at (v.scratch path).opened).map Tree.entries).getD [] = v.folder (components path) := by
  unfold Volume.at Volume.folder
  rw [v.opened_place path]

theorem littleFSOpenDir_follows :
    Follows (v.scratch path).pathStr (v.listing (components path)) (littleFSOpenDir v path)
      (v.listing (components path)) := by
  have hfolder := v.folder_opened path
  have hfilter := v.filter_listing path
  unfold littleFSOpenDir
  simp only
  match hopened : v.at (v.scratch path).opened with
  | none =>
    rw [hopened] at hfolder
    have hempty : v.folder (components path) = [] := hfolder.symm
    rw [hempty] at hfilter
    exact Follows.empty hfilter.symm
  | some t =>
    rw [hopened] at hfolder
    have hentries : t.entries = v.folder (components path) := hfolder
    simp only
    by_cases hdir : t.isDir = true
    · rw [← hentries] at hfilter
      rw [if_pos hdir]
      exact Follows.start hfilter rfl rfl
    · rw [if_neg hdir]
      have hnone := entries_of_not_dir (o := some t) (by simpa using hdir)
      have hempty : v.folder (components path) = [] := hentries.symm.trans hnone
      rw [hempty] at hfilter
      exact Follows.empty hfilter.symm

theorem map_lfn {entries : List Entry} (hshort : ∀ e ∈ entries, e.1.length < 64) :
    (entries.map fun e => (lfn e.1, e.2)) = entries := by
  conv_rhs => rw [← List.map_id entries]
  refine List.map_congr_left fun e he => ?_
  unfold lfn
  rw [if_pos (hshort e he)]
  rfl

variable {v path} (card : Card v) (hshort : ∀ e ∈ v.folder (components path), e.1.length < 64)
include hshort

theorem sdfsOpenDir_follows {d : Dir} (hd : sdfsOpenDir card path = some d) :
    Follows (v.scratch path).pathStr (v.listing (components path)) (sdfsOpenDir card path)
      (v.listing (components path)) := by
  have hfolder := v.folder_opened path
  have hfilter := v.filter_listing path
  unfold sdfsOpenDir at hd ⊢
  simp only [card.scratch_eq] at hd ⊢
  obtain ⟨t, hopened, -⟩ := Option.map_eq_some_iff.mp hd
  rw [card.found hopened] at hfolder
  have hentries : t.entries = v.folder (components path) := hfolder
  rw [hopened]
  refine Follows.start ?_ rfl rfl
  simp only
  rw [hentries, map_lfn hshort]
  exact hfilter

theorem sdfsOpenDir_lists :
    (∀ calls, (dirs.run (sdfsOpenDir card path) calls).2 =
      ((cursor (v.listing (components path))).run (v.listing (components path)) calls).2) ↔
    card.Lists path := by
  match hd : sdfsOpenDir card path with
  | some d =>
    refine iff_of_true (fun calls => ?_) fun htop => .inl fun hnone => ?_
    · rw [← hd]
      exact ((sdfsOpenDir_follows card hshort hd).run calls).2
    · unfold sdfsOpenDir at hd
      simp only [card.scratch_eq, Volume.opened_nil.mpr htop, hnone] at hd
      cases hd
  | none =>
    have hnone : card.lookup (v.scratch path).opened = none := by
      unfold sdfsOpenDir at hd
      simpa only [card.scratch_eq, Option.map_eq_none_iff] using hd
    constructor
    · intro hall _
      have hnext : [none] = [(v.listing (components path)).head?] := hall [.next]
      exact .inr (List.head?_eq_none_iff.mp (List.cons.inj hnext).1.symm)
    · intro hlists calls
      have hempty : v.listing (components path) = [] := by
        by_cases htop : v.Top path
        · rw [Volume.opened_nil.mpr htop] at hnone
          exact (hlists htop).resolve_left fun hsome => hsome hnone
        · rw [card.finds _ (mt Volume.opened_nil.mp htop)] at hnone
          have hfolder := v.folder_opened path
          rw [hnone] at hfolder
          rw [← v.filter_listing path, ← hfolder]
          rfl
      rw [hempty]
      exact (Follows.run (@Follows.empty [] [] rfl) calls).2

end Listing

section Entries

theorem components_fullName (dirPath : Text) {name : Text} (hname : name ≠ [])
    (hplain : slash ∉ name) :
    components (fullName dirPath name) = components dirPath ++ [name] := by
  unfold fullName
  by_cases hnone : dirPath = []
  · rw [hnone]
    exact components_name hplain hname
  · rw [if_pos hnone, List.append_assoc, List.singleton_append]
    exact components_append dirPath hplain hname

variable (v : Volume) (path : Text) {e : Entry}

theorem Volume.listed (he : e ∈ v.listing (components path)) :
    e ∈ v.folder (components path) ∧ (e.1 ≠ [] ∧ slash ∉ e.1) ∧
      v.root.find (v.place (components path) ++ [e.1]) = some e.2 := by
  have hmem : e ∈ v.folder (components path) := by
    rw [← v.filter_listing path] at he
    exact List.mem_of_mem_filter he
  refine ⟨hmem, ?_⟩
  unfold Volume.folder at hmem
  match hfound : v.root.find (v.place (components path)) with
  | none =>
    rw [hfound] at hmem
    exact absurd hmem List.not_mem_nil
  | some t =>
    rw [hfound] at hmem
    have hentry : e ∈ t.entries := hmem
    exact ⟨((v.proper.found hfound).entry hentry).1, v.find_entry hfound hentry⟩

theorem Volume.at_fullName (hcut : v.Cut path) (he : e ∈ v.listing (components path)) :
    components (fullName (v.way path) e.1) = v.place (components path) ++ [e.1] ∧
      v.at (fullName (v.way path) e.1) = some e.2 := by
  obtain ⟨hmem, ⟨hname, hplain⟩, hfind⟩ := v.listed path he
  have hnames : components (fullName (v.way path) e.1) = v.place (components path) ++ [e.1] := by
    rw [components_fullName _ hname hplain, (v.scratch_way path hcut).2]
  refine ⟨hnames, ?_⟩
  unfold Volume.at
  rw [hnames, hfind]

theorem components_take {before name : Text} {n : Nat} (hname : name ≠ []) (hplain : slash ∉ name)
    (hlong : n < (before ++ name).length) :
    components ((before ++ name).take n) ≠ components (before ++ name) := by
  intro hsame
  have hflat := congrArg List.flatten hsame
  unfold components at hflat
  rw [flatten_split, flatten_split, List.nil_append, List.nil_append] at hflat
  have hwhole := congrArg (List.filter (· ≠ slash)) (List.take_append_drop n (before ++ name))
  rw [List.filter_append, hflat] at hwhole
  have hnone := List.append_right_eq_self.mp hwhole
  -- The last character of the name is behind the cut.
  obtain ⟨front, last, rfl⟩ := List.eq_nil_or_concat name |>.resolve_left hname
  rw [List.concat_eq_append] at hplain hlong hnone
  have hfits : n ≤ (before ++ front).length := by
    simp only [List.length_append, List.length_singleton] at hlong ⊢
    omega
  rw [← List.append_assoc, List.drop_append_of_le_length hfits, List.filter_append] at hnone
  have hlast := (List.append_eq_nil_iff.mp hnone).2
  have hslash : last ≠ slash := fun h => hplain (by simp [h])
  simp [hslash] at hlast

variable {d : Dir} (hpath : d.dirPath = (v.scratch path).pathStr) (hvalid : d.current = some e)
  (he : e ∈ v.listing (components path))
include hpath hvalid he

theorem littleFSOpenFile_iff :
    littleFSOpenFile v d = some (v.place (components path) ++ [e.1], e.2) ↔
      v.Cut path ∧ ∀ name ∈ v.place (components path) ++ [e.1], name.length < lfsNameMax := by
  unfold littleFSOpenFile
  rw [hvalid, Option.bind_some, hpath]
  simp only
  by_cases hcut : v.Cut path
  · obtain ⟨hnames, hat⟩ := v.at_fullName path hcut he
    have hshort : pathValid (fullName (v.way path) e.1) = true ↔
        ∀ name ∈ v.place (components path) ++ [e.1], name.length < lfsNameMax := by
      unfold pathValid
      rw [hnames, List.all_eq_true]
      simp only [decide_eq_true_eq]
    rw [(v.scratch_way path hcut).1, hat, ← hshort, hnames]
    by_cases hpass : pathValid (fullName (v.way path) e.1) = true
    · rw [if_pos hpass]
      exact ⟨fun _ => ⟨hcut, hpass⟩, fun _ => rfl⟩
    · rw [if_neg hpass]
      exact ⟨fun hsome => (by cases hsome), fun h => absurd h.2 hpass⟩
  · obtain ⟨hmem, ⟨hname, hplain⟩, hfind⟩ := v.listed path he
    rw [v.scratch_nothing path hcut hname hplain, Option.map_none, ite_self]
    exact ⟨fun hsome => (by cases hsome), fun h => absurd h.1 hcut⟩

theorem littleFSTimes_iff :
    littleFSTimes v d = e.2.times ↔ v.Cut path ∨ e.2.times = ⟨0, 0⟩ := by
  unfold littleFSTimes
  rw [hvalid, Option.bind_some, hpath]
  by_cases hcut : v.Cut path
  · rw [(v.scratch_way path hcut).1, (v.at_fullName path hcut he).2]
    exact ⟨fun _ => Or.inl hcut, fun _ => rfl⟩
  · obtain ⟨hmem, ⟨hname, hplain⟩, hfind⟩ := v.listed path he
    rw [v.scratch_nothing path hcut hname hplain]
    exact ⟨fun h => Or.inr h.symm, fun h => (h.resolve_left hcut).symm⟩

theorem sdfsOpenFile_iff (card : Card v) (hshort : e.1.length < 64) :
    sdfsOpenFile card d = some (v.place (components path) ++ [e.1], e.2) ↔
      v.Cut path ∧ (fullName (v.way path) e.1).length ≤ 259 := by
  obtain ⟨hmem, ⟨hname, hplain⟩, hfind⟩ := v.listed path he
  have hsome : (fullName (v.scratch path).pathStr e.1).take 259 ≠ [] := by
    unfold fullName
    simp [hname]
  unfold sdfsOpenFile
  rw [hvalid, Option.bind_some, hpath]
  simp only [card.finds _ hsome]
  by_cases hcut : v.Cut path
  · obtain ⟨hnames, hat⟩ := v.at_fullName path hcut he
    rw [(v.scratch_way path hcut).1]
    by_cases hfits : (fullName (v.way path) e.1).length ≤ 259
    · rw [List.take_of_length_le hfits, hat, hnames]
      exact ⟨fun _ => ⟨hcut, hfits⟩, fun _ => rfl⟩
    · refine ⟨fun hsome => ?_, fun h => absurd h.2 hfits⟩
      obtain ⟨t, ht, hpair⟩ := Option.map_eq_some_iff.mp hsome
      have hsame := (Prod.mk.inj hpair).1.trans hnames.symm
      unfold fullName at hsame hfits
      exact absurd hsame (components_take hname hplain (Nat.lt_of_not_le hfits))
  · have hfits : (fullName (v.scratch path).pathStr e.1).length ≤ 259 := by
      have hdir : ¬ (v.at path).any Tree.isDir = true := fun h => hcut (Or.inl h)
      have hslash : slash ∉ strip path := fun h => hcut (Or.inr h)
      have hfilter := v.filter_listing path
      obtain ⟨hscratch, hsome⟩ := v.scratch_whole path hdir hslash
      rw [hscratch] at hfilter ⊢
      rw [← hfilter] at he
      have hbegins : (strip path).isPrefixOf e.1 = true := (List.mem_filter.mp he).2
      have hlength := (List.isPrefixOf_iff_prefix.mp hbegins).length_le
      unfold fullName
      simp only
      rw [if_pos hsome]
      simp only [List.length_append, List.length_singleton]
      omega
    rw [List.take_of_length_le hfits, v.scratch_nothing path hcut hname hplain]
    exact ⟨fun hsome => (by cases hsome), fun h => absurd h.1 hcut⟩

omit hpath he in
theorem sdfsTimes_entry : sdfsTimes d = e.2.times := by
  unfold sdfsTimes
  rw [hvalid]
  rfl

end Entries

def Reaches (start : Option Dir) (calls : List Call) (d : Dir) (e : Entry) : Prop :=
  (dirs.run start calls).1 = some d ∧ d.current = some e

theorem run_none (calls : List Call) : (dirs.run none calls).1 = none := by
  induction calls with
  | nil => rfl
  | cons call calls ih =>
    cases call with
    | next => exact ih
    | rewind => exact ih

theorem Follows.reached {dirPath : Text} {listing : List Entry} {start : Option Dir}
    (h : Follows dirPath listing start listing) {calls : List Call} {d : Dir} {e : Entry}
    (hreach : Reaches start calls d e) :
    d.dirPath = dirPath ∧ d.current = some e ∧ e ∈ listing := by
  have hd := (h.run calls).1.1 d hreach.1
  exact ⟨hd.path, hreach.2, hd.valid e hreach.2⟩

/-- A `Dir` lists the entries of the directory that its path names, or those beside it that begin
with its last name; on `SDFS` if that does not ask `SdFat` for an empty path that it does not open.
An entry is opened by its name unless the path is that of a file or of nothing in the root. -/
theorem openDir_exact (v : Volume) (card : Card v) (path : Text) :
    (∀ calls,
      (dirs.run (littleFSOpenDir v path) calls).2 =
        ((cursor (v.listing (components path))).run (v.listing (components path)) calls).2) ∧
    (∀ calls d e, Reaches (littleFSOpenDir v path) calls d e →
      e ∈ v.listing (components path) ∧
      (littleFSOpenFile v d = some (v.place (components path) ++ [e.1], e.2) ↔
        v.Cut path ∧
          ∀ name ∈ v.place (components path) ++ [e.1], name.length < lfsNameMax) ∧
      (littleFSTimes v d = e.2.times ↔ v.Cut path ∨ e.2.times = ⟨0, 0⟩)) ∧
    ((∀ e ∈ v.folder (components path), e.1.length < 64) →
      ((∀ calls,
        (dirs.run (sdfsOpenDir card path) calls).2 =
          ((cursor (v.listing (components path))).run (v.listing (components path)) calls).2) ↔
        card.Lists path) ∧
      (∀ calls d e, Reaches (sdfsOpenDir card path) calls d e →
        e ∈ v.listing (components path) ∧
        (sdfsOpenFile card d = some (v.place (components path) ++ [e.1], e.2) ↔
          v.Cut path ∧ (fullName (v.way path) e.1).length ≤ 259) ∧
        sdfsTimes d = e.2.times)) := by
  have hlittle := littleFSOpenDir_follows v path
  refine ⟨fun calls => (hlittle.run calls).2, ?_, fun hshort => ⟨?_, ?_⟩⟩
  · intro calls d e hreach
    obtain ⟨hpath, hvalid, he⟩ := hlittle.reached hreach
    exact ⟨he, littleFSOpenFile_iff v path hpath hvalid he,
      littleFSTimes_iff v path hpath hvalid he⟩
  · exact sdfsOpenDir_lists card hshort
  · intro calls d e hreach
    have hsd : ∃ start, sdfsOpenDir card path = some start := by
      match hstart : sdfsOpenDir card path with
      | some start => exact ⟨start, rfl⟩
      | none =>
        rw [hstart] at hreach
        exact absurd hreach.1 (by rw [run_none]; exact nofun)
    obtain ⟨start, hstart⟩ := hsd
    obtain ⟨hpath, hvalid, he⟩ := (sdfsOpenDir_follows card hshort hstart).reached hreach
    have hname := hshort e (v.listed path he).1
    exact ⟨he, sdfsOpenFile_iff v path hpath hvalid he card hname, sdfsTimes_entry hvalid⟩

theorem oneFile_proper : (Tree.dir ⟨0, 0⟩ [([102, 111], .file ⟨7, 7⟩)]).Proper := by
  refine .dir ⟨0, 0⟩ [([102, 111], .file ⟨7, 7⟩)] (by decide) (by decide) ?_
  intro e he
  rw [List.mem_singleton] at he
  exact he ▸ .file ⟨7, 7⟩

def oneFile : Volume := ⟨.dir ⟨0, 0⟩ [([102, 111], .file ⟨7, 7⟩)], oneFile_proper, rfl⟩

/-- `SdFat` opens nothing with an empty path. -/
def oneCard : Card oneFile where
  lookup path := if path = [] then none else oneFile.at path
  finds _ hsome := if_neg hsome
  empty := .inl rfl

theorem openDir_exact_begun :
    (dirs.run (sdfsOpenDir oneCard [102]) [.next, .rewind, .next]).2 =
      ((cursor (oneFile.listing (components [102]))).run
        (oneFile.listing (components [102])) [.next, .rewind, .next]).2 :=
  ((openDir_exact oneFile oneCard [102]).2.2 (by decide)).1.mpr
    (fun htop => absurd htop.2.1 (by decide)) [.next, .rewind, .next]

theorem openDir_uncut :
    ∃ d e, Reaches (littleFSOpenDir oneFile [102, 111]) [.next] d e ∧
      oneFile.root.find [e.1] = some e.2 ∧ littleFSOpenFile oneFile d = none ∧
      littleFSTimes oneFile d ≠ e.2.times ∧
      ∃ d', Reaches (sdfsOpenDir oneCard [102, 111]) [.next] d' e ∧
        sdfsOpenFile oneCard d' = none := by
  refine ⟨_, _, ⟨rfl, rfl⟩, rfl, rfl, ?_, _, ⟨rfl, rfl⟩, rfl⟩
  decide

end Esp8266.Files
