import Esp8266.Library.Ctype
import Esp8266.Library.Machine
import Esp8266.Strings.Aliased

/-! The public operations of `String` on a set of variables, and the comparison. A
`String` is never without buffer: every failure sets it back to the inline one. -/
namespace Esp8266.WString
open Esp8266.Substring Esp8266.Runs
open Esp8266.Ctype (isspace tolower toupper)

/-- What a `char` pointer points to. An object has less than half of the memory. -/
structure Source where
  bytes : List UInt8
  short : bytes.length < 2 ^ 31

def clear (s : Str) : Str := s.setLen 0

def mapBuffer (f : UInt8 → UInt8) : List UInt8 → List UInt8
  | [] => []
  | c :: rest => if c = 0 then c :: rest else f c :: mapBuffer f rest

def replaceChar (s : Str) (find replace : UInt8) : Str :=
  { s with store := mapBuffer (fun c => if c = find then replace else c) s.store }

def toLowerCase (s : Str) : Str := { s with store := mapBuffer tolower s.store }

def toUpperCase (s : Str) : Str := { s with store := mapBuffer toupper s.store }

def remove (s : Str) (index count : Nat) : Str :=
  if index ≥ s.len then s
  else if count = 0 then s
  else
    let count := if count > s.len - index then s.len - index else count
    let newlen := s.len - count
    let s := s.setLen newlen
    (s.put index ((s.store.drop (index + count)).take (newlen - index))).put newlen [0]

/-- The second loop of `trim`; its argument is one more than `end`. -/
def trimEnd (store : List UInt8) (start : Nat) : Nat → Nat
  | 0 => 0
  | last + 1 =>
      if isspace (store.getD last 0) ∧ last ≥ start then trimEnd store start last else last + 1

def trim (s : Str) : Str :=
  if s.len = 0 then s
  else
    let start := (s.store.takeWhile isspace).length
    let newlen := trimEnd s.store start s.len - start
    let s := s.setLen newlen
    let s := if start > 0 then s.put 0 ((s.store.drop start).take newlen) else s
    s.put newlen [0]

def setCharAt (s : Str) (loc : Nat) (c : UInt8) : Str := if loc < s.len then s.put loc [c] else s

def ofChar (c : UInt8) : Str := { Str.init with store := Str.init.store.set 0 c, len := 1 }

def substring (s : Str) (mem : Allocations) (left right : Nat) : Str × Allocations :=
  let lo := min left right
  let hi := min (max left right) s.len
  if lo ≥ s.len then (.init, mem)
  else (concat .init mem ((s.store.drop lo).take (hi - lo))).2

/-- `operator +(const String&, const String&)`, and with characters on the left -/
def plus (mem : Allocations) (lhs rhs : List UInt8) : Str × Allocations :=
  let r := reserve .init mem (lhs.length + rhs.length)
  let a := concat r.2.1 r.2.2 lhs
  (concat a.2.1 a.2.2 rhs).2

def strcmp : List UInt8 → List UInt8 → Int
  | [], [] => 0
  | a :: _, [] => a.toNat
  | [], b :: _ => - b.toNat
  | a :: as, b :: bs => if a = b then strcmp as bs else (a.toNat : Int) - b.toNat

def compareTo (s t : Str) : Int := strcmp (cstr s.store) (cstr t.store)

def equals (s t : Str) : Bool := s.len = t.len && compareTo s t = 0

/-- The `String` variables of a program, and the heap. -/
structure World where
  vars : Nat → Str
  mem : Allocations

def World.set (w : World) (i : Nat) (s : Str) : World :=
  { w with vars := fun j => if j = i then s else w.vars j }

def World.put (w : World) (i : Nat) (r : Str × Allocations) : World :=
  { w.set i r.1 with mem := r.2 }

/-- `move`: a variable takes the buffer of another one. -/
def World.move (w : World) (i j : Nat) : World :=
  (w.set i (w.vars j)).set j .init

def World.operand (w : World) (i j : Nat) : Operand :=
  if j = i then .self else .other (w.vars j)

/-- `operator +=(const String&)` -/
def World.concat (w : World) (i j : Nat) : World :=
  if j = i then w.put i (concatSelf (w.vars i) w.mem).2
  else w.put i (WString.concat (w.vars i) w.mem (w.vars j).text).2

/-- `operator +(const String&, String&&)` -/
def World.plusMoveRight (w : World) (r i j : Nat) : World :=
  let lhs := w.vars i
  let rhs := w.vars j
  if rhs.capacity > lhs.len + rhs.len then
    let res := insert rhs w.mem 0 lhs.text
    (w.set j .init).put r res
  else (w.set j .init).put r (plus w.mem lhs.text rhs.text)

/-- `operator +(String&&, const String&)` -/
def World.plusMoveLeft (w : World) (r i j : Nat) : World :=
  let w := w.concat i j
  (w.set i .init).set r (w.vars i)

/-- `operator +(String&&, String&&)` -/
def World.plusMoveBoth (w : World) (r i j : Nat) : World :=
  let lhs := w.vars i
  let rhs := w.vars j
  let total := lhs.len + rhs.len
  if total > lhs.capacity ∧ total < rhs.capacity then
    let res := insert rhs w.mem 0 lhs.text
    (w.set j .init).put r res
  else
    let w := (w.concat i j).set j .init
    (w.set i .init).set r (w.vars i)

inductive Action where
  | construct (i : Nat) (source : Option Source)
  | constructChar (i : Nat) (c : UInt8)
  | copyConstruct (i j : Nat)
  | assign (i j : Nat)
  | assignMove (i j : Nat)
  | assignChars (i : Nat) (source : Option Source)
  | concat (i j : Nat)
  | concatChars (i : Nat) (source : Option Source)
  | reserve (i : Nat) (size : UInt32)
  | clear (i : Nat)
  | replaceChar (i : Nat) (find replace : UInt8)
  | replace (i find replace : Nat)
  | remove (i : Nat) (index count : UInt32)
  | trim (i : Nat)
  | toLowerCase (i : Nat)
  | toUpperCase (i : Nat)
  | setCharAt (i : Nat) (loc : UInt32) (c : UInt8)
  | substring (r i : Nat) (left right : UInt32)
  | plus (r i j : Nat)
  | plusMoveLeft (r i j : Nat)
  | plusMoveRight (r i j : Nat)
  | plusMoveBoth (r i j : Nat)
  | prepend (r : Nat) (source : Source) (j : Nat)
  | prependMove (r : Nat) (source : Source) (j : Nat)
  | append (r i : Nat) (source : Source)
  | appendMove (r i : Nat) (source : Source)

/-- One operation. Results are stored in the variable `r`. -/
def World.step (w : World) : Action → World
  | .construct i none => w.set i .init
  | .construct i (some source) => w.put i (copy .init w.mem source.bytes)
  | .constructChar i c => w.set i (ofChar c)
  | .copyConstruct i j => w.put i (copy .init w.mem (w.vars j).text)
  | .assign i j => if j = i then w else w.put i (copy (w.vars i) w.mem (w.vars j).text)
  | .assignMove i j => if j = i then w else w.move i j
  | .assignChars i none => w.set i (w.vars i).invalidate
  | .assignChars i (some source) => w.put i (copy (w.vars i) w.mem source.bytes)
  | .concat i j => w.concat i j
  | .concatChars _ none => w
  | .concatChars i (some source) => w.put i (WString.concat (w.vars i) w.mem source.bytes).2
  | .reserve i size => w.put i (WString.reserve (w.vars i) w.mem size.toNat).2
  | .clear i => w.set i (WString.clear (w.vars i))
  | .replaceChar i find replace => w.set i (WString.replaceChar (w.vars i) find replace)
  | .replace i find replace =>
      w.put i (replaceString (w.vars i) w.mem (w.operand i find) (w.operand i replace))
  | .remove i index count => w.set i (WString.remove (w.vars i) index.toNat count.toNat)
  | .trim i => w.set i (WString.trim (w.vars i))
  | .toLowerCase i => w.set i (WString.toLowerCase (w.vars i))
  | .toUpperCase i => w.set i (WString.toUpperCase (w.vars i))
  | .setCharAt i loc c => w.set i (WString.setCharAt (w.vars i) loc.toNat c)
  | .substring r i left right =>
      w.put r (WString.substring (w.vars i) w.mem left.toNat right.toNat)
  | .plus r i j => w.put r (WString.plus w.mem (w.vars i).text (w.vars j).text)
  | .plusMoveLeft r i j => w.plusMoveLeft r i j
  | .plusMoveRight r i j => w.plusMoveRight r i j
  | .plusMoveBoth r i j => w.plusMoveBoth r i j
  | .prepend r source j => w.put r (WString.plus w.mem source.bytes (w.vars j).text)
  | .prependMove r source j =>
      (w.set j .init).put r (insert (w.vars j) w.mem 0 source.bytes)
  | .append r i source =>
      let res := copy .init w.mem (w.vars i).text
      w.put r (WString.concat res.1 res.2 source.bytes).2
  | .appendMove r i source =>
      (w.set i .init).put r (WString.concat (w.vars i) w.mem source.bytes).2

end Esp8266.WString
