import HintCheck.Value

/-!
Two equalities of values. `structEq` compares what values are made of, number by number and item by
item; `equals` is equality as programs see it: it looks through payloads, compares numbers by their
exact value whatever their kind, sets as sets, and dictionaries by looking keys up.
-/
namespace HintCheck.Value

mutual

/-- Structural equality: the same kind with the same contents in the same order. -/
def structEq : Value → Value → Bool
  | ellipsis, ellipsis => true
  | none, none => true
  | bool a, bool b => a == b
  | int a, int b => a == b
  | float a, float b => a == b
  | complex a b, complex c d => a == c && b == d
  | str a, str b => a == b
  | module a, module b => a == b
  | bytes a, bytes b => a == b
  | list a, list b => structEqList a b
  | tuple a, tuple b => structEqList a b
  | set a, set b => structEqList a b
  | frozenset a, frozenset b => structEqList a b
  | deque a, deque b => structEqList a b
  | iterator a, iterator b => structEqList a b
  | dict a, dict b => structEqPairs a b
  | a, b => a.isSame b

def structEqList : List Value → List Value → Bool
  | [], [] => true
  | x :: xs, y :: ys => structEq x y && structEqList xs ys
  | _, _ => false

def structEqPairs : List (Value × Value) → List (Value × Value) → Bool
  | [], [] => true
  | (k, v) :: xs, (l, w) :: ys => structEq k l && structEq v w && structEqPairs xs ys
  | _, _ => false

end

/-- The integer that a truth value or an integer stands for. -/
def asInt? : Value → Option Int
  | bool b => some (if b then 1 else 0)
  | int i => some i
  | _ => Option.none

/-- The real and imaginary part of a floating-point number, real or complex. -/
def asComplex? : Value → Option (Double × Double)
  | float x => some (x, ⟨0⟩)
  | complex re im => some (re, im)
  | _ => Option.none

/-- An integer against a floating-point number. -/
def intEquals (i : Int) (v : Value) : Bool :=
  match v.asComplex? with
  | some (re, im) => im.isZero && re.equalsInt i
  | Option.none => false

/-- Equality of numbers by their exact value; no answer when neither value is a number. -/
def numericEq? (a b : Value) : Option Bool :=
  match a.asInt?, b.asInt? with
  | some i, some j => some (i == j)
  | some i, Option.none => some (intEquals i b)
  | Option.none, some i => some (intEquals i a)
  | Option.none, Option.none =>
    match a.asComplex?, b.asComplex? with
    | some (re, im), some (re', im') => some (re.equals re' && im.equals im')
    | Option.none, Option.none => Option.none
    | _, _ => some false

/-- Equality of two values that hold no items to compare one by one. -/
def leafEq (a b : Value) : Bool :=
  (numericEq? a b).getD (structEq a b)

mutual

/-- Equality in one of the two directions: `matchesAt false a b` asks whether `a` equals `b`, and
`matchesAt true a b` whether `b` equals `a`. A set is compared by finding each item of the asking
side in the other, and a dictionary by looking up each key of the asking side in the other, where
the found key asks. -/
def matchesAt (turned : Bool) : Value → Value → Bool
  | inst _ _ _ (some payload), b => matchesAt turned payload b
  | list xs, b =>
    match b.data with
    | list ys => matchesAll turned xs ys
    | b => leafEq (list xs) b
  | tuple xs, b =>
    match b.data with
    | tuple ys => matchesAll turned xs ys
    | b => leafEq (tuple xs) b
  | deque xs, b =>
    match b.data with
    | deque ys => matchesAll turned xs ys
    | b => leafEq (deque xs) b
  | set xs, b =>
    match b.data with
    | set ys | frozenset ys =>
      xs.length == ys.length && if turned then ys.all (matchesAny xs) else matchesSubset xs ys
    | b => leafEq (set xs) b
  | frozenset xs, b =>
    match b.data with
    | set ys | frozenset ys =>
      xs.length == ys.length && if turned then ys.all (matchesAny xs) else matchesSubset xs ys
    | b => leafEq (frozenset xs) b
  | dict xs, b =>
    match b.data with
    | dict ys =>
      xs.length == ys.length &&
        if turned then ys.all fun pair => lookupMatches xs pair.1 pair.2 else allLookedUp xs ys
    | b => leafEq (dict xs) b
  | a, b => leafEq a b.data
termination_by structural a => a

/-- Item by item, in order. -/
def matchesAll (turned : Bool) : List Value → List Value → Bool
  | [], [] => true
  | x :: xs, y :: ys => matchesAt turned x y && matchesAll turned xs ys
  | _, _ => false
termination_by structural xs => xs

/-- Some item on the left is found by the item on the right. -/
def matchesAny : List Value → Value → Bool
  | [], _ => false
  | x :: xs, y => matchesAt true x y || matchesAny xs y
termination_by structural xs => xs

/-- Every item on the left finds one on the right. -/
def matchesSubset : List Value → List Value → Bool
  | [], _ => true
  | x :: xs, ys => (ys.any fun y => matchesAt false x y) && matchesSubset xs ys
termination_by structural xs => xs

/-- The first key on the left that equals `key` has a value that `value` equals. -/
def lookupMatches : List (Value × Value) → Value → Value → Bool
  | [], _, _ => false
  | (k, v) :: rest, key, value =>
    if matchesAt false k key then matchesAt true v value else lookupMatches rest key value
termination_by structural pairs => pairs

/-- Each key on the left is found on the right, with an equal value. -/
def allLookedUp : List (Value × Value) → List (Value × Value) → Bool
  | [], _ => true
  | (k, v) :: rest, ys =>
    (match ys.find? fun pair => matchesAt true k pair.1 with
      | some pair => matchesAt false v pair.2
      | Option.none => false) && allLookedUp rest ys
termination_by structural pairs => pairs

end

/-- Equality of values as programs see it. -/
def equals (a b : Value) : Bool :=
  matchesAt false a b

/-- The value under the first key of a dictionary's pairs that equals the given key. -/
def lookup? (pairs : List (Value × Value)) (key : Value) : Option Value :=
  (pairs.find? fun pair => pair.1.equals key).map Prod.snd

end HintCheck.Value
