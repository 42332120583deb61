import HintCheck.Class.Definition
import HintCheck.Decoration

/-!
A session: the classes, modules and scopes that programs have defined so far, and everything that
one operation leaves for the next.
-/
namespace HintCheck

/-- The state of a session. -/
structure Session where
  catalog : Catalog
  namespaces : Namespaces
  /-- What extension objects stand for. -/
  substitutes : Substitutes
  cache : Cache
  /-- Labels from here on are free. -/
  nextLabel : Nat
  calls : CallState
  /-- The listings of wrappers. -/
  sources : List (Filename × String)

/-- An operation of a session that cannot fail. -/
abbrev Operation := StateM Session

namespace Session

/-- A session in which nothing is defined. -/
def start : Session :=
  ⟨.builtin, .empty, [], .empty, 0, ⟨.ofSeed 0, []⟩, []⟩

/-- What references are looked up in. -/
def around (s : Session) : Surroundings :=
  ⟨s.catalog, s.namespaces⟩

/-- A label that nothing has yet. -/
def fresh : Operation Nat :=
  modifyGet fun s => (s.nextLabel, { s with nextLabel := s.nextLabel + 1 })

/-! ### Definitions -/

def defineClass (draft : ClassDraft) : ExceptT ClassError Operation ClassId := do
  let s ← get
  match s.catalog.define draft with
  | .error e => throw e
  | .ok (c, catalog) =>
    set { s with catalog }
    return c

/-- Makes a class a virtual subclass of another. -/
def registerSubclass (c sub : ClassId) : Operation Unit :=
  modify fun s => { s with catalog := s.catalog.register c sub }

/-- Says what an extension object stands for. -/
def substitute (label : Nat) (h : Hint) : Operation Unit :=
  modify fun s => { s with substitutes := (label, h) :: s.substitutes }

/-- Runs a function on the modules and scopes. -/
def onNamespaces {α : Type} (f : Namespaces → α × Namespaces) : Operation α :=
  modifyGet fun s =>
    let (a, namespaces) := f s.namespaces
    (a, { s with namespaces })

/-! ### Random numbers -/

def reseed (seed : UInt64) : Operation Unit :=
  modify fun s => { s with calls := { s.calls with keystream := .ofSeed seed } }

def draw (count : Nat) : Operation (List UInt32) :=
  modifyGet fun s =>
    let (xs, keystream) := s.calls.keystream.drawMany count
    (xs, { s with calls := { s.calls with keystream } })

/-! ### Hints and checks -/

/-- Classifies a hint with the help of what is kept. -/
def classify (ctx : Context) (h : Hint) : ExceptT HintError Operation Classified := do
  let label ← fresh
  let s ← get
  match s.cache.classify s.catalog s.substitutes label ctx h with
  | .error e => throw e
  | .ok (c, cache) =>
    set { s with cache }
    return c

/-- Builds the check of a hint in a scope. -/
def buildCheck (ctx : Context) (pith : String) (h : Hint) (scope : Scope) :
    ExceptT HintError Operation (Check × Scope) := do
  let c ← classify ctx h
  let s ← get
  let builder : Builder := ⟨s.catalog, s.substitutes, ctx.conf⟩
  match (builder.build ctx pith c).run.run scope with
  | (.ok check, scope) => return (check, scope)
  | (.error e, _) => throw e

/-- Runs an operation of calls. -/
def onCalls {α : Type} (x : StateM CallState α) : Operation α :=
  modifyGet fun s =>
    let (a, calls) := x.run s.calls
    (a, { s with calls })

/-- The outcome of a check on a value: accepted, or the failure inside it if one is found. The
references of the check belong to `owner`. -/
def examine (owner : Nat) (random : UInt32) (c : Check) (v : Value) :
    ExceptT ReferenceError Operation (Bool × Option Failure) :=
  ExceptT.mk do
    let s ← get
    let o := Running.oracle s.around owner random
    let outcome : Checking (Bool × Option Failure) := do
      if ← c.accepts o v then return (true, none)
      return (false, ← c.diagnose o v)
    onCalls outcome.run

/-! ### Checks of their own -/

/-- Runs a part of a call. -/
def running {α : Type} (x : Running α) : ExceptT CallError Operation α :=
  ExceptT.mk (onCalls x.run)

/-- Builds the check of a hint for a check of its own. -/
def standaloneCheck (conf : Config) (h : Hint) : ExceptT CallError Operation Check :=
  ExceptT.mk do
    match ← (buildCheck (.bare conf) "obj" h .empty).run with
    | .ok (check, _) => return .ok check
    | .error e => return .error (.hint e)

/-- Whether a value satisfies a hint. -/
def isBearable (conf : Config) (h : Hint) (v : Value) : ExceptT CallError Operation Bool := do
  let check ← standaloneCheck conf h
  let owner ← fresh
  let s ← get
  running do
    let random ← Running.draw
    Running.ofChecking (check.accepts (Running.oracle s.around owner random) v)

/-- Demands that a value satisfies a hint. -/
def requireBearable (conf : Config) (h : Hint) (v : Value) : ExceptT CallError Operation Unit := do
  let check ← standaloneCheck conf h
  let owner ← fresh
  let s ← get
  running do
    let random ← Running.draw
    Running.demand (Running.oracle s.around owner random) conf "" .value check v

/-! ### Callables -/

/-- Keeps the listing of a wrapper; a later wrapper of the same function replaces it. -/
def keepSource (d : Declaration) (w : Wrapper) : Operation Unit :=
  modify fun s =>
    let others := s.sources.filter fun e => e.1 != d.filename
    { s with sources := (d.filename, w.source) :: others }

/-- Decorates a callable. The events are known even if that fails. -/
def decorate (conf : Config) (owner : Option ClassId) (c : Callable) :
    Operation (Except DecorationError Callable × List Event) := do
  let s ← get
  let dec : Decorator := ⟨s.around, s.substitutes, conf⟩
  let (outcome, work) := (dec.decorate owner c).run.run ⟨s.cache, s.nextLabel, .empty, []⟩
  set { s with cache := work.cache, nextLabel := work.nextLabel }
  match outcome with
  | .ok (.checked d body w) =>
    unless c.wrapper?.isSome do keepSource d w
    return (.ok (.checked d body w), work.events)
  | outcome => return (outcome, work.events)

/-- Puts checks around a function. -/
def wrap (d : Declaration) (params : List ParamCheck) (result : Option Check) (scope : Scope)
    (conf : Config) : ExceptT ListingError Operation Wrapper := do
  let label ← fresh
  let s ← get
  match d.wrap s.catalog label params result scope conf with
  | .error e => throw e
  | .ok w =>
    keepSource d w
    return w

def call (c : Callable) (arguments : Call) : ExceptT CallError Operation Value := do
  let s ← get
  running (c.call s.around arguments)

/-- The listing of the wrapper of a function. -/
def source? (s : Session) (d : Declaration) : Option String :=
  s.sources.lookup d.filename

/-- A line of the listing of the wrapper of a function. -/
def sourceLine? (s : Session) (d : Declaration) (number : Nat) : Option String :=
  (s.source? d).bind fun text => Text.line? text number

def forgetSource (d : Declaration) : Operation Unit :=
  modify fun s => { s with sources := s.sources.filter fun e => e.1 != d.filename }

end Session
end HintCheck
