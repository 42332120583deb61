import HintCheck.Hint.Classified

/-!
Classifications that are kept. A hint met again at the same position is not classified again where
its classification depends on nothing else, and a plain class is classified at sight.
-/
namespace HintCheck

/-- The classifications so far, by hint and position. -/
structure Cache where
  entries : List ((HintId × Position) × Classified)

namespace Cache

def empty : Cache :=
  ⟨[]⟩

def get? (cache : Cache) (key : HintId × Position) : Option Classified :=
  cache.entries.lookup key

def insert (cache : Cache) (key : HintId × Position) (c : Classified) : Cache :=
  ⟨(key, c) :: cache.entries⟩

/-- The key of a hint in a context, if its classification can be kept. -/
def key? (ctx : Context) (h : Hint) : Option (HintId × Position) :=
  if ctx.isScopeFree then h.id?.map fun id => (id, ctx.position) else none

/-- The hint means nothing but its class. -/
def isPlainClass (cat : Catalog) (c : ClassId) : Bool :=
  let k := cat.get c
  !k.root && !k.flags.typedDict && c != Builtin.generic && c != Builtin.protocol &&
    k.genericBases.isEmpty

/-- The classification that needs no look at the rules: that of a plain class, except where a
parameter takes any number of arguments. -/
def atSight? (cat : Catalog) (ctx : Context) (h : Hint) : Option Classified :=
  match h with
  | .cls c =>
    if isPlainClass cat c && !ctx.position.isVariadic then
      some (.leaf .isinstanceable h (some c))
    else none
  | _ => none

/-- Classifies a hint with the help of what is kept, and keeps the outcome. A hint that was made in
passing is labelled with `fresh` when it is kept, so that it can be met again. -/
def classify (cache : Cache) (cat : Catalog) (subs : Substitutes) (fresh : Nat) (ctx : Context)
    (h : Hint) : Except HintError (Classified × Cache) :=
  match atSight? cat ctx h with
  | some c => .ok (c, cache)
  | none =>
    match key? ctx h with
    | none => (h.classify cat subs ctx).map fun c => (c, cache)
    | some key =>
      match cache.get? key with
      | some c => .ok (c, cache)
      | none =>
        match h.classify cat subs ctx with
        | .error e => .error e
        | .ok c =>
          let kept := { c with hint := c.hint.labelled fresh }
          .ok (kept, cache.insert key kept)

end Cache
end HintCheck
