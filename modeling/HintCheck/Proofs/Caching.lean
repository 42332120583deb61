import HintCheck.Proofs.Building
import HintCheck.Proofs.Classification
import HintCheck.Proofs.Stability
import HintCheck.Reference

/-!
Kept classifications. A cache that was filled by classifying hints gives every hint the
classification that the rules give it, and so does the shortcut for plain classes; only the label of
the classified hint may differ.
-/
namespace HintCheck

theorem Hint.text_labelled (cat : Catalog) (h : Hint) (n : Nat) :
    (h.labelled n).text cat = h.text cat := by
  unfold Hint.labelled
  split
  case h_5 module => cases module <;> rfl
  case h_6 v => cases v <;> rfl
  all_goals rfl

theorem Reference.ofHint?_labelled (ctx : Context) (h : Hint) (n : Nat) :
    Reference.ofHint? ctx (h.labelled n) = Reference.ofHint? ctx h := by
  unfold Hint.labelled
  split <;> rfl

/-- The classified hints differ in the label of the hint at most. -/
structure Classified.Resembles (c found : Classified) : Prop where
  sign : c.sign = found.sign
  children : c.children = found.children
  origin : c.origin = found.origin
  data : c.data = found.data
  text : ∀ cat, c.hint.text cat = found.hint.text cat
  reference : ∀ ctx, Reference.ofHint? ctx c.hint = Reference.ofHint? ctx found.hint

/-- The classified hints are the same, but for the label that a hint made in passing gets when its
classification is kept. -/
def Classified.Relabels (c found : Classified) : Prop :=
  c = found ∨ ∃ n, c = { found with hint := found.hint.labelled n }

theorem Classified.Relabels.resembles {c found : Classified} (relabels : c.Relabels found) :
    c.Resembles found := by
  rcases relabels with rfl | ⟨n, rfl⟩
  · exact ⟨rfl, rfl, rfl, rfl, fun _ => rfl, fun _ => rfl⟩
  · exact ⟨rfl, rfl, rfl, rfl, fun cat => found.hint.text_labelled cat n,
      fun ctx => Reference.ofHint?_labelled ctx found.hint n⟩

namespace Cache

variable {names : Naming} {cat : Catalog} {subs : Substitutes} {cache : Cache} {ctx : Context}
  {h : Hint}

/-- What is said of a plain class at sight is what the rules say. -/
theorem classify_atSight {c : Classified} (atSight : atSight? cat ctx h = some c) :
    h.classify cat subs ctx = .ok c := by
  unfold atSight? at atSight
  split at atSight
  case h_2 => cases atSight
  case h_1 k =>
    split at atSight
    case isFalse => cases atSight
    case isTrue plain =>
      cases atSight
      rw [Bool.and_eq_true, Bool.not_eq_true'] at plain
      have simple : (Hint.cls k).Simple cat := .plain plain.1
      have named : (Hint.cls k).WellNamed ⟨fun _ => .cls k, fun _ => .instanceOf []⟩ := .ofClass k
      have canonical : (Hint.cls k).canonical cat ctx = .ok ⟨.cls k, []⟩ :=
        simple.canonical_settled named plain.2 rfl rfl
      rw [Hint.classify, Hint.classifyWithin_proper rfl, canonical]
      show (do return Hint.annotate _ _ (← Hint.classifyReduced cat subs _ ctx (.cls k))) = _
      rw [Hint.classifyReduced_settled rfl, Hint.classifyCanonical_plain plain.1]
      rfl

/-- All that the cache holds is what the rules say. -/
def Faithful (names : Naming) (cat : Catalog) (subs : Substitutes) (cache : Cache) : Prop :=
  ∀ (ctx : Context) (h : Hint) key c, h.WellNamed names → key? ctx h = some key →
    cache.get? key = some c → ∃ found, h.classify cat subs ctx = .ok found ∧ c.Relabels found

/-- The key determines the hint and all that its classification looks at. -/
theorem classify_of_key {other : Context} {h' : Hint} {key : HintId × Position}
    (named : h.WellNamed names) (named' : h'.WellNamed names) (isKey : key? ctx h = some key)
    (isKey' : key? other h' = some key) : h.classify cat subs ctx = h'.classify cat subs other := by
  unfold key? at isKey isKey'
  split at isKey
  case isFalse => cases isKey
  case isTrue free =>
  split at isKey'
  case isFalse => cases isKey'
  case isTrue free' =>
    obtain ⟨id, isId, rfl⟩ := Option.map_eq_some_iff.mp isKey
    obtain ⟨id', isId', same⟩ := Option.map_eq_some_iff.mp isKey'
    rw [Prod.mk.injEq] at same
    obtain rfl : h = h' := named.eq_of_isSame named' (by simp [Hint.isSame, isId, isId', same.1])
    simp only [Context.isScopeFree, Bool.and_eq_true, List.isEmpty_iff] at free free'
    refine Hint.classify_alike ⟨fun kind => by rw [same.2], ?_, ?_⟩ subs h
    · rw [free.1, free'.1]
    · rw [free.2, free'.2]

/-- With the help of the cache, classification ends as the rules say. -/
theorem Faithful.outcome (faithful : cache.Faithful names cat subs) (named : h.WellNamed names)
    (fresh : Nat) (ctx : Context) :
    Building.Alike (fun result found => result.1.Relabels found)
      (cache.classify cat subs fresh ctx h) (h.classify cat subs ctx) := by
  unfold classify
  cases atSight : atSight? cat ctx h with
  | some c =>
    rw [classify_atSight atSight]
    exact .inl rfl
  | none =>
    cases isKey : key? ctx h with
    | none =>
      cases h.classify cat subs ctx with
      | error e => exact rfl
      | ok found => exact .inl rfl
    | some key =>
      dsimp only
      cases kept : cache.get? key with
      | some c =>
        obtain ⟨found, classified, relabels⟩ := faithful ctx h key c named isKey kept
        rw [classified]
        exact relabels
      | none =>
        cases h.classify cat subs ctx with
        | error e => exact rfl
        | ok found => exact .inr ⟨fresh, rfl⟩

/-- Classifying one more hint keeps the cache faithful. -/
theorem Faithful.classify (faithful : cache.Faithful names cat subs) (named : h.WellNamed names)
    {fresh : Nat} {c : Classified} {next : Cache}
    (classified : cache.classify cat subs fresh ctx h = .ok (c, next)) :
    next.Faithful names cat subs := by
  unfold Cache.classify at classified
  cases atSight : atSight? cat ctx h with
  | some c => rw [atSight] at classified; cases classified; exact faithful
  | none =>
    rw [atSight] at classified
    cases isKey : key? ctx h with
    | none =>
      rw [isKey] at classified
      cases found : h.classify cat subs ctx <;> rw [found] at classified <;> cases classified
      exact faithful
    | some key =>
      rw [isKey] at classified
      cases kept : cache.get? key with
      | some c => simp only [kept] at classified; cases classified; exact faithful
      | none =>
        simp only [kept] at classified
        cases found : h.classify cat subs ctx with
        | error e => rw [found] at classified; cases classified
        | ok result =>
          rw [found] at classified
          cases classified
          intro ctx' h' key' c' named' isKey' isKept
          by_cases same : key' = key
          · subst same
            rw [get?, insert, List.lookup_cons_self] at isKept
            cases isKept
            exact ⟨result, (classify_of_key named' named isKey' isKey).trans found,
              .inr ⟨fresh, rfl⟩⟩
          · refine faithful ctx' h' key' c' named' isKey' ?_
            rw [get?, insert, List.lookup_cons, beq_false_of_ne same] at isKept
            exact isKept

/-- The caches that classifying hints leads to. -/
inductive Grown (names : Naming) (cat : Catalog) (subs : Substitutes) : Cache → Prop
  | empty : Grown names cat subs .empty
  | classify {cache next : Cache} {fresh : Nat} {ctx : Context} {h : Hint} {c : Classified}
      (grown : Grown names cat subs cache) (named : h.WellNamed names)
      (classified : cache.classify cat subs fresh ctx h = .ok (c, next)) : Grown names cat subs next

theorem Grown.faithful (grown : cache.Grown names cat subs) : cache.Faithful names cat subs := by
  induction grown with
  | empty => exact fun _ _ _ _ _ _ kept => by cases kept
  | classify _ named classified ih => exact ih.classify named classified

end Cache
end HintCheck
