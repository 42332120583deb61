import HintCheck.Proofs.Building
import HintCheck.Proofs.Renaming

/-!
A check that is built again. The scope, the variable of the value and the room for checks inside
differ from place to place, and with them the names that a check mentions; but what was built in one
place is built in every place with no less room, and it is the same check under other names. In the
same scope these are the same names. In any other one the check asks the same of each value, with
whatever classes are known by the time of the test, if all references are answered alike.
-/
namespace HintCheck

namespace Building
variable {α β γ δ ι : Type}

/-- Where building has a result, both parts have one. -/
theorem ok_of_outcome_bind {x : Building α} {f : α → Building β} {scope : Scope} {b : β}
    (ends : (outcome (x >>= f) scope).1 = .ok b) :
    ∃ a mid, outcome x scope = (.ok a, mid) ∧ (outcome (f a) mid).1 = .ok b := by
  rw [outcome_bind] at ends
  rcases ran : outcome x scope with ⟨_ | a, mid⟩ <;> rw [ran] at ends
  · cases ends
  · exact ⟨a, mid, rfl, ends⟩

/-- Where `x` has a result, `y` has one that looks the same, from any scope in the relation to that
of `x`; and the scopes that they leave are in this relation. -/
def Repeats (near : Scope → Scope → Prop) (look : α → γ) (x y : Building α) : Prop :=
  ∀ scope other a after, near scope other → outcome x scope = (.ok a, after) →
    ∃ b left, outcome y other = (.ok b, left) ∧ near after left ∧ look a = look b

variable {near : Scope → Scope → Prop} {look : α → γ} {lookNext : β → δ}

theorem repeats_pure {a b : α} (same : look a = look b) :
    Repeats near look (pure a) (pure b) := by
  rintro scope other _ _ isNear ⟨⟩
  exact ⟨b, other, rfl, isNear, same⟩

theorem repeats_throw (e : HintError) (y : Building α) : Repeats near look (throw e) y :=
  nofun

theorem repeats_bind {x y : Building α} {f g : α → Building β} (first : Repeats near look x y)
    (next : ∀ a b, look a = look b → Repeats near lookNext (f a) (g b)) :
    Repeats near lookNext (x >>= f) (y >>= g) := by
  intro scope other c after isNear ends
  rw [outcome_bind] at ends
  rcases ran : outcome x scope with ⟨_ | a, mid⟩ <;> rw [ran] at ends
  · cases ends
  obtain ⟨b, midToo, ranToo, isNearThen, same⟩ := first scope other a mid isNear ran
  obtain ⟨d, left, endsToo, isNearAfter, sameThen⟩ :=
    next a b same mid midToo c after isNearThen ends
  exact ⟨d, left, by rw [outcome_bind, ranToo]; exact endsToo, isNearAfter, sameThen⟩

/-- An outcome that does not depend on the scope, in front of the part that matters. -/
theorem repeats_known (x : Except HintError α) {f g : α → Building β}
    (next : ∀ a, Repeats near lookNext (f a) (g a)) :
    Repeats near lookNext (Builder.ofExcept x >>= f) (Builder.ofExcept x >>= g) := by
  cases x with
  | error e => exact nofun
  | ok a => exact next a

theorem repeats_mapM {f g : ι → Building α} (each : ∀ i, Repeats near look (f i) (g i))
    (items : List ι) : Repeats near (List.map look) (items.mapM f) (items.mapM g) := by
  induction items with
  | nil => exact repeats_pure rfl
  | cons i rest ih =>
    rw [List.mapM_cons, List.mapM_cons]
    refine repeats_bind (each i) fun a b head => repeats_bind ih fun as bs tail => repeats_pure ?_
    rw [List.map_cons, List.map_cons, head, tail]

end Building

open Building Builder

/-- What is bound and handed out in scopes near each other looks the same under the names. -/
structure Renaming.Hides (ρ : Renaming) (near : Scope → Scope → Prop) : Prop where
  pith : Repeats near ρ.pith (onScope Scope.freshPith) (onScope Scope.freshPith)
  cls : ∀ c, Repeats near ρ.key (onScope (·.bindClass c)) (onScope (·.bindClass c))
  literal : ∀ v, Repeats near ρ.key (onScope (·.bindLiteral v)) (onScope (·.bindLiteral v))
  validator : ∀ v, Repeats near ρ.key (onScope (·.bindValidator v)) (onScope (·.bindValidator v))
  reference : ∀ ref, Repeats near ρ.reference (onScope (·.bindReference ref ref.module))
    (onScope (·.bindReference ref ref.module))

/-- The same scope gives the same names. -/
theorem Renaming.hides_identity : identity.Hides Eq := by
  have again {α : Type} (f : Scope → α × Scope) : Repeats Eq id (onScope f) (onScope f) := by
    rintro scope _ a after rfl ran
    exact ⟨a, after, ran, rfl, rfl⟩
  exact ⟨again _, fun _ => again _, fun _ => again _, fun _ => again _, fun _ => again _⟩

/-- Where no name is told from another, any scope will do. -/
theorem Renaming.hides_uniform : uniform.Hides fun _ _ => True := by
  have again {α κ : Type} (f : Scope → α × Scope) (shown : κ) :
      Repeats (fun _ _ => True) (fun _ => shown) (onScope f) (onScope f) :=
    fun _ other _ _ _ _ => ⟨_, _, outcome_onScope f other, trivial, rfl⟩
  exact ⟨again _ _, fun _ => again _ _, fun _ => again _ _, fun _ => again _ _, fun _ => again _ _⟩

namespace Builder

variable {b : Builder} {ρ : Renaming} {near : Scope → Scope → Prop}

/-! ### Operands -/

section Operands
variable (hides : ρ.Hides near)
include hides

theorem repeats_operand (c : ClassId) :
    Repeats near (ClassOperand.renamed ρ) (operand c) (operand c) := by
  unfold operand
  split
  · exact repeats_pure rfl
  · exact repeats_bind (hides.cls c) fun key other same =>
      repeats_pure (congrArg (ClassOperand.bound · c) same)

theorem repeats_literalOperand (v : Value) :
    Repeats near (LiteralOperand.renamed ρ) (literalOperand v) (literalOperand v) := by
  unfold literalOperand
  split
  · exact repeats_bind (hides.literal _) fun key other same =>
      repeats_pure (congrArg (fun key => LiteralOperand.mk _ (some key)) same)
  · exact repeats_pure rfl

theorem repeats_validatorOperand (v : Validator) :
    Repeats near (ValidatorOperand.renamed ρ) (validatorOperand v) (validatorOperand v) :=
  repeats_bind (hides.validator v) fun _ _ same =>
    repeats_pure (congrArg (ValidatorOperand.mk · v) same)

theorem repeats_originOperands (c : Classified) :
    Repeats near (List.map (ClassOperand.renamed ρ)) (b.originOperands c) (b.originOperands c) := by
  unfold originOperands
  cases c.origin with
  | none => exact repeats_throw _ _
  | some origin => exact repeats_mapM (repeats_operand hides) _

theorem repeats_referenceOperand (ctx : Context) (h : Hint) :
    Repeats near ρ.reference (b.referenceOperand ctx h) (b.referenceOperand ctx h) := by
  unfold referenceOperand
  split
  · exact repeats_throw _ _
  · exact hides.reference _

end Operands

/-! ### Unions -/

theorem renamed_mergeOperands (ρ : Renaming) (classes more : List ClassOperand) :
    (mergeOperands classes more).map (ClassOperand.renamed ρ) =
      mergeOperands (classes.map (ClassOperand.renamed ρ)) (more.map (ClassOperand.renamed ρ)) := by
  unfold mergeOperands
  induction more generalizing classes with
  | nil => rfl
  | cons op rest ih =>
    rw [List.foldl_cons, ih, List.map_cons, List.foldl_cons]
    simp only [List.any_map, Function.comp_def, ClassOperand.target_renamed]
    split <;> simp

theorem renamed_addMember (ρ : Renaming) (member : Check) (found : List Check) :
    (addMember member found).map (Check.renamed ρ) =
      addMember (member.renamed ρ) (found.map (Check.renamed ρ)) := by
  cases found with
  | nil => rfl
  | cons c earlier =>
    cases c with
    | isInstance s classes =>
      cases member with
      | isInstance t more =>
        simp only [addMember, List.map_cons, Check.renamed, renamed_mergeOperands]
      | _ => rfl
    | _ => rfl

theorem repeats_unionFrom {s t : Subject} (subjects : s.renamed ρ = t.renamed ρ)
    {member again : Hint → Building Check}
    (each : ∀ h, Repeats near (Check.renamed ρ) (member h) (again h)) (hints : List Hint)
    (previous : Option Hint) {found others : List Check}
    (same : found.map (Check.renamed ρ) = others.map (Check.renamed ρ)) :
    Repeats near (Check.renamed ρ) (unionFrom s member previous found hints)
      (unionFrom t again previous others hints) := by
  induction hints generalizing previous found others with
  | nil =>
    have reversed := congrArg List.reverse same
    rw [← List.map_reverse, ← List.map_reverse] at reversed
    match found, others with
    | [], [] | _ :: _ :: _, _ :: _ :: _ =>
      refine repeats_pure ?_
      simp only [Check.renamed, Check.renamedAll_eq, subjects, reversed]
    | [only], [other] =>
      refine repeats_pure ?_
      rw [Check.renamed_about, Check.renamed_about, subjects]
      simp_all
    | [], _ :: _ | _ :: _, [] | [_], _ :: _ :: _ | _ :: _ :: _, [_] => simp at same
  | cons h rest ih =>
    rw [unionFrom, unionFrom]
    split
    · exact ih previous same
    · refine repeats_bind (each h) fun c d alike => ?_
      rw [← Check.isPass_renamed ρ c, alike, Check.isPass_renamed]
      split
      · exact repeats_pure alike
      · refine ih (some h) ?_
        rw [renamed_addMember, renamed_addMember, alike, same]

/-! ### Hints inside -/

/-- What one builder of the checks inside builds, the other builds again. -/
def Remakes (ρ : Renaming) (near : Scope → Scope → Prop) (make again : Maker) : Prop :=
  ∀ ctx pith other c, ρ.pith pith = ρ.pith other →
    Repeats near (Check.renamed ρ) (make ctx pith c) (again ctx other c)

section Inside
variable (hides : ρ.Hides near) {make again : Maker} (remakes : Remakes ρ near make again)
  {ctx : Context} {s t : Subject} (subjects : s.renamed ρ = t.renamed ρ)
include hides remakes

omit hides in
theorem repeats_onSame {pith other : String} (piths : ρ.pith pith = ρ.pith other) (h : Hint) :
    Repeats near (Check.renamed ρ) (b.onSame make ctx pith h) (b.onSame again ctx other h) :=
  repeats_known _ fun c => remakes ctx.nested pith other c piths

theorem repeats_inside? (h : Hint) :
    Repeats near (Option.map (Check.renamed ρ)) (b.inside? make ctx h) (b.inside? again ctx h) := by
  have inside : Repeats near (Check.renamed ρ) (b.inside make ctx h) (b.inside again ctx h) :=
    repeats_known _ fun c => repeats_bind hides.pith fun pith other piths =>
      remakes ctx.nested pith other c piths
  refine repeats_bind inside fun c d alike => repeats_pure ?_
  rw [← Check.isPass_renamed ρ c, alike, Check.isPass_renamed]
  split
  · rfl
  · exact congrArg some alike

/-! ### Containers -/

include subjects

omit hides remakes in
theorem repeats_isInstance {ps qs : List ClassOperand}
    (classes : ps.map (ClassOperand.renamed ρ) = qs.map (ClassOperand.renamed ρ)) :
    Repeats near (Check.renamed ρ) (pure (.isInstance s ps)) (pure (.isInstance t qs)) :=
  repeats_pure (Check.renamed_isInstance subjects classes)

theorem repeats_tuple (c : Classified) :
    Repeats near (Check.renamed ρ) (b.tuple make ctx s c) (b.tuple again ctx t c) := by
  refine repeats_bind (repeats_originOperands hides c) fun origin originToo origins => ?_
  refine repeats_bind (repeats_mapM (repeats_inside? hides remakes) _) fun items others same => ?_
  refine repeats_pure ?_
  simp only [Check.renamed, Check.renamedItems_numbered, subjects, origins, same]

theorem repeats_container (c : Classified) {shape shapeToo : List ClassOperand → Check → Check}
    (shapes : ∀ {ps qs item other},
      ps.map (ClassOperand.renamed ρ) = qs.map (ClassOperand.renamed ρ) →
        item.renamed ρ = other.renamed ρ →
          (shape ps item).renamed ρ = (shapeToo qs other).renamed ρ) :
    Repeats near (Check.renamed ρ) (b.container make ctx s c shape)
      (b.container again ctx t c shapeToo) := by
  refine repeats_bind (repeats_originOperands hides c) fun origin originToo origins => ?_
  cases c.children with
  | nil => exact repeats_isInstance subjects origins
  | cons h rest =>
    refine repeats_bind (repeats_inside? hides remakes h) fun item other alike => ?_
    match item, other with
    | none, none => exact repeats_isInstance subjects origins
    | some item, some other => exact repeats_pure (shapes origins (Option.some.inj alike))
    | none, some _ | some _, none => cases alike

theorem repeats_mapping (c : Classified) (exhaustive : Bool) :
    Repeats near (Check.renamed ρ) (b.mapping make ctx s c exhaustive)
      (b.mapping again ctx t c exhaustive) := by
  refine repeats_bind (repeats_originOperands hides c) fun origin originToo origins => ?_
  split
  · refine repeats_bind (repeats_inside? hides remakes _) fun key otherKey keys => ?_
    refine repeats_bind (repeats_inside? hides remakes _) fun value otherValue values => ?_
    match key, value, otherKey, otherValue with
    | none, none, none, none => exact repeats_isInstance subjects origins
    | some _, _, some _, _ | none, some _, none, some _ =>
      refine repeats_pure ?_
      simp only [Check.renamed, Check.renamedOption_eq, subjects, origins, keys, values]
    | none, _, some _, _ | some _, _, none, _ => cases keys
    | _, none, _, some _ | _, some _, _, none => cases values
  · exact repeats_isInstance subjects origins

/-! ### Classes as values, generic classes -/

omit remakes subjects in
theorem repeats_subclassTargets {pith other : String} (piths : ρ.pith pith = ρ.pith other)
    (bound : Nat) (h : Hint) :
    Repeats near (List.map (Check.renamed ρ)) (b.subclassTargets ctx pith bound h)
      (b.subclassTargets ctx other bound h) := by
  have subjects := Subject.renamed_congr piths
  induction bound generalizing h with
  | zero => exact repeats_throw _ _
  | succ bound ih =>
    refine repeats_known _ fun c => ?_
    dsimp only
    split
    · exact repeats_pure rfl
    · refine repeats_bind (repeats_mapM ih _) fun parts others same => repeats_pure ?_
      rw [List.map_flatten, List.map_flatten, same]
    · refine repeats_bind (repeats_referenceOperand hides _ _) fun ref otherRef same => ?_
      refine repeats_pure ?_
      simp only [List.map_cons, List.map_nil, Check.renamed, subjects, same]
    · split
      · exact repeats_pure rfl
      · refine repeats_bind (repeats_operand hides _) fun op otherOp same => repeats_pure ?_
        simp only [List.map_cons, List.map_nil, Check.renamed, subjects, same]

omit remakes in
theorem repeats_classValue (c : Classified) :
    Repeats near (Check.renamed ρ) (b.classValue ctx s c) (b.classValue ctx t c) := by
  refine repeats_bind (repeats_operand hides _) fun op otherOp ops => ?_
  have classes : [op].map (ClassOperand.renamed ρ) = [otherOp].map (ClassOperand.renamed ρ) :=
    congrArg (fun op => [op]) ops
  cases c.children with
  | nil => exact repeats_isInstance subjects classes
  | cons h rest =>
    refine repeats_bind (repeats_subclassTargets hides (congrArg Subject.pith subjects) _ h)
      fun targets others same => ?_
    have tests : [Check.any s targets].map (Check.renamed ρ) =
        [Check.any t others].map (Check.renamed ρ) := by
      simp only [List.map_cons, List.map_nil, Check.renamed, Check.renamedAll_eq, subjects, same]
    match targets, others with
    | [], [] => exact repeats_isInstance subjects classes
    | _ :: _, _ :: _ => exact repeats_pure (Check.renamed_all subjects classes tests)
    | [], _ :: _ | _ :: _, [] => cases same

theorem repeats_field? (entry : String × Hint) :
    Repeats near (Option.map (Check.renamed ρ)) (b.field? make ctx s entry)
      (b.field? again ctx t entry) := by
  refine repeats_bind (repeats_inside? hides remakes entry.2) fun item other same =>
    repeats_pure ?_
  have renamed (s : Subject) (item : Option Check) :
      (item.map (.attr s entry.1)).map (Check.renamed ρ) =
        (item.map (Check.renamed ρ)).map (.attr (s.renamed ρ) entry.1) := by
    cases item <;> rfl
  rw [renamed, renamed, same, subjects]

theorem repeats_genericClass (k : ClassId) (substitutions : List (Hint × Hint))
    (supers : List Hint) :
    Repeats near (Check.renamed ρ) (b.genericClass make ctx s k substitutions supers)
      (b.genericClass again ctx t k substitutions supers) := by
  refine repeats_bind (repeats_operand hides k) fun op otherOp ops => ?_
  have classes : [op].map (ClassOperand.renamed ρ) = [otherOp].map (ClassOperand.renamed ρ) :=
    congrArg (fun op => [op]) ops
  have piths : ρ.pith s.pith = ρ.pith t.pith := congrArg Subject.pith subjects
  refine repeats_bind (repeats_mapM (repeats_onSame remakes piths) supers)
    fun bases otherBases sameBases => ?_
  refine repeats_bind (repeats_mapM (repeats_field? hides remakes subjects) _)
    fun fields otherFields sameFields => ?_
  have same : (bases.filter (fun base => !base.isPass) ++ fields.filterMap id).map
      (Check.renamed ρ) = (otherBases.filter (fun base => !base.isPass) ++
        otherFields.filterMap id).map (Check.renamed ρ) := by
    rw [List.map_append, List.map_append, Check.renamed_tests, Check.renamed_tests, sameBases,
      Check.renamed_found, Check.renamed_found, sameFields]
  revert same
  generalize bases.filter (fun base => !base.isPass) ++ fields.filterMap id = parts
  generalize otherBases.filter (fun base => !base.isPass) ++ otherFields.filterMap id = others
  intro same
  match parts, others with
  | [], [] => exact repeats_isInstance subjects classes
  | _ :: _, _ :: _ => exact repeats_pure (Check.renamed_all subjects classes same)
  | [], _ :: _ | _ :: _, [] => cases same

end Inside

/-! ### All hints -/

theorem Remakes.shape (hides : ρ.Hides near) {make again : Maker}
    (remakes : Remakes ρ near make again) : Remakes ρ near (b.shape make) (b.shape again) := by
  intro ctx pith other c piths
  have subjects := Subject.renamed_congr piths
  unfold Builder.shape
  cases c.sign.strategy.emit with
  | pass | fail => exact repeats_pure (by simp only [Check.renamed, subjects])
  | isInstance | originOnly =>
    refine repeats_bind (repeats_originOperands hides c) fun origin originToo origins => ?_
    exact repeats_pure (by simp only [Check.renamed, subjects, origins])
  | union =>
    exact repeats_unionFrom (subjects _) (repeats_onSame remakes piths) c.children none rfl
  | literal =>
    cases c.data with
    | literals values =>
      refine repeats_bind (repeats_mapM (repeats_literalOperand hides) values)
        fun ops others same => ?_
      exact repeats_pure (by simp only [Check.renamed, subjects, same])
    | _ => exact repeats_throw _ _
  | validators =>
    cases c.data with
    | annotated validators inner =>
      refine repeats_bind (remakes ctx pith other inner piths) fun child childToo children => ?_
      refine repeats_bind (repeats_mapM (repeats_validatorOperand hides) validators)
        fun ops others same => ?_
      exact repeats_pure (by simp only [Check.renamed, subjects, children, same])
    | _ => exact repeats_throw _ _
  | tupleFixed => exact repeats_tuple hides remakes (subjects _) c
  | sequence | reiterable =>
    refine repeats_container hides remakes (subjects _) c fun origins items => ?_
    simp only [Check.renamed, subjects, origins, items]
  | mapping => exact repeats_mapping hides remakes (subjects _) c _
  | isSubclass => exact repeats_classValue hides (subjects _) c
  | generic =>
    cases c.data with
    | generic k substitutions supers =>
      exact repeats_genericClass hides remakes (subjects _) k substitutions supers
    | _ => exact repeats_throw _ _
  | forwardRef =>
    refine repeats_bind (repeats_referenceOperand hides _ _) fun ref otherRef same => ?_
    exact repeats_pure (by simp only [Check.renamed, subjects, same])
  | typedDict =>
    cases c.data with
    | typedDict required =>
      refine repeats_bind (repeats_operand hides _) fun op otherOp same => ?_
      exact repeats_pure (by simp only [Check.renamed, List.map_cons, List.map_nil, subjects, same])
    | _ => exact repeats_throw _ _
  | reduced => exact repeats_throw _ _

/-- What is built in some room is built in more room, from any scope nearby. -/
theorem remakes_buildWithin (hides : ρ.Hides near) (b : Builder) {room more : Nat}
    (enough : room ≤ more) : Remakes ρ near (b.buildWithin room) (b.buildWithin more) := by
  induction room generalizing more with
  | zero => exact fun ctx pith other c _ => repeats_throw _ _
  | succ room ih =>
    obtain ⟨more, rfl⟩ := Nat.exists_eq_add_of_le' enough
    exact (ih (Nat.le_add_left room more)).shape hides

section Places
variable {room more : Nat} (enough : room ≤ more) {ctx : Context} {pith : String} {c : Classified}
  {scope : Scope} {check : Check}
include enough

/-- In more room the same is built in the same place. -/
theorem buildWithin_more {after : Scope}
    (built : outcome (b.buildWithin room ctx pith c) scope = (.ok check, after)) :
    outcome (b.buildWithin more ctx pith c) scope = (.ok check, after) := by
  obtain ⟨again, _, builtToo, rfl, same⟩ := remakes_buildWithin Renaming.hides_identity b enough
    ctx pith pith c rfl scope scope check after rfl built
  rw [Check.renamed_identity, Check.renamed_identity] at same
  rw [builtToo, same]

/-- What is built in one place is built anywhere else, and it asks the same of every value, if all
references are answered alike. -/
theorem buildWithin_elsewhere
    (built : (outcome (b.buildWithin room ctx pith c) scope).1 = .ok check) (other : String)
    (start : Scope) :
    ∃ again, (outcome (b.buildWithin more ctx other c) start).1 = .ok again ∧
      ∀ {m : Type → Type} [Monad m] (o : Oracle m),
        (∀ ref found, o.resolve ref = o.resolve found) → check.accepts o = again.accepts o := by
  obtain ⟨again, left, builtToo, _, same⟩ := remakes_buildWithin Renaming.hides_uniform b enough
    ctx pith other c rfl scope start check _ trivial (Prod.ext built rfl)
  refine ⟨again, by rw [builtToo], fun o blind => ?_⟩
  have unseen : Renaming.uniform.IsUnseenBy o := fun ref => blind _ ref
  rw [← Check.accepts_renamed unseen check, same, Check.accepts_renamed unseen]

end Places

end Builder
end HintCheck
