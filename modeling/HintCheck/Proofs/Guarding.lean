import HintCheck.Proofs.Wrapping

/-!
Guards. A call of a wrapper makes the check of a parameter if an argument was given for it. The
listing of the wrapper cannot know what was given: its guard makes the check unless the parameter
has a default and its value is that very object. The two agree but for two cases. An argument that
is the default itself is checked by the call and not by the listing, and a variadic parameter that
received nothing is checked by the listing and not by the call.
-/
namespace HintCheck

/-- The value of a parameter is the object that is its default: it was filled in from it, or the
argument is the same object. -/
def Bound.isDefault (b : Bound) (p : Parameter) : Bool :=
  p.default.any fun v => !b.passed || b.value.isSame v

/-- The guard of a parameter comes to its check. -/
def Guard.admits (g : Guard) (p : Parameter) (b : Bound) : Bool :=
  !(g.exemptsDefault && b.isDefault p)

/-- The guard in the listing of a function comes to the check of a parameter that has a value. -/
def Declaration.admits (d : Declaration) (cat : Catalog) (p : ParamCheck) (b : Bound) : Bool :=
  (d.signature.params[p.index]?).all ((d.guardOf cat p).admits · b)

/-- Makes checks of parameters in order, up to one that does not accept; `when` tells whether a
check is made when its turn comes. -/
def Running.demandWhen (o : Oracle Checking) (conf : Config) (function : String)
    (bound : List Bound) (when : ParamCheck → Bound → Bool) : List ParamCheck → Running Unit
  | [] => pure ()
  | p :: rest => do
    (bound[p.index]?).elim (pure ()) fun b => do
      if when p b then demand o conf function (.parameter p.name) p.check b.value
    demandWhen o conf function bound when rest

namespace Running

variable {o : Oracle Checking} {conf : Config} {function : String} {bound : List Bound}

/-- A call makes the checks of what was passed. -/
theorem demandParams_eq (w : Wrapper) (params : List ParamCheck) :
    demandParams o w function bound params =
      demandWhen o w.conf function bound (fun _ b => b.passed) params := by
  induction params with
  | nil => rfl
  | cons p rest ih =>
    rw [demandParams, demandWhen, ih]
    cases bound[p.index]? with
    | none => rfl
    | some b =>
      dsimp only [Option.elim]
      cases b.passed <;> rfl

/-- A check that accepts without asking for anything may as well be left out. -/
theorem demand_of_accepts {site : Site} {c : Check} {v : Value}
    (accepts : c.accepts o v = pure true) : demand o conf function site c v = pure () := by
  rw [demand, accepts]
  rfl

theorem demandWhen_congr {when other : ParamCheck → Bound → Bool} {params : List ParamCheck}
    (agree : ∀ p ∈ params, ∀ b, bound[p.index]? = some b →
      when p b = other p b ∨ p.check.accepts o b.value = pure true) :
    demandWhen o conf function bound when params =
      demandWhen o conf function bound other params := by
  induction params with
  | nil => rfl
  | cons p rest ih =>
    obtain ⟨first, others⟩ := List.forall_mem_cons.mp agree
    rw [demandWhen, demandWhen, ih others]
    cases there : bound[p.index]? with
    | none => rfl
    | some b =>
      rcases first b there with same | accepts
      · rw [Option.elim, Option.elim, same]
      · rw [Option.elim, Option.elim, demand_of_accepts accepts, ite_self, ite_self]

end Running

/-! ### What guards come to -/

/-- An argument that is the default of its parameter, the same object. -/
def Bound.repeatsDefault (b : Bound) (p : Parameter) : Bool :=
  b.passed && p.default.any (b.value.isSame ·)

/-- A variadic parameter that has received nothing. -/
def Bound.isIdle (b : Bound) (p : Parameter) : Bool :=
  !b.passed && p.kind.isVariadic

namespace Signature

/-- The parameter at a position has its value at that position. -/
theorem belongs_of_getElem? {s : Signature} {args : Call} {bound : List Bound}
    (binds : s.bind args = .ok bound) {index : Nat} {p : Parameter}
    (there : s.params[index]? = some p) : ∃ b, bound[index]? = some b ∧ b.Belongs p := by
  have belong := bind_belongs binds
  obtain ⟨within, isParam⟩ := List.getElem?_eq_some_iff.mp there
  have withinToo : index < bound.length := belong.length_eq ▸ within
  refine ⟨bound[index], List.getElem?_eq_getElem withinToo, ?_⟩
  subst isParam
  exact belong.get within withinToo

end Signature

namespace Declaration

variable {d : Declaration} {cat : Catalog} {p : ParamCheck} {q : Parameter} {b : Bound}

/-- A guard comes to the check of what was passed, unless that is the default, and to the check of a
variadic parameter that has received nothing. -/
theorem admits_eq (there : d.signature.params[p.index]? = some q) (belongs : b.Belongs q) :
    d.admits cat p b = (b.passed && !b.repeatsDefault q || b.isIdle q) := by
  have isParam : q ∈ d.signature.params := List.mem_of_getElem? there
  have unfolded : d.admits cat p b = !b.isDefault q := by
    cases isDefault : q.default <;>
      simp [admits, there, Guard.admits, guardOf, Parameter.hasDefault, Bound.isDefault, isDefault]
  rw [unfolded, Bound.isDefault, Bound.repeatsDefault, Bound.isIdle]
  cases passed : b.passed with
  | true => simp
  | false =>
    cases isVariadic : q.kind.isVariadic with
    | true => simp [d.signature.default_of_variadic isParam isVariadic]
    | false =>
      rcases belongs.trusted passed with filled | ⟨isKind, _⟩ | ⟨isKind, _⟩
      · simp [filled]
      · rw [isKind] at isVariadic; cases isVariadic
      · rw [isKind] at isVariadic; cases isVariadic

end Declaration

/-- Every check is that of the parameter at its position, which has its name. -/
def Declaration.Places (d : Declaration) (params : List ParamCheck) : Prop :=
  ∀ p ∈ params, ∃ q, d.signature.params[p.index]? = some q ∧ q.name = p.name

theorem Decorator.paramChecks_places {dec : Decorator} {ctx : Context} {d : Declaration}
    {index : Nat} {params : List Parameter} {checks : List ParamCheck} {work after : Workshop}
    (done : (dec.paramChecks ctx d index params).run.run work = (.ok checks, after)) :
    ∀ c ∈ checks, ∃ i q, c.index = index + i ∧ params[i]? = some q ∧ q.name = c.name := by
  induction params generalizing index work checks with
  | nil => cases done; exact nofun
  | cons p rest ih =>
    obtain ⟨mid, others, more, step⟩ : ∃ mid others,
        (dec.paramChecks ctx d (index + 1) rest).run.run mid = (.ok others, after) ∧
        (checks = others ∨ ∃ check, checks = ⟨index, p.name, check⟩ :: others) := by
      unfold paramChecks at done
      cases hint : p.hint <;> rw [hint] at done
      all_goals
        obtain ⟨found, mid, _, done⟩ := run_run_bind_ok done
        obtain ⟨others, _, more, done⟩ := run_run_bind_ok done
        cases found <;> cases done
        · exact ⟨mid, others, more, .inl rfl⟩
        · exact ⟨mid, others, more, .inr ⟨_, rfl⟩⟩
    have later : ∀ c ∈ others, ∃ i q, c.index = index + i ∧ (p :: rest)[i]? = some q ∧
        q.name = c.name := by
      intro c member
      obtain ⟨i, q, position, there, named⟩ := ih more c member
      exact ⟨i + 1, q, by rw [position]; omega, there, named⟩
    rcases step with rfl | ⟨check, rfl⟩
    · exact later
    · exact List.forall_mem_cons.mpr ⟨⟨0, p, rfl, rfl, rfl⟩, later⟩

namespace Session

/-- A function is left alone, or its wrapper shows its listing, over checks that stand for its
parameters. -/
theorem decorate_places {s : Session} {conf : Config} {owner : Option ClassId} {d : Declaration}
    {body : Body} {g : Callable}
    (decorated : ((decorate conf owner (.plain d body)).run s).1.1 = .ok g) :
    g = .plain d body ∨ ∃ w, g = .checked d body w ∧ d.Places w.params ∧ w.conf = conf ∧
      w.source = (d.listing s.catalog w.params w.result).text := by
  rw [decorate_outcome] at decorated
  obtain ⟨_, rfl⟩ | ⟨params, _, result, _, checked, _, ⟨_, _, rfl⟩ | ⟨w, rfl, rfl, rfl, made⟩⟩ :=
    Decorator.decorate_cases (Prod.ext decorated rfl)
  · exact .inl rfl
  · exact .inl rfl
  · obtain ⟨_, _, isConf, source⟩ := Declaration.wrap_eq made
    refine .inr ⟨w, rfl, fun c member => ?_, isConf, source⟩
    obtain ⟨i, q, position, there, named⟩ := Decorator.paramChecks_places checked c member
    exact ⟨q, by rw [position, Nat.zero_add]; exact there, named⟩

/-- The listing of the wrapper of a function has a guard for each check, on the variable of the
parameter. Where an argument was given, the call makes the check, and the guard comes to it unless
the argument is the default of the parameter; where none was given, the call does not make the
check, and the guard comes to it exactly if the parameter is variadic. With no argument that is its
default, and if the checks of the variadic parameters that have received nothing accept, the guards
make the checks that the call makes. -/
theorem decorate_guards {s : Session} {conf : Config} {owner : Option ClassId} {d : Declaration}
    {body : Body} {w : Wrapper}
    (decorated : ((decorate conf owner (.plain d body)).run s).1.1 = .ok (.checked d body w)) :
    w.source = (d.listing s.catalog w.params w.result).text ∧
    (d.listing s.catalog w.params w.result).params = w.params.map (d.guardOf s.catalog) ∧
    ∀ args bound, d.signature.bind args = .ok bound →
      (∀ p ∈ w.params, ∃ q b, d.signature.params[p.index]? = some q ∧ bound[p.index]? = some b ∧
        b.name = (d.guardOf s.catalog p).pith ∧
        (b.passed = true ∧ d.admits s.catalog p b = false ↔ b.repeatsDefault q = true) ∧
        (b.passed = false ∧ d.admits s.catalog p b = true ↔ b.isIdle q = true)) ∧
      ∀ o function,
        Running.demandParams o w function bound w.params =
          Running.demandWhen o conf function bound (fun _ b => b.passed) w.params ∧
        ((∀ p ∈ w.params, ∀ q b, d.signature.params[p.index]? = some q →
            bound[p.index]? = some b → b.repeatsDefault q = false ∧
              (b.isIdle q = true → p.check.accepts o b.value = pure true)) →
          Running.demandParams o w function bound w.params =
            Running.demandWhen o conf function bound (d.admits s.catalog) w.params) := by
  obtain left | ⟨w, isChecked, placed, rfl, source⟩ := decorate_places decorated
  · cases left
  cases isChecked
  refine ⟨source, rfl, fun args bound binds => ⟨fun p member => ?_, fun o function => ?_⟩⟩
  · obtain ⟨q, there, named⟩ := placed p member
    obtain ⟨b, isBound, belongs⟩ := Signature.belongs_of_getElem? binds there
    refine ⟨q, b, there, isBound, belongs.name.trans named, ?_⟩
    rw [Declaration.admits_eq there belongs]
    cases passed : b.passed <;> simp [Bound.repeatsDefault, Bound.isIdle, passed]
  · refine ⟨Running.demandParams_eq w w.params, fun apart => ?_⟩
    rw [Running.demandParams_eq]
    refine Running.demandWhen_congr fun p member b isBound => ?_
    obtain ⟨q, there, _⟩ := placed p member
    obtain ⟨_, isBoundToo, belongs⟩ := Signature.belongs_of_getElem? binds there
    cases isBound.symm.trans isBoundToo
    obtain ⟨differs, accepts⟩ := apart p member q b there isBound
    cases idle : b.isIdle q with
    | true => exact .inr (accepts idle)
    | false => exact .inl (by simp [Declaration.admits_eq there belongs, differs, idle])

theorem wrapper_of_any {ε : Type} {made : Except ε Callable} {p : Callable → Wrapper → Prop}
    [∀ c w, Decidable (p c w)]
    (passes : made.toOption.any (fun c => c.wrapper?.any fun w => decide (p c w)) = true) :
    ∃ c w, made = .ok c ∧ c.wrapper? = some w ∧ p c w := by
  obtain ⟨c, made, passes⟩ := ok_of_any passes
  obtain ⟨w, isWrapper, holds⟩ := (Option.any_eq_true _ _).mp passes
  exact ⟨c, w, made, isWrapper, of_decide_eq_true holds⟩

/-- The argument is the one truth value and the default is the other. -/
theorem decorate_guards_given :
    let d : Declaration := ⟨5, "f", "f", "m", ⟨[⟨"x", .positionalOrKeyword, some (.bool true),
      some Builtin.int⟩], by decide⟩, none, false, none⟩
    let body := Body.argument "x"
    let bound : List Bound := [⟨"x", .bool false, true⟩]
    ∃ w, ((decorate .standard none (.plain d body)).run start).1.1 = .ok (.checked d body w) ∧
      d.signature.bind ⟨[.bool false], []⟩ = .ok bound ∧ w.params.map ParamCheck.index = [0] ∧
      ∀ o function, Running.demandParams o w function bound w.params =
        Running.demandWhen o .standard function bound (d.admits start.catalog) w.params := by
  intro d body bound
  obtain ⟨g, w, decorated, wrapped, positions⟩ : ∃ g w,
      ((decorate .standard none (.plain d body)).run start).1.1 = .ok g ∧ g.wrapper? = some w ∧
        w.params.map ParamCheck.index = [0] := wrapper_of_any (by decide +kernel)
  obtain rfl | ⟨_, rfl, _⟩ := decorate_places decorated <;> cases wrapped
  have binds : d.signature.bind ⟨[.bool false], []⟩ = .ok bound := rfl
  refine ⟨w, decorated, binds, positions, fun o function => ?_⟩
  refine (((decorate_guards decorated).2.2 _ bound binds).2 o function).2 ?_
  intro p member q b there isBound
  have first : p.index = 0 := List.mem_singleton.mp (positions ▸ List.mem_map_of_mem member)
  rw [first] at there isBound
  cases there
  cases isBound
  exact ⟨rfl, fun idle => by cases idle⟩

/-- An argument that is the default is refused by the call, and the guard lets it pass; no arguments
for a pair are taken by the call, and the guard comes to a check that refuses them. -/
theorem decorate_guards_differ :
    let said (x : Running Value) := ((x.run.run start.calls).1.map fun _ => ()).mapError
      CallError.message
    let unpacked : Hint := .subscription none (.form (.standard .unpack))
      [.generic none Builtin.tuple [Builtin.int, Builtin.str]]
    let f : Declaration := ⟨5, "f", "f", "m", ⟨[⟨"x", .positionalOrKeyword, some .none,
      some Builtin.int⟩], by decide⟩, none, false, none⟩
    let g : Declaration := ⟨5, "g", "g", "m", ⟨[⟨"xs", .varPositional, none, some unpacked⟩],
      by decide⟩, none, false, none⟩
    let given : Bound := ⟨"x", .none, true⟩
    let received : Bound := ⟨"xs", .tuple [], false⟩
    (f.signature.bind ⟨[.none], []⟩ = .ok [given] ∧
      ∃ c w, ((decorate .standard none (.plain f (.argument "x"))).run start).1.1 = .ok c ∧
        c.wrapper? = some w ∧
        w.params.map (fun p => (p.name, f.admits start.catalog p given)) = [("x", false)] ∧
        said (c.call start.around ⟨[.none], []⟩) = .error ("Function f() parameter x=None " ++
          "violates type hint int, as NoneType None not instance of int.")) ∧
    g.signature.bind ⟨[], []⟩ = .ok [received] ∧
      ∃ c w, ((decorate .standard none (.plain g (.argument "xs"))).run start).1.1 = .ok c ∧
        c.wrapper? = some w ∧
        w.params.map (fun p => (p.name, g.admits start.catalog p received)) = [("xs", true)] ∧
        w.params.map (fun p => ((p.check.accepts (Running.oracle start.around w.label 0)
          received.value).run.run start.calls).1.toOption) = [some false] ∧
        said (c.call start.around ⟨[], []⟩) = .ok () := by
  intro said unpacked f g given received
  refine ⟨⟨rfl, ?_⟩, rfl, ?_⟩
  · exact wrapper_of_any (by decide +kernel)
  · exact wrapper_of_any (by decide +kernel)

end Session
end HintCheck
