import Guion.Proofs.Run.Simulation

/-!
# Relations that demand nothing

Many relations between ways of running need to know nothing of the values that are
passed on. They are given here by what they have to do with each effect alone, and
are simulations in which every result is as good as another.
-/

namespace Guion

variable {ρ σ : Type}

/-- A relation between two kinds of computations that every effect respects. The
positions on the right are those on the left, moved by `f`. -/
structure Congruence (f : ρ → σ) (D : Discipline ρ) {M N : Type → Type} [Effects ρ M] [Effects σ N]
    (Rel : ∀ α, M α → N α → Prop) : Prop where
  pure {α : Type} (a : α) : Rel α (pure a) (pure a)
  bind {α β : Type} {x : M α} {y : N α} {k : α → M β} {l : α → N β} :
    Rel α x y → (∀ a, Rel β (k a) (l a)) → Rel β (x >>= k) (y >>= l)
  fail {α : Type} (range : ρ) (fault : Fault) :
    Rel α (Effects.fail range fault) (Effects.fail (f range) fault)
  unfinished {α : Type} : Rel α Effects.unfinished Effects.unfinished
  scope : Rel Scope Effects.scope Effects.scope
  insideFunction : Rel Bool Effects.insideFunction Effects.insideFunction
  insideLoop : Rel Bool Effects.insideLoop Effects.insideLoop
  lookup (name : Located ρ String) : Rel Value (Effects.lookup name) (Effects.lookup (name.map f))
  declare (range : ρ) (frame : Nat) (name : String) (value : Option Value)
    (type : Option ValueType) (isConstant : Bool) :
    Rel Unit (Effects.declare range frame name value type isConstant)
      (Effects.declare (f range) frame name value type isConstant)
  assign (range : ρ) (name : String) (value : Value) :
    Rel Unit (Effects.assign range name value) (Effects.assign (f range) name value)
  newObject (fields : Fields) : Rel Value (Effects.newObject fields) (Effects.newObject fields)
  newFunction (c : Closure ρ) : c.body.Obeys D →
    Rel Value (Effects.newFunction c) (Effects.newFunction (c.map f))
  closure? {β : Type} {k : Option (Closure ρ) → M β} {l : Option (Closure σ) → N β} (id : Nat) :
    Rel β (k none) (l none) →
    (∀ c : Closure ρ, c.body.Obeys D → Rel β (k (some c)) (l (some (c.map f)))) →
    Rel β (Effects.closure? id >>= k) (Effects.closure? id >>= l)
  field? (object : Nat) (key : String) :
    Rel (Option Value) (Effects.field? object key) (Effects.field? object key)
  putField (object : Nat) (key : String) (value : Value) :
    Rel Unit (Effects.putField object key value) (Effects.putField object key value)
  display (v : Value) : Rel String (Effects.display v) (Effects.display v)
  write (range : ρ) (text : String) :
    Rel Unit (Effects.write range text) (Effects.write (f range) text)
  print (range : ρ) (v : Value) : Rel Unit (Effects.print range v) (Effects.print (f range) v)
  inBlock {α : Type} {x : M α} {y : N α} (kind : ScopeKind) :
    Rel α x y → Rel α (Effects.inBlock kind x) (Effects.inBlock kind y)
  inCall {α : Type} {p : Nat → M Unit} {q : Nat → N Unit} {x : M α} {y : N α} (range : ρ)
    (around : Scope) : (∀ frame, Rel Unit (p frame) (q frame)) → Rel α x y →
    Rel α (Effects.inCall range around p x) (Effects.inCall (f range) around q y)
  repeatWithin {α : Type} {x : M (Option α)} {y : N (Option α)} (turns : Nat) :
    Rel (Option α) x y → Rel α (Effects.repeatWithin x turns) (Effects.repeatWithin y turns)

/-- A relation that every effect respects is a simulation without demands. -/
theorem Congruence.simulation {f : ρ → σ} {D : Discipline ρ} {M N : Type → Type} [Effects ρ M]
    [Effects σ N] {Rel : ∀ α, M α → N α → Prop} (h : Congruence f D Rel) :
    Simulation f D .all fun α _ => Rel α where
  pure {_ _ a} _ := h.pure a
  bind hx hk := h.bind hx fun a => hk a (Demand.holds_all _ a)
  fail range fault := h.fail range fault
  scope := h.scope
  insideFunction := h.insideFunction
  insideLoop := h.insideLoop
  lookup name := h.lookup name
  declare range _ name _ type isConstant _ _ := h.declare range _ name _ type isConstant
  assign range name _ _ := h.assign range name _
  newObject _ := h.newObject _
  newFunction hc _ := h.newFunction _ hc
  closure? _ hnone hsome := h.closure? _ hnone fun c hc => hsome c hc (Realm.hasScope_all _)
  field? key _ := h.field? _ key
  putField key _ _ _ := h.putField _ key _
  display _ := h.display _
  write range text := h.write range text
  print range _ _ := h.print range _
  inBlock kind hx := h.inBlock kind hx
  inCall range _ _ hp hx := h.inCall range _ (fun frame => hp frame trivial) hx
  unfinished := h.unfinished
  repeatWithin turns hx := h.repeatWithin turns hx

end Guion
