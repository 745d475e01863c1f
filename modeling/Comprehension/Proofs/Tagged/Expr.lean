import Comprehension.Proofs.Tagged.Ty
import Comprehension.Sample
import Comprehension.Tagged.Reading
import Mathlib.Data.Set.Function

/-! # Reading back expressions and models

A value, an expression or a model whose doubles are finite and whose sources have identities of 64
bits is read back from its JSON form as it was: with the same names, types and sources, and with
nothing merged or lost.  Two that are written alike are therefore the same. -/
namespace Comprehension

/-! ### What JSON can carry -/

mutual

/-- Whether every double in the value is finite. -/
def Value.isPortable : Value → Bool
  | .double x => x.isFinite
  | .sequence items => Value.arePortable items
  | _ => true

def Value.arePortable : List Value → Bool
  | [] => true
  | v :: vs => v.isPortable && Value.arePortable vs

end

/-- Whether the identity of the source is a number of 64 bits. -/
def Source.isPortable (s : Source) : Bool := s.id < Nat.pow 2 64

mutual

/-- Whether every double in an expression is finite and every source has an identity of 64 bits,
those inside queries included. -/
def Expr.isPortable : Expr → Bool
  | .constant value _ => value.isPortable
  | .parameter _ => true
  | .staticMember _ => true
  | .memberAccess target _ => target.isPortable
  | .unary _ operand _ => operand.isPortable
  | .binary _ left right _ => left.isPortable && right.isPortable
  | .staticCall _ arguments => Expr.arePortable arguments
  | .methodCall target _ arguments => target.isPortable && Expr.arePortable arguments
  | .new _ arguments _ => Expr.arePortable arguments
  | .memberInit _ arguments _ bindings => Expr.arePortable arguments && Binding.arePortable bindings
  | .lambda _ body => body.isPortable
  | .conditional test ifTrue ifFalse _ =>
    test.isPortable && ifTrue.isPortable && ifFalse.isPortable
  | .reference source => source.isPortable
  | .subQuery model _ => model.isPortable

def Expr.arePortable : List Expr → Bool
  | [] => true
  | e :: es => e.isPortable && Expr.arePortable es

def Binding.isPortable : Binding → Bool
  | .assignment _ value => value.isPortable
  | .list _ initializers => ElementInit.arePortable initializers
  | .nested _ bindings => Binding.arePortable bindings

def Binding.arePortable : List Binding → Bool
  | [] => true
  | b :: bs => b.isPortable && Binding.arePortable bs

def ElementInit.isPortable : ElementInit → Bool
  | ⟨_, arguments⟩ => Expr.arePortable arguments

def ElementInit.arePortable : List ElementInit → Bool
  | [] => true
  | i :: is => i.isPortable && ElementInit.arePortable is

def FromClause.isPortable : FromClause → Bool
  | ⟨source, expression⟩ => source.isPortable && expression.isPortable

def SortKey.isPortable : SortKey → Bool
  | ⟨expression, _⟩ => expression.isPortable

def SortKey.arePortable : List SortKey → Bool
  | [] => true
  | k :: ks => k.isPortable && SortKey.arePortable ks

def BodyClause.isPortable : BodyClause → Bool
  | .additionalFrom clause => clause.isPortable
  | .filter predicate => predicate.isPortable
  | .orderBy orderings => SortKey.arePortable orderings

def BodyClause.arePortable : List BodyClause → Bool
  | [] => true
  | c :: cs => c.isPortable && BodyClause.arePortable cs

def ResultOperator.isPortable : ResultOperator → Bool
  | .aggregate _ => true
  | .pick .. => true
  | .distinct => true
  | .take count => count.isPortable
  | .skip count => count.isPortable
  | .contains item => item.isPortable
  | .group _ key element => key.isPortable && element.isPortable

def ResultOperator.arePortable : List ResultOperator → Bool
  | [] => true
  | o :: os => o.isPortable && ResultOperator.arePortable os

/-- Whether every double in a model is finite and every source has an identity of 64 bits. -/
def Model.isPortable : Model → Bool
  | ⟨mainFrom, body, selector, operators⟩ =>
    mainFrom.isPortable && BodyClause.arePortable body && selector.isPortable &&
      ResultOperator.arePortable operators

end

/-! ### Values and sources -/

namespace Value

theorem signed?_int32 (n : Int32) : signed? 32 (.integer n.toInt) = some n.toInt := by
  have hlow : -Int.pow 2 31 ≤ n.toInt := n.le_toInt
  have hhigh : n.toInt < Int.pow 2 31 := n.toInt_lt
  rw [signed?, if_pos ⟨hlow, hhigh⟩]

theorem signed?_int64 (n : Int64) : signed? 64 (.integer n.toInt) = some n.toInt := by
  have hlow : -Int.pow 2 63 ≤ n.toInt := n.le_toInt
  have hhigh : n.toInt < Int.pow 2 63 := n.toInt_lt
  rw [signed?, if_pos ⟨hlow, hhigh⟩]

mutual

theorem readUpTo_toJson : (v : Value) → (fuel : Nat) → v.isPortable → v.toJson.depth ≤ fuel →
    readUpTo fuel v.toJson = some v
  | .null, fuel, _, h => by
    obtain ⟨n, rfl⟩ := Json.exists_fuel h
    rfl
  | .boolean b, fuel, _, h => by
    obtain ⟨n, rfl⟩ := Json.exists_fuel h
    rfl
  | .char c, fuel, _, h => by
    obtain ⟨n, rfl⟩ := Json.exists_fuel h
    rw [toJson, readUpTo, Json.tagged?_tag]
    simp [char?]
  | .int32 i, fuel, _, h => by
    obtain ⟨n, rfl⟩ := Json.exists_fuel h
    rw [toJson, readUpTo, Json.tagged?_tag]
    simp [signed?_int32]
  | .int64 i, fuel, _, h => by
    obtain ⟨n, rfl⟩ := Json.exists_fuel h
    rw [toJson, readUpTo, Json.tagged?_tag]
    simp [signed?_int64]
  | .double x, fuel, hp, h => by
    obtain ⟨n, rfl⟩ := Json.exists_fuel h
    have hx : x.isFinite = true := hp
    rw [toJson, readUpTo, Json.tagged?_tag]
    simp [hx, double?]
  | .string s, fuel, _, h => by
    obtain ⟨n, rfl⟩ := Json.exists_fuel h
    rfl
  | .sequence items, fuel, hp, h => by
    obtain ⟨n, rfl⟩ := Json.exists_fuel h
    simp only [toJson, Json.tag, Json.depth, Json.depthFields] at h
    have hitems := list?_toJson items n hp (by omega)
    rw [toJson, readUpTo, Json.tagged?_tag]
    simp [hitems]
  | .source name, fuel, _, h => by
    obtain ⟨n, rfl⟩ := Json.exists_fuel h
    rfl

theorem list?_toJson : (vs : List Value) → (fuel : Nat) → arePortable vs →
    Json.depthList (toJsonList vs) ≤ fuel →
    Json.list? (readUpTo fuel) (.array (toJsonList vs)) = some vs
  | [], _, _, _ => rfl
  | v :: vs, fuel, hp, h => by
    simp only [arePortable, Bool.and_eq_true] at hp
    simp only [toJsonList, Json.depthList] at h
    exact Json.list?_cons (readUpTo_toJson v fuel hp.1 (by omega))
      (list?_toJson vs fuel hp.2 (by omega))

end

theorem ofJson?_toJson {v : Value} (hp : v.isPortable) : ofJson? v.toJson = some v :=
  readUpTo_toJson v _ hp (Nat.le_refl _)

end Value

theorem Source.ofJson?_toJson {s : Source} (hp : s.isPortable) : ofJson? s.toJson = some s := by
  have hid : s.id < Nat.pow 2 64 := by simpa [Source.isPortable] using hp
  have hnat : Json.nat? (Nat.pow 2 64) (.integer s.id) = some s.id := by
    rw [Json.nat?, if_pos ⟨by omega, by omega⟩, Int.toNat_natCast]
  simp [Source.toJson, Source.ofJson?, hnat]

@[simp] theorem Parameter.ofJson?_toJson (p : Parameter) : ofJson? p.toJson = some p := by
  simp [Parameter.toJson, Parameter.ofJson?]

@[simp] theorem Parameter.list?_ofJson? (ps : List Parameter) :
    Json.list? Parameter.ofJson? (Json.ofList Parameter.toJson ps) = some ps :=
  Json.list?_array_map fun p _ => p.ofJson?_toJson

/-! ### Expressions and models

The readers call each other, and so do the proofs about them, one for each sort and by recursion on
what was written.  What is read with the fuel that is left is less deep by one.  Constants, types
and members are read whole, with fuel of their own. -/

/-- An expression is never written as `null`, which stands for a target that is not there. -/
theorem Expr.exists_toJson_eq_object (e : Expr) : ∃ fields, e.toJson = .object fields := by
  cases e <;> exact ⟨_, rfl⟩

theorem readConstruction_toJson (ctor : Constructor) {arguments : List Expr} {written : List Json}
    (members : Option (List Member)) {fuel : Nat}
    (h : Json.list? (Expr.readUpTo fuel) (.array written) = some arguments) :
    readConstruction (fuel + 1) (constructionToJson ctor written members) =
      some (ctor, arguments, members) := by
  cases members <;> simp [constructionToJson, readConstruction, Json.ofOption, Json.nullable?, h]

mutual

/-- An expression is read back with fuel for its depth. -/
theorem Expr.readUpTo_toJson : (e : Expr) → (fuel : Nat) → e.isPortable →
    e.toJson.depth ≤ fuel → Expr.readUpTo fuel e.toJson = some e
  | .constant value type, fuel, hp, h => by
    obtain ⟨n, rfl⟩ := Json.exists_fuel h
    have hvalue := Value.ofJson?_toJson hp
    rw [Expr.toJson, Expr.readUpTo, Json.tagged?_tag]
    simp [hvalue]
  | .parameter p, fuel, _, h => by
    obtain ⟨n, rfl⟩ := Json.exists_fuel h
    rw [Expr.toJson, Expr.readUpTo, Json.tagged?_tag]
    simp
  | .staticMember member, fuel, _, h => by
    obtain ⟨n, rfl⟩ := Json.exists_fuel h
    rw [Expr.toJson, Expr.readUpTo, Json.tagged?_tag]
    simp
  | .memberAccess target member, fuel, hp, h => by
    obtain ⟨n, rfl⟩ := Json.exists_fuel h
    simp only [Expr.toJson, Json.tag, Json.depth, Json.depthFields] at h
    have htarget := Expr.readUpTo_toJson target n hp (by omega)
    -- the reader asks first whether there is a target
    obtain ⟨fields, hfields⟩ := target.exists_toJson_eq_object
    rw [hfields] at htarget
    rw [Expr.toJson, Expr.readUpTo, Json.tagged?_tag]
    simp [hfields, htarget]
  | .unary op operand type, fuel, hp, h => by
    obtain ⟨n, rfl⟩ := Json.exists_fuel h
    simp only [Expr.toJson, Json.tag, Json.depth, Json.depthFields] at h
    have hoperand := Expr.readUpTo_toJson operand n hp (by omega)
    rw [Expr.toJson, Expr.readUpTo, Json.tagged?_tag]
    simp [hoperand]
  | .binary op left right type, fuel, hp, h => by
    obtain ⟨n, rfl⟩ := Json.exists_fuel h
    simp only [Expr.isPortable, Bool.and_eq_true] at hp
    simp only [Expr.toJson, Json.tag, Json.depth, Json.depthFields] at h
    have hleft := Expr.readUpTo_toJson left n hp.1 (by omega)
    have hright := Expr.readUpTo_toJson right n hp.2 (by omega)
    rw [Expr.toJson, Expr.readUpTo, Json.tagged?_tag]
    simp [hleft, hright]
  | .staticCall method arguments, fuel, hp, h => by
    obtain ⟨n, rfl⟩ := Json.exists_fuel h
    simp only [Expr.toJson, Json.tag, Json.depth, Json.depthFields] at h
    have harguments := Expr.list?_toJson arguments n hp (by omega)
    rw [Expr.toJson, Expr.readUpTo, Json.tagged?_tag]
    simp [harguments]
  | .methodCall target method arguments, fuel, hp, h => by
    obtain ⟨n, rfl⟩ := Json.exists_fuel h
    simp only [Expr.isPortable, Bool.and_eq_true] at hp
    simp only [Expr.toJson, Json.tag, Json.depth, Json.depthFields] at h
    have htarget := Expr.readUpTo_toJson target n hp.1 (by omega)
    have harguments := Expr.list?_toJson arguments n hp.2 (by omega)
    obtain ⟨fields, hfields⟩ := target.exists_toJson_eq_object
    rw [hfields] at htarget
    rw [Expr.toJson, Expr.readUpTo, Json.tagged?_tag]
    simp [hfields, htarget, harguments]
  | .new ctor arguments members, fuel, hp, h => by
    obtain ⟨n, rfl⟩ := Json.exists_fuel h
    simp only [Expr.toJson, constructionToJson, Json.tag, Json.depth, Json.depthFields] at h
    -- the construction is a record of its own, and its reader takes a unit too
    obtain ⟨k, rfl⟩ : ∃ k, n = k + 1 := ⟨n - 1, by omega⟩
    have harguments := Expr.list?_toJson arguments k hp (by omega)
    have hconstruction := readConstruction_toJson ctor members harguments
    rw [Expr.toJson, Expr.readUpTo, Json.tagged?_tag]
    simp [hconstruction]
  | .memberInit ctor arguments members bindings, fuel, hp, h => by
    obtain ⟨n, rfl⟩ := Json.exists_fuel h
    simp only [Expr.isPortable, Bool.and_eq_true] at hp
    simp only [Expr.toJson, constructionToJson, Json.tag, Json.depth, Json.depthFields] at h
    obtain ⟨k, rfl⟩ : ∃ k, n = k + 1 := ⟨n - 1, by omega⟩
    have harguments := Expr.list?_toJson arguments k hp.1 (by omega)
    have hconstruction := readConstruction_toJson ctor members harguments
    have hbindings := Binding.list?_toJson bindings (k + 1) hp.2 (by omega)
    rw [Expr.toJson, Expr.readUpTo, Json.tagged?_tag]
    simp [hconstruction, hbindings]
  | .lambda parameters body, fuel, hp, h => by
    obtain ⟨n, rfl⟩ := Json.exists_fuel h
    simp only [Expr.toJson, Json.tag, Json.depth, Json.depthFields] at h
    obtain ⟨k, rfl⟩ : ∃ k, n = k + 1 := ⟨n - 1, by omega⟩
    have hbody := Expr.readUpTo_toJson body k hp (by omega)
    rw [Expr.toJson, Expr.readUpTo, Json.tagged?_tag]
    simp [readLambda, hbody]
  | .conditional test ifTrue ifFalse type, fuel, hp, h => by
    obtain ⟨n, rfl⟩ := Json.exists_fuel h
    simp only [Expr.isPortable, Bool.and_eq_true] at hp
    simp only [Expr.toJson, Json.tag, Json.depth, Json.depthFields] at h
    have htest := Expr.readUpTo_toJson test n hp.1.1 (by omega)
    have hifTrue := Expr.readUpTo_toJson ifTrue n hp.1.2 (by omega)
    have hifFalse := Expr.readUpTo_toJson ifFalse n hp.2 (by omega)
    rw [Expr.toJson, Expr.readUpTo, Json.tagged?_tag]
    simp [htest, hifTrue, hifFalse]
  | .reference source, fuel, hp, h => by
    obtain ⟨n, rfl⟩ := Json.exists_fuel h
    have hsource := Source.ofJson?_toJson hp
    rw [Expr.toJson, Expr.readUpTo, Json.tagged?_tag]
    simp [hsource]
  | .subQuery model type, fuel, hp, h => by
    obtain ⟨n, rfl⟩ := Json.exists_fuel h
    simp only [Expr.toJson, Json.tag, Json.depth, Json.depthFields] at h
    have hmodel := Model.readUpTo_toJson model n hp (by omega)
    rw [Expr.toJson, Expr.readUpTo, Json.tagged?_tag]
    simp [hmodel]

theorem Expr.list?_toJson : (es : List Expr) → (fuel : Nat) → Expr.arePortable es →
    Json.depthList (Expr.toJsonList es) ≤ fuel →
    Json.list? (Expr.readUpTo fuel) (.array (Expr.toJsonList es)) = some es
  | [], _, _, _ => rfl
  | e :: es, fuel, hp, h => by
    simp only [Expr.arePortable, Bool.and_eq_true] at hp
    simp only [Expr.toJsonList, Json.depthList] at h
    exact Json.list?_cons (Expr.readUpTo_toJson e fuel hp.1 (by omega))
      (Expr.list?_toJson es fuel hp.2 (by omega))

theorem Binding.readUpTo_toJson : (b : Binding) → (fuel : Nat) → b.isPortable →
    b.toJson.depth ≤ fuel → Binding.readUpTo fuel b.toJson = some b
  | .assignment member value, fuel, hp, h => by
    obtain ⟨n, rfl⟩ := Json.exists_fuel h
    simp only [Binding.toJson, Json.tag, Json.depth, Json.depthFields] at h
    have hvalue := Expr.readUpTo_toJson value n hp (by omega)
    rw [Binding.toJson, Binding.readUpTo, Json.tagged?_tag]
    simp [hvalue]
  | .list member initializers, fuel, hp, h => by
    obtain ⟨n, rfl⟩ := Json.exists_fuel h
    simp only [Binding.toJson, Json.tag, Json.depth, Json.depthFields] at h
    have hinitializers := ElementInit.list?_toJson initializers n hp (by omega)
    rw [Binding.toJson, Binding.readUpTo, Json.tagged?_tag]
    simp [hinitializers]
  | .nested member bindings, fuel, hp, h => by
    obtain ⟨n, rfl⟩ := Json.exists_fuel h
    simp only [Binding.toJson, Json.tag, Json.depth, Json.depthFields] at h
    have hbindings := Binding.list?_toJson bindings n hp (by omega)
    rw [Binding.toJson, Binding.readUpTo, Json.tagged?_tag]
    simp [hbindings]

theorem Binding.list?_toJson : (bs : List Binding) → (fuel : Nat) → Binding.arePortable bs →
    Json.depthList (Binding.toJsonList bs) ≤ fuel →
    Json.list? (Binding.readUpTo fuel) (.array (Binding.toJsonList bs)) = some bs
  | [], _, _, _ => rfl
  | b :: bs, fuel, hp, h => by
    simp only [Binding.arePortable, Bool.and_eq_true] at hp
    simp only [Binding.toJsonList, Json.depthList] at h
    exact Json.list?_cons (Binding.readUpTo_toJson b fuel hp.1 (by omega))
      (Binding.list?_toJson bs fuel hp.2 (by omega))

theorem ElementInit.readUpTo_toJson : (i : ElementInit) → (fuel : Nat) → i.isPortable →
    i.toJson.depth ≤ fuel → ElementInit.readUpTo fuel i.toJson = some i
  | ⟨addMethod, arguments⟩, fuel, hp, h => by
    obtain ⟨n, rfl⟩ := Json.exists_fuel h
    simp only [ElementInit.toJson, Json.depth, Json.depthFields] at h
    have harguments := Expr.list?_toJson arguments n hp (by omega)
    rw [ElementInit.toJson, ElementInit.readUpTo]
    simp [harguments]

theorem ElementInit.list?_toJson : (is : List ElementInit) → (fuel : Nat) →
    ElementInit.arePortable is → Json.depthList (ElementInit.toJsonList is) ≤ fuel →
    Json.list? (ElementInit.readUpTo fuel) (.array (ElementInit.toJsonList is)) = some is
  | [], _, _, _ => rfl
  | i :: is, fuel, hp, h => by
    simp only [ElementInit.arePortable, Bool.and_eq_true] at hp
    simp only [ElementInit.toJsonList, Json.depthList] at h
    exact Json.list?_cons (ElementInit.readUpTo_toJson i fuel hp.1 (by omega))
      (ElementInit.list?_toJson is fuel hp.2 (by omega))

theorem FromClause.readUpTo_toJson : (c : FromClause) → (fuel : Nat) → c.isPortable →
    c.toJson.depth ≤ fuel → FromClause.readUpTo fuel c.toJson = some c
  | ⟨source, expression⟩, fuel, hp, h => by
    obtain ⟨n, rfl⟩ := Json.exists_fuel h
    simp only [FromClause.isPortable, Bool.and_eq_true] at hp
    simp only [FromClause.toJson, Json.depth, Json.depthFields] at h
    have hsource := Source.ofJson?_toJson hp.1
    have hexpression := Expr.readUpTo_toJson expression n hp.2 (by omega)
    rw [FromClause.toJson, FromClause.readUpTo]
    simp [hsource, hexpression]

theorem SortKey.readUpTo_toJson : (k : SortKey) → (fuel : Nat) → k.isPortable →
    k.toJson.depth ≤ fuel → SortKey.readUpTo fuel k.toJson = some k
  | ⟨expression, direction⟩, fuel, hp, h => by
    obtain ⟨n, rfl⟩ := Json.exists_fuel h
    simp only [SortKey.toJson, Json.depth, Json.depthFields] at h
    have hexpression := Expr.readUpTo_toJson expression n hp (by omega)
    rw [SortKey.toJson, SortKey.readUpTo]
    simp [hexpression]

theorem SortKey.list?_toJson : (ks : List SortKey) → (fuel : Nat) → SortKey.arePortable ks →
    Json.depthList (SortKey.toJsonList ks) ≤ fuel →
    Json.list? (SortKey.readUpTo fuel) (.array (SortKey.toJsonList ks)) = some ks
  | [], _, _, _ => rfl
  | k :: ks, fuel, hp, h => by
    simp only [SortKey.arePortable, Bool.and_eq_true] at hp
    simp only [SortKey.toJsonList, Json.depthList] at h
    exact Json.list?_cons (SortKey.readUpTo_toJson k fuel hp.1 (by omega))
      (SortKey.list?_toJson ks fuel hp.2 (by omega))

theorem BodyClause.readUpTo_toJson : (c : BodyClause) → (fuel : Nat) → c.isPortable →
    c.toJson.depth ≤ fuel → BodyClause.readUpTo fuel c.toJson = some c
  | .additionalFrom clause, fuel, hp, h => by
    obtain ⟨n, rfl⟩ := Json.exists_fuel h
    simp only [BodyClause.toJson, Json.tag, Json.depth, Json.depthFields] at h
    have hclause := FromClause.readUpTo_toJson clause n hp (by omega)
    rw [BodyClause.toJson, BodyClause.readUpTo, Json.tagged?_tag]
    simp [hclause]
  | .filter predicate, fuel, hp, h => by
    obtain ⟨n, rfl⟩ := Json.exists_fuel h
    simp only [BodyClause.toJson, Json.tag, Json.depth, Json.depthFields] at h
    have hpredicate := Expr.readUpTo_toJson predicate n hp (by omega)
    rw [BodyClause.toJson, BodyClause.readUpTo, Json.tagged?_tag]
    simp [hpredicate]
  | .orderBy orderings, fuel, hp, h => by
    obtain ⟨n, rfl⟩ := Json.exists_fuel h
    simp only [BodyClause.toJson, Json.tag, Json.depth, Json.depthFields] at h
    have horderings := SortKey.list?_toJson orderings n hp (by omega)
    rw [BodyClause.toJson, BodyClause.readUpTo, Json.tagged?_tag]
    simp [horderings]

theorem BodyClause.list?_toJson : (cs : List BodyClause) → (fuel : Nat) →
    BodyClause.arePortable cs → Json.depthList (BodyClause.toJsonList cs) ≤ fuel →
    Json.list? (BodyClause.readUpTo fuel) (.array (BodyClause.toJsonList cs)) = some cs
  | [], _, _, _ => rfl
  | c :: cs, fuel, hp, h => by
    simp only [BodyClause.arePortable, Bool.and_eq_true] at hp
    simp only [BodyClause.toJsonList, Json.depthList] at h
    exact Json.list?_cons (BodyClause.readUpTo_toJson c fuel hp.1 (by omega))
      (BodyClause.list?_toJson cs fuel hp.2 (by omega))

theorem ResultOperator.readUpTo_toJson : (o : ResultOperator) → (fuel : Nat) → o.isPortable →
    o.toJson.depth ≤ fuel → ResultOperator.readUpTo fuel o.toJson = some o
  | .aggregate a, fuel, _, h => by
    obtain ⟨n, rfl⟩ := Json.exists_fuel h
    cases a <;> rfl
  | .pick which orDefault, fuel, _, h => by
    obtain ⟨n, rfl⟩ := Json.exists_fuel h
    cases which <;> rfl
  | .distinct, fuel, _, h => by
    obtain ⟨n, rfl⟩ := Json.exists_fuel h
    rfl
  | .take count, fuel, hp, h => by
    obtain ⟨n, rfl⟩ := Json.exists_fuel h
    simp only [ResultOperator.toJson, Json.tag, Json.depth, Json.depthFields] at h
    have hcount := Expr.readUpTo_toJson count n hp (by omega)
    rw [ResultOperator.toJson, ResultOperator.readUpTo, Json.tagged?_tag]
    simp [hcount]
  | .skip count, fuel, hp, h => by
    obtain ⟨n, rfl⟩ := Json.exists_fuel h
    simp only [ResultOperator.toJson, Json.tag, Json.depth, Json.depthFields] at h
    have hcount := Expr.readUpTo_toJson count n hp (by omega)
    rw [ResultOperator.toJson, ResultOperator.readUpTo, Json.tagged?_tag]
    simp [hcount]
  | .contains item, fuel, hp, h => by
    obtain ⟨n, rfl⟩ := Json.exists_fuel h
    simp only [ResultOperator.toJson, Json.tag, Json.depth, Json.depthFields] at h
    have hitem := Expr.readUpTo_toJson item n hp (by omega)
    rw [ResultOperator.toJson, ResultOperator.readUpTo, Json.tagged?_tag]
    simp [hitem]
  | .group itemName key element, fuel, hp, h => by
    obtain ⟨n, rfl⟩ := Json.exists_fuel h
    simp only [ResultOperator.isPortable, Bool.and_eq_true] at hp
    simp only [ResultOperator.toJson, Json.tag, Json.depth, Json.depthFields] at h
    have hkey := Expr.readUpTo_toJson key n hp.1 (by omega)
    have helement := Expr.readUpTo_toJson element n hp.2 (by omega)
    rw [ResultOperator.toJson, ResultOperator.readUpTo, Json.tagged?_tag]
    simp [hkey, helement]

theorem ResultOperator.list?_toJson : (os : List ResultOperator) → (fuel : Nat) →
    ResultOperator.arePortable os → Json.depthList (ResultOperator.toJsonList os) ≤ fuel →
    Json.list? (ResultOperator.readUpTo fuel) (.array (ResultOperator.toJsonList os)) = some os
  | [], _, _, _ => rfl
  | o :: os, fuel, hp, h => by
    simp only [ResultOperator.arePortable, Bool.and_eq_true] at hp
    simp only [ResultOperator.toJsonList, Json.depthList] at h
    exact Json.list?_cons (ResultOperator.readUpTo_toJson o fuel hp.1 (by omega))
      (ResultOperator.list?_toJson os fuel hp.2 (by omega))

theorem Model.readUpTo_toJson : (m : Model) → (fuel : Nat) → m.isPortable →
    m.toJson.depth ≤ fuel → Model.readUpTo fuel m.toJson = some m
  | ⟨mainFrom, body, selector, operators⟩, fuel, hp, h => by
    obtain ⟨n, rfl⟩ := Json.exists_fuel h
    simp only [Model.isPortable, Bool.and_eq_true] at hp
    obtain ⟨⟨⟨hpMain, hpBody⟩, hpSelector⟩, hpOperators⟩ := hp
    simp only [Model.toJson, Json.depth, Json.depthFields] at h
    have hmain := FromClause.readUpTo_toJson mainFrom n hpMain (by omega)
    have hbody := BodyClause.list?_toJson body n hpBody (by omega)
    have hselector := Expr.readUpTo_toJson selector n hpSelector (by omega)
    have hoperators := ResultOperator.list?_toJson operators n hpOperators (by omega)
    rw [Model.toJson, Model.readUpTo]
    simp [hmain, hbody, hselector, hoperators]

end

theorem Expr.ofJson?_toJson {e : Expr} (hp : e.isPortable) : Expr.ofJson? e.toJson = some e :=
  Expr.readUpTo_toJson e _ hp (Nat.le_refl _)

theorem Model.ofJson?_toJson {m : Model} (hp : m.isPortable) : Model.ofJson? m.toJson = some m :=
  Model.readUpTo_toJson m _ hp (Nat.le_refl _)

/-! ### The JSON form as a whole -/

/-- What `write` makes of a value with the property, `read` turns into that value again; so `write`
keeps such values apart. -/
structure ReadsBack {α : Type} (write : α → Json) (read : Json → Option α) (p : α → Prop) :
    Prop where
  read_write : ∀ a, p a → read (write a) = some a
  injOn : Set.InjOn write {a | p a}

theorem ReadsBack.of_read_write {α : Type} {write : α → Json} {read : Json → Option α}
    {p : α → Prop} (h : ∀ a, p a → read (write a) = some a) : ReadsBack write read p where
  read_write := h
  injOn := by
    intro a ha b hb hab
    have hsome : some a = some b := by
      rw [← h a ha, hab, h b hb]
    exact Option.some.inj hsome

/-- Types, values, expressions and models are read back from their JSON forms exactly as they were,
every name, type and source included, and no two have the same form.  Of values, expressions and
models this needs that JSON can carry their doubles and identities. -/
theorem toJson_readsBack :
    ReadsBack Ty.toJson Ty.ofJson? (fun _ => True) ∧
      ReadsBack Value.toJson Value.ofJson? (·.isPortable) ∧
      ReadsBack Expr.toJson Expr.ofJson? (·.isPortable) ∧
      ReadsBack Model.toJson Model.ofJson? (·.isPortable) := by
  refine ⟨.of_read_write ?_, .of_read_write ?_, .of_read_write ?_, .of_read_write ?_⟩
  · intro t _
    exact t.ofJson?_toJson
  · intro v hp
    exact Value.ofJson?_toJson hp
  · intro e hp
    exact Expr.ofJson?_toJson hp
  · intro m hp
    exact Model.ofJson?_toJson hp

namespace Sample

/-- The first three kitchens, by another name, if some cook has `0.5 > -0`. -/
def halfFull : Model :=
  ⟨⟨⟨0, "k", kitchen⟩, kitchens⟩,
    [.filter (.subQuery
      ⟨⟨⟨18446744073709551615, "c", cook⟩, cooks⟩,
        [.filter (.binary .greaterThan (.constant (.double ⟨0x3FE0000000000000⟩) .double)
          (.constant (.double ⟨0x8000000000000000⟩) .double) .boolean)],
        .reference ⟨18446744073709551615, "c", cook⟩, [.aggregate .any]⟩ .boolean)],
    .reference ⟨0, "kitchen", .object⟩, [.take (.constant (.int32 3) .int32)]⟩

end Sample

theorem toJson_readsBack_halfFull :
    Sample.halfFull.isPortable ∧
      Model.ofJson? Sample.halfFull.toJson = some Sample.halfFull := by
  have hp : Sample.halfFull.isPortable := by decide
  exact ⟨hp, toJson_readsBack.2.2.2.read_write Sample.halfFull hp⟩

end Comprehension
