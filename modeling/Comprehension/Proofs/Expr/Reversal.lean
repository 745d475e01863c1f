import Comprehension.Proofs.Expr.Accessor
import Comprehension.Sample

/-! # Reading back is undone by substitution

An expression over query sources is read back from an item by putting in the ways from the item to
its sources.  Putting the item in for the parameter of these ways gives the expression back, once
conversions are taken away and members of fresh constructions are read (`Expr.plain`).  References
count as the same when their sources have the same identity, whatever the items are called
(`Expr.anonymous`).

The argument goes along one way (`Way.plain`): where an accessor gives the plain form of a node, the
accessor of each of its parts gives the plain form of the part.  This needs an item that initialises
no member twice, because a member is read from where it was initialised first. -/
namespace Comprehension

/-! ### Initialised members -/

/-- The node initialises no member twice. -/
def Expr.NodeInitialisesOnce : Expr → Prop
  | .new _ _ (some ms) => Different ms
  | .memberInit _ _ _ bs => Different (Binding.assignedMembers bs)
  | _ => True

/-- No node of the expression initialises a member twice. -/
def Expr.InitialisesOnce (e : Expr) : Prop := ∀ x ∈ e.subterms, x.NodeInitialisesOnce

instance (e : Expr) : Decidable e.NodeInitialisesOnce :=
  match e with
  | .new _ _ (some ms) => inferInstanceAs (Decidable (Different ms))
  | .memberInit _ _ _ bs => inferInstanceAs (Decidable (Different (Binding.assignedMembers bs)))
  | .constant .. | .parameter .. | .staticMember .. | .memberAccess .. | .unary .. | .binary ..
  | .staticCall .. | .methodCall .. | .new _ _ none | .lambda .. | .conditional .. | .reference ..
  | .subQuery .. => inferInstanceAs (Decidable True)

instance (e : Expr) : Decidable e.InitialisesOnce :=
  inferInstanceAs (Decidable (∀ x ∈ e.subterms, x.NodeInitialisesOnce))

@[simp] theorem Member.asProperty_asProperty (m : Member) :
    m.asProperty.asProperty = m.asProperty := by
  obtain ⟨declaringType, name, type, kind⟩ := m
  cases kind <;> rfl

/-- A member and its property refer to the same thing. -/
theorem Member.refersToSame_asProperty (f m : Member) :
    f.refersToSame m.asProperty = f.refersToSame m := by
  rw [Member.refersToSame, Member.refersToSame, Member.asProperty_asProperty]

theorem Member.refersToSame_self (m : Member) : m.refersToSame m := beq_self_eq_true _

theorem initialArgument?_of_mem {m : Member} {x : Expr} : {ms : List Member} → {as : List Expr} →
    Different ms → (m, x) ∈ ms.zip as → initialArgument? m.asProperty ms as = some x
  | [], _, _, h => by simp at h
  | _ :: _, [], _, h => by simp at h
  | f :: ms, a :: as, hdifferent, h => by
    obtain ⟨hfirst, hrest⟩ := List.pairwise_cons.mp hdifferent
    rw [initialArgument?, Member.refersToSame_asProperty]
    rcases List.mem_cons.mp h with heq | h
    · cases heq
      rw [if_pos (Member.refersToSame_self m)]
      rfl
    · have hother : f.refersToSame m = false := hfirst m (List.of_mem_zip h).1
      rw [hother]
      exact initialArgument?_of_mem hrest h

theorem assignedValue?_of_mem {m : Member} {x : Expr} : (bs : List Binding) →
    Different (Binding.assignedMembers bs) → (m, x) ∈ Binding.assignments bs →
    assignedValue? m.asProperty bs = some x
  | [], _, h => by cases h
  | .assignment f e :: bs, hdifferent, h => by
    obtain ⟨hfirst, hrest⟩ := List.pairwise_cons.mp hdifferent
    rw [assignedValue?, Member.refersToSame_asProperty]
    rcases List.mem_cons.mp h with heq | h
    · cases heq
      rw [if_pos (Member.refersToSame_self m)]
    · have hmember : m ∈ Binding.assignedMembers bs :=
        List.mem_filterMap.mpr ⟨_, Binding.mem_assignments.mp h, rfl⟩
      have hother : f.refersToSame m = false := hfirst m hmember
      rw [hother]
      exact assignedValue?_of_mem bs hrest h
  | .list f is :: bs, hdifferent, h => assignedValue?_of_mem bs hdifferent h
  | .nested f bs' :: bs, hdifferent, h => assignedValue?_of_mem bs hdifferent h

/-- A part that the search enters through a member is what the member was initialised with. -/
theorem Expr.initialValue?_of_entry {e x : Expr} {m : Member} (h : (some m, x) ∈ e.entries)
    (honce : e.NodeInitialisesOnce) : e.initialValue? m.asProperty = some x := by
  cases e with
  | unary op y t =>
    rw [Expr.entries] at h
    split at h <;> simp at h
  | new c as ms =>
    cases ms with
    | none => cases h
    | some ms =>
      obtain ⟨y, hy, heq⟩ := List.mem_map.mp h
      cases heq
      exact initialArgument?_of_mem honce hy
  | memberInit c as ms bs =>
    obtain ⟨y, hy, heq⟩ := List.mem_map.mp h
    cases heq
    exact assignedValue?_of_mem bs honce hy
  | _ => cases h

/-! ### Plain forms -/

namespace Expr

/-- The operand of a conversion. -/
def converted? : Expr → Option Expr
  | .unary op e _ => if op.isConversion then some e else none
  | _ => none

/-- Takes away a conversion at the top. -/
def eraseTop (e : Expr) : Expr := e.converted?.getD e

/-- Takes away all conversions. -/
def eraseConversions (e : Expr) : Expr := e.rewrite (fun _ => none) eraseTop

/-- The expression without conversions and without reads of members of fresh constructions. -/
def plain (e : Expr) : Expr := e.eraseConversions.collapse

theorem eraseConversions_eq (e : Expr) :
    e.eraseConversions = (e.mapChildren eraseConversions).eraseTop := rewrite_eq _ _ e

theorem converted?_mapChildren (f : Expr → Expr) (e : Expr) :
    (e.mapChildren f).converted? = e.converted?.map f := by
  cases e with
  | unary op x t =>
    rw [mapChildren, converted?, converted?]
    split <;> rfl
  | _ => rfl

theorem mem_children_of_converted? {e x : Expr} (h : e.converted? = some x) : x ∈ e.children := by
  cases e with
  | unary op y t =>
    rw [converted?] at h
    split at h
    · exact List.mem_singleton.mpr (Option.some.inj h).symm
    · cases h
  | _ => cases h

/-- A conversion has the plain form of its operand. -/
theorem plain_of_converted? {e x : Expr} (h : e.converted? = some x) : e.plain = x.plain := by
  rw [plain, eraseConversions_eq, eraseTop, converted?_mapChildren, h]
  rfl

/-- Every other node is made plain in its parts, and then a member is read if there is one to
read. -/
theorem plain_of_not_converted {e : Expr} (h : e.converted? = none) :
    e.plain = (e.mapChildren plain).collapseTop := by
  rw [plain, eraseConversions_eq, eraseTop, converted?_mapChildren, h, Option.map_none,
    Option.getD_none, collapse_eq, mapChildren_mapChildren]
  rfl

/-! ### References by identity -/

/-- Forgets what the items of a source are called, and their type. -/
def anonymousTop : Expr → Expr
  | .reference s => .reference ⟨s.id, "", .primitive .void⟩
  | e => e

/-- The expression with references that know the identity of their source, and nothing else. -/
def anonymous (e : Expr) : Expr := e.rewrite (fun _ => none) anonymousTop

theorem anonymous_eq {e : Expr} (h : ∀ s, e ≠ .reference s) :
    e.anonymous = e.mapChildren anonymous := by
  have heq : e.anonymous = (e.mapChildren anonymous).anonymousTop := rewrite_eq _ _ e
  rw [heq]
  cases e with
  | reference s => exact absurd rfl (h s)
  | _ => rfl

theorem anonymous_initialValue? {e v : Expr} {m : Member} (h : e.initialValue? m = some v) :
    e.anonymous.initialValue? m = some v.anonymous := by
  have hother : ∀ s, e ≠ .reference s := by
    rintro s rfl
    cases h
  rw [anonymous_eq hother, initialValue?_mapChildren, h]
  rfl

theorem anonymous_initialValue?_none {e : Expr} {m : Member} (h : e.initialValue? m = none) :
    e.anonymous.initialValue? m = none := by
  by_cases href : ∃ s, e = .reference s
  · obtain ⟨s, rfl⟩ := href
    rfl
  · rw [anonymous_eq fun s hs => href ⟨s, hs⟩, initialValue?_mapChildren, h]
    rfl

/-- Which member is read does not depend on what sources are called. -/
theorem anonymous_collapseTop (e : Expr) : e.collapseTop.anonymous = e.anonymous.collapseTop := by
  cases e with
  | memberAccess target member =>
    have haccess : (Expr.memberAccess target member).anonymous =
        .memberAccess target.anonymous member := anonymous_eq fun s hs => by cases hs
    rw [haccess, collapseTop, collapseTop]
    cases h : target.initialValue? member with
    | some v => simp only [anonymous_initialValue? h]
    | none => simp only [anonymous_initialValue?_none h, haccess]
  | _ => rfl

/-- The plain form of a node that is neither a conversion nor a reference, up to what sources are
called: it is made of the plain forms of the parts. -/
theorem anonymous_plain {f : Expr → Expr} {e : Expr} (hconverted : e.converted? = none)
    (hother : ∀ s, e ≠ .reference s) :
    (e.mapChildren f).plain.anonymous =
      (e.mapChildren fun c => (f c).plain.anonymous).collapseTop := by
  have hplain : (e.mapChildren f).plain = (e.mapChildren (plain ∘ f)).collapseTop := by
    rw [plain_of_not_converted (by rw [converted?_mapChildren, hconverted]; rfl),
      mapChildren_mapChildren]
  rw [hplain, anonymous_collapseTop,
    anonymous_eq fun s hs => hother s ((mapChildren_eq_reference _ _).mp hs),
    mapChildren_mapChildren]
  rfl

end Expr

/-! ### Along a way -/

section Substituted

variable {item : Expr} {input : Parameter}

/-- **One step of a way.**  Where an accessor gives the plain form of a node when the item is put
in, the accessor of a part gives the plain form of the part. -/
theorem Expr.plain_enter {e x accessor inner : Expr} {via : Option Member}
    (hentry : (via, x) ∈ e.entries) (honce : e.NodeInitialisesOnce)
    (henter : accessor.enter via x = .ok inner)
    (haccessor : (Expr.replace (.parameter input) item accessor).plain = e.plain) :
    (Expr.replace (.parameter input) item inner).plain = x.plain := by
  cases via with
  | none =>
    cases henter
    have hconverted : e.converted? = some x := by
      cases e with
      | unary op y t =>
        rw [Expr.entries] at hentry
        rw [Expr.converted?]
        split at hentry
        · rename_i hconversion
          simp only [List.mem_singleton, Prod.mk.injEq, true_and] at hentry
          rw [if_pos hconversion, hentry]
        · cases hentry
      | new c as ms =>
        cases ms with
        | none => cases hentry
        | some ms => simp [Expr.entries] at hentry
      | memberInit c as ms bs => simp [Expr.entries] at hentry
      | _ => cases hentry
    have hinner : Expr.replace (.parameter input) item (accessor.convert x.type) =
        (Expr.replace (.parameter input) item accessor).convert x.type := rfl
    have herased : ((Expr.replace (.parameter input) item accessor).convert x.type).plain =
        (Expr.replace (.parameter input) item accessor).plain := Expr.plain_of_converted? rfl
    rw [hinner, herased, haccessor, Expr.plain_of_converted? hconverted]
  | some m =>
    have hinner : inner = .memberAccess accessor m.asProperty := Expr.eq_of_accessMember henter
    have hvalue := Expr.initialValue?_of_entry hentry honce
    -- The node is a construction, so its plain form initialises the member with the plain part.
    have hnode : e.converted? = none ∧ (e.mapChildren Expr.plain).collapseTop =
        e.mapChildren Expr.plain := by
      cases e with
      | new _ _ _ | memberInit _ _ _ _ => exact ⟨rfl, rfl⟩
      | _ => cases hvalue
    have hread : e.plain.initialValue? m.asProperty = some x.plain := by
      rw [Expr.plain_of_not_converted hnode.1, hnode.2, Expr.initialValue?_mapChildren, hvalue]
      rfl
    have haccess : Expr.replace (.parameter input) item (.memberAccess accessor m.asProperty) =
        .memberAccess (Expr.replace (.parameter input) item accessor) m.asProperty := rfl
    have hplain : (Expr.memberAccess (Expr.replace (.parameter input) item accessor)
        m.asProperty).plain = (Expr.memberAccess e.plain m.asProperty).collapseTop := by
      rw [Expr.plain_of_not_converted rfl, ← haccessor]
      rfl
    rw [hinner, haccess, hplain, Expr.collapseTop, hread]

/-- **A way gives its part**, when the item is put in and all is made plain. -/
theorem Way.plain {e accessor part w : Expr} (h : Way e accessor part w) (honce : e.InitialisesOnce)
    (haccessor : (Expr.replace (.parameter input) item accessor).plain = e.plain) :
    (Expr.replace (.parameter input) item w).plain = part.plain := by
  induction h with
  | here e accessor => exact haccessor
  | into entry enters _ ih =>
    obtain ⟨hnode, hchildren⟩ := Expr.forall_subterms_iff.mp honce
    exact ih (hchildren _ (Expr.mem_children_of_entries entry))
      (Expr.plain_enter entry hnode enters haccessor)

/-- A way refers to nothing that its accessor did not refer to. -/
theorem Way.references {e accessor part w : Expr} (h : Way e accessor part w) :
    w.references = accessor.references := by
  induction h with
  | here e accessor => rfl
  | @into e x accessor inner part w via entry enters _ ih =>
    rw [ih]
    cases via with
    | none =>
      cases enters
      rfl
    | some m =>
      rw [Expr.eq_of_accessMember enters]
      rfl

/-- The way that is put in for a reference. -/
theorem exists_way_of_readBack {s : Source} {w : Expr}
    (h : (Expr.reference s).rewriteM (readBack? item input) pure = .ok w) :
    ∃ s' : Source, s'.id = s.id ∧ Way item (.parameter input) (.reference s') w := by
  obtain ⟨rest, hways⟩ := rewriteM_readBack?_reference.mp h
  obtain ⟨part, hpart, hway⟩ :=
    Expr.way_of_mem_waysTo (hways ▸ List.mem_cons_self .. : .ok w ∈ Expr.waysTo _ item _)
  cases part with
  | reference s' => exact ⟨s', by simpa [Expr.equal, Source.same] using hpart, hway⟩
  | _ => simp [Expr.equal] at hpart

/-- What was read back refers to no source. -/
theorem references_readBack {e e' : Expr}
    (h : e.rewriteM (readBack? item input) pure = .ok e') : ∀ s, s ∉ e'.references := by
  induction e using Expr.induction_on_children generalizing e' with
  | node e ih =>
    intro s hs
    by_cases href : ∃ s, e = .reference s
    · obtain ⟨r, rfl⟩ := href
      obtain ⟨s', -, hway⟩ := exists_way_of_readBack h
      rw [hway.references] at hs
      cases hs
    · have hother : ∀ s, e ≠ .reference s := fun s hs => href ⟨s, hs⟩
      obtain ⟨hparts, rfl⟩ := (rewriteM_readBack?_other hother).mp h
      obtain heq | ⟨c, hc, hcs⟩ := Expr.mem_references_mapChildren.mp hs
      · exact hother s heq
      · obtain ⟨d, hd⟩ := hparts c hc
        obtain ⟨-, rfl⟩ := Expr.rewriteM_eq_rewritten.mp hd
        exact ih c hc hd s hcs

/-- **Putting the item in undoes reading back**, in an expression that does not mention the
parameter. -/
theorem plain_readBack {e e' : Expr} (honce : item.InitialisesOnce)
    (hclear : ∀ x ∈ e.subterms, x ≠ .parameter input ∧ input ∉ x.declared)
    (h : e.rewriteM (readBack? item input) pure = .ok e') :
    (Expr.replace (.parameter input) item e').plain.anonymous = e.plain.anonymous := by
  induction e using Expr.induction_on_children generalizing e' with
  | node e ih =>
    obtain ⟨⟨hne, hdeclared⟩, hbelow⟩ := Expr.forall_subterms_iff.mp hclear
    by_cases href : ∃ s, e = .reference s
    · obtain ⟨s, rfl⟩ := href
      obtain ⟨s', hid, hway⟩ := exists_way_of_readBack h
      have hitem := hway.plain honce (congrArg Expr.plain (Expr.replace_parameter_self input item))
      have hsame : (Expr.reference s').plain.anonymous = (Expr.reference s).plain.anonymous := by
        show Expr.reference ⟨s'.id, "", _⟩ = Expr.reference ⟨s.id, "", _⟩
        rw [hid]
      rw [hitem, hsame]
    · have hother : ∀ s, e ≠ .reference s := fun s hs => href ⟨s, hs⟩
      obtain ⟨hparts, rfl⟩ := (rewriteM_readBack?_other hother).mp h
      -- The node does not mention the parameter, so the item goes into its parts.
      have hput : Expr.replace (.parameter input) item
          (e.mapChildren (Expr.rewritten (readBack? item input) pure)) =
          e.mapChildren (Expr.replace (.parameter input) item ∘
            Expr.rewritten (readBack? item input) pure) := by
        rcases Expr.replace_cases input item
            (e.mapChildren (Expr.rewritten (readBack? item input) pure)) with
          ⟨heq, -⟩ | ⟨hd, -⟩ | ⟨-, -, heq⟩
        · exact absurd ((Expr.mapChildren_eq_parameter _ _).mp heq) hne
        · rw [Expr.declared_mapChildren] at hd
          exact absurd hd hdeclared
        · rw [heq, Expr.mapChildren_mapChildren]
      have hpart : ∀ c ∈ e.children, (Expr.replace (.parameter input) item
          (c.rewritten (readBack? item input) pure)).plain.anonymous = c.plain.anonymous := by
        intro c hc
        obtain ⟨d, hd⟩ := hparts c hc
        obtain ⟨-, rfl⟩ := Expr.rewriteM_eq_rewritten.mp hd
        exact ih c hc (hbelow c hc) hd
      rw [hput]
      cases hconverted : e.converted? with
      | some x =>
        have hx := hpart x (Expr.mem_children_of_converted? hconverted)
        rw [Expr.plain_of_converted? hconverted, ← hx,
          Expr.plain_of_converted? (by rw [Expr.converted?_mapChildren, hconverted]; rfl)]
        rfl
      | none =>
        have hself := Expr.anonymous_plain (f := id) hconverted hother
        rw [Expr.mapChildren_id] at hself
        rw [Expr.anonymous_plain hconverted hother, hself]
        exact congrArg Expr.collapseTop (Expr.mapChildren_congr hpart)

end Substituted

/-- A parameter that is neither free nor declared does not occur. -/
theorem Expr.ne_parameter_of_not_free {e : Expr} {p : Parameter} (hfree : p ∉ e.freeParameters)
    (hdeclared : ∀ x ∈ e.subterms, p ∉ x.declared) : ∀ x ∈ e.subterms, x ≠ .parameter p := by
  induction e using Expr.induction_on_children with
  | node e ih =>
    obtain ⟨hnode, hbelow⟩ := Expr.forall_subterms_iff.mp hdeclared
    refine Expr.forall_subterms_iff.mpr ⟨?_, fun c hc => ih c hc ?_ (hbelow c hc)⟩
    · exact fun heq => hfree (Expr.mem_freeParameters_iff.mpr ⟨hnode, Or.inl heq⟩)
    · exact fun hc' => hfree (Expr.mem_freeParameters_iff.mpr ⟨hnode, Or.inr ⟨c, hc, hc'⟩⟩)

/-- **Reading back is undone by substitution.**  When an expression that does not mention the
parameter can be read back from an item that initialises no member twice, the function that results
refers to no source, and putting the item in for its parameter gives the expression, up to
conversions, reads of fresh constructions and the names of sources. -/
theorem reverseResolve_undone {item resolved : Expr} {l : Lambda} (honce : item.InitialisesOnce)
    (hfree : ⟨"input", item.type⟩ ∉ resolved.freeParameters)
    (hdeclared : ∀ x ∈ resolved.subterms, ⟨"input", item.type⟩ ∉ x.declared)
    (h : reverseResolve item resolved = .ok l) :
    l.parameters = [⟨"input", item.type⟩] ∧ l.body.references = [] ∧
      (Expr.replace (.parameter ⟨"input", item.type⟩) item l.body).plain.anonymous =
        resolved.plain.anonymous := by
  obtain ⟨hbody, hparameters⟩ := reverseResolve_eq_ok.mp h
  have hclear : ∀ x ∈ resolved.subterms,
      x ≠ .parameter ⟨"input", item.type⟩ ∧ ⟨"input", item.type⟩ ∉ x.declared :=
    fun x hx => ⟨Expr.ne_parameter_of_not_free hfree hdeclared x hx, hdeclared x hx⟩
  refine ⟨hparameters, ?_, plain_readBack honce hclear hbody⟩
  exact List.eq_nil_iff_forall_not_mem.mpr (references_readBack hbody)

namespace Sample

/-- Cooks with one of their assistants. -/
def team : Ty :=
  .classType (ClassType.ofName "Team"
    |>.withProperty "Cook" cook
    |>.withProperty "Assistant" assistant)

/-- `(Team)new Team(Cook = [c], Assistant = (Assistant)[a])` -/
def packed : Expr :=
  .unary .convert
    (.new ⟨team, [cook, assistant]⟩
      [.reference ⟨0, "c", cook⟩,
        .unary .convertChecked (.reference ⟨1, "a", assistant⟩) assistant]
      (some [⟨"Team", "Cook", cook, .getter⟩, ⟨"Team", "Assistant", assistant, .getter⟩]))
    team

/-- `x => [cook].Age == [a].Age`, where the cook is the one called `c` in a team. -/
def sameAge : Expr :=
  .lambda [⟨"x", cook⟩]
    (.binary .equal
      (.memberAccess (.reference ⟨0, "cook", cook⟩) ⟨"Cook", "Age", .int32, .property⟩)
      (.memberAccess (.reference ⟨1, "a", assistant⟩) ⟨"Assistant", "Age", .int32, .property⟩)
      .boolean)

end Sample

theorem reverseResolve_undone_sameAge :
    Sample.packed.InitialisesOnce ∧ (⟨"input", Sample.team⟩ ∉ Sample.sameAge.freeParameters) ∧
      (∀ x ∈ Sample.sameAge.subterms, ⟨"input", Sample.team⟩ ∉ x.declared) ∧
      ∃ l, reverseResolve Sample.packed Sample.sameAge = .ok l ∧
        l.parameters = [⟨"input", Sample.team⟩] ∧ l.body.references = [] ∧
        (Expr.replace (.parameter ⟨"input", Sample.team⟩) Sample.packed l.body).plain.anonymous =
          Sample.sameAge.plain.anonymous := by
  have honce : Sample.packed.InitialisesOnce := by decide +kernel
  have hfree : ⟨"input", Sample.team⟩ ∉ Sample.sameAge.freeParameters := by decide +kernel
  have hdeclared : ∀ x ∈ Sample.sameAge.subterms, ⟨"input", Sample.team⟩ ∉ x.declared := by
    decide +kernel
  obtain ⟨l, hl⟩ : ∃ l, reverseResolve Sample.packed Sample.sameAge = .ok l := ⟨_, rfl⟩
  exact ⟨honce, hfree, hdeclared, l, hl, reverseResolve_undone honce hfree hdeclared hl⟩

end Comprehension
