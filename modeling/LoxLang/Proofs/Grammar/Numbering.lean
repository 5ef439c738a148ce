import LoxLang.Proofs.Grammar.Derivation
import LoxLang.Proofs.Tree.Shape

/-!
# Places and names of derived trees

The places of a derived tree have different numbers, and all of them lie
between the two numbers of the derivation.  A tree that is derived from
tokens in which no word of the language stands for a name has the shape that
its walks rely on.
-/

namespace LoxLang
namespace Grammar

/-! ## Numbers -/

/-- Different numbers from `n` up to `m`. -/
structure Numbered
    (n : Nat) (ids : List Nat) (m : Nat) : Prop where
  le : n ≤ m
  nodup : ids.Nodup
  bounds : ∀ id ∈ ids, n ≤ id ∧ id < m

namespace Numbered

variable {n k m : Nat} {ids others : List Nat}

protected theorem nil : Numbered n [] n :=
  ⟨Nat.le_refl n, .nil, by simp⟩

protected theorem single : Numbered n [n] (n + 1) :=
  ⟨Nat.le_succ n, by simp, by simp⟩

protected theorem append
    (hids : Numbered n ids k) (hothers : Numbered k others m) :
    Numbered n (ids ++ others) m where
  le := Nat.le_trans hids.le hothers.le
  nodup := by
    refine List.nodup_append.mpr ⟨hids.nodup, hothers.nodup, ?_⟩
    intro id hid other hother heq
    have hbefore : id < k := (hids.bounds id hid).2
    have hbehind : k ≤ other := (hothers.bounds other hother).1
    omega
  bounds id hid := by
    have hle := hids.le
    have hle' := hothers.le
    cases List.mem_append.mp hid with
    | inl h =>
        have hbounds := hids.bounds id h
        omega
    | inr h =>
        have hbounds := hothers.bounds id h
        omega

theorem swap (h : Numbered n (ids ++ others) m) :
    Numbered n (others ++ ids) m where
  le := h.le
  nodup := List.perm_append_comm.nodup h.nodup
  bounds id hid :=
    h.bounds id (List.perm_append_comm.mem_iff.mp hid)

/-- The number in front of the others need not be used. -/
theorem skip (h : Numbered (n + 1) ids m) : Numbered n ids m where
  le := Nat.le_of_succ_le h.le
  nodup := h.nodup
  bounds id hid := by
    have hbounds := h.bounds id hid
    omega

end Numbered

theorem Connective.places_join
    (connective : Connective) (left right : Expr) (line : Nat) :
    (connective.join left line right).places = left.places ++ right.places := by
  cases connective <;> rfl

mutual

theorem Assignment.numbered :
    Assignment ts n e m → Numbered n e.places m
  | .plain h => h.numbered
  | .toName _ _ h => h.numbered.skip.append .single
  | .toProperty hobject _ _ _ h => hobject.numbered.append h.numbered

theorem Tiered.numbered : Tiered tier ts n e m → Numbered n e.places m
  | .operand h => h.numbered
  | .join hleft _ hright => by
      rw [Connective.places_join]
      exact hleft.numbered.append hright.numbered

theorem Operand.numbered : Operand tier ts n e m → Numbered n e.places m
  | .ofUnary h => h.numbered
  | .ofFactor h => h.numbered
  | .ofTerm h => h.numbered
  | .ofComparison h => h.numbered
  | .ofEquality h => h.numbered
  | .ofConjunction h => h.numbered

theorem Unary.numbered : Unary ts n e m → Numbered n e.places m
  | .ofCall h => h.numbered
  | .sign _ h => h.numbered

theorem Call.numbered : Call ts n e m → Numbered n e.places m
  | .ofPrimary h => h.numbered
  | .applyNothing h _ _ => by
      simpa [Expr.places, Expr.placesAll] using h.numbered
  | .apply h _ harguments _ _ => h.numbered.append harguments.numbered
  | .property h _ _ => h.numbered

theorem Arguments.numbered :
    Arguments ts n es m → Numbered n (Expr.placesAll es) m
  | .last h => by simpa [Expr.placesAll] using h.numbered
  | .more h _ hmore => h.numbered.append hmore.numbered

theorem Primary.numbered : Primary ts n e m → Numbered n e.places m
  | .literal _ => .nil
  | .name _ => .single
  | .this _ => .single
  | .super _ _ _ => .single
  | .group _ h _ => h.numbered

end

theorem Variable.numbered : Variable ts n s m → Numbered n s.places m
  | .bare _ _ _ => .nil
  | .initialized _ _ _ h _ => h.numbered

theorem numbered_ret {line : Nat} (h : MaybeExpr ts n value m) :
    Numbered n (Stmt.ret line value).places m := by
  cases h with
  | absent => exact .nil
  | present h => exact h.numbered

/-- The places of the clauses of a `for` loop and of its body. -/
theorem numbered_forLoop
    {initializer : Option Stmt} {test increment : Option Expr} {body : Stmt}
    {n k₁ k₂ k₃ m : PlaceId} {ts₁ ts₂ ts₃ : List Token}
    (hinitializer : ForStart ts₁ n initializer k₁)
    (htest : MaybeExpr ts₂ k₁ test k₂)
    (hincrement : MaybeExpr ts₃ k₂ increment k₃)
    (hbody : Numbered k₃ body.places m) :
    Numbered n
      (forScope (.loop (forCondition test) (forRound body increment))
        initializer).places m := by
  have hround : Numbered k₂ (forRound body increment).places m := by
    cases hincrement with
    | absent => exact hbody
    | present h =>
        have hplaces := (h.numbered.append hbody).swap
        simpa [forRound, Stmt.places, Stmt.placesAll] using hplaces
  have hloop :
      Numbered k₁
        (Stmt.loop (forCondition test) (forRound body increment)).places m := by
    cases htest with
    | absent => exact hround
    | present h => exact h.numbered.append hround
  cases hinitializer with
  | nothing => exact hloop
  | varDecl h =>
      have hplaces := h.numbered.append hloop
      simpa [forScope, Stmt.places, Stmt.placesAll] using hplaces
  | expression h =>
      have hplaces := h.numbered.append hloop
      simpa [forScope, Stmt.places, Stmt.placesAll] using hplaces

mutual

theorem Statement.numbered :
    Statement hangs ts n s m → Numbered n s.places m
  | .expression h _ => h.numbered
  | .print _ h _ => h.numbered
  | .ret _ h _ => numbered_ret h
  | .block _ h _ => h.numbered
  | .loop _ _ h _ hbody => h.numbered.append hbody.numbered
  | .ifThen _ _ h _ hthen => h.numbered.append hthen.numbered
  | .ifThenElse _ _ h _ hthen _ helse =>
      h.numbered.append (hthen.numbered.append helse.numbered)
  | .forLoop _ _ hinitializer htest _ hincrement _ hbody =>
      numbered_forLoop hinitializer htest hincrement hbody.numbered

theorem Declaration.numbered : Declaration ts n s m → Numbered n s.places m
  | .baseClass _ _ _ h _ => h.numbered
  | .derivedClass _ _ _ _ _ h _ => Numbered.single.append h.numbered
  | .function _ h => h.numbered
  | .varDecl h => h.numbered
  | .statement h => h.numbered

theorem Declarations.numbered :
    Declarations ts n ss m → Numbered n (Stmt.placesAll ss) m
  | .nil => .nil
  | .cons h hrest => h.numbered.append hrest.numbered

theorem Callable.numbered : Callable ts n decl m → Numbered n decl.places m
  | .mk _ _ _ _ _ h _ => h.numbered

theorem Methods.numbered :
    Methods ts n decls m → Numbered n (FunctionDecl.placesAll decls) m
  | .nil => .nil
  | .cons h hrest => h.numbered.append hrest.numbered

end

/-! ## Names -/

/-- Every name among the tokens is an ordinary one. -/
def Named (tokens : List Token) : Prop :=
  ∀ token ∈ tokens, token.kind = .identifier → Ordinary token.lexeme

@[simp]
theorem named_cons {token : Token} {tokens : List Token} :
    Named (token :: tokens) ↔
      (token.kind = .identifier → Ordinary token.lexeme) ∧ Named tokens := by
  simp [Named]

@[simp]
theorem named_append {tokens others : List Token} :
    Named (tokens ++ others) ↔ Named tokens ∧ Named others := by
  simp [Named, or_imp, forall_and]

theorem Connective.shaped_join
    (connective : Connective) (left right : Expr) (line : Nat) :
    (connective.join left line right).Shaped ↔
      left.Shaped ∧ right.Shaped := by
  cases connective <;> rfl

mutual

theorem Assignment.shaped :
    Assignment ts n e m → Named ts → e.Shaped
  | .plain h, hts => h.shaped hts
  | .toName hname _ h, hts => by
      simp only [named_cons] at hts
      exact ⟨hts.1 hname, h.shaped hts.2.2⟩
  | .toProperty hobject _ _ _ h, hts => by
      simp only [named_append, named_cons] at hts
      exact ⟨hobject.shaped hts.1, h.shaped hts.2.2.2.2⟩

theorem Tiered.shaped : Tiered tier ts n e m → Named ts → e.Shaped
  | .operand h, hts => h.shaped hts
  | .join hleft _ hright, hts => by
      simp only [named_append, named_cons] at hts
      rw [Connective.shaped_join]
      exact ⟨hleft.shaped hts.1, hright.shaped hts.2.2⟩

theorem Operand.shaped : Operand tier ts n e m → Named ts → e.Shaped
  | .ofUnary h, hts => h.shaped hts
  | .ofFactor h, hts => h.shaped hts
  | .ofTerm h, hts => h.shaped hts
  | .ofComparison h, hts => h.shaped hts
  | .ofEquality h, hts => h.shaped hts
  | .ofConjunction h, hts => h.shaped hts

theorem Unary.shaped : Unary ts n e m → Named ts → e.Shaped
  | .ofCall h, hts => h.shaped hts
  | .sign _ h, hts => h.shaped (named_cons.mp hts).2

theorem Call.shaped : Call ts n e m → Named ts → e.Shaped
  | .ofPrimary h, hts => h.shaped hts
  | .applyNothing h _ _, hts => ⟨h.shaped (named_append.mp hts).1, trivial⟩
  | .apply h _ harguments _ _, hts => by
      simp only [named_append, named_cons] at hts
      exact ⟨h.shaped hts.1, harguments.shaped hts.2.2.1⟩
  | .property h _ _, hts => h.shaped (named_append.mp hts).1

theorem Arguments.shaped :
    Arguments ts n es m → Named ts → Expr.ShapedAll es
  | .last h, hts => ⟨h.shaped hts, trivial⟩
  | .more h _ hmore, hts => by
      simp only [named_append, named_cons] at hts
      exact ⟨h.shaped hts.1, hmore.shaped hts.2.2⟩

theorem Primary.shaped : Primary ts n e m → Named ts → e.Shaped
  | .literal _, _ => trivial
  | .name _, _ => trivial
  | .this _, _ => trivial
  | .super _ _ _, _ => trivial
  | .group _ h _, hts => by
      simp only [named_append, named_cons] at hts
      exact h.shaped hts.2.1

end

theorem MaybeExpr.shaped :
    MaybeExpr ts n (some e) m → Named ts → e.Shaped
  | .present h, hts => h.shaped hts

theorem Variable.shaped : Variable ts n s m → Named ts → s.Shaped
  | .bare _ hname _, hts => by
      simp only [named_cons] at hts
      exact hts.2.1 hname
  | .initialized _ hname _ h _, hts => by
      simp only [named_append, named_cons] at hts
      exact ⟨hts.2.1 hname, h.shaped hts.2.2.2.1⟩

theorem Parameters.ordinary {names : List Ident} :
    Parameters ts names → Named ts → ∀ name ∈ names, Ordinary name.name
  | .last hname, hts => by
      simp only [named_cons] at hts
      simpa [Token.ident] using hts.1 hname
  | .more hname _ hmore, hts => by
      simp only [named_cons] at hts
      intro name hmem
      cases hmem with
      | head => exact hts.1 hname
      | tail _ hmem => exact hmore.ordinary hts.2.2 name hmem

theorem MaybeParameters.ordinary {names : List Ident}
    (h : MaybeParameters ts names) (hts : Named ts) :
    ∀ name ∈ names, Ordinary name.name := by
  cases h with
  | absent => simp
  | present h _ => exact h.ordinary hts

theorem shaped_forRound
    {body : Stmt} {increment : Option Expr} {ts : List Token} {n m : PlaceId}
    (hbody : body.Shaped ∧ body.declares = [])
    (hincrement : MaybeExpr ts n increment m) (hts : Named ts) :
    (forRound body increment).Shaped ∧
      (forRound body increment).declares = [] := by
  cases hincrement with
  | absent => exact hbody
  | present h => exact ⟨⟨hbody.1, h.shaped hts, trivial⟩, rfl⟩

theorem shaped_forScope
    {loop : Stmt} {initializer : Option Stmt} {ts : List Token}
    {n m : PlaceId} (hloop : loop.Shaped ∧ loop.declares = [])
    (hinitializer : ForStart ts n initializer m) (hts : Named ts) :
    (forScope loop initializer).Shaped ∧
      (forScope loop initializer).declares = [] := by
  cases hinitializer with
  | nothing => exact hloop
  | varDecl h => exact ⟨⟨h.shaped hts, hloop.1, trivial⟩, rfl⟩
  | expression h =>
      exact ⟨⟨h.shaped (named_append.mp hts).1, hloop.1, trivial⟩, rfl⟩

theorem shaped_forLoop
    {test : Option Expr} {round : Stmt} {ts : List Token} {n m : PlaceId}
    (htest : MaybeExpr ts n test m) (hts : Named ts)
    (hround : round.Shaped ∧ round.declares = []) :
    (Stmt.loop (forCondition test) round).Shaped ∧
      (Stmt.loop (forCondition test) round).declares = [] := by
  refine ⟨⟨?_, hround⟩, hround.2⟩
  cases htest with
  | absent => trivial
  | present h => exact h.shaped hts

theorem shaped_ret
    {line : Nat} {value : Option Expr} {ts : List Token} {n m : PlaceId}
    (h : MaybeExpr ts n value m) (hts : Named ts) :
    (Stmt.ret line value).Shaped := by
  cases h with
  | absent => trivial
  | present h => exact h.shaped hts

mutual

theorem Statement.shaped :
    Statement hangs ts n s m → Named ts → s.Shaped ∧ s.declares = []
  | .expression h _, hts => ⟨h.shaped (named_append.mp hts).1, rfl⟩
  | .print _ h _, hts => by
      simp only [named_append, named_cons] at hts
      exact ⟨h.shaped hts.2.1, rfl⟩
  | .ret _ h _, hts => by
      simp only [named_append, named_cons] at hts
      exact ⟨shaped_ret h hts.2.1, rfl⟩
  | .block _ h _, hts => by
      simp only [named_append, named_cons] at hts
      exact ⟨h.shaped hts.2.1, rfl⟩
  | .loop _ _ h _ hbody, hts => by
      simp only [named_append, named_cons] at hts
      have hbody := hbody.shaped hts.2.2.2.2
      exact ⟨⟨h.shaped hts.2.2.1, hbody⟩, hbody.2⟩
  | .ifThen _ _ h _ hthen, hts => by
      simp only [named_append, named_cons] at hts
      have hthen := hthen.shaped hts.2.2.2.2
      exact ⟨⟨h.shaped hts.2.2.1, hthen⟩, hthen.2⟩
  | .ifThenElse _ _ h _ hthen _ helse, hts => by
      simp only [named_append, named_cons] at hts
      have hthen := hthen.shaped hts.2.2.2.2.1
      have helse := helse.shaped hts.2.2.2.2.2.2
      refine ⟨⟨h.shaped hts.2.2.1, hthen, helse⟩, ?_⟩
      simp [Stmt.declares, hthen.2, helse.2]
  | .forLoop _ _ hinitializer htest _ hincrement _ hbody, hts => by
      simp only [named_append, named_cons] at hts
      have hbody := hbody.shaped hts.2.2.2.2.2.2.2
      have hround := shaped_forRound hbody hincrement hts.2.2.2.2.2.1
      have hloop := shaped_forLoop htest hts.2.2.2.1 hround
      exact shaped_forScope hloop hinitializer hts.2.2.1

theorem Declaration.shaped : Declaration ts n s m → Named ts → s.Shaped
  | .baseClass _ hname _ h _, hts => by
      simp only [named_append, named_cons] at hts
      exact ⟨hts.2.1 hname, h.shaped hts.2.2.2.1⟩
  | .derivedClass _ hname _ _ _ h _, hts => by
      simp only [named_append, named_cons] at hts
      exact ⟨hts.2.1 hname, ⟨_, _, rfl⟩, h.shaped hts.2.2.2.2.2.1⟩
  | .function _ h, hts => h.shaped (named_cons.mp hts).2
  | .varDecl h, hts => h.shaped hts
  | .statement h, hts => (h.shaped hts).1

theorem Declarations.shaped :
    Declarations ts n ss m → Named ts → Stmt.ShapedAll ss
  | .nil, _ => trivial
  | .cons h hrest, hts => by
      simp only [named_append] at hts
      exact ⟨h.shaped hts.1, hrest.shaped hts.2⟩

theorem Callable.shaped :
    Callable ts n decl m → Named ts →
      Ordinary decl.name.name ∧ decl.Shaped
  | .mk hname _ hparams _ _ h _, hts => by
      simp only [named_append, named_cons] at hts
      exact ⟨hts.1 hname, hparams.ordinary hts.2.2.1,
        h.shaped hts.2.2.2.2.2.1⟩

theorem Methods.shaped :
    Methods ts n decls m → Named ts → FunctionDecl.ShapedAll decls
  | .nil, _ => trivial
  | .cons h hrest, hts => by
      simp only [named_append] at hts
      exact ⟨(h.shaped hts.1).2, hrest.shaped hts.2⟩

end

end Grammar
end LoxLang
