import LoxLang.Proofs.Grammar.Soundness

/-!
# What follows the grammar is read

The other direction: tokens that derive a tree are read into that tree,
whatever comes behind them, as long as it does not extend the derivation.
Each rule of the grammar becomes a lemma about readings, with a bound on the
depth that it needs; sixteen levels for each token are enough for all.
-/

namespace LoxLang
namespace Grammar

variable {previous token word superName dot stop other : Token}
variable {opening closing bodyOpening bodyClosing : Token}

/-! ## First tokens -/

/-- The token can start an expression. -/
def opensExpression : Token.Kind → Bool
  | .number _ | .string _ | .trueWord | .falseWord | .nilWord | .identifier
  | .thisWord | .superWord | .leftParen | .bang | .minus | .plus => true
  | _ => false

/-- The tokens start with one that can start an expression. -/
def OpensWith (tokens : List Token) : Prop :=
  ∃ token rest, tokens = token :: rest ∧ opensExpression token.kind = true

theorem OpensWith.append {tokens : List Token} (h : OpensWith tokens)
    (more : List Token) : OpensWith (tokens ++ more) := by
  obtain ⟨token, rest, rfl, hopens⟩ := h
  exact ⟨token, rest ++ more, rfl, hopens⟩

theorem opensWith_cons {tokens : List Token}
    {kind : Token.Kind} (hkind : token.kind = kind)
    (h : opensExpression kind = true) : OpensWith (token :: tokens) :=
  ⟨token, tokens, rfl, by rw [hkind, h]⟩

theorem OpensWith.avoids {tokens : List Token} (h : OpensWith tokens)
    {kind : Token.Kind} (hkind : opensExpression kind = false) :
    Avoids (· = kind) tokens := by
  obtain ⟨token, rest, rfl, hopens⟩ := h
  rw [avoids_cons]
  rintro rfl
  rw [hkind] at hopens
  cases hopens

theorem Denotes.opens (h : Denotes kind value) :
    opensExpression kind = true := by
  cases h <;> rfl

theorem Leads.opens (h : Leads kind op) : opensExpression kind = true := by
  cases h <;> rfl

theorem Primary.opensWith (h : Primary ts n e m) : OpensWith ts := by
  cases h with
  | literal h => exact ⟨_, _, rfl, h.opens⟩
  | name h => exact opensWith_cons h rfl
  | this h => exact opensWith_cons h rfl
  | super h _ _ => exact opensWith_cons h rfl
  | group h _ _ => exact opensWith_cons h rfl

mutual

theorem Assignment.opensWith : Assignment ts n e m → OpensWith ts
  | .plain h => h.opensWith
  | .toName h _ _ => opensWith_cons h rfl
  | .toProperty h _ _ _ _ => h.opensWith.append _

theorem Tiered.opensWith : Tiered tier ts n e m → OpensWith ts
  | .operand h => h.opensWith
  | .join h _ _ => h.opensWith.append _

theorem Operand.opensWith : Operand tier ts n e m → OpensWith ts
  | .ofUnary h => h.opensWith
  | .ofFactor h => h.opensWith
  | .ofTerm h => h.opensWith
  | .ofComparison h => h.opensWith
  | .ofEquality h => h.opensWith
  | .ofConjunction h => h.opensWith

theorem Unary.opensWith : Unary ts n e m → OpensWith ts
  | .ofCall h => h.opensWith
  | .sign h _ => ⟨_, _, rfl, h.opens⟩

theorem Call.opensWith : Call ts n e m → OpensWith ts
  | .ofPrimary h => h.opensWith
  | .applyNothing h _ _ => h.opensWith.append _
  | .apply h _ _ _ _ => h.opensWith.append _
  | .property h _ _ => h.opensWith.append _

end

theorem Arguments.opensWith (h : Arguments ts n es m) : OpensWith ts := by
  cases h with
  | last h => exact h.opensWith
  | more h _ _ => exact h.opensWith.append _

/-! ## Tokens that extend an expression -/

/-- The token makes an expression of the tiers below `limit` longer. -/
def Extends (limit : Nat) (kind : Token.Kind) : Prop :=
  kind = .leftParen ∨ kind = .dot ∨
    ∃ (tier : Tier) (sign : Connective),
      tier.level < limit ∧ tier.Joins kind sign

/-- The token makes an assignment longer. -/
def ExtendsAssignment (kind : Token.Kind) : Prop :=
  kind = .equal ∨ Extends topLevel kind

theorem Extends.mono (h : Extends limit kind) (hle : limit ≤ limit') :
    Extends limit' kind := by
  rcases h with h | h | ⟨tier, sign, hlt, hjoins⟩
  · exact .inl h
  · exact .inr (.inl h)
  · exact .inr (.inr ⟨tier, sign, by omega, hjoins⟩)

/-- A sign belongs to one tier only. -/
theorem Tier.Joins.tier_eq {tier other : Tier}
    (h : tier.Joins kind sign) (hother : other.Joins kind sign') :
    tier = other := by
  cases h <;> cases hother <;> rfl

theorem Tier.Joins.not_extends {tier : Tier}
    (h : tier.Joins kind sign) : ¬ Extends tier.level kind := by
  rintro (rfl | rfl | ⟨other, sign', hlt, hother⟩)
  · cases h
  · cases h
  · cases h.tier_eq hother
    omega

theorem Tier.Joins.ne_eof {tier : Tier} (h : tier.Joins kind sign) :
    kind ≠ .eof := by
  rintro rfl
  cases h

theorem not_extendsAssignment_semicolon : ¬ ExtendsAssignment .semicolon := by
  rintro (h | h | h | ⟨_, _, _, h⟩) <;> cases h

theorem not_extendsAssignment_rightParen :
    ¬ ExtendsAssignment .rightParen := by
  rintro (h | h | h | ⟨_, _, _, h⟩) <;> cases h

theorem not_extendsAssignment_comma : ¬ ExtendsAssignment .comma := by
  rintro (h | h | h | ⟨_, _, _, h⟩) <;> cases h

theorem not_extends_equal : ¬ Extends limit .equal := by
  rintro (h | h | ⟨_, _, _, h⟩) <;> cases h

/-! ## Readings of expressions -/

/-- In front of `rest`, the reading takes exactly `tokens` and gives `a`. -/
def Reads (reading : Parse α) (tokens : List Token) (n : PlaceId) (a : α)
    (m : PlaceId) (rest : List Token) : Prop :=
  ∀ previous, ∃ last,
    reading ⟨previous, tokens ++ rest, n⟩ = .ok a ⟨last, rest, m⟩

def ReadsPrimary (ts : List Token) (n : PlaceId) (e : Expr) (m : PlaceId) :
    Prop :=
  ∀ ⦃depth rest⦄, 16 * ts.length ≤ depth →
    Reads (primary depth) ts n e m rest

/-- The tokens are the start of a call, which may go on behind them. -/
def ReadsCall (ts : List Token) (n : PlaceId) (e : Expr) (m : PlaceId) :
    Prop :=
  ∀ ⦃depth rest⦄, 16 * ts.length + 1 ≤ depth → ∀ previous,
    ∃ left last, depth ≤ left + ts.length + 1 ∧
      call depth ⟨previous, ts ++ rest, n⟩ =
        callTail left e ⟨last, rest, m⟩

def ReadsUnary (ts : List Token) (n : PlaceId) (e : Expr) (m : PlaceId) :
    Prop :=
  ∀ ⦃depth rest⦄, 16 * ts.length + 3 ≤ depth → Avoids (Extends 0) rest →
    Reads (level depth 0) ts n e m rest

def ReadsOperand (tier : Tier) (ts : List Token) (n : PlaceId) (e : Expr)
    (m : PlaceId) : Prop :=
  ∀ ⦃depth rest⦄, 16 * ts.length + 3 + tier.level ≤ depth →
    Avoids (Extends tier.level) rest →
    Reads (level depth tier.level) ts n e m rest

/-- The tokens are the start of a tier, which may go on behind them. -/
def ReadsTiered (tier : Tier) (ts : List Token) (n : PlaceId) (e : Expr)
    (m : PlaceId) : Prop :=
  ∀ ⦃depth rest⦄, 16 * ts.length + 4 + tier.level ≤ depth →
    Avoids (Extends tier.level) rest → ∀ previous,
    ∃ left last, depth ≤ left + ts.length + 1 ∧
      level depth (tier.level + 1) ⟨previous, ts ++ rest, n⟩ =
        levelTail left tier.level e ⟨last, rest, m⟩

def ReadsAssignment (ts : List Token) (n : PlaceId) (e : Expr)
    (m : PlaceId) : Prop :=
  ∀ ⦃depth rest⦄, 16 * ts.length + 10 ≤ depth →
    Avoids ExtendsAssignment rest → Reads (assignment depth) ts n e m rest

def ReadsArguments (ts : List Token) (n : PlaceId) (es : List Expr)
    (m : PlaceId) : Prop :=
  ∀ ⦃depth count rest⦄, 16 * ts.length + 11 ≤ depth →
    count + es.length ≤ 255 →
    Avoids (fun kind => kind = .comma ∨ ExtendsAssignment kind) rest →
    Reads (arguments depth count) ts n es m rest

theorem exists_succ_of_pos {depth : Nat} (h : 0 < depth) :
    ∃ d, depth = d + 1 :=
  ⟨depth - 1, by omega⟩

/-! ### Primary expressions -/

private theorem constant_eq_some {rest : List Token}
    {n : PlaceId} {value : Literal}
    (h : constant? token.kind = some value) :
    constant ⟨previous, token :: rest, n⟩ =
      .ok (some value) ⟨token, rest, n⟩ := by
  have hne : token.kind ≠ .eof := by
    intro heof
    rw [heof] at h
    cases h
  rw [constant_eq_acceptWhere Cursor.ready_cons]
  exact acceptWhere_eq_some hne h

theorem constant_eq_none
    {rest : List Token} {n : PlaceId} {kind : Token.Kind}
    (htoken : token.kind = kind) (hkind : constant? kind = none) :
    constant ⟨previous, token :: rest, n⟩ =
      .ok none ⟨previous, token :: rest, n⟩ := by
  rw [constant_eq_acceptWhere Cursor.ready_cons]
  apply acceptWhere_eq_none
  rw [avoids_cons, htoken, hkind]
  simp

theorem ReadsPrimary.literal (h : Denotes token.kind value) :
    ReadsPrimary [token] n (.literal value) n := by
  intro depth rest hdepth previous
  simp only [List.length_cons, List.length_nil] at hdepth
  obtain ⟨depth, rfl⟩ := exists_succ_of_pos (by omega : 0 < depth)
  refine ⟨token, ?_⟩
  rw [primary, List.singleton_append,
    bind_eq (constant_eq_some (constant?_eq_some_iff.mpr h))]
  rfl

theorem ReadsPrimary.name (h : token.kind = .identifier) :
    ReadsPrimary [token] n (.read n token.ident) (n + 1) := by
  intro depth rest hdepth previous
  simp only [List.length_cons, List.length_nil] at hdepth
  obtain ⟨depth, rfl⟩ := exists_succ_of_pos (by omega : 0 < depth)
  refine ⟨token, ?_⟩
  rw [primary, List.singleton_append,
    bind_eq (constant_eq_none h rfl)]
  dsimp only
  rw [sees_then h (by simp), bind_eq (identifier_eq h)]
  rfl

theorem ReadsPrimary.this (h : word.kind = .thisWord) :
    ReadsPrimary [word] n (.this n word.line) (n + 1) := by
  intro depth rest hdepth previous
  simp only [List.length_cons, List.length_nil] at hdepth
  obtain ⟨depth, rfl⟩ := exists_succ_of_pos (by omega : 0 < depth)
  refine ⟨word, ?_⟩
  rw [primary, List.singleton_append,
    bind_eq (constant_eq_none h rfl)]
  dsimp only
  rw [sees_past h (by simp) (by simp), accept_then h (by simp)]
  rfl

theorem ReadsPrimary.super {name : Token} (h : word.kind = .superWord)
    (hdot : dot.kind = .dot) (hname : name.kind = .identifier) :
    ReadsPrimary [word, dot, name] n (.super n word.line name.ident)
      (n + 1) := by
  intro depth rest hdepth previous
  simp only [List.length_cons, List.length_nil] at hdepth
  obtain ⟨depth, rfl⟩ := exists_succ_of_pos (by omega : 0 < depth)
  refine ⟨name, ?_⟩
  simp only [List.cons_append, List.nil_append]
  rw [primary, bind_eq (constant_eq_none h rfl)]
  dsimp only
  rw [sees_past h (by simp) (by simp), accept_past h (by simp) (by simp),
    accept_then h (by simp)]
  change (expect .dot .superDot >>= _) _ = _
  rw [bind_eq (expect_eq (by simp) hdot), bind_eq (identifier_eq hname)]
  rfl

theorem ReadsPrimary.group (h : opening.kind = .leftParen)
    (hinner : ReadsAssignment ts n e m)
    (hclosing : closing.kind = .rightParen) :
    ReadsPrimary (opening :: (ts ++ [closing])) n (.group e) m := by
  intro depth rest hdepth previous
  simp only [List.length_cons, List.length_append, List.length_nil]
    at hdepth
  obtain ⟨depth, rfl⟩ := exists_succ_of_pos (by omega : 0 < depth)
  have hstop : Avoids ExtendsAssignment (closing :: rest) := by
    rw [avoids_cons, hclosing]
    exact not_extendsAssignment_rightParen
  obtain ⟨last, hlast⟩ := hinner (by omega : _ ≤ depth) hstop opening
  refine ⟨closing, ?_⟩
  simp only [List.cons_append, List.append_assoc, List.nil_append]
  rw [primary, bind_eq (constant_eq_none h rfl)]
  dsimp only
  rw [sees_past h (by simp) (by simp)]
  iterate 2 rw [accept_past h (by simp) (by simp)]
  rw [accept_then h (by simp), bind_eq hlast,
    bind_eq (expect_eq (by simp) hclosing)]
  rfl

/-! ### Calls -/

theorem callTail_stop {depth : Nat} {callee : Expr} {cursor : Cursor}
    (hdepth : 0 < depth) (h : Avoids (Extends 0) cursor.rest) :
    callTail depth callee cursor = .ok callee cursor := by
  obtain ⟨depth, rfl⟩ := exists_succ_of_pos hdepth
  have hparen : Avoids (· = .leftParen) cursor.rest :=
    h.mono fun _ hkind => .inl hkind
  have hdot : Avoids (· = .dot) cursor.rest :=
    h.mono fun _ hkind => .inr (.inl hkind)
  rw [callTail, accept_else hparen (by simp), accept_else hdot (by simp)]
  rfl

theorem ReadsCall.ofPrimary (h : ReadsPrimary ts n e m) :
    ReadsCall ts n e m := by
  intro depth rest hdepth previous
  obtain ⟨depth, rfl⟩ := exists_succ_of_pos (by omega : 0 < depth)
  obtain ⟨last, hlast⟩ :=
    h (by omega : 16 * ts.length ≤ depth) previous
  refine ⟨depth, last, by omega, ?_⟩
  rw [call, bind_eq hlast]

theorem ReadsCall.applyNothing (h : ReadsCall ts n callee m)
    (hopening : opening.kind = .leftParen)
    (hclosing : closing.kind = .rightParen) :
    ReadsCall (ts ++ [opening, closing]) n
      (.call callee closing.line []) m := by
  intro depth rest hdepth previous
  simp only [List.length_append, List.length_cons, List.length_nil]
    at hdepth ⊢
  obtain ⟨left, last, hleft, hcall⟩ :=
    h (by omega : 16 * ts.length + 1 ≤ depth) previous
  obtain ⟨left, rfl⟩ := exists_succ_of_pos (by omega : 0 < left)
  refine ⟨left, closing, by omega, ?_⟩
  simp only [List.append_assoc, List.cons_append, List.nil_append]
  rw [hcall, callTail, accept_then hopening (by simp),
    bind_eq (sees_eq_true (by simp) hclosing)]
  dsimp only
  rw [if_pos rfl, pure_bind, bind_eq (expect_eq (by simp) hclosing)]

theorem ReadsCall.apply (h : ReadsCall ts n callee k)
    (hopening : opening.kind = .leftParen) (hopens : OpensWith us)
    (harguments : ReadsArguments us k values m)
    (hlength : values.length ≤ 255)
    (hclosing : closing.kind = .rightParen) :
    ReadsCall (ts ++ opening :: (us ++ [closing])) n
      (.call callee closing.line values) m := by
  intro depth rest hdepth previous
  simp only [List.length_append, List.length_cons, List.length_nil]
    at hdepth ⊢
  obtain ⟨left, last, hleft, hcall⟩ :=
    h (by omega : 16 * ts.length + 1 ≤ depth) previous
  obtain ⟨left, rfl⟩ := exists_succ_of_pos (by omega : 0 < left)
  have hstop : Avoids
      (fun kind => kind = .comma ∨ ExtendsAssignment kind)
      (closing :: rest) := by
    rw [avoids_cons, hclosing]
    rintro (h | h)
    · cases h
    · exact not_extendsAssignment_rightParen h
  obtain ⟨last, hvalues⟩ :=
    harguments (by omega : 16 * us.length + 11 ≤ left)
      (by omega : 0 + values.length ≤ 255) hstop opening
  refine ⟨left, closing, by omega, ?_⟩
  have hnotClosed : sees .rightParen ⟨opening, us ++ closing :: rest, k⟩ =
      .ok false ⟨opening, us ++ closing :: rest, k⟩ :=
    sees_eq_false (by simp) ((hopens.append _).avoids rfl)
  simp only [List.append_assoc, List.cons_append, List.nil_append]
  rw [hcall, callTail, accept_then hopening (by simp), bind_eq hnotClosed]
  dsimp only
  rw [if_neg (by simp), bind_eq hvalues,
    bind_eq (expect_eq (by simp) hclosing)]

theorem ReadsCall.property {name : Token}
    (h : ReadsCall ts n object m)
    (hdot : dot.kind = .dot) (hname : name.kind = .identifier) :
    ReadsCall (ts ++ [dot, name]) n (.get object name.ident) m := by
  intro depth rest hdepth previous
  simp only [List.length_append, List.length_cons, List.length_nil]
    at hdepth ⊢
  obtain ⟨left, last, hleft, hcall⟩ :=
    h (by omega : 16 * ts.length + 1 ≤ depth) previous
  obtain ⟨left, rfl⟩ := exists_succ_of_pos (by omega : 0 < left)
  refine ⟨left, name, by omega, ?_⟩
  simp only [List.append_assoc, List.cons_append, List.nil_append]
  rw [hcall, callTail, accept_past hdot (by simp) (by simp),
    accept_then hdot (by simp), bind_eq (identifier_eq hname)]

/-! ### Signs -/

theorem ReadsUnary.ofCall (h : ReadsCall ts n e m) (hopens : OpensWith ts)
    (hlead : ∀ token ∈ ts.head?, unaryOp? token.kind = none) :
    ReadsUnary ts n e m := by
  intro depth rest hdepth hrest previous
  obtain ⟨depth, rfl⟩ := exists_succ_of_pos (by omega : 0 < depth)
  obtain ⟨left, last, hleft, hcall⟩ :=
    h (by omega : 16 * ts.length + 1 ≤ depth) previous
  refine ⟨last, ?_⟩
  have hnone : acceptWhere unaryOp? ⟨previous, ts ++ rest, n⟩ =
      .ok none ⟨previous, ts ++ rest, n⟩ := by
    apply acceptWhere_eq_none
    obtain ⟨token, tail, rfl, -⟩ := hopens
    rw [List.cons_append, avoids_cons, hlead token rfl]
    simp
  rw [level, bind_eq hnone]
  dsimp only
  rw [hcall, callTail_stop (by omega) hrest]

theorem ReadsUnary.sign {sign : Token} (hsign : Leads sign.kind op)
    (h : ReadsUnary ts n operand m) :
    ReadsUnary (sign :: ts) n (.unary op operand sign.line) m := by
  intro depth rest hdepth hrest previous
  simp only [List.length_cons] at hdepth
  obtain ⟨depth, rfl⟩ := exists_succ_of_pos (by omega : 0 < depth)
  obtain ⟨last, hlast⟩ :=
    h (by omega : 16 * ts.length + 3 ≤ depth) hrest sign
  have hne : sign.kind ≠ .eof := by
    intro heof
    rw [heof] at hsign
    cases hsign
  refine ⟨last, ?_⟩
  rw [level, List.cons_append,
    bind_eq (acceptWhere_eq_some hne (unaryOp?_eq_some_iff.mpr hsign))]
  change (level depth 0 >>= _) _ = _
  rw [bind_eq hlast]
  rfl

private theorem levelTail_stop {depth : Nat} {tier : Tier} {left : Expr}
    {cursor : Cursor} (hdepth : 0 < depth)
    (h : Avoids (Extends (tier.level + 1)) cursor.rest) :
    levelTail depth tier.level left cursor = .ok left cursor := by
  obtain ⟨depth, rfl⟩ := exists_succ_of_pos hdepth
  have hnone : acceptWhere (connective? (tier.level + 1)) cursor =
      .ok none cursor := by
    apply acceptWhere_eq_none
    intro token hmem hsome
    obtain ⟨sign, hsign⟩ := Option.isSome_iff_exists.mp hsome
    have hjoins := connective?_eq_some_iff.mp hsign
    exact h token hmem (.inr (.inr ⟨tier, sign, by omega, hjoins⟩))
  rw [levelTail, bind_eq hnone]
  rfl

theorem ReadsTiered.operand (h : ReadsOperand tier ts n e m) :
    ReadsTiered tier ts n e m := by
  intro depth rest hdepth hrest previous
  obtain ⟨depth, rfl⟩ := exists_succ_of_pos (by omega : 0 < depth)
  obtain ⟨last, hlast⟩ :=
    h (by omega : 16 * ts.length + 3 + tier.level ≤ depth) hrest previous
  refine ⟨depth, last, by omega, ?_⟩
  rw [level, bind_eq hlast]

theorem ReadsTiered.join (h : ReadsTiered tier ts n left k)
    (hsign : tier.Joins sign.kind connective)
    (hright : ReadsOperand tier us k right m) :
    ReadsTiered tier (ts ++ sign :: us) n
      (connective.join left sign.line right) m := by
  intro depth rest hdepth hrest previous
  simp only [List.length_append, List.length_cons] at hdepth ⊢
  have hnext : Avoids (Extends tier.level) (sign :: (us ++ rest)) := by
    rw [avoids_cons]
    exact hsign.not_extends
  obtain ⟨spare, last, hspare, hlevel⟩ :=
    h (by omega : 16 * ts.length + 4 + tier.level ≤ depth) hnext previous
  obtain ⟨spare, rfl⟩ := exists_succ_of_pos (by omega : 0 < spare)
  obtain ⟨last, hlast⟩ :=
    hright (by omega : 16 * us.length + 3 + tier.level ≤ spare) hrest sign
  refine ⟨spare, last, by omega, ?_⟩
  simp only [List.append_assoc, List.cons_append]
  rw [hlevel, levelTail, bind_eq (acceptWhere_eq_some hsign.ne_eof
    (connective?_eq_some_iff.mpr hsign))]
  change (level spare tier.level >>= _) _ = _
  rw [bind_eq hlast]

/-- A whole tier, in front of a token that does not extend it. -/
theorem ReadsTiered.reads (h : ReadsTiered tier ts n e m)
    {depth : Nat} {rest : List Token}
    (hdepth : 16 * ts.length + 4 + tier.level ≤ depth)
    (hrest : Avoids (Extends (tier.level + 1)) rest) :
    Reads (level depth (tier.level + 1)) ts n e m rest := by
  intro previous
  have hinner : Avoids (Extends tier.level) rest :=
    hrest.mono fun _ hkind => hkind.mono (Nat.le_succ _)
  obtain ⟨left, last, hleft, hlevel⟩ := h hdepth hinner previous
  exact ⟨last, by rw [hlevel, levelTail_stop (by omega) hrest]⟩

theorem ReadsOperand.ofUnary (h : ReadsUnary ts n e m) :
    ReadsOperand .factor ts n e m :=
  fun _ _ hdepth hrest => h hdepth hrest

/-- The operand of a tier is a whole tier of the next level below. -/
theorem ReadsOperand.ofTiered {tier below : Tier}
    (hlevel : tier.level = below.level + 1)
    (h : ReadsTiered below ts n e m) : ReadsOperand tier ts n e m := by
  intro depth rest hdepth hrest
  rw [hlevel] at hdepth hrest ⊢
  exact h.reads (by omega) hrest

/-- A call alone is an expression of the loosest tier. -/
theorem ReadsUnary.tiered (h : ReadsUnary ts n e m) :
    ReadsTiered .disjunction ts n e m := by
  have hfactor := ReadsTiered.operand (.ofUnary h)
  have hterm : ReadsTiered .term ts n e m :=
    .operand (.ofTiered rfl hfactor)
  have hcomparison : ReadsTiered .comparison ts n e m :=
    .operand (.ofTiered rfl hterm)
  have hequality : ReadsTiered .equality ts n e m :=
    .operand (.ofTiered rfl hcomparison)
  have hconjunction : ReadsTiered .conjunction ts n e m :=
    .operand (.ofTiered rfl hequality)
  exact .operand (.ofTiered rfl hconjunction)

/-! ### Assignments and arguments -/

theorem ReadsAssignment.plain (h : ReadsTiered .disjunction ts n e m) :
    ReadsAssignment ts n e m := by
  intro depth rest hdepth hrest previous
  obtain ⟨depth, rfl⟩ := exists_succ_of_pos (by omega : 0 < depth)
  have hlevel : Avoids (Extends (Tier.disjunction.level + 1)) rest :=
    hrest.mono fun _ hkind => .inr hkind
  have hequal : Avoids (· = .equal) rest :=
    hrest.mono fun _ hkind => .inl hkind
  obtain ⟨last, hlast⟩ :=
    h.reads (by simp only [Tier.level]; omega : _ ≤ depth) hlevel previous
  refine ⟨last, ?_⟩
  rw [assignment]
  change (level depth (Tier.disjunction.level + 1) >>= _) _ = _
  rw [bind_eq hlast, accept_else hequal (by simp)]
  rfl

/-- The target of an assignment is read like any other expression. -/
theorem reads_target (h : ReadsTiered .disjunction ts n target k)
    {depth : Nat} {sign : Token} (rest : List Token)
    (hdepth : 16 * ts.length + 9 ≤ depth) (hsign : sign.kind = .equal) :
    Reads (level depth topLevel) ts n target k (sign :: rest) := by
  have hrest : Avoids (Extends (Tier.disjunction.level + 1))
      (sign :: rest) := by
    rw [avoids_cons, hsign]
    exact not_extends_equal
  exact h.reads hdepth hrest

theorem ReadsAssignment.assign {sign : Token} {result : Expr}
    (htarget : ReadsTiered .disjunction ts n target k)
    (hsign : sign.kind = .equal) (h : ReadsAssignment us k value m)
    (hassign : ∀ last rest,
      assignTo target sign.line value ⟨last, rest, m⟩ =
        .ok result ⟨last, rest, l⟩) :
    ReadsAssignment (ts ++ sign :: us) n result l := by
  intro depth rest hdepth hrest previous
  simp only [List.length_append, List.length_cons] at hdepth
  obtain ⟨depth, rfl⟩ := exists_succ_of_pos (by omega : 0 < depth)
  obtain ⟨before, hbefore⟩ := reads_target htarget (us ++ rest)
    (by omega : 16 * ts.length + 9 ≤ depth) hsign previous
  obtain ⟨last, hlast⟩ :=
    h (by omega : 16 * us.length + 10 ≤ depth) hrest sign
  refine ⟨last, ?_⟩
  simp only [List.append_assoc, List.cons_append]
  rw [assignment, bind_eq hbefore, accept_then hsign (by simp)]
  change (assignment depth >>= _) _ = _
  rw [bind_eq hlast]
  exact hassign last rest

theorem ReadsArguments.last (h : ReadsAssignment ts n e m) :
    ReadsArguments ts n [e] m := by
  intro depth count rest hdepth hcount hrest previous
  obtain ⟨depth, rfl⟩ := exists_succ_of_pos (by omega : 0 < depth)
  have hstop : Avoids ExtendsAssignment rest :=
    hrest.mono fun _ hkind => .inr hkind
  have hcomma : Avoids (· = .comma) rest :=
    hrest.mono fun _ hkind => .inl hkind
  obtain ⟨last, hlast⟩ :=
    h (by omega : 16 * ts.length + 10 ≤ depth) hstop previous
  have hroom : ¬ maxArity ≤ count := by
    simp only [List.length_cons, List.length_nil] at hcount
    simp only [maxArity]
    omega
  refine ⟨last, ?_⟩
  rw [arguments, if_neg hroom, bind_eq hlast, accept_else hcomma (by simp)]
  rfl

theorem ReadsArguments.more (h : ReadsAssignment ts n e k)
    (hcomma : comma.kind = .comma) (hmore : ReadsArguments us k es m) :
    ReadsArguments (ts ++ comma :: us) n (e :: es) m := by
  intro depth count rest hdepth hcount hrest previous
  simp only [List.length_append, List.length_cons] at hdepth hcount
  obtain ⟨depth, rfl⟩ := exists_succ_of_pos (by omega : 0 < depth)
  have hstop : Avoids ExtendsAssignment (comma :: (us ++ rest)) := by
    rw [avoids_cons, hcomma]
    exact not_extendsAssignment_comma
  obtain ⟨before, hbefore⟩ :=
    h (by omega : 16 * ts.length + 10 ≤ depth) hstop previous
  obtain ⟨last, hlast⟩ :=
    hmore (by omega : 16 * us.length + 11 ≤ depth)
      (by omega : count + 1 + es.length ≤ 255) hrest comma
  have hroom : ¬ maxArity ≤ count := by
    simp only [maxArity]
    omega
  refine ⟨last, ?_⟩
  simp only [List.append_assoc, List.cons_append]
  rw [arguments, if_neg hroom, bind_eq hbefore, accept_then hcomma (by simp),
    bind_eq hlast]
  rfl

/-! ### All expressions -/

theorem Denotes.unaryOp?_eq_none (h : Denotes kind value) :
    unaryOp? kind = none := by
  cases h <;> rfl

theorem Primary.unaryOp?_head (h : Primary ts n e m) :
    ∀ token ∈ ts.head?, unaryOp? token.kind = none := by
  cases h with
  | literal h =>
      rintro _ ⟨⟩
      exact h.unaryOp?_eq_none
  | name h => rintro _ ⟨⟩; rw [h]; rfl
  | this h => rintro _ ⟨⟩; rw [h]; rfl
  | super h _ _ => rintro _ ⟨⟩; rw [h]; rfl
  | group h _ _ => rintro _ ⟨⟩; rw [h]; rfl

/-- No call starts with a sign. -/
theorem Call.unaryOp?_head :
    Call ts n e m → ∀ token ∈ ts.head?, unaryOp? token.kind = none
  | .ofPrimary h => h.unaryOp?_head
  | .applyNothing h _ _ => head_append h.opensWith h.unaryOp?_head
  | .apply h _ _ _ _ => head_append h.opensWith h.unaryOp?_head
  | .property h _ _ => head_append h.opensWith h.unaryOp?_head
where
  head_append {us vs : List Token} (hopens : OpensWith us)
      (h : ∀ token ∈ us.head?, unaryOp? token.kind = none) :
      ∀ token ∈ (us ++ vs).head?, unaryOp? token.kind = none := by
    obtain ⟨first, tail, rfl, -⟩ := hopens
    exact h

theorem ReadsAssignment.toName {name sign : Token}
    (hname : name.kind = .identifier) (hsign : sign.kind = .equal)
    (h : ReadsAssignment ts (n + 1) value m) :
    ReadsAssignment (name :: sign :: ts) n (.assign m name.ident value)
      (m + 1) := by
  have hcall : Call [name] n (.read n name.ident) (n + 1) :=
    .ofPrimary (.name hname)
  have htarget : ReadsUnary [name] n (.read n name.ident) (n + 1) :=
    .ofCall (.ofPrimary (.name hname)) hcall.opensWith hcall.unaryOp?_head
  exact .assign htarget.tiered hsign h fun _ _ => rfl

theorem ReadsAssignment.toProperty {name sign : Token}
    (hcall : Call us n object k) (hobject : ReadsCall us n object k)
    (hdot : dot.kind = .dot) (hname : name.kind = .identifier)
    (hsign : sign.kind = .equal) (h : ReadsAssignment ts k value m) :
    ReadsAssignment (us ++ dot :: name :: sign :: ts) n
      (.set object name.ident value) m := by
  have hget := Call.property hcall hdot hname
  have htarget : ReadsUnary (us ++ [dot, name]) n
      (.get object name.ident) k :=
    .ofCall (.property hobject hdot hname) hget.opensWith hget.unaryOp?_head
  simpa using ReadsAssignment.assign htarget.tiered hsign h fun _ _ => rfl

mutual

theorem Assignment.reads : Assignment ts n e m → ReadsAssignment ts n e m
  | .plain h => .plain h.reads
  | .toName hname hsign h => .toName hname hsign h.reads
  | .toProperty hobject hdot hname hsign h =>
      .toProperty hobject hobject.reads hdot hname hsign h.reads

theorem Tiered.reads : Tiered tier ts n e m → ReadsTiered tier ts n e m
  | .operand h => .operand h.reads
  | .join hleft hsign hright => .join hleft.reads hsign hright.reads

theorem Operand.reads : Operand tier ts n e m → ReadsOperand tier ts n e m
  | .ofUnary h => .ofUnary h.reads
  | .ofFactor h => .ofTiered rfl h.reads
  | .ofTerm h => .ofTiered rfl h.reads
  | .ofComparison h => .ofTiered rfl h.reads
  | .ofEquality h => .ofTiered rfl h.reads
  | .ofConjunction h => .ofTiered rfl h.reads

theorem Unary.reads : Unary ts n e m → ReadsUnary ts n e m
  | .ofCall h => .ofCall h.reads h.opensWith h.unaryOp?_head
  | .sign hsign h => .sign hsign h.reads

theorem Call.reads : Call ts n e m → ReadsCall ts n e m
  | .ofPrimary h => .ofPrimary h.reads
  | .applyNothing h hopening hclosing =>
      .applyNothing h.reads hopening hclosing
  | .apply h hopening harguments hlength hclosing =>
      .apply h.reads hopening harguments.opensWith harguments.reads hlength
        hclosing
  | .property h hdot hname => .property h.reads hdot hname

theorem Arguments.reads : Arguments ts n es m → ReadsArguments ts n es m
  | .last h => .last h.reads
  | .more h hcomma hmore => .more h.reads hcomma hmore.reads

theorem Primary.reads : Primary ts n e m → ReadsPrimary ts n e m
  | .literal h => .literal h
  | .name h => .name h
  | .this h => .this h
  | .super h hdot hname => .super h hdot hname
  | .group hopening h hclosing => .group hopening h.reads hclosing

end

/-! ## Parts of statements -/

theorem Assignment.reads_expression (h : Assignment ts n e m)
    {rest : List Token} (hrest : Avoids ExtendsAssignment rest) :
    Reads expression ts n e m rest := by
  intro previous
  apply h.reads _ hrest
  simp only [Cursor.depthBound, List.length_append]
  omega

theorem avoids_extendsAssignment {rest : List Token}
    {kind : Token.Kind} (htoken : token.kind = kind)
    (hkind : ¬ ExtendsAssignment kind) :
    Avoids ExtendsAssignment (token :: rest) := by
  rw [avoids_cons, htoken]
  exact hkind

theorem Assignment.reads_terminated {what : ParseError.Expectation}
    (h : Assignment ts n e m)
    (hstop : stop.kind = .semicolon) (rest : List Token) :
    Reads (terminated what) (ts ++ [stop]) n e m rest := by
  intro previous
  have hrest : Avoids ExtendsAssignment (stop :: rest) :=
    avoids_extendsAssignment hstop not_extendsAssignment_semicolon
  obtain ⟨last, hlast⟩ := h.reads_expression hrest previous
  refine ⟨stop, ?_⟩
  unfold terminated
  rw [List.append_assoc, List.singleton_append, bind_eq hlast,
    bind_eq (expect_eq (by simp) hstop)]
  rfl

theorem MaybeExpr.reads {kind : Token.Kind}
    (h : MaybeExpr ts n value m) (hstop : stop.kind = kind)
    (hkind : kind ≠ .eof) (hopens : opensExpression kind = false)
    (hextends : ¬ ExtendsAssignment kind) (rest : List Token) :
    Reads (unlessSees kind) ts n value m (stop :: rest) := by
  intro previous
  cases h with
  | absent =>
      refine ⟨previous, ?_⟩
      unfold unlessSees
      rw [List.nil_append, sees_then hstop hkind]
      rfl
  | present h =>
      obtain ⟨last, hlast⟩ := h.reads_expression
        (avoids_extendsAssignment hstop hextends) previous
      have hsees : sees kind ⟨previous, ts ++ stop :: rest, n⟩ =
          .ok false ⟨previous, ts ++ stop :: rest, n⟩ :=
        sees_eq_false hkind ((h.opensWith.append _).avoids hopens)
      refine ⟨last, ?_⟩
      unfold unlessSees
      rw [choose_else hsees, bind_eq hlast]
      rfl

theorem acceptVariable_eq_true {rest : List Token}
    {n : PlaceId} (h : word.kind = .varWord ∨ word.kind = .valWord) :
    acceptVariable ⟨previous, word :: rest, n⟩ =
      .ok true ⟨word, rest, n⟩ := by
  unfold acceptVariable
  rcases h with h | h
  · rw [accept_then h (by simp)]
    rfl
  · rw [accept_past h (by simp) (by simp), accept_eq_true (by simp) h]

theorem acceptVariable_eq_false {cursor : Cursor}
    (hvar : Avoids (· = .varWord) cursor.rest)
    (hval : Avoids (· = .valWord) cursor.rest) :
    acceptVariable cursor = .ok false cursor := by
  unfold acceptVariable
  rw [accept_else hvar (by simp), accept_eq_false (by simp) hval]

private theorem variableDecl_reads_bare {name : Token}
    (hname : name.kind = .identifier) (hstop : stop.kind = .semicolon)
    (n : PlaceId) (rest : List Token) :
    Reads variableDecl [name, stop] n (.var name.ident none) n rest := by
  intro previous
  refine ⟨stop, ?_⟩
  unfold variableDecl
  simp only [List.cons_append, List.nil_append]
  rw [bind_eq (identifier_eq hname), accept_past hstop (by simp) (by simp),
    pure_bind, bind_eq (expect_eq (by simp) hstop)]
  rfl

private theorem variableDecl_reads_initialized {name sign : Token}
    (hname : name.kind = .identifier) (hsign : sign.kind = .equal)
    (h : Assignment ts n e m) (hstop : stop.kind = .semicolon)
    (rest : List Token) :
    Reads variableDecl (name :: sign :: (ts ++ [stop])) n
      (.var name.ident (some e)) m rest := by
  intro previous
  have hrest : Avoids ExtendsAssignment (stop :: rest) :=
    avoids_extendsAssignment hstop not_extendsAssignment_semicolon
  obtain ⟨last, hlast⟩ := h.reads_expression hrest sign
  have hsome : (some <$> expression) ⟨sign, ts ++ stop :: rest, n⟩ =
      .ok (some e) ⟨last, stop :: rest, m⟩ := by
    change (expression >>= fun e => pure (some e)) _ = _
    rw [bind_eq hlast]
    rfl
  refine ⟨stop, ?_⟩
  unfold variableDecl
  simp only [List.cons_append, List.append_assoc, List.nil_append]
  rw [bind_eq (identifier_eq hname), accept_then hsign (by simp), bind_eq hsome,
    bind_eq (expect_eq (by simp) hstop)]
  rfl

/-- A variable declaration starts with its word, and the rest of it is
read behind that. -/
theorem Variable.reads (h : Variable ts n s m) (rest : List Token) :
    ∃ word us, ts = word :: us ∧
      (word.kind = .varWord ∨ word.kind = .valWord) ∧
      Reads variableDecl us n s m rest := by
  cases h with
  | bare hword hname hstop =>
      exact ⟨_, _, rfl, hword, variableDecl_reads_bare hname hstop _ rest⟩
  | initialized hword hname hsign h hstop =>
      exact ⟨_, _, rfl, hword,
        variableDecl_reads_initialized hname hsign h hstop rest⟩

theorem Assignment.reads_condition {what : ParseError.Expectation}
    (hopening : opening.kind = .leftParen)
    (h : Assignment ts n e m) (hclosing : closing.kind = .rightParen)
    (rest : List Token) :
    Reads (condition what) (opening :: (ts ++ [closing])) n e m rest := by
  intro previous
  have hrest : Avoids ExtendsAssignment (closing :: rest) :=
    avoids_extendsAssignment hclosing not_extendsAssignment_rightParen
  obtain ⟨last, hlast⟩ := h.reads_expression hrest opening
  refine ⟨closing, ?_⟩
  unfold condition
  simp only [List.cons_append, List.append_assoc, List.nil_append]
  rw [bind_eq (expect_eq (by simp) hopening), bind_eq hlast,
    bind_eq (expect_eq (by simp) hclosing)]
  rfl

theorem Assignment.reads_expressionStmt
    (h : Assignment ts n e m) (hstop : stop.kind = .semicolon)
    (rest : List Token) :
    Reads expressionStmt (ts ++ [stop]) n (.expression e) m rest := by
  intro previous
  obtain ⟨last, hlast⟩ := h.reads_terminated hstop rest previous
  refine ⟨last, ?_⟩
  unfold expressionStmt
  rw [bind_eq hlast]
  rfl

theorem ForStart.reads (h : ForStart ts n initializer m)
    (rest : List Token) :
    Reads forInitializer ts n initializer m rest := by
  intro previous
  unfold forInitializer
  cases h with
  | nothing hstop =>
      apply Exists.intro
      rw [List.singleton_append, accept_then hstop (by simp)]
      rfl
  | varDecl h =>
      obtain ⟨word, us, rfl, hword, hreads⟩ := h.reads rest
      obtain ⟨last, hlast⟩ := hreads word
      have hne : word.kind ≠ .semicolon := by
        rcases hword with h | h <;> simp [h]
      refine ⟨last, ?_⟩
      rw [List.cons_append, accept_past rfl (by simp) hne,
        choose_then (acceptVariable_eq_true hword), bind_eq hlast]
      rfl
  | expression h hstop =>
      have hopens := fun stop => (h.opensWith.append [stop]).append rest
      obtain ⟨last, hlast⟩ := h.reads_expressionStmt hstop rest previous
      refine ⟨last, ?_⟩
      rw [accept_else ((hopens _).avoids rfl) (by simp),
        choose_else (acceptVariable_eq_false ((hopens _).avoids rfl)
          ((hopens _).avoids rfl)), bind_eq hlast]
      rfl

theorem forClauses_reads
    (hopening : opening.kind = .leftParen)
    (hstart : ForStart ts₁ n initializer k₁)
    (htest : MaybeExpr ts₂ k₁ test k₂) (hstop : stop.kind = .semicolon)
    (hincrement : MaybeExpr ts₃ k₂ increment m)
    (hclosing : closing.kind = .rightParen) (rest : List Token) :
    Reads forClauses
      (opening :: (ts₁ ++ (ts₂ ++ stop :: (ts₃ ++ [closing])))) n
      ⟨initializer, test, increment⟩ m rest := by
  intro previous
  obtain ⟨last₁, h₁⟩ := hstart.reads
    (ts₂ ++ stop :: (ts₃ ++ closing :: rest)) opening
  obtain ⟨last₂, h₂⟩ := htest.reads hstop (by simp) rfl
    not_extendsAssignment_semicolon (ts₃ ++ closing :: rest) last₁
  obtain ⟨last₃, h₃⟩ := hincrement.reads hclosing (by simp) rfl
    not_extendsAssignment_rightParen rest stop
  refine ⟨closing, ?_⟩
  unfold forClauses
  simp only [List.cons_append, List.append_assoc, List.nil_append]
  rw [bind_eq (expect_eq (by simp) hopening), bind_eq h₁, bind_eq h₂,
    bind_eq (expect_eq (by simp) hstop), bind_eq h₃,
    bind_eq (expect_eq (by simp) hclosing)]
  rfl

private theorem maxArity_not_le {count more : Nat} (h : count + more ≤ 255)
    (hmore : 0 < more) : ¬ maxArity ≤ count := by
  simp only [maxArity]
  omega

theorem Parameters.reads (h : Parameters ts names) :
    ∀ ⦃bound count rest⦄ (n : PlaceId),
      ts.length ≤ bound → count + names.length ≤ 255 →
      Avoids (· = .comma) rest →
      Reads (parameters bound count) ts n names n rest := by
  induction h with
  | last hname =>
      intro bound count rest n hbound hcount hrest previous
      obtain ⟨bound, rfl⟩ :=
        exists_succ_of_pos (Nat.lt_of_lt_of_le Nat.zero_lt_one hbound)
      apply Exists.intro
      rw [parameters, if_neg (maxArity_not_le hcount Nat.zero_lt_one),
        List.singleton_append, bind_eq (identifier_eq hname),
        accept_else hrest (by simp)]
      rfl
  | more hname hcomma _ ih =>
      intro bound count rest n hbound hcount hrest previous
      simp only [List.length_cons] at hbound hcount
      obtain ⟨bound, rfl⟩ := exists_succ_of_pos (by omega : 0 < bound)
      obtain ⟨last, hlast⟩ :=
        ih n (by omega : _ ≤ bound) (by omega : count + 1 + _ ≤ 255) hrest _
      refine ⟨last, ?_⟩
      simp only [List.cons_append]
      rw [parameters, if_neg (maxArity_not_le hcount (by omega)),
        bind_eq (identifier_eq hname), accept_then hcomma (by simp),
        bind_eq hlast]
      rfl

theorem Parameters.head (h : Parameters ts names) :
    ∃ name us, ts = name :: us ∧ name.kind = .identifier := by
  cases h with
  | last hname => exact ⟨_, _, rfl, hname⟩
  | more hname _ _ => exact ⟨_, _, rfl, hname⟩

theorem functionHead_reads (role : FunctionRole) {name : Token}
    (hname : name.kind = .identifier) (hopening : opening.kind = .leftParen)
    (h : MaybeParameters ts params) (hclosing : closing.kind = .rightParen)
    (hbody : bodyOpening.kind = .leftBrace) (n : PlaceId)
    (rest : List Token) :
    Reads (functionHead role)
      (name :: opening :: (ts ++ [closing, bodyOpening])) n
      (name.ident, params) n rest := by
  intro previous
  refine ⟨bodyOpening, ?_⟩
  unfold functionHead
  simp only [List.cons_append, List.append_assoc, List.nil_append]
  rw [bind_eq (identifier_eq hname),
    bind_eq (expect_eq (by simp) hopening)]
  cases h with
  | absent =>
      rw [List.nil_append, sees_then hclosing (by simp), pure_bind,
        bind_eq (expect_eq (by simp) hclosing),
        bind_eq (expect_eq (by simp) hbody)]
      rfl
  | present h hlength =>
      obtain ⟨first, us, rfl, hfirst⟩ := h.head
      have hcomma : Avoids (· = .comma) (closing :: bodyOpening :: rest) := by
        rw [avoids_cons, hclosing]
        simp
      have hbound : (first :: us).length ≤ Cursor.depthBound ⟨opening,
          first :: (us ++ closing :: bodyOpening :: rest), n⟩ := by
        simp only [Cursor.depthBound, List.length_append, List.length_cons]
        omega
      obtain ⟨last, hlast⟩ := h.reads n hbound
        (by omega : 0 + params.length ≤ 255) hcomma opening
      rw [List.cons_append, sees_past hfirst (by simp) (by simp),
        bind_eq (x := fun cursor => parameters cursor.depthBound 0 cursor)
          hlast, bind_eq (expect_eq (by simp) hclosing),
        bind_eq (expect_eq (by simp) hbody)]
      rfl

/-! ## Readings of statements -/

/-- The words and marks that start a statement other than an expression. -/
def startsRule : Token.Kind → Bool
  | .forWord | .ifWord | .whileWord | .returnWord | .leftBrace
  | .printWord => true
  | _ => false

/-- The token can start a declaration. -/
def opensDeclaration (kind : Token.Kind) : Bool :=
  startsRule kind || opensExpression kind || kind = .classWord ||
    kind = .funWord || kind = .varWord || kind = .valWord

theorem Statement.head (h : Statement hangs ts n s m) :
    ∃ token us, ts = token :: us ∧
      (startsRule token.kind = true ∨ opensExpression token.kind = true) := by
  cases h with
  | expression h _ =>
      obtain ⟨token, us, rfl, hopens⟩ := h.opensWith
      exact ⟨token, us ++ [_], rfl, .inr hopens⟩
  | print hword _ _ => exact ⟨_, _, rfl, .inl (by rw [hword]; rfl)⟩
  | ret hword _ _ => exact ⟨_, _, rfl, .inl (by rw [hword]; rfl)⟩
  | block hword _ _ => exact ⟨_, _, rfl, .inl (by rw [hword]; rfl)⟩
  | loop hword _ _ _ _ => exact ⟨_, _, rfl, .inl (by rw [hword]; rfl)⟩
  | ifThen hword _ _ _ _ => exact ⟨_, _, rfl, .inl (by rw [hword]; rfl)⟩
  | ifThenElse hword _ _ _ _ _ _ =>
      exact ⟨_, _, rfl, .inl (by rw [hword]; rfl)⟩
  | forLoop hword _ _ _ _ _ _ _ =>
      exact ⟨_, _, rfl, .inl (by rw [hword]; rfl)⟩

theorem Declaration.head (h : Declaration ts n s m) :
    ∃ token us, ts = token :: us ∧ opensDeclaration token.kind = true := by
  cases h with
  | baseClass hword _ _ _ _ => exact ⟨_, _, rfl, by rw [hword]; rfl⟩
  | derivedClass hword _ _ _ _ _ _ => exact ⟨_, _, rfl, by rw [hword]; rfl⟩
  | function hword _ => exact ⟨_, _, rfl, by rw [hword]; rfl⟩
  | varDecl h =>
      obtain ⟨word, us, rfl, hword, -⟩ := h.reads []
      refine ⟨word, us, rfl, ?_⟩
      rcases hword with hword | hword <;> rw [hword] <;> rfl
  | statement h =>
      obtain ⟨token, us, rfl, hkind⟩ := h.head
      refine ⟨token, us, rfl, ?_⟩
      rcases hkind with hkind | hkind <;> simp [opensDeclaration, hkind]

theorem Declaration.length_pos (h : Declaration ts n s m) :
    0 < ts.length := by
  obtain ⟨token, us, rfl, -⟩ := h.head
  exact Nat.succ_pos _

theorem Declaration.avoids (h : Declaration ts n s m) {kind : Token.Kind}
    (hkind : opensDeclaration kind = false) (rest : List Token) :
    Avoids (· = kind) (ts ++ rest) := by
  obtain ⟨token, us, rfl, hopens⟩ := h.head
  rw [List.cons_append, avoids_cons]
  rintro rfl
  rw [hkind] at hopens
  cases hopens

def ReadsStatement (hangs : Bool) (ts : List Token) (n : PlaceId) (s : Stmt)
    (m : PlaceId) : Prop :=
  ∀ ⦃depth rest⦄, 16 * ts.length + 2 ≤ depth →
    (hangs = true → Avoids (· = .elseWord) rest) →
    Reads (statement depth) ts n s m rest

def ReadsDeclaration (ts : List Token) (n : PlaceId) (s : Stmt)
    (m : PlaceId) : Prop :=
  ∀ ⦃depth rest⦄, 16 * ts.length + 3 ≤ depth →
    Avoids (· = .elseWord) rest → Reads (declaration depth) ts n s m rest

/-- Statements in front of the brace that ends their block. -/
def ReadsBlock (ts : List Token) (n : PlaceId) (body : List Stmt)
    (m : PlaceId) : Prop :=
  ∀ ⦃depth closing rest⦄, 16 * ts.length + 4 ≤ depth →
    closing.kind = .rightBrace →
    Reads (blockItems depth) ts n body m (closing :: rest)

def ReadsCallable (ts : List Token) (n : PlaceId) (decl : FunctionDecl)
    (m : PlaceId) : Prop :=
  ∀ ⦃depth role rest⦄, 16 * ts.length ≤ depth →
    Reads (function depth role) ts n decl m rest

/-- Methods in front of the brace that ends their class. -/
def ReadsMethods (ts : List Token) (n : PlaceId)
    (decls : List FunctionDecl) (m : PlaceId) : Prop :=
  ∀ ⦃depth closing rest⦄, 16 * ts.length + 1 ≤ depth →
    closing.kind = .rightBrace →
    Reads (methods depth) ts n decls m (closing :: rest)

theorem ReadsBlock.reads_block (h : ReadsBlock ts n body m)
    (hclosing : closing.kind = .rightBrace) {depth : Nat}
    (hdepth : 16 * ts.length + 5 ≤ depth) (rest : List Token) :
    Reads (block depth) (ts ++ [closing]) n body m rest := by
  intro previous
  obtain ⟨depth, rfl⟩ := exists_succ_of_pos (by omega : 0 < depth)
  obtain ⟨last, hlast⟩ :=
    @h depth closing rest (by omega) hclosing previous
  refine ⟨closing, ?_⟩
  rw [block, List.append_assoc, List.singleton_append, bind_eq hlast,
    bind_eq (expect_eq (by simp) hclosing)]
  rfl

/-! ### Simple statements -/

theorem ReadsStatement.expression (h : Assignment ts n e m)
    (hstop : stop.kind = .semicolon) :
    ReadsStatement false (ts ++ [stop]) n (.expression e) m := by
  intro depth rest hdepth _ previous
  obtain ⟨depth, rfl⟩ := exists_succ_of_pos (by omega : 0 < depth)
  obtain ⟨last, hlast⟩ := h.reads_expressionStmt hstop rest previous
  have hopens := (h.opensWith.append [stop]).append rest
  refine ⟨last, ?_⟩
  rw [statement]
  iterate 6 rw [accept_else (hopens.avoids rfl) (by simp)]
  rw [hlast]

theorem ReadsStatement.print
    (hword : word.kind = .printWord) (h : Assignment ts n e m)
    (hstop : stop.kind = .semicolon) :
    ReadsStatement false (word :: (ts ++ [stop])) n (.print e) m := by
  intro depth rest hdepth _ previous
  obtain ⟨depth, rfl⟩ := exists_succ_of_pos (by omega : 0 < depth)
  obtain ⟨last, hlast⟩ := h.reads_terminated hstop rest word
  refine ⟨last, ?_⟩
  rw [statement, List.cons_append]
  iterate 5 rw [accept_past hword (by simp) (by simp)]
  rw [accept_then hword (by simp), printStmt, bind_eq hlast]
  rfl

theorem ReadsStatement.ret
    (hword : word.kind = .returnWord) (h : MaybeExpr ts n value m)
    (hstop : stop.kind = .semicolon) :
    ReadsStatement false (word :: (ts ++ [stop])) n (.ret word.line value)
      m := by
  intro depth rest hdepth _ previous
  obtain ⟨depth, rfl⟩ := exists_succ_of_pos (by omega : 0 < depth)
  obtain ⟨last, hlast⟩ := h.reads hstop (by simp) rfl
    not_extendsAssignment_semicolon rest word
  refine ⟨stop, ?_⟩
  rw [statement, List.cons_append, List.append_assoc, List.singleton_append]
  iterate 3 rw [accept_past hword (by simp) (by simp)]
  rw [accept_then hword (by simp), returnStmt]
  change (unlessSees .semicolon >>= _) _ = _
  rw [bind_eq hlast, bind_eq (expect_eq (by simp) hstop)]
  rfl

theorem ReadsStatement.block
    (hopening : opening.kind = .leftBrace) (h : ReadsBlock ts n body m)
    (hclosing : closing.kind = .rightBrace) :
    ReadsStatement false (opening :: (ts ++ [closing])) n (.block body)
      m := by
  intro depth rest hdepth _ previous
  simp only [List.length_cons, List.length_append, List.length_nil]
    at hdepth
  obtain ⟨depth, rfl⟩ := exists_succ_of_pos (by omega : 0 < depth)
  obtain ⟨last, hlast⟩ :=
    h.reads_block hclosing (by omega : _ ≤ depth) rest opening
  refine ⟨last, ?_⟩
  rw [statement, List.cons_append]
  iterate 4 rw [accept_past hopening (by simp) (by simp)]
  rw [accept_then hopening (by simp), bind_eq hlast]
  rfl

/-! ### Loops and branches -/

theorem ReadsStatement.loop
    (hword : word.kind = .whileWord) (hopening : opening.kind = .leftParen)
    (h : Assignment ts n e k) (hclosing : closing.kind = .rightParen)
    (hbody : ReadsStatement hangs us k body m) :
    ReadsStatement hangs (word :: opening :: (ts ++ closing :: us)) n
      (.loop e body) m := by
  intro depth rest hdepth hrest previous
  simp only [List.length_cons, List.length_append] at hdepth
  obtain ⟨depth, rfl⟩ := exists_succ_of_pos (by omega : 0 < depth)
  obtain ⟨before, hbefore⟩ :=
    h.reads_condition hopening hclosing (us ++ rest) word
  obtain ⟨last, hlast⟩ :=
    hbody (by omega : 16 * us.length + 2 ≤ depth) hrest before
  refine ⟨last, ?_⟩
  simp only [List.cons_append, List.append_assoc, List.nil_append]
    at hbefore ⊢
  rw [statement]
  iterate 2 rw [accept_past hword (by simp) (by simp)]
  rw [accept_then hword (by simp), bind_eq hbefore, bind_eq hlast]
  rfl

theorem ReadsStatement.ifThen
    (hword : word.kind = .ifWord) (hopening : opening.kind = .leftParen)
    (h : Assignment ts n e k) (hclosing : closing.kind = .rightParen)
    (hthen : ReadsStatement hangs us k thenBranch m) :
    ReadsStatement true (word :: opening :: (ts ++ closing :: us)) n
      (.branch e thenBranch none) m := by
  intro depth rest hdepth hrest previous
  simp only [List.length_cons, List.length_append] at hdepth
  obtain ⟨depth, rfl⟩ := exists_succ_of_pos (by omega : 0 < depth)
  obtain ⟨before, hbefore⟩ :=
    h.reads_condition hopening hclosing (us ++ rest) word
  obtain ⟨last, hlast⟩ :=
    hthen (by omega : 16 * us.length + 2 ≤ depth) (fun _ => hrest rfl)
      before
  refine ⟨last, ?_⟩
  simp only [List.cons_append, List.append_assoc, List.nil_append]
    at hbefore ⊢
  rw [statement, accept_past hword (by simp) (by simp),
    accept_then hword (by simp), bind_eq hbefore, bind_eq hlast,
    accept_else (hrest rfl) (by simp)]
  rfl

theorem ReadsStatement.ifThenElse
    (hword : word.kind = .ifWord) (hopening : opening.kind = .leftParen)
    (h : Assignment ts n e k) (hclosing : closing.kind = .rightParen)
    (hthen : ReadsStatement false us k thenBranch l)
    (hother : other.kind = .elseWord)
    (helse : ReadsStatement hangs vs l elseBranch m) :
    ReadsStatement hangs
      (word :: opening :: (ts ++ closing :: (us ++ other :: vs))) n
      (.branch e thenBranch (some elseBranch)) m := by
  intro depth rest hdepth hrest previous
  simp only [List.length_cons, List.length_append] at hdepth
  obtain ⟨depth, rfl⟩ := exists_succ_of_pos (by omega : 0 < depth)
  obtain ⟨first, hfirst⟩ := h.reads_condition hopening hclosing
    (us ++ other :: (vs ++ rest)) word
  obtain ⟨before, hbefore⟩ := @hthen depth (other :: (vs ++ rest))
    (by omega) (by simp) first
  obtain ⟨last, hlast⟩ :=
    helse (by omega : 16 * vs.length + 2 ≤ depth) hrest other
  refine ⟨last, ?_⟩
  simp only [List.cons_append, List.append_assoc, List.nil_append]
    at hfirst ⊢
  rw [statement, accept_past hword (by simp) (by simp),
    accept_then hword (by simp), bind_eq hfirst, bind_eq hbefore,
    accept_then hother (by simp), bind_eq hlast]
  rfl

theorem ReadsStatement.forLoop
    (hword : word.kind = .forWord) (hopening : opening.kind = .leftParen)
    (hstart : ForStart ts₁ n initializer k₁)
    (htest : MaybeExpr ts₂ k₁ test k₂) (hstop : stop.kind = .semicolon)
    (hincrement : MaybeExpr ts₃ k₂ increment k₃)
    (hclosing : closing.kind = .rightParen)
    (hbody : ReadsStatement hangs us k₃ body m) :
    ReadsStatement hangs
      (word :: opening :: (ts₁ ++ (ts₂ ++ stop :: (ts₃ ++ closing :: us))))
      n
      (forScope (.loop (forCondition test) (forRound body increment))
        initializer) m := by
  intro depth rest hdepth hrest previous
  simp only [List.length_cons, List.length_append] at hdepth
  obtain ⟨depth, rfl⟩ := exists_succ_of_pos (by omega : 0 < depth)
  obtain ⟨before, hbefore⟩ := forClauses_reads hopening hstart htest hstop
    hincrement hclosing (us ++ rest) word
  obtain ⟨last, hlast⟩ :=
    hbody (by omega : 16 * us.length + 2 ≤ depth) hrest before
  refine ⟨last, ?_⟩
  simp only [List.cons_append, List.append_assoc, List.nil_append]
    at hbefore ⊢
  rw [statement, accept_then hword (by simp), bind_eq hbefore, bind_eq hlast,
    ForClauses.loop_eq]
  rfl

/-! ### Declarations -/

theorem resuming_eq {reading : Parse α} {cursor next : Cursor} {a : α}
    (h : reading cursor = .ok a next) :
    resuming reading cursor = .ok a next := by
  unfold resuming
  rw [h]

theorem ReadsDeclaration.statement (hhead : Statement hangs ts n s m)
    (h : ReadsStatement hangs ts n s m) : ReadsDeclaration ts n s m := by
  intro depth rest hdepth hrest previous
  obtain ⟨depth, rfl⟩ := exists_succ_of_pos (by omega : 0 < depth)
  obtain ⟨last, hlast⟩ :=
    h (by omega : 16 * ts.length + 2 ≤ depth) (fun _ => hrest) previous
  obtain ⟨token, us, rfl, hkind⟩ := hhead.head
  have hother : ∀ kind, startsRule kind = false →
      opensExpression kind = false →
      Avoids (· = kind) (token :: us ++ rest) := by
    rintro kind hrule hopens _ ⟨⟩ rfl
    rcases hkind with hkind | hkind
    · rw [hrule] at hkind
      cases hkind
    · rw [hopens] at hkind
      cases hkind
  refine ⟨last, ?_⟩
  rw [declaration]
  apply resuming_eq
  iterate 2 rw [accept_else (hother _ rfl rfl) (by simp)]
  rw [choose_else
      (acceptVariable_eq_false (hother _ rfl rfl) (hother _ rfl rfl)), hlast]

theorem ReadsDeclaration.varDecl (h : Variable ts n s m) :
    ReadsDeclaration ts n s m := by
  intro depth rest hdepth _ previous
  obtain ⟨depth, rfl⟩ := exists_succ_of_pos (by omega : 0 < depth)
  obtain ⟨word, us, rfl, hword, hreads⟩ := h.reads rest
  obtain ⟨last, hlast⟩ := hreads word
  have hclass : word.kind ≠ .classWord := by
    rcases hword with h | h <;> simp [h]
  have hfun : word.kind ≠ .funWord := by
    rcases hword with h | h <;> simp [h]
  refine ⟨last, ?_⟩
  rw [declaration]
  apply resuming_eq
  rw [List.cons_append, accept_past rfl (by simp) hclass,
    accept_past rfl (by simp) hfun, choose_then (acceptVariable_eq_true hword),
    hlast]

theorem ReadsDeclaration.function
    (hword : word.kind = .funWord) (h : ReadsCallable ts n decl m) :
    ReadsDeclaration (word :: ts) n (.function decl) m := by
  intro depth rest hdepth _ previous
  simp only [List.length_cons] at hdepth
  obtain ⟨depth, rfl⟩ := exists_succ_of_pos (by omega : 0 < depth)
  obtain ⟨last, hlast⟩ :=
    @h depth .function rest (by omega) word
  refine ⟨last, ?_⟩
  rw [declaration]
  apply resuming_eq
  rw [List.cons_append, accept_past hword (by simp) (by simp),
    accept_then hword (by simp), bind_eq hlast]
  rfl

/-- The head of a class is read up to the brace in front of its methods. -/
def ReadsClassHead (hs : List Token) (n : PlaceId) (head : Ident × Option Expr)
    (k : PlaceId) : Prop :=
  ∀ ⦃opening⦄, opening.kind = .leftBrace → ∀ previous rest,
    classHead ⟨previous, hs ++ opening :: rest, n⟩ =
      .ok head ⟨opening, rest, k⟩

theorem ReadsClassHead.base {name : Token} (hname : name.kind = .identifier)
    (n : PlaceId) : ReadsClassHead [name] n (name.ident, none) n := by
  intro opening hopening previous rest
  unfold classHead
  rw [List.singleton_append, bind_eq (identifier_eq hname),
    accept_past hopening (by simp) (by simp)]
  change (expect .leftBrace .classBodyStart >>= _) _ = _
  rw [bind_eq (expect_eq (by simp) hopening)]
  rfl

theorem ReadsClassHead.derived {name sign : Token}
    (hname : name.kind = .identifier) (hsign : sign.kind = .less)
    (hsuper : superName.kind = .identifier) (n : PlaceId) :
    ReadsClassHead [name, sign, superName] n
      (name.ident, some (.read n superName.ident)) (n + 1) := by
  intro opening hopening previous rest
  unfold classHead
  simp only [List.cons_append, List.nil_append]
  rw [bind_eq (identifier_eq hname), accept_then hsign (by simp),
    bind_eq (identifier_eq hsuper)]
  change (expect .leftBrace .classBodyStart >>= _) _ = _
  rw [bind_eq (expect_eq (by simp) hopening)]
  rfl

theorem ReadsDeclaration.ofClass {head : Ident × Option Expr}
    (hword : word.kind = .classWord) (hhead : ReadsClassHead hs n head k)
    (hopening : opening.kind = .leftBrace) (h : ReadsMethods ts k decls m)
    (hclosing : closing.kind = .rightBrace) :
    ReadsDeclaration (word :: (hs ++ opening :: (ts ++ [closing]))) n
      (.classDecl head.1 head.2 decls) m := by
  intro depth rest hdepth _ previous
  simp only [List.length_cons, List.length_append] at hdepth
  obtain ⟨depth, rfl⟩ := exists_succ_of_pos (by omega : 0 < depth)
  obtain ⟨last, hlast⟩ :=
    @h depth closing rest (by omega) hclosing opening
  refine ⟨closing, ?_⟩
  rw [declaration]
  apply resuming_eq
  simp only [List.cons_append, List.append_assoc, List.nil_append]
  rw [accept_then hword (by simp), bind_eq (hhead hopening _ _),
    bind_eq hlast, bind_eq (expect_eq (by simp) hclosing)]
  rfl

theorem ReadsCallable.mk {name : Token}
    (hname : name.kind = .identifier) (hopening : opening.kind = .leftParen)
    (hparams : MaybeParameters ts params)
    (hclosing : closing.kind = .rightParen)
    (hbodyOpening : bodyOpening.kind = .leftBrace)
    (h : ReadsBlock us n body m)
    (hbodyClosing : bodyClosing.kind = .rightBrace) :
    ReadsCallable
      (name :: opening ::
        (ts ++ closing :: bodyOpening :: (us ++ [bodyClosing]))) n
      ⟨name.ident, params, body⟩ m := by
  intro depth role rest hdepth previous
  simp only [List.length_cons, List.length_append, List.length_nil]
    at hdepth
  obtain ⟨depth, rfl⟩ := exists_succ_of_pos (by omega : 0 < depth)
  obtain ⟨before, hbefore⟩ := functionHead_reads role hname hopening hparams
    hclosing hbodyOpening n (us ++ bodyClosing :: rest) previous
  obtain ⟨last, hlast⟩ :=
    h.reads_block hbodyClosing (by omega : _ ≤ depth) rest before
  refine ⟨last, ?_⟩
  simp only [List.cons_append, List.append_assoc, List.nil_append]
    at hbefore hlast ⊢
  rw [function, bind_eq hbefore]
  change (Grammar.block depth >>= _) _ = _
  rw [bind_eq hlast]
  rfl

/-! ### Sequences -/

theorem ReadsBlock.nil : ReadsBlock [] n [] n := by
  intro depth closing rest hdepth hclosing previous
  obtain ⟨depth, rfl⟩ := exists_succ_of_pos (by omega : 0 < depth)
  refine ⟨previous, ?_⟩
  rw [blockItems, List.nil_append, sees_then hclosing (by simp)]
  rfl

theorem atEnd_eq_false {cursor : Cursor} {rest : List Token}
    (h : cursor.rest = token :: rest) (hne : token.kind ≠ .eof) :
    atEnd cursor = .ok false cursor := by
  simp [atEnd, Cursor.atEnd, h, hne]

/-- Behind a declaration stands another one, or the end of the block. -/
theorem Declarations.avoids_else
    (h : Declarations ts n ss m) (hclosing : closing.kind ≠ .elseWord)
    (rest : List Token) :
    Avoids (· = .elseWord) (ts ++ closing :: rest) := by
  cases h with
  | nil => exact avoids_cons.mpr hclosing
  | cons h _ =>
      rw [List.append_assoc]
      exact h.avoids rfl _

theorem ReadsBlock.cons (hhead : Declaration ts n s k)
    (h : ReadsDeclaration ts n s k) (htail : Declarations us k ss m)
    (hmore : ReadsBlock us k ss m) : ReadsBlock (ts ++ us) n (s :: ss) m := by
  intro depth closing rest hdepth hclosing previous
  have hpos := hhead.length_pos
  simp only [List.length_append] at hdepth
  obtain ⟨depth, rfl⟩ := exists_succ_of_pos (by omega : 0 < depth)
  have helse : Avoids (· = .elseWord) (us ++ closing :: rest) :=
    htail.avoids_else (by rw [hclosing]; simp) rest
  obtain ⟨before, hbefore⟩ :=
    h (by omega : 16 * ts.length + 3 ≤ depth) helse previous
  obtain ⟨last, hlast⟩ := @hmore depth closing rest (by omega) hclosing before
  have hend : atEnd ⟨previous, ts ++ (us ++ closing :: rest), n⟩ =
      .ok false ⟨previous, ts ++ (us ++ closing :: rest), n⟩ := by
    obtain ⟨token, vs, rfl, hopens⟩ := hhead.head
    apply atEnd_eq_false rfl
    intro heof
    rw [heof] at hopens
    cases hopens
  refine ⟨last, ?_⟩
  rw [blockItems, List.append_assoc, sees_else (hhead.avoids rfl _) (by simp),
    choose_else hend, bind_eq hbefore, bind_eq hlast]
  rfl

theorem ReadsMethods.nil : ReadsMethods [] n [] n := by
  intro depth closing rest hdepth hclosing previous
  obtain ⟨depth, rfl⟩ := exists_succ_of_pos (by omega : 0 < depth)
  refine ⟨previous, ?_⟩
  rw [methods, List.nil_append, sees_then hclosing (by simp)]
  rfl

theorem ReadsMethods.cons (hhead : Callable ts n decl k)
    (h : ReadsCallable ts n decl k) (hmore : ReadsMethods us k decls m) :
    ReadsMethods (ts ++ us) n (decl :: decls) m := by
  intro depth closing rest hdepth hclosing previous
  obtain ⟨name, vs, rfl, hname⟩ :
      ∃ name vs, ts = name :: vs ∧ name.kind = .identifier := by
    cases hhead with
    | mk hname _ _ _ _ _ _ => exact ⟨_, _, rfl, hname⟩
  simp only [List.length_append, List.length_cons] at hdepth
  obtain ⟨depth, rfl⟩ := exists_succ_of_pos (by omega : 0 < depth)
  obtain ⟨before, hbefore⟩ := @h depth .method (us ++ closing :: rest)
    (by simp only [List.length_cons]; omega) previous
  obtain ⟨last, hlast⟩ := @hmore depth closing rest (by omega) hclosing before
  have hend : atEnd
      ⟨previous, name :: (vs ++ (us ++ closing :: rest)), n⟩ =
      .ok false ⟨previous, name :: (vs ++ (us ++ closing :: rest)), n⟩ :=
    atEnd_eq_false rfl (by rw [hname]; simp)
  refine ⟨last, ?_⟩
  simp only [List.cons_append, List.append_assoc] at hbefore ⊢
  rw [methods, sees_past hname (by simp) (by simp), choose_else hend,
    bind_eq hbefore, bind_eq hlast]
  rfl

/-! ### All statements -/

mutual

theorem Statement.reads :
    Statement hangs ts n s m → ReadsStatement hangs ts n s m
  | .expression h hstop => .expression h hstop
  | .print hword h hstop => .print hword h hstop
  | .ret hword h hstop => .ret hword h hstop
  | .block hopening h hclosing => .block hopening h.reads hclosing
  | .loop hword hopening h hclosing hbody =>
      .loop hword hopening h hclosing hbody.reads
  | .ifThen hword hopening h hclosing hthen =>
      .ifThen hword hopening h hclosing hthen.reads
  | .ifThenElse hword hopening h hclosing hthen hother helse =>
      .ifThenElse hword hopening h hclosing hthen.reads hother helse.reads
  | .forLoop hword hopening hstart htest hstop hincrement hclosing hbody =>
      .forLoop hword hopening hstart htest hstop hincrement hclosing
        hbody.reads

theorem Declaration.reads : Declaration ts n s m → ReadsDeclaration ts n s m
  | .baseClass hword hname hopening h hclosing =>
      .ofClass hword (.base hname _) hopening h.reads hclosing
  | .derivedClass hword hname hsign hsuper hopening h hclosing =>
      .ofClass hword (.derived hname hsign hsuper _) hopening h.reads hclosing
  | .function hword h => .function hword h.reads
  | .varDecl h => .varDecl h
  | .statement h => .statement h h.reads

theorem Declarations.reads : Declarations ts n ss m → ReadsBlock ts n ss m
  | .nil => .nil
  | .cons h hmore => .cons h h.reads hmore hmore.reads

theorem Callable.reads : Callable ts n decl m → ReadsCallable ts n decl m
  | .mk hname hopening hparams hclosing hbodyOpening h hbodyClosing =>
      .mk hname hopening hparams hclosing hbodyOpening h.reads hbodyClosing

theorem Methods.reads : Methods ts n decls m → ReadsMethods ts n decls m
  | .nil => .nil
  | .cons h hmore => .cons h h.reads hmore.reads

end

end Grammar
end LoxLang
