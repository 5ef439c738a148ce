import LoxLang.Proofs.Grammar.Completeness

/-!
# Reading accepts exactly the grammar

A token list that ends in its only end mark is read without failure exactly
when the tokens in front of the end mark derive a program, and what is read
is the tree of that derivation.  The grammar is therefore unambiguous.
-/

namespace LoxLang
namespace Grammar

/-! ## End marks -/

/-- There is no end mark among the tokens. -/
def EndFree (tokens : List Token) : Prop :=
  ∀ token ∈ tokens, token.kind ≠ .eof

@[simp]
theorem endFree_nil : EndFree [] := by
  simp [EndFree]

@[simp]
theorem endFree_cons {token : Token} {tokens : List Token} :
    EndFree (token :: tokens) ↔ token.kind ≠ .eof ∧ EndFree tokens := by
  simp [EndFree]

@[simp]
theorem endFree_append {tokens others : List Token} :
    EndFree (tokens ++ others) ↔ EndFree tokens ∧ EndFree others := by
  simp [EndFree, or_imp, forall_and]

theorem Denotes.ne_eof (h : Denotes kind value) : kind ≠ .eof := by
  rintro rfl
  cases h

theorem Leads.ne_eof (h : Leads kind op) : kind ≠ .eof := by
  rintro rfl
  cases h

mutual

theorem Assignment.endFree : Assignment ts n e m → EndFree ts
  | .plain h => h.endFree
  | .toName hname hsign h => by simp [hname, hsign, h.endFree]
  | .toProperty hobject hdot hname hsign h => by
      simp [hobject.endFree, hdot, hname, hsign, h.endFree]

theorem Tiered.endFree : Tiered tier ts n e m → EndFree ts
  | .operand h => h.endFree
  | .join hleft hsign hright => by
      simp [hleft.endFree, hsign.ne_eof, hright.endFree]

theorem Operand.endFree : Operand tier ts n e m → EndFree ts
  | .ofUnary h => h.endFree
  | .ofFactor h => h.endFree
  | .ofTerm h => h.endFree
  | .ofComparison h => h.endFree
  | .ofEquality h => h.endFree
  | .ofConjunction h => h.endFree

theorem Unary.endFree : Unary ts n e m → EndFree ts
  | .ofCall h => h.endFree
  | .sign hsign h => by simp [hsign.ne_eof, h.endFree]

theorem Call.endFree : Call ts n e m → EndFree ts
  | .ofPrimary h => h.endFree
  | .applyNothing h hopening hclosing => by
      simp [h.endFree, hopening, hclosing]
  | .apply h hopening harguments _ hclosing => by
      simp [h.endFree, hopening, harguments.endFree, hclosing]
  | .property h hdot hname => by simp [h.endFree, hdot, hname]

theorem Arguments.endFree : Arguments ts n es m → EndFree ts
  | .last h => h.endFree
  | .more h hcomma hmore => by simp [h.endFree, hcomma, hmore.endFree]

theorem Primary.endFree : Primary ts n e m → EndFree ts
  | .literal h => by simp [h.ne_eof]
  | .name h => by simp [h]
  | .this h => by simp [h]
  | .super h hdot hname => by simp [h, hdot, hname]
  | .group hopening h hclosing => by simp [hopening, h.endFree, hclosing]

end

theorem MaybeExpr.endFree (h : MaybeExpr ts n value m) : EndFree ts := by
  cases h with
  | absent => simp
  | present h => exact h.endFree

theorem Variable.endFree (h : Variable ts n s m) : EndFree ts := by
  cases h with
  | bare hword hname hstop =>
      rcases hword with hword | hword <;> simp [hword, hname, hstop]
  | initialized hword hname hsign h hstop =>
      rcases hword with hword | hword <;>
        simp [hword, hname, hsign, h.endFree, hstop]

theorem ForStart.endFree (h : ForStart ts n initializer m) :
    EndFree ts := by
  cases h with
  | nothing hstop => simp [hstop]
  | varDecl h => exact h.endFree
  | expression h hstop => simp [h.endFree, hstop]

theorem Parameters.endFree (h : Parameters ts names) : EndFree ts := by
  induction h with
  | last hname => simp [hname]
  | more hname hcomma _ ih => simp [hname, hcomma, ih]

theorem MaybeParameters.endFree (h : MaybeParameters ts names) :
    EndFree ts := by
  cases h with
  | absent => simp
  | present h _ => exact h.endFree

mutual

theorem Statement.endFree : Statement hangs ts n s m → EndFree ts
  | .expression h hstop => by simp [h.endFree, hstop]
  | .print hword h hstop => by simp [hword, h.endFree, hstop]
  | .ret hword h hstop => by simp [hword, h.endFree, hstop]
  | .block hopening h hclosing => by simp [hopening, h.endFree, hclosing]
  | .loop hword hopening h hclosing hbody => by
      simp [hword, hopening, h.endFree, hclosing, hbody.endFree]
  | .ifThen hword hopening h hclosing hthen => by
      simp [hword, hopening, h.endFree, hclosing, hthen.endFree]
  | .ifThenElse hword hopening h hclosing hthen hother helse => by
      simp [hword, hopening, h.endFree, hclosing, hthen.endFree, hother,
        helse.endFree]
  | .forLoop hword hopening hstart htest hstop hincrement hclosing hbody =>
      by
      simp [hword, hopening, hstart.endFree, htest.endFree, hstop,
        hincrement.endFree, hclosing, hbody.endFree]

theorem Declaration.endFree : Declaration ts n s m → EndFree ts
  | .baseClass hword hname hopening h hclosing => by
      simp [hword, hname, hopening, h.endFree, hclosing]
  | .derivedClass hword hname hsign hsuper hopening h hclosing => by
      simp [hword, hname, hsign, hsuper, hopening, h.endFree, hclosing]
  | .function hword h => by simp [hword, h.endFree]
  | .varDecl h => h.endFree
  | .statement h => h.endFree

theorem Declarations.endFree : Declarations ts n ss m → EndFree ts
  | .nil => by simp
  | .cons h hmore => by simp [h.endFree, hmore.endFree]

theorem Callable.endFree : Callable ts n decl m → EndFree ts
  | .mk hname hopening hparams hclosing hbodyOpening h hbodyClosing => by
      simp [hname, hopening, hparams.endFree, hclosing, hbodyOpening,
        h.endFree, hbodyClosing]

theorem Methods.endFree : Methods ts n decls m → EndFree ts
  | .nil => by simp
  | .cons h hmore => by simp [h.endFree, hmore.endFree]

end

/-! ## Whole token lists -/

/-- Tokens without an end mark that start a list with one at its end do not
reach it. -/
theorem EndFree.prefix_split {us rest ts : List Token} {stop : Token}
    (hus : EndFree us) (hstop : stop.kind = .eof)
    (h : ts ++ [stop] = us ++ rest) :
    ∃ vs, ts = us ++ vs ∧ rest = vs ++ [stop] := by
  rcases List.append_eq_append_iff.mp h with
    ⟨ws, rfl, hws⟩ | ⟨ws, rfl, rfl⟩
  · cases ws with
    | nil => exact ⟨[], by simp, by simpa using hws.symm⟩
    | cons token ws =>
        obtain ⟨rfl, -⟩ := List.cons.inj hws
        simp only [endFree_append, endFree_cons] at hus
        exact absurd hstop hus.2.1
  · exact ⟨ws, rfl, rfl⟩

private theorem atEnd_append_singleton {previous stop : Token} {ts : List Token}
    {n : PlaceId} (hts : EndFree ts) (hstop : stop.kind = .eof) :
    (⟨previous, ts ++ [stop], n⟩ : Cursor).atEnd = true ↔ ts = [] := by
  cases ts with
  | nil => simp [Cursor.atEnd, hstop]
  | cons token ts =>
      have hne := (endFree_cons.mp hts).1
      simp [Cursor.atEnd, hne]

/-- The rounds that read a whole list without failure follow the grammar.
Each round takes at least one token, so that there are rounds enough. -/
theorem declarations_sound {stop : Token} (hstop : stop.kind = .eof) :
    ∀ {bound : Nat} {ts : List Token} {previous : Token} {n : PlaceId},
      EndFree ts → ts.length < bound →
      (declarations bound ⟨previous, ts ++ [stop], n⟩).errors = [] →
      Declarations ts n
        (declarations bound ⟨previous, ts ++ [stop], n⟩).statements
        (declarations bound ⟨previous, ts ++ [stop], n⟩).nextId := by
  intro bound
  induction bound with
  | zero =>
      intro ts previous n _ hbound
      exact absurd hbound (Nat.not_lt_zero _)
  | succ bound ih =>
      intro ts previous n hts hbound herrors
      rw [declarations] at herrors ⊢
      split at herrors
      next hend =>
        rw [if_pos hend]
        rw [atEnd_append_singleton hts hstop] at hend
        subst hend
        exact .nil
      next hend =>
        rw [if_neg hend]
        split at herrors
        next stmt next hstmt =>
          have hready := Cursor.ready_of_atEnd_eq_false (by simpa using hend)
          obtain ⟨us, hus, d⟩ := declaration_sound _ hready hstmt
          obtain ⟨vs, rfl, hvs⟩ :=
            d.endFree.prefix_split hstop (by simpa using hus)
          obtain ⟨last, rest, k⟩ := next
          change rest = vs ++ [stop] at hvs
          subst hvs
          have hpos := d.length_pos
          rw [List.length_append] at hbound
          have htail := ih (endFree_append.mp hts).2
            (by omega : vs.length < bound) herrors
          exact .cons d htail
        next => cases herrors

/-- One round reads one derived declaration. -/
theorem Declaration.declarations_succ (h : Declaration ts n s k)
    {rest : List Token} (hrest : Avoids (· = .elseWord) rest)
    (bound : Nat) (previous : Token) :
    ∃ last, declarations (bound + 1) ⟨previous, ts ++ rest, n⟩ =
      { declarations bound ⟨last, rest, k⟩ with
        statements :=
          s :: (declarations bound ⟨last, rest, k⟩).statements } := by
  have hdepth : 16 * ts.length + 3 ≤
      Cursor.depthBound ⟨previous, ts ++ rest, n⟩ := by
    simp only [Cursor.depthBound, List.length_append]
    omega
  obtain ⟨last, hlast⟩ := h.reads hdepth hrest previous
  have hend : ¬ (⟨previous, ts ++ rest, n⟩ : Cursor).atEnd = true := by
    obtain ⟨token, us, rfl, hopens⟩ := h.head
    rw [List.cons_append, Cursor.atEnd_cons, decide_eq_true_eq]
    intro heof
    rw [heof] at hopens
    cases hopens
  refine ⟨last, ?_⟩
  rw [declarations, if_neg hend, hlast]

/-- The rounds read every derived list. -/
theorem Declarations.declarations_eq {stop : Token}
    (hstop : stop.kind = .eof) :
    Declarations ts n ss m → ∀ (bound : Nat) (previous : Token),
      ts.length < bound →
      declarations bound ⟨previous, ts ++ [stop], n⟩ = ⟨ss, [], m⟩
  | .nil, bound, previous, hbound => by
      obtain ⟨bound, rfl⟩ := exists_succ_of_pos hbound
      rw [declarations, List.nil_append, Cursor.atEnd_cons,
        if_pos (by simpa using hstop)]
  | .cons h hmore, bound, previous, hbound => by
      obtain ⟨bound, rfl⟩ :=
        exists_succ_of_pos (Nat.lt_of_le_of_lt (Nat.zero_le _) hbound)
      have helse := hmore.avoids_else
        (by rw [hstop]; simp : stop.kind ≠ .elseWord) []
      obtain ⟨last, hround⟩ := h.declarations_succ helse bound previous
      have hpos := h.length_pos
      rw [List.length_append] at hbound
      rw [List.append_assoc, hround,
        hmore.declarations_eq hstop bound last (by omega)]

/-- A list that is read without failure derives what is read. -/
theorem read_sound
    {ts : List Token} {stop : Token} {firstId : PlaceId} {program : Program}
    (hts : EndFree ts) (hstop : stop.kind = .eof)
    (hprogram : (read (ts ++ [stop]) firstId).program = .ok program) :
    Declarations ts firstId program
      (read (ts ++ [stop]) firstId).nextId := by
  cases herrors : (read (ts ++ [stop]) firstId).errors with
  | nil =>
      simp only [Reading.program, herrors, Except.ok.injEq] at hprogram
      subst hprogram
      exact declarations_sound hstop hts (by simp) herrors
  | cons e errors => simp [Reading.program, herrors] at hprogram

/-- Reading succeeds on exactly the tokens that the grammar derives, and the
statements and place numbers it gives are those of the derivation. -/
theorem read_program_eq_ok_iff_derives {ts : List Token} {stop : Token}
    (hts : EndFree ts) (hstop : stop.kind = .eof) (firstId : PlaceId) :
    ((∃ program, (read (ts ++ [stop]) firstId).program = .ok program) ↔
        ∃ program nextId, Declarations ts firstId program nextId) ∧
      ∀ program nextId,
        Declarations ts firstId program nextId ↔
          (read (ts ++ [stop]) firstId).program = .ok program ∧
            (read (ts ++ [stop]) firstId).nextId = nextId := by
  have hexact : ∀ program nextId,
      Declarations ts firstId program nextId ↔
        (read (ts ++ [stop]) firstId).program = .ok program ∧
          (read (ts ++ [stop]) firstId).nextId = nextId := by
    intro program nextId
    constructor
    · intro h
      have hread : read (ts ++ [stop]) firstId = ⟨program, [], nextId⟩ :=
        h.declarations_eq hstop _ _ (by simp)
      rw [hread]
      exact ⟨rfl, rfl⟩
    · rintro ⟨hprogram, rfl⟩
      exact read_sound hts hstop hprogram
  refine ⟨⟨?_, ?_⟩, hexact⟩
  · rintro ⟨program, hprogram⟩
    exact ⟨program, _, (hexact program _).mpr ⟨hprogram, rfl⟩⟩
  · rintro ⟨program, nextId, h⟩
    exact ⟨program, ((hexact program nextId).mp h).1⟩

/-- The tokens of `if (a) if (b) c.d = e; else f;`. -/
def danglingElse : List Token :=
  [⟨.ifWord, "if", 1⟩, ⟨.leftParen, "(", 1⟩, ⟨.identifier, "a", 1⟩,
    ⟨.rightParen, ")", 1⟩, ⟨.ifWord, "if", 2⟩, ⟨.leftParen, "(", 2⟩,
    ⟨.identifier, "b", 2⟩, ⟨.rightParen, ")", 2⟩, ⟨.identifier, "c", 3⟩,
    ⟨.dot, ".", 3⟩, ⟨.identifier, "d", 3⟩, ⟨.equal, "=", 3⟩,
    ⟨.identifier, "e", 3⟩, ⟨.semicolon, ";", 3⟩, ⟨.elseWord, "else", 4⟩,
    ⟨.identifier, "f", 4⟩, ⟨.semicolon, ";", 4⟩]

/-- The `else` belongs to the second `if`, and the target of the assignment
is a property. -/
theorem danglingElse_derives :
    EndFree danglingElse ∧
      Declarations danglingElse 0
        [.branch (.read 0 ⟨"a", 1⟩)
          (.branch (.read 1 ⟨"b", 2⟩)
            (.expression
              (.set (.read 2 ⟨"c", 3⟩) ⟨"d", 3⟩ (.read 3 ⟨"e", 3⟩)))
            (some (.expression (.read 4 ⟨"f", 4⟩))))
          none] 5 := by
  have hfree : EndFree danglingElse := by simp [danglingElse]
  have hexact :=
    @read_program_eq_ok_iff_derives danglingElse ⟨.eof, "", 4⟩ hfree rfl 0
  exact ⟨hfree, (hexact.2 _ _).mpr ⟨rfl, rfl⟩⟩

end Grammar
end LoxLang
