import LoxLang.Proofs.Grammar.Nesting
import LoxLang.Proofs.Grammar.Pieces

/-!
# Failures inside blocks

A malformed statement that stands so many declarations deep is reported as such,
and then reading goes on that many boundaries behind it: outside of all blocks
right behind the statement, but inside a block somewhere in the tokens that
follow, which can then fail as well.
-/

namespace LoxLang
namespace Grammar

/-! ## The rest of the program -/

/-- The tokens that are left when reading moves on to a boundary. -/
def resumePoint (tokens : List Token) : List Token :=
  (Cursor.start tokens 0).resume.rest

theorem resumePoint_of_eof {stop : Token} (hstop : stop.kind = .eof)
    (rest : List Token) : resumePoint (stop :: rest) = stop :: rest := by
  rw [resumePoint, Cursor.start,
    Cursor.resume_of_atEnd (by simp [Cursor.atEnd_cons, hstop])]

theorem resumePoint_cons {token : Token} (htoken : token.kind ≠ .eof)
    (rest : List Token) :
    resumePoint (token :: rest) = (skipToBoundary token rest).2 := by
  rw [resumePoint, Cursor.start, Cursor.resume_eq, Cursor.advance_cons htoken]

/-- Which tokens are left depends on the tokens only. -/
theorem Cursor.resume_rest :
    Function.Semiconj Cursor.rest Cursor.resume resumePoint := by
  rintro ⟨previous, tokens, nextId⟩
  cases tokens with
  | nil => rfl
  | cons token rest =>
      by_cases htoken : token.kind = .eof
      · rw [resumePoint_of_eof htoken,
          Cursor.resume_of_atEnd (by simp [Cursor.atEnd_cons, htoken])]
      · rw [resumePoint_cons htoken, Cursor.resume_eq,
          Cursor.advance_cons htoken]

/-- The failures depend on the tokens only. -/
theorem declarations_errors {bound : Nat} {cursor : Cursor}
    (hbound : cursor.rest.length ≤ bound) (firstId : PlaceId) :
    (declarations bound cursor).errors =
      (read cursor.rest firstId).errors := by
  rw [← (read_anyPlaces cursor.rest cursor.nextId firstId).errors_eq]
  exact congrArg Reading.errors
    (declarations_previous cursor.rest cursor.nextId cursor.previous _ hbound
      (Nat.le_refl _))

theorem Declarations.avoids_append {rest : List Token}
    (h : Declarations ts n ss m) (hrest : Avoids (· = .elseWord) rest) :
    Avoids (· = .elseWord) (ts ++ rest) := by
  cases h with
  | nil => exact hrest
  | cons h _ =>
      rw [List.append_assoc]
      exact h.avoids rfl _

theorem Declarations.errors_append {rest : List Token}
    (hrest : Avoids (· = .elseWord) rest) (firstId : PlaceId) :
    Declarations ts n ss m → ∀ (bound : Nat) (previous : Token),
      (ts ++ rest).length ≤ bound →
      (declarations bound ⟨previous, ts ++ rest, n⟩).errors =
        (read rest firstId).errors
  | .nil, _, _, hbound => declarations_errors hbound firstId
  | .cons h hmore, bound, previous, hbound => by
      have hpos := h.length_pos
      have helse := hmore.avoids_append hrest
      rw [List.append_assoc] at hbound ⊢
      rw [List.length_append] at hbound
      obtain ⟨bound, rfl⟩ := exists_succ_of_pos (by omega : 0 < bound)
      obtain ⟨last, hround⟩ := h.declarations_succ helse bound previous
      rw [hround]
      exact hmore.errors_append hrest firstId bound last (by omega)

/-- Whole declarations meet no failure, and what follows them is read on its
own. -/
theorem Declarations.read_append (h : Declarations ts n ss m)
    {rest : List Token} (hrest : Avoids (· = .elseWord) rest)
    (firstId : PlaceId) :
    (read (ts ++ rest) n).errors = (read rest firstId).errors :=
  h.errors_append hrest firstId _ _ (Nat.le_refl _)

/-- The fault is reported, and so are the failures behind the boundaries that
the declarations around it move on to. -/
theorem DeclarationNests.errors_eq (hfaulty : Faulty hole k e target)
    (h : DeclarationNests simple k k' ts n levels) (firstId : PlaceId) :
    (read (ts ++ hole) n).errors =
      e :: (read (resumePoint^[levels] target.rest) firstId).errors := by
  have hend : (Cursor.start (ts ++ hole) n).atEnd = false := by
    obtain ⟨token, rest, hrest, henters⟩ := h.head hfaulty
    rw [hrest, Cursor.start, Cursor.atEnd_cons, decide_eq_false_iff_not]
    exact ne_of_apply_ne entersDeclaration
      (by rw [henters]; simp [entersDeclaration])
  have hsettles := Cursor.settles hend
  rw [Cursor.start, h.fails hfaulty _
    (by simp only [Cursor.depthBound, List.length_append]; omega)] at hsettles
  -- The declaration has taken tokens, so the bound is enough for the rest.
  cases hsettles.strides with
  | error hne hpassed _ _ _ =>
      have hshorter := hpassed.length_lt hne
      dsimp only at hshorter
      obtain ⟨bound, hbound⟩ :=
        exists_succ_of_pos (by omega : 0 < (ts ++ hole).length)
      rw [read, Cursor.start, hbound, declarations_of_error hsettles,
        ← Cursor.resume_rest.iterate_right levels target]
      exact congrArg (e :: ·) (declarations_errors (by omega) firstId)

theorem DeclarationsNest.errors_eq (hfaulty : Faulty hole k e target)
    (h : DeclarationsNest simple k k' ts n levels) (firstId : PlaceId) :
    (read (ts ++ hole) n).errors =
      e :: (read (resumePoint^[levels] target.rest) firstId).errors := by
  obtain ⟨us, vs, ss, l, rfl, hus, hvs⟩ := h.split
  have helse : Avoids (· = .elseWord) (vs ++ hole) :=
    (DeclarationsNest.here hvs).avoids hfaulty rfl rfl
  rw [List.append_assoc, hus.read_append helse l, hvs.errors_eq hfaulty]

/-! ## A piece in the place of the statement -/

/-- What does not start with a brace or the word of a statement is read as an
expression. -/
theorem statement_eq_expressionStmt {previous token : Token}
    {rest : List Token} (hbrace : token.kind ≠ .leftBrace)
    (hstarts : startsStatement token.kind = false) (depth : Nat)
    (n : PlaceId) :
    statement (depth + 1) ⟨previous, token :: rest, n⟩ =
      expressionStmt ⟨previous, token :: rest, n⟩ := by
  have hother (kind : Token.Kind) (hkind : startsStatement kind = true) :
      Avoids (· = kind) (token :: rest) :=
    avoids_cons.mpr (ne_of_apply_ne startsStatement (by simp [hstarts, hkind]))
  rw [statement]
  iterate 4 rw [accept_else (hother _ rfl) (by simp)]
  rw [accept_else (avoids_cons.mpr hbrace) (by simp),
    accept_else (hother _ rfl) (by simp)]

theorem Plain.entersStatement {kind : Token.Kind} (h : Plain kind)
    (helse : kind ≠ .elseWord) : entersStatement kind = true := by
  obtain ⟨-, -, hbrace, heof, hstarts⟩ := h
  cases kind <;> simp_all [Grammar.entersStatement, startsStatement]

namespace Piece

variable {piece : Piece}

theorem fails_of_errors {stop : Token} (hstop : stop.kind = .eof)
    {otherId : PlaceId} {e : ParseError}
    (h : (read (piece.tokens ++ [stop]) otherId).errors = [e])
    (n : PlaceId) : ∃ k, piece.Fails n e k := by
  rw [← (read_anyPlaces (piece.tokens ++ [stop]) n otherId).errors_eq] at h
  rcases piece.reads_or_fails n with ⟨stmt, k, hpiece⟩ | ⟨e', k, hpiece⟩
  · rw [hpiece.read_eq hstop] at h
    cases h
  · rw [hpiece.read_eq hstop] at h
    cases h
    exact ⟨k, hpiece⟩

private theorem head_of_plain (hplain : ∀ token ∈ piece.body, Plain token.kind)
    (rest : List Token) :
    ∃ token more, piece.tokens ++ rest = token :: more ∧
      entersStatement token.kind = true ∧ token.kind ≠ .leftBrace ∧
      startsStatement token.kind = false := by
  unfold tokens
  cases hbody : piece.body with
  | nil =>
      refine ⟨piece.stop, rest, rfl, ?_⟩
      simp [piece.stop_kind, entersStatement, startsStatement]
  | cons token body =>
      have hkind := hplain token (by simp [hbody])
      have hfirst := piece.first token (by simp [hbody])
      exact ⟨token, _, rfl, hkind.entersStatement hfirst.2.2.2.2.2,
        hkind.2.1, hkind.2.2.2.2⟩

/-- A piece of plain tokens is read as an expression and nothing else. -/
theorem declaration_of_plain
    (hplain : ∀ token ∈ piece.body, Plain token.kind) (depth : Nat)
    (previous : Token) (rest : List Token) (n : PlaceId) :
    declaration (depth + 2) ⟨previous, piece.tokens ++ rest, n⟩ =
      resuming expressionStmt ⟨previous, piece.tokens ++ rest, n⟩ := by
  obtain ⟨token, more, hrest, henters, hbrace, hstarts⟩ :=
    head_of_plain hplain rest
  rw [hrest, declaration_eq_resuming henters]
  unfold resuming
  rw [statement_eq_expressionStmt hbrace hstarts]

/-- It fails in the same way whatever follows. -/
theorem Fails.expressionStmt_eq {n k : PlaceId} {e : ParseError}
    (h : piece.Fails n e k)
    (hplain : ∀ token ∈ piece.body, Plain token.kind) (previous : Token)
    (rest : List Token) :
    ∃ fault, expressionStmt ⟨previous, piece.tokens ++ rest, n⟩ =
        .error e fault ∧
      fault.resume = ⟨piece.stop, rest, k⟩ := by
  have halone := (h previous [] (by simp [Avoids])).2 (_ + 2)
    (Nat.le_add_right _ 2)
  rw [declaration_of_plain hplain] at halone
  have hsame := (expressionStmt_parallel (piece.pairing_reads [] rest)
    (piece.pairing_stops [] rest) _ _
    (piece.inside_start previous previous [] rest n).starts).of_lands
    (expressionStmt_lands _) (expressionStmt_lands _)
  rcases hsame with ⟨stmt, next, _, _, hfirst, -, -⟩ |
    ⟨e', fault, e'', fault', hfirst, hsecond, rfl, hinside⟩
  · unfold resuming at halone
    rw [hfirst] at halone
    cases halone
  · rw [resuming_eq_error hfirst] at halone
    obtain ⟨nextId, hresume, hresume'⟩ := hinside.resume
    rw [hresume] at halone
    cases halone
    exact ⟨fault', hsecond, hresume'⟩

/-- Wherever a statement is expected, the piece fails as it does alone. -/
theorem Fails.faulty {n k : PlaceId} {e : ParseError} (h : piece.Fails n e k)
    (hplain : ∀ token ∈ piece.body, Plain token.kind) (rest : List Token) :
    Faulty (piece.tokens ++ rest) n e ⟨piece.stop, rest, k⟩ := by
  obtain ⟨token, more, hrest, henters, hbrace, hstarts⟩ :=
    head_of_plain hplain rest
  refine ⟨⟨token, more, hrest, henters⟩, fun depth previous => ?_⟩
  have hfails := h.expressionStmt_eq hplain previous rest
  rw [hrest] at hfails ⊢
  rw [statement_eq_expressionStmt hbrace hstarts]
  exact hfails

/-! ### Boundaries between pieces -/

theorem resumePoint_join (pieces : List Piece) {stop : Token}
    (hstop : stop.kind = .eof) :
    resumePoint (join pieces ++ [stop]) = join pieces.tail ++ [stop] := by
  cases pieces with
  | nil => exact resumePoint_of_eof hstop []
  | cons piece pieces =>
      rw [join, List.flatMap_cons, tokens, List.append_assoc,
        List.append_assoc, resumePoint, Cursor.start]
      exact congrArg Cursor.rest (piece.resume_eq List.suffix_rfl _ _ 0)

private theorem skipToBoundary_closings {closings : List Token}
    (hclosings : ∀ token ∈ closings, token.kind = .rightBrace)
    {previous : Token} (hprevious : previous.kind = .rightBrace)
    (rest : List Token) :
    ∃ last, last.kind = .rightBrace ∧
      skipToBoundary previous (closings ++ rest) =
        skipToBoundary last rest := by
  induction closings generalizing previous with
  | nil => exact ⟨previous, hprevious, rfl⟩
  | cons closing closings ih =>
      have hclosing := hclosings closing (by simp)
      obtain ⟨last, hlast, heq⟩ :=
        ih (fun token hmem => hclosings token (by simp [hmem])) hclosing
      refine ⟨last, hlast, ?_⟩
      rw [List.cons_append, skipToBoundary, if_neg, heq]
      simp [hclosing, hprevious, startsStatement]

private theorem starts_of_not_plain
    (h : ¬ ∀ token ∈ piece.body, Plain token.kind) :
    ∃ token more, piece.body = token :: more ∧
      startsStatement token.kind = true := by
  have hfirst := piece.first
  have hinner := piece.inner
  cases hbody : piece.body with
  | nil => simp [hbody] at h
  | cons token more =>
      rw [hbody] at h hfirst hinner
      obtain ⟨hstop, hopening, hclosing, heof, -, -⟩ := hfirst token rfl
      refine ⟨token, more, rfl, ?_⟩
      by_contra hstarts
      refine h fun other hmem => ?_
      rcases List.mem_cons.mp hmem with rfl | hmem
      · exact ⟨hstop, hopening, hclosing, heof, by simpa using hstarts⟩
      · exact hinner other hmem

/-- Behind a brace the first piece is skipped unless it starts with the word of
a statement. -/
theorem skipToBoundary_join (pieces : List Piece) {stop last : Token}
    (hstop : stop.kind = .eof) (hlast : last.kind = .rightBrace) :
    ∃ pieces', pieces' <:+ pieces ∧
      (skipToBoundary last (join pieces ++ [stop])).2 =
        join pieces' ++ [stop] := by
  cases pieces with
  | nil =>
      refine ⟨[], List.suffix_rfl, ?_⟩
      rw [join, List.flatMap_nil, List.nil_append, skipToBoundary,
        if_pos (.inl hstop)]
  | cons piece pieces =>
      by_cases hplain : ∀ token ∈ piece.body, Plain token.kind
      · refine ⟨pieces, List.suffix_cons piece pieces, ?_⟩
        rw [join, List.flatMap_cons, tokens, List.append_assoc,
          List.append_assoc, List.singleton_append,
          skipToBoundary_plain hplain piece.stop_kind (by simp [hlast]),
          skipToBoundary_semicolon piece.stop_kind]
        rfl
      · obtain ⟨token, more, hbody, hstarts⟩ := starts_of_not_plain hplain
        refine ⟨piece :: pieces, List.suffix_rfl, ?_⟩
        rw [join, List.flatMap_cons, tokens, hbody]
        simp only [List.cons_append]
        rw [skipToBoundary, if_pos (.inr (.inr hstarts))]

theorem resumePoint_closings {closings : List Token}
    (hclosings : ∀ token ∈ closings, token.kind = .rightBrace)
    (pieces : List Piece) {stop : Token} (hstop : stop.kind = .eof) :
    ∃ pieces', pieces' <:+ pieces ∧
      resumePoint (closings ++ (join pieces ++ [stop])) =
        join pieces' ++ [stop] := by
  cases closings with
  | nil => exact ⟨pieces.tail, pieces.tail_suffix, resumePoint_join _ hstop⟩
  | cons closing closings =>
      have hclosing := hclosings closing List.mem_cons_self
      obtain ⟨last, hlast, heq⟩ := skipToBoundary_closings
        (fun token hmem => hclosings token (List.mem_cons_of_mem _ hmem))
        hclosing (join pieces ++ [stop])
      rw [List.cons_append, resumePoint_cons (by simp [hclosing]), heq]
      exact skipToBoundary_join pieces hstop hlast

/-- However often the reading moves on, it comes in front of a piece or to the
end. -/
theorem resumePoint_iterate {closings : List Token}
    (hclosings : ∀ token ∈ closings, token.kind = .rightBrace)
    (pieces : List Piece) {stop : Token} (hstop : stop.kind = .eof)
    (levels : Nat) :
    ∃ pieces', pieces' <:+ pieces ∧
      resumePoint^[levels + 1] (closings ++ (join pieces ++ [stop])) =
        join pieces' ++ [stop] := by
  induction levels with
  | zero => exact resumePoint_closings hclosings pieces hstop
  | succ levels ih =>
      obtain ⟨pieces', hpieces, heq⟩ := ih
      rw [Function.iterate_succ_apply', heq, resumePoint_join _ hstop]
      exact ⟨pieces'.tail, pieces'.tail_suffix.trans hpieces, rfl⟩

theorem errors_of_suffix {pieces pieces' : List Piece} {stop stop' : Token}
    (hstop : stop.kind = .eof) (hstop' : stop'.kind = .eof)
    {otherId : PlaceId}
    (hnone : ∀ piece ∈ pieces,
      (read (piece.tokens ++ [stop']) otherId).errors = [])
    (hpieces : pieces' <:+ pieces) :
    (read (join pieces' ++ [stop]) otherId).errors = [] := by
  have herrors := (declarations_join hstop hstop' otherId pieces'
    (join pieces' ++ [stop]).length (by simp) ⟨.eof, "", 0⟩ otherId).1
  exact herrors.trans (List.flatMap_eq_nil_iff.mpr
    fun piece hmem => hnone piece (hpieces.subset hmem))

end Piece

/-! ## Failures of the changed program -/

theorem Reading.errors_eq_nil {reading : Reading} {program : Program}
    (h : reading.program = .ok program) : reading.errors = [] := by
  cases herrors : reading.errors with
  | nil => rfl
  | cons e errors => simp [Reading.program, herrors] at h

/-- What follows a statement outside of all blocks is read on its own. -/
theorem DeclarationsNest.errors_outside
    (h : DeclarationsNest simple k k' before firstId 0) {rest : List Token}
    (helse : Avoids (· = .elseWord) rest) {program : Program}
    (hprogram : (read (before ++ (simple ++ rest)) firstId).program =
      .ok program) (otherId : PlaceId) :
    (read rest otherId).errors = [] := by
  obtain ⟨us, vs, ss, l, rfl, hus, hvs⟩ := h.split
  obtain ⟨s, d⟩ := hvs.fill
  have hnone := Reading.errors_eq_nil hprogram
  have helse' : Avoids (· = .elseWord) (vs ++ (simple ++ rest)) := by
    rw [← List.append_assoc]
    exact d.avoids rfl rest
  rw [List.append_assoc, hus.read_append helse' l, ← List.append_assoc,
    ← List.append_nil (vs ++ simple),
    (Declarations.cons d .nil).read_append helse otherId] at hnone
  exact hnone

theorem Avoids.append {kinds : Token.Kind → Prop} {tokens : List Token}
    (h : Avoids kinds tokens) {stop : Token} (hstop : ¬ kinds stop.kind) :
    Avoids kinds (tokens ++ [stop]) := by
  cases tokens with
  | nil => exact avoids_cons.mpr hstop
  | cons token tokens => exact avoids_cons.mpr (avoids_cons.mp h)

/-- Where the simple statement of a program gives way to a malformed piece, the
failure of the piece is reported.  Each declaration around it moves on to one
more boundary, and failures behind the last of them are reported as well.
There are none if the statement is outside of all blocks and no `else` follows,
or if only closing braces and simple statements follow. -/
theorem read_nested_failure {piece : Piece}
    (hplain : ∀ token ∈ piece.body, Plain token.kind) {stop stop' : Token}
    (hstop : stop.kind = .eof) (hstop' : stop'.kind = .eof)
    {before simple after : List Token} {firstId otherId k k' : PlaceId}
    {levels : Nat} {program : Program} {e : ParseError}
    (hnests : DeclarationsNest simple k k' before firstId levels)
    (hprogram : (read (before ++ (simple ++ (after ++ [stop])))
      firstId).program = .ok program)
    (halone : (read (piece.tokens ++ [stop']) otherId).errors = [e]) :
    (read (before ++ (piece.tokens ++ (after ++ [stop]))) firstId).errors =
        e :: (read (resumePoint^[levels] (after ++ [stop])) otherId).errors ∧
      (levels = 0 → Avoids (· = .elseWord) after →
        (read (before ++ (piece.tokens ++ (after ++ [stop])))
          firstId).errors = [e]) ∧
      (∀ closings pieces, after = closings ++ Piece.join pieces →
        (∀ token ∈ closings, token.kind = .rightBrace) →
        (∀ piece ∈ pieces,
          (read (piece.tokens ++ [stop']) otherId).errors = []) →
        (read (before ++ (piece.tokens ++ (after ++ [stop])))
          firstId).errors = [e]) := by
  obtain ⟨nextId, hfails⟩ := Piece.fails_of_errors hstop' halone k
  have herrors :
      (read (before ++ (piece.tokens ++ (after ++ [stop]))) firstId).errors =
        e :: (read (resumePoint^[levels] (after ++ [stop]))
          otherId).errors :=
    hnests.errors_eq (hfails.faulty hplain (after ++ [stop])) otherId
  refine ⟨herrors, ?_, ?_⟩
  · rintro rfl helse
    have hrest := helse.append (by simp [hstop] : ¬ stop.kind = .elseWord)
    rw [herrors, Function.iterate_zero_apply,
      hnests.errors_outside hrest hprogram]
  · rintro closings pieces rfl hclosings hnone
    rw [herrors]
    simp only [List.append_assoc] at hprogram ⊢
    -- Outside of all blocks nothing is skipped, so the program itself tells
    -- that the rest can be read.
    cases levels with
    | zero =>
        have helse : Avoids (· = .elseWord)
            (closings ++ (Piece.join pieces ++ [stop])) := by
          cases closings with
          | nil => exact Piece.avoids_else_join pieces hstop
          | cons closing closings =>
              rw [List.cons_append, avoids_cons,
                hclosings closing List.mem_cons_self]
              simp
        rw [Function.iterate_zero_apply,
          hnests.errors_outside helse hprogram]
    | succ levels =>
        obtain ⟨pieces', hpieces, heq⟩ :=
          Piece.resumePoint_iterate hclosings pieces hstop levels
        rw [heq, Piece.errors_of_suffix hstop hstop' hnone hpieces]

def semicolon : Token :=
  ⟨.semicolon, ";", 1⟩

namespace Piece

/-- `1 2;` -/
def twoNumbers : Piece where
  body := [⟨.number 1, "1", 1⟩, ⟨.number 2, "2", 1⟩]
  stop := semicolon
  stop_kind := rfl
  first := by decide
  inner := by decide

/-- `print 2;` -/
def printNumber : Piece where
  body := [⟨.printWord, "print", 1⟩, ⟨.number 2, "2", 1⟩]
  stop := semicolon
  stop_kind := rfl
  first := by decide
  inner := by decide

end Piece

/-- `return;` -/
def bareReturn : List Token :=
  [⟨.returnWord, "return", 1⟩, semicolon]

theorem bareReturn_simple (n : PlaceId) :
    SimpleStatement bareReturn n (.ret 1 none) n :=
  .ret rfl .absent rfl

/-- `print 2; }` -/
def restOfBlock : List Token :=
  Piece.printNumber.tokens ++ [⟨.rightBrace, "\x7d", 1⟩]

/-- One malformed statement is not always reported once: in
`{ 1 2; print 2; }` the statement behind it is skipped as well, and then the
brace of the block stands alone. -/
theorem failure_in_block_reported_twice :
    DeclarationsNest bareReturn 0 0 [⟨.leftBrace, "\x7b", 1⟩] 0 1 ∧
    (∃ program,
      (read ([⟨.leftBrace, "\x7b", 1⟩] ++
        (bareReturn ++ (restOfBlock ++ [⟨.eof, "", 1⟩]))) 0).program =
          .ok program) ∧
    (read (Piece.twoNumbers.tokens ++ [⟨.eof, "", 1⟩]) 0).errors =
      [⟨.expected .expressionEnd, 1⟩] ∧
    (read ([⟨.leftBrace, "\x7b", 1⟩] ++
        (Piece.twoNumbers.tokens ++ (restOfBlock ++ [⟨.eof, "", 1⟩])))
        0).errors =
      [⟨.expected .expressionEnd, 1⟩, ⟨.expectedExpression "\x7d", 1⟩] :=
  ⟨.here (.statement (.block rfl
    (.here (.statement (.here (bareReturn_simple 0)))))),
    ⟨_, rfl⟩, rfl, rfl⟩

/-- `class C { m() { {` -/
def intoMethod : List Token :=
  [⟨.classWord, "class", 1⟩, ⟨.identifier, "C", 1⟩, ⟨.leftBrace, "\x7b", 1⟩,
    ⟨.identifier, "m", 1⟩, ⟨.leftParen, "(", 1⟩, ⟨.rightParen, ")", 1⟩,
    ⟨.leftBrace, "\x7b", 1⟩, ⟨.leftBrace, "\x7b", 1⟩]

theorem intoMethod_nests :
    DeclarationsNest bareReturn 0 0 intoMethod 0 2 :=
  .here (.baseClass rfl rfl rfl (.here (.mk rfl rfl .absent rfl rfl
    (.here (.statement (.block rfl
      (.here (.statement (.here (bareReturn_simple 0))))))))))

/-- `} } } if (c) d; print 2;` -/
def outOfMethod : List Token :=
  List.replicate 3 ⟨.rightBrace, "\x7d", 1⟩ ++
    Piece.join [.branch, .printNumber]

/-- Two declarations deep in a class, a malformed statement is reported once,
and so it is in front of all declarations. -/
theorem failure_in_method_reported_once :
    (read (intoMethod ++ (Piece.twoNumbers.tokens ++
        (outOfMethod ++ [⟨.eof, "", 2⟩]))) 0).errors =
      [⟨.expected .expressionEnd, 1⟩] ∧
    (read (Piece.twoNumbers.tokens ++ (Piece.printNumber.tokens ++
        [⟨.eof, "", 1⟩])) 0).errors =
      [⟨.expected .expressionEnd, 1⟩] := by
  have hplain : ∀ token ∈ Piece.twoNumbers.body, Plain token.kind := by
    simp [Piece.twoNumbers, Plain, startsStatement]
  have hinside := @read_nested_failure .twoNumbers hplain ⟨.eof, "", 2⟩
    ⟨.eof, "", 1⟩ rfl rfl intoMethod bareReturn outOfMethod 0 7 0 0 2 _ _
    intoMethod_nests rfl rfl
  have houtside := @read_nested_failure .twoNumbers hplain ⟨.eof, "", 1⟩
    ⟨.eof, "", 1⟩ rfl rfl [] bareReturn Piece.printNumber.tokens 0 7 0 0 0 _ _
    (.here (.statement (.here (bareReturn_simple 0)))) rfl rfl
  refine ⟨hinside.2.2 _ _ rfl ?_ ?_, houtside.2.1 rfl ?_⟩
  · intro token hmem
    rw [List.eq_of_mem_replicate hmem]
  · intro piece hmem
    simp only [List.mem_cons, List.not_mem_nil, or_false] at hmem
    rcases hmem with rfl | rfl
    · rfl
    · rfl
  · exact avoids_cons.mpr (by simp)

end Grammar
end LoxLang
