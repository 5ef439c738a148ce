import LoxLang.Proofs.Grammar.Rounds
import LoxLang.Proofs.Likeness.Grammar

/-!
# Pieces of a program

A piece is a run of tokens up to a semicolon that could be a simple statement.
Whether a piece is read or fails is decided inside it: in both cases the
reading goes on right behind its semicolon.  So a list of pieces meets exactly
the failures that the pieces meet alone.
-/

namespace LoxLang

/-- Any places may stand for each other. -/
def Likeness.anyPlaces : Likeness :=
  .places fun _ _ => True

theorem Stmt.AllAlike.append {like : Likeness} :
    {stmts stmts' more more' : List Stmt} →
      Stmt.AllAlike like stmts stmts' → Stmt.AllAlike like more more' →
      Stmt.AllAlike like (stmts ++ more) (stmts' ++ more')
  | _, _, _, _, .nil, hmore => hmore
  | _, _, _, _, .cons hstmt hstmts, hmore => .cons hstmt (hstmts.append hmore)

namespace Grammar

/-- A token of this kind neither ends a statement nor starts one by its word. -/
def Plain (kind : Token.Kind) : Prop :=
  kind ≠ .semicolon ∧ kind ≠ .leftBrace ∧ kind ≠ .rightBrace ∧ kind ≠ .eof ∧
    startsStatement kind = false

instance : DecidablePred Plain :=
  fun _ => inferInstanceAs (Decidable (_ ∧ _))

/-- A token of this kind can be the first one of a piece. -/
def OpensPiece (kind : Token.Kind) : Prop :=
  kind ≠ .semicolon ∧ kind ≠ .leftBrace ∧ kind ≠ .rightBrace ∧ kind ≠ .eof ∧
    kind ≠ .forWord ∧ kind ≠ .elseWord

instance : DecidablePred OpensPiece :=
  fun _ => inferInstanceAs (Decidable (_ ∧ _))

/-- Tokens up to a semicolon, of which only the first may be the first word of
a statement. -/
structure Piece where
  body : List Token
  stop : Token
  stop_kind : stop.kind = .semicolon
  first : ∀ token ∈ body.head?, OpensPiece token.kind
  inner : ∀ token ∈ body.tail, Plain token.kind

namespace Piece

variable (piece : Piece)

def tokens : List Token :=
  piece.body ++ [piece.stop]

/-- All pieces one behind the other. -/
def join (pieces : List Piece) : List Token :=
  pieces.flatMap tokens

variable {piece}

theorem kind_of_mem {token : Token} (h : token ∈ piece.body) :
    token.kind ≠ .semicolon ∧ token.kind ≠ .leftBrace ∧
      token.kind ≠ .eof ∧ token.kind ≠ .forWord := by
  have hfirst := piece.first
  have hinner := piece.inner
  cases hbody : piece.body with
  | nil =>
      rw [hbody] at h
      cases h
  | cons head tail =>
      rw [hbody] at h hfirst hinner
      rcases List.mem_cons.mp h with rfl | htail
      · obtain ⟨hstop, hbrace, -, heof, hfor, -⟩ := hfirst token rfl
        exact ⟨hstop, hbrace, heof, hfor⟩
      · obtain ⟨hstop, hbrace, -, heof, hstarts⟩ := hinner token htail
        refine ⟨hstop, hbrace, heof, fun hfor => ?_⟩
        rw [hfor] at hstarts
        cases hstarts

/-! ## Two readings of one piece -/

/-- Both readings are at the same token of the piece.  Behind the piece the
tokens may go on differently. -/
def Inside (piece : Piece) (rest rest' : List Token) (c c' : Cursor) : Prop :=
  ∃ after, after <:+ piece.body ∧ c.rest = after ++ piece.stop :: rest ∧
    c'.rest = after ++ piece.stop :: rest' ∧ c.nextId = c'.nextId

/-- Both readings are right behind the piece. -/
def AtStop (piece : Piece) (rest rest' : List Token) (c c' : Cursor) : Prop :=
  ∃ nextId, c = ⟨piece.stop, rest, nextId⟩ ∧ c' = ⟨piece.stop, rest', nextId⟩

namespace Inside

variable {rest rest' : List Token} {c c' : Cursor}

theorem heads (h : piece.Inside rest rest' c c') :
    ∃ token more more', c.rest = token :: more ∧ c'.rest = token :: more' ∧
      (token = piece.stop ∨ token ∈ piece.body) := by
  obtain ⟨after, hafter, hrest, hrest', -⟩ := h
  cases after with
  | nil => exact ⟨piece.stop, rest, rest', hrest, hrest', .inl rfl⟩
  | cons token after =>
      exact ⟨token, _, _, hrest, hrest', .inr (hafter.subset (by simp))⟩

theorem here_eq (h : piece.Inside rest rest' c c') : c.here = c'.here := by
  obtain ⟨token, more, more', hrest, hrest', -⟩ := h.heads
  rw [Cursor.here, Cursor.here, hrest, hrest']
  rfl

theorem sees_eq (h : piece.Inside rest rest' c c') (kind : Token.Kind) :
    c.sees kind = c'.sees kind := by
  obtain ⟨token, more, more', hrest, hrest', -⟩ := h.heads
  unfold Cursor.sees Cursor.atEnd
  rw [h.here_eq, hrest, hrest']

theorem starts {failures : ParseError → Cursor → ParseError → Cursor → Prop}
    {like : Likeness} (h : piece.Inside rest rest' c c') :
    Pairing.Starts ⟨piece.Inside rest rest', failures, like⟩ c c' := by
  obtain ⟨token, more, more', hrest, hrest', -⟩ := h.heads
  exact ⟨h, by simp [Cursor.Ready, hrest], by simp [Cursor.Ready, hrest']⟩

/-- A kind of token that is not in the piece is not seen. -/
theorem absent (h : piece.Inside rest rest' c c') {kind : Token.Kind}
    (hne : kind ≠ .eof) (hstop : kind ≠ .semicolon)
    (hbody : ∀ token ∈ piece.body, token.kind ≠ kind) :
    c.sees kind = false ∧ c'.sees kind = false := by
  obtain ⟨token, more, more', hrest, hrest', hmem⟩ := h.heads
  have hkind : token.kind ≠ kind := by
    rcases hmem with rfl | hmem
    · rw [piece.stop_kind]
      exact hstop.symm
    · exact hbody token hmem
  rw [Cursor.sees_eq_false_iff hne, Cursor.sees_eq_false_iff hne, hrest,
    hrest', avoids_cons, avoids_cons]
  exact ⟨hkind, hkind⟩

private theorem advance (h : piece.Inside rest rest' c c') {kind : Token.Kind}
    (hne : kind ≠ .eof) (hkind : kind ≠ .semicolon)
    (hsees : c.sees kind = true) :
    piece.Inside rest rest' c.advance c'.advance := by
  obtain ⟨token, more, hmore, htoken⟩ :=
    (Cursor.sees_eq_true_iff hne).mp hsees
  obtain ⟨after, hafter, hrest, hrest', hnextId⟩ := h
  rw [hmore] at hrest
  cases after with
  | nil =>
      obtain ⟨rfl, -⟩ := List.cons.inj hrest
      exact absurd (htoken.symm.trans piece.stop_kind) hkind
  | cons first after =>
      obtain ⟨rfl, rfl⟩ := List.cons.inj hrest
      have hfirst : token.kind ≠ .eof := htoken ▸ hne
      obtain ⟨previous, tokens, nextId⟩ := c
      obtain ⟨previous', tokens', nextId'⟩ := c'
      subst hmore hrest'
      rw [List.cons_append, Cursor.advance_cons hfirst,
        Cursor.advance_cons hfirst]
      exact ⟨after, (List.suffix_cons token after).trans hafter, rfl, rfl,
        hnextId⟩

/-- The semicolon that comes next is the one behind the piece. -/
theorem atStop (h : piece.Inside rest rest' c c')
    (hsees : c.sees .semicolon = true) :
    c.here = piece.stop ∧ piece.AtStop rest rest' c.advance c'.advance := by
  obtain ⟨token, more, hmore, htoken⟩ :=
    (Cursor.sees_eq_true_iff (by simp)).mp hsees
  obtain ⟨after, hafter, hrest, hrest', hnextId⟩ := h
  cases after with
  | nil =>
      have hstop : piece.stop.kind ≠ .eof := by simp [piece.stop_kind]
      obtain ⟨previous, tokens, nextId⟩ := c
      obtain ⟨previous', tokens', nextId'⟩ := c'
      subst hrest hrest' hnextId
      rw [List.nil_append, List.nil_append, Cursor.advance_cons hstop,
        Cursor.advance_cons hstop]
      exact ⟨rfl, nextId, rfl, rfl⟩
  | cons first after =>
      rw [hmore] at hrest
      obtain ⟨rfl, -⟩ := List.cons.inj hrest
      have hmem : token ∈ piece.body := hafter.subset (by simp)
      exact absurd htoken (kind_of_mem hmem).1

end Inside

/-- The two readings fail together, inside the piece. -/
def pairing (piece : Piece) (rest rest' : List Token) : Pairing where
  places := piece.Inside rest rest'
  failures e c e' c' := e = e' ∧ piece.Inside rest rest' c c'
  like := .places Eq

theorem pairing_reads (rest rest' : List Token) :
    (piece.pairing rest rest').Reads InExpression where
  ne_eof _ hkind := hkind.2
  sees _ _ kind h _ := h.sees_eq kind
  take _ _ _ h hkind hsees :=
    ⟨.of_eq h.here_eq, h.advance hkind.2 hkind.1 hsees⟩
  nextId := by
    rintro c c' ⟨_, _, _, _, hnextId⟩
    exact hnextId
  count := by
    rintro c c' ⟨after, hafter, hrest, hrest', hnextId⟩
    exact ⟨after, hafter, hrest, hrest', congrArg (· + 1) hnextId⟩
  failHere _ _ cause h := ⟨by rw [h.here_eq], h⟩
  missing _ _ h := ⟨by rw [Cursor.missing, Cursor.missing, h.here_eq], h⟩
  target := by rintro c c' line _ h rfl; exact ⟨rfl, h⟩

theorem pairing_stops (rest rest' : List Token) :
    (piece.pairing rest rest').Stops (piece.AtStop rest rest') where
  sees _ _ h := h.sees_eq .semicolon
  expect what := by
    intro c c' h
    unfold expect
    rw [← h.sees_eq .semicolon]
    split
    next hsees => exact .ok (.of_eq h.here_eq) (h.atStop hsees).2
    next => exact .error ⟨by rw [h.here_eq], h⟩

end Piece

/-! ### Tokens that are not there -/

namespace Parallel

variable {failures : ParseError → Cursor → ParseError → Cursor → Prop}
variable {pre post : Cursor → Cursor → Prop} {values : α → α → Prop}

private theorem acceptAbsent {kind : Token.Kind}
    (h : ∀ c c', pre c c' → c.sees kind = false ∧ c'.sees kind = false)
    {x x' y y' : Parse α} (hno : Parallel failures pre post values y y') :
    Parallel failures pre post values
      (accept kind >>= fun b => if b = true then x else y)
      (accept kind >>= fun b => if b = true then x' else y') := by
  intro c c' hpre
  obtain ⟨hsees, hsees'⟩ := h c c' hpre
  rw [choose_else (accept_of_not_sees hsees),
    choose_else (accept_of_not_sees hsees')]
  exact hno c c' hpre

theorem ofFalse {x y : Parse α} :
    Parallel failures (fun _ _ => False) post values x y :=
  fun _ _ h => h.elim

end Parallel

namespace Piece

variable {piece : Piece} {rest rest' : List Token}

/-- There is no brace in a piece. -/
theorem brace_parallel {values : Token → Token → Prop}
    (what : ParseError.Expectation) :
    (piece.pairing rest rest').Links (piece.Inside rest rest')
      (fun _ _ => False) values (expect .leftBrace what)
      (expect .leftBrace what) := by
  intro c c' h
  obtain ⟨hsees, hsees'⟩ := h.absent (by simp) (by simp)
    fun token hmem => (kind_of_mem hmem).2.1
  unfold expect
  rw [if_neg (by simp [hsees]), if_neg (by simp [hsees'])]
  exact .error ⟨by rw [h.here_eq], h⟩

/-- The readings of the whole statement come right behind the piece, or fail
inside it. -/
theorem statement_parallel (helse : Avoids (· = .elseWord) rest)
    (helse' : Avoids (· = .elseWord) rest') (depth depth' : Nat) :
    (piece.pairing rest rest').Links (piece.pairing rest rest').Starts
      (piece.AtStop rest rest') (Stmt.Alike (.places Eq)) (statement depth)
      (statement depth') := by
  induction depth generalizing depth' with
  | zero => exact .usedUpFirst
  | succ depth ih =>
  cases depth' with
  | zero => exact .usedUpSecond
  | succ depth' =>
  have hreads := piece.pairing_reads rest rest'
  have hstops := piece.pairing_stops rest rest'
  have hstatement := ih depth'
  have hcovers := (piece.pairing rest rest').covers_starts
  refine Parallel.acceptAbsent ?_
    (hreads.accept_parallel (by simp [InExpression]) rfl hcovers ?_
      (hreads.accept_parallel (by simp [InExpression]) rfl hcovers ?_
        (hreads.accept_parallel (by simp [InExpression]) rfl hcovers
          (returnStmt_parallel hreads hstops)
          (Parallel.acceptAbsent ?_
            (hreads.accept_parallel (by simp [InExpression]) rfl hcovers
              (printStmt_parallel hreads hstops).behind
              (expressionStmt_parallel hreads hstops))))))
  · exact fun _ _ h => h.places.absent (by simp) (by simp)
      fun token hmem => (kind_of_mem hmem).2.2.2
  · refine (condition_parallel hreads _).starts.behind.bind
      fun _ _ htest => ?_
    refine hstatement.behind.bind fun _ _ hyes => ?_
    refine Parallel.acceptAbsent ?_ (.give (.branch htest hyes .none))
    rintro c c' ⟨nextId, rfl, rfl⟩
    exact ⟨(Cursor.sees_eq_false_iff (by simp)).mpr helse,
      (Cursor.sees_eq_false_iff (by simp)).mpr helse'⟩
  · refine (condition_parallel hreads _).starts.behind.bind
      fun _ _ htest => ?_
    exact hstatement.behind.bind fun _ _ hbody => .give (.loop htest hbody)
  · exact fun _ _ h => h.places.absent (by simp) (by simp)
      fun token hmem => (kind_of_mem hmem).2.1

/-! ## Recovery -/

theorem skipToBoundary_plain {tokens : List Token}
    (htokens : ∀ token ∈ tokens, Plain token.kind) {stop : Token}
    (hstop : stop.kind = .semicolon) {previous : Token}
    (hprevious : previous.kind ≠ .semicolon) (rest : List Token) :
    skipToBoundary previous (tokens ++ stop :: rest) =
      skipToBoundary stop rest := by
  induction tokens generalizing previous with
  | nil =>
      rw [List.nil_append, skipToBoundary, if_neg]
      simp [hstop, hprevious, startsStatement]
  | cons token tokens ih =>
      obtain ⟨hsemicolon, -, -, heof, hstarts⟩ := htokens token (by simp)
      rw [List.cons_append, skipToBoundary, if_neg]
      · exact ih (fun other hmem => htokens other (by simp [hmem])) hsemicolon
      · simp [heof, hprevious, hstarts]

theorem skipToBoundary_semicolon {previous : Token}
    (h : previous.kind = .semicolon) (rest : List Token) :
    skipToBoundary previous rest = (previous, rest) := by
  cases rest with
  | nil => rfl
  | cons token rest => rw [skipToBoundary, if_pos (.inr (.inl h))]

private theorem plain_of_suffix {token : Token} {after : List Token}
    (h : token :: after <:+ piece.body) :
    ∀ other ∈ after, Plain other.kind := by
  obtain ⟨before, hbefore⟩ := h
  intro other hmem
  apply piece.inner
  rw [← hbefore]
  cases before with
  | nil => exact hmem
  | cons first before => simp [hmem]

/-- From wherever in the piece, reading goes on right behind it. -/
theorem resume_eq {after : List Token} (hafter : after <:+ piece.body)
    (previous : Token) (rest : List Token) (nextId : PlaceId) :
    Cursor.resume ⟨previous, after ++ piece.stop :: rest, nextId⟩ =
      ⟨piece.stop, rest, nextId⟩ := by
  rw [Cursor.resume_eq]
  cases after with
  | nil =>
      have hstop : piece.stop.kind ≠ .eof := by simp [piece.stop_kind]
      rw [List.nil_append, Cursor.advance_cons hstop,
        skipToBoundary_semicolon piece.stop_kind]
  | cons token after =>
      have hkind := kind_of_mem (hafter.subset (by simp) : token ∈ piece.body)
      rw [List.cons_append, Cursor.advance_cons hkind.2.2.1,
        skipToBoundary_plain (plain_of_suffix hafter) piece.stop_kind hkind.1,
        skipToBoundary_semicolon piece.stop_kind]

theorem Inside.resume {c c' : Cursor} (h : piece.Inside rest rest' c c') :
    piece.AtStop rest rest' c.resume c'.resume := by
  obtain ⟨previous, tokens, nextId⟩ := c
  obtain ⟨previous', tokens', nextId'⟩ := c'
  obtain ⟨after, hafter, hrest, hrest', hnextId⟩ := h
  subst hrest hrest' hnextId
  rw [piece.resume_eq hafter, piece.resume_eq hafter]
  exact ⟨nextId, rfl, rfl⟩

/-- Whether they succeed or fail, both readings come right behind the piece.
The head of a function or a class always fails, for want of a brace. -/
theorem declaration_parallel (helse : Avoids (· = .elseWord) rest)
    (helse' : Avoids (· = .elseWord) rest') (depth depth' : Nat) :
    Parallel (fun e c e' c' => e = e' ∧ piece.AtStop rest rest' c c')
      (piece.pairing rest rest').Starts (piece.AtStop rest rest')
      (Stmt.Alike (.places Eq)) (declaration depth) (declaration depth') := by
  cases depth with
  | zero => exact .usedUpFirst
  | succ depth =>
  cases depth' with
  | zero => exact .usedUpSecond
  | succ depth' =>
  rw [declaration, declaration]
  have hreads := piece.pairing_reads rest rest'
  have hcovers := (piece.pairing rest rest').covers_starts
  refine Parallel.resuming
    (hreads.accept_parallel (by simp [InExpression]) rfl hcovers ?_
      (hreads.accept_parallel (by simp [InExpression]) rfl hcovers ?_
        (hreads.acceptVariable_parallel hcovers
          (variableDecl_parallel hreads (piece.pairing_stops rest rest'))
          (statement_parallel helse helse' depth depth'))))
    (fun e c e' c' hfailures => ⟨hfailures.1, hfailures.2.resume⟩)
  · refine Parallel.behind (Parallel.starts ?_)
    exact (classHead_parallel hreads brace_parallel).bind
      fun _ _ _ => .ofFalse
  · cases depth with
    | zero => exact .usedUpFirst
    | succ depth =>
    cases depth' with
    | zero => exact .usedUpSecond
    | succ depth' =>
    rw [function, function, bind_assoc, bind_assoc]
    refine Parallel.behind (Parallel.starts ?_)
    exact (functionHead_parallel hreads brace_parallel _).bind
      fun _ _ _ => .ofFalse

/-! ## One piece -/

/-- However the tokens go on, the piece is read as the statement. -/
def Reads (piece : Piece) (n : PlaceId) (stmt : Stmt) (k : PlaceId) : Prop :=
  ∀ previous rest, Avoids (· = .elseWord) rest →
    Cursor.Settles ⟨previous, piece.tokens ++ rest, n⟩
      (.ok stmt ⟨piece.stop, rest, k⟩)

/-- However the tokens go on, the piece fails with the error. -/
def Fails (piece : Piece) (n : PlaceId) (e : ParseError) (k : PlaceId) :
    Prop :=
  ∀ previous rest, Avoids (· = .elseWord) rest →
    Cursor.Settles ⟨previous, piece.tokens ++ rest, n⟩
      (.error e ⟨piece.stop, rest, k⟩)

theorem inside_start (piece : Piece) (previous previous' : Token)
    (rest rest' : List Token) (n : PlaceId) :
    piece.Inside rest rest' ⟨previous, piece.tokens ++ rest, n⟩
      ⟨previous', piece.tokens ++ rest', n⟩ :=
  ⟨piece.body, List.suffix_rfl, by simp [tokens], by simp [tokens], rfl⟩

private theorem atEnd_start (piece : Piece) (previous : Token)
    (rest : List Token)
    (n : PlaceId) :
    (⟨previous, piece.tokens ++ rest, n⟩ : Cursor).atEnd = false := by
  obtain ⟨token, more, -, hrest, -, hmem⟩ :=
    (piece.inside_start previous previous rest rest n).heads
  unfold Cursor.atEnd
  rw [hrest]
  rcases hmem with rfl | hmem
  · simp [piece.stop_kind]
  · simp [(kind_of_mem hmem).2.2.1]

/-- How a piece is read is decided inside it. -/
theorem reads_or_fails (piece : Piece) (n : PlaceId) :
    (∃ stmt k, piece.Reads n stmt k) ∨ ∃ e k, piece.Fails n e k := by
  -- One reading, with nothing behind the piece, stands for all others.
  have hend := piece.atEnd_start piece.stop [] n
  have hnone : Avoids (· = .elseWord) [] := by simp [Avoids]
  have hsame (previous : Token) (rest : List Token)
      (helse : Avoids (· = .elseWord) rest) :=
    (declaration_parallel hnone helse _ _ _ _
      (piece.inside_start piece.stop previous [] rest n).starts).of_lands
      (declaration_strides hend (Nat.le_refl _)).lands
      (declaration_strides (piece.atEnd_start previous rest n)
        (Nat.le_refl _)).lands
  cases hresult : declaration _
      (⟨piece.stop, piece.tokens ++ [], n⟩ : Cursor) with
  | ok stmt next =>
      refine .inl ⟨stmt, next.nextId, fun previous rest helse => ?_⟩
      have hsettles := Cursor.settles (piece.atEnd_start previous rest n)
      rcases hsame previous rest helse with
        ⟨_, _, _, _, hfirst, hsecond, hstmt, k, rfl, rfl⟩ |
        ⟨_, _, _, _, hfirst, -, -⟩
      · rw [hresult] at hfirst
        cases hfirst
        rw [hsecond, ← hstmt.eq] at hsettles
        exact hsettles
      · rw [hresult] at hfirst
        cases hfirst
  | error e next =>
      refine .inr ⟨e, next.nextId, fun previous rest helse => ?_⟩
      have hsettles := Cursor.settles (piece.atEnd_start previous rest n)
      rcases hsame previous rest helse with
        ⟨_, _, _, _, hfirst, -, -⟩ |
        ⟨_, _, _, _, hfirst, hsecond, rfl, k, rfl, rfl⟩
      · rw [hresult] at hfirst
        cases hfirst
      · rw [hresult] at hfirst
        cases hfirst
        rw [hsecond] at hsettles
        exact hsettles

variable {n k : PlaceId} {stmt : Stmt} {e : ParseError} {stop : Token}

theorem declarations_end (hstop : stop.kind = .eof) (bound : Nat)
    (previous : Token) (n : PlaceId) :
    declarations bound ⟨previous, [stop], n⟩ = ⟨[], [], n⟩ :=
  declarations_of_atEnd (by simp [Cursor.atEnd_cons, hstop]) bound

theorem avoids_else_end (hstop : stop.kind = .eof) :
    Avoids (· = .elseWord) [stop] := by
  simp [avoids_cons, hstop]

theorem Reads.read_eq (h : piece.Reads n stmt k) (hstop : stop.kind = .eof) :
    read (piece.tokens ++ [stop]) n = ⟨[stmt], [], k⟩ := by
  unfold read
  rw [List.length_append, List.length_singleton, Cursor.start,
    declarations_of_ok (h _ [stop] (avoids_else_end hstop)),
    declarations_end hstop]

theorem Fails.read_eq (h : piece.Fails n e k) (hstop : stop.kind = .eof) :
    read (piece.tokens ++ [stop]) n = ⟨[], [e], k⟩ := by
  unfold read
  rw [List.length_append, List.length_singleton, Cursor.start,
    declarations_of_error (h _ [stop] (avoids_else_end hstop)),
    declarations_end hstop]

end Piece

/-! ## Lists of pieces -/

theorem read_anyPlaces (tokens : List Token) (firstId firstId' : PlaceId) :
    (read tokens firstId).Alike .anyPlaces (read tokens firstId') :=
  read_alike (fun _ _ _ => trivial)
    (List.forall₂_same.mpr fun _ _ => ⟨rfl, rfl, rfl⟩) trivial rfl

theorem Reading.Alike.errors_eq {a b : Reading} (h : a.Alike .anyPlaces b) :
    a.errors = b.errors := by
  rw [← List.forall₂_eq_eq_eq]
  refine h.errors.imp fun e e' halike => ?_
  cases e
  cases e'
  obtain ⟨rfl, rfl⟩ := halike
  rfl

theorem Piece.avoids_else_join (pieces : List Piece) {stop : Token}
    (hstop : stop.kind = .eof) :
    Avoids (· = .elseWord) (join pieces ++ [stop]) := by
  cases pieces with
  | nil => exact avoids_else_end hstop
  | cons piece pieces =>
      rw [join, List.flatMap_cons, tokens]
      cases hbody : piece.body with
      | nil => simp [avoids_cons, piece.stop_kind]
      | cons token body =>
          have hfirst := piece.first token (by simp [hbody])
          simp [avoids_cons, hfirst.2.2.2.2.2]

/-- The pieces are read one after the other, each as if it were alone. -/
theorem declarations_join {stop stop' : Token} (hstop : stop.kind = .eof)
    (hstop' : stop'.kind = .eof) (otherId : PlaceId) (pieces : List Piece)
    (bound : Nat) (hbound : (Piece.join pieces).length ≤ bound)
    (previous : Token) (n : PlaceId) :
    (declarations bound ⟨previous, Piece.join pieces ++ [stop], n⟩).errors =
        pieces.flatMap
          (fun piece => (read (piece.tokens ++ [stop']) otherId).errors) ∧
      Stmt.AllAlike .anyPlaces
        (declarations bound
          ⟨previous, Piece.join pieces ++ [stop], n⟩).statements
        (pieces.flatMap fun piece =>
          (read (piece.tokens ++ [stop']) otherId).statements) := by
  induction pieces generalizing bound previous n with
  | nil =>
      rw [Piece.join, List.flatMap_nil, List.nil_append,
        Piece.declarations_end hstop]
      exact ⟨rfl, .nil⟩
  | cons piece pieces ih =>
      have hjoin : Piece.join (piece :: pieces) ++ [stop] =
          piece.tokens ++ (Piece.join pieces ++ [stop]) := by
        simp [Piece.join]
      have hlength : (Piece.join (piece :: pieces)).length =
          piece.tokens.length + (Piece.join pieces).length := by
        rw [Piece.join, List.flatMap_cons, List.length_append]
        rfl
      have hpos : 0 < piece.tokens.length := by simp [Piece.tokens]
      obtain ⟨bound, rfl⟩ := exists_succ_of_pos (by omega : 0 < bound)
      have helse := Piece.avoids_else_join pieces hstop
      have halone := read_anyPlaces (piece.tokens ++ [stop']) n otherId
      rw [List.flatMap_cons, List.flatMap_cons, ← halone.errors_eq, hjoin]
      rcases piece.reads_or_fails n with ⟨stmt, k, hpiece⟩ | ⟨e, k, hpiece⟩
      · obtain ⟨herrors, hstatements⟩ := ih bound (by omega) piece.stop k
        rw [declarations_of_ok (hpiece previous _ helse),
          hpiece.read_eq hstop']
        have hfirst := halone.statements
        rw [hpiece.read_eq hstop'] at hfirst
        exact ⟨herrors, hfirst.append hstatements⟩
      · obtain ⟨herrors, hstatements⟩ := ih bound (by omega) piece.stop k
        rw [declarations_of_error (hpiece previous _ helse),
          hpiece.read_eq hstop']
        have hfirst := halone.statements
        rw [hpiece.read_eq hstop'] at hfirst
        exact ⟨congrArg (e :: ·) herrors, hfirst.append hstatements⟩

theorem Piece.errors_length_le (piece : Piece) {stop : Token}
    (hstop : stop.kind = .eof) (n : PlaceId) :
    (read (piece.tokens ++ [stop]) n).errors.length ≤ 1 := by
  rcases piece.reads_or_fails n with ⟨stmt, k, hpiece⟩ | ⟨e, k, hpiece⟩
  · rw [hpiece.read_eq hstop]
    exact Nat.zero_le _
  · rw [hpiece.read_eq hstop]
    exact Nat.le_refl _

/-- A list of pieces meets the failures that its pieces meet alone, in their
order, and each piece meets one at most.  If there are none, the program is
that of the pieces, but for the numbers of its places. -/
theorem read_join_pieces (pieces : List Piece) {stop stop' : Token}
    (hstop : stop.kind = .eof) (hstop' : stop'.kind = .eof)
    (firstId otherId : PlaceId) :
    (read (Piece.join pieces ++ [stop]) firstId).errors =
        pieces.flatMap
          (fun piece => (read (piece.tokens ++ [stop']) otherId).errors) ∧
      (∀ piece ∈ pieces,
        (read (piece.tokens ++ [stop']) otherId).errors.length ≤ 1) ∧
      ((∀ piece ∈ pieces,
          (read (piece.tokens ++ [stop']) otherId).errors = []) →
        ∃ program,
          (read (Piece.join pieces ++ [stop]) firstId).program = .ok program ∧
          Stmt.AllAlike .anyPlaces program
            (pieces.flatMap fun piece =>
              (read (piece.tokens ++ [stop']) otherId).statements)) := by
  obtain ⟨herrors, hstatements⟩ :=
    declarations_join hstop hstop' otherId pieces
      (Piece.join pieces ++ [stop]).length (by simp) ⟨.eof, "", 0⟩ firstId
  refine ⟨herrors, fun piece _ => piece.errors_length_le hstop' otherId, ?_⟩
  intro hnone
  have hempty : (read (Piece.join pieces ++ [stop]) firstId).errors = [] :=
    herrors.trans (List.flatMap_eq_nil_iff.mpr hnone)
  refine ⟨_, ?_, hstatements⟩
  rw [Reading.program, hempty]
  rfl

namespace Piece

/-- `a b;` -/
def twoNames : Piece where
  body := [⟨.identifier, "a", 1⟩, ⟨.identifier, "b", 1⟩]
  stop := ⟨.semicolon, ";", 1⟩
  stop_kind := rfl
  first := by decide
  inner := by decide

/-- `if (c) d;` -/
def branch : Piece where
  body := [⟨.ifWord, "if", 2⟩, ⟨.leftParen, "(", 2⟩, ⟨.identifier, "c", 2⟩,
    ⟨.rightParen, ")", 2⟩, ⟨.identifier, "d", 2⟩]
  stop := ⟨.semicolon, ";", 2⟩
  stop_kind := rfl
  first := by decide
  inner := by decide

/-- `class E < F;` -/
def bareClass : Piece where
  body := [⟨.classWord, "class", 3⟩, ⟨.identifier, "E", 3⟩, ⟨.less, "<", 3⟩,
    ⟨.identifier, "F", 3⟩]
  stop := ⟨.semicolon, ";", 3⟩
  stop_kind := rfl
  first := by decide
  inner := by decide

end Piece

/-- Two of three pieces fail, each once; the third alone is a program. -/
theorem pieces_recover :
    (read (Piece.join [.twoNames, .branch, .bareClass] ++ [⟨.eof, "", 3⟩])
        0).errors =
      [⟨.expected .expressionEnd, 1⟩, ⟨.expected .classBodyStart, 3⟩] ∧
    (read (Piece.branch.tokens ++ [⟨.eof, "", 2⟩]) 7).errors = [] ∧
    ∃ program,
      (read (Piece.join [.branch, .branch] ++ [⟨.eof, "", 2⟩]) 0).program =
        .ok program ∧ program.length = 2 := by
  have hmixed := @read_join_pieces [.twoNames, .branch, .bareClass]
    ⟨.eof, "", 3⟩ ⟨.eof, "", 2⟩ rfl rfl 0 7
  have hclean := @read_join_pieces [.branch, .branch] ⟨.eof, "", 2⟩
    ⟨.eof, "", 2⟩ rfl rfl 0 7
  have hbranch :
      (read (Piece.branch.tokens ++ [⟨.eof, "", 2⟩]) 7).errors = [] := rfl
  obtain ⟨program, hprogram, -⟩ := hclean.2.2 (by simp [hbranch])
  refine ⟨hmixed.1, hbranch, program, hprogram, ?_⟩
  cases hprogram
  rfl

end Grammar
end LoxLang
