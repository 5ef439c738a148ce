import LoxLang.Proofs.Grammar.Leaves
import LoxLang.Proofs.Json.Readback
import LoxLang.Token.Dump
import LoxLang.Tree.Dump

/-!
# Dumps of trees and tokens

Trees and tokens are read back from their data.  Their data is read back from
its text if all doubles in it are finite, so the text of a dump tells the tree
or the tokens, with all lines and places.
-/

namespace LoxLang

/-! ## Parts of data -/

namespace Json

section
variable {α : Type} {key other : String} {value : Json}
  {members : List (String × Json)} {read : Json → Option α}

@[simp] theorem readMember?_head :
    readMember? (.object ((key, value) :: members)) key read = read value := by
  simp [readMember?, member?]

@[simp] theorem readMember?_tail (h : key ≠ other) :
    readMember? (.object ((other, value) :: members)) key read =
      readMember? (.object members) key read := by
  have hbeq : (key == other) = false := by simpa using h
  simp [readMember?, member?, List.lookup, hbeq]

theorem readOption?_some
    {a : α} (hnull : value ≠ .null)
    (hvalue : read value = some a) :
    readOption? read value = some (some a) := by
  cases value with
  | null => exact absurd rfl hnull
  | _ => exact congrArg (Option.map some) hvalue

theorem readArray?_cons
    {items : List Json} {a : α} {as : List α}
    (hvalue : read value = some a)
    (hitems : readArray? read (.array items) = some as) :
    readArray? read (.array (value :: items)) = some (a :: as) := by
  change items.mapM read = some as at hitems
  simp [readArray?, array?, hvalue, hitems]

end

@[simp] theorem nat?_nat (n : Nat) : (nat n).nat? = some n := by
  simp [nat, nat?]

@[simp] theorem string?_string (text : String) :
    (Json.string text).string? = some text :=
  rfl

theorem exists_succ_of_depth_le {j : Json} {depth : Nat} (h : j.depth ≤ depth) :
    ∃ less, depth = less + 1 := by
  apply Nat.exists_eq_add_one.mpr
  refine Nat.lt_of_lt_of_le ?_ h
  cases j with
  | array items => exact Nat.succ_pos _
  | object members => exact Nat.succ_pos _
  | _ => exact Nat.one_pos

end Json

/-! ## Trees -/

@[simp] theorem UnaryOp.ofLabel?_label (op : UnaryOp) :
    ofLabel? op.label = some op := by
  cases op <;> rfl

@[simp] theorem BinaryOp.ofLabel?_label (op : BinaryOp) :
    ofLabel? op.label = some op := by
  cases op <;> rfl

@[simp] theorem LogicalOp.ofLabel?_label (op : LogicalOp) :
    ofLabel? op.label = some op := by
  cases op <;> rfl

@[simp] theorem Ident.ofJson?_toJson (ident : Ident) :
    ofJson? ident.toJson = some ident := by
  simp [ofJson?, toJson]

@[simp] theorem Literal.ofJson?_toJson (literal : Literal) :
    ofJson? literal.toJson = some literal := by
  cases literal <;> rfl

theorem Ident.readArray?_toJson (names : List Ident) :
    Json.readArray? ofJson? (.array (names.map toJson)) = some names := by
  induction names with
  | nil => rfl
  | cons name names ih => exact Json.readArray?_cons (ofJson?_toJson name) ih

theorem Expr.toJson_ne_null (expr : Expr) : expr.toJson ≠ .null := by
  cases expr <;> rintro ⟨⟩

theorem Stmt.toJson_ne_null (stmt : Stmt) : stmt.toJson ≠ .null := by
  cases stmt with
  | branch condition yes no => cases no <;> rintro ⟨⟩
  | _ => rintro ⟨⟩

theorem Stmt.toJson_branch (condition : Expr) (yes : Stmt) (no : Option Stmt) :
    (Stmt.branch condition yes no).toJson =
      .tagged "If" (.object [("condition", condition.toJson),
        ("then_branch", yes.toJson),
        ("else_branch", .option Stmt.toJson no)]) := by
  cases no <;> rw [toJson] <;> rfl

mutual

/-- An expression is read back from its data by any depth that is enough. -/
theorem Expr.read?_toJson
    (expr : Expr) (depth : Nat) (h : expr.toJson.depth ≤ depth) :
    Expr.read? depth expr.toJson = some expr := by
  obtain ⟨depth, rfl⟩ := Json.exists_succ_of_depth_le h
  -- The parts stand inside an object, so one level less is enough for them.
  cases expr with
    simp only [toJson, Json.tagged, Json.depth, Json.depthMembers] at h ⊢
  | literal value => simp [read?]
  | group inner =>
      have hinner := Expr.read?_toJson inner depth (by omega)
      simp [read?, hinner]
  | unary op operand line =>
      have hoperand := Expr.read?_toJson operand depth (by omega)
      simp [read?, hoperand]
  | binary left op right line =>
      have hleft := Expr.read?_toJson left depth (by omega)
      have hright := Expr.read?_toJson right depth (by omega)
      simp [read?, hleft, hright]
  | logical left op right =>
      have hleft := Expr.read?_toJson left depth (by omega)
      have hright := Expr.read?_toJson right depth (by omega)
      simp [read?, hleft, hright]
  | read id name => simp [read?]
  | assign id name value =>
      have hvalue := Expr.read?_toJson value depth (by omega)
      simp [read?, hvalue]
  | call callee line arguments =>
      have hcallee := Expr.read?_toJson callee depth (by omega)
      have harguments := Expr.readArray?_toJson arguments depth (by omega)
      simp [read?, hcallee, harguments]
  | get object name =>
      have hobject := Expr.read?_toJson object depth (by omega)
      simp [read?, hobject]
  | set object name value =>
      have hobject := Expr.read?_toJson object depth (by omega)
      have hvalue := Expr.read?_toJson value depth (by omega)
      simp [read?, hobject, hvalue]
  | this id line => simp [read?]
  | super id line method => simp [read?]

theorem Expr.readArray?_toJson
    (exprs : List Expr) (depth : Nat)
    (h : Json.depthItems (Expr.listToJson exprs) ≤ depth) :
    Json.readArray? (Expr.read? depth) (.array (Expr.listToJson exprs)) =
      some exprs := by
  cases exprs with
  | nil => rfl
  | cons expr exprs =>
      simp only [Expr.listToJson, Json.depthItems] at h
      have hexpr := Expr.read?_toJson expr depth (by omega)
      have hexprs := Expr.readArray?_toJson exprs depth (by omega)
      exact Json.readArray?_cons hexpr hexprs

end

theorem Expr.readOption?_toJson
    (content : Option Expr) (depth : Nat)
    (h : (Json.option Expr.toJson content).depth ≤ depth) :
    Json.readOption? (Expr.read? depth) (.option Expr.toJson content) =
      some content := by
  cases content with
  | none => rfl
  | some expr =>
      exact Json.readOption?_some expr.toJson_ne_null
        (Expr.read?_toJson expr depth h)

mutual

theorem Stmt.read?_toJson
    (stmt : Stmt) (depth : Nat) (h : stmt.toJson.depth ≤ depth) :
    Stmt.read? depth stmt.toJson = some stmt := by
  obtain ⟨depth, rfl⟩ := Json.exists_succ_of_depth_le h
  cases stmt with
    simp only [Stmt.toJson, Stmt.toJson_branch, Json.tagged, Json.depth,
      Json.depthMembers] at h ⊢
  | expression expr =>
      have hexpr := Expr.read?_toJson expr depth (by omega)
      simp [Stmt.read?, hexpr]
  | print expr =>
      have hexpr := Expr.read?_toJson expr depth (by omega)
      simp [Stmt.read?, hexpr]
  | var name initializer =>
      have hinitializer :=
        Expr.readOption?_toJson initializer depth (by omega)
      simp [Stmt.read?, hinitializer]
  | block body =>
      have hbody := Stmt.readArray?_toJson body depth (by omega)
      simp [Stmt.read?, hbody]
  | branch condition yes no =>
      have hcondition := Expr.read?_toJson condition depth (by omega)
      have hyes := Stmt.read?_toJson yes depth (by omega)
      have hless : (Json.option Stmt.toJson no).depth ≤ depth := by omega
      have hno : Json.readOption? (Stmt.read? depth)
          (.option Stmt.toJson no) = some no := by
        cases no with
        | none => rfl
        | some no =>
            exact Json.readOption?_some no.toJson_ne_null
              (Stmt.read?_toJson no depth hless)
      simp [Stmt.read?, hcondition, hyes, hno]
  | loop condition body =>
      have hcondition := Expr.read?_toJson condition depth (by omega)
      have hbody := Stmt.read?_toJson body depth (by omega)
      simp [Stmt.read?, hcondition, hbody]
  | function declaration =>
      have hdeclaration :=
        FunctionDecl.read?_toJson declaration depth (by omega)
      simp [Stmt.read?, hdeclaration]
  | ret line value =>
      have hvalue := Expr.readOption?_toJson value depth (by omega)
      simp [Stmt.read?, hvalue]
  | classDecl name superclass methods =>
      have hsuperclass := Expr.readOption?_toJson superclass depth (by omega)
      have hmethods := FunctionDecl.readArray?_toJson methods depth (by omega)
      simp [Stmt.read?, hsuperclass, hmethods]

theorem Stmt.readArray?_toJson
    (stmts : List Stmt) (depth : Nat)
    (h : Json.depthItems (Stmt.listToJson stmts) ≤ depth) :
    Json.readArray? (Stmt.read? depth) (.array (Stmt.listToJson stmts)) =
      some stmts := by
  cases stmts with
  | nil => rfl
  | cons stmt stmts =>
      simp only [Stmt.listToJson, Json.depthItems] at h
      have hstmt := Stmt.read?_toJson stmt depth (by omega)
      have hstmts := Stmt.readArray?_toJson stmts depth (by omega)
      exact Json.readArray?_cons hstmt hstmts

theorem FunctionDecl.read?_toJson
    (declaration : FunctionDecl) (depth : Nat)
    (h : declaration.toJson.depth ≤ depth) :
    FunctionDecl.read? depth declaration.toJson = some declaration := by
  obtain ⟨depth, rfl⟩ := Json.exists_succ_of_depth_le h
  cases declaration with
  | mk name params body =>
      simp only [FunctionDecl.toJson, Json.depth, Json.depthMembers] at h ⊢
      have hbody := Stmt.readArray?_toJson body depth (by omega)
      simp [FunctionDecl.read?, Ident.readArray?_toJson, hbody]

theorem FunctionDecl.readArray?_toJson
    (declarations : List FunctionDecl) (depth : Nat)
    (h : Json.depthItems (FunctionDecl.listToJson declarations) ≤ depth) :
    Json.readArray? (FunctionDecl.read? depth)
        (.array (FunctionDecl.listToJson declarations)) =
      some declarations := by
  cases declarations with
  | nil => rfl
  | cons declaration declarations =>
      simp only [FunctionDecl.listToJson, Json.depthItems] at h
      have hdeclaration :=
        FunctionDecl.read?_toJson declaration depth (by omega)
      have hdeclarations :=
        FunctionDecl.readArray?_toJson declarations depth (by omega)
      exact Json.readArray?_cons hdeclaration hdeclarations

end

/-- A program is read back from its data. -/
theorem Program.ofJson?_toJson (program : Program) :
    ofJson? program.toJson = some program :=
  Stmt.readArray?_toJson program _ (Nat.le_succ _)

/-! ## The doubles in a tree -/

/-- The double that a leaf is. -/
def Leaf.number? : Leaf → Option Float
  | .literal (.number value) => some value
  | _ => none

theorem Leaf.number?_eq_some_iff {leaf : Leaf} {value : Float} :
    leaf.number? = some value ↔ leaf = .literal (.number value) := by
  constructor
  · intro h
    cases leaf with
    | literal literal =>
        cases literal with
        | number x => exact congrArg _ (congrArg _ (Option.some.inj h))
        | _ => cases h
    | _ => cases h
  · rintro rfl
    rfl

@[simp] theorem Ident.reals_toJson (name : Ident) : name.toJson.reals = [] :=
  rfl

@[simp] theorem Ident.filterMap_number?_cons (name : Ident)
    (leaves : List Leaf) :
    (name.leaf :: leaves).filterMap Leaf.number? =
      leaves.filterMap Leaf.number? :=
  rfl

theorem Ident.itemsReals_toJson (names : List Ident) :
    Json.itemsReals (names.map toJson) =
      (names.map leaf).filterMap Leaf.number? := by
  induction names with
  | nil => rfl
  | cons name names ih => exact ih

theorem Literal.reals_toJson (literal : Literal) :
    literal.toJson.reals = [Leaf.literal literal].filterMap Leaf.number? := by
  cases literal <;> rfl

mutual

theorem Expr.reals_toJson (expr : Expr) :
    expr.toJson.reals = expr.leaves.filterMap Leaf.number? := by
  cases expr with
  | literal value => simp [toJson, leaves, value.reals_toJson]
  | group inner => simp [toJson, leaves, Expr.reals_toJson inner]
  | unary op operand line => simp [toJson, leaves, Expr.reals_toJson operand]
  | binary left op right line =>
      simp [toJson, leaves, Expr.reals_toJson left, Expr.reals_toJson right]
  | logical left op right =>
      simp [toJson, leaves, Expr.reals_toJson left, Expr.reals_toJson right]
  | read id name => simp [toJson, leaves]
  | assign id name value => simp [toJson, leaves, Expr.reals_toJson value]
  | call callee line arguments =>
      simp [toJson, leaves, Expr.reals_toJson callee,
        Expr.itemsReals_toJson arguments]
  | get object name => simp [toJson, leaves, Expr.reals_toJson object]
  | set object name value =>
      simp [toJson, leaves, Expr.reals_toJson object, Expr.reals_toJson value]
  | this id line => simp [toJson, leaves, Leaf.number?]
  | super id line method => simp [toJson, leaves]

theorem Expr.itemsReals_toJson (exprs : List Expr) :
    Json.itemsReals (Expr.listToJson exprs) =
      (Expr.leavesAll exprs).filterMap Leaf.number? := by
  cases exprs with
  | nil => rfl
  | cons expr exprs =>
      simp [Expr.listToJson, Expr.leavesAll,
        Expr.reals_toJson expr, Expr.itemsReals_toJson exprs]

end

mutual

theorem Stmt.reals_toJson (stmt : Stmt) :
    stmt.toJson.reals = stmt.leaves.filterMap Leaf.number? := by
  cases stmt with
  | expression expr => simp [Stmt.toJson, Stmt.leaves, expr.reals_toJson]
  | print expr => simp [Stmt.toJson, Stmt.leaves, expr.reals_toJson]
  | var name initializer =>
      cases initializer with
      | none => simp [Stmt.toJson, Stmt.leaves, Json.option]
      | some initializer =>
          simp [Stmt.toJson, Stmt.leaves, Json.option, initializer.reals_toJson]
  | block body =>
      simp [Stmt.toJson, Stmt.leaves, Stmt.itemsReals_toJson body]
  | branch condition yes no =>
      cases no with
      | none =>
          simp [Stmt.toJson, Stmt.leaves, condition.reals_toJson,
            Stmt.reals_toJson yes]
      | some no =>
          simp [Stmt.toJson, Stmt.leaves, condition.reals_toJson,
            Stmt.reals_toJson yes, Stmt.reals_toJson no]
  | loop condition body =>
      simp [Stmt.toJson, Stmt.leaves, condition.reals_toJson,
        Stmt.reals_toJson body]
  | function declaration =>
      simp [Stmt.toJson, Stmt.leaves, FunctionDecl.reals_toJson declaration]
  | ret line value =>
      cases value with
      | none => simp [Stmt.toJson, Stmt.leaves, Json.option]
      | some value =>
          simp [Stmt.toJson, Stmt.leaves, Json.option, value.reals_toJson]
  | classDecl name superclass methods =>
      cases superclass with
      | none =>
          simp [Stmt.toJson, Stmt.leaves, Json.option,
            FunctionDecl.itemsReals_toJson methods]
      | some superclass =>
          simp [Stmt.toJson, Stmt.leaves, Json.option, superclass.reals_toJson,
            FunctionDecl.itemsReals_toJson methods]

theorem Stmt.itemsReals_toJson (stmts : List Stmt) :
    Json.itemsReals (Stmt.listToJson stmts) =
      (Stmt.leavesAll stmts).filterMap Leaf.number? := by
  cases stmts with
  | nil => rfl
  | cons stmt stmts =>
      simp [Stmt.listToJson, Stmt.leavesAll,
        Stmt.reals_toJson stmt, Stmt.itemsReals_toJson stmts]

theorem FunctionDecl.reals_toJson (declaration : FunctionDecl) :
    declaration.toJson.reals = declaration.leaves.filterMap Leaf.number? := by
  cases declaration with
  | mk name params body =>
      simp [FunctionDecl.toJson, FunctionDecl.leaves, Ident.itemsReals_toJson,
        Stmt.itemsReals_toJson body]

theorem FunctionDecl.itemsReals_toJson (declarations : List FunctionDecl) :
    Json.itemsReals (FunctionDecl.listToJson declarations) =
      (FunctionDecl.leavesAll declarations).filterMap Leaf.number? := by
  cases declarations with
  | nil => rfl
  | cons declaration declarations =>
      simp [FunctionDecl.listToJson, FunctionDecl.leavesAll,
        FunctionDecl.reals_toJson declaration,
        FunctionDecl.itemsReals_toJson declarations]

end

/-- All literal numbers of a program are finite. -/
def Program.FiniteLiterals (program : Program) : Prop :=
  ∀ value, Leaf.literal (.number value) ∈ program.leaves →
    value.isFinite = true

theorem Program.FiniteLiterals.allFinite
    {program : Program} (h : program.FiniteLiterals) :
    Json.AllFinite program.toJson.reals := by
  intro value hmem
  rw [Program.toJson, Json.reals_array, Stmt.itemsReals_toJson,
    List.mem_filterMap] at hmem
  obtain ⟨leaf, hleaf, hnumber⟩ := hmem
  rw [Leaf.number?_eq_some_iff] at hnumber
  subst hnumber
  exact h value hleaf

/-! ## Tokens -/

namespace Token

/-- The kinds that carry nothing. -/
def Kind.plain : List Kind :=
  [.leftParen, .rightParen, .leftBrace, .rightBrace, .comma, .dot, .minus,
    .plus, .semicolon, .slash, .star, .percent, .bang, .bangEqual, .equal,
    .equalEqual, .greater, .greaterEqual, .less, .lessEqual, .identifier,
    .andWord, .classWord, .elseWord, .falseWord, .funWord, .forWord, .ifWord,
    .nilWord, .orWord, .printWord, .returnWord, .superWord, .thisWord,
    .trueWord, .varWord, .valWord, .whileWord, .eof]

/-- The kind that data describes. -/
def Kind.ofJson? : Json → Option Kind
  | .string name => plain.find? fun kind => kind.name == name
  | .object [("STRING", content)] => content.string?.map .string
  | .object [("NUMBER", value)] => value.real?.map .number
  | _ => none

/-- The token that data describes. -/
def ofJson? (j : Json) : Option Token := do
  let kind ← j.readMember? "token_type" Kind.ofJson?
  let lexeme ← j.readMember? "lexeme" Json.string?
  let line ← j.readMember? "line" Json.nat?
  return ⟨kind, lexeme, line⟩

/-- The tokens that data describes. -/
def listOfJson? : Json → Option (List Token) :=
  Json.readArray? ofJson?

@[simp] theorem Kind.ofJson?_toJson (kind : Kind) :
    ofJson? kind.toJson = some kind := by
  cases kind <;> rfl

private theorem ofJson?_toJson (token : Token) :
    ofJson? token.toJson = some token := by
  simp [ofJson?, toJson]

/-- A list of tokens is read back from its data. -/
theorem listOfJson?_listToJson (tokens : List Token) :
    listOfJson? (listToJson tokens) = some tokens := by
  induction tokens with
  | nil => rfl
  | cons token tokens ih => exact Json.readArray?_cons (ofJson?_toJson token) ih

theorem Kind.eq_number_of_mem_reals
    {kind : Kind} {value : Float} (h : value ∈ kind.toJson.reals) :
    kind = .number value := by
  cases kind with
  | number x => exact congrArg Kind.number (List.mem_singleton.mp h).symm
  | _ => cases h

private theorem reals_toJson (token : Token) :
    token.toJson.reals = token.kind.toJson.reals := by
  simp [toJson]

/-- All numbers that tokens carry are finite. -/
def FiniteNumbers (tokens : List Token) : Prop :=
  ∀ token ∈ tokens, ∀ value, token.kind = .number value →
    value.isFinite = true

theorem FiniteNumbers.allFinite
    {tokens : List Token} (h : FiniteNumbers tokens) :
    Json.AllFinite (listToJson tokens).reals := by
  intro value hmem
  rw [listToJson, Json.reals_array, Json.mem_itemsReals] at hmem
  obtain ⟨j, hj, hvalue⟩ := hmem
  obtain ⟨token, htoken, rfl⟩ := List.mem_map.mp hj
  rw [reals_toJson] at hvalue
  exact h token htoken value (Kind.eq_number_of_mem_reals hvalue)

end Token

/-! ## Texts -/

namespace Json

section
variable {α : Type} {write : α → Json} {read : Json → Option α}

/-- What is read back from its data is read back from its text. -/
theorem read_parse?_compact
    (hread : ∀ a, read (write a) = some a) {a : α}
    (ha : AllFinite (write a).reals) :
    (parse? (write a).compact).bind read = some a := by
  rw [parse?_compact ha]
  exact hread a

private theorem eq_of_compact_eq
    (hread : ∀ a, read (write a) = some a) {a b : α}
    (ha : AllFinite (write a).reals) (hb : AllFinite (write b).reals)
    (h : (write a).compact = (write b).compact) : a = b := by
  have hboth := read_parse?_compact hread ha
  rw [h, read_parse?_compact hread hb] at hboth
  exact (Option.some.inj hboth).symm

end

/-- The text of a dump tells what was dumped: programs and lists of tokens
whose numbers are finite are read back from it, so those with the same text are
the same, with all lines and places. -/
theorem dumps_lose_nothing :
    (∀ program : Program, program.FiniteLiterals →
      (parse? program.toJson.compact).bind Program.ofJson? = some program) ∧
    (∀ program other : Program,
      program.FiniteLiterals → other.FiniteLiterals →
      program.toJson.compact = other.toJson.compact → program = other) ∧
    (∀ tokens : List Token, Token.FiniteNumbers tokens →
      (parse? (Token.listToJson tokens).compact).bind Token.listOfJson? =
        some tokens) ∧
    (∀ tokens others : List Token,
      Token.FiniteNumbers tokens → Token.FiniteNumbers others →
      (Token.listToJson tokens).compact = (Token.listToJson others).compact →
      tokens = others) := by
  refine ⟨?_, ?_, ?_, ?_⟩
  · intro program h
    exact read_parse?_compact Program.ofJson?_toJson h.allFinite
  · intro program other h hother
    exact eq_of_compact_eq Program.ofJson?_toJson h.allFinite hother.allFinite
  · intro tokens h
    exact read_parse?_compact Token.listOfJson?_listToJson h.allFinite
  · intro tokens others h hothers
    exact eq_of_compact_eq Token.listOfJson?_listToJson h.allFinite
      hothers.allFinite

/-- A class whose method has a quote for a name and the given literal in it. -/
def quoting (literal : Literal) : Program :=
  [.classDecl ⟨"A", 1⟩ (some (.super 3 2 ⟨"\\", 1⟩))
    [⟨⟨"\"", 2⟩, [⟨"\x07", 2⟩],
      [.branch (.literal literal) (.print (.literal (.number 0.1))) none,
        .ret 4 none]⟩]]

private theorem tenth_isFinite : (0.1 : Float).isFinite = true := by decide

private theorem quoting_finiteLiterals
    {literal : Literal} (h : ∀ value, literal ≠ .number value) :
    (quoting literal).FiniteLiterals := by
  intro value hmem
  have hleaves : (quoting literal).leaves = [.name "A", .name "\\", .name "\"",
      .name "\x07", .literal literal, .literal (.number 0.1)] := rfl
  have hvalue : Literal.number value = literal ∨ value = 0.1 := by
    simpa [hleaves] using hmem
  obtain hvalue | rfl := hvalue
  · exact absurd hvalue.symm (h value)
  · exact tenth_isFinite

def quotingTokens : List Token :=
  [⟨.string "\\\n\"", "\"\\\n\"\"", 2⟩, ⟨.number 0.1, "0.1", 2⟩, ⟨.eof, "", 2⟩]

private theorem quotingTokens_finiteNumbers :
    Token.FiniteNumbers quotingTokens := by
  intro token hmem value h
  have htokens : token.kind = .string "\\\n\"" ∨ token.kind = .number 0.1 ∨
      token.kind = .eof := by
    have hkind := List.mem_map_of_mem (f := Token.kind) hmem
    simpa [quotingTokens] using hkind
  obtain hkind | hkind | hkind := htokens
  · cases h.symm.trans hkind
  · cases h.symm.trans hkind
    exact tenth_isFinite
  · cases h.symm.trans hkind

theorem quoting_dump_loses_nothing :
    (quoting .nil).FiniteLiterals ∧ (quoting (.string "Nil")).FiniteLiterals ∧
    (quoting .nil).toJson.compact ≠ (quoting (.string "Nil")).toJson.compact ∧
    (parse? (quoting (.string "Nil")).toJson.compact).bind Program.ofJson? =
      some (quoting (.string "Nil")) ∧
    Token.FiniteNumbers quotingTokens ∧
    (parse? (Token.listToJson quotingTokens).compact).bind Token.listOfJson? =
      some quotingTokens := by
  have hnil := @quoting_finiteLiterals .nil (fun _ h => by cases h)
  have hstring :=
    @quoting_finiteLiterals (.string "Nil") (fun _ h => by cases h)
  refine ⟨hnil, hstring, fun h => ?_, dumps_lose_nothing.1 _ hstring,
    quotingTokens_finiteNumbers,
    dumps_lose_nothing.2.2.1 _ quotingTokens_finiteNumbers⟩
  have hsame := dumps_lose_nothing.2.1 _ _ hnil hstring h
  cases hsame

end Json
end LoxLang
