import LoxLang.Proofs.Grammar.Leaves
import LoxLang.Proofs.Likeness.Tree
import LoxLang.Tree.Printed

/-!
# Reading printed trees back

A printed tree is a form: a word, or a node in brackets with a head and parts.
The text of a form can be read back from left to right, whatever the words
are, as long as no brackets, spaces or line breaks stand in them.  The tree
can be read back from the form: a head and the number of parts tell the kind
of a node, and the place of a part tells what it is.
-/

namespace LoxLang

/-- A word, or a node in brackets: a head, and parts behind it. -/
inductive Form where
  | word (text : String)
  | node (head : String) (parts : List Form)

namespace Form

mutual

/-- The characters of a form. -/
def chars : Form → List Char
  | .word text => text.toList
  | .node head parts => '(' :: (head.toList ++ (charsAll parts ++ [')']))

/-- The characters of some forms, each after a space. -/
def charsAll : List Form → List Char
  | [] => []
  | part :: parts => ' ' :: (part.chars ++ charsAll parts)

end

/-- The character does not stand between words. -/
def inWord (c : Char) : Bool :=
  c != '(' && c != ')' && c != ' ' && c != '\n'

/-- All of the text can stand in one word. -/
def Unbroken (text : String) : Prop :=
  text.toList.all inWord = true

mutual

/-- All words and heads are unbroken, and no word is empty. -/
def Plain : Form → Prop
  | .word text => text ≠ "" ∧ Unbroken text
  | .node head parts => Unbroken head ∧ AllPlain parts

def AllPlain : List Form → Prop
  | [] => True
  | part :: parts => part.Plain ∧ AllPlain parts

end

/-! ## Texts of forms -/

/-- A word can end in front of the text. -/
def Ends (rest : List Char) : Prop :=
  ∀ c ∈ rest.head?, inWord c = false

theorem ends_cons {c : Char} (h : inWord c = false) (rest : List Char) :
    Ends (c :: rest) := by
  intro d hd
  cases hd
  exact h

private theorem takeWhile_unbroken
    {text : String} (h : Unbroken text) {rest : List Char}
    (hrest : Ends rest) :
    (text.toList ++ rest).takeWhile inWord = text.toList := by
  rw [List.takeWhile_append_of_pos (List.all_eq_true.mp h)]
  cases rest with
  | nil => rw [List.takeWhile_nil, List.append_nil]
  | cons c rest =>
      have hbreak : ¬ inWord c = true := by
        rw [hrest c rfl]
        decide
      rw [List.takeWhile_cons_of_neg hbreak, List.append_nil]

private theorem unbroken_append_inj
    {a b : String} (ha : Unbroken a) (hb : Unbroken b) {r s : List Char}
    (hr : Ends r) (hs : Ends s) (h : a.toList ++ r = b.toList ++ s) :
    a = b ∧ r = s := by
  have hfront := takeWhile_unbroken ha hr
  rw [h, takeWhile_unbroken hb hs] at hfront
  rw [hfront] at h
  exact ⟨(String.toList_inj.mp hfront).symm, List.append_cancel_left h⟩

private theorem word_append_ne
    {text : String} (hne : text ≠ "") (h : Unbroken text)
    {c : Char} (hc : inWord c = false) (rest tail : List Char) :
    text.toList ++ rest ≠ c :: tail := by
  intro hequal
  have hlist : text.toList ≠ [] := by simpa using hne
  obtain ⟨d, ds, hds⟩ := List.exists_cons_of_ne_nil hlist
  rw [hds, List.cons_append] at hequal
  have hd := List.all_eq_true.mp h d (by rw [hds]; exact List.mem_cons_self)
  rw [(List.cons.inj hequal).1, hc] at hd
  cases hd

/-- What stands behind the head of a node is one of its parts or its end. -/
theorem ends_charsAll (parts : List Form) (rest : List Char) :
    Ends (charsAll parts ++ ')' :: rest) := by
  cases parts with
  | nil => exact ends_cons rfl _
  | cons part parts => exact ends_cons rfl _

mutual

/-- The first form of a text can be told from what comes behind it. -/
theorem chars_append_inj {r s : List Char} (hr : Ends r) (hs : Ends s) :
    (f g : Form) → f.Plain → g.Plain → f.chars ++ r = g.chars ++ s →
      f = g ∧ r = s
  | .word a, .word b, hf, hg, h => by
      obtain ⟨rfl, hrest⟩ := unbroken_append_inj hf.2 hg.2 hr hs h
      exact ⟨rfl, hrest⟩
  | .word a, .node head parts, hf, _, h =>
      absurd h (word_append_ne hf.1 hf.2 rfl _ _)
  | .node head parts, .word b, _, hg, h =>
      absurd h.symm (word_append_ne hg.1 hg.2 rfl _ _)
  | .node head parts, .node head' parts', hf, hg, h => by
      simp only [chars, List.cons_append, List.append_assoc,
        List.nil_append, List.cons.injEq, true_and] at h
      obtain ⟨rfl, hparts⟩ := unbroken_append_inj hf.1 hg.1
        (ends_charsAll _ _) (ends_charsAll _ _) h
      obtain ⟨rfl, hrest⟩ := charsAll_append_inj parts parts' hf.2 hg.2 hparts
      exact ⟨rfl, hrest⟩

theorem charsAll_append_inj {r s : List Char} :
    (fs gs : List Form) → AllPlain fs → AllPlain gs →
      charsAll fs ++ ')' :: r = charsAll gs ++ ')' :: s → fs = gs ∧ r = s
  | [], [], _, _, h => ⟨rfl, (List.cons.inj h).2⟩
  | [], g :: gs, _, _, h => absurd (List.cons.inj h).1 (by decide)
  | f :: fs, [], _, _, h => absurd (List.cons.inj h).1 (by decide)
  | f :: fs, g :: gs, hf, hg, h => by
      simp only [charsAll, List.cons_append, List.append_assoc,
        List.cons.injEq, true_and] at h
      obtain ⟨rfl, hparts⟩ := chars_append_inj (ends_charsAll _ _)
        (ends_charsAll _ _) f g hf.1 hg.1 h
      obtain ⟨rfl, hrest⟩ := charsAll_append_inj fs gs hf.2 hg.2 hparts
      exact ⟨rfl, hrest⟩

end

/-- The characters of some forms, each on a line of its own. -/
def lines : List Form → List Char
  | [] => []
  | [form] => form.chars
  | form :: next :: rest => form.chars ++ '\n' :: lines (next :: rest)

private theorem chars_ne_nil {form : Form} (h : form.Plain) :
    form.chars ≠ [] := by
  cases form with
  | word text => simpa [chars] using h.1
  | node head parts => simp [chars]

theorem lines_ne_nil
    {form : Form} (h : form.Plain) (rest : List Form) :
    lines (form :: rest) ≠ [] := by
  cases rest with
  | nil => exact chars_ne_nil h
  | cons next rest => simp [lines]

/-- What stands behind the first of several lines. -/
def behind : List Form → List Char
  | [] => []
  | form :: rest => '\n' :: lines (form :: rest)

private theorem lines_cons (form : Form) (rest : List Form) :
    lines (form :: rest) = form.chars ++ behind rest := by
  cases rest with
  | nil => rw [lines, behind, List.append_nil]
  | cons next rest => rw [lines, behind]

private theorem ends_behind (rest : List Form) : Ends (behind rest) := by
  cases rest with
  | nil =>
      intro c hc
      cases hc
  | cons form rest => exact ends_cons rfl _

private theorem lines_eq_of_behind
    {fs gs : List Form} (h : behind fs = behind gs) : lines fs = lines gs := by
  cases fs with
  | nil =>
      cases gs with
      | nil => rfl
      | cons g gs => cases h
  | cons f fs =>
      cases gs with
      | nil => cases h
      | cons g gs => exact (List.cons.inj h).2

theorem lines_inj
    {fs gs : List Form} (hf : AllPlain fs) (hg : AllPlain gs)
    (h : lines fs = lines gs) : fs = gs := by
  induction fs generalizing gs with
  | nil =>
      cases gs with
      | nil => rfl
      | cons g gs => exact absurd h.symm (lines_ne_nil hg.1 gs)
  | cons f fs ih =>
      cases gs with
      | nil => exact absurd h (lines_ne_nil hf.1 fs)
      | cons g gs =>
          rw [lines_cons, lines_cons] at h
          obtain ⟨rfl, hbehind⟩ := chars_append_inj (ends_behind fs)
            (ends_behind gs) f g hf.1 hg.1 h
          rw [ih hf.2 hg.2 (lines_eq_of_behind hbehind)]

end Form

/-! ## Forms of trees -/

def Leaf.text : Leaf → String
  | .name text => text
  | .literal value => value.printed
  | .this => "this"

def Leaf.form (leaf : Leaf) : Form :=
  .word leaf.text

def Ident.form (name : Ident) : Form :=
  name.leaf.form

mutual

/-- What an expression is printed as. -/
def Expr.form : Expr → Form
  | .literal value => (Leaf.literal value).form
  | .group inner => .node "group" [inner.form]
  | .unary op operand _ => .node op.sign [operand.form]
  | .binary left op right _ => .node op.sign [left.form, right.form]
  | .logical left op right => .node op.sign [left.form, right.form]
  | .read _ name => name.form
  | .assign _ name value => .node "=" [name.form, value.form]
  | .call callee _ arguments =>
      .node "call" (callee.form :: Expr.forms arguments)
  | .get object name => .node "." [object.form, name.form]
  | .set object name value =>
      .node ".=" [object.form, name.form, value.form]
  | .this _ _ => Leaf.this.form
  | .super _ _ method => .node "super" [method.form]

def Expr.forms : List Expr → List Form
  | [] => []
  | expr :: exprs => expr.form :: Expr.forms exprs

end

/-- What the parameters of a function are printed as: the first one stands
where other nodes have their head. -/
def Ident.listForm : List Ident → Form
  | [] => .node "" []
  | name :: names => .node name.name (names.map Ident.form)

mutual

/-- What a statement is printed as. -/
def Stmt.form : Stmt → Form
  | .expression expr => .node ";" [expr.form]
  | .print expr => .node "print" [expr.form]
  | .var name none => .node "var" [name.form]
  | .var name (some value) => .node "var" [name.form, value.form]
  | .block body => .node "block" (Stmt.forms body)
  | .branch condition yes none => .node "if" [condition.form, yes.form]
  | .branch condition yes (some no) =>
      .node "if" [condition.form, yes.form, no.form]
  | .loop condition body => .node "while" [condition.form, body.form]
  | .function declaration => .node "fun" declaration.parts
  | .ret _ none => .node "return" []
  | .ret _ (some value) => .node "return" [value.form]
  | .classDecl name none methods =>
      .node "class" (name.form :: FunctionDecl.forms methods)
  | .classDecl name (some superclass) methods =>
      .node "class" (name.form :: .word "<" :: superclass.form ::
        FunctionDecl.forms methods)

def Stmt.forms : List Stmt → List Form
  | [] => []
  | stmt :: stmts => stmt.form :: Stmt.forms stmts

/-- The parts of a printed function. -/
def FunctionDecl.parts : FunctionDecl → List Form
  | ⟨name, params, body⟩ =>
      [name.form, Ident.listForm params, .node "block" (Stmt.forms body)]

def FunctionDecl.forms : List FunctionDecl → List Form
  | [] => []
  | method :: methods =>
      .node "method" method.parts :: FunctionDecl.forms methods

end

section
open Form (chars charsAll)

theorem Ident.chars_form (name : Ident) : name.form.chars = name.name.toList :=
  rfl

mutual

theorem Expr.chars_form :
    (expr : Expr) → expr.form.chars = expr.printed.toList
  | .literal _ => rfl
  | .group inner => by
      simp [Expr.form, Expr.printed, chars, charsAll, Expr.chars_form inner]
  | .unary _ operand _ => by
      simp [Expr.form, Expr.printed, chars, charsAll, Expr.chars_form operand]
  | .binary left _ right _ => by
      simp [Expr.form, Expr.printed, chars, charsAll, Expr.chars_form left,
        Expr.chars_form right]
  | .logical left _ right => by
      simp [Expr.form, Expr.printed, chars, charsAll, Expr.chars_form left,
        Expr.chars_form right]
  | .read _ _ => rfl
  | .assign _ _ value => by
      simp [Expr.form, Expr.printed, chars, charsAll, Ident.chars_form,
        Expr.chars_form value]
  | .call callee _ arguments => by
      simp [Expr.form, Expr.printed, chars, charsAll, Expr.chars_form callee,
        Expr.charsAll_forms arguments]
  | .get object _ => by
      simp [Expr.form, Expr.printed, chars, charsAll, Ident.chars_form,
        Expr.chars_form object]
  | .set object _ value => by
      simp [Expr.form, Expr.printed, chars, charsAll, Ident.chars_form,
        Expr.chars_form object, Expr.chars_form value]
  | .this _ _ => rfl
  | .super _ _ _ => by
      simp [Expr.form, Expr.printed, chars, charsAll, Ident.chars_form]

theorem Expr.charsAll_forms :
    (exprs : List Expr) →
      charsAll (Expr.forms exprs) = (Expr.printedList exprs).toList
  | [] => rfl
  | expr :: exprs => by
      simp [Expr.forms, Expr.printedList, charsAll, Expr.chars_form expr,
        Expr.charsAll_forms exprs]

end

theorem Ident.charsAll_forms (names : List Ident) (first : String) :
    first.toList ++ charsAll (names.map Ident.form) =
      (" ".intercalate (first :: names.map Ident.name)).toList := by
  induction names generalizing first with
  | nil => simp [charsAll]
  | cons name names ih =>
      rw [List.map_cons, List.map_cons, String.intercalate_cons_cons,
        String.toList_append, ← ih]
      simp [charsAll, Ident.chars_form]

theorem Ident.chars_listForm (names : List Ident) :
    (Ident.listForm names).chars =
      '(' :: ((" ".intercalate (names.map Ident.name)).toList ++ [')']) := by
  cases names with
  | nil => simp [Ident.listForm, chars, charsAll]
  | cons name names =>
      rw [Ident.listForm, chars, List.map_cons, ← Ident.charsAll_forms,
        List.append_assoc]

mutual

theorem Stmt.chars_form :
    (stmt : Stmt) → stmt.form.chars = stmt.printed.toList
  | .expression expr => by
      simp [Stmt.form, Stmt.printed, chars, charsAll, Expr.chars_form]
  | .print expr => by
      simp [Stmt.form, Stmt.printed, chars, charsAll, Expr.chars_form]
  | .var _ none => by
      simp [Stmt.form, Stmt.printed, chars, charsAll, Ident.chars_form]
  | .var _ (some value) => by
      simp [Stmt.form, Stmt.printed, chars, charsAll, Ident.chars_form,
        Expr.chars_form]
  | .block body => by
      simp [Stmt.form, Stmt.printed, chars, Stmt.charsAll_forms body]
  | .branch condition yes none => by
      simp [Stmt.form, Stmt.printed, chars, charsAll, Expr.chars_form,
        Stmt.chars_form yes]
  | .branch condition yes (some no) => by
      simp [Stmt.form, Stmt.printed, chars, charsAll, Expr.chars_form,
        Stmt.chars_form yes, Stmt.chars_form no]
  | .loop condition body => by
      simp [Stmt.form, Stmt.printed, chars, charsAll, Expr.chars_form,
        Stmt.chars_form body]
  | .function declaration => FunctionDecl.chars_node "fun" declaration
  | .ret _ none => by
      simp [Stmt.form, Stmt.printed, chars, charsAll]
  | .ret _ (some value) => by
      simp [Stmt.form, Stmt.printed, chars, charsAll, Expr.chars_form]
  | .classDecl _ none methods => by
      simp [Stmt.form, Stmt.printed, chars, charsAll, Ident.chars_form,
        FunctionDecl.charsAll_forms methods]
  | .classDecl _ (some superclass) methods => by
      simp [Stmt.form, Stmt.printed, chars, charsAll, Ident.chars_form,
        Expr.chars_form, FunctionDecl.charsAll_forms methods]

theorem Stmt.charsAll_forms :
    (stmts : List Stmt) →
      charsAll (Stmt.forms stmts) = (Stmt.printedList stmts).toList
  | [] => rfl
  | stmt :: stmts => by
      simp [Stmt.forms, Stmt.printedList, charsAll, Stmt.chars_form stmt,
        Stmt.charsAll_forms stmts]

theorem FunctionDecl.chars_node (head : String) :
    (declaration : FunctionDecl) →
      (Form.node head declaration.parts).chars =
        (declaration.printed head).toList
  | ⟨_, params, body⟩ => by
      simp [FunctionDecl.parts, FunctionDecl.printed, chars, charsAll,
        Ident.chars_form, Ident.chars_listForm, Stmt.charsAll_forms body]

theorem FunctionDecl.charsAll_forms :
    (methods : List FunctionDecl) →
      charsAll (FunctionDecl.forms methods) =
        (FunctionDecl.printedList methods).toList
  | [] => rfl
  | method :: methods => by
      simp [FunctionDecl.forms, FunctionDecl.printedList, charsAll,
        FunctionDecl.chars_node "method" method,
        FunctionDecl.charsAll_forms methods]

end

/-- A program is printed as the lines of its forms. -/
theorem Program.lines_forms (program : Program) :
    Form.lines (Stmt.forms program) = (Program.printed program).toList := by
  induction program with
  | nil => rfl
  | cons stmt rest ih =>
      cases rest with
      | nil => simp [Stmt.forms, Form.lines, Program.printed, Stmt.chars_form]
      | cons next rest =>
          unfold Program.printed at ih ⊢
          rw [List.map_cons, List.map_cons, String.intercalate_cons_cons,
            String.toList_append, ← List.map_cons, ← ih]
          simp [Stmt.forms, Form.lines, Stmt.chars_form]

end
end LoxLang
