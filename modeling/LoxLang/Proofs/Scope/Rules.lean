import LoxLang.Proofs.Scope.Resolution
import LoxLang.Proofs.Tree.Shape

/-!
# The rules on scopes

The rules of the language look at single sites of a program: a name that is
declared or read, a `this`, a `super`, a `return`, or a superclass.  Whether a
site breaks one of them depends on the constructs around it.  The walk over a
program, which keeps track of these constructs as it goes, reports the sites
that break a rule and nothing else.
-/

namespace LoxLang
namespace Scope

/-! ## Sites -/

/-- A construct around a site. -/
inductive Enclosure where
  /-- A block, or the parameters and the body of a function, with the names that
  are declared in it in front of the site. -/
  | scope (declared : List String)
  | function
  | method (name : String)
  | classBody (derived : Bool)
  /-- The initializer in the declaration of a variable. -/
  | initializer (name : String)

def Enclosure.isFunction : Enclosure → Bool
  | .function | .method _ => true
  | .scope _ | .classBody _ | .initializer _ => false

def Enclosure.isClass : Enclosure → Bool
  | .classBody _ => true
  | .scope _ | .function | .method _ | .initializer _ => false

def Enclosure.declared? : Enclosure → Option (List String)
  | .scope declared => some declared
  | .function | .method _ | .classBody _ | .initializer _ => none

/-- All constructs around a site, innermost first. -/
abbrev Path := List Enclosure

namespace Path

/-- The names that the innermost scope declares, if there is one. -/
def declared? (path : Path) : Option (List String) :=
  path.findSome? Enclosure.declared?

/-- The site is in the initializer of a variable of this name, which is not
global and is the first of its name in its scope. -/
def isDeclaring (name : String) : Path → Bool
  | [] => false
  | .initializer other :: outer =>
      (other == name && (declared? outer).any (!·.contains name)) ||
        isDeclaring name outer
  | _ :: outer => isDeclaring name outer

/-- The path behind the declaration of some names. -/
def declare (names : List String) : Path → Path
  | .scope declared :: outer => .scope (declared ++ names) :: outer
  | path => path

end Path

/-- What is said at a site. -/
inductive Use where
  | declares (name : Ident)
  | reads (name : Ident)
  | this (line : Nat)
  | super (line : Nat)
  | returns (line : Nat) (hasValue : Bool)
  | inherits (name : Ident) (superclass : Expr)

structure Site where
  use : Use
  path : Path

/-- The rule that a site breaks. -/
def Site.violation? (site : Site) : Option ScopeError :=
  match site.use with
  | .declares name =>
      if (site.path.declared?).any (·.contains name.name) then
        some ⟨.alreadyDeclared name.name, name.line⟩
      else none
  | .reads name =>
      if site.path.isDeclaring name.name then
        some ⟨.readInOwnInitializer name.name, name.line⟩
      else none
  | .this line =>
      match site.path.find? Enclosure.isClass with
      | none => some ⟨.thisOutsideClass, line⟩
      | some _ => none
  | .super line =>
      match site.path.find? Enclosure.isClass with
      | none => some ⟨.superOutsideClass, line⟩
      | some (.classBody false) => some ⟨.superWithoutSuperclass, line⟩
      | some _ => none
  | .returns line hasValue =>
      match site.path.find? Enclosure.isFunction with
      | none => some ⟨.returnAtTop, line⟩
      | some (.method name) =>
          if hasValue ∧ name = initializerName then
            some ⟨.valueFromInitializer, line⟩
          else none
      | some _ => none
  | .inherits name (.read _ superclass) =>
      if superclass.name = name.name then
        some ⟨.inheritsFromItself, superclass.line⟩
      else none
  | .inherits _ _ => none

/-- The parameters of a function. -/
def paramSites : List Ident → Path → List Site
  | [], _ => []
  | param :: params, path =>
      ⟨.declares param, path⟩ :: paramSites params (path.declare [param.name])

end Scope

open Scope

mutual

/-- The sites of an expression, in the order of the text. -/
def Expr.sites : Expr → Path → List Site
  | .literal _, _ => []
  | .group inner, path => inner.sites path
  | .unary _ operand _, path => operand.sites path
  | .binary left _ right _, path => left.sites path ++ right.sites path
  | .logical left _ right, path => left.sites path ++ right.sites path
  | .read _ name, path => [⟨.reads name, path⟩]
  | .assign _ _ value, path => value.sites path
  | .call callee _ arguments, path =>
      callee.sites path ++ Expr.sitesAll arguments path
  | .get object _, path => object.sites path
  | .set object _ value, path => object.sites path ++ value.sites path
  | .this _ line, path => [⟨.this line, path⟩]
  | .super _ line _, path => [⟨.super line, path⟩]

def Expr.sitesAll : List Expr → Path → List Site
  | [], _ => []
  | expr :: exprs, path => expr.sites path ++ Expr.sitesAll exprs path

end

mutual

/-- The sites of a statement, in the order of the text.  A superclass counts as
inside of its class. -/
def Stmt.sites : Stmt → Path → List Site
  | .expression expr, path => expr.sites path
  | .print expr, path => expr.sites path
  | .var name none, path => [⟨.declares name, path⟩]
  | .var name (some initializer), path =>
      ⟨.declares name, path⟩ ::
        initializer.sites (.initializer name.name :: path)
  | .block body, path => Stmt.sitesAll body (.scope [] :: path)
  | .branch condition yes none, path => condition.sites path ++ yes.sites path
  | .branch condition yes (some no), path =>
      condition.sites path ++
        (yes.sites path ++ no.sites (path.declare yes.declares))
  | .loop condition body, path => condition.sites path ++ body.sites path
  | .function declaration, path =>
      ⟨.declares declaration.name, path⟩ ::
        declaration.sites (.function :: path)
  | .ret line none, path => [⟨.returns line false, path⟩]
  | .ret line (some value), path =>
      ⟨.returns line true, path⟩ :: value.sites path
  | .classDecl name none methods, path =>
      ⟨.declares name, path⟩ ::
        FunctionDecl.sitesAll methods (.classBody false :: path)
  | .classDecl name (some superclass) methods, path =>
      ⟨.declares name, path⟩ :: ⟨.inherits name superclass, path⟩ ::
        (superclass.sites (.classBody true :: path) ++
          FunctionDecl.sitesAll methods (.classBody true :: path))

def Stmt.sitesAll : List Stmt → Path → List Site
  | [], _ => []
  | stmt :: stmts, path =>
      stmt.sites path ++ Stmt.sitesAll stmts (path.declare stmt.declares)

def FunctionDecl.sites : FunctionDecl → Path → List Site
  | ⟨_, params, body⟩, path =>
      paramSites params (.scope [] :: path) ++
        Stmt.sitesAll body (.scope (params.map Ident.name) :: path)

/-- The sites of the methods of a class. -/
def FunctionDecl.sitesAll : List FunctionDecl → Path → List Site
  | [], _ => []
  | method :: methods, path =>
      method.sites (.method method.name.name :: path) ++
        FunctionDecl.sitesAll methods path

end

namespace Scope

/-- The rules that some sites break, one after the other. -/
def violations (sites : List Site) : List ScopeError :=
  sites.filterMap Site.violation?

theorem violations_append (front rest : List Site) :
    violations (front ++ rest) = violations front ++ violations rest :=
  List.filterMap_append

theorem violations_cons (site : Site) (rest : List Site) :
    violations (site :: rest) = violations [site] ++ violations rest :=
  violations_append [site] rest

/-! ## What the walk knows of a path -/

namespace Path

/-- The kinds of the nearest function and of the nearest class. -/
def surroundings (path : Path) : Surroundings where
  function :=
    match path.find? Enclosure.isFunction with
    | none => .none
    | some (.method name) => methodKind name
    | some _ => .function
  classKind :=
    match path.find? Enclosure.isClass with
    | none => .none
    | some (.classBody true) => .derived
    | some _ => .base

theorem surroundings_declare (names : List String) (path : Path) :
    (path.declare names).surroundings = path.surroundings := by
  cases path with
  | nil => rfl
  | cons enclosure outer => cases enclosure <;> rfl

theorem declare_nil (path : Path) : path.declare [] = path := by
  cases path with
  | nil => rfl
  | cons enclosure outer => cases enclosure <;> simp [declare]

theorem declare_declare (a b : List String) (path : Path) :
    (path.declare a).declare b = path.declare (a ++ b) := by
  cases path with
  | nil => rfl
  | cons enclosure outer => cases enclosure <;> simp [declare]

theorem class_cases (path : Path) :
    path.find? Enclosure.isClass = none ∨
      ∃ derived, path.find? Enclosure.isClass = some (.classBody derived) := by
  cases hfind : path.find? Enclosure.isClass with
  | none => exact .inl rfl
  | some enclosure =>
      have hclass := List.find?_some hfind
      cases enclosure with
      | classBody derived => exact .inr ⟨derived, rfl⟩
      | scope | function | method | initializer => cases hclass

theorem function_cases (path : Path) :
    path.find? Enclosure.isFunction = none ∨
      path.find? Enclosure.isFunction = some .function ∨
      ∃ name, path.find? Enclosure.isFunction = some (.method name) := by
  cases hfind : path.find? Enclosure.isFunction with
  | none => exact .inl rfl
  | some enclosure =>
      have hfunction := List.find?_some hfind
      cases enclosure with
      | function => exact .inr (.inl rfl)
      | method name => exact .inr (.inr ⟨name, rfl⟩)
      | scope | classBody | initializer => cases hfunction

end Path

/-- A part of a walk that finds the violations of some sites and comes back to
the scopes from which it has started. -/
structure Visits (sites : List Site) (r next : Resolution) : Prop where
  errors : next.errors = r.errors ++ violations sites
  scopes : next.scopes = r.scopes

namespace Visits

variable {r middle next : Resolution} {sites others : List Site}

protected theorem refl : Visits [] r r :=
  ⟨(List.append_nil _).symm, rfl⟩

protected theorem trans
    (hfirst : Visits sites r middle) (hsecond : Visits others middle next) :
    Visits (sites ++ others) r next where
  errors := by
    rw [hsecond.errors, hfirst.errors, violations_append, List.append_assoc]
  scopes := hsecond.scopes.trans hfirst.scopes

theorem bind (h : Visits sites r next) (id : PlaceId) (name : String) :
    Visits sites r (next.bind id name) where
  errors := by
    rw [← h.errors]
    unfold Resolution.bind
    split <;> rfl
  scopes := (bind_scopes next id name).trans h.scopes

theorem report
    {site : Site} {cause : ScopeError.Cause} {line : Nat}
    (h : site.violation? = some ⟨cause, line⟩) :
    Visits [site] r (r.report cause line) :=
  ⟨by simp [Resolution.report, violations, h], rfl⟩

theorem skip {site : Site} (h : site.violation? = none) : Visits [site] r r :=
  ⟨by simp [violations, h], rfl⟩

end Visits

/-- The walk and the path agree on which name is being declared. -/
def Resolution.Follows (r : Resolution) (path : Path) : Prop :=
  ∀ name, r.inOwnInitializer name = path.isDeclaring name

theorem Resolution.Follows.congr
    {r next : Resolution} {path : Path} (h : r.Follows path)
    (hscopes : next.scopes = r.scopes) : next.Follows path := by
  intro name
  rw [← h name, inOwnInitializer, inOwnInitializer, hscopes]

/-! ## Expressions -/

section
variable {path : Path} {r : Resolution}

theorem visits_read (h : r.Follows path) (id : PlaceId) (name : Ident) :
    Visits [⟨.reads name, path⟩] r
      (resolveExpr path.surroundings (.read id name) r) := by
  rw [resolveExpr]
  apply Visits.bind
  rw [h name.name]
  by_cases hdeclaring : path.isDeclaring name.name = true
  · rw [if_pos hdeclaring]
    exact .report (if_pos hdeclaring)
  · rw [if_neg hdeclaring]
    exact .skip (if_neg hdeclaring)

theorem visits_this (id : PlaceId) (line : Nat) :
    Visits [⟨.this line, path⟩] r
      (resolveExpr path.surroundings (.this id line) r) := by
  rw [resolveExpr, Path.surroundings]
  rcases path.class_cases with hnone | ⟨derived, hclass⟩
  · rw [hnone]
    exact .report (by simp [Site.violation?, hnone])
  · have hskip : Visits [⟨.this line, path⟩] r r :=
      .skip (by simp [Site.violation?, hclass])
    rw [hclass]
    cases derived <;> exact hskip.bind id "this"

theorem visits_super (id : PlaceId) (line : Nat) (method : Ident) :
    Visits [⟨.super line, path⟩] r
      (resolveExpr path.surroundings (.super id line method) r) := by
  rw [resolveExpr, Path.surroundings]
  rcases path.class_cases with hnone | ⟨derived, hclass⟩
  · rw [hnone]
    exact .report (by simp [Site.violation?, hnone])
  · rw [hclass]
    cases derived with
    | false => exact .report (by simp [Site.violation?, hclass])
    | true =>
        have hskip : Visits [⟨.super line, path⟩] r r :=
          .skip (by simp [Site.violation?, hclass])
        exact hskip.bind id "super"

private theorem methodKind_eq_initializer_iff (name : String) :
    methodKind name = .initializer ↔ name = initializerName := by
  unfold methodKind
  split <;> simp_all

private theorem methodKind_ne_none (name : String) :
    methodKind name ≠ .none := by
  unfold methodKind
  split <;> simp

theorem visits_return (path : Path) (line : Nat) (value : Option Expr) :
    Visits [⟨.returns line value.isSome, path⟩] r
      (checkReturn path.surroundings line value r) := by
  unfold checkReturn
  dsimp only
  rcases path.function_cases with hnone | hfunction | ⟨name, hmethod⟩
  · have hkind : path.surroundings.function = .none := by
      simp [Path.surroundings, hnone]
    rw [if_pos hkind, if_neg (by simp [hkind])]
    exact .report (by simp [Site.violation?, hnone])
  · have hkind : path.surroundings.function = .function := by
      simp [Path.surroundings, hfunction]
    rw [if_neg (by simp [hkind]), if_neg (by simp [hkind])]
    exact .skip (by simp [Site.violation?, hfunction])
  · have hkind : path.surroundings.function = methodKind name := by
      simp [Path.surroundings, hmethod]
    rw [hkind, if_neg (methodKind_ne_none name)]
    simp only [methodKind_eq_initializer_iff]
    by_cases hvalue : value.isSome ∧ name = initializerName
    · rw [if_pos hvalue]
      exact .report (by simp [Site.violation?, hmethod, hvalue])
    · rw [if_neg hvalue]
      exact .skip (by simpa [Site.violation?, hmethod] using hvalue)

theorem visits_inherits (path : Path) (name : Ident) (superclass : Expr) :
    Visits [⟨.inherits name superclass, path⟩] r
      (checkSuperclass name superclass r) := by
  cases superclass with
  | read id superName =>
      rw [checkSuperclass]
      by_cases hsame : superName.name = name.name
      · rw [if_pos hsame]
        exact .report (if_pos hsame)
      · rw [if_neg hsame]
        exact .skip (if_neg hsame)
  | literal | group | unary | binary | logical | assign | call | get | set
  | this | super => exact .skip rfl

end

mutual

theorem resolveExpr_visits
    {path : Path} (r : Resolution) (h : r.Follows path) :
    (expr : Expr) →
      Visits (expr.sites path) r (resolveExpr path.surroundings expr r)
  | .literal _ => .refl
  | .group inner => resolveExpr_visits r h inner
  | .unary _ operand _ => resolveExpr_visits r h operand
  | .binary left _ right _ =>
      have hleft := resolveExpr_visits r h left
      hleft.trans (resolveExpr_visits _ (h.congr hleft.scopes) right)
  | .logical left _ right =>
      have hleft := resolveExpr_visits r h left
      hleft.trans (resolveExpr_visits _ (h.congr hleft.scopes) right)
  | .read id name => visits_read h id name
  | .assign id name value => (resolveExpr_visits r h value).bind id name.name
  | .call callee _ arguments =>
      have hcallee := resolveExpr_visits r h callee
      hcallee.trans (resolveExprs_visits _ (h.congr hcallee.scopes) arguments)
  | .get object _ => resolveExpr_visits r h object
  | .set object _ value =>
      have hobject := resolveExpr_visits r h object
      hobject.trans (resolveExpr_visits _ (h.congr hobject.scopes) value)
  | .this id line => visits_this id line
  | .super id line method => visits_super id line method

theorem resolveExprs_visits
    {path : Path} (r : Resolution) (h : r.Follows path) :
    (exprs : List Expr) →
      Visits (Expr.sitesAll exprs path) r
        (resolveExprs path.surroundings exprs r)
  | [] => .refl
  | expr :: exprs =>
      have hexpr := resolveExpr_visits r h expr
      hexpr.trans (resolveExprs_visits _ (h.congr hexpr.scopes) exprs)

end

/-! ## Scopes -/

/-- Between two statements, the innermost scope of the walk holds the names that
the path declares, all of them complete, and no variable is being declared. -/
inductive Fits : Path → List (Bindings Bool) → Prop where
  | top : Fits [] []
  | scope {declared : List String} {outer : Path} {scope : Bindings Bool}
      {scopes : List (Bindings Bool)} :
      (∀ name, scope.find? name =
        if name ∈ declared then some true else none) →
      (∀ name, outer.isDeclaring name = false) →
      Fits (.scope declared :: outer) (scope :: scopes)

/-- A part of a walk that finds the violations of some sites and declares names
in the innermost scope. -/
structure Walks
    (sites : List Site) (path : Path) (r next : Resolution) : Prop where
  errors : next.errors = r.errors ++ violations sites
  fits : Fits path next.scopes
  outer : next.scopes.tail = r.scopes.tail

section
variable {path path' : Path} {r middle next : Resolution}
variable {sites others : List Site}

theorem Fits.isDeclaring_eq_false
    {scopes : List (Bindings Bool)} (h : Fits path scopes) (name : String) :
    path.isDeclaring name = false := by
  cases h with
  | top => rfl
  | scope _ houter => exact houter name

theorem Fits.inOwnInitializer_eq_false
    (h : Fits path r.scopes) (name : String) :
    r.inOwnInitializer name = false := by
  rw [Resolution.inOwnInitializer]
  generalize r.scopes = scopes at h
  cases h with
  | top => rfl
  | scope hfind _ =>
      simp only [hfind]
      split <;> simp

theorem Fits.follows (h : Fits path r.scopes) : r.Follows path := by
  intro name
  rw [h.isDeclaring_eq_false, h.inOwnInitializer_eq_false]

theorem Fits.enter
    (h : ∀ name, path.isDeclaring name = false) (r : Resolution) :
    Fits (.scope [] :: path) (r.enter .empty).scopes :=
  .scope (fun name => by simp) h

theorem Walks.trans
    (hfirst : Walks sites path r middle)
    (hsecond : Walks others path' middle next) :
    Walks (sites ++ others) path' r next where
  errors := by
    rw [hsecond.errors, hfirst.errors, violations_append, List.append_assoc]
  fits := hsecond.fits
  outer := hsecond.outer.trans hfirst.outer

theorem Visits.walks (h : Visits sites r next) (hfits : Fits path r.scopes) :
    Walks sites path r next :=
  ⟨h.errors, h.scopes ▸ hfits, congrArg List.tail h.scopes⟩

/-- A scope that has been entered is left again. -/
theorem Walks.leave
    {scope : Bindings Bool} (h : Walks sites path (r.enter scope) next) :
    Visits sites r next.leave :=
  ⟨h.errors, h.outer⟩

theorem Visits.leave
    {scope : Bindings Bool} (h : Visits sites (r.enter scope) next) :
    Visits sites r next.leave :=
  ⟨h.errors, congrArg List.tail h.scopes⟩

/-- The declaration of a name is reported if the scope has it already. -/
theorem declare_errors (h : Fits path r.scopes) (name : Ident) :
    (r.declare name).errors =
      r.errors ++ violations [⟨.declares name, path⟩] := by
  unfold Resolution.declare
  generalize hscopes : r.scopes = scopes at h
  cases h with
  | top => simp [violations, Site.violation?, Path.declared?]
  | @scope declared outer scope scopes hfind houter =>
      have hnames : Path.declared? (.scope declared :: outer) = some declared :=
        rfl
      by_cases hmem : name.name ∈ declared
      · simp [Bindings.has, hfind, hmem, violations, Site.violation?, hnames,
          Resolution.report]
      · simp [Bindings.has, hfind, hmem, violations, Site.violation?, hnames]

/-- While a variable is initialized, its name is the one that is being declared,
unless the scope has had it before. -/
theorem declare_follows (h : Fits path r.scopes) (name : Ident) :
    (r.declare name).Follows (.initializer name.name :: path) := by
  intro other
  have hnone := h.isDeclaring_eq_false other
  rw [Path.isDeclaring, hnone, Bool.or_false]
  unfold Resolution.declare
  generalize hscopes : r.scopes = scopes at h
  cases h with
  | top => simp [Resolution.inOwnInitializer, hscopes, Path.declared?]
  | @scope declared outer scope scopes hfind houter =>
      have hnames : Path.declared? (.scope declared :: outer) = some declared :=
        rfl
      rw [hnames]
      by_cases hmem : name.name ∈ declared
      · have hhas : scope.has name.name = true := by
          simp [Bindings.has, hfind, hmem]
        have hcomplete : scope.find? other ≠ some false := by
          rw [hfind]
          split <;> simp
        by_cases hother : name.name = other
        · subst hother
          simp [hhas, Resolution.report, Resolution.inOwnInitializer, hscopes,
            hcomplete, hmem]
        · simp [hhas, Resolution.report, Resolution.inOwnInitializer, hscopes,
            hcomplete, hother]
      · have hhas : scope.has name.name = false := by
          simp [Bindings.has, hfind, hmem]
        by_cases hother : name.name = other
        · subst hother
          simp [hhas, Resolution.inOwnInitializer, hmem]
        · have hcomplete : scope.find? other ≠ some false := by
            rw [hfind]
            split <;> simp
          simp [hhas, Resolution.inOwnInitializer, Bindings.find?_put,
            Ne.symm hother, hother, hcomplete]

/-- A declared name is complete once it is defined. -/
theorem define_fits
    (h : Fits path r.scopes) (name : Ident)
    (hnext : next.scopes = (r.declare name).scopes) :
    Fits (path.declare [name.name]) (next.define name).scopes ∧
      (next.define name).scopes.tail = r.scopes.tail := by
  generalize hscopes : r.scopes = scopes at h
  unfold Resolution.declare at hnext
  rw [hscopes] at hnext
  cases h with
  | top =>
      have hempty : next.scopes = [] := hnext.trans hscopes
      have hdefine : next.define name = next := by
        simp only [Resolution.define, hempty]
      rw [hdefine, hempty]
      exact ⟨.top, rfl⟩
  | @scope declared outer scope scopes hfind houter =>
      -- The name may be there already, as complete, or have just been put.
      obtain ⟨inner, hinner, hothers⟩ : ∃ inner : Bindings Bool,
          next.scopes = inner :: scopes ∧
            ∀ other, other ≠ name.name →
              inner.find? other = scope.find? other := by
        dsimp only at hnext
        split at hnext
        · exact ⟨scope, hnext.trans hscopes, fun _ _ => rfl⟩
        · exact ⟨_, hnext, fun _ hne => Bindings.find?_put_of_ne _ _ hne⟩
      simp only [Resolution.define, hinner]
      refine ⟨.scope (fun other => ?_) houter, rfl⟩
      rw [Bindings.find?_put]
      by_cases hother : other = name.name
      · simp [hother]
      · rw [if_neg hother, hothers other hother, hfind]
        simp [hother]

/-- A name is declared and defined at once. -/
theorem walks_declare (h : Fits path r.scopes) (name : Ident) :
    Walks [⟨.declares name, path⟩] (path.declare [name.name]) r
      ((r.declare name).define name) := by
  obtain ⟨hfits, houter⟩ := define_fits h name rfl
  refine ⟨?_, hfits, houter⟩
  rw [← declare_errors h name]
  unfold Resolution.define
  split <;> rfl

theorem declareParams_walks (params : List Ident) (h : Fits path r.scopes) :
    Walks (paramSites params path) (path.declare (params.map Ident.name)) r
      (declareParams params r) := by
  induction params generalizing path r with
  | nil =>
      rw [List.map_nil, Path.declare_nil]
      exact Visits.refl.walks h
  | cons param params ih =>
      have hparam := walks_declare h param
      have hrest := hparam.trans (ih hparam.fits)
      rw [Path.declare_declare] at hrest
      exact hrest

/-- A variable is defined behind its initializer. -/
theorem walks_var
    (h : Fits path r.scopes) (name : Ident)
    (hinitializer : Visits sites (r.declare name) next) :
    Walks (⟨.declares name, path⟩ :: sites) (path.declare [name.name]) r
      (next.define name) := by
  obtain ⟨hfits, houter⟩ := define_fits h name hinitializer.scopes
  refine ⟨?_, hfits, houter⟩
  have herrors : (next.define name).errors = next.errors := by
    unfold Resolution.define
    split <;> rfl
  rw [herrors, hinitializer.errors, declare_errors h name, List.append_assoc,
    ← violations_cons]

end

/-! ## Statements -/

mutual

theorem resolveStmt_walks
    {path : Path} (r : Resolution) (h : Fits path r.scopes) :
    (stmt : Stmt) →
      Walks (stmt.sites path) (path.declare stmt.declares) r
        (resolveStmt path.surroundings stmt r)
  | .expression expr => by
      rw [Stmt.declares, Path.declare_nil]
      exact (resolveExpr_visits r h.follows expr).walks h
  | .print expr => by
      rw [Stmt.declares, Path.declare_nil]
      exact (resolveExpr_visits r h.follows expr).walks h
  | .var name none => walks_declare h name
  | .var name (some initializer) =>
      walks_var h name
        (resolveExpr_visits _ (declare_follows h name) initializer)
  | .block body => by
      have hbody := resolveStmts_walks (r.enter .empty)
        (Fits.enter h.isDeclaring_eq_false r) body
      rw [Stmt.declares, Path.declare_nil]
      exact hbody.leave.walks h
  | .branch condition yes none =>
      have hcondition := (resolveExpr_visits r h.follows condition).walks h
      hcondition.trans (resolveStmt_walks _ hcondition.fits yes)
  | .branch condition yes (some no) => by
      have hcondition := (resolveExpr_visits r h.follows condition).walks h
      have hyes := resolveStmt_walks _ hcondition.fits yes
      have hno := resolveStmt_walks _ hyes.fits no
      rw [Path.surroundings_declare, Path.declare_declare] at hno
      exact hcondition.trans (hyes.trans hno)
  | .loop condition body =>
      have hcondition := (resolveExpr_visits r h.follows condition).walks h
      hcondition.trans (resolveStmt_walks _ hcondition.fits body)
  | .function declaration =>
      have hname := walks_declare h declaration.name
      have hinside := resolveFunction_visits (.function :: path) _
        h.isDeclaring_eq_false declaration
      hname.trans (hinside.walks hname.fits)
  | .ret line none => by
      rw [Stmt.declares, Path.declare_nil]
      exact (visits_return path line none).walks h
  | .ret line (some value) => by
      have hreturn := (visits_return path line (some value)).walks h
      have hvalue := resolveExpr_visits _ hreturn.fits.follows value
      rw [Stmt.declares, Path.declare_nil]
      exact hreturn.trans (hvalue.walks hreturn.fits)
  | .classDecl name none methods =>
      have hname := walks_declare h name
      have hmethods := resolveMethods_visits (.classBody false :: path) _
        h.isDeclaring_eq_false methods
      hname.trans (hmethods.leave.walks hname.fits)
  | .classDecl name (some superclass) methods =>
      have hname := walks_declare h name
      have hinherits := (visits_inherits path name superclass).walks hname.fits
      have hfollows : Resolution.Follows _ (.classBody true :: path) :=
        fun other => (hinherits.fits.inOwnInitializer_eq_false other).trans
          (h.isDeclaring_eq_false other).symm
      have hsuper := resolveExpr_visits _ hfollows superclass
      have hmethods := resolveMethods_visits (.classBody true :: path) _
        h.isDeclaring_eq_false methods
      hname.trans (hinherits.trans
        ((hsuper.trans hmethods.leave.leave).walks hinherits.fits))

theorem resolveStmts_walks
    {path : Path} (r : Resolution) (h : Fits path r.scopes) :
    (stmts : List Stmt) →
      Walks (Stmt.sitesAll stmts path)
        (path.declare (stmts.flatMap Stmt.declares)) r
        (resolveStmts path.surroundings stmts r)
  | [] => by
      rw [List.flatMap_nil, Path.declare_nil]
      exact Visits.refl.walks h
  | stmt :: stmts => by
      have hstmt := resolveStmt_walks r h stmt
      have hstmts := resolveStmts_walks _ hstmt.fits stmts
      rw [Path.surroundings_declare, Path.declare_declare] at hstmts
      exact hstmt.trans hstmts

theorem resolveFunction_visits
    (path : Path) (r : Resolution) (h : ∀ name, path.isDeclaring name = false) :
    (declaration : FunctionDecl) →
      Visits (declaration.sites path) r
        (resolveFunction path.surroundings declaration r)
  | ⟨_, params, body⟩ =>
      have hparams := declareParams_walks params (Fits.enter h r)
      have hbody := resolveStmts_walks _ hparams.fits body
      (hparams.trans hbody).leave

theorem resolveMethods_visits
    (path : Path) (r : Resolution) (h : ∀ name, path.isDeclaring name = false) :
    (methods : List FunctionDecl) →
      Visits (FunctionDecl.sitesAll methods path) r
        (resolveMethods path.surroundings methods r)
  | [] => .refl
  | method :: methods =>
      have hmethod :=
        resolveFunction_visits (.method method.name.name :: path) r h method
      hmethod.trans (resolveMethods_visits path _ h methods)

end

/-- The walk over a program reports every site that breaks a rule, once and in
the order of the text, and nothing else.  So a program is accepted if and only
if none of its sites breaks a rule. -/
theorem resolve_reports_exactly_the_violations (program : Program) :
    ((∃ distances, resolve program = .ok distances) ↔
      violations (Stmt.sitesAll program []) = []) ∧
    ∀ errors, resolve program = .error errors ↔
      errors = violations (Stmt.sitesAll program []) ∧ errors ≠ [] := by
  have herrors : (resolveStmts .top program .start).errors =
      violations (Stmt.sitesAll program []) :=
    (resolveStmts_walks .start .top program).errors
  rw [← herrors]
  cases hfound : (resolveStmts .top program .start).errors with
  | nil =>
      have hresolve : resolve program =
          .ok (resolveStmts .top program .start).distances := by
        simp only [resolve, hfound]
      rw [hresolve]
      simp
  | cons e errors =>
      have hresolve : resolve program = .error (e :: errors) := by
        simp only [resolve, hfound]
      rw [hresolve]
      constructor
      · simp
      · intro others
        constructor
        · intro h
          cases h
          exact ⟨rfl, List.cons_ne_nil _ _⟩
        · rintro ⟨rfl, -⟩
          rfl

/-- In a block, the first `var a = a;` reads the name that it declares, and the
second one only declares it again. -/
example :
    violations (Stmt.sitesAll
      [.block [.var ⟨"a", 1⟩ (some (.read 0 ⟨"a", 1⟩)),
        .var ⟨"a", 2⟩ (some (.read 1 ⟨"a", 2⟩))]] []) =
      [⟨.readInOwnInitializer "a", 1⟩, ⟨.alreadyDeclared "a", 2⟩] := by
  decide

end Scope
end LoxLang
