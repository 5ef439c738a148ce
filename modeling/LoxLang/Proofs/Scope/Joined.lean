import LoxLang.Proofs.Likeness.Scope
import LoxLang.Proofs.Scope.Composition
import LoxLang.Proofs.Session.Safety
import LoxLang.Proofs.Token.Joined

/-!
# The analysis of two texts, one below the other

No declaration reaches over the end of a text, and the walk that binds names
keeps nothing from one declaration at the top level to the next.  So where an
accepted text stands above another one, the program of both is that of the
first and then that of the second, further down, and every place has the
distance that it has in its own text.
-/

namespace LoxLang

/-- The second text stands some lines further down. -/
def Likeness.lowered (lines : Nat) : Likeness :=
  ⟨fun line line' => line' = line + lines, Eq⟩

theorem Likeness.lowered_counts (lines : Nat) :
    (Likeness.lowered lines).Counts :=
  fun _ _ hplace => congrArg (· + 1) hplace

theorem Token.alike_moved (lines : Nat) (token : Token) :
    token.Alike (.lowered lines) (token.moved lines) :=
  ⟨rfl, rfl, rfl⟩

/-! ## Derivations -/

namespace Grammar

theorem Declarations.append
    {ts us : List Token} {n k m : PlaceId} {front rest : List Stmt} :
    Declarations ts n front k → Declarations us k rest m →
      Declarations (ts ++ us) n (front ++ rest) m
  | .nil, h => h
  | .cons first more, h => by
      rw [List.append_assoc]
      exact .cons first (more.append h)

private theorem endFree_map_moved
    {ts : List Token} (h : EndFree ts) (lines : Nat) :
    EndFree (ts.map (Token.moved lines)) := by
  intro token htoken
  obtain ⟨original, hmem, rfl⟩ := List.mem_map.mp htoken
  exact h original hmem

/-- The grammar derives the same program from the tokens further down, but for
the lines. -/
theorem Declarations.moved
    {ts : List Token} {n m : PlaceId} {stmts : List Stmt}
    (h : Declarations ts n stmts m) (lines : Nat) :
    ∃ stmts', Declarations (ts.map (Token.moved lines)) n stmts' m ∧
      Stmt.AllAlike (.lowered lines) stmts stmts' := by
  let stop : Token := ⟨.eof, "", 0⟩
  let above : Cursor := ⟨stop, ts ++ [stop], n⟩
  let below : Cursor :=
    ⟨stop.moved lines,
      ts.map (Token.moved lines) ++ [stop.moved lines], n⟩
  have htokens :
      List.Forall₂ (Token.Alike (.lowered lines)) above.rest below.rest := by
    change List.Forall₂ _ (ts ++ [stop]) (ts.map _ ++ [stop].map _)
    rw [← List.map_append, List.forall₂_map_right_iff, List.forall₂_same]
    exact fun token _ => token.alike_moved lines
  have halike : above.Alike (.lowered lines) below :=
    ⟨stop.alike_moved lines, htokens, rfl⟩
  have hreading : (declarations (ts.length + 1) above).Alike (.lowered lines)
      (declarations (ts.length + 1) below) :=
    declarations_alike (Likeness.lowered_counts lines) halike
      (by simp [above]) (by simp [below])
  have habove : declarations (ts.length + 1) above = ⟨stmts, [], m⟩ :=
    h.declarations_eq rfl _ _ (Nat.lt_succ_self _)
  rw [habove] at hreading
  have herrors : (declarations (ts.length + 1) below).errors = [] :=
    List.forall₂_nil_left_iff.mp hreading.errors
  have hbelow := declarations_sound rfl
    (endFree_map_moved h.endFree lines) (by simp) herrors
  have hnext : m = (declarations (ts.length + 1) below).nextId :=
    hreading.nextId
  rw [hnext]
  exact ⟨_, hbelow, hreading.statements⟩

end Grammar

/-! ## Walks -/

namespace Scope

/-- Every place of a text has the same distance further down. -/
theorem resolve_lowered
    {program program' : Program} {distances : Distances} {lines : Nat}
    (hresolve : resolve program = .ok distances)
    (halike : Stmt.AllAlike (.lowered lines) program program') :
    ∃ distances', resolve program' = .ok distances' ∧
      ∀ id, distances'.find? id = distances.find? id := by
  have hone : (Likeness.lowered lines).OneToOne := by
    rintro id id' other other' rfl rfl
    exact Iff.rfl
  obtain ⟨herrors, rfl⟩ := resolve_eq_ok_iff.mp hresolve
  have hwalk := resolveStmts_alike hone .top halike .start
  have herrors' : (resolveStmts .top program' .start).errors = [] := by
    have herrorsAlike := hwalk.errors
    rw [herrors] at herrorsAlike
    exact List.forall₂_nil_left_iff.mp herrorsAlike
  refine ⟨_, resolve_eq_ok_iff.mpr ⟨herrors', rfl⟩, ?_⟩
  intro id
  exact (hwalk.distances rfl).symm

/-- One walk over two programs records the distances of both. -/
theorem resolve_append
    {front rest rest' : Program} {distances distances' : Distances}
    {lines : Nat} (hfront : resolve front = .ok distances)
    (hrest : resolve rest = .ok distances')
    (halike : Stmt.AllAlike (.lowered lines) rest rest') :
    ∃ joined, resolve (front ++ rest') = .ok joined ∧
      ∀ id, joined.find? id = (distances.merge distances').find? id := by
  obtain ⟨lowered, hlowered, hsame⟩ := resolve_lowered hrest halike
  obtain ⟨joined, hjoined, hfind⟩ := resolve_append_of_ok hfront hlowered
  refine ⟨joined, hjoined, ?_⟩
  intro id
  rw [hfind, Distances.find?_merge, Distances.find?_merge, hsame]

end Scope

/-! ## Analyses -/

theorem Analysis.ofSource_eq
    {source : String} {firstId nextId : PlaceId} {ts : List Token}
    {stop : Token} {program : Program} {distances : Distances}
    (htokens : Token.ofSource source = .ok (ts ++ [stop]))
    (hstop : stop.kind = .eof)
    (hderives : Grammar.Declarations ts firstId program nextId)
    (hresolve : Scope.resolve program = .ok distances) :
    Analysis.ofSource source firstId = ⟨.ok ⟨program, distances⟩, nextId⟩ := by
  have hread : Grammar.read (ts ++ [stop]) firstId = ⟨program, [], nextId⟩ :=
    hderives.declarations_eq hstop _ _ (by simp)
  simp only [ofSource, htokens, hread, Grammar.Reading.program, check,
    hresolve]

/-- An accepted text above another one. -/
theorem Analysis.ofSource_joined
    {source below : String} {firstId : PlaceId} {first second : Checked}
    (hfirst : (ofSource source firstId).verdict = .ok first)
    (hsecond : (ofSource below (ofSource source firstId).nextId).verdict =
      .ok second) :
    ∃ tail distances,
      ofSource (source ++ "\n" ++ below) firstId =
        ⟨.ok ⟨first.program ++ tail, distances⟩,
          (ofSource below (ofSource source firstId).nextId).nextId⟩ ∧
      Stmt.AllAlike (.lowered (Token.linesOf source)) second.program tail ∧
      ∀ id, distances.find? id =
        (first.distances.merge second.distances).find? id := by
  obtain ⟨ts, stop, htokens, hstop, -, hderives, hresolve⟩ :=
    exists_tokens hfirst
  obtain ⟨us, stop', htokens', hstop', -, hderives', hresolve'⟩ :=
    exists_tokens hsecond
  obtain ⟨tail, htail, halike⟩ :=
    hderives'.moved (Token.linesOf source)
  obtain ⟨distances, hjoined, hfind⟩ :=
    Scope.resolve_append hresolve hresolve' halike
  have hsource := Token.ofSource_joined htokens htokens'
  rw [List.map_append, ← List.append_assoc] at hsource
  refine ⟨tail, distances, ?_, halike, hfind⟩
  exact ofSource_eq hsource hstop' (hderives.append htail) hjoined

end LoxLang
