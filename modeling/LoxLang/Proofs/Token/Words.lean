import LoxLang.Analysis
import LoxLang.Proofs.Grammar.Exactness
import LoxLang.Proofs.Grammar.Numbering
import LoxLang.Proofs.Token.Lines

/-!
# The tokens of a source text

The tokens of a text without lexical errors end in their only end mark, and
the words of the language are never names.  Together with the grammar this
says what a program is once it has been analysed without error.
-/

namespace LoxLang

open Grammar (EndFree Named Declarations)

namespace Token

/-! ## Kinds of pieces -/

theorem ordinary_of_wordKind
    {word : String} (h : wordKind word = .identifier) : Ordinary word := by
  have hthis : wordKind "this" = .thisWord := by decide
  have hsuper : wordKind "super" = .superWord := by decide
  constructor
  · rintro rfl
    simp [hthis] at h
  · rintro rfl
    simp [hsuper] at h

private theorem wordKind_ne_eof (word : String) : wordKind word ≠ .eof := by
  cases hlookup : keywords.lookup word with
  | none => simp [wordKind, hlookup]
  | some kind =>
      obtain ⟨before, behind, hsplit, -⟩ :=
        List.lookup_eq_some_iff.mp hlookup
      have hmem : (word, kind) ∈ keywords := by simp [hsplit]
      have hkinds : ∀ entry ∈ keywords, entry.2 ≠ .eof := by decide
      simpa [wordKind, hlookup] using hkinds _ hmem

private theorem singleMark?_kind
    {c : Char} {kind : Kind} (h : singleMark? c = some kind) :
    kind ≠ .eof ∧ kind ≠ .identifier := by
  unfold singleMark? at h
  split at h <;> cases h <;> decide

private theorem doubleMark?_kind
    {c d : Char} {kind : Kind} (h : doubleMark? c d = some kind) :
    kind ≠ .eof ∧ kind ≠ .identifier := by
  unfold doubleMark? at h
  split at h <;> cases h <;> decide

/-- A piece that becomes a token is no end mark, and if it is a name then it
is an ordinary one. -/
theorem munch_kind
    {c : Char} {rest : List Char} {kind : Kind} {extra : Nat}
    (h : munch c rest = (.token kind, extra)) :
    kind ≠ .eof ∧
      (kind = .identifier →
        Ordinary (String.ofList (c :: rest.take extra))) := by
  unfold munch at h
  split at h
  · cases h
  split at h
  · cases h
  split at h
  · simp only [munchString] at h
    split at h <;> cases h
    exact ⟨by simp, by simp⟩
  split at h
  · cases h
    exact ⟨by simp, by simp⟩
  split at h
  · cases h
    refine ⟨wordKind_ne_eof _, fun hkind => ?_⟩
    rw [take_takeWhile_length]
    exact ordinary_of_wordKind hkind
  · unfold munchMark at h
    split at h
    · rename_i found hmark
      cases h
      obtain ⟨d, -, hdouble⟩ := Option.bind_eq_some_iff.mp hmark
      have hkind := doubleMark?_kind hdouble
      exact ⟨hkind.1, fun hname => absurd hname hkind.2⟩
    · split at h
      · rename_i hmark
        cases h
        have hkind := singleMark?_kind hmark
        exact ⟨hkind.1, fun hname => absurd hname hkind.2⟩
      · cases h

/-! ## Whole texts -/

/-- The items of a text: nothing in front of the last item is an end mark. -/
theorem scanFrom_items (line : Nat) (text : List Char) :
    ∃ items stop,
      scanFrom line text = items ++ [.ok stop] ∧ stop.kind = .eof ∧
        EndFree (tokensOf items) ∧ Named (tokensOf items) := by
  induction line, text using scanFrom_induction with
  | stop line =>
      rw [scanFrom]
      exact ⟨[], _, rfl, rfl, by simp [tokensOf], by simp [Named, tokensOf]⟩
  | gap line c rest extra hmunch ih =>
      rw [scanFrom_gap hmunch]
      exact ih
  | token line c rest extra kind hmunch ih =>
      obtain ⟨items, stop, hitems, hstop, hfree, hnamed⟩ := ih
      have hkind := munch_kind hmunch
      let token : Token := ⟨kind, String.ofList (c :: rest.take extra),
        line + (c :: rest.take extra).count '\n'⟩
      have htokens :
          tokensOf (.ok token :: items) = token :: tokensOf items := rfl
      refine ⟨.ok token :: items, stop, ?_, hstop, ?_, ?_⟩
      · rw [scanFrom_token hmunch, List.cons_append, ← hitems]
      · rw [htokens]
        exact Grammar.endFree_cons.mpr ⟨hkind.1, hfree⟩
      · rw [htokens]
        exact Grammar.named_cons.mpr ⟨hkind.2, hnamed⟩
  | error line c rest extra cause hmunch ih =>
      obtain ⟨items, stop, hitems, hstop, hfree, hnamed⟩ := ih
      let e : LexError := ⟨cause, line + (c :: rest.take extra).count '\n'⟩
      refine ⟨.error e :: items, stop, ?_, hstop, hfree, hnamed⟩
      rw [scanFrom_error hmunch, List.cons_append, ← hitems]

theorem ofSource_eq_ok
    {source : String} {tokens : List Token}
    (h : ofSource source = .ok tokens) :
    ∃ ts stop, tokens = ts ++ [stop] ∧ stop.kind = .eof ∧
      EndFree ts ∧ Named ts := by
  obtain ⟨items, stop, hitems, hstop, hfree, hnamed⟩ :=
    scanFrom_items 1 source.toList
  have htokens : tokens = tokensOf (items ++ [.ok stop]) := by
    simp only [ofSource, scan, hitems] at h
    split at h
    · exact (Except.ok.inj h).symm
    · cases h
  refine ⟨tokensOf items, stop, ?_, hstop, hfree, hnamed⟩
  rw [htokens, tokensOf, List.filterMap_append]
  rfl

end Token

/-- A text that is analysed without error has tokens that the grammar derives
its program from. -/
theorem Analysis.exists_tokens
    {source : String} {firstId : PlaceId} {checked : Checked}
    (h : (Analysis.ofSource source firstId).verdict = .ok checked) :
    ∃ ts stop,
      Token.ofSource source = .ok (ts ++ [stop]) ∧ stop.kind = .eof ∧
      Named ts ∧
      Declarations ts firstId checked.program
        (Analysis.ofSource source firstId).nextId ∧
      Scope.resolve checked.program = .ok checked.distances := by
  cases htokens : Token.ofSource source with
  | error errors => simp [Analysis.ofSource, htokens] at h
  | ok tokens =>
      obtain ⟨ts, stop, rfl, hstop, hfree, hnamed⟩ :=
        Token.ofSource_eq_ok htokens
      cases hprogram : (Grammar.read (ts ++ [stop]) firstId).program with
      | error errors => simp [Analysis.ofSource, htokens, hprogram] at h
      | ok program =>
          simp only [Analysis.ofSource, htokens, hprogram] at h ⊢
          cases hresolve : Scope.resolve program with
          | error errors => simp [Analysis.check, hresolve] at h
          | ok distances =>
              simp only [Analysis.check, hresolve, Except.ok.injEq] at h
              subst h
              exact ⟨ts, stop, rfl, hstop, hnamed,
                Grammar.read_sound hfree hstop hprogram, hresolve⟩

/-- What is known of a program that has been analysed without error. -/
theorem Analysis.of_verdict_eq_ok
    {source : String} {firstId : PlaceId} {checked : Checked}
    (h : (Analysis.ofSource source firstId).verdict = .ok checked) :
    (∃ ts, Named ts ∧ Declarations ts firstId checked.program
        (Analysis.ofSource source firstId).nextId) ∧
      Scope.resolve checked.program = .ok checked.distances := by
  obtain ⟨ts, stop, -, -, hnamed, hderives, hresolve⟩ :=
    Analysis.exists_tokens h
  exact ⟨⟨ts, hnamed, hderives⟩, hresolve⟩

end LoxLang
