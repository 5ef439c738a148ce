import Mathlib.Data.List.Chain
import Mathlib.Data.List.Forall2
import Mathlib.Data.List.TakeWhile
import LoxLang.Proofs.Token.Bytes
import LoxLang.Proofs.Token.Joined

/-!
# Where the items of a scan stand

Each item of a scan stands for a span of the source.  The spans follow each
other in the order of the items, there is nothing but blanks and comments
between them, and the end mark stands at the end of the text.
-/

namespace LoxLang
namespace Token

/-- A stretch of a source text.  Its ends are positions of the text, so no
character is cut in two. -/
structure Span (source : String) where
  start : source.Pos
  stop : source.Pos
  start_le_stop : start ≤ stop

namespace Span

variable {source : String}

/-- The empty stretch at a position. -/
def empty (p : source.Pos) : Span source :=
  ⟨p, p, Std.le_refl p⟩

def text (span : Span source) : String :=
  source.extract span.start span.stop

/-- The line on which the span ends. -/
def line (span : Span source) : Nat :=
  1 + (source.extract source.startPos span.stop).toList.count '\n'

end Span

/-- Blanks and comments that stand in front of `rest`.  A comment goes on up to
a line break or to the end of the text. -/
inductive Skipped : List Char → List Char → Prop where
  | nil {rest : List Char} : Skipped [] rest
  | blank {c : Char} {gap rest : List Char} :
      c ∈ [' ', '\t', '\r', '\n'] → Skipped gap rest → Skipped (c :: gap) rest
  | comment {body gap rest : List Char} :
      '\n' ∉ body → (∀ c ∈ (gap ++ rest).head?, c = '\n') → Skipped gap rest →
      Skipped ('/' :: '/' :: (body ++ gap)) rest

/-- There is nothing but blanks and comments between the spans. -/
def Span.Precedes {source : String} (a b : Span source) : Prop :=
  a.stop ≤ b.start ∧
    Skipped (source.extract a.stop b.start).toList
      (source.extract b.start source.endPos).toList

/-- The item is what the span holds. -/
inductive Stands {source : String} : Item → Span source → Prop where
  | token {token : Token} {span : Span source} :
      token.kind ≠ .eof → token.lexeme = span.text → token.line = span.line →
      span.start < span.stop → Stands (.ok token) span
  | unexpected {c : Char} {line : Nat} {span : Span source} :
      span.text = String.singleton c → line = span.line →
      span.start < span.stop → Stands (.error ⟨.unexpected c, line⟩) span
  | unterminated {line : Nat} {content : List Char} {span : Span source} :
      span.text.toList = '"' :: content → '"' ∉ content →
      span.stop = source.endPos → line = span.line →
      span.start < span.stop → Stands (.error ⟨.unterminated, line⟩) span
  | stop {line : Nat} :
      line = (Span.empty source.endPos).line →
      Stands (.ok ⟨.eof, "", line⟩) (.empty source.endPos)

/-- The item is what the span holds, and the span reaches from byte to byte. -/
structure Lies {source : String} (found : Bytes.Found) (span : Span source) :
    Prop where
  stands : Stands found.item span
  start : found.start = span.start.offset.byteIdx
  stop : found.stop = span.stop.offset.byteIdx

/-! ## Positions -/

section
variable {source a b c : String} {p q : source.Pos}

theorem extract_startPos (hp : p.Splits a b) :
    source.extract source.startPos p = a := by
  have hstart : source.startPos.Splits "" (a ++ b) := by
    rw [← hp.eq_append]
    exact source.splits_startPos
  exact (extract_of_splits hstart (by simpa using hp)).2

private theorem extract_endPos (hp : p.Splits a b) :
    source.extract p source.endPos = b := by
  have hend : source.endPos.Splits (a ++ b) "" := by
    rw [← hp.eq_append]
    exact source.splits_endPos
  exact (extract_of_splits (by simpa using hp) hend).2

/-- The position behind the first part of what stands at a position. -/
theorem exists_splits (hp : p.Splits a (b ++ c)) :
    ∃ q : source.Pos, q.Splits (a ++ b) c := by
  have hsource : source = a ++ b ++ c := by
    rw [String.append_assoc]
    exact hp.eq_append
  exact ⟨_, String.Pos.splits_ofEqAppend hsource⟩

/-- Something that is skipped can be put in front of a gap. -/
theorem Span.Precedes.extend
    {span : Span source} (h : (Span.empty q).Precedes span)
    (hp : p.Splits a (b ++ c)) (hq : q.Splits (a ++ b) c)
    (hskipped : ∀ gap rest, gap ++ rest = c.toList → Skipped gap rest →
      Skipped (b.toList ++ gap) rest) :
    (Span.empty p).Precedes span := by
  obtain ⟨hle, hgap⟩ := h
  have hspan := span.start.splits
  obtain ⟨gap, hfront, hback⟩ :=
    (hq.le_iff_exists_eq_append hspan).mp hle
  rw [hfront] at hspan
  have hwhole := hspan
  rw [String.append_assoc] at hwhole
  rw [hback] at hp hq
  rw [← String.append_assoc] at hp
  obtain ⟨hle', htext'⟩ := extract_of_splits hp hwhole
  refine ⟨hle', ?_⟩
  change Skipped (source.extract q span.start).toList _ at hgap
  change Skipped (source.extract p span.start).toList _
  rw [(extract_of_splits hq hspan).2, extract_endPos hspan] at hgap
  rw [htext', extract_endPos hspan, String.toList_append]
  refine hskipped _ _ ?_ hgap
  rw [hback, String.toList_append]

end

/-! ## Pieces -/

section
variable {c : Char} {rest : List Char} {extra : Nat}

private theorem munchMark_ne_gap (c : Char) (rest : List Char) :
    (munchMark c rest).1 ≠ .gap := by
  unfold munchMark
  split
  · simp
  · split <;> simp

/-- A gap is a blank or a comment. -/
theorem munch_gap (h : munch c rest = (.gap, extra)) :
    c ∈ [' ', '\t', '\r', '\n'] ∧ extra = 0 ∨
      ∃ body, c :: rest.take extra = '/' :: '/' :: body ∧ '\n' ∉ body ∧
        ∀ d ∈ (rest.drop extra).head?, d = '\n' := by
  unfold munch at h
  split at h
  · rename_i hblank
    cases h
    left
    simp only [isGap, Bool.or_eq_true, beq_iff_eq] at hblank
    simp only [List.mem_cons, List.not_mem_nil, or_false, and_true]
    tauto
  split at h
  · rename_i hslash
    cases h
    right
    obtain ⟨rfl, hhead⟩ := hslash
    rw [take_takeWhile_length, drop_takeWhile_length]
    cases rest with
    | nil => cases hhead
    | cons d rest =>
        cases hhead
        refine ⟨rest.takeWhile (· ≠ '\n'), by simp, ?_, ?_⟩
        · intro hmem
          simpa using List.mem_takeWhile_imp hmem
        · intro e he
          have hstop := List.head?_dropWhile_not (· ≠ '\n') ('/' :: rest)
          rw [Option.mem_def.mp he] at hstop
          simpa using hstop
  split at h
  · unfold munchString at h
    dsimp only at h
    split at h <;> cases h
  split at h
  · cases h
  split at h
  · cases h
  · exact absurd (congrArg Prod.fst h) (munchMark_ne_gap c rest)

/-- An error is a single character, or an open string that takes all that is
left of the text. -/
theorem munch_error
    {cause : LexError.Cause} (h : munch c rest = (.error cause, extra)) :
    cause = .unexpected c ∧ extra = 0 ∨
      cause = .unterminated ∧ c = '"' ∧ '"' ∉ rest ∧ extra = rest.length := by
  unfold munch at h
  split at h
  · cases h
  split at h
  · cases h
  split at h
  · rename_i hquote
    unfold munchString at h
    dsimp only at h
    split at h
    · cases h
    · rename_i hopen
      cases h
      refine .inr ⟨rfl, hquote, ?_, rfl⟩
      have hall : rest.takeWhile (· ≠ '"') = rest :=
        (List.takeWhile_prefix _).eq_of_length_le (Nat.le_of_not_lt hopen)
      intro hmem
      rw [← hall] at hmem
      simpa using List.mem_takeWhile_imp hmem
  split at h
  · cases h
  split at h
  · cases h
  · unfold munchMark at h
    split at h
    · cases h
    · split at h
      · cases h
      · cases h
        exact .inl ⟨rfl, rfl⟩

/-- A gap in front of something that is skipped is skipped with it. -/
theorem Skipped.munch
    {gap behind : List Char} (h : munch c rest = (.gap, extra))
    (hsplit : gap ++ behind = rest.drop extra) (hgap : Skipped gap behind) :
    Skipped (c :: rest.take extra ++ gap) behind := by
  rcases munch_gap h with ⟨hblank, rfl⟩ | ⟨body, htext, hbody, hstop⟩
  · exact .blank hblank hgap
  · rw [htext]
    rw [← hsplit] at hstop
    exact .comment hbody hstop hgap

end

/-! ## Items -/

section
variable {source a : String} {p q : source.Pos}

/-- What is found stands at spans that follow each other from the position
on. -/
def Covers (p : source.Pos) (founds : List Bytes.Found) : Prop :=
  ∃ spans : List (Span source),
    List.Forall₂ Lies founds spans ∧
      List.IsChain Span.Precedes (.empty p :: spans)

theorem Covers.skip
    {founds : List Bytes.Found} {b c : String} (h : Covers q founds)
    (hp : p.Splits a (b ++ c)) (hq : q.Splits (a ++ b) c)
    (hskipped : ∀ gap rest, gap ++ rest = c.toList → Skipped gap rest →
      Skipped (b.toList ++ gap) rest) :
    Covers p founds := by
  obtain ⟨spans, hlies, hchain⟩ := h
  refine ⟨spans, hlies, ?_⟩
  rw [List.isChain_cons] at hchain ⊢
  exact ⟨fun span hspan => (hchain.1 span hspan).extend hp hq hskipped,
    hchain.2⟩

theorem Covers.cons
    {found : Bytes.Found} {founds : List Bytes.Found} {span : Span source}
    (hfound : Lies found span) (h : Covers span.stop founds) :
    Covers span.start (found :: founds) := by
  obtain ⟨spans, hlies, hchain⟩ := h
  refine ⟨span :: spans, .cons hfound hlies, ?_⟩
  rw [List.isChain_cons_cons]
  refine ⟨⟨Std.le_refl _, ?_⟩, ?_⟩
  · have hnone :=
      (extract_of_splits (b := "") (by simpa using span.start.splits)
        (by simpa using span.start.splits)).2
    change Skipped (source.extract span.start span.start).toList _
    rw [hnone]
    exact .nil
  · rw [List.isChain_cons] at hchain ⊢
    exact hchain

/-- The span between two positions, with what it holds and where it ends. -/
theorem exists_span
    {b c : String} (hp : p.Splits a (b ++ c)) (hq : q.Splits (a ++ b) c)
    (hb : b ≠ "") :
    ∃ span : Span source,
      span.start = p ∧ span.stop = q ∧ span.start < span.stop ∧
        span.text = b ∧ span.line = 1 + (a ++ b).toList.count '\n' := by
  obtain ⟨hle, htext⟩ := extract_of_splits hp hq
  have hlt := (hp.lt_iff_exists_eq_append hq).mpr ⟨b, hb, rfl, rfl⟩
  refine ⟨⟨p, q, hle⟩, rfl, rfl, hlt, htext, ?_⟩
  rw [Span.line, extract_startPos hq]

/-- The line behind a piece of the text. -/
theorem line_after
    {line : Nat} (hline : line = 1 + a.toList.count '\n') (text : List Char) :
    line + text.count '\n' =
      1 + (a ++ String.ofList text).toList.count '\n' := by
  rw [hline, String.toList_append, List.count_append, String.toList_ofList,
    Nat.add_assoc]

/-- The position behind the piece at the front of what is left. -/
theorem exists_splits_piece
    {c : Char} {rest : List Char} (hp : p.Splits a (String.ofList (c :: rest)))
    (extra : Nat) :
    ∃ q : source.Pos,
      p.Splits a (String.ofList (c :: rest.take extra) ++
        String.ofList (rest.drop extra)) ∧
      q.Splits (a ++ String.ofList (c :: rest.take extra))
        (String.ofList (rest.drop extra)) := by
  have hsplit : String.ofList (c :: rest) =
      String.ofList (c :: rest.take extra) ++
        String.ofList (rest.drop extra) := by
    rw [← String.ofList_append, List.cons_append, List.take_append_drop]
  rw [hsplit] at hp
  obtain ⟨q, hq⟩ := exists_splits hp
  exact ⟨q, hp, hq⟩

private theorem byteIdx_of_splits {b : String} (hp : p.Splits a b) :
    width a.toList = p.offset.byteIdx := by
  rw [hp.offset_eq_rawEndPos, ← utf8ByteSize_eq_width]
  rfl

/-- One round of the scan of bytes, which takes the piece at a position. -/
theorem collect_piece
    {c : Char} {rest : List Char} {piece : Piece} {extra rounds : Nat}
    (hp : p.Splits a (String.ofList (c :: rest)))
    (hmunch : munch c rest = (piece, extra))
    (hrounds : width (c :: rest) + 2 ≤ rounds) (start line : Nat)
    (pending : Option Kind) :
    let text := c :: rest.take extra
    let lineAfter := line + text.count '\n'
    let after := width (a ++ String.ofList text).toList
    ∃ fewer, width (rest.drop extra) + 2 ≤ fewer ∧
      Bytes.collect source rounds ⟨start, width a.toList, line, pending⟩ =
        (Bytes.collect source fewer
          ⟨width a.toList, after, lineAfter, none⟩).map
          ((Bytes.found? (width a.toList) after lineAfter text piece).toList ++
            ·) := by
  have hsource : source.toList = a.toList ++ c :: rest := by
    rw [hp.eq_append, String.toList_append, String.toList_ofList]
  have hround := Bytes.round_eq hsource hmunch start line pending
  have hinside : width a.toList ≤ (Bytes.bytes source).length := by
    rw [Bytes.length_bytes hsource]
    omega
  have hwidth : width (c :: rest) =
      width (c :: rest.take extra) + width (rest.drop extra) := by
    rw [← width_append, List.cons_append, List.take_append_drop]
  have hpos := width_pos c (rest.take extra)
  refine ⟨rounds - 1, by omega, ?_⟩
  obtain ⟨fewer, rfl⟩ : ∃ fewer, rounds = fewer + 1 := ⟨rounds - 1, by omega⟩
  rw [String.toList_append, String.toList_ofList]
  exact Bytes.collect_succ hround hinside

/-- The scan of the bytes from a position on finds the items of the characters,
each between the bytes of its span. -/
theorem covers_collect
    {line rounds start : Nat} {pending : Option Kind} {text : List Char}
    (hp : p.Splits a (String.ofList text))
    (hline : line = 1 + a.toList.count '\n')
    (hrounds : width text + 2 ≤ rounds) :
    ∃ founds,
      Bytes.collect source rounds ⟨start, width a.toList, line, pending⟩ =
        some founds ∧
      founds.map Bytes.Found.item = scanFrom line text ∧ Covers p founds := by
  induction line, text using scanFrom_induction
    generalizing a p rounds start pending with
  | stop line =>
      have hend : p = source.endPos := hp.eq_endPos_iff.mpr rfl
      subst hend
      have hsource : source.toList = a.toList := by
        rw [hp.eq_append, String.toList_append, String.toList_ofList,
          List.append_nil]
      have hlength : (Bytes.bytes source).length = width a.toList := by
        rw [Bytes.bytes_eq, hsource, width]
      have hround := Bytes.round_end hsource start line pending
      obtain ⟨fewer, rfl⟩ : ∃ fewer, rounds = fewer + 2 :=
        ⟨rounds - 2, by rw [width_nil] at hrounds; omega⟩
      have hstop : Lies ⟨.ok ⟨.eof, "", line⟩, width a.toList, width a.toList⟩
          (.empty source.endPos) := by
        refine ⟨.stop ?_, byteIdx_of_splits hp, byteIdx_of_splits hp⟩
        rw [Span.line, Span.empty, extract_startPos hp]
        exact hline
      refine ⟨[_], ?_, ?_, Covers.cons hstop ⟨[], .nil, .singleton _⟩⟩
      · rw [Bytes.collect_succ hround (Nat.le_of_eq hlength.symm),
          Bytes.collect, if_pos (by dsimp only; omega)]
        rfl
      · rw [scanFrom]
        rfl
  | gap line c rest extra hmunch ih =>
      obtain ⟨fewer, hfewer, hcollect⟩ :=
        collect_piece hp hmunch hrounds start line pending
      obtain ⟨q, hp, hq⟩ := exists_splits_piece hp extra
      obtain ⟨founds, hfounds, hitems, hcovers⟩ :=
        ih hq (line_after hline _) hfewer
      refine ⟨founds, ?_, ?_, hcovers.skip hp hq ?_⟩
      · rw [hcollect, hfounds]
        rfl
      · rw [scanFrom_gap hmunch, hitems]
      · intro gap behind hsplit hgap
        rw [String.toList_ofList] at hsplit ⊢
        exact hgap.munch hmunch hsplit
  | token line c rest extra kind hmunch ih =>
      obtain ⟨fewer, hfewer, hcollect⟩ :=
        collect_piece hp hmunch hrounds start line pending
      obtain ⟨q, hp, hq⟩ := exists_splits_piece hp extra
      have hafter := line_after hline (c :: rest.take extra)
      obtain ⟨founds, hfounds, hitems, hcovers⟩ := ih hq hafter hfewer
      obtain ⟨span, rfl, rfl, hlt, htext, hends⟩ :=
        exists_span hp hq (by simp [← String.toList_inj])
      let found : Bytes.Found :=
        ⟨.ok ⟨kind, String.ofList (c :: rest.take extra),
          line + (c :: rest.take extra).count '\n'⟩, width a.toList,
          width (a ++ String.ofList (c :: rest.take extra)).toList⟩
      have hfound : Lies found span :=
        ⟨.token (munch_kind hmunch).1 htext.symm (hafter.trans hends.symm) hlt,
          byteIdx_of_splits hp, byteIdx_of_splits hq⟩
      refine ⟨found :: founds, ?_, ?_, Covers.cons hfound hcovers⟩
      · rw [hcollect, hfounds]
        rfl
      · rw [scanFrom_token hmunch, ← hitems]
        rfl
  | error line c rest extra cause hmunch ih =>
      obtain ⟨fewer, hfewer, hcollect⟩ :=
        collect_piece hp hmunch hrounds start line pending
      obtain ⟨q, hp, hq⟩ := exists_splits_piece hp extra
      have hafter := line_after hline (c :: rest.take extra)
      obtain ⟨founds, hfounds, hitems, hcovers⟩ := ih hq hafter hfewer
      obtain ⟨span, rfl, rfl, hlt, htext, hends⟩ :=
        exists_span hp hq (by simp [← String.toList_inj])
      have hitem : Stands (.error
          ⟨cause, line + (c :: rest.take extra).count '\n'⟩) span := by
        rcases munch_error hmunch with ⟨rfl, rfl⟩ | ⟨rfl, rfl, hopen, rfl⟩
        · exact .unexpected htext (hafter.trans hends.symm) hlt
        · rw [List.take_length] at htext
          rw [List.drop_length] at hq
          refine .unterminated ?_ hopen (hq.eq_endPos_iff.mpr rfl)
            (hafter.trans hends.symm) hlt
          rw [htext, String.toList_ofList]
      let found : Bytes.Found :=
        ⟨.error ⟨cause, line + (c :: rest.take extra).count '\n'⟩,
          width a.toList,
          width (a ++ String.ofList (c :: rest.take extra)).toList⟩
      have hfound : Lies found span :=
        ⟨hitem, byteIdx_of_splits hp, byteIdx_of_splits hq⟩
      refine ⟨found :: founds, ?_, ?_, Covers.cons hfound hcovers⟩
      · rw [hcollect, hfounds]
        rfl
      · rw [scanFrom_error hmunch, ← hitems]
        rfl

end

/-- Spans between which there is nothing but gaps do not overlap. -/
theorem pairwise_of_isChain
    {source : String} {spans : List (Span source)}
    (h : List.IsChain Span.Precedes spans) :
    spans.Pairwise fun a b => a.stop ≤ b.start := by
  have htrans : IsTrans (Span source) fun a b => a.stop ≤ b.start :=
    ⟨fun _ b _ hab hbc => Std.le_trans hab (Std.le_trans b.start_le_stop hbc)⟩
  exact (h.imp fun _ _ hprecedes => hprecedes.1).pairwise

/-- A scan covers its text.  The scan of its bytes never breaks off, and finds
the same items.  There is a span of the text for each of them, in the same
order and without overlaps, which starts and stops at the bytes between which
the item was found.  In front of the first span and between one and the next
there are only blanks and comments.  Each item is what its span holds, and its
line is that on which the span ends.  The last item is the end mark, which
stands at the end of the text, and there is no other one. -/
theorem scan_covers_source (source : String) :
    (∃ (founds : List Bytes.Found) (spans : List (Span source)),
      Bytes.scan source = some founds ∧
      founds.map Bytes.Found.item = scan source ∧
      List.Forall₂ Lies founds spans ∧
      List.IsChain Span.Precedes (.empty source.startPos :: spans) ∧
      spans.Pairwise fun a b => a.stop ≤ b.start) ∧
    ∃ items stop,
      scan source = items ++ [.ok stop] ∧ stop.kind = .eof ∧
        ∀ token, .ok token ∈ items → token.kind ≠ .eof := by
  constructor
  · have hstart : source.startPos.Splits "" (String.ofList source.toList) := by
      rw [String.ofList_toList]
      exact source.splits_startPos
    have hrounds : width source.toList + 2 ≤
        (Bytes.bytes source).length + 2 := by
      rw [Bytes.bytes_eq, width]
    obtain ⟨founds, hfounds, hitems, spans, hlies, hchain⟩ :=
      covers_collect hstart rfl hrounds
    exact ⟨founds, spans, hfounds, hitems, hlies, hchain,
      pairwise_of_isChain (List.isChain_cons.mp hchain).2⟩
  · obtain ⟨items, stop, hitems, hstop, hfree, -⟩ :=
      scanFrom_items 1 source.toList
    refine ⟨items, stop, hitems, hstop, ?_⟩
    intro token hmem
    apply hfree
    exact List.mem_filterMap.mpr ⟨_, hmem, rfl⟩

end Token
end LoxLang
