import SqlTables.Proofs.Text.Place
import SqlTables.Proofs.Token.Grammar

/-! Nothing of a text is lost in its tokens. They follow one another, each is what the grammar
reads at its place, and what none of them covers is blank; a text that is not taken up like that to
its end has a quote that nothing closes. -/

namespace SqlTables

open Scan (Gap Scans isGap)
open Text (Position bytes)

def Token.IsFirst (t : Token) (cs rest : List Char) : Prop :=
  ∃ r, TokenRule.first? cs = some (r, t.lexeme.toList, rest) ∧
    r.kind? t.lexeme.toList = some t.kind

/-- Tokens that take up a text from a place on, before more text. -/
structure Tiling (p : Position) (text after : List Char) (ts : List Token) : Prop where
  nonempty : ∀ t ∈ ts, t.start.offset < t.stop
  begun : ∀ t ∈ ts, ∃ c rest, t.lexeme.toList = c :: rest ∧ isGap c = false
  ordered : ts.Pairwise fun t u => t.stop ≤ u.start.offset
  written : ∀ t ∈ ts, ∃ before rest, text = before ++ (t.lexeme.toList ++ rest) ∧
    t.start = p.advance before ∧
    t.IsFirst (t.lexeme.toList ++ (rest ++ after)) (rest ++ after)
  gaps : ∀ before c rest, text = before ++ c :: rest → isGap c = false →
    ∃ t ∈ ts, t.start.offset ≤ (p.advance before).offset ∧ (p.advance before).offset < t.stop

theorem Text.bytes_pos {cs : List Char} (h : cs ≠ []) : 0 < bytes cs := by
  cases cs with
  | nil => exact absurd rfl h
  | cons c cs =>
    have hpos := c.utf8Size_pos
    rw [bytes_cons]
    omega

theorem append_eq_append_cons {α : Type} {as bs before rest : List α} {a : α}
    (h : as ++ bs = before ++ a :: rest) :
    (∃ xs, as = before ++ a :: xs) ∨ ∃ xs, before = as ++ xs ∧ bs = xs ++ a :: rest := by
  rcases List.append_eq_append_iff.1 h with ⟨xs, hb, hr⟩ | ⟨xs, rfl, hr⟩
  · exact .inr ⟨xs, hb, hr⟩
  · cases xs with
    | nil => exact .inr ⟨[], by simp, by simpa using hr.symm⟩
    | cons x xs =>
      rw [List.cons_append, List.cons.injEq] at hr
      exact .inl ⟨xs, by rw [hr.1]⟩

namespace Tiling

variable {p p' : Position} {text after gap rest : List Char} {ts : List Token} {c : Char}

theorem of_gap (h : Gap gap) (p : Position) (after : List Char) : Tiling p gap after [] where
  nonempty := by simp
  begun := by simp
  ordered := .nil
  written := by simp
  gaps before c rest ht hc := by
    have hgap := h c (by simp [ht])
    rw [hc] at hgap
    exact absurd hgap (by simp)

theorem cons (hgap : Gap gap) (hc : isGap c = false) {t : Scan.Head}
    (ht : Scan.head? c rest = some t)
    (h : Tiling ((p.advance gap).advance t.lexeme) text after ts) (hrest : t.rest = text ++ after) :
    Tiling p (gap ++ (t.lexeme ++ text)) after
      (⟨String.ofList gap, t.kind, String.ofList t.lexeme, p.advance gap⟩ :: ts) where
  nonempty := by
    refine List.forall_mem_cons.2 ⟨?_, h.nonempty⟩
    have hpos := Text.bytes_pos (Scan.eq_append_of_head? ht).2
    rw [Scan.stop_token, Position.offset_advance _ t.lexeme]
    exact Nat.lt_add_of_pos_right hpos
  begun := by
    refine List.forall_mem_cons.2 ⟨?_, h.begun⟩
    obtain ⟨happ, hne⟩ := Scan.eq_append_of_head? ht
    obtain ⟨d, lexeme, hl⟩ := List.exists_cons_of_ne_nil hne
    rw [hl, List.cons_append, List.cons.injEq] at happ
    exact ⟨d, lexeme, by rw [String.toList_ofList, hl], happ.1 ▸ hc⟩
  ordered := by
    refine List.pairwise_cons.2 ⟨fun u hu => ?_, h.ordered⟩
    obtain ⟨before, _, _, hstart, _⟩ := h.written u hu
    rw [Scan.stop_token, hstart, Position.offset_advance _ before]
    omega
  written := by
    refine List.forall_mem_cons.2 ⟨?_, fun u hu => ?_⟩
    · obtain ⟨r, hr, hk⟩ := TokenRule.first?_of_head? ht
      rw [(Scan.eq_append_of_head? ht).1, hrest] at hr
      refine ⟨gap, text, by rw [String.toList_ofList], rfl, r, ?_, ?_⟩
      · rw [String.toList_ofList]
        exact hr
      · rw [String.toList_ofList]
        exact hk
    · obtain ⟨before, later, htext, hstart, hfirst⟩ := h.written u hu
      refine ⟨gap ++ (t.lexeme ++ before), later, by simp [htext], ?_, hfirst⟩
      rw [hstart, Position.advance_append, Position.advance_append]
  gaps before d later hd hdg := by
    rcases append_eq_append_cons hd with ⟨xs, hin⟩ | ⟨xs, rfl, hxs⟩
    · have hblank := hgap d (by simp [hin])
      rw [hdg] at hblank
      exact absurd hblank (by simp)
    · rcases append_eq_append_cons hxs with ⟨ys, hin⟩ | ⟨ys, rfl, hys⟩
      · have hpos := Text.bytes_pos (List.cons_ne_nil d ys)
        refine ⟨_, List.mem_cons_self, ?_, ?_⟩
        · rw [Position.advance_append, Position.offset_advance _ xs]
          exact Nat.le_add_right _ _
        · rw [Scan.stop_token, Position.advance_append, hin, Position.offset_advance _ xs,
            Position.offset_advance _ (xs ++ d :: ys), Text.bytes_append]
          omega
      · obtain ⟨u, hu, hle, hlt⟩ := h.gaps ys d later hys hdg
        refine ⟨u, List.mem_cons_of_mem _ hu, ?_⟩
        rw [Position.advance_append, Position.advance_append]
        exact ⟨hle, hlt⟩

theorem of_scans {cs : List Char} (h : Scans p cs ts p' (gap ++ after)) (hgap : Gap gap) :
    ∃ text, cs = text ++ after ∧ p'.advance gap = p.advance text ∧ Tiling p text after ts := by
  generalize hleft : gap ++ after = left at h
  induction h with
  | done p cs => exact ⟨gap, hleft.symm, rfl, of_gap hgap p after⟩
  | @token p p' first rest cs c t ts hfirst hc ht _ ih =>
    obtain ⟨text, hrest, hplace, htiling⟩ := ih hleft
    refine ⟨first ++ (t.lexeme ++ text), ?_, ?_, cons hfirst hc ht htiling hrest⟩
    · rw [(Scan.eq_append_of_head? ht).1, hrest]
      simp
    · rw [hplace, Position.advance_append, Position.advance_append]

theorem ne_eof (h : Tiling p text after ts) : ∀ t ∈ ts, t.kind ≠ .eof := by
  intro t ht
  obtain ⟨_, _, _, _, r, _, hk⟩ := h.written t ht
  intro he
  rw [he] at hk
  cases r <;> simp [TokenRule.kind?] at hk

end Tiling

namespace Token

variable {text : String}

theorem tiling_of_tokenize_ok {ts : List Token} (h : tokenize text = .ok ts) :
    ∃ us gap, ts = us ++ [⟨gap, .eof, "", endPosition text⟩] ∧
      Tiling .start text.toList [] us := by
  obtain ⟨us, p, gap, hgap, hs, rfl⟩ := tokenize_eq_ok_iff.1 h
  rw [← List.append_nil gap] at hs
  obtain ⟨read, hread, _, htiling⟩ := Tiling.of_scans hs hgap
  rw [List.append_nil] at hread
  exact ⟨us, _, rfl, hread ▸ htiling⟩

theorem tiling_of_tokenize_error {e : ScanError} (h : tokenize text = .error e) :
    ∃ before quote rest ts, text.toList = before ++ quote :: rest ∧
      Source.isQuote quote = true ∧ Tiling .start before (quote :: rest) ts ∧
      (∀ r ∈ TokenRule.literals, r.read? (quote :: rest) = none) ∧
      e = .unterminatedLiteral (Text.lineCount before) ((Text.lastLine before).length + 1) := by
  cases hscan : (Scan.ofText text).unterminated with
  | none =>
    rw [tokenize] at h
    simp [hscan] at h
  | some place =>
    rw [tokenize_of_unterminated_eq_some hscan] at h
    cases h
    obtain ⟨p, gap, quote, rest, hgap, _, hnone, hs, rfl⟩ :=
      Scan.scans_of_unterminated_eq_some hscan
    obtain ⟨hquote, hopen⟩ := TokenRule.read?_of_head?_eq_none hnone
    obtain ⟨before, hbefore, hplace, htiling⟩ := Tiling.of_scans hs hgap
    refine ⟨before, quote, rest, _, hbefore, hquote, htiling, hopen, ?_⟩
    rw [hplace, Position.start_advance]

/-- The grammar takes in every text. Tokenizing gives the tokens of a tiling and the end, or stops
after the tokens of a tiling, at a quote from which none of the rules of literals reads. -/
theorem tokenize_eq_tiling (text : String) :
    TokenRule.program.read? text.toList = some (text.toList, []) ∧
      ((∃ ts eof, tokenize text = .ok (ts ++ [eof]) ∧ Tiling .start text.toList [] ts ∧
          (∀ t ∈ ts, t.kind ≠ .eof) ∧ eof.kind = .eof ∧ eof.start.offset = text.utf8ByteSize ∧
          eof.stop = text.utf8ByteSize) ∨
        ∃ before quote rest ts, text.toList = before ++ quote :: rest ∧
          Source.isQuote quote = true ∧ Tiling .start before (quote :: rest) ts ∧
          (∀ r ∈ TokenRule.literals, r.read? (quote :: rest) = none) ∧
          tokenize text = .error (.unterminatedLiteral (Text.lineCount before)
            ((Text.lastLine before).length + 1))) := by
  refine ⟨TokenRule.read?_program _, ?_⟩
  cases htokens : tokenize text with
  | ok ts =>
    obtain ⟨us, gap, rfl, htiling⟩ := tiling_of_tokenize_ok htokens
    exact .inl ⟨us, _, rfl, htiling, htiling.ne_eof, rfl, rfl, rfl⟩
  | error e =>
    obtain ⟨before, quote, rest, us, hbefore, hquote, htiling, hopen, rfl⟩ :=
      tiling_of_tokenize_error htokens
    exact .inr ⟨before, quote, rest, us, hbefore, hquote, htiling, hopen, rfl⟩

end Token

end SqlTables
