import SqlTables.Proofs.RoundTrip.Plain

/-! Expressions of checks. They are written as they are, and what is read back is the source text of
their tokens. -/

namespace SqlTables

open Lexeme
open Scan (Gap Scans Delimited)
open Source (Uncommented)
open Text (Position)

variable {p p' : Position} {cs after : List Char} {ts us : List Token} {ws : List Lexeme}

namespace Lexeme

def ofToken (t : Token) : Lexeme := ⟨t.gap.toList, t.kind, t.lexeme.toList⟩

@[simp] theorem map_ofToken_tokensAt (p : Position) (ws : List Lexeme) :
    (tokensAt p ws).map ofToken = ws := by
  induction ws generalizing p with
  | nil => rfl
  | cons w ws ih =>
    rw [tokensAt_cons, List.map_cons, ih]
    simp [ofToken, token]

def ofExpression (e : String) : List Lexeme :=
  match Token.tokenize e with
  | .ok ts => ts.dropLast.map ofToken
  | .error _ => []

end Lexeme

theorem textOf_append_of_scans {rest : List Char} (h : Scans p cs ts p' rest) :
    textOf (ts.map ofToken) ++ rest = cs := by
  induction h with
  | done => rfl
  | @token p p' gap r rest c t us hg hc ht hs ih =>
    have hsplit := (Scan.eq_append_of_head? ht).1
    rw [List.map_cons, textOf_cons, List.append_assoc, ih]
    simp [ofToken, hsplit]

theorem textOf_of_scans (h : Scans p cs ts p' []) : textOf (ts.map ofToken) = cs := by
  rw [← textOf_append_of_scans h, List.append_nil]

theorem readBefore_of_scans (h : Scans p cs ts p' []) (ha : Delimited after) :
    ∀ as w bs, ts.map ofToken = as ++ w :: bs → w.ReadBefore (textOf bs ++ after) := by
  generalize hr : ([] : List Char) = rest at h
  induction h with
  | done p cs =>
    intro as w bs hs
    simp at hs
  | @token p p' gap r rest c t us hg hc ht hs ih =>
    intro as w bs hsplit
    cases as with
    | cons a as =>
      rw [List.map_cons, List.cons_append, List.cons.injEq] at hsplit
      exact ih hr as w bs hsplit.2
    | nil =>
      rw [List.map_cons, List.nil_append, List.cons.injEq] at hsplit
      obtain ⟨rfl, rfl⟩ := hsplit
      subst hr
      obtain ⟨happ, hne⟩ := Scan.eq_append_of_head? ht
      obtain ⟨d, l, hl⟩ := List.exists_cons_of_ne_nil hne
      rw [hl, List.cons_append, List.cons.injEq] at happ
      obtain ⟨rfl, rfl⟩ := happ
      have hhead := Scan.head?_append ha ht
      refine ⟨by simpa [ofToken] using hg, c, l, by simp [ofToken, hl], hc, ?_⟩
      rw [textOf_of_scans hs, ← List.append_assoc, hhead]
      simp [ofToken]

theorem nesting?_congr (h : ts.map (·.kind) = us.map (·.kind)) (depth : Nat) :
    nesting? depth ts = nesting? depth us := by
  induction ts generalizing us depth with
  | nil =>
    rw [List.map_nil, eq_comm, List.map_eq_nil_iff] at h
    rw [h]
  | cons t ts ih =>
    cases us with
    | nil => simp at h
    | cons u us =>
      rw [List.map_cons, List.map_cons, List.cons.injEq] at h
      simp only [nesting?, h.1, ih h.2]

theorem map_kind_tokensAt (p : Position) (ws : List Lexeme) :
    (tokensAt p ws).map (·.kind) = ws.map (·.kind) := by
  induction ws generalizing p with
  | nil => rfl
  | cons w ws ih =>
    rw [tokensAt_cons, List.map_cons, List.map_cons, ih]
    rfl

theorem toList_sourceText_cons (t : Token) (ts : List Token) :
    (Token.sourceText (t :: ts)).toList = t.lexeme.toList ++ textOf (ts.map ofToken) := by
  have hfold (s : String) : (ts.foldl (fun text u => text ++ u.gap ++ u.lexeme) s).toList =
      s.toList ++ textOf (ts.map ofToken) := by
    induction ts generalizing s with
    | nil => simp
    | cons u ts ih =>
      rw [List.foldl_cons, ih]
      simp [ofToken]
  rw [Token.sourceText, hfold]

theorem sourceText_tokensAt_cons (p : Position) (w : Lexeme) (ws : List Lexeme) :
    Token.sourceText (tokensAt p (w :: ws)) = String.ofList (w.text ++ textOf ws) := by
  rw [← String.toList_inj, tokensAt_cons, toList_sourceText_cons, map_ofToken_tokensAt]
  simp [token]

theorem sourceText_tokensAt (p : Position) (h : ∀ w ∈ ws.head?, w.gap = []) :
    Token.sourceText (tokensAt p ws) = String.ofList (textOf ws) := by
  cases ws with
  | nil => rfl
  | cons w ws =>
    have hgap : w.gap = [] := h w (by simp)
    rw [sourceText_tokensAt_cons, textOf_cons, hgap, List.nil_append]

theorem uncommented_expression {c : Check} (h : c.Plain) (after : List Char) :
    Uncommented c.expression.toList (')' :: after) := by
  obtain ⟨ms, hms⟩ := List.getLast?_eq_some_iff.1 h.closed
  have hall := Source.markFrom_append_of_code (by decide) (by decide) h.closed after
  have hparen : Source.markFrom true .code (')' :: after) =
      (')', .code) :: Source.markFrom true .code after := by
    have hm (next : Option Char) : Source.marking true .code ')' next = ⟨.code, .code, false⟩ :=
      Source.marking_code_of_not_quote (by decide) fun _ => by simp [Source.OpensComment]
    rw [Source.markFrom_cons (by rw [hm]), hm]
  refine ⟨ms, fun m hm => h.uncommented m ?_, ?_⟩
  · rw [hms]
    exact List.mem_append_left _ hm
  · rw [Source.mark] at hms
    rw [List.append_assoc, List.singleton_append, hms, List.append_assoc] at hall
    rw [hall, hparen]
    rfl

theorem ofExpression_spec {c : Check} (h : c.Plain) :
    textOf (ofExpression c.expression) = c.expression.toList ∧
      (∀ after, Written (ofExpression c.expression) (')' :: after)) ∧
      ∀ p, nesting? 0 (tokensAt p (ofExpression c.expression)) = some 0 ∧
        Token.sourceText (tokensAt p (ofExpression c.expression)) = c.expression := by
  obtain ⟨ts, last, htokens, hnesting, hfirst, hlast⟩ := h.tokens
  have hws : ofExpression c.expression = ts.map ofToken := by
    rw [ofExpression, htokens]
    simp
  obtain ⟨us, p', cs, _, hscans, hts⟩ := Token.tokenize_eq_ok_iff.1 htokens
  obtain ⟨rfl, heof⟩ := List.append_inj' hts rfl
  -- the last token has no gap, so the scan went to the end of the expression
  have hcs : cs = [] := by
    rw [List.cons.injEq] at heof
    rw [heof.1] at hlast
    simpa using hlast
  subst hcs
  have htext := textOf_of_scans hscans
  rw [hws]
  refine ⟨htext, fun after => ⟨?_, ?_⟩, fun p => ⟨?_, ?_⟩⟩
  · exact readBefore_of_scans hscans (Scan.delimited_cons.2 (by decide))
  · rw [htext]
    exact uncommented_expression h after
  · rw [← hnesting]
    apply nesting?_congr
    rw [map_kind_tokensAt, List.map_map]
    rfl
  · rw [sourceText_tokensAt, htext, String.ofList_toList]
    intro w hw
    rw [List.head?_map, Option.mem_def, Option.map_eq_some_iff] at hw
    obtain ⟨t, ht, rfl⟩ := hw
    simp [ofToken, hfirst t ht]

end SqlTables
