import SqlTables.Proofs.ColumnList
import SqlTables.Proofs.Token.Delimiters

/-! Items in any order. With commas between them and a parenthesis at the end they are a list again,
as tokens and as the text of these. -/

namespace SqlTables

open Declaration Lexeme
open Scan (Gap Delimited)

variable {i last : Item} {is others : List Item} {after : List Char} {c : Char}

namespace Declaration

def Item.text (i : Item) : List Char := textOf (i.tokens.map ofToken) ++ i.stop.gap.toList

def Item.stoppedBy (c : Char) (i : Item) : Item :=
  { i with stop := { i.stop with kind := Scan.punctuation c, lexeme := String.ofList [c] } }

def punctuated : List Item → List Item
  | [] => []
  | [i] => [i.stoppedBy ')']
  | i :: j :: is => i.stoppedBy ',' :: punctuated (j :: is)

def listTokens (is : List Item) : List Token := is.flatMap fun i => i.tokens ++ [i.stop]

theorem punctuated_cons (hne : is ≠ []) (i : Item) :
    punctuated (i :: is) = i.stoppedBy ',' :: punctuated is := by
  cases is with
  | nil => exact absurd rfl hne
  | cons j is => rfl

theorem listTokens_cons (i : Item) (is : List Item) :
    listTokens (i :: is) = i.tokens ++ [i.stop] ++ listTokens is := rfl

theorem map_ofToken_stoppedBy (c : Char) (i : Item) :
    ((i.stoppedBy c).tokens ++ [(i.stoppedBy c).stop]).map ofToken =
      i.tokens.map ofToken ++ [mark i.stop.gap.toList c] := by
  simp [Item.stoppedBy, ofToken, mark]

theorem textOf_stoppedBy (c : Char) (i : Item) :
    textOf (((i.stoppedBy c).tokens ++ [(i.stoppedBy c).stop]).map ofToken) = i.text ++ [c] := by
  rw [map_ofToken_stoppedBy]
  simp [Item.text, mark]

theorem textOf_listTokens_punctuated (hne : is ≠ []) :
    textOf ((listTokens (punctuated is)).map ofToken) =
      [','].intercalate (is.map Item.text) ++ [')'] := by
  induction is with
  | nil => exact absurd rfl hne
  | cons i is ih =>
    cases is with
    | nil => simpa [punctuated, listTokens_cons, listTokens] using textOf_stoppedBy ')' i
    | cons j is =>
      rw [punctuated, listTokens_cons, List.map_append, textOf_append, textOf_stoppedBy,
        ih (List.cons_ne_nil _ _)]
      simp [List.intercalate]

theorem items?_listTokens_punctuated (hne : is ≠ []) (h : ∀ i ∈ is, Enclosed i.tokens)
    (rest : List Token) :
    items? 0 (listTokens (punctuated is) ++ rest) = some (punctuated is, rest) := by
  induction is with
  | nil => exact absurd rfl hne
  | cons i is ih =>
    rw [List.forall_mem_cons] at h
    cases is with
    | nil =>
      have hclosing : items? 0 (i.tokens ++ (i.stoppedBy ')').stop :: rest) =
          some ([i.stoppedBy ')'], rest) := items?_closing h.1 rfl rest
      simpa [punctuated, listTokens, Item.stoppedBy] using hclosing
    | cons j is =>
      have hrest := ih (List.cons_ne_nil _ _) h.2
      have hcomma : ∀ k ∈ [i.stoppedBy ','], k.stop.kind = .comma := by
        simp [Item.stoppedBy, Scan.punctuation]
      have hall := items?_flatMap hcomma (fun k hk => by
        rw [List.mem_singleton.1 hk]
        exact h.1) hrest
      rw [punctuated, listTokens_cons, List.append_assoc]
      simpa using hall

theorem map_tokens_punctuated (is : List Item) :
    (punctuated is).map (·.tokens) = is.map (·.tokens) := by
  induction is with
  | nil => rfl
  | cons i is ih =>
    cases is with
    | nil => rfl
    | cons j is =>
      rw [punctuated, List.map_cons, ih]
      rfl

structure Item.Readable (i : Item) : Prop where
  gap : Gap i.stop.gap.toList
  reads : ∀ after, Delimited after → Reads (i.tokens.map ofToken) after

theorem Item.readable_of_reads (hc : c ∈ ['(', ')', ',', ';'])
    (hk : i.stop.kind = Scan.punctuation c)
    (h : Reads ((i.tokens ++ [i.stop]).map ofToken) after) :
    i.Readable ∧ ((i.stoppedBy c).tokens ++ [(i.stoppedBy c).stop]).map ofToken =
      (i.tokens ++ [i.stop]).map ofToken := by
  rw [List.map_append] at h
  obtain ⟨htokens, hstop⟩ := h.split
  obtain ⟨hgap, hmark⟩ := hstop.eq_mark hc hk
  -- the tokens end before the mark, so they end before whatever delimiter stands there instead
  have hdelimited : Delimited (textOf [ofToken i.stop] ++ after) :=
    hmark ▸ delimited_mark hc hgap [] after
  refine ⟨⟨hgap, fun after' ha' => htokens.exchange hdelimited ha'⟩, ?_⟩
  rw [map_ofToken_stoppedBy, List.map_append, List.map_singleton, hmark]
  rfl

theorem Item.Readable.reads_stoppedBy (h : i.Readable) (hc : c ∈ ['(', ')', ',', ';'])
    (after : List Char) :
    Reads (((i.stoppedBy c).tokens ++ [(i.stoppedBy c).stop]).map ofToken) after := by
  rw [map_ofToken_stoppedBy]
  exact .append (h.reads _ (delimited_mark hc h.gap [] after)) (reads_mark hc h.gap after)

theorem reads_listTokens_punctuated (h : ∀ i ∈ is, i.Readable) (after : List Char) :
    Reads ((listTokens (punctuated is)).map ofToken) after := by
  induction is with
  | nil => exact .nil after
  | cons i is ih =>
    rw [List.forall_mem_cons] at h
    cases is with
    | nil => simpa [punctuated, listTokens] using h.1.reads_stoppedBy (by decide) after
    | cons j is =>
      rw [punctuated, listTokens_cons, List.map_append]
      exact .append (h.1.reads_stoppedBy (by decide) _) (ih h.2)

theorem readable_of_reads_listTokens (hothers : ∀ i ∈ others, i.stop.kind = .comma)
    (hlast : last.stop.kind = .rightParen)
    (h : Reads ((listTokens (others ++ [last])).map ofToken) after) :
    (∀ i ∈ others ++ [last], i.Readable) ∧
      (listTokens (punctuated (others ++ [last]))).map ofToken =
        (listTokens (others ++ [last])).map ofToken := by
  induction others with
  | nil =>
    have hitem : listTokens [last] = last.tokens ++ [last.stop] := List.flatMap_singleton ..
    rw [List.nil_append, hitem] at h
    obtain ⟨hreadable, hsame⟩ := Item.readable_of_reads (c := ')') (by decide) hlast h
    refine ⟨by simpa using hreadable, ?_⟩
    simpa [punctuated, listTokens] using hsame
  | cons i others ih =>
    rw [List.forall_mem_cons] at hothers
    rw [List.cons_append, listTokens_cons, List.map_append] at h
    obtain ⟨hitem, hrest⟩ := h.split
    obtain ⟨hreadable, hsame⟩ := Item.readable_of_reads (c := ',') (by decide) hothers.1 hitem
    obtain ⟨hall, hmap⟩ := ih hothers.2 hrest
    refine ⟨List.forall_mem_cons.2 ⟨hreadable, hall⟩, ?_⟩
    rw [List.cons_append, punctuated_cons (by simp), listTokens_cons, listTokens_cons,
      List.map_append, hsame, hmap, ← List.map_append]

end Declaration

end SqlTables
