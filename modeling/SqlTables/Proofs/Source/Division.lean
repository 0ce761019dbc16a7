import SqlTables.Proofs.Source.Statements
import SqlTables.Proofs.Text.Words
import SqlTables.Proofs.Text.Writing

/-! How a script divides into statements. Line by line, notes and blank lines are passed over, and a
statement with no semicolon of code but its last is kept or passed over whole. -/

namespace SqlTables.Source

variable {c : Char} {as bs cs ds after : List Char} {ss ts : List Statement}

/-- Whether a text holds no comment and no semicolon of code, and has its last literal closed,
before what follows it. -/
def Undivided (cs after : List Char) : Prop :=
  Marks (fun m => m.2 ≠ .comment ∧ m ≠ (';', .code)) cs after

theorem Undivided.uncommented (h : Undivided cs after) : Uncommented cs after :=
  h.mono fun _ hm => hm.1

/-- Whether lines give the statements, whatever lines follow them. -/
def Divides (cs : List Char) (ss : List Statement) : Prop :=
  ∀ after, statements (blank (cs ++ '\n' :: after)) = ss ++ statements (blank after)

theorem statements_blank_cons (h : Text.isBlank c = true) (cs : List Char) :
    statements (c :: cs) = statements cs := by
  have hc : c ≠ ';' := by
    rintro rfl
    exact absurd h (by decide)
  rw [statements, statements, pieces, pieces, segments, segments, mark_blank_cons h,
    filterMap_ofSegment?_blank_cons h hc]

theorem statements_spaces (n : Nat) (cs : List Char) :
    statements (List.replicate n ' ' ++ cs) = statements cs := by
  induction n with
  | zero => rfl
  | succ n ih => rw [List.replicate_succ, List.cons_append, statements_blank_cons (by decide), ih]

theorem blank_newline_cons (cs : List Char) : blank ('\n' :: cs) = '\n' :: blank cs := by
  rw [blank, mark_newline_cons]
  rfl

theorem divides_nil : Divides [] [] := by
  intro after
  rw [List.nil_append, blank_newline_cons, statements_blank_cons (by decide), List.nil_append]

theorem divides_note (h : '\n' ∉ cs) : Divides ('-' :: '-' :: cs) [] := by
  intro after
  have hnote := blank_lineComment h after
  rw [hnote, statements_spaces, statements_blank_cons (by decide), List.nil_append]

theorem Divides.append_newline (ha : Divides as ss) (hb : Divides bs ts) :
    Divides (as ++ '\n' :: bs) (ss ++ ts) := by
  intro after
  rw [List.append_assoc, List.cons_append, ha, hb, List.append_assoc]

theorem Divides.append_flatMap {α : Type} {f : α → List Char} {g : α → List Statement}
    {xs : List α} (hc : Divides cs ss) (h : ∀ x ∈ xs, Divides (f x) (g x)) :
    Divides (cs ++ xs.flatMap fun x => '\n' :: f x) (ss ++ xs.flatMap g) := by
  induction xs generalizing cs ss with
  | nil => simpa using hc
  | cons x xs ih =>
    rw [List.forall_mem_cons] at h
    have hx := ih (hc.append_newline h.1) h.2
    simpa using hx

theorem divides_intercalate {α : Type} {f : α → List Char} {g : α → List Statement} {xs : List α}
    (h : ∀ x ∈ xs, Divides (f x) (g x)) :
    Divides (['\n'].intercalate (xs.map f)) (xs.flatMap g) := by
  cases xs with
  | nil => exact divides_nil
  | cons x xs =>
    rw [List.forall_mem_cons] at h
    have hx := h.1.append_flatMap h.2
    rw [List.map_cons, intercalate_cons, List.flatMap_map]
    exact hx

theorem segmentsOf_of_undivided {ms : List (Char × Region)} (h : ∀ m ∈ ms, m ≠ (';', .code)) :
    segmentsOf (ms ++ [(';', .code)]) = [ms.map Prod.fst ++ [';']] := by
  induction ms with
  | nil => rfl
  | cons m ms ih =>
    obtain ⟨c, region⟩ := m
    rw [List.forall_mem_cons] at h
    have hm : ¬(c = ';' ∧ region = .code ∧ endsBefore (ms ++ [(';', .code)])) := by
      rintro ⟨rfl, rfl, -⟩
      exact h.1 rfl
    rw [List.cons_append, segmentsOf, if_neg hm, ih h.2]
    rfl

theorem trimEnd_append_of_not_blank (h : Text.isBlank c = false) (cs : List Char) :
    Text.trimEnd (cs ++ [c]) = cs ++ [c] := by
  induction cs with
  | nil => simp [Text.trimEnd, h]
  | cons d cs ih =>
    rw [List.cons_append, Text.trimEnd, ih]
    cases cs <;> rfl

theorem mark_of_undivided (h : Undivided cs [';']) : ∃ ms, (∀ m ∈ ms, m ≠ (';', Region.code)) ∧
    mark true (cs ++ [';']) = ms ++ [(';', .code)] ∧ blank (cs ++ [';']) = cs ++ [';'] := by
  have hbody : Uncommented cs ([';'] ++ []) := h.uncommented
  have hlast : Uncommented [';'] [] := uncommented_of_plain (List.all_eq_true.1 (by decide)) []
  have hblank := blank_of_uncommented (hbody.append hlast)
  obtain ⟨ms, hms, h⟩ := h
  exact ⟨ms, fun m hm => (hms m hm).2, h, hblank⟩

theorem divides_statement (hh : cs.head? = some c) (hc : Text.isBlank c = false)
    (h : Undivided cs [';']) : Divides (cs ++ [';'])
      (if isTableDefinition (cs ++ [';']) then [⟨cs ++ [';'], false⟩] else []) := by
  obtain ⟨ms, hms, hmark, hblank⟩ := mark_of_undivided h
  have hlast : (mark true (cs ++ [';'])).getLast? = some (';', .code) := by
    rw [hmark, List.getLast?_append]
    rfl
  have hfst : ms.map Prod.fst ++ [';'] = cs ++ [';'] := by
    have hall := map_fst_markFrom true .code (cs ++ [';'])
    rw [← mark, hmark, List.map_append] at hall
    exact hall
  have hsegments : segments (cs ++ [';']) = [cs ++ [';']] := by
    rw [segments, ← hblank, ← mark_eq_of_blank, hblank, hmark, segmentsOf_of_undivided hms, hfst]
  have htrim : Text.trim (cs ++ [';']) = cs ++ [';'] := by
    obtain ⟨rest, rfl⟩ := List.head?_eq_some_iff.1 hh
    rw [Text.trim, Text.trimStart, List.cons_append, List.dropWhile_cons_of_neg (by simp [hc]),
      ← List.cons_append, trimEnd_append_of_not_blank (by decide)]
  have hpiece : statements (cs ++ [';']) =
      if isTableDefinition (cs ++ [';']) then [⟨cs ++ [';'], false⟩] else [] := by
    have hclose : Statement.close (cs ++ [';']) = ⟨cs ++ [';'], false⟩ := by
      rw [Statement.close, if_pos List.getLast?_concat]
    have hne : ¬(cs ++ [';'] = [] ∨ cs ++ [';'] = [';']) := by
      obtain ⟨rest, rfl⟩ := List.head?_eq_some_iff.1 hh
      simp
    rw [statements, pieces, hsegments, List.filterMap_cons, List.filterMap_nil, Piece.ofSegment?]
    simp only [htrim, if_neg hne, hclose]
    split_ifs <;> rfl
  intro after
  rw [blank_append_newline hlast, statements, pieces_append_newline (getLast?_mark_blank hlast),
    List.filterMap_append, hblank, ← statements, ← statements, hpiece]

theorem takeWhile_append_space {w : List Char} (h : w.all isWordChar = true) (cs : List Char) :
    (w ++ ' ' :: cs).takeWhile isWordChar = w ∧
      (w ++ ' ' :: cs).dropWhile isWordChar = ' ' :: cs := by
  have hspace : isWordChar ' ' = false := by decide
  have hw := List.all_eq_true.1 h
  rw [List.takeWhile_append_of_pos hw, List.dropWhile_append_of_pos hw,
    List.takeWhile_cons_of_neg (by simp [hspace]), List.dropWhile_cons_of_neg (by simp [hspace]),
    List.append_nil]
  exact ⟨rfl, rfl⟩

theorem isTableDefinition_eq_false {w : List Char} (h : w.all isWordChar = true)
    (hw : Text.foldCase w ≠ "CREATE".toList) (cs : List Char) :
    isTableDefinition (w ++ ' ' :: cs) = false := by
  have hopening : (Text.foldCase w == "CREATE".toList) = false := by simpa using hw
  rw [isTableDefinition, (takeWhile_append_space h cs).1, hopening]
  rfl

theorem isTableDefinition_createTable (cs : List Char) :
    isTableDefinition ("CREATE TABLE ".toList ++ cs) = true := by
  have hcreate : "CREATE".toList.all isWordChar = true := by decide
  have htable : Text.IsRun isWordChar "TABLE".toList :=
    ⟨by decide, List.all_eq_true.1 (by decide)⟩
  obtain ⟨htake, hdrop⟩ := takeWhile_append_space hcreate ("TABLE".toList ++ ' ' :: cs)
  have hspace : isWordChar ' ' = false := by decide
  have hruns : Text.runsOf isWordChar (' ' :: ("TABLE".toList ++ ' ' :: cs)) =
      "TABLE".toList :: Text.runsOf isWordChar (' ' :: cs) := by
    rw [Text.runsOf_cons_of_false hspace, Text.runsOf_append htable (by simp [hspace])]
  have htext : "CREATE TABLE ".toList ++ cs =
      "CREATE".toList ++ ' ' :: ("TABLE".toList ++ ' ' :: cs) := rfl
  rw [htext, isTableDefinition, htake, hdrop, hruns, List.map_cons]
  cases (Text.runsOf isWordChar (' ' :: cs)).map Text.foldCase <;> rfl

end SqlTables.Source
