import SqlTables.Parse
import SqlTables.Proofs.Source.Marking

/-! One script after another. Past a semicolon of code and a line end a script is read as if it
stood alone, so the tables of both are those of the first and then those of the second. -/

namespace SqlTables

open Source

namespace Source

theorem segmentsOf_ne_nil {ms : List (Char × Region)} (h : ms ≠ []) : segmentsOf ms ≠ [] := by
  cases ms with
  | nil => exact absurd rfl h
  | cons m ms =>
    unfold segmentsOf
    split
    · simp
    · split <;> simp

theorem endsBefore_append {ms : List (Char × Region)} (h : ms ≠ []) (ns : List (Char × Region)) :
    endsBefore (ms ++ ns) = endsBefore ms := by
  cases ms with
  | nil => exact absurd rfl h
  | cons m ms => rfl

theorem segmentsOf_append {ms ns : List (Char × Region)}
    (h : ms.getLast? = some (';', .code)) (hn : endsBefore ns = true) :
    segmentsOf (ms ++ ns) = segmentsOf ms ++ segmentsOf ns := by
  induction ms with
  | nil => simp at h
  | cons m ms ih =>
    obtain ⟨c, region⟩ := m
    cases ms with
    | nil =>
      simp only [List.getLast?_singleton, Option.some.injEq, Prod.mk.injEq] at h
      obtain ⟨rfl, rfl⟩ := h
      have he : endsBefore [] = true := rfl
      simp [segmentsOf, hn, he]
    | cons m' ms =>
      rw [List.getLast?_cons_cons] at h
      have he := endsBefore_append (List.cons_ne_nil m' ms) ns
      have hms := ih h
      rw [List.cons_append, segmentsOf, segmentsOf, he, hms]
      split_ifs with hc
      · rfl
      · cases hs : segmentsOf (m' :: ms) with
        | nil => exact absurd hs (segmentsOf_ne_nil (by simp))
        | cons segment segments => rfl

theorem trim_blank_cons {c : Char} (h : Text.isBlank c = true) (cs : List Char) :
    Text.trim (c :: cs) = Text.trim cs := by
  simp [Text.trim, Text.trimStart, h]

theorem ofSegment?_blank_cons {c : Char} (h : Text.isBlank c = true) (cs : List Char) :
    Piece.ofSegment? (c :: cs) = Piece.ofSegment? cs := by
  rw [Piece.ofSegment?, Piece.ofSegment?, trim_blank_cons h]

theorem ofSegment?_nil : Piece.ofSegment? [] = none := rfl

theorem filterMap_ofSegment?_blank_cons {c : Char} (h : Text.isBlank c = true)
    (hc : c ≠ ';') (region : Region) (ms : List (Char × Region)) :
    (segmentsOf ((c, region) :: ms)).filterMap Piece.ofSegment? =
      (segmentsOf ms).filterMap Piece.ofSegment? := by
  rw [segmentsOf, if_neg (by simp [hc])]
  cases segmentsOf ms with
  | nil => simp [ofSegment?_blank_cons h, ofSegment?_nil]
  | cons segment segments => simp [List.filterMap_cons, ofSegment?_blank_cons h]

theorem getLast?_mark_blank {text : List Char} {c : Char}
    (h : (mark true text).getLast? = some (c, .code)) :
    (mark false (blank text)).getLast? = some (c, .code) := by
  rw [mark_blank, List.getLast?_map, h]
  simp [visible, blankChar, Region.visible]

theorem mark_newline_cons (comments : Bool) (text : List Char) :
    mark comments ('\n' :: text) = ('\n', .code) :: mark comments text := by
  have hm : ∀ next, marking comments .code '\n' next = ⟨.code, .code, false⟩ :=
    fun _ => marking_code_of_blank (.inr rfl)
  rw [mark, markFrom_cons (by rw [hm]), hm]
  rfl

theorem mark_append {comments : Bool} {a : List Char}
    (h : (mark comments a).getLast? = some (';', .code)) (b : List Char) :
    mark comments (a ++ b) = mark comments a ++ mark comments b :=
  markFrom_append_of_code (by decide) (by decide) h b

theorem blank_append_newline {a : List Char} (h : (mark true a).getLast? = some (';', .code))
    (b : List Char) : blank (a ++ '\n' :: b) = blank a ++ '\n' :: blank b := by
  rw [blank, mark_append h, mark_newline_cons, List.map_append, List.map_cons]
  rfl

theorem pieces_append_newline {a : List Char} (h : (mark false a).getLast? = some (';', .code))
    (b : List Char) : pieces (a ++ '\n' :: b) = pieces a ++ pieces b := by
  have hb : Text.isBlank '\n' = true := by decide
  rw [pieces, pieces, pieces, segments, segments, segments, mark_append h, mark_newline_cons,
    segmentsOf_append h (by simpa [endsBefore] using hb), List.filterMap_append,
    filterMap_ofSegment?_blank_cons hb (by decide)]

end Source

namespace Table

theorem parseScript_append_newline {a b : String}
    (h : (mark true a.toList).getLast? = some (';', .code)) :
    parseScript (a ++ "\n" ++ b) = parseScript a ++ parseScript b := by
  have ht : (a ++ "\n" ++ b).toList = a.toList ++ '\n' :: b.toList := by simp
  rw [parseScript, parseScript, parseScript, ht, blank_append_newline h, statements, statements,
    statements, pieces_append_newline (getLast?_mark_blank h), List.filterMap_append,
    List.map_append]

theorem parseScript_append_newline_semicolons :
    (mark true "CREATE TABLE t (a TEXT DEFAULT ';\n'); /* ; */ CREATE TABLE u (;".toList).getLast? =
        some (';', .code) ∧
      parseScript ("CREATE TABLE t (a TEXT DEFAULT ';\n'); /* ; */ CREATE TABLE u (;" ++ "\n" ++
          "CREATE TABLE v (b INT)") =
        parseScript "CREATE TABLE t (a TEXT DEFAULT ';\n'); /* ; */ CREATE TABLE u (;" ++
          parseScript "CREATE TABLE v (b INT)" :=
  ⟨by decide, parseScript_append_newline (by decide)⟩

end Table

end SqlTables
