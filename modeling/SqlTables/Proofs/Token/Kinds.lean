import SqlTables.Proofs.RoundTrip.Expression
import SqlTables.Proofs.Unplaced

/-! The kinds of the tokens of a text. Places do not count for them, nor do blanks before the text,
and a word that the text begins with ends where its characters do. -/

namespace SqlTables

open Text (Position)

namespace Scan

variable {p : Position} {gap rest cs : List Char} {c : Char} {t : Head}

def kinds? (s : Scan) : Option (List TokenKind) :=
  if s.unterminated.isSome then none else some (s.tokens.map (·.kind))

theorem kinds?_unplaced (s : Scan) : s.unplaced.kinds? = s.kinds? := by
  simp [kinds?, unplaced, Token.unplaced, Function.comp_def]

theorem kinds?_scanFrom (p q : Position) (cs : List Char) :
    (scanFrom p cs).kinds? = (scanFrom q cs).kinds? := by
  rw [← kinds?_unplaced, scanFrom_unplaced p q, kinds?_unplaced]

theorem kinds?_token (hgap : Gap gap) (hc : isGap c = false) (ht : head? c rest = some t) :
    (scanFrom p (gap ++ c :: rest)).kinds? = (scanFrom p t.rest).kinds?.map (t.kind :: ·) := by
  rw [kinds?_scanFrom p ((p.advance gap).advance t.lexeme) t.rest, scanFrom_token hgap hc ht]
  simp only [kinds?]
  split_ifs <;> rfl

theorem kinds?_of_head?_eq_none (hgap : Gap gap) (hc : isGap c = false)
    (ht : head? c rest = none) : (scanFrom p (gap ++ c :: rest)).kinds? = none := by
  rw [scanFrom_of_head?_eq_none hgap hc ht]
  rfl

theorem kinds?_gap_append (hgap : Gap gap) (cs : List Char) :
    (scanFrom p (gap ++ cs)).kinds? = (scanFrom p cs).kinds? := by
  have hfirst : Gap (cs.takeWhile isGap) := fun _ => List.mem_takeWhile_imp
  have happ : cs.takeWhile isGap ++ cs.dropWhile isGap = cs := List.takeWhile_append_dropWhile
  have hboth : Gap (gap ++ cs.takeWhile isGap) := List.forall_mem_append.2 ⟨hgap, hfirst⟩
  rw [← happ, ← List.append_assoc]
  cases hdrop : cs.dropWhile isGap with
  | nil =>
    rw [List.append_nil, List.append_nil, scanFrom_of_gap hboth, scanFrom_of_gap hfirst]
    rfl
  | cons c rest =>
    have hc : isGap c = false := isGap_of_dropWhile hdrop
    cases ht : head? c rest with
    | none => rw [kinds?_of_head?_eq_none hboth hc ht, kinds?_of_head?_eq_none hfirst hc ht]
    | some t => rw [kinds?_token hboth hc ht, kinds?_token hfirst hc ht]

theorem eq_of_head?_word {w : String} (ht : head? c rest = some t) (hw : t.kind = .word w) :
    w = String.ofList (c :: rest.takeWhile continuesWord) := by
  unfold head? at ht
  split at ht
  · obtain ⟨⟨inside, after⟩, -, rfl⟩ := Option.map_eq_some_iff.1 ht
    dsimp only at hw
    split_ifs at hw
  split at ht
  · cases ht
    cases hw
  split_ifs at ht
  · cases ht
    cases hw
    rfl
  · cases ht
    cases hw
  · cases ht
    unfold punctuation at hw
    split at hw <;> cases hw

theorem eq_of_kinds?_eq_word {w : String} {ks : List TokenKind} (hgap : Gap gap)
    (hc : isGap c = false) (h : (scanFrom p (gap ++ c :: rest)).kinds? = some (.word w :: ks)) :
    w = String.ofList (c :: rest.takeWhile continuesWord) := by
  cases ht : head? c rest with
  | none =>
    rw [kinds?_of_head?_eq_none hgap hc ht] at h
    cases h
  | some t =>
    rw [kinds?_token hgap hc ht, Option.map_eq_some_iff] at h
    obtain ⟨_, -, h⟩ := h
    exact eq_of_head?_word ht (List.cons.inj h).1

end Scan

namespace Token

def kinds (text : String) : Except ScanError (List TokenKind) :=
  ((tokenize (Source.withoutComments text)).mapError ScanError.unplaced).map (·.map (·.kind))

theorem kinds_eq (text : String) : kinds text =
    match (Scan.scanFrom .start (Source.blank text.toList)).kinds? with
    | none => .error (.unterminatedLiteral 1 1)
    | some ks => .ok (ks ++ [.eof]) := by
  rw [kinds, tokenize, Source.withoutComments, Scan.ofText, String.toList_ofList]
  cases hs : (Scan.scanFrom .start (Source.blank text.toList)).unterminated <;>
    simp [Scan.kinds?, hs, Except.mapError, Except.map, ScanError.unplaced]

theorem kinds_eq_iff {text text' : String} : kinds text = kinds text' ↔
    (Scan.scanFrom .start (Source.blank text.toList)).kinds? =
      (Scan.scanFrom .start (Source.blank text'.toList)).kinds? := by
  rw [kinds_eq, kinds_eq]
  cases (Scan.scanFrom .start (Source.blank text.toList)).kinds? <;>
    cases (Scan.scanFrom .start (Source.blank text'.toList)).kinds? <;> simp

end Token

theorem Written.kinds?_eq {ws : List Lexeme} (h : Written ws []) :
    (Scan.scanFrom .start (Source.blank (Lexeme.textOf ws))).kinds? =
      some (ws.map (·.kind)) := by
  have hscans := h.scans .start
  rw [List.append_nil] at hscans
  rw [Source.blank_of_uncommented h.uncommented, hscans.scanFrom_eq gap_nil]
  simp [Scan.kinds?, map_kind_tokensAt]

end SqlTables
